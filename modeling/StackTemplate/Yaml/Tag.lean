/-!
# YAML tags

A tag names the type of the node after it. It is a list of octets and not a
text, because escapes in it may spell octets that are no characters. A zero ends
it.
-/

namespace StackTemplate.Yaml

/-- A tag. -/
structure Tag where
  /-- The octets that spell the tag. -/
  octets : List UInt8
  deriving DecidableEq, Repr

/-- What a tag says about its node. -/
inductive TagMeaning where
  /-- Nothing. -/
  | untyped
  /-- A truth value. -/
  | boolean
  /-- A whole number. -/
  | integer
  /-- A number. -/
  | decimal
  /-- The missing value. -/
  | null
  /-- A text. Sequences and mappings may say so, too. -/
  | text
  /-- A type that only an application knows. -/
  | foreign
  deriving DecidableEq, Repr

namespace Tag

/-- The octets of a text. -/
def octetsOf (text : String) : List UInt8 := text.toUTF8.data.toList

/-- The octets before the first zero. -/
def untilZero (octets : List UInt8) : List UInt8 := octets.takeWhile (· ≠ 0)

/-- Whether octets are the octets of a text. -/
def isText (octets : List UInt8) : Bool := (String.fromUTF8? ⟨octets.toArray⟩).isSome

/-- The exclamation mark that tags of applications start with. -/
def mark : UInt8 := 0x21

/-- What the tags of the standard types start with. -/
def standardStart : List UInt8 := octetsOf "tag:yaml.org,2002:"

/-- The tag of a standard type. -/
def standard (name : String) : Tag := ⟨standardStart ++ octetsOf name⟩

/-- Whether a tag starts like those of applications. -/
def isMarked (tag : Tag) : Bool := tag.octets.head? == some mark

/-- What a tag says. A tag of an application that is no text says nothing, and
every unknown tag of another kind stands for a text. -/
def meaning (tag : Tag) : TagMeaning :=
  if tag.isMarked then if isText tag.octets then .foreign else .untyped
  else if tag = standard "bool" then .boolean
  else if tag = standard "int" then .integer
  else if tag = standard "float" then .decimal
  else if tag = standard "null" then .null
  else .text

end Tag

/-- What the tag of a node says, if it has one. -/
def meaningOf (tag : Option Tag) : TagMeaning :=
  match tag with
  | some tag => tag.meaning
  | none => .untyped

end StackTemplate.Yaml
