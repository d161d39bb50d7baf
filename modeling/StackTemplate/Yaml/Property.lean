import StackTemplate.Yaml.Scalar
import StackTemplate.Yaml.Tag

/-!
# Reading directives, anchors and tags

Directives stand before a document; anchors and tags stand before a node.
-/

namespace StackTemplate.Yaml

/-- The name of an anchor or an alias, from its indicator on. Only blanks, line
ends and a few indicators may follow it. -/
def anchorName? (cursor : Cursor) : Option (String × Cursor) :=
  let (name, cursor) := (cursor.advance 1).takeWhile isWordChar
  let mayFollow := ['?', ':', ',', ']', '\x7d', '%', '@', '\x60']
  if name ≠ [] ∧ (cursor.blankOrEnd 0 ∨ cursor.next fun c => mayFollow.contains c) then
    some (String.ofList name, cursor)
  else none

/-- Characters of tags besides letters, digits, hyphens and underscores. -/
def isTagChar (brackets : Bool) (c : Char) : Bool :=
  let signs := [';', '/', '?', ':', '@', '&', '=', '+', '$', '.', '%', '!', '~', '*', '\'', '(',
    ')']
  isWordChar c || signs.contains c || (brackets && (c = ',' || c = '[' || c = ']'))

/-- The octet that a percent sign and two hexadecimal digits stand for, and the
text after them. -/
def escapedOctet? : List Char → Option (Nat × List Char)
  | '%' :: a :: b :: rest => (hexNumber? [a, b]).map fun n => (n, rest)
  | _ => none

/-- How many octets follow the given first octet of a character. -/
def followers? (first : Nat) : Option Nat :=
  if first < 0x80 then some 0
  else if first < 0xC0 then none
  else if first < 0xE0 then some 1
  else if first < 0xF0 then some 2
  else if first < 0xF8 then some 3
  else none

/-- A number of escaped octets that may follow the first one of a character. -/
def escapedFollowers? : Nat → List Char → Option (List UInt8)
  | 0, _ => some []
  | count + 1, cs =>
    match escapedOctet? cs with
    | some (n, rest) =>
      if 0x80 ≤ n ∧ n < 0xC0 then
        (escapedFollowers? count rest).map (UInt8.ofNat n :: ·)
      else none
    | none => none

/-- The escaped octets of one character. The first one tells how many there are,
but together they may still be no character. -/
def escapedOctets? (cs : List Char) : Option (List UInt8) :=
  match escapedOctet? cs with
  | some (first, rest) =>
    match followers? first with
    | some count => (escapedFollowers? count rest).map (UInt8.ofNat first :: ·)
    | none => none
  | none => none

/-- The octet of a character of a tag. -/
def tagOctet (c : Char) : UInt8 := UInt8.ofNat c.toNat

/-- The octets of a tag. Those met so far are kept in reverse, and the first
number bounds how many characters are read. -/
def tagOctets (brackets : Bool) : Nat → List UInt8 → Cursor → Option (List UInt8 × Cursor)
  | 0, met, cursor => some (met.reverse, cursor)
  | fuel + 1, met, cursor =>
    match cursor.rest with
    | c :: _ =>
      if c = '%' then
        match escapedOctets? cursor.rest with
        | some octets =>
          tagOctets brackets fuel (octets.reverse ++ met) (cursor.advance (3 * octets.length))
        | none => none
      else if isTagChar brackets c then
        tagOctets brackets fuel (tagOctet c :: met) (cursor.advance 1)
      else some (met.reverse, cursor)
    | [] => some (met.reverse, cursor)

/-- One or more octets of a tag, up to the first zero. -/
def tagText? (brackets : Bool) (cursor : Cursor) : Option (List UInt8 × Cursor) :=
  match tagOctets brackets (cursor.rest.length + 1) [] cursor with
  | some ([], _) => none
  | some (octets, cursor) => some (Tag.untilZero octets, cursor)
  | none => none

/-- A tag handle: an exclamation mark, a word and perhaps another mark. -/
def tagHandle? (cursor : Cursor) : Option (List Char × Cursor) :=
  if cursor.sees '!' 0 then
    let (name, cursor) := (cursor.advance 1).takeWhile isWordChar
    if cursor.sees '!' 0 then some ('!' :: name ++ ['!'], cursor.advance 1)
    else some ('!' :: name, cursor)
  else none

/-- A tag, from its exclamation mark on, as a handle and a suffix. Inside
brackets and braces a comma may follow it. -/
def tag? (flow : Bool) (cursor : Cursor) : Option (String × List UInt8 × Cursor) := do
  let (handle, suffix, cursor) ←
    if cursor.sees '<' 1 then do
      let (text, cursor) ← tagText? true (cursor.advance 2)
      if cursor.sees '>' 0 then some ([], text, cursor.advance 1) else none
    else do
      let (handle, cursor) ← tagHandle? cursor
      if 1 < handle.length ∧ handle.getLast? = some '!' then do
        let (suffix, cursor) ← tagText? false cursor
        some (handle, suffix, cursor)
      else do
        let (octets, cursor) ← tagOctets false (cursor.rest.length + 1) [] cursor
        let suffix := Tag.untilZero ((handle.drop 1).map tagOctet ++ octets)
        if suffix = [] then some ([], [Tag.mark], cursor) else some (['!'], suffix, cursor)
  if (flow ∧ cursor.sees ',' 0) ∨ cursor.blankOrEnd 0 then
    some (String.ofList handle, suffix, cursor)
  else none

/-- What a directive says. -/
inductive Directive where
  /-- The version that the text claims to follow. -/
  | version (major minor : Nat)
  /-- An abbreviation for the starts of tags. -/
  | tag (handle : String) (expansion : List UInt8)

/-- A number of at most nine digits. -/
def versionNumber? (cursor : Cursor) : Option (Nat × Cursor) :=
  let (digits, cursor) := cursor.takeWhile Char.isDigit
  if digits = [] ∨ 9 < digits.length then none
  else some (Nat.ofDigitChars 10 digits 0, cursor)

/-- The version after its directive's name. -/
def version? (cursor : Cursor) : Option (Directive × Cursor) := do
  let (major, cursor) ← versionNumber? (cursor.skipWhile isBlank)
  if cursor.sees '.' 0 then
    let (minor, cursor) ← versionNumber? (cursor.advance 1)
    return (.version major minor, cursor)
  else none

/-- The abbreviation after its directive's name. -/
def abbreviation? (cursor : Cursor) : Option (Directive × Cursor) := do
  let (handle, cursor) ← tagHandle? (cursor.skipWhile isBlank)
  if (handle.getLast? = some '!') ∧ cursor.next isBlank then
    let (text, cursor) ← tagText? true (cursor.skipWhile isBlank)
    if cursor.blankOrEnd 0 then
      return (.tag (String.ofList handle) text, cursor)
    else none
  else none

/-- A directive, from its percent sign to the end of its line. -/
def directive? (cursor : Cursor) : Option (Directive × Cursor) := do
  let (name, cursor) := (cursor.advance 1).takeWhile isWordChar
  let (directive, cursor) ←
    if !cursor.blankOrEnd 0 then none
    else if name = ['Y', 'A', 'M', 'L'] then version? cursor
    else if name = ['T', 'A', 'G'] then abbreviation? cursor
    else none
  let cursor := (cursor.skipWhile isBlank).skipComment
  if cursor.atBreakOrEnd then some (directive, cursor.skipBreak) else none

end StackTemplate.Yaml
