import StackTemplate.Value.Path

/-!
# Diagnostics of the expansion

A loop that is not formed as it should be, and a key that a mapping would get
twice, end the expansion. A diagnostic says what is wrong, where, and with
which part of the document.
-/

namespace StackTemplate

/-- What is wrong. -/
inductive Fault where
  /-- A loop has a number of parts other than three. -/
  | forEachArity (count : Nat)
  /-- A loop is no list. -/
  | forEachNotList
  /-- The loop variable is no text. -/
  | loopVariableNotString
  /-- The collection is no list. -/
  | collectionNotList
  /-- The body of a loop is no mapping, or does not produce one. -/
  | outputNotMapping
  /-- A mapping would get a key twice. -/
  | duplicateKey (key : String)
  /-- The expansion itself failed. -/
  | internal (text : String)
  deriving DecidableEq

/-- The wording of the fault. -/
def Fault.message : Fault → String
  | .forEachArity count =>
    "Fn::ForEach must be a list of [identifier, collection, output], found " ++
      String.ofList (Text.natural count) ++ " element(s)"
  | .forEachNotList => "Fn::ForEach must be a list"
  | .loopVariableNotString => "Fn::ForEach loop identifier must be a string"
  | .collectionNotList => "Fn::ForEach collection must be a list"
  | .outputNotMapping => "Fn::ForEach output must be a mapping"
  | .duplicateKey key => "duplicate key " ++ key ++ " after Fn::ForEach expansion"
  | .internal text => "internal error during transform: " ++ text

/-- A fault at a place of the document. -/
structure Diagnostic where
  /-- What is wrong. -/
  fault : Fault
  /-- Where it is. -/
  path : Path
  /-- The part of the document that is at fault. -/
  node : Value

/-- The wording of the fault with its place. -/
def Diagnostic.message (diagnostic : Diagnostic) : String :=
  diagnostic.fault.message ++ " at /" ++ diagnostic.path.text "/"

/-- The wording of a failed expansion: that of its first diagnostic. -/
def Diagnostic.summary : List Diagnostic → String
  | [] => "transform failed"
  | diagnostic :: _ => diagnostic.message

end StackTemplate
