import StackTemplate.Text.Split
import StackTemplate.Value.Basic

/-!
# Intrinsic functions

A mapping with one entry whose key names an intrinsic function is a call of
that function. Loops look alike, but they may stand beside other entries and
produce entries, not a value; they are no calls.
-/

namespace StackTemplate

/-- What a reserved key asks for. -/
inductive Intrinsic where
  /-- The value of a parameter, a resource or a loop variable. -/
  | ref
  /-- One of two values, by a named condition. -/
  | ternary
  /-- An entry of the mappings section. -/
  | findInMap
  /-- A text with placeholders. -/
  | sub
  /-- A loop over a collection; its key carries a name. -/
  | forEach
  /-- The JSON text of a value. -/
  | toJsonString
  /-- The number of items of a list. -/
  | length
  /-- An attribute of a resource. -/
  | getAtt
  /-- The availability zones of a region. -/
  | getAZs
  /-- Texts with a delimiter between them. -/
  | join
  /-- One item of a list. -/
  | select
  /-- The pieces of a text around a delimiter. -/
  | split
  /-- The Base64 encoding of a text. -/
  | base64
  /-- Address blocks of a network. -/
  | cidr
  /-- A value that another stack exports. -/
  | importValue
  /-- Whether two values are equal. -/
  | equals
  /-- Whether all conditions hold. -/
  | and
  /-- Whether any condition holds. -/
  | or
  /-- Whether a condition does not hold. -/
  | not
  deriving DecidableEq, Repr

namespace Intrinsic

/-- The key of a loop without the loop's name. -/
def forEachStart : String := "Fn::ForEach::"

/-- Whether a key is a loop's: its start and a non-empty name. -/
def isForEachKey (key : String) : Bool :=
  Text.startsWith key forEachStart && key != forEachStart

/-- What a key asks for, if it is reserved. -/
def ofKey? (key : String) : Option Intrinsic :=
  match key with
  | "Ref" => some .ref
  | "Fn::If" => some .ternary
  | "Fn::FindInMap" => some .findInMap
  | "Fn::Sub" => some .sub
  | "Fn::ToJsonString" => some .toJsonString
  | "Fn::Length" => some .length
  | "Fn::GetAtt" => some .getAtt
  | "Fn::GetAZs" => some .getAZs
  | "Fn::Join" => some .join
  | "Fn::Select" => some .select
  | "Fn::Split" => some .split
  | "Fn::Base64" => some .base64
  | "Fn::Cidr" => some .cidr
  | "Fn::ImportValue" => some .importValue
  | "Fn::Equals" => some .equals
  | "Fn::And" => some .and
  | "Fn::Or" => some .or
  | "Fn::Not" => some .not
  | key => if isForEachKey key then some .forEach else none

/-- Whether a call produces a value. Only loops do not. -/
def isFunction (kind : Intrinsic) : Bool := kind != .forEach

/-- The function that a key calls. -/
def functionOfKey? (key : String) : Option Intrinsic := (ofKey? key).filter isFunction

/-- The name used in messages. -/
def name : Intrinsic → String
  | .ref => "Ref"
  | .ternary => "If"
  | .findInMap => "FindInMap"
  | .sub => "Sub"
  | .forEach => "ForEach"
  | .toJsonString => "ToJsonString"
  | .length => "Length"
  | .getAtt => "GetAtt"
  | .getAZs => "GetAZs"
  | .join => "Join"
  | .select => "Select"
  | .split => "Split"
  | .base64 => "Base64"
  | .cidr => "Cidr"
  | .importValue => "ImportValue"
  | .equals => "Equals"
  | .and => "And"
  | .or => "Or"
  | .not => "Not"

end Intrinsic

namespace Value

/-- The function that a value calls, and its arguments. -/
def call? (value : Value) : Option (Intrinsic × Value) :=
  match value with
  | .object [(key, args)] => (Intrinsic.functionOfKey? key).map fun kind => (kind, args)
  | _ => none

/-- Whether a value calls a function other than the ternary. -/
def callsOther (value : Value) : Bool :=
  match value.call? with
  | some (kind, _) => kind != .ternary
  | none => false

/-- The reference that stands for an absent value. -/
def isNoValue : Value → Bool
  | .object [(key, .string name)] => key = "Ref" && name = "AWS::NoValue"
  | _ => false

mutual

/-- Whether a value holds a reserved key anywhere. -/
def usesIntrinsic : Value → Bool
  | .array items => itemsUseIntrinsic items
  | .object entries => entriesUseIntrinsic entries
  | _ => false

/-- Whether an item holds a reserved key. -/
def itemsUseIntrinsic : List Value → Bool
  | [] => false
  | item :: items => usesIntrinsic item || itemsUseIntrinsic items

/-- Whether an entry has or holds a reserved key. -/
def entriesUseIntrinsic : List (String × Value) → Bool
  | [] => false
  | (key, value) :: entries =>
    (Intrinsic.ofKey? key).isSome || usesIntrinsic value || entriesUseIntrinsic entries

end

end Value

end StackTemplate
