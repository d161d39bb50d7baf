import StackTemplate.Intrinsic
import StackTemplate.Text.Quoted

/-!
# Why a value stays unresolved

Values that are known only after deployment, and calls that are not formed as
their function asks, have no static value. The causes are told apart, and each
has its own wording.
-/

namespace StackTemplate

/-- Why an expression has no static value. -/
inductive Unresolved where
  /-- A reference does not name anything. -/
  | referenceWithoutName
  /-- A name is not bound by a loop, and nothing else may be used. -/
  | notLoopVariable (name : String)
  /-- A name is neither bound nor declared. -/
  | notParameter (name : String)
  /-- A parameter's value is read at deployment. -/
  | readAtDeployment (name : String)
  /-- A parameter has neither a default nor an allowed value. -/
  | withoutDefault (name : String)
  /-- The arguments of a map lookup are no list. -/
  | findInMapNotList
  /-- A map lookup has too few or too many arguments. -/
  | findInMapArity
  /-- No entry of the mappings fits the arguments, of which some may be unknown. -/
  | noMappingEntry (name top second : Option String)
  /-- The arguments of a substitution are neither a text nor a text with variables. -/
  | malformedSub
  /-- Some placeholders have no value. -/
  | openPlaceholders (names : List String)
  /-- The region of the availability zones is not known. -/
  | zonesRegion
  /-- The arguments of a join are not two. -/
  | joinArguments
  /-- The delimiter of a join is not known. -/
  | joinDelimiter
  /-- What is joined is no list. -/
  | joinNotList
  /-- An item that is joined is no scalar. -/
  | joinElement
  /-- The arguments of a selection are not two. -/
  | selectArguments
  /-- The position of a selection is not known. -/
  | selectIndex
  /-- What is selected from is no list. -/
  | selectNotList
  /-- The position of a selection is beyond the list. -/
  | selectOutOfBounds
  /-- The arguments of a split are not two. -/
  | splitArguments
  /-- An argument of a split is not known. -/
  | splitUnknown
  /-- What is measured is no list. -/
  | lengthNotList
  /-- The function is never evaluated. -/
  | notStatic (kind : Intrinsic)
  deriving DecidableEq

namespace Unresolved

/-- An argument as it is shown, with a question mark for an unknown one. -/
def shown (argument : Option String) : String := argument.getD "?"

/-- The wording of the cause. -/
def reason : Unresolved → String
  | .referenceWithoutName => "Ref expects a name"
  | .notLoopVariable name => name ++ " is not a loop variable"
  | .notParameter name => name ++ " is not a parameter"
  | .readAtDeployment name => name ++ " is read from the parameter store at deploy time"
  | .withoutDefault name => name ++ " has no default value"
  | .findInMapNotList => "Fn::FindInMap expects a list"
  | .findInMapArity => "Fn::FindInMap expects three or four arguments"
  | .noMappingEntry name top second =>
    "no mapping entry for [" ++ shown name ++ ", " ++ shown top ++ ", " ++ shown second ++ "]"
  | .malformedSub => "malformed Fn::Sub"
  | .openPlaceholders names =>
    "Fn::Sub placeholders " ++ Text.quoteList names ++ " are unresolved"
  | .zonesRegion => "Fn::GetAZs region is unknown"
  | .joinArguments => "Fn::Join expects [delimiter, list]"
  | .joinDelimiter => "Fn::Join delimiter is unknown"
  | .joinNotList => "Fn::Join expects a list"
  | .joinElement => "Fn::Join element is not a scalar"
  | .selectArguments => "Fn::Select expects [index, list]"
  | .selectIndex => "Fn::Select index is unknown"
  | .selectNotList => "Fn::Select expects a list"
  | .selectOutOfBounds => "Fn::Select index out of bounds"
  | .splitArguments => "Fn::Split expects [delimiter, string]"
  | .splitUnknown => "Fn::Split arguments are unknown"
  | .lengthNotList => "Fn::Length expects a list"
  | .notStatic kind => kind.name ++ " can not be evaluated statically"

/-- The message of the error. -/
def message (cause : Unresolved) : String := "unresolved: " ++ cause.reason

end Unresolved

/-- The static value of an expression, or the cause why it has none. -/
abbrev Resolved := Except Unresolved Value

end StackTemplate
