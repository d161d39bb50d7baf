import StackTemplate.Text.Blank
import StackTemplate.Unresolved

/-!
# Declared parameters

A parameter is taken to have its default value, or else the first value it is
allowed to have. A list parameter written as one text is split at its commas.
-/

namespace StackTemplate.Parameter

/-- The declared type; a declaration without one has the empty type. -/
def declaredType (parameter : Value) : String :=
  ((parameter.get? "Type").bind Value.string?).getD ""

/-- Whether the value is read from the parameter store at deployment. -/
def isStored (type : String) : Bool := Text.startsWith type "AWS::SSM::Parameter::Value<"

/-- Whether the value is a list, which may be written as one text. -/
def isList (type : String) : Bool :=
  type = "CommaDelimitedList" || Text.startsWith type "List<"

/-- The first allowed value. -/
def firstAllowed? (parameter : Value) : Option Value :=
  ((parameter.get? "AllowedValues").bind Value.items?).bind List.head?

/-- The items of a list written as one text. -/
def listItems (text : String) : List Value :=
  (Text.split "," text).map fun item => .string (Text.trimBlank item)

/-- The value that a parameter is taken to have. -/
def resolve (name : String) (parameter : Value) : Resolved :=
  let type := declaredType parameter
  if isStored type then .error (.readAtDeployment name)
  else
    match (parameter.get? "Default").or (firstAllowed? parameter) with
    | none => .error (.withoutDefault name)
    | some (.string text) =>
      if isList type then .ok (.array (listItems text)) else .ok (.string text)
    | some value => .ok value

/-- The texts of all allowed values, if they are declared and all are scalars. -/
def allowedTexts? (parameter : Value) : Option (List String) :=
  ((parameter.get? "AllowedValues").bind Value.items?).bind fun items =>
    items.mapM Value.scalarText?

end StackTemplate.Parameter
