import StackTemplate.Mapping
import StackTemplate.Parameter
import StackTemplate.Placeholder
import StackTemplate.Pseudo
import StackTemplate.Scope

/-!
# Static values of expressions

An expression is resolved against the loop variables in scope, the
pseudo-parameters, the parameters' defaults and the mappings section. What is
known only after deployment stays unresolved. A stricter mode uses the loop
variables and the mappings alone.
-/

namespace StackTemplate

/-- What a template offers to its expressions. -/
structure Context where
  /-- The declared parameters. -/
  parameters : List (String × Value)
  /-- The mappings section. -/
  mappings : List (String × Value)
  /-- The region that decides the pseudo-parameters. -/
  region : String

/-- What expressions are resolved against. -/
structure Evaluator where
  /-- What the template offers. -/
  context : Context
  /-- The loop variables. -/
  scope : Scope
  /-- Whether parameters and pseudo-parameters are off limits. -/
  bindingsOnly : Bool

namespace Evaluator

/-- The value of a name: a loop variable, a pseudo-parameter or a parameter. -/
def resolveRef (e : Evaluator) (name : String) : Resolved :=
  match e.scope.get? name with
  | some value => .ok value
  | none =>
    if e.bindingsOnly then .error (.notLoopVariable name)
    else
      match Pseudo.value? e.context.region name with
      | some value => .ok value
      | none =>
        match Entries.get? name e.context.parameters with
        | some parameter => Parameter.resolve name parameter
        | none => .error (.notParameter name)

/-- The text of a resolved scalar; unknown for anything else. -/
def scalar? (outcome : Resolved) : Option String :=
  match outcome with
  | .ok value => value.scalarText?
  | .error _ => none

/-- All values, or the first cause. -/
def allItems : List Resolved → Except Unresolved (List Value)
  | [] => .ok []
  | outcome :: outcomes =>
    match outcome with
    | .error cause => .error cause
    | .ok value => (allItems outcomes).map (value :: ·)

/-- All entries, or the first cause. -/
def allEntries : List (String × Resolved) → Except Unresolved (List (String × Value))
  | [] => .ok []
  | (key, outcome) :: outcomes =>
    match outcome with
    | .error cause => .error cause
    | .ok value => (allEntries outcomes).map ((key, value) :: ·)

/-- The outcome of a map lookup, given what is known of its arguments and the
value to fall back on. -/
def lookupMap (e : Evaluator) (name top second : Option String) (default : Option Value) :
    Resolved :=
  match (Mapping.find? e.context.mappings name top second).or default with
  | some value => .ok value
  | none => .error (.noMappingEntry name top second)

/-- The default value that the options of a map lookup offer: resolved if
possible, else as it is written. -/
def defaultValue? (options : List (String × Value)) (outcomes : List (String × Resolved)) :
    Option Value :=
  match Entries.get? "DefaultValue" outcomes with
  | some (.ok value) => some value
  | some (.error _) => Entries.get? "DefaultValue" options
  | none => none

/-- The value of a placeholder: a variable of the substitution itself, or a
reference. Attributes of resources have none. -/
def placeholderValue? (e : Evaluator) (ownNames : List (String × Resolved)) (name : String) :
    Option Value :=
  match Entries.get? name ownNames with
  | some outcome => outcome.toOption
  | none => if '.' ∈ name.toList then none else (e.resolveRef name).toOption

/-- The outcome of a substitution, given the outcomes of its own variables. -/
def substituteText (e : Evaluator) (text : String) (ownNames : List (String × Resolved)) :
    Resolved :=
  let substituted := Placeholder.substituteDollar (e.placeholderValue? ownNames) text
  if substituted.isComplete then .ok (.string (Placeholder.unescape substituted.text))
  else .error (.openPlaceholders substituted.unresolved)

/-- The availability zones of a region; the empty text asks for the analysed
region. -/
def zones (e : Evaluator) (region : Option String) : Resolved :=
  let inRegion (region : String) : Resolved :=
    .ok (.array [.string (region ++ "a"), .string (region ++ "b"), .string (region ++ "c")])
  match region with
  | none => .error .zonesRegion
  | some region =>
    if region ≠ "" then inRegion region
    else if e.bindingsOnly then .error .zonesRegion
    else inRegion e.context.region

/-- Joins the items of a list. -/
def joinItems (delimiter : Option String) (items : Resolved) : Resolved :=
  match delimiter with
  | none => .error .joinDelimiter
  | some delimiter =>
    match items with
    | .error cause => .error cause
    | .ok (.array items) =>
      match items.mapM Value.scalarText? with
      | some texts => .ok (.string (Text.join delimiter texts))
      | none => .error .joinElement
    | .ok _ => .error .joinNotList

/-- Selects an item of a list. -/
def selectItem (position : Option String) (items : Resolved) : Resolved :=
  match position.bind Text.natural? with
  | none => .error .selectIndex
  | some position =>
    match items with
    | .error cause => .error cause
    | .ok (.array items) =>
      match items[position]? with
      | some item => .ok item
      | none => .error .selectOutOfBounds
    | .ok _ => .error .selectNotList

/-- Splits a text. -/
def splitText (delimiter text : Option String) : Resolved :=
  match delimiter, text with
  | some delimiter, some text => .ok (.array ((Text.split delimiter text).map .string))
  | _, _ => .error .splitUnknown

/-- Counts the items of a list. -/
def countItems (items : Resolved) : Resolved :=
  match items with
  | .error cause => .error cause
  | .ok (.array items) => .ok (.integer (Int64.ofNat items.length))
  | .ok _ => .error .lengthNotList

/-- Writes a value as JSON. -/
def jsonText (value : Resolved) : Resolved := value.map fun value => .string (Json.render value)

mutual

/-- The static value of an expression. -/
def resolve (e : Evaluator) : Value → Resolved
  | .object [(key, args)] =>
    match Intrinsic.functionOfKey? key, args with
    | some .ref, .string name => e.resolveRef name
    | some .ref, _ => .error .referenceWithoutName
    | some .findInMap, .array [name, top, second] =>
      e.lookupMap (scalar? (resolve e name)) (scalar? (resolve e top)) (scalar? (resolve e second))
        none
    | some .findInMap, .array [name, top, second, options] =>
      let default := match options with
        | .object entries => defaultValue? entries (entryOutcomes e entries)
        | _ => none
      e.lookupMap (scalar? (resolve e name)) (scalar? (resolve e top)) (scalar? (resolve e second))
        default
    | some .findInMap, .array _ => .error .findInMapArity
    | some .findInMap, _ => .error .findInMapNotList
    | some .sub, .string text => e.substituteText text []
    | some .sub, .array [.string text] => e.substituteText text []
    | some .sub, .array [.string text, .object ownNames] =>
      e.substituteText text (entryOutcomes e ownNames)
    | some .sub, _ => .error .malformedSub
    | some .getAZs, region => e.zones (scalar? (resolve e region))
    | some .join, .array [delimiter, items] =>
      joinItems (scalar? (resolve e delimiter)) (resolve e items)
    | some .join, _ => .error .joinArguments
    | some .select, .array [position, items] =>
      selectItem (scalar? (resolve e position)) (resolve e items)
    | some .select, _ => .error .selectArguments
    | some .split, .array [delimiter, text] =>
      splitText (scalar? (resolve e delimiter)) (scalar? (resolve e text))
    | some .split, _ => .error .splitArguments
    | some .length, items => countItems (resolve e items)
    | some .toJsonString, value => jsonText (resolve e value)
    | some kind, _ => .error (.notStatic kind)
    | none, value => (resolve e value).map fun value => .object [(key, value)]
  | .object entries => (allEntries (entryOutcomes e entries)).map .object
  | .array items => (allItems (itemOutcomes e items)).map .array
  | scalar => .ok scalar

/-- The outcome of every item. -/
def itemOutcomes (e : Evaluator) : List Value → List Resolved
  | [] => []
  | item :: items => resolve e item :: itemOutcomes e items

/-- The outcome of every entry, under its key. -/
def entryOutcomes (e : Evaluator) : List (String × Value) → List (String × Resolved)
  | [] => []
  | (key, value) :: entries => (key, resolve e value) :: entryOutcomes e entries

end

end Evaluator

end StackTemplate
