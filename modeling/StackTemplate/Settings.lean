import StackTemplate.Json.Parser
import StackTemplate.Text.Natural

/-!
# Settings

What an analysis may be told besides the template: the regions it is made for
and how many scenarios one enumeration may return. Settings are written as a
JSON mapping in which every field may be left out and the values of unknown
fields do not matter, or as a list of the fields' values in order.
-/

namespace StackTemplate

/-- The region of an analysis that is told of none. -/
def defaultRegion : String := "us-east-1"

/-- What an analysis is told besides the template. -/
structure Settings where
  /-- The regions; the first one decides the pseudo-parameters. -/
  regions : List String := [defaultRegion]
  /-- The greatest number of scenarios that one enumeration returns. -/
  maxScenarios : Nat := 128

namespace Settings

/-- The region that decides the pseudo-parameters. -/
def primaryRegion (settings : Settings) : String := settings.regions.headD defaultRegion

/-- The texts of a list of texts. -/
def texts? : List Json.Tree → Option (List String)
  | [] => some []
  | .string (some text) :: trees => (texts? trees).map (text :: ·)
  | _ => none

/-- A list of region names. -/
def regions? : Json.Tree → Option (List String)
  | .array items => texts? items
  | _ => none

/-- A limit: a natural number spelled without sign, point and exponent. -/
def limit? : Json.Tree → Option Nat
  | .number spelling =>
    if spelling.isWhole && !spelling.negative && spelling.integralValue ≤ Text.wordMax then
      some spelling.integralValue
    else none
  | _ => none

/-- The values of all members with a key. -/
def valuesUnder (key : String) (members : List (Option String × Json.Tree)) : List Json.Tree :=
  (members.filter fun member => member.1 = some key).map Prod.snd

/-- A field that may be left out but not repeated. -/
def field? {α : Type} (read : Json.Tree → Option α) (default : α) :
    List Json.Tree → Option α
  | [] => some default
  | [tree] => read tree
  | _ => none

/-- The settings of a JSON text. -/
def ofTree? : Json.Tree → Option Settings
  | .object members => do
    guard (members.all fun member => member.1.isSome)
    let regions ← field? regions? ({} : Settings).regions (valuesUnder "regions" members)
    let limit ← field? limit? ({} : Settings).maxScenarios (valuesUnder "max_scenarios" members)
    return ⟨regions, limit⟩
  | .array [] => some {}
  | .array [regions] => (regions? regions).map fun names => { regions := names }
  | .array [regions, limit] =>
    match regions? regions, limit? limit with
    | some names, some count => some ⟨names, count⟩
    | _, _ => none
  | _ => none

/-- Reads settings. -/
def parse? (text : String) : Option Settings := (Json.Tree.parse? text).bind ofTree?

end Settings

end StackTemplate
