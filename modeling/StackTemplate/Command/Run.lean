import StackTemplate.Analysis.Report
import StackTemplate.Command.Arguments
import StackTemplate.Expansion.Basic
import StackTemplate.Json.Printer
import StackTemplate.Yaml.Printer

/-!
# Running a command

A command turns a template into a document and writes it, or says what went
wrong. Only the expansion itself insists on a template whose loops can be
expanded; everything else goes on with the template as it is.
-/

namespace StackTemplate.Command

/-- Why a command fails. -/
inductive Failure where
  /-- The template cannot be read. -/
  | load (error : LoadError)
  /-- The template cannot be expanded. -/
  | expansion (diagnostic : Diagnostic)
  /-- There is nothing at a path. -/
  | notFound (path : String)

/-- The wording of a failure. -/
def Failure.message : Failure → String
  | .load error => error.message
  | .expansion diagnostic => diagnostic.message
  | .notFound path => "Nothing found at " ++ path

/-- The result of a command as a text. -/
def Format.render : Format → Value → String
  | .json, value => Json.renderIndented value
  | .yaml, value => Yaml.render value

/-- The analysis of a template in its primary region. -/
def analysisOf (settings : Settings) (template : Template) : Analysis :=
  ⟨template, (ConditionIndex.ofTemplate template settings).builder, some settings.primaryRegion,
    []⟩

/-- The template without loops, or as it is if they cannot be expanded. -/
def withoutLoops (settings : Settings) (template : Template) : Template :=
  { template with root := (template.expandOrKeep settings).2 }

/-- The document that an action makes of a template. -/
def Action.result (settings : Settings) (template : Template) : Action → Except Failure Value
  | .expand => (template.expand settings).mapError .expansion
  | .conditions path insideFunctions onlyDeepest =>
    let analysis := analysisOf settings (withoutLoops settings template)
    .ok (analysis.conditionsAlong ⟨.ofText path, insideFunctions, onlyDeepest⟩).1.toValue
  | .scenarios path insideFunctions =>
    let analysis := analysisOf settings (withoutLoops settings template)
    .ok (Scenario.listValue (analysis.scenariosBelow (.ofText path) insideFunctions
      (some settings.primaryRegion)).1)
  | .flatten path preserveShape =>
    let analysis := analysisOf settings (withoutLoops settings template)
    match analysis.template.root.lookup (.ofText path) with
    | some value => .ok (Flattened.listValue (analysis.flatten preserveShape value))
    | none => .error (.notFound path)
  | .guarded path resource =>
    let analysis := analysisOf settings (withoutLoops settings template)
    .ok (Scenario.listValue (analysis.danglingScenarios (.ofText path) resource).1)

/-- What a command leaves behind. -/
structure Outcome where
  /-- Zero for success, one for a failure, two for a malformed command line. -/
  exitCode : Nat
  /-- What it writes as its result. -/
  output : String
  /-- What it says about a failure. -/
  error : String
  deriving DecidableEq, Repr

/-- The outcome of a malformed command line. -/
def Outcome.usage : Outcome := ⟨2, "", ""⟩

/-- Runs a command on the template it names, if that can be read. -/
def Invocation.run (invocation : Invocation) (template : Except LoadError Template) : Outcome :=
  let result := (template.mapError .load).bind (invocation.action.result invocation.settings)
  match result with
  | .ok value => ⟨0, invocation.format.render value, ""⟩
  | .error failure => ⟨1, "", failure.message⟩

end StackTemplate.Command
