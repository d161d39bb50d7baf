import StackTemplate.Settings

/-!
# The arguments of the command line

A command line names a command and gives it operands and options. Options may
stand before or after operands; those for all commands may also stand before
the command. After two hyphens every argument is an operand.
-/

namespace StackTemplate.Command

/-- How a result is written. -/
inductive Format where
  /-- As indented JSON. -/
  | json
  /-- As YAML. -/
  | yaml
  deriving DecidableEq, Repr

/-- What to do with a template. -/
inductive Action where
  /-- Write the template without loops. -/
  | expand
  /-- Write the conditions that gate a path. -/
  | conditions (path : String) (insideFunctions onlyDeepest : Bool)
  /-- Write the scenarios that decide the ternaries below a path. -/
  | scenarios (path : String) (insideFunctions : Bool)
  /-- Write the shapes of the value at a path. -/
  | flatten (path : String) (preserveShape : Bool)
  /-- Write the scenarios in which a reference to a resource dangles. -/
  | guarded (path resource : String)
  deriving DecidableEq, Repr

/-- Everything that a command line says. -/
structure Invocation where
  /-- The settings of the analysis. -/
  settings : Settings
  /-- The file that holds the template; without one it is read from the input. -/
  file : Option String
  /-- How the result is written. -/
  format : Format
  /-- What to do. -/
  action : Action

/-- An option. -/
inductive Switch where
  /-- A region to analyse for. -/
  | region
  /-- The greatest number of scenarios. -/
  | maxScenarios
  /-- The file that holds the template. -/
  | inputFile
  /-- How the result is written. -/
  | outputFormat
  /-- Leave out ternaries inside functions. -/
  | excludeFunctions
  /-- Only look at the ternary closest to the end of the path. -/
  | onlyDeepest
  /-- Keep mappings that lose all their keys. -/
  | preserveShape
  deriving DecidableEq, Repr

namespace Switch

/-- The name after two hyphens. -/
def name : Switch → String
  | .region => "region"
  | .maxScenarios => "max-scenarios"
  | .inputFile => "input-file"
  | .outputFormat => "output-format"
  | .excludeFunctions => "exclude-functions"
  | .onlyDeepest => "only-deepest"
  | .preserveShape => "preserve-shape"

/-- The letter after one hyphen. -/
def letter? : Switch → Option Char
  | .region => some 'r'
  | .inputFile => some 'f'
  | .outputFormat => some 'F'
  | _ => none

/-- Whether a value belongs to the option. -/
def takesValue : Switch → Bool
  | .region => true
  | .maxScenarios => true
  | .inputFile => true
  | .outputFormat => true
  | _ => false

/-- The options for all commands. -/
def shared : List Switch := [.region, .maxScenarios]

/-- The option that an argument names, and the value inside the argument. -/
def ofArgument? (known : List Switch) (argument : String) : Option (Switch × Option String) :=
  match argument.toList with
  | '-' :: '-' :: cs =>
    let name := String.ofList (cs.takeWhile (· ≠ '='))
    let value := match cs.dropWhile (· ≠ '=') with
      | _ :: rest => some (String.ofList rest)
      | [] => none
    (known.find? fun switch => switch.name = name).map fun switch => (switch, value)
  | '-' :: c :: cs =>
    let value := match cs with
      | [] => none
      | '=' :: rest => some (String.ofList rest)
      | cs => some (String.ofList cs)
    (known.find? fun switch => switch.letter? = some c).map fun switch => (switch, value)
  | _ => none

end Switch

/-- Whether an argument looks like an option. A single hyphen does not. -/
def isOption (argument : String) : Bool :=
  match argument.toList with
  | '-' :: _ :: _ => true
  | _ => false

/-- Options with their values and operands, in the order of the arguments. -/
structure Reading where
  /-- The options; those that take no value have an empty one. -/
  options : List (Switch × String) := []
  /-- The operands. -/
  operands : List String := []

namespace Reading

/-- Puts an option in front. -/
def addOption (switch : Switch) (value : String) (reading : Reading) : Reading :=
  { reading with options := (switch, value) :: reading.options }

/-- Puts an operand in front. -/
def addOperand (operand : String) (reading : Reading) : Reading :=
  { reading with operands := operand :: reading.operands }

/-- All values of an option. -/
def values (reading : Reading) (switch : Switch) : List String :=
  (reading.options.filter fun option => option.1 = switch).map Prod.snd

/-- Whether an option is given. -/
def has (reading : Reading) (switch : Switch) : Bool := !(reading.values switch).isEmpty

end Reading

/-- Reads arguments. Where a command is still to be named, the first operand
ends the reading: it and all that follows are operands. -/
def readArguments (known : List Switch) (untilCommand : Bool) : List String → Option Reading
  | [] => some {}
  | argument :: rest =>
    if argument = "--" then
      if untilCommand then none else some { operands := rest }
    else if isOption argument then
      match Switch.ofArgument? known argument with
      | none => none
      | some (switch, some value) =>
        if switch.takesValue then
          (readArguments known untilCommand rest).map (Reading.addOption switch value)
        else none
      | some (switch, none) =>
        if switch.takesValue then
          match rest with
          | value :: rest =>
            if isOption value then none
            else (readArguments known untilCommand rest).map (Reading.addOption switch value)
          | [] => none
        else (readArguments known untilCommand rest).map (Reading.addOption switch "")
    else if untilCommand then some { operands := argument :: rest }
    else (readArguments known untilCommand rest).map (Reading.addOperand argument)

/-- Whether no option but the region is repeated. -/
def Reading.isUnrepeated (reading : Reading) : Bool :=
  ((reading.options.map Prod.fst).filter (· ≠ .region)).Nodup

/-- The greatest number of scenarios, if it is given and can be read. -/
def limit? (values : List String) : Option (Option Nat) :=
  match values with
  | [] => some none
  | value :: _ => (Text.natural? value).map some

/-- The settings of the options before and after the command. The latter win. -/
def settings? (before after : Reading) : Option Settings :=
  match limit? (before.values .maxScenarios), limit? (after.values .maxScenarios) with
  | some early, some late =>
    let regions := match after.values .region, before.values .region with
      | [], [] => ({} : Settings).regions
      | [], regions => regions
      | regions, _ => regions
    some ⟨regions, (late.orElse fun _ => early).getD ({} : Settings).maxScenarios⟩
  | _, _ => none

/-- The format that the options name. -/
def format? (reading : Reading) : Option Format :=
  match reading.values .outputFormat with
  | [] => some .yaml
  | "json" :: _ => some .json
  | "yaml" :: _ => some .yaml
  | _ => none

/-- The file that the options name, which must have a name. -/
def file? (reading : Reading) : Option (Option String) :=
  match reading.values .inputFile with
  | [] => some none
  | name :: _ => if name = "" then none else some (some name)

/-- The options of a command besides those for all commands. -/
def ownSwitches (command : String) : List Switch :=
  let common := [.inputFile, .outputFormat]
  match command with
  | "conditions" => .excludeFunctions :: .onlyDeepest :: common
  | "scenarios" => .excludeFunctions :: common
  | "flatten" => .preserveShape :: common
  | _ => common

/-- What a command with its operands and options asks for. -/
def action? (command : String) (reading : Reading) : Option Action :=
  match command, reading.operands with
  | "expand", [] => some .expand
  | "conditions", [path] =>
    some (.conditions path (!reading.has .excludeFunctions) (reading.has .onlyDeepest))
  | "scenarios", [path] => some (.scenarios path (!reading.has .excludeFunctions))
  | "flatten", [path] => some (.flatten path (reading.has .preserveShape))
  | "guarded", [path, resource] => some (.guarded path resource)
  | _, _ => none

/-- What a command line says; none if it is malformed. -/
def Invocation.ofArguments? (arguments : List String) : Option Invocation := do
  let before ← readArguments Switch.shared true arguments
  match before.operands with
  | [] => none
  | command :: rest =>
    let after ← readArguments (Switch.shared ++ ownSwitches command) false rest
    let settings ← settings? before after
    let file ← file? after
    let format ← format? after
    let action ← action? command after
    if before.isUnrepeated && after.isUnrepeated then some ⟨settings, file, format, action⟩
    else none

end StackTemplate.Command
