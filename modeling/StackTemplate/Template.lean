import StackTemplate.Json.Parser
import StackTemplate.Parameter
import StackTemplate.Yaml.Parser

/-!
# Templates

A template is a document with well-known sections. It is read from JSON or
YAML text; the extension of a file's name says which one it holds.
-/

namespace StackTemplate

/-- Why a template cannot be read. -/
inductive LoadError where
  /-- The text is no JSON. -/
  | json
  /-- The text is no YAML. -/
  | yaml
  /-- The file is missing or holds no text. -/
  | unreadable
  /-- The extension of the file says nothing about its format. -/
  | unsupportedExtension (path : String)
  deriving DecidableEq

/-- The wording of the error. -/
def LoadError.message : LoadError → String
  | .json => "Unable to parse json template"
  | .yaml => "Unable to parse yaml template"
  | .unreadable => "IO error"
  | .unsupportedExtension path => "Unsupported template file extension: " ++ path

/-- A template. -/
structure Template where
  /-- The file it was read from. -/
  source : Option String := none
  /-- The whole document. -/
  root : Value

namespace Template

/-- Reads a JSON document. -/
def parseJson (text : String) : Except LoadError Value :=
  match Json.parse? text with
  | some root => .ok root
  | none => .error .json

/-- Reads a YAML document. -/
def parseYaml (text : String) : Except LoadError Value :=
  match Yaml.parse? text with
  | some root => .ok root
  | none => .error .yaml

/-- Reads a JSON document or, failing that, a YAML document. -/
def parse (text : String) : Except LoadError Template :=
  match parseJson text with
  | .ok root => .ok { root }
  | .error _ => (parseYaml text).map fun root => { root }

/-- The part of a path after its last slash. -/
def fileName (path : String) : List Char :=
  (path.toList.reverse.takeWhile (· ≠ '/')).reverse

/-- The part of a file's name after its last point, in lower case. A point at
the start of the name begins no extension. Extensions with a meaning are
spelled in ASCII. -/
def extension? (path : String) : Option String :=
  let reversed := (fileName path).reverse
  match reversed.dropWhile (· ≠ '.') with
  | '.' :: _ :: _ =>
    some (String.ofList ((reversed.takeWhile (· ≠ '.')).reverse.map Char.toLower))
  | _ => none

/-- Reads the text of a file according to the extension of its path. -/
def parseAs (path text : String) : Except LoadError Value :=
  match extension? path with
  | some "json" => parseJson text
  | some "yaml" => parseYaml text
  | some "yml" => parseYaml text
  | some "template" => parseYaml text
  | _ => .error (.unsupportedExtension path)

/-- Reads a file, given its octets unless it is missing. -/
def ofFile (path : String) (octets : Option ByteArray) : Except LoadError Template :=
  match octets.bind String.fromUTF8? with
  | none => .error .unreadable
  | some text => (parseAs path text).map fun root => { source := some path, root }

/-- The entries of a section; none if it is no mapping. -/
def section? (template : Template) (name : String) : Option (List (String × Value)) :=
  (template.root.get? name).bind Value.entries?

/-- The declared parameters. -/
def parameters? (template : Template) : Option (List (String × Value)) :=
  template.section? "Parameters"

/-- The mappings. -/
def mappings? (template : Template) : Option (List (String × Value)) :=
  template.section? "Mappings"

/-- The named conditions. -/
def conditions? (template : Template) : Option (List (String × Value)) :=
  template.section? "Conditions"

/-- The resources. -/
def resources? (template : Template) : Option (List (String × Value)) :=
  template.section? "Resources"

/-- The outputs. -/
def outputs? (template : Template) : Option (List (String × Value)) :=
  template.section? "Outputs"

/-- Whether the template declares that it uses loops. -/
def usesLanguageExtensions (template : Template) : Bool :=
  let isName (value : Value) : Bool := value.string? = some "AWS::LanguageExtensions"
  match template.root.get? "Transform" with
  | some (.array names) => names.any isName
  | some value => isName value
  | none => false

/-- The condition that guards a resource. -/
def resourceCondition? (template : Template) (resource : String) : Option String := do
  let resources ← template.resources?
  let declaration ← Entries.get? resource resources
  let condition ← declaration.get? "Condition"
  condition.string?

end Template

end StackTemplate
