import StackTemplate.Expansion.Expander
import StackTemplate.Settings
import StackTemplate.Template

/-!
# Expanded templates

The expansion of a whole template, or its first diagnostic.
-/

namespace StackTemplate

/-- What a template offers to its expressions. -/
def Template.context (template : Template) (settings : Settings) : Context :=
  ⟨template.parameters?.getD [], template.mappings?.getD [], settings.primaryRegion⟩

/-- The document without loops, or what is wrong with it. -/
def Template.expand (template : Template) (settings : Settings) : Except Diagnostic Value :=
  match (Expansion.expand (template.context settings) .root [] template.root).run {} with
  | .ok (value, _) => .ok value
  | .error diagnostic => .error diagnostic

/-- The document without loops, or the document as it is with what is wrong. -/
def Template.expandOrKeep (template : Template) (settings : Settings) :
    List Diagnostic × Value :=
  match template.expand settings with
  | .ok value => ([], value)
  | .error diagnostic => ([diagnostic], template.root)

end StackTemplate
