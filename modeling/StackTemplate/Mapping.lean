import StackTemplate.Value.Basic

/-!
# The mappings section

A map has sections under top level keys, and each section has entries under
second level keys. Where a name or a key is not known, it is inferred if the
structure leaves one choice only.
-/

namespace StackTemplate.Mapping

/-- The map of a given name, or the only map there is. -/
def chosen? (maps : List (String × Value)) (name : Option String) : Option Value :=
  match name.bind fun name => Entries.get? name maps with
  | some map => some map
  | none =>
    match maps with
    | [(_, map)] => some map
    | _ => none

/-- The only section that has an entry under a second level key. -/
def onlySectionWith? (second : String) (sections : List (String × Value)) : Option Value :=
  match sections.filter fun part => (part.2.get? second).isSome with
  | [(_, part)] => some part
  | _ => none

/-- The section under a top level key. Without one, the second level key has to
single out a section. -/
def section? (sections : List (String × Value)) (top second : Option String) : Option Value :=
  match top, second with
  | some top, _ => Entries.get? top sections
  | none, some second => onlySectionWith? second sections
  | none, none => none

/-- The entry under a second level key, or the only entry. -/
def entry? (entries : List (String × Value)) (second : Option String) : Option Value :=
  match second, entries with
  | some second, entries => Entries.get? second entries
  | none, [(_, value)] => some value
  | none, _ => none

/-- The entry that a map name and two keys ask for, each of which may be
unknown. -/
def find? (maps : List (String × Value)) (name top second : Option String) : Option Value := do
  let map ← chosen? maps name
  let sections ← map.entries?
  let part ← section? sections top second
  let entries ← part.entries?
  entry? entries second

end StackTemplate.Mapping
