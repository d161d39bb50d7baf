import StackTemplate.Value.Basic

/-!
# Loop variables

Every iteration of a loop opens a scope inside the scope of its loop. A name
is looked up from the innermost scope outwards.
-/

namespace StackTemplate

/-- The bindings in force, those of the innermost scope first. -/
structure Scope where
  /-- The bindings of every scope; a later binding of a name comes first. -/
  frames : List (List (String × Value))

namespace Scope

/-- One scope without bindings. -/
def root : Scope := ⟨[[]]⟩

/-- Opens a scope without bindings inside. -/
def child (scope : Scope) : Scope := ⟨[] :: scope.frames⟩

/-- Binds a name in the innermost scope. -/
def bind (scope : Scope) (name : String) (value : Value) : Scope :=
  match scope.frames with
  | [] => ⟨[[(name, value)]]⟩
  | frame :: frames => ⟨((name, value) :: frame) :: frames⟩

/-- The value of a name in the innermost scope that binds it. -/
def get? (scope : Scope) (name : String) : Option Value :=
  scope.frames.findSome? (Entries.get? name)

/-- Whether no scope binds anything. -/
def isEmpty (scope : Scope) : Bool := scope.frames.all List.isEmpty

/-- The scope around the innermost one; there is none around the root. -/
def parent? (scope : Scope) : Option Scope :=
  match scope.frames with
  | _ :: frame :: frames => some ⟨frame :: frames⟩
  | _ => none

/-- The value just bound is found under its name. -/
@[simp] theorem get?_bind_self (scope : Scope) (name : String) (value : Value) :
    (scope.bind name value).get? name = some value := by
  obtain ⟨frames⟩ := scope
  cases frames <;> simp [bind, get?, Entries.get?]

/-- Binding a name leaves the values of the others alone. -/
theorem get?_bind_of_ne (scope : Scope) {name other : String} (h : name ≠ other)
    (value : Value) : (scope.bind name value).get? other = scope.get? other := by
  obtain ⟨frames⟩ := scope
  cases frames <;> simp [bind, get?, List.findSome?_cons, Entries.get?, h]

/-- Opening a scope changes no value. -/
@[simp] theorem get?_child (scope : Scope) (name : String) :
    scope.child.get? name = scope.get? name := by
  simp [child, get?, List.findSome?_cons, Entries.get?]

/-- A scope with a binding is not empty. -/
@[simp] theorem isEmpty_bind (scope : Scope) (name : String) (value : Value) :
    (scope.bind name value).isEmpty = false := by
  obtain ⟨frames⟩ := scope
  cases frames <;> simp [bind, isEmpty]

end Scope

end StackTemplate
