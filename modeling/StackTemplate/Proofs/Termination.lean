import StackTemplate.Proofs.Cycles

/-!
# Termination of compilation

Compiling a name calls for the names that its expression refers to, with the
name on the stack, and stops at names that are on it. So every call leaves fewer
defined names that are not on the stack, and the recursion ends without a bound
on its height: it has one solution, and the bounded compilation computes it. A
cycle is reported where a name is met again while it is being compiled. The
names on the stack lead to the name that is met, so a reported name leads back
to itself.
-/

namespace StackTemplate

open Relation (TransGen)

namespace ConditionIndex

variable {index : ConditionIndex} {stack : List String} {name other : String}

/-- The calls that the compilation of a name may make while the names on a stack
are being compiled. -/
inductive Calls (index : ConditionIndex) : List String × String → List String × String → Prop where
  /-- A name that is not on the stack calls for what it refers to. -/
  | push {stack : List String} {name other : String} (hnew : name ∉ stack)
      (hrefers : index.Refers name other) : Calls index (stack, name) (name :: stack, other)

/-- Every call takes up room. -/
theorem Calls.room_lt {outer inner : List String × String} (h : index.Calls outer inner) :
    index.room inner.1 < index.room outer.1 := by
  cases h with
  | push hnew hrefers =>
    obtain ⟨expr, hexpr, -⟩ := hrefers
    exact room_cons_lt hnew hexpr

/-- No chain of calls goes on for ever. -/
theorem wellFounded_calls (index : ConditionIndex) :
    WellFounded fun inner outer => index.Calls outer inner :=
  Subrelation.wf Calls.room_lt (measure fun call : List String × String => index.room call.1).wf

/-- What holds of a name under a stack whenever it holds of all calls holds
everywhere. -/
theorem callInduction (index : ConditionIndex) {motive : List String → String → Prop}
    (level : ∀ stack name, (∀ other, index.Calls (stack, name) (name :: stack, other) →
      motive (name :: stack) other) → motive stack name)
    (stack : List String) (name : String) : motive stack name :=
  index.wellFounded_calls.induction (C := fun call => motive call.1 call.2) (stack, name)
    fun call ih => level call.1 call.2 fun other hcall => ih (call.2 :: call.1, other) hcall

end ConditionIndex

namespace Compilation

variable {α β : Type} {solver : Solver} {error : ScenarioError}

/-- If steps fail one after the other, the first fails or the second does. -/
theorem error_cases_of_bind {first : Compilation α} {next : α → Compilation β}
    (h : (first >>= next) solver = .error error) :
    first solver = .error error ∨
      ∃ result later, first solver = .ok (result, later) ∧ next result later = .error error := by
  change (first solver >>= fun pair => next pair.1 pair.2) = .error error at h
  cases hfirst : first solver with
  | error other =>
    rw [hfirst] at h
    cases h
    exact .inl rfl
  | ok pair =>
    rw [hfirst] at h
    exact .inr ⟨pair.1, pair.2, rfl, h⟩

/-- Changing a result makes no step fail. -/
theorem error_of_map {step : Compilation α} {change : α → β}
    (h : (change <$> step) solver = .error error) : step solver = .error error := by
  rw [map_eq_pure_bind] at h
  obtain hstep | ⟨result, later, -, hchange⟩ := error_cases_of_bind h
  · exact hstep
  · cases hchange

/-- If steps for the items of a list fail, one of them does. -/
theorem exists_error_of_mapM {step : α → Compilation β} {items : List α}
    (h : items.mapM step solver = .error error) :
    ∃ item ∈ items, ∃ middle, step item middle = .error error := by
  induction items generalizing solver with
  | nil => cases h
  | cons item items ih =>
    rw [List.mapM_cons] at h
    obtain hhere | ⟨result, later, -, hrest⟩ := error_cases_of_bind h
    · exact ⟨item, List.mem_cons_self, solver, hhere⟩
    · obtain hothers | ⟨others, last, -, hdone⟩ := error_cases_of_bind hrest
      · obtain ⟨other, hmem, hother⟩ := ih hothers
        exact ⟨other, List.mem_cons_of_mem _ hmem, hother⟩
      · cases hdone

end Compilation

namespace Solver

variable {index : ConditionIndex} {region : Option String}

/-- One level of the recursion: the formula of a named condition, given the
compilation of the conditions that it refers to. -/
def compileLevel (index : ConditionIndex) (region : Option String)
    (compileName : String → Compilation Formula) (stack : List String) (name : String) :
    Compilation Formula := do
  match Entries.get? name (← get).compiled with
  | some formula => return formula
  | none =>
    if name ∈ stack then throw (.cycle name)
    else
      match index.get? name with
      | none => do remember name (← atom ("condition:" ++ name) none)
      | some expr => do remember name (← compileExpr index region compileName expr)

/-- A compilation of names under a stack that calls itself without a bound. -/
def Unbounded (index : ConditionIndex) (region : Option String)
    (nested : List String → String → Compilation Formula) : Prop :=
  ∀ stack name, nested stack name = compileLevel index region (nested (name :: stack)) stack name

section Levels

variable {stack : List String} {name : String}

/-- One level depends only on the names that it calls for. -/
theorem compileLevel_congr {first second : String → Compilation Formula}
    (h : ∀ other, index.Calls (stack, name) (name :: stack, other) → first other = second other) :
    compileLevel index region first stack name = compileLevel index region second stack name := by
  unfold compileLevel
  by_cases hmem : name ∈ stack
  · simp only [if_pos hmem]
  · cases hexpr : index.get? name with
    | none => rfl
    | some expr =>
      have hcongr : compileExpr index region first expr = compileExpr index region second expr :=
        compileExpr_congr rfl fun other hother => h other (.push hmem ⟨expr, hexpr, hother⟩)
      simp only [hcongr]

/-- As long as there is room, the bounded compilation follows the recursion. -/
theorem compileNested_eq_compileLevel {height : Nat} (hroom : index.room stack ≤ height) :
    compileNested index region height stack name =
      compileLevel index region (compileNested index region (height - 1) (name :: stack))
        stack name := by
  funext solver
  rw [compileLevel, Compilation.get_bind]
  cases hnoted : Entries.get? name solver.compiled with
  | some noted => exact compileNested_of_compiled hnoted
  | none =>
    dsimp only
    by_cases hmem : name ∈ stack
    · rw [if_pos hmem]
      exact compileNested_of_mem hnoted hmem
    · rw [if_neg hmem]
      cases hexpr : index.get? name with
      | none => exact compileNested_of_undefined hnoted hmem hexpr
      | some expr =>
        have hlt := ConditionIndex.room_cons_lt hmem hexpr
        cases height with
        | zero => omega
        | succ height => exact compileNested_of_defined hnoted hmem hexpr

/-- The bound on the height does not matter as long as there is room. -/
theorem compileNested_stable {first second : Nat} (hfirst : index.room stack ≤ first)
    (hsecond : index.room stack ≤ second) :
    compileNested index region first stack name = compileNested index region second stack name := by
  induction stack, name using index.callInduction generalizing first second with
  | level stack name ih =>
    rw [compileNested_eq_compileLevel hfirst, compileNested_eq_compileLevel hsecond]
    refine compileLevel_congr fun other hcall => ?_
    have hlt : index.room (name :: stack) < index.room stack := hcall.room_lt
    exact ih other hcall (by omega) (by omega)

/-- The bounded compilation solves the recursion without a bound. -/
theorem unbounded_compileNested :
    Unbounded index region (compileNested index region index.conditions.length) := by
  intro stack name
  have hroom := index.room_le stack
  rw [compileNested_eq_compileLevel hroom]
  refine compileLevel_congr fun other hcall => ?_
  have hlt : index.room (name :: stack) < index.room stack := hcall.room_lt
  exact compileNested_stable (by omega) (by omega)

/-- The recursion has no two solutions. -/
theorem Unbounded.unique {first second : List String → String → Compilation Formula}
    (hfirst : Unbounded index region first) (hsecond : Unbounded index region second) :
    first = second := by
  funext stack name
  induction stack, name using index.callInduction with
  | level stack name ih =>
    rw [hfirst, hsecond]
    exact compileLevel_congr ih

end Levels

/-- A name that is reported when constrained names are compiled leads back to
itself, and some constrained name leads to it. -/
theorem cycle_of_compileChoices {constraints : Constraints} {solver : Solver} {last : String}
    (h : compileChoices index region constraints solver = .error (.cycle last)) :
    index.LedFrom (· ∈ Entries.keys constraints) last ∧ TransGen index.Refers last last := by
  rw [compileChoices_eq_mapM] at h
  obtain ⟨constraint, hmem, middle, hfails⟩ := Compilation.exists_error_of_mapM h
  have hname : compile index region constraint.1 middle = .error (.cycle last) :=
    Compilation.error_of_map hfails
  obtain ⟨hleads, hcycle⟩ := cycle_of_compile hname
  exact ⟨⟨constraint.1, List.mem_map_of_mem hmem, hleads⟩, hcycle⟩

end Solver

namespace ConditionIndex

variable {index : ConditionIndex} {region : Option String} {constraints : Constraints}

/-- A reported name leads back to itself, and some constrained name leads to it. -/
theorem cycle_of_buildScenarios {last : String}
    (h : index.buildScenarios constraints region = .error (.cycle last)) :
    index.LedFrom (· ∈ Entries.keys constraints) last ∧ TransGen index.Refers last last := by
  unfold buildScenarios at h
  split at h
  · next hcompile =>
    cases h
    exact Solver.cycle_of_compileChoices hcompile
  · cases h

/-- Scenarios are built exactly if no name that constrained names lead to leads
back to itself. -/
theorem exists_buildScenarios_iff :
    (∃ scenarios, index.buildScenarios constraints region = .ok scenarios) ↔
      ∀ name, index.LedFrom (· ∈ Entries.keys constraints) name →
        ¬TransGen index.Refers name name := by
  constructor
  · rintro ⟨scenarios, hbuild⟩ name ⟨root, hroot, hleads⟩
    exact acyclic_of_buildScenarios hbuild root hroot name hleads
  · intro hnone
    cases hbuild : index.buildScenarios constraints region with
    | ok scenarios => exact ⟨scenarios, rfl⟩
    | error error =>
      cases error with
      | cycle last =>
        obtain ⟨hled, hcycle⟩ := cycle_of_buildScenarios hbuild
        exact absurd hcycle (hnone last hled)

/-- Compilation ends: calls cannot go on for ever, and the recursion without a
bound has one solution, which is the compilation. Scenarios are refused exactly
if constrained names lead to a name that leads back to itself. The name that is
reported is such a name. However often conditions are shared, scenarios are
built if there is none. -/
theorem buildScenarios_eq_error_iff_exists_cycle (index : ConditionIndex)
    (region : Option String) (constraints : Constraints) :
    (WellFounded fun inner outer => index.Calls outer inner) ∧
      (∃ nested, Solver.Unbounded index region nested ∧
        nested [] = Solver.compile index region ∧
        ∀ other, Solver.Unbounded index region other → other = nested) ∧
      ((∃ name, index.buildScenarios constraints region = .error (.cycle name)) ↔
        ∃ name, index.LedFrom (· ∈ Entries.keys constraints) name ∧
          TransGen index.Refers name name) ∧
      (∀ name, index.buildScenarios constraints region = .error (.cycle name) →
        index.LedFrom (· ∈ Entries.keys constraints) name ∧ TransGen index.Refers name name) ∧
      ((∃ scenarios, index.buildScenarios constraints region = .ok scenarios) ↔
        ∀ name, index.LedFrom (· ∈ Entries.keys constraints) name →
          ¬TransGen index.Refers name name) := by
  refine ⟨index.wellFounded_calls, ?_, ?_, fun _ => cycle_of_buildScenarios,
    exists_buildScenarios_iff⟩
  · exact ⟨_, Solver.unbounded_compileNested, rfl, fun other hother =>
      hother.unique Solver.unbounded_compileNested⟩
  · constructor
    · rintro ⟨name, hbuild⟩
      exact ⟨name, cycle_of_buildScenarios hbuild⟩
    · rintro ⟨name, ⟨root, hroot, hleads⟩, hcycle⟩
      have hcyclic : ¬index.Acyclic root := fun hacyclic => hacyclic name hleads hcycle
      exact buildScenarios_eq_cycle_iff.mpr ⟨root, hroot, hcyclic⟩

end ConditionIndex

end StackTemplate
