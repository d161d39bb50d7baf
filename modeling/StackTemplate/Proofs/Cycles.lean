import StackTemplate.Proofs.Scenarios

/-!
# Cycles among conditions

A condition is compiled only after everything that it refers to, so what was
compiled leads to no cycle. Together with the success of compilation on acyclic
names this makes the detection of cycles exact: scenarios are refused if and
only if a constrained name leads to a cycle, in whatever order the names come.
-/

namespace StackTemplate

namespace ConditionIndex

variable {index : ConditionIndex}

/-- A name is acyclic if everything that it refers to is. -/
theorem acyclic_of_forall_refers {name : String}
    (h : ∀ other, index.Refers name other → index.Acyclic other) : index.Acyclic name := by
  intro last hleads hcycle
  have hnone : ∀ other, index.Refers name other → ¬index.Leads other last :=
    fun other hrefers hlast => h other hrefers last hlast hcycle
  rcases Relation.ReflTransGen.cases_head hleads with rfl | ⟨other, hrefers, hlast⟩
  · obtain ⟨other, hrefers, hback⟩ := Relation.TransGen.head'_iff.mp hcycle
    exact hnone other hrefers hback
  · exact hnone other hrefers hlast

end ConditionIndex

namespace Solver

variable {index : ConditionIndex} {region : Option String}

/-- Only acyclic names have been compiled. -/
def Vetted (index : ConditionIndex) (solver : Solver) : Prop :=
  ∀ name formula, Entries.get? name solver.compiled = some formula → index.Acyclic name

/-- At first nothing has been compiled. -/
theorem Vetted.empty : Vetted index {} := fun _ _ hget => nomatch hget

/-- Tables with the same formulas noted are vetted, too. -/
theorem Vetted.congr {solver later : Solver} (h : Vetted index solver)
    (hsame : later.compiled = solver.compiled) : Vetted index later := by
  intro name formula hget
  rw [hsame] at hget
  exact h name formula hget

/-- Noting the formula of an acyclic name is all right. -/
theorem Vetted.noting {solver : Solver} {name : String} {formula : Formula}
    (hvetted : Vetted index solver) (hname : index.Acyclic name) :
    Vetted index (solver.noting name formula) := by
  intro other noted hnoted
  rw [Solver.noting, Entries.get?] at hnoted
  split at hnoted
  · next he => exact he ▸ hname
  · exact hvetted other noted hnoted

/-- Expressions that are compiled refer to acyclic names only, and no others are
compiled for them. -/
theorem Compiles.vetted {exprs : List ConditionExpr} {formulas : List Formula}
    {solver later : Solver} (h : Compiles index region exprs solver formulas later)
    (hvetted : Vetted index solver) :
    Vetted index later ∧ ∀ expr ∈ exprs, ∀ name ∈ expr.references, index.Acyclic name := by
  induction h with
  | nil solver => exact ⟨hvetted, fun _ hexpr => absurd hexpr List.not_mem_nil⟩
  | cons _ _ ihFirst ihOthers =>
    obtain ⟨hmiddle, hfirst⟩ := ihFirst hvetted
    obtain ⟨hlater, hothers⟩ := ihOthers hmiddle
    exact ⟨hlater, List.forall_mem_cons.mpr ⟨List.forall_mem_singleton.mp hfirst, hothers⟩⟩
  | decided hreading =>
    exact ⟨hvetted, List.forall_mem_singleton.mpr fun _ hname => absurd hname List.not_mem_nil⟩
  | compared hreading hatom =>
    exact ⟨hvetted.congr (compiled_atomNumber hatom),
      List.forall_mem_singleton.mpr fun _ hname => absurd hname List.not_mem_nil⟩
  | unknown hatom =>
    exact ⟨hvetted.congr (compiled_atomNumber hatom),
      List.forall_mem_singleton.mpr fun _ hname => absurd hname List.not_mem_nil⟩
  | not _ ih =>
    obtain ⟨hlater, hnames⟩ := ih hvetted
    exact ⟨hlater, List.forall_mem_singleton.mpr (List.forall_mem_singleton.mp hnames)⟩
  | and _ ih =>
    obtain ⟨hlater, hnames⟩ := ih hvetted
    exact ⟨hlater, List.forall_mem_singleton.mpr (ConditionExpr.forall_allReferences.mpr hnames)⟩
  | or _ ih =>
    obtain ⟨hlater, hnames⟩ := ih hvetted
    exact ⟨hlater, List.forall_mem_singleton.mpr (ConditionExpr.forall_allReferences.mpr hnames)⟩
  | noted hnoted =>
    exact ⟨hvetted, List.forall_mem_singleton.mpr
      (List.forall_mem_singleton.mpr (hvetted _ _ hnoted))⟩
  | @undefined name number solver later hundefined hatom =>
    have hname : index.Acyclic name := ConditionIndex.acyclic_of_forall_refers fun other hrefers => by
      obtain ⟨expr, hexpr, -⟩ := hrefers
      cases hundefined.symm.trans hexpr
    exact ⟨(hvetted.congr (compiled_atomNumber hatom)).noting hname,
      List.forall_mem_singleton.mpr (List.forall_mem_singleton.mpr hname)⟩
  | @defined name expr formula solver later hexpr _ ih =>
    obtain ⟨hlater, hnames⟩ := ih hvetted
    have hname : index.Acyclic name := by
      refine ConditionIndex.acyclic_of_forall_refers ?_
      rintro other ⟨same, hsame, hother⟩
      cases hexpr.symm.trans hsame
      exact hnames expr List.mem_cons_self other hother
    exact ⟨hlater.noting hname, List.forall_mem_singleton.mpr (List.forall_mem_singleton.mpr hname)⟩

/-- A step that succeeds only if the names it is about are acyclic, and adds
only such names to those that were compiled. -/
def Vets {α : Type} (index : ConditionIndex) (step : Compilation α) (about : String → Prop) :
    Prop :=
  ∀ solver result later, Vetted index solver → step solver = .ok (result, later) →
    Vetted index later ∧ ∀ name, about name → index.Acyclic name

/-- Less may be asked of a step. -/
theorem Vets.mono {α : Type} {step : Compilation α} {about fewer : String → Prop}
    (h : Vets index step about) (hfewer : ∀ name, fewer name → about name) :
    Vets index step fewer := by
  intro solver result later hvetted hstep
  obtain ⟨hlater, hnames⟩ := h solver result later hvetted hstep
  exact ⟨hlater, fun name hname => hnames name (hfewer name hname)⟩

/-- A result may be changed. -/
theorem Vets.map {α β : Type} {step : Compilation α} {about : String → Prop}
    (h : Vets index step about) (change : α → β) : Vets index (change <$> step) about := by
  intro solver result later hvetted hstep
  rw [map_eq_pure_bind] at hstep
  obtain ⟨inner, middle, hinner, hchange⟩ := Compilation.exists_of_bind_eq_ok hstep
  cases hchange
  exact h solver inner later hvetted hinner

/-- Steps for the items of a list are about what each of them is about. -/
theorem Vets.mapM {α β : Type} {step : α → Compilation β} {about : α → String → Prop}
    {items : List α} (h : ∀ item ∈ items, Vets index (step item) (about item)) :
    Vets index (items.mapM step) fun name => ∃ item ∈ items, about item name := by
  induction items with
  | nil =>
    intro solver result later hvetted hstep
    cases hstep
    exact ⟨hvetted, fun _ hnone => absurd hnone (by simp)⟩
  | cons item items ih =>
    intro solver results later hvetted hstep
    rw [List.mapM_cons] at hstep
    obtain ⟨result, middle, hresult, hstep⟩ := Compilation.exists_of_bind_eq_ok hstep
    obtain ⟨others, last, hothers, hstep⟩ := Compilation.exists_of_bind_eq_ok hstep
    cases hstep
    obtain ⟨hmiddle, hhere⟩ := h item List.mem_cons_self solver result middle hvetted hresult
    obtain ⟨hlater, hrest⟩ := ih (fun other hother => h other (List.mem_cons_of_mem _ hother))
      middle others later hmiddle hothers
    refine ⟨hlater, fun name hname => ?_⟩
    rcases (List.exists_mem_cons_iff ..).mp hname with hfirst | hlist
    · exact hhere name hfirst
    · exact hrest name hlist

/-- A name that is compiled is acyclic. -/
theorem vets_compile {name : String} : Vets index (compile index region name) (· = name) := by
  intro solver formula later hvetted hcompile
  have hruns : CompilesExpr index region (.condition name) solver formula later :=
    (does_compileNested _ [] name).runs_of_ok hcompile
  obtain ⟨hlater, hnames⟩ := hruns.vetted hvetted
  refine ⟨hlater, fun other hother => ?_⟩
  rw [hother]
  exact hnames _ List.mem_cons_self name List.mem_cons_self

/-- Constrained names that are compiled are acyclic. -/
theorem vets_compileChoices (constraints : Constraints) :
    Vets index (compileChoices index region constraints) (· ∈ Entries.keys constraints) := by
  have hname : ∀ constraint ∈ constraints,
      Vets index ((⟨constraint.1, ·, constraint.2⟩) <$> compile index region constraint.1 :
        Compilation Choice) (· = constraint.1) :=
    fun constraint _ => Vets.map vets_compile _
  rw [compileChoices_eq_mapM]
  refine (Vets.mapM hname).mono fun name hmem => ?_
  obtain ⟨constraint, hconstraint, rfl⟩ := List.mem_map.mp hmem
  exact ⟨constraint, hconstraint, rfl⟩

end Solver

namespace ConditionIndex

variable {index : ConditionIndex} {region : Option String} {constraints : Constraints}

/-- Scenarios are built only if all constrained names are acyclic. -/
theorem acyclic_of_buildScenarios {scenarios : List Scenario}
    (h : index.buildScenarios constraints region = .ok scenarios) :
    ∀ name ∈ Entries.keys constraints, index.Acyclic name := by
  unfold buildScenarios at h
  split at h
  · cases h
  · next choices solver hcompile =>
    exact (Solver.vets_compileChoices constraints {} choices solver .empty hcompile).2

/-- Scenarios are refused exactly if some constrained name is not acyclic. -/
theorem buildScenarios_eq_cycle_iff :
    (∃ name, index.buildScenarios constraints region = .error (.cycle name)) ↔
      ∃ name ∈ Entries.keys constraints, ¬index.Acyclic name := by
  constructor
  · rintro ⟨name, hcycle⟩
    by_contra hnone
    have hacyclic : ∀ name ∈ Entries.keys constraints, index.Acyclic name := by
      intro other hother
      by_contra hother'
      exact hnone ⟨other, hother, hother'⟩
    obtain ⟨choices, solver, hbuild, -⟩ := exists_choices region hacyclic
    cases hcycle.symm.trans hbuild
  · rintro ⟨name, hname, hcyclic⟩
    cases hbuild : index.buildScenarios constraints region with
    | ok scenarios => exact absurd (acyclic_of_buildScenarios hbuild name hname) hcyclic
    | error error =>
      cases error with
      | cycle other => exact ⟨other, rfl⟩

end ConditionIndex

end StackTemplate
