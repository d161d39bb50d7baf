import StackTemplate.Analysis.Basic
import StackTemplate.Proofs.Memory
import StackTemplate.Proofs.Parts
import StackTemplate.Proofs.Scenarios

/-!
# Reachable paths and dangling references

A path is reached in a world if the guard of what it leads into holds there and
every ternary on the way selects the branch that the path takes. The conditions
recorded along a path hold wherever it is reached, so a reference that they
declare safe is to something that exists.
-/

namespace StackTemplate

/-- Truth values under which a path is reached: the guard of the resource or
output that it leads into holds, and conditions select the branches taken. -/
structure Reaches (truth : String → Bool) (root : Value) (path : Path) : Prop where
  /-- The guard holds. -/
  guard : ∀ part name rest condition, path = .key part :: .key name :: rest →
    part = "Resources" ∨ part = "Outputs" →
    root.lookup [.key part, .key name, .key "Condition"] = some (.string condition) →
    truth condition = true
  /-- The first branch is taken if the condition holds. -/
  whenTrue : ∀ before rest value ternary,
    path = before ++ .key "Fn::If" :: .index 1 :: rest → root.lookup before = some value →
    Ternary.ofValue? value = some ternary → truth ternary.condition = true
  /-- The second branch is taken if it does not. -/
  whenFalse : ∀ before rest value ternary,
    path = before ++ .key "Fn::If" :: .index 2 :: rest → root.lookup before = some value →
    Ternary.ofValue? value = some ternary → truth ternary.condition = false

/-- What a path says about conditions on its way. -/
inductive Gates (root : Value) (path : Path) : String → TruthSet → Prop where
  /-- The guard of what it leads into holds. -/
  | guard {part name condition : String} {rest : Path}
      (hpath : path = .key part :: .key name :: rest) (hpart : part = "Resources" ∨ part = "Outputs")
      (hlookup : root.lookup [.key part, .key name, .key "Condition"] = some (.string condition)) :
      Gates root path condition (.only true)
  /-- A ternary that it leaves by a branch has a condition that selects it. -/
  | ternary {before rest : Path} {segment : Segment} {value : Value} {ternary : Ternary}
      (hpath : path = before ++ segment :: rest) (hlookup : root.lookup before = some value)
      (hternary : Ternary.ofValue? value = some ternary) :
      Gates root path ternary.condition (PathQuery.taken (segment :: rest))

/-- Where a path is reached, conditions have the truth values that it allows. -/
theorem Reaches.contains {truth : String → Bool} {root : Value} {path : Path}
    (h : Reaches truth root path) {name : String} {truths : TruthSet}
    (hgates : Gates root path name truths) : truths.contains (truth name) = true := by
  cases hgates with
  | guard hpath hpart hlookup =>
    rw [h.guard _ _ _ _ hpath hpart hlookup]
    rfl
  | @ternary before rest segment value ternary hpath hlookup hternary =>
    unfold PathQuery.taken
    split
    · next heq =>
      rw [heq] at hpath
      rw [h.whenTrue _ _ _ _ hpath hlookup hternary]
      rfl
    · next heq =>
      rw [heq] at hpath
      rw [h.whenFalse _ _ _ _ hpath hlookup hternary]
      rfl
    · cases truth ternary.condition <;> rfl

section Walk

variable {root : Value} {path : Path}

/-- A step to a key is a look-up. -/
theorem Value.step?_key {value part : Value} {name : String} (h : value.get? name = some part) :
    value.step? (.key name) = some part := by
  cases value with
  | object entries => exact h
  | _ => cases h

/-- The truth values recorded of names cover what the path says about them. -/
def Backed (root : Value) (path : Path) (found : Constraints) : Prop :=
  ∀ pair ∈ found, ∃ truths, Gates root path pair.1 truths ∧
    ∀ truth, truths.contains truth = true → pair.2.contains truth = true

/-- A union holds the truth values of either set. -/
theorem TruthSet.contains_union {first second : TruthSet} {truth : Bool} :
    (first.union second).contains truth = true ↔
      first.contains truth = true ∨ second.contains truth = true := by
  cases truth <;> exact Bool.or_eq_true_iff

/-- Nothing is recorded at first. -/
theorem Backed.nil : Backed root path [] := fun _ h => absurd h List.not_mem_nil

/-- Recording more that the path says is fine. -/
theorem Backed.extend {found : Constraints} (h : Backed root path found) {name : String}
    {truths recorded : TruthSet} (hgates : Gates root path name truths)
    (hrecorded : ∀ truth, truths.contains truth = true → recorded.contains truth = true) :
    Backed root path (found.extend name recorded) := by
  intro pair hpair
  rcases Entries.eq_or_mem_of_mem_insert hpair with rfl | hpair
  · exact ⟨truths, hgates, fun truth ht =>
      TruthSet.contains_union.mpr (.inr (hrecorded truth ht))⟩
  · exact h pair hpair

/-- Records may be merged. -/
theorem Backed.merge {found added : Constraints} (hfound : Backed root path found)
    (hadded : Backed root path added) : Backed root path
      (added.foldl (fun constraints pair => Constraints.extend constraints pair.1 pair.2)
        found) := by
  induction added generalizing found with
  | nil => exact hfound
  | cons pair added ih =>
    obtain ⟨truths, hgates, hcovers⟩ := hadded pair List.mem_cons_self
    exact ih (hfound.extend hgates hcovers) fun other hother =>
      hadded other (List.mem_cons_of_mem _ hother)

/-- What is recorded once a value was passed. -/
def PathQuery.recorded (query : PathQuery) (steps : Path) (value : Value) (insideFunction : Bool)
    (found : Constraints) : Constraints :=
  (Ternary.ofValue? value).elim found fun ternary =>
    if query.insideFunctions || !insideFunction then
      Constraints.extend (if query.onlyDeepest then [] else found) ternary.condition (taken steps)
    else found

/-- A step of the walk: the value is passed, and the walk goes on from the part
that the step leads to. -/
theorem PathQuery.branches_cons (query : PathQuery) (segment : Segment) (path : Path)
    (value : Value) (insideFunction : Bool) (found : Constraints) :
    query.branches (segment :: path) value insideFunction found =
      (value.step? segment).elim
        (query.recorded (segment :: path) value insideFunction found)
        fun part => query.branches path part (insideFunction || value.callsOther)
          (query.recorded (segment :: path) value insideFunction found) := by
  rw [branches, recorded]
  cases Ternary.ofValue? value <;> cases value.step? segment <;> rfl

/-- Passing a value records what the path says about it. -/
theorem Backed.recorded (query : PathQuery) {before rest : Path} {segment : Segment}
    {value : Value} (hpath : path = before ++ segment :: rest)
    (hlookup : root.lookup before = some value) (insideFunction : Bool) {found : Constraints}
    (h : Backed root path found) :
    Backed root path (query.recorded (segment :: rest) value insideFunction found) := by
  unfold PathQuery.recorded
  cases hternary : Ternary.ofValue? value with
  | none => exact h
  | some ternary =>
    have hkept : Backed root path (if query.onlyDeepest then [] else found) := by
      split
      · exact Backed.nil
      · exact h
    rw [Option.elim_some]
    split
    · exact hkept.extend (.ternary hpath hlookup hternary) fun _ ht => ht
    · exact h

/-- The walk records what the path says about the ternaries on its way. -/
theorem Backed.branches (query : PathQuery) {before rest : Path} {value : Value}
    (hpath : path = before ++ rest) (hlookup : root.lookup before = some value)
    (insideFunction : Bool) {found : Constraints} (h : Backed root path found) :
    Backed root path (query.branches rest value insideFunction found) := by
  induction rest generalizing before value insideFunction found with
  | nil => exact h
  | cons segment rest ih =>
    have hhere := Backed.recorded query hpath hlookup insideFunction h
    rw [PathQuery.branches_cons]
    cases hstep : value.step? segment with
    | none => exact hhere
    | some part =>
      have hlater : root.lookup (before ++ [segment]) = some part := by
        rw [Value.lookup_append_singleton, hlookup, Option.bind_some, hstep]
      have hsplit : path = (before ++ [segment]) ++ rest := by
        rw [hpath, List.append_assoc, List.singleton_append]
      exact ih hsplit hlater _ hhere

/-- The guard that is found is the one that has to hold. -/
theorem gates_of_guard {name : String} (h : PathQuery.guard? root path = some name) :
    Gates root path name (.only true) := by
  unfold PathQuery.guard? at h
  split at h
  · next part entity rest =>
    split at h
    · next hpart =>
      obtain ⟨entities, hentities, h⟩ := Option.bind_eq_some_iff.mp h
      obtain ⟨declaration, hdeclaration, h⟩ := Option.bind_eq_some_iff.mp h
      obtain ⟨condition, hcondition, h⟩ := Option.bind_eq_some_iff.mp h
      have hstring : condition = .string name := by
        cases condition <;> cases h
        rfl
      refine .guard rfl hpart ?_
      simp only [Value.lookup, Value.step?_key hentities, Value.step?_key hdeclaration,
        Value.step?_key hcondition, hstring]
    · cases h
  · cases h

/-- The guard comes before the ternaries on the way. -/
theorem PathQuery.constraints_eq (query : PathQuery) (root : Value) :
    query.constraints root = (query.branches query.path root false []).foldl
      (fun constraints pair => Constraints.extend constraints pair.1 pair.2)
      ((guard? root query.path).map fun name => (name, TruthSet.only true)).toList := by
  rw [constraints]
  cases guard? root query.path <;> rfl

/-- The conditions along a path are what the path says. -/
theorem Backed.constraints (query : PathQuery) (root : Value) :
    Backed root query.path (query.constraints root) := by
  have hguard : Backed root query.path
      ((PathQuery.guard? root query.path).map fun name => (name, TruthSet.only true)).toList := by
    intro pair hpair
    obtain ⟨name, hfound, rfl⟩ := Option.map_eq_some_iff.mp (Option.mem_toList.mp hpair)
    exact ⟨_, gates_of_guard hfound, fun _ ht => ht⟩
  have hbranches : Backed root query.path (query.branches query.path root false []) :=
    Backed.branches query (List.nil_append _).symm rfl false Backed.nil
  rw [PathQuery.constraints_eq]
  exact hguard.merge hbranches

end Walk

/-- If a condition is found to follow from a scenario, it holds in every world
that agrees with the scenario: a world in which it does not hold makes it false
along with the scenario. -/
theorem ConditionIndex.truth_of_checkImplies {index : ConditionIndex} {scenario : Scenario}
    {target : String}
    (hlegible : ∀ roots left right, index.Compares roots left right →
      left.Legible ∧ right.Legible)
    (hacyclic : ∀ name ∈ Entries.keys scenario.truths, index.Acyclic name)
    (htarget : index.Acyclic target) (h : index.checkImplies scenario target = true)
    {world : World} (hrespects : world.Respects index none)
    (hagree : ∀ pair ∈ scenario.truths, world.truth index pair.1 = pair.2) :
    world.truth index target = true := by
  unfold checkImplies at h
  split at h
  · next truth hknown => exact (hagree _ (Entries.mem_of_get? hknown)).trans h
  · by_contra hfalse
    rw [Bool.not_eq_true] at hfalse
    have hnames : ∀ name ∈ Entries.keys (scenario.truths ++ [(target, false)]),
        index.Acyclic name := by
      intro name hname
      rw [Entries.keys, List.map_append, List.mem_append] at hname
      rcases hname with hname | hname
      · exact hacyclic name hname
      · rw [List.mem_singleton.mp hname]
        exact htarget
    have hyields : Solver.Yields index none _ _ _ := Solver.yields_compileGoals hnames
    obtain ⟨goals, solver, hcompile, hsound, -, hright⟩ := hyields {} Solver.Sound.empty
    have hsatisfiable : solver.satisfiable index goals = true := by
      refine World.satisfiable hrespects hsound (hlegible _) fun goal hgoal => ?_
      obtain ⟨wanted, hwanted, hhere⟩ := Solver.exists_of_forall₂ hright hgoal
      rw [hhere.denotes.holds world.keys, hhere.truth,
        World.truth_ofKeys hrespects (hlegible _) (.root (List.mem_map_of_mem hwanted))]
      rcases List.mem_append.mp hwanted with hwanted | hwanted
      · exact hagree wanted hwanted
      · rw [List.mem_singleton.mp hwanted]
        exact hfalse
    rw [StateT.run, hcompile] at h
    dsimp only at h
    rw [hsatisfiable] at h
    cases h

/-- A set with a single truth value has no other. -/
theorem TruthSet.eq_of_single? {truths : TruthSet} {truth other : Bool}
    (h : truths.single? = some truth) (hother : truths.contains other = true) : other = truth := by
  have hall : ∀ allowsFalse allowsTrue truth other : Bool,
      single? ⟨allowsFalse, allowsTrue⟩ = some truth →
      contains ⟨allowsFalse, allowsTrue⟩ other = true → other = truth := by decide
  exact hall _ _ truth other h hother

namespace Analysis

/-- What constraints leave no choice for is recorded in them. -/
theorem exists_of_mem_decided {constraints : Constraints} {except : String}
    {pair : String × Bool} (h : pair ∈ (decided constraints except).truths) :
    ∃ truths, (pair.1, truths) ∈ constraints ∧ truths.single? = some pair.2 := by
  obtain ⟨⟨name, truths⟩, hmem, hpair⟩ := List.mem_filterMap.mp h
  dsimp only at hpair
  split at hpair
  · cases hpair
  · obtain ⟨truth, hsingle, rfl⟩ := Option.map_eq_some_iff.mp hpair
    exact ⟨truths, hmem, hsingle⟩

/-- An analysis of a template that remembers nothing wrong. -/
structure Faithful (template : Template) (settings : Settings) (region : Option String)
    (analysis : Analysis) : Prop where
  /-- It is about the template. -/
  sameTemplate : analysis.template = template
  /-- It searches the conditions of the template. -/
  sameBuilder : analysis.builder = (ConditionIndex.ofTemplate template settings).builder
  /-- It is made for the region. -/
  sameRegion : analysis.region = region
  /-- Its answers are right. -/
  answers : ∀ answer ∈ analysis.answers, answer.2 = answer.1.constraints template.root

section States

variable {template : Template} {settings : Settings} {region : Option String}
  {analysis : Analysis}

/-- What is remembered is right. -/
theorem Faithful.recalls (h : Faithful template settings region analysis) :
    analysis.Recalls := by
  rw [Recalls, h.sameTemplate]
  exact h.answers

/-- Answers about paths are right, remembered or not. -/
theorem Faithful.conditionsAlong_fst (h : Faithful template settings region analysis)
    (query : PathQuery) :
    (analysis.conditionsAlong query).1 = query.constraints template.root := by
  rw [h.recalls.conditionsAlong_fst, h.sameTemplate]

/-- A transparent question makes an analysis remember nothing wrong. -/
theorem Faithful.after (h : Faithful template settings region analysis) {α : Type}
    {question : Analysis → α × Analysis} (hquestion : Transparent question) :
    Faithful template settings region (question analysis).2 := by
  have htemplate : (question analysis).2.template = template :=
    (hquestion.same Analysis.template (fun _ => rfl) analysis).trans h.sameTemplate
  have hbuilder := hquestion.same Analysis.builder (fun _ => rfl) analysis
  have hregion := hquestion.same Analysis.region (fun _ => rfl) analysis
  refine ⟨htemplate, hbuilder.trans h.sameBuilder, hregion.trans h.sameRegion, ?_⟩
  rw [← htemplate]
  exact hquestion.recalls analysis h.recalls

/-- An answer may be remembered. -/
theorem Faithful.conditionsAlong (h : Faithful template settings region analysis)
    (query : PathQuery) :
    Faithful template settings region (analysis.conditionsAlong query).2 :=
  h.after (transparent_conditionsAlong query)

/-- The states of an analysis of a template, after any questions. -/
inductive Reached (template : Template) (settings : Settings) (region : Option String) :
    Analysis → Prop where
  /-- At first nothing is remembered. -/
  | start : Reached template settings region
      ⟨template, (ConditionIndex.ofTemplate template settings).builder, region, []⟩
  /-- A question about the conditions along a path. -/
  | conditionsAlong {analysis : Analysis} (h : Reached template settings region analysis)
      (query : PathQuery) : Reached template settings region (analysis.conditionsAlong query).2
  /-- A question about the scenarios below a path. -/
  | scenariosBelow {analysis : Analysis} (h : Reached template settings region analysis)
      (path : Path) (insideFunctions : Bool) (other : Option String) :
      Reached template settings region (analysis.scenariosBelow path insideFunctions other).2
  /-- A question about dangling references. -/
  | danglingScenarios {analysis : Analysis} (h : Reached template settings region analysis)
      (path : Path) (resource : String) :
      Reached template settings region (analysis.danglingScenarios path resource).2

/-- No question makes an analysis remember anything wrong. -/
theorem Reached.faithful (h : Reached template settings region analysis) :
    Faithful template settings region analysis := by
  induction h with
  | start => exact ⟨rfl, rfl, rfl, fun _ h => absurd h List.not_mem_nil⟩
  | conditionsAlong _ query ih => exact ih.conditionsAlong query
  | scenariosBelow _ path insideFunctions other ih =>
    exact ih.after (transparent_scenariosBelow path insideFunctions other)
  | danglingScenarios _ path resource ih =>
    exact ih.after (transparent_danglingScenarios path resource)

end States

/-- A guard that is found to hold wherever constraints do holds in every world
that meets them. -/
theorem truth_of_guarded {analysis : Analysis} {index : ConditionIndex}
    (hbuilder : analysis.builder = index.builder)
    (hlegible : ∀ roots left right, index.Compares roots left right →
      left.Legible ∧ right.Legible)
    {constraints : Constraints} {guard : String}
    (hacyclic : ∀ pair ∈ constraints, index.Acyclic pair.1) (hguard : index.Acyclic guard)
    (h : analysis.guarded constraints guard = true) {world : World}
    (hrespects : world.Respects index none)
    (hcontains : ∀ pair ∈ constraints, pair.2.contains (world.truth index pair.1) = true) :
    world.truth index guard = true := by
  have himplies : analysis.builder.implies (decided constraints guard) guard = true →
      world.truth index guard = true := by
    intro himplies
    rw [hbuilder] at himplies
    refine index.truth_of_checkImplies hlegible ?_ hguard himplies hrespects ?_
    · intro name hname
      obtain ⟨pair, hpair, rfl⟩ := List.mem_map.mp hname
      obtain ⟨truths, hmem, -⟩ := exists_of_mem_decided hpair
      exact hacyclic _ hmem
    · intro pair hpair
      obtain ⟨truths, hmem, hsingle⟩ := exists_of_mem_decided hpair
      exact TruthSet.eq_of_single? hsingle (hcontains _ hmem)
  unfold guarded at h
  dsimp only at h
  split at h
  · next truths hrecorded =>
    split at h
    · next truth hsingle =>
      have htruth := TruthSet.eq_of_single? hsingle (hcontains _ (Entries.mem_of_get? hrecorded))
      exact htruth.trans h
    · exact himplies h
  · split at h
    · cases h
    · exact himplies h

/-- A reference that is reported as safe never dangles: wherever its path is
reached, the guard of the resource holds. -/
theorem guard_of_danglingScenarios_eq_nil (template : Template) (settings : Settings)
    (region : Option String) (analysis : Analysis) (path : Path) (resource guard : String)
    (world : World) (hreached : Reached template settings region analysis)
    (hplain : (ConditionIndex.ofTemplate template settings).PlainNames)
    (hguard : template.resourceCondition? resource = some guard)
    (hacyclic : (ConditionIndex.ofTemplate template settings).Acyclic guard ∧
      ∀ name truths, Gates template.root path name truths →
        (ConditionIndex.ofTemplate template settings).Acyclic name)
    (hsafe : (analysis.danglingScenarios path resource).1 = [])
    (hrespects : world.Respects (ConditionIndex.ofTemplate template settings) none)
    (hreaches : Reaches (world.truth (ConditionIndex.ofTemplate template settings))
      template.root path) :
    world.truth (ConditionIndex.ofTemplate template settings) guard = true := by
  have hfaithful := hreached.faithful
  have hlater := hfaithful.conditionsAlong ⟨path, true, false⟩
  have hbacked := Backed.constraints ⟨path, true, false⟩ template.root
  rw [danglingScenarios, hfaithful.sameTemplate, hguard] at hsafe
  dsimp only at hsafe
  rw [hfaithful.conditionsAlong_fst] at hsafe
  split at hsafe
  · next hguarded =>
    refine truth_of_guarded hlater.sameBuilder
      (fun _ _ _ => ConditionIndex.legible_ofTemplate hplain) ?_ hacyclic.1 hguarded hrespects ?_
    · intro pair hpair
      obtain ⟨truths, hgates, -⟩ := hbacked pair hpair
      exact hacyclic.2 pair.1 truths hgates
    · intro pair hpair
      obtain ⟨truths, hgates, hcovers⟩ := hbacked pair hpair
      exact hcovers _ (hreaches.contains hgates)
  · cases hsafe

/-- A path into the table of the stack. -/
def tablePath : Path := [.key "Resources", .key "Table", .key "Properties"]

theorem worker_exists_if_table_does :
    (danglingScenarios
        ⟨stageTemplate, (ConditionIndex.ofTemplate stageTemplate {}).builder, none, []⟩
        tablePath "Worker").1 = [] ∧
      Reaches ((stageWorld "prod" "eu-west-1").truth (ConditionIndex.ofTemplate stageTemplate {}))
        stageTemplate.root tablePath ∧
      (stageWorld "prod" "eu-west-1").truth (ConditionIndex.ofTemplate stageTemplate {})
        "IsLive" = true := by
  have hsafe : (danglingScenarios
      ⟨stageTemplate, (ConditionIndex.ofTemplate stageTemplate {}).builder, none, []⟩
      tablePath "Worker").1 = [] := by decide +kernel
  have hrespects : (stageWorld "prod" "eu-west-1").Respects
      (ConditionIndex.ofTemplate stageTemplate {}) none := .of_entries (by simp) (by decide)
  have hnoBranch : ∀ (before rest : Path) (position : Nat),
      tablePath ≠ before ++ .key "Fn::If" :: .index position :: rest := by
    intro before rest position h
    have hmem : Segment.key "Fn::If" ∈ tablePath := by
      rw [h]
      exact List.mem_append_right _ List.mem_cons_self
    revert hmem
    decide
  have hreaches : Reaches
      ((stageWorld "prod" "eu-west-1").truth (ConditionIndex.ofTemplate stageTemplate {}))
      stageTemplate.root tablePath := by
    refine ⟨?_, fun _ _ _ _ h => absurd h (hnoBranch _ _ _),
      fun _ _ _ _ h => absurd h (hnoBranch _ _ _)⟩
    intro part name rest condition hpath _ hlookup
    cases hpath
    cases hlookup
    decide
  refine ⟨hsafe, hreaches, ?_⟩
  exact guard_of_danglingScenarios_eq_nil stageTemplate {} none _ tablePath "Worker" "IsLive" _
    .start (by decide) (by decide) ⟨ConditionIndex.acyclic_stageTemplate _,
      fun name _ _ => ConditionIndex.acyclic_stageTemplate name⟩ hsafe hrespects hreaches

end Analysis

end StackTemplate
