import StackTemplate.Proofs.Shapes

/-!
# Scenarios below a path

The constraints below a path are about the conditions that gate the path and
those of the ternaries in the part that it leads to, and about nothing else.
They allow whatever truth values these have in a world that reaches the path,
so the scenarios below the path cover every such world.
-/

namespace StackTemplate

namespace Constraints

variable {constraints : Constraints}

/-- Extended constraints are about one more name. -/
theorem mem_keys_extend {name other : String} {truths : TruthSet} :
    other ∈ Entries.keys (constraints.extend name truths) ↔
      other ∈ Entries.keys constraints ∨ other = name := by
  rw [extend, Entries.keys_insert]
  split
  · next hknown =>
    refine ⟨.inl, fun h => h.elim id fun he => ?_⟩
    rw [he]
    exact Entries.contains_iff_mem_keys.mp hknown
  · rw [List.mem_append, List.mem_singleton]

/-- Merged constraints are about the names of both. -/
theorem mem_keys_merge {added : Constraints} {name : String} :
    name ∈ Entries.keys (added.foldl
        (fun merged pair => Constraints.extend merged pair.1 pair.2) constraints) ↔
      name ∈ Entries.keys constraints ∨ name ∈ Entries.keys added := by
  induction added generalizing constraints with
  | nil => exact (or_iff_left List.not_mem_nil).symm
  | cons pair added ih =>
    have hkeys : Entries.keys (pair :: added) = pair.1 :: Entries.keys added := rfl
    rw [List.foldl_cons, ih, mem_keys_extend, or_assoc, hkeys, List.mem_cons]

/-- Merging gives no name twice. -/
theorem distinct_merge (h : Entries.Distinct constraints) (added : Constraints) :
    Entries.Distinct (added.foldl
      (fun merged pair => Constraints.extend merged pair.1 pair.2) constraints) := by
  induction added generalizing constraints with
  | nil => exact h
  | cons pair added ih => exact ih (h.insert _ _)

end Constraints

section Walk

variable {root : Value} {path : Path}

/-- The question about all ternaries on the way of a path. -/
def PathQuery.everywhere (path : Path) : PathQuery := ⟨path, true, false⟩

/-- Passing a value records the condition of the ternary that it is. -/
theorem PathQuery.mem_keys_recorded {steps : Path} {value : Value} {insideFunction : Bool}
    {found : Constraints} {name : String} :
    name ∈ Entries.keys ((everywhere path).recorded steps value insideFunction found) ↔
      name ∈ Entries.keys found ∨
        ∃ ternary, Ternary.ofValue? value = some ternary ∧ name = ternary.condition := by
  unfold recorded everywhere
  cases Ternary.ofValue? value with
  | none => simp
  | some ternary => simp [Constraints.mem_keys_extend]

/-- The walk forgets nothing that was recorded. -/
theorem PathQuery.mem_keys_branches_of_found {rest : Path} {value : Value} {insideFunction : Bool}
    {found : Constraints} {name : String} (h : name ∈ Entries.keys found) :
    name ∈ Entries.keys ((everywhere path).branches rest value insideFunction found) := by
  induction rest generalizing value insideFunction found with
  | nil => exact h
  | cons segment rest ih =>
    rw [branches_cons]
    cases value.step? segment with
    | none => exact mem_keys_recorded.mpr (.inl h)
    | some part => exact ih (mem_keys_recorded.mpr (.inl h))

/-- A path starts with a step. -/
theorem Value.exists_of_lookup_cons {value part : Value} {segment : Segment} {rest : Path}
    (h : value.lookup (segment :: rest) = some part) :
    ∃ inner, value.step? segment = some inner ∧ inner.lookup rest = some part := by
  rw [lookup] at h
  split at h
  · next inner hstep => exact ⟨inner, hstep, h⟩
  · cases h

/-- A path goes on from the part that its first step leads to. -/
theorem Value.lookup_cons {value part : Value} {segment : Segment}
    (hstep : value.step? segment = some part) (rest : Path) :
    value.lookup (segment :: rest) = part.lookup rest := by
  rw [lookup, hstep]

/-- The walk records every ternary that it leaves. It follows the look-up up to the
ternary, and from there on nothing is forgotten. -/
theorem PathQuery.mem_keys_branches_of_ternary {before rest : Path} {segment : Segment}
    {value part : Value} {insideFunction : Bool} {found : Constraints} {ternary : Ternary}
    (hlookup : value.lookup before = some part) (hternary : Ternary.ofValue? part = some ternary) :
    ternary.condition ∈ Entries.keys
      ((everywhere path).branches (before ++ segment :: rest) value insideFunction found) := by
  induction before generalizing value insideFunction found with
  | nil =>
    cases hlookup
    rw [List.nil_append, branches_cons]
    cases part.step? segment with
    | none => exact mem_keys_recorded.mpr (.inr ⟨ternary, hternary, rfl⟩)
    | some inner =>
      exact mem_keys_branches_of_found (mem_keys_recorded.mpr (.inr ⟨ternary, hternary, rfl⟩))
  | cons first before ih =>
    obtain ⟨inner, hstep, hinner⟩ := Value.exists_of_lookup_cons hlookup
    rw [List.cons_append, branches_cons, hstep]
    exact ih hinner

/-- What a step to a key leads to is under the key. -/
theorem Value.get?_of_step? {value part : Value} {name : String}
    (h : value.step? (.key name) = some part) : value.get? name = some part := by
  cases value with
  | object entries => exact h
  | _ => cases h

/-- The guard of what a path leads into is found. -/
theorem PathQuery.guard?_of_lookup {part name condition : String} {rest : Path}
    (hpart : part = "Resources" ∨ part = "Outputs")
    (hlookup : root.lookup [.key part, .key name, .key "Condition"] = some (.string condition)) :
    guard? root (.key part :: .key name :: rest) = some condition := by
  obtain ⟨entities, hentities, hlookup⟩ := Value.exists_of_lookup_cons hlookup
  obtain ⟨entity, hentity, hlookup⟩ := Value.exists_of_lookup_cons hlookup
  obtain ⟨guard, hguard, hlookup⟩ := Value.exists_of_lookup_cons hlookup
  cases hlookup
  simp only [guard?, if_pos hpart, Value.get?_of_step? hentities, Value.get?_of_step? hentity,
    Value.get?_of_step? hguard, Option.bind_eq_bind, Option.bind_some, Value.string?]

/-- The conditions along a path are those that gate it. -/
theorem mem_keys_constraints {name : String} :
    name ∈ Entries.keys ((PathQuery.everywhere path).constraints root) ↔
      ∃ truths, Gates root path name truths := by
  constructor
  · intro h
    obtain ⟨pair, hpair, rfl⟩ := List.mem_map.mp h
    obtain ⟨truths, hgates, -⟩ := Backed.constraints (.everywhere path) root pair hpair
    exact ⟨truths, hgates⟩
  · rintro ⟨truths, hgates⟩
    rw [PathQuery.constraints_eq, Constraints.mem_keys_merge]
    cases hgates with
    | guard hpath hpart hlookup =>
      subst hpath
      refine .inl ?_
      rw [PathQuery.everywhere, PathQuery.guard?_of_lookup hpart hlookup]
      exact List.mem_singleton_self _
    | ternary hpath hlookup hternary =>
      subst hpath
      exact .inr (PathQuery.mem_keys_branches_of_ternary hlookup hternary)

/-- No condition along a path is listed twice. -/
theorem distinct_constraints (query : PathQuery) : Entries.Distinct (query.constraints root) := by
  rw [PathQuery.constraints_eq]
  refine Constraints.distinct_merge ?_ _
  cases PathQuery.guard? root query.path with
  | none => exact List.nodup_nil
  | some name => exact List.nodup_singleton name

end Walk

/-- The constraints of the scenarios below a path: the conditions along the path
are restricted, those of the ternaries in the part that it leads to are left
open unless they gate the path, too. -/
def constraintsBelow (root : Value) (path : Path) (part : Value) : Constraints :=
  (Analysis.ternaryConditions true part).foldl Constraints.leaveOpen
    ((PathQuery.everywhere path).constraints root)

section Below

variable {truth : String → Bool} {root part : Value} {path : Path}

/-- The conditions below a path gate it or are asked by the part. -/
theorem mem_keys_constraintsBelow {name : String} :
    name ∈ Entries.keys (constraintsBelow root path part) ↔
      (∃ truths, Gates root path name truths) ∨ part.Asks name := by
  rw [constraintsBelow, (Constraints.opened _ _).mem_keys, mem_keys_constraints,
    Analysis.mem_ternaryConditions]

/-- No condition below a path is listed twice. -/
theorem distinct_constraintsBelow : Entries.Distinct (constraintsBelow root path part) :=
  (Constraints.opened _ _).distinct (distinct_constraints _)

/-- The constraints below a path allow the truth values of any world that
reaches the path. -/
theorem Reaches.contains_constraintsBelow (h : Reaches truth root path)
    {constraint : String × TruthSet} (hmem : constraint ∈ constraintsBelow root path part) :
    constraint.2.contains (truth constraint.1) = true := by
  rcases (Constraints.opened _ _).mem_or_both constraint hmem with hgating | hboth
  · obtain ⟨truths, hgates, hcovers⟩ :=
      Backed.constraints (.everywhere path) root constraint hgating
    exact hcovers _ (h.contains hgates)
  · rw [hboth]
    cases truth constraint.1 <;> rfl

/-- A path that enters no branch is reached if its guard holds. -/
theorem Reaches.of_unbranched (hunbranched : .key "Fn::If" ∉ path)
    (hguard : ∀ part name rest condition, path = .key part :: .key name :: rest →
      part = "Resources" ∨ part = "Outputs" →
      root.lookup [.key part, .key name, .key "Condition"] = some (.string condition) →
      truth condition = true) : Reaches truth root path := by
  have hnoBranch : ∀ before rest : Path, path ≠ before ++ .key "Fn::If" :: rest := by
    intro before rest h
    rw [h] at hunbranched
    exact hunbranched (List.mem_append_right _ List.mem_cons_self)
  exact ⟨hguard, fun _ _ _ _ h => absurd h (hnoBranch _ _),
    fun _ _ _ _ h => absurd h (hnoBranch _ _)⟩

end Below

namespace Analysis

/-- If there is a ternary below a path, the scenarios below it are those of the
constraints there. -/
theorem Faithful.scenariosBelow_fst {template : Template} {settings : Settings}
    {region : Option String} {analysis : Analysis}
    (h : Faithful template settings region analysis) {path : Path} {part : Value}
    (hpart : template.root.lookup path = some part) (hasks : ∃ name, part.Asks name)
    {other : Option String} {scenarios : List Scenario}
    (hbuild : (ConditionIndex.ofTemplate template settings).buildScenarios
      (constraintsBelow template.root path part) other = .ok scenarios) :
    (analysis.scenariosBelow path true other).1 = scenarios := by
  obtain ⟨name, hname⟩ := hasks
  have hlisted := mem_ternaryConditions.mpr hname
  have hlater := h.conditionsAlong (.everywhere path)
  rw [constraintsBelow, ← h.conditionsAlong_fst] at hbuild
  rw [Analysis.scenariosBelow, h.sameTemplate, hpart]
  dsimp only
  split
  · next hnone =>
    rw [hnone] at hlisted
    cases hlisted
  · have hscenarios : (analysis.conditionsAlong (.everywhere path)).2.builder.build
        ((ternaryConditions true part).foldl Constraints.leaveOpen
          (analysis.conditionsAlong (.everywhere path)).1) other = .ok scenarios := by
      rw [hlater.sameBuilder]
      exact hbuild
    rw [PathQuery.everywhere] at hscenarios
    rw [Analysis.scenarios, hscenarios]

/-- The scenarios below a path cover every world that reaches it: if there is a
ternary below and the enumeration is not cut off, the truth values that the
conditions gating the path and those of the ternaries below have in the world
are listed, with no other name. -/
theorem scenariosBelow_covers_worlds (template : Template) (settings : Settings)
    (analysisRegion region : Option String) (analysis : Analysis) (path : Path) (part : Value)
    (world : World) (hreached : Reached template settings analysisRegion analysis)
    (hplain : (ConditionIndex.ofTemplate template settings).PlainNames)
    (hpart : template.root.lookup path = some part) (hasks : ∃ name, part.Asks name)
    (hgating : ∀ name truths, Gates template.root path name truths →
      (ConditionIndex.ofTemplate template settings).Acyclic name)
    (hcontained : ∀ name, part.Asks name →
      (ConditionIndex.ofTemplate template settings).Acyclic name)
    (hlimit : (analysis.scenariosBelow path true region).1.length <
      (ConditionIndex.ofTemplate template settings).maxScenarios)
    (hrespects : world.Respects (ConditionIndex.ofTemplate template settings) region)
    (hreaches : Reaches (world.truth (ConditionIndex.ofTemplate template settings))
      template.root path) :
    ∃ scenario ∈ (analysis.scenariosBelow path true region).1,
      Entries.Distinct scenario.truths ∧
      ∀ name truth, scenario.get? name = some truth ↔
        ((∃ truths, Gates template.root path name truths) ∨ part.Asks name) ∧
        world.truth (ConditionIndex.ofTemplate template settings) name = truth := by
  have hnames : ∀ name ∈ Entries.keys (constraintsBelow template.root path part),
      (ConditionIndex.ofTemplate template settings).Acyclic name := by
    intro name hname
    rcases mem_keys_constraintsBelow.mp hname with ⟨truths, hgates⟩ | hname
    · exact hgating name truths hgates
    · exact hcontained name hname
  obtain ⟨choices, solver, hbuild, -⟩ := ConditionIndex.exists_choices region hnames
  have hscenarios := hreached.faithful.scenariosBelow_fst hpart hasks hbuild
  rw [hscenarios] at hlimit ⊢
  refine ⟨_, ConditionIndex.scenario_mem_buildScenarios
    (fun _ _ => ConditionIndex.legible_ofTemplate hplain) hnames hbuild hlimit hrespects
    fun _ => hreaches.contains_constraintsBelow, ?_, fun name truth => ?_⟩
  · rw [Entries.Distinct, World.keys_scenario]
    exact distinct_constraintsBelow
  · rw [World.get?_scenario, mem_keys_constraintsBelow]

/-- The path to the properties of the worker. -/
def workerPath : Path := [.key "Resources", .key "Worker", .key "Properties"]

theorem scenariosBelow_covers_live_worker :
    ∃ scenario ∈ (scenariosBelow ⟨stageTemplate,
        (ConditionIndex.ofTemplate stageTemplate {}).builder, none, []⟩ workerPath true
        (some "eu-west-1")).1,
      scenario.get? "IsLive" = some true ∧ scenario.get? "IsProd" = some true ∧
        scenario.get? "IsLocal" = some true := by
  have hpart : stageTemplate.root.lookup workerPath = some workerProperties := rfl
  obtain ⟨hprod, hlocal⟩ := asks_workerProperties
  have hlive : Gates stageTemplate.root workerPath "IsLive" (.only true) :=
    .guard rfl (.inl rfl) rfl
  have hrespects : (stageWorld "prod" "eu-west-1").Respects
      (ConditionIndex.ofTemplate stageTemplate {}) (some "eu-west-1") :=
    .of_entries (by decide) (by decide)
  have hreaches : Reaches
      ((stageWorld "prod" "eu-west-1").truth (ConditionIndex.ofTemplate stageTemplate {}))
      stageTemplate.root workerPath := by
    refine .of_unbranched (by decide) fun part name rest condition hpath _ hlookup => ?_
    cases hpath
    cases hlookup
    decide
  obtain ⟨scenario, hmem, -, hget⟩ := scenariosBelow_covers_worlds stageTemplate {} none
    (some "eu-west-1") _ workerPath workerProperties _ .start (by decide) hpart ⟨_, hprod⟩
    (fun name _ _ => ConditionIndex.acyclic_stageTemplate name)
    (fun name _ => ConditionIndex.acyclic_stageTemplate name) (by decide +kernel) hrespects
    hreaches
  exact ⟨scenario, hmem, (hget _ _).mpr ⟨.inl ⟨_, hlive⟩, by decide⟩,
    (hget _ _).mpr ⟨.inr hprod, by decide⟩, (hget _ _).mpr ⟨.inr hlocal, by decide⟩⟩

end Analysis

end StackTemplate
