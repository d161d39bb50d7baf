import StackTemplate.Proofs.Coverage

/-!
# What is recorded along a path

Wherever a path is reached, the conditions recorded along it have truth values
that are recorded, whichever ternaries count. If all of them count, nothing else
is recorded: the names are those of the guard and of the ternaries that the path
leaves, and a truth value is recorded exactly if the guard or one of these
ternaries allows it.
-/

namespace StackTemplate

/-- The empty set has no truth value. -/
theorem TruthSet.contains_none (truth : Bool) : TruthSet.none.contains truth = false := by
  cases truth <;> rfl

namespace Constraints

variable {constraints : Constraints} {name other : String} {truths : TruthSet} {truth : Bool}

/-- Constraints are about a name and leave it a truth value. -/
def Allows (constraints : Constraints) (name : String) (truth : Bool) : Prop :=
  ∃ truths, Entries.get? name constraints = some truths ∧ truths.contains truth = true

/-- Nothing is said about any name at first. -/
theorem not_allows_nil : ¬Allows [] name truth := by
  rintro ⟨truths, hget, -⟩
  cases hget

/-- A name that is extended has its old truth values and those added. -/
theorem allows_extend :
    (constraints.extend name truths).Allows other truth ↔
      constraints.Allows other truth ∨ other = name ∧ truths.contains truth = true := by
  rw [Allows, Allows, extend]
  by_cases h : other = name
  · subst h
    rw [Entries.get?_insert_self]
    cases Entries.get? other constraints with
    | none => simp [TruthSet.contains_union, TruthSet.contains_none]
    | some old => simp [TruthSet.contains_union]
  · rw [Entries.get?_insert_of_ne h]
    simp [h]

/-- Merged constraints leave a name the truth values of both. -/
theorem allows_merge {added : Constraints} (hadded : Entries.Distinct added) :
    Allows (added.foldl (fun merged pair => Constraints.extend merged pair.1 pair.2) constraints)
        name truth ↔
      constraints.Allows name truth ∨ Allows added name truth := by
  induction added generalizing constraints with
  | nil => exact (or_iff_left not_allows_nil).symm
  | cons pair added ih =>
    obtain ⟨first, truths⟩ := pair
    obtain ⟨hnew, hrest⟩ := List.nodup_cons.mp hadded
    have hfirst : Allows ((first, truths) :: added) name truth ↔
        name = first ∧ truths.contains truth = true ∨ Allows added name truth := by
      rw [Allows, Allows, Entries.get?]
      by_cases h : first = name
      · subst h
        have hnone : Entries.get? first added = none := by
          rw [← Option.not_isSome_iff_eq_none, ← Entries.contains_eq_isSome_get?]
          exact fun hknown => hnew (Entries.contains_iff_mem_keys.mp hknown)
        simp [hnone]
      · simp [h, Ne.symm h]
    rw [List.foldl_cons, ih hrest, allows_extend, hfirst, or_assoc]

end Constraints

/-- A path leaves a ternary on its way by a step that leaves its condition some
truth values. -/
inductive Leaves : Value → Path → String → TruthSet → Prop where
  /-- The path starts at a ternary. -/
  | here {value : Value} {ternary : Ternary} {segment : Segment} {path : Path}
      (h : Ternary.ofValue? value = some ternary) :
      Leaves value (segment :: path) ternary.condition (PathQuery.taken (segment :: path))
  /-- The path leaves a ternary after its first step. -/
  | later {value part : Value} {segment : Segment} {path : Path} {name : String}
      {truths : TruthSet} (hstep : value.step? segment = some part)
      (h : Leaves part path name truths) : Leaves value (segment :: path) name truths

section Walk

variable {root value : Value} {path rest : Path} {segment : Segment} {name : String}
  {truths : TruthSet} {truth : Bool} {insideFunction : Bool} {found : Constraints}

/-- The first step of a path leaves a ternary, or a later one does. -/
theorem leaves_cons : Leaves value (segment :: path) name truths ↔
    (∃ ternary, Ternary.ofValue? value = some ternary ∧ name = ternary.condition ∧
      truths = PathQuery.taken (segment :: path)) ∨
    ∃ part, value.step? segment = some part ∧ Leaves part path name truths := by
  constructor
  · intro h
    cases h with
    | here h => exact .inl ⟨_, h, rfl, rfl⟩
    | later hstep h => exact .inr ⟨_, hstep, h⟩
  · rintro (⟨ternary, h, rfl, rfl⟩ | ⟨part, hstep, h⟩)
    · exact .here h
    · exact .later hstep h

/-- A path leaves the ternaries at its proper beginnings. -/
theorem leaves_iff : Leaves value path name truths ↔
    ∃ before segment rest part ternary, path = before ++ segment :: rest ∧
      value.lookup before = some part ∧ Ternary.ofValue? part = some ternary ∧
      name = ternary.condition ∧ truths = PathQuery.taken (segment :: rest) := by
  constructor
  · intro h
    induction h with
    | @here value ternary segment path h => exact ⟨[], segment, path, value, ternary, rfl, rfl, h,
        rfl, rfl⟩
    | @later value part segment path name truths hstep _ ih =>
      obtain ⟨before, next, rest, inner, ternary, rfl, hlookup, hternary⟩ := ih
      refine ⟨segment :: before, next, rest, inner, ternary, rfl, ?_, hternary⟩
      rw [Value.lookup_cons hstep, hlookup]
  · rintro ⟨before, segment, rest, part, ternary, rfl, hlookup, hternary, rfl, rfl⟩
    induction before generalizing value with
    | nil =>
      cases hlookup
      exact .here hternary
    | cons first before ih =>
      obtain ⟨inner, hstep, hinner⟩ := Value.exists_of_lookup_cons hlookup
      exact .later hstep (ih hinner)

/-- What a path says about conditions comes from its guard or from the ternaries
that it leaves. -/
theorem gates_iff : Gates root path name truths ↔
    (PathQuery.guard? root path = some name ∧ truths = .only true) ∨
      Leaves root path name truths := by
  constructor
  · intro h
    cases h with
    | guard hpath hpart hlookup =>
      subst hpath
      exact .inl ⟨PathQuery.guard?_of_lookup hpart hlookup, rfl⟩
    | ternary hpath hlookup hternary =>
      exact .inr (leaves_iff.mpr ⟨_, _, _, _, _, hpath, hlookup, hternary, rfl, rfl⟩)
  · rintro (⟨hguard, rfl⟩ | h)
    · exact gates_of_guard hguard
    · obtain ⟨before, segment, rest, part, ternary, hpath, hlookup, hternary, rfl, rfl⟩ :=
        leaves_iff.mp h
      exact .ternary hpath hlookup hternary

/-- Passing a value lists no condition twice. -/
theorem PathQuery.distinct_recorded (query : PathQuery) (steps : Path)
    (h : Entries.Distinct found) :
    Entries.Distinct (query.recorded steps value insideFunction found) := by
  unfold recorded
  cases Ternary.ofValue? value with
  | none => exact h
  | some ternary =>
    have hkept : Entries.Distinct (if query.onlyDeepest then [] else found) := by
      split
      · exact List.nodup_nil
      · exact h
    rw [Option.elim_some]
    split
    · exact hkept.insert _ _
    · exact h

/-- The walk lists no condition twice. -/
theorem PathQuery.distinct_branches (query : PathQuery) (h : Entries.Distinct found) :
    Entries.Distinct (query.branches rest value insideFunction found) := by
  induction rest generalizing value insideFunction found with
  | nil => exact h
  | cons segment rest ih =>
    have hhere : Entries.Distinct
        (query.recorded (segment :: rest) value insideFunction found) :=
      query.distinct_recorded (segment :: rest) h
    rw [branches_cons]
    cases value.step? segment with
    | none => exact hhere
    | some part => exact ih hhere

/-- Passing a value records what the step from it leaves the condition of the
ternary that it is. -/
theorem PathQuery.allows_recorded {steps : Path} :
    ((everywhere path).recorded steps value insideFunction found).Allows name truth ↔
      found.Allows name truth ∨ ∃ ternary, Ternary.ofValue? value = some ternary ∧
        name = ternary.condition ∧ (taken steps).contains truth = true := by
  unfold recorded everywhere
  cases Ternary.ofValue? value with
  | none => simp
  | some ternary => simp [Constraints.allows_extend]

/-- The walk records what the path leaves the conditions of ternaries on its way. -/
theorem PathQuery.allows_branches :
    ((everywhere path).branches rest value insideFunction found).Allows name truth ↔
      found.Allows name truth ∨
        ∃ truths, Leaves value rest name truths ∧ truths.contains truth = true := by
  induction rest generalizing value insideFunction found with
  | nil =>
    refine (or_iff_left ?_).symm
    rintro ⟨truths, hleaves, -⟩
    cases hleaves
  | cons segment rest ih =>
    simp only [branches_cons, leaves_cons]
    cases value.step? segment with
    | none =>
      rw [Option.elim_none, allows_recorded]
      simp [and_assoc]
    | some part =>
      rw [Option.elim_some, ih, allows_recorded, or_assoc]
      simp [or_and_right, exists_or, and_assoc]

/-- A truth value is recorded along a path exactly if the guard or a ternary on
the way leaves it. -/
theorem PathQuery.allows_constraints :
    ((everywhere path).constraints root).Allows name truth ↔
      ∃ truths, Gates root path name truths ∧ truths.contains truth = true := by
  have hguard : Constraints.Allows
      ((guard? root path).map fun name => (name, TruthSet.only true)).toList name truth ↔
      guard? root path = some name ∧ (TruthSet.only true).contains truth = true := by
    cases guard? root path with
    | none => simp [Constraints.Allows, Entries.get?]
    | some guard => by_cases h : guard = name <;> simp [Constraints.Allows, Entries.get?, h]
  have hbranches : Entries.Distinct ((everywhere path).branches path root false []) :=
    distinct_branches _ List.nodup_nil
  have hmerged : ((everywhere path).constraints root).Allows name truth ↔
      guard? root path = some name ∧ (TruthSet.only true).contains truth = true ∨
        ∃ truths, Leaves root path name truths ∧ truths.contains truth = true := by
    rw [constraints_eq]
    refine (Constraints.allows_merge hbranches).trans (or_congr hguard ?_)
    rw [allows_branches, or_iff_right Constraints.not_allows_nil]
  rw [hmerged]
  simp [gates_iff, or_and_right, exists_or, and_assoc]

end Walk

namespace Analysis

/-- Wherever a path is reached, the conditions that an analysis reports along it
have truth values that it reports. If ternaries inside functions count, and not
only the deepest, it reports the conditions that gate the path and no others,
with the truth values that they may have there and no others. -/
theorem conditionsAlong_of_reaches (template : Template) (settings : Settings)
    (region : Option String) (analysis : Analysis) (query : PathQuery)
    (hreached : Reached template settings region analysis) :
    (∀ truth : String → Bool, Reaches truth template.root query.path →
      ∀ pair ∈ (analysis.conditionsAlong query).1, pair.2.contains (truth pair.1) = true) ∧
    (query.insideFunctions = true → query.onlyDeepest = false → ∀ name,
      (name ∈ Entries.keys (analysis.conditionsAlong query).1 ↔
        ∃ truths, Gates template.root query.path name truths) ∧
      ∀ truth, (analysis.conditionsAlong query).1.Allows name truth ↔
        ∃ truths, Gates template.root query.path name truths ∧ truths.contains truth = true) := by
  rw [hreached.faithful.conditionsAlong_fst]
  constructor
  · intro truth hreaches pair hpair
    obtain ⟨truths, hgates, hcovers⟩ := Backed.constraints query template.root pair hpair
    exact hcovers _ (hreaches.contains hgates)
  · intro hinside hdeepest name
    obtain ⟨path, insideFunctions, onlyDeepest⟩ := query
    cases hinside
    cases hdeepest
    exact ⟨mem_keys_constraints, fun truth => PathQuery.allows_constraints⟩

/-- The path to what the worker reads from if it is not in production. -/
def fallbackPath : Path := (workerPath ++ [.key "Source"]) ++ [.key "Fn::If", .index 2]

theorem conditionsAlong_fallbackPath :
    Reaches (fun name => name == "IsLive") stageTemplate.root fallbackPath ∧
    (∀ pair ∈ (conditionsAlong ⟨stageTemplate,
        (ConditionIndex.ofTemplate stageTemplate {}).builder, none, []⟩
        ⟨fallbackPath, false, true⟩).1,
      pair.2.contains (pair.1 == "IsLive") = true) ∧
    (conditionsAlong ⟨stageTemplate,
        (ConditionIndex.ofTemplate stageTemplate {}).builder, none, []⟩
        (.everywhere fallbackPath)).1.Allows "IsProd" false := by
  have honce : ∀ (before rest : Path) (position : Nat),
      fallbackPath = before ++ .key "Fn::If" :: .index position :: rest →
      workerPath ++ [.key "Source"] = before ∧ [.index 2] = .index position :: rest := by
    intro before rest position h
    obtain ⟨hbefore, -, hrest⟩ :=
      (List.append_cons_inj_of_notMem (by decide) (by decide)).mp h
    exact ⟨hbefore, hrest⟩
  have hreaches : Reaches (fun name => name == "IsLive") stageTemplate.root fallbackPath := by
    refine ⟨?_, ?_, ?_⟩
    · intro part name rest condition hpath _ hlookup
      cases hpath
      cases hlookup
      rfl
    · intro before rest value ternary hpath
      cases (honce _ _ _ hpath).2
    · intro before rest value ternary hpath hlookup hternary
      cases (honce _ _ _ hpath).1
      cases hlookup
      cases hternary
      rfl
  refine ⟨hreaches, ?_, ?_⟩
  · exact (conditionsAlong_of_reaches stageTemplate {} none _ ⟨fallbackPath, false, true⟩
      .start).1 _ hreaches
  · refine (((conditionsAlong_of_reaches stageTemplate {} none _ _ .start).2 rfl rfl _).2 _).mpr ?_
    exact ⟨_, @Gates.ternary _ _ (workerPath ++ [.key "Source"]) [.index 2] (.key "Fn::If") _
      ⟨"IsProd", _, _⟩ rfl rfl rfl, rfl⟩

end Analysis

end StackTemplate
