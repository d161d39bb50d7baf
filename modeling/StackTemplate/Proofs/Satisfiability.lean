import Mathlib.Data.Fintype.EquivFin
import Mathlib.Data.List.Nodup
import StackTemplate.Proofs.Compilation

/-!
# Satisfiability

The search accepts as soon as the atoms that are closed decide every formula,
and it gives up as soon as they contradict each other. It is exact all the
same: formulas can have the wanted truth values together if and only if
parameters can be given values, and the other atoms truth values, under which
they have them.
-/

namespace StackTemplate.Solver

variable {index : ConditionIndex} {solver : Solver}

section Search

variable {groups : List Comparisons} {goals : List (Formula × Bool)}

/-- Everything is settled when every formula has the wanted truth value. -/
theorem verdict_eq_settled_iff {assignment : Assignment} :
    verdict assignment goals = .settled ↔
      ∀ goal ∈ goals, goal.1.eval assignment = some goal.2 := by
  induction goals with
  | nil => simp [verdict]
  | cons goal goals ih =>
    obtain ⟨formula, wanted⟩ := goal
    rw [List.forall_mem_cons, ← ih, verdict]
    cases formula.eval assignment with
    | none =>
      dsimp only
      split <;> simp
    | some truth =>
      dsimp only
      split
      · next he => simp [he]
      · next hne => simp [hne]

/-- Something is violated when a formula has the opposite of the wanted truth
value. -/
theorem verdict_eq_violated_iff {assignment : Assignment} :
    verdict assignment goals = .violated ↔
      ∃ goal ∈ goals, goal.1.eval assignment = some (!goal.2) := by
  induction goals with
  | nil => simp [verdict]
  | cons goal goals ih =>
    obtain ⟨formula, wanted⟩ := goal
    rw [List.exists_mem_cons_iff, ← ih, verdict]
    cases formula.eval assignment with
    | none =>
      dsimp only
      split
      · next he => simp [he]
      · next hne =>
        have hother : ¬verdict assignment goals = .violated := hne
        simp [hother]
    | some truth =>
      dsimp only
      split
      · next he => simp [he]
      · next hne => simp [Bool.eq_not.mpr hne]

/-- One step of the search: what is closed does not contradict itself, and it
settles everything or can be continued with the next atom. -/
theorem search_eq_true_iff {numbers : List Nat} {assignment : Assignment} :
    search index groups goals numbers assignment = true ↔
      (∀ group ∈ groups, group.consistent index assignment = true) ∧
        (verdict assignment goals = .settled ∨
          verdict assignment goals = .undecided ∧ ∃ number rest truth, numbers = number :: rest ∧
            search index groups goals rest (assignment.set number truth) = true) := by
  rw [search.eq_def]
  dsimp only
  by_cases hconsistent : groups.all fun group => group.consistent index assignment
  · rw [if_pos hconsistent, and_iff_right (List.all_eq_true.mp hconsistent)]
    cases verdict assignment goals with
    | violated => simp
    | settled => simp
    | undecided =>
      cases numbers with
      | nil => simp
      | cons number numbers => simp [or_comm]
  · rw [if_neg hconsistent]
    have hnot : ¬∀ group ∈ groups, group.consistent index assignment = true :=
      fun hall => hconsistent (List.all_eq_true.mpr hall)
    simp [hnot]

/-- The search finds every way to close the atoms that satisfies the formulas,
provided that no part of it is taken for a contradiction. -/
theorem search_of_holds {truth : Nat → Bool}
    (hconsistent : ∀ assignment : Assignment, assignment.Below (.total truth) →
      ∀ group ∈ groups, group.consistent index assignment = true)
    (hgoals : ∀ goal ∈ goals, goal.1.holds truth = goal.2) {numbers : List Nat}
    {assignment : Assignment} (hbelow : assignment.Below (.total truth))
    (hclosed : ∀ goal ∈ goals, ∀ number ∈ goal.1.atoms,
      number ∈ numbers ∨ (assignment number).isSome) :
    search index groups goals numbers assignment = true := by
  induction numbers generalizing assignment with
  | nil =>
    refine search_eq_true_iff.mpr ⟨hconsistent assignment hbelow, .inl ?_⟩
    refine verdict_eq_settled_iff.mpr fun goal hgoal => ?_
    have hsome := Formula.eval_isSome_of_atoms goal.1 fun number hnumber =>
      (hclosed goal hgoal number hnumber).resolve_left List.not_mem_nil
    obtain ⟨value, hvalue⟩ := Option.isSome_iff_exists.mp hsome
    rw [hvalue, ← Formula.holds_of_eval hbelow hvalue, hgoals goal hgoal]
  | cons number numbers ih =>
    have hcontinue := ih (hbelow.set number) fun goal hgoal other hother => by
      rw [Assignment.set_apply]
      split
      · exact .inr rfl
      · next hne =>
        rcases hclosed goal hgoal other hother with hmem | hsome
        · exact .inl ((List.mem_cons.mp hmem).resolve_left hne)
        · exact .inr hsome
    refine search_eq_true_iff.mpr ⟨hconsistent assignment hbelow, ?_⟩
    cases hverdict : verdict assignment goals with
    | settled => exact .inl rfl
    | undecided => exact .inr ⟨rfl, number, numbers, truth number, rfl, hcontinue⟩
    | violated =>
      obtain ⟨goal, hgoal, heval⟩ := verdict_eq_violated_iff.mp hverdict
      have hholds := Formula.holds_of_eval hbelow heval
      rw [hgoals goal hgoal] at hholds
      cases hwanted : goal.2 <;> simp [hwanted] at hholds

/-- An accepting search ends with an assignment that closes only the atoms it
was given, does not contradict itself and settles everything. -/
theorem exists_of_search {numbers : List Nat} {assignment : Assignment}
    (h : search index groups goals numbers assignment = true) :
    ∃ final : Assignment,
      (∀ number, (final number).isSome → number ∈ numbers ∨ (assignment number).isSome) ∧
      (∀ group ∈ groups, group.consistent index final = true) ∧
      ∀ goal ∈ goals, goal.1.eval final = some goal.2 := by
  induction numbers generalizing assignment with
  | nil =>
    obtain ⟨hconsistent, hsettled | ⟨-, number, rest, truth, hnil, -⟩⟩ := search_eq_true_iff.mp h
    · exact ⟨assignment, fun _ => .inr, hconsistent, verdict_eq_settled_iff.mp hsettled⟩
    · cases hnil
  | cons number numbers ih =>
    obtain ⟨hconsistent, hsettled | ⟨-, _, _, truth, hcons, hrest⟩⟩ := search_eq_true_iff.mp h
    · exact ⟨assignment, fun _ => .inr, hconsistent, verdict_eq_settled_iff.mp hsettled⟩
    · cases hcons
      obtain ⟨final, hfinal, hfinalConsistent, hsettled⟩ := ih hrest
      refine ⟨final, fun other hother => ?_, hfinalConsistent, hsettled⟩
      rcases hfinal other hother with hmem | hsome
      · exact .inl (List.mem_cons_of_mem _ hmem)
      · rw [Assignment.set_apply] at hsome
        split at hsome
        · next he => exact .inl (he ▸ List.mem_cons_self)
        · exact .inr hsome

end Search

section Comparisons

/-- The parameter and the text that the atom with a number compares. -/
def compared? (solver : Solver) (number : Nat) : Option (String × String) :=
  (solver.atoms[number]?).bind Atom.equals

/-- The given atoms that compare a parameter, with the texts they compare it
with. -/
def entriesOf (solver : Solver) (numbers : List Nat) (parameter : String) :
    List (Nat × String) :=
  numbers.filterMap fun number =>
    match solver.compared? number with
    | some (other, text) => if other = parameter then some (number, text) else none
    | none => none

/-- The entries of a parameter are its atoms among the given ones. -/
theorem mem_entriesOf {numbers : List Nat} {parameter : String} {entry : Nat × String} :
    entry ∈ solver.entriesOf numbers parameter ↔
      entry.1 ∈ numbers ∧ solver.compared? entry.1 = some (parameter, entry.2) := by
  obtain ⟨number, text⟩ := entry
  rw [entriesOf, List.mem_filterMap]
  constructor
  · rintro ⟨other, hmem, h⟩
    split at h
    · next hcompared =>
      obtain ⟨rfl, he⟩ := Option.ite_none_right_eq_some.mp h
      cases he
      exact ⟨hmem, hcompared⟩
    · cases h
  · rintro ⟨hmem, hcompared⟩
    exact ⟨number, hmem, by simp [hcompared]⟩

/-- Different atoms have different entries. -/
theorem nodup_entriesOf {numbers : List Nat} (h : numbers.Nodup) (parameter : String) :
    ((solver.entriesOf numbers parameter).map Prod.fst).Nodup := by
  refine List.Nodup.sublist ?_ h
  induction numbers with
  | nil => exact List.Sublist.slnil
  | cons number numbers ih =>
    have hrest := ih (List.nodup_cons.mp h).2
    rw [entriesOf, List.filterMap_cons]
    split
    · exact hrest.cons number
    · next entry hentry =>
      have hnumber : entry.1 = number := by
        split at hentry
        · obtain ⟨-, he⟩ := Option.ite_none_right_eq_some.mp hentry
          cases he
          rfl
        · cases hentry
      rw [List.map_cons, hnumber]
      exact hrest.cons_cons number

/-- A group with an atom added if it is the group of a parameter. -/
def Comparisons.extend (parameter text : String) (number : Nat) (group : Comparisons) :
    Comparisons :=
  if group.parameter = parameter then { group with atoms := group.atoms ++ [(number, text)] }
  else group

/-- A group stays the group of its parameter. -/
@[simp] theorem Comparisons.parameter_extend (parameter text : String) (number : Nat)
    (group : Comparisons) :
    (group.extend parameter text number).parameter = group.parameter := by
  unfold extend
  split <;> rfl

/-- An atom is added to the group of its parameter. -/
theorem addComparison_of_mem {parameter text : String} {number : Nat} {groups : List Comparisons}
    (hdistinct : (groups.map Comparisons.parameter).Nodup)
    (hmem : parameter ∈ groups.map Comparisons.parameter) :
    addComparison parameter text number groups =
      groups.map (Comparisons.extend parameter text number) := by
  induction groups with
  | nil => exact absurd hmem List.not_mem_nil
  | cons group groups ih =>
    obtain ⟨hfresh, hrest⟩ := List.nodup_cons.mp hdistinct
    rw [addComparison, List.map_cons]
    by_cases he : group.parameter = parameter
    · have hothers : groups.map (Comparisons.extend parameter text number) = groups.map id :=
        List.map_congr_left fun other hother =>
          if_neg fun hsame => hfresh (List.mem_map.mpr ⟨other, hother, hsame.trans he.symm⟩)
      rw [if_pos he, Comparisons.extend, if_pos he, hothers, List.map_id]
    · have hmem : parameter ∈ groups.map Comparisons.parameter :=
        (List.mem_cons.mp hmem).resolve_left fun hsame => he hsame.symm
      rw [if_neg he, Comparisons.extend, if_neg he, ih hrest hmem]

/-- An atom of a parameter without a group starts one. -/
theorem addComparison_of_notMem {parameter text : String} {number : Nat}
    {groups : List Comparisons} (hnew : parameter ∉ groups.map Comparisons.parameter) :
    addComparison parameter text number groups = groups ++ [⟨parameter, [(number, text)]⟩] := by
  induction groups with
  | nil => rfl
  | cons group groups ih =>
    obtain ⟨hne, hrest⟩ := not_or.mp fun h => hnew (List.mem_cons.mpr h)
    rw [addComparison, if_neg fun hsame => hne hsame.symm, ih hrest, List.cons_append]

/-- Atoms sorted by parameter: every parameter has one group, which lists just
its atoms among those seen. -/
structure Grouped (solver : Solver) (seen : List Nat) (groups : List Comparisons) : Prop where
  /-- No parameter has two groups. -/
  distinct : (groups.map Comparisons.parameter).Nodup
  /-- A group lists the atoms of its parameter. -/
  entries : ∀ group ∈ groups, group.atoms = solver.entriesOf seen group.parameter
  /-- A parameter that is compared has a group. -/
  present : ∀ number ∈ seen, ∀ parameter text,
    solver.compared? number = some (parameter, text) →
      parameter ∈ groups.map Comparisons.parameter

/-- An atom that compares nothing changes no group. -/
theorem Grouped.skip {seen : List Nat} {groups : List Comparisons}
    (h : solver.Grouped seen groups) {number : Nat} (hnone : solver.compared? number = none) :
    solver.Grouped (seen ++ [number]) groups where
  distinct := h.distinct
  entries group hgroup := by
    rw [h.entries group hgroup]
    simp [entriesOf, hnone]
  present other hother parameter text hcompared := by
    rcases List.mem_append.mp hother with hmem | hmem
    · exact h.present other hmem parameter text hcompared
    · rw [List.mem_singleton.mp hmem, hnone] at hcompared
      cases hcompared

/-- An atom that compares a parameter goes to the group of the parameter. -/
theorem Grouped.add {seen : List Nat} {groups : List Comparisons}
    (h : solver.Grouped seen groups) {number : Nat} {parameter text : String}
    (hsome : solver.compared? number = some (parameter, text)) :
    solver.Grouped (seen ++ [number]) (addComparison parameter text number groups) := by
  have hentries : ∀ other, solver.entriesOf (seen ++ [number]) other =
      solver.entriesOf seen other ++ if parameter = other then [(number, text)] else [] := by
    intro other
    rw [entriesOf, List.filterMap_append, entriesOf]
    congr 1
    by_cases he : parameter = other <;> simp [hsome, he]
  have hcompared : ∀ other ∈ seen ++ [number], ∀ name found,
      solver.compared? other = some (name, found) →
        name ∈ groups.map Comparisons.parameter ∨ name = parameter := by
    intro other hother name found hfound
    rcases List.mem_append.mp hother with hmem | hmem
    · exact .inl (h.present other hmem name found hfound)
    · rw [List.mem_singleton.mp hmem, hsome] at hfound
      cases hfound
      exact .inr rfl
  by_cases hmem : parameter ∈ groups.map Comparisons.parameter
  · have hparameters : (groups.map (Comparisons.extend parameter text number)).map
        Comparisons.parameter = groups.map Comparisons.parameter := by
      rw [List.map_map]
      exact List.map_congr_left fun group _ => group.parameter_extend parameter text number
    rw [addComparison_of_mem h.distinct hmem]
    refine ⟨?_, ?_, ?_⟩
    · rw [hparameters]
      exact h.distinct
    · intro group hgroup
      obtain ⟨old, hold, rfl⟩ := List.mem_map.mp hgroup
      rw [Comparisons.parameter_extend, hentries, ← h.entries old hold, Comparisons.extend]
      by_cases he : old.parameter = parameter
      · rw [if_pos he, if_pos he.symm]
      · rw [if_neg he, if_neg (Ne.symm he), List.append_nil]
    · intro other hother name found hfound
      rw [hparameters]
      rcases hcompared other hother name found hfound with hin | rfl
      · exact hin
      · exact hmem
  · rw [addComparison_of_notMem hmem]
    refine ⟨?_, ?_, ?_⟩
    · rw [List.map_append]
      exact List.nodup_append.mpr ⟨h.distinct, by simp, by simpa using hmem⟩
    · intro group hgroup
      rw [hentries]
      rcases List.mem_append.mp hgroup with hold | hnew
      · have hne : parameter ≠ group.parameter :=
          fun he => hmem (he ▸ List.mem_map_of_mem hold)
        rw [if_neg hne, List.append_nil, h.entries group hold]
      · have hempty : solver.entriesOf seen parameter = [] := by
          refine List.eq_nil_iff_forall_not_mem.mpr fun entry hentry => ?_
          obtain ⟨hseen, hfound⟩ := mem_entriesOf.mp hentry
          exact hmem (h.present entry.1 hseen parameter entry.2 hfound)
        rw [List.mem_singleton.mp hnew, if_pos rfl, hempty, List.nil_append]
    · intro other hother name found hfound
      rw [List.map_append]
      rcases hcompared other hother name found hfound with hin | rfl
      · exact List.mem_append_left _ hin
      · exact List.mem_append_right _ List.mem_cons_self

/-- The groups of the search list just the atoms of their parameters. -/
theorem grouped_comparisons (solver : Solver) (numbers : List Nat) :
    solver.Grouped numbers (solver.comparisons numbers) := by
  have hstep : ∀ seen groups, solver.Grouped seen groups → ∀ rest,
      solver.Grouped (seen ++ rest) (rest.foldl (fun groups number =>
        match (solver.atoms[number]?).bind Atom.equals with
        | some (parameter, text) => addComparison parameter text number groups
        | none => groups) groups) := by
    intro seen groups hgrouped rest
    induction rest generalizing seen groups with
    | nil => rwa [List.append_nil]
    | cons number rest ih =>
      rw [List.foldl_cons, List.append_cons]
      refine ih _ _ ?_
      split
      · next hsome => exact hgrouped.add hsome
      · next hnone => exact hgrouped.skip hnone
  exact hstep [] [] ⟨List.nodup_nil, by simp, by simp⟩ numbers

end Comparisons

section Tables

variable {region : Option String} {roots : String → Prop}

/-- An atom that compares a parameter with a text has the key of the two, and
they arise. -/
theorem Sound.exists_of_compared (hsound : Sound index region roots solver) {number : Nat}
    {parameter text : String} (h : solver.compared? number = some (parameter, text)) :
    index.Arises region roots (.comparison parameter text) ∧
      solver.atoms[number]? = some (Subject.comparison parameter text).atom := by
  obtain ⟨atom, hatom, hequals⟩ := Option.bind_eq_some_iff.mp h
  obtain ⟨subject, harises, rfl⟩ := hsound.arises atom (List.mem_of_getElem? hatom)
  cases subject with
  | comparison first second =>
    cases hequals
    exact ⟨harises, hatom⟩
  | pair operands => cases hequals
  | unknown digest => cases hequals
  | undefined name => cases hequals

/-- A comparison that arises is about an allowed value, unless nothing is said
about allowed values. -/
theorem mem_allowed_of_arises {parameter text : String}
    (h : index.Arises region roots (.comparison parameter text)) {allowed : List String}
    (hallowed : index.allowed? parameter = some allowed) : text ∈ allowed := by
  cases h with
  | operands _ hfree =>
    have hmatch := (Reading.ofOperands_eq_comparison hfree).2
    exact (Reading.ofMatch_eq_free hmatch).2.2 allowed hallowed

/-- Comparisons of a given region do not arise. -/
theorem region_of_arises {parameter text : String}
    (h : index.Arises region roots (.comparison parameter text)) :
    parameter = "AWS::Region" → region = none := by
  cases h with
  | operands _ hfree =>
    have hmatch := (Reading.ofOperands_eq_comparison hfree).2
    exact (Reading.ofMatch_eq_free hmatch).2.1

/-- What is compared with a parameter is allowed, unless nothing is said about
allowed values. -/
theorem Sound.mem_allowed (hsound : Sound index region roots solver) {number : Nat}
    {parameter text : String} (h : solver.compared? number = some (parameter, text))
    {allowed : List String} (hallowed : index.allowed? parameter = some allowed) :
    text ∈ allowed :=
  mem_allowed_of_arises (hsound.exists_of_compared h).1 hallowed

/-- A given region is not compared with anything. -/
theorem Sound.region_of_compared (hsound : Sound index region roots solver) {number : Nat}
    {parameter text : String} (h : solver.compared? number = some (parameter, text)) :
    parameter = "AWS::Region" → region = none :=
  region_of_arises (hsound.exists_of_compared h).1

/-- No two atoms compare the same parameter with the same text. -/
theorem Sound.compared_injective (hsound : Sound index region roots solver) {first second : Nat}
    {pair : String × String} (hfirst : solver.compared? first = some pair)
    (hsecond : solver.compared? second = some pair) : first = second := by
  have hkeyFirst := congrArg (Option.map Atom.key) (hsound.exists_of_compared hfirst).2
  have hkeySecond := congrArg (Option.map Atom.key) (hsound.exists_of_compared hsecond).2
  rw [← List.getElem?_map] at hkeyFirst hkeySecond
  have hbound := (List.getElem?_eq_some_iff.mp hkeyFirst).1
  exact (List.getElem?_inj hbound hsound.nodup).mp (hkeyFirst.trans hkeySecond.symm)

end Tables

/-- Values of parameters and truth values of atoms that fit together: an atom
that compares a parameter is true if the parameter has the text as its value,
and a parameter has an allowed value. -/
structure Model (index : ConditionIndex) (solver : Solver) (numbers : List Nat)
    (values : String → String) (truth : Nat → Bool) : Prop where
  /-- Comparisons have the truth values that the values of parameters give them. -/
  comparison : ∀ number ∈ numbers, ∀ parameter text,
    solver.compared? number = some (parameter, text) → truth number = (values parameter == text)
  /-- Parameters have allowed values. -/
  allowed : ∀ number ∈ numbers, ∀ parameter text,
    solver.compared? number = some (parameter, text) →
      ∀ allowed, index.allowed? parameter = some allowed → values parameter ∈ allowed

/-- Truth values that do not contradict each other as far as the given atoms go:
no parameter equals two texts, and a parameter that is compared with all its
allowed values equals one of them. -/
structure Coherent (index : ConditionIndex) (solver : Solver) (occurs : Nat → Prop)
    (truth : Nat → Bool) : Prop where
  /-- At most one comparison of a parameter is true. -/
  exclusive : ∀ parameter text other first second, occurs first → occurs second →
    solver.compared? first = some (parameter, text) →
      solver.compared? second = some (parameter, other) →
        truth first = true → truth second = true → first = second
  /-- If every allowed value of a parameter is compared, one of these comparisons
  is true. -/
  covered : ∀ parameter allowed, index.allowed? parameter = some allowed → allowed ≠ [] →
    (∀ value ∈ allowed, ∃ number, occurs number ∧
      solver.compared? number = some (parameter, value)) →
    ∃ value ∈ allowed, ∃ number, occurs number ∧
      solver.compared? number = some (parameter, value) ∧ truth number = true

section Consistency

variable {region : Option String} {roots : String → Prop} {numbers : List Nat}
  {values : String → String} {truth : Nat → Bool} {assignment : Assignment}

/-- At most one entry of a list is selected if all that are selected are equal. -/
theorem countP_le_one {α : Type} {entries : List α} (hnodup : entries.Nodup) {select : α → Bool}
    (h : ∀ first ∈ entries, ∀ second ∈ entries, select first = true → select second = true →
      first = second) : entries.countP select ≤ 1 := by
  rw [List.countP_eq_length_filter]
  cases hfilter : entries.filter select with
  | nil => exact Nat.zero_le _
  | cons first rest =>
    have hfirst := List.mem_filter.mp (hfilter ▸ List.mem_cons_self : first ∈ entries.filter select)
    have hsub : entries.filter select ⊆ [first] := by
      intro second hsecond
      have hmem := List.mem_filter.mp hsecond
      rw [h second hmem.1 first hfirst.1 hmem.2 hfirst.2]
      exact List.mem_cons_self
    rw [← hfilter]
    exact (List.subperm_of_subset (hnodup.filter _) hsub).length_le

/-- What is selected is the same if at most one entry is. -/
theorem eq_of_countP_le_one {α : Type} {entries : List α} {select : α → Bool}
    (h : entries.countP select ≤ 1) {first second : α} (hfirst : first ∈ entries)
    (hsecond : second ∈ entries) (hselectFirst : select first = true)
    (hselectSecond : select second = true) : first = second := by
  rw [List.countP_eq_length_filter] at h
  have hmemFirst := List.mem_filter.mpr ⟨hfirst, hselectFirst⟩
  have hmemSecond := List.mem_filter.mpr ⟨hsecond, hselectSecond⟩
  match hfilter : entries.filter select with
  | [] =>
    rw [hfilter] at hmemFirst
    exact absurd hmemFirst List.not_mem_nil
  | [only] =>
    rw [hfilter, List.mem_singleton] at hmemFirst hmemSecond
    rw [hmemFirst, hmemSecond]
  | _ :: _ :: _ =>
    rw [hfilter, List.length_cons, List.length_cons] at h
    omega

/-- A group does not contradict itself if at most one of its texts is matched
and some allowed value is not rejected. -/
theorem consistent_iff {group : Comparisons} :
    group.consistent index assignment = true ↔
      group.atoms.countP (fun entry => assignment entry.1 == some true) ≤ 1 ∧
        ∀ allowed, index.allowed? group.parameter = some allowed → allowed ≠ [] →
          ∃ value ∈ allowed, ∀ number, (number, value) ∈ group.atoms →
            assignment number ≠ some false := by
  unfold Comparisons.consistent
  dsimp only
  rw [Bool.and_eq_true, decide_eq_true_eq]
  refine and_congr Iff.rfl ?_
  cases index.allowed? group.parameter with
  | none => simp
  | some allowed =>
    cases allowed with
    | nil => simp
    | cons value allowed => simp [-List.all_cons, List.all_eq_false]

/-- The truth values of a model do not contradict each other: the value of a
parameter is the only text that it equals. -/
theorem Model.coherent (hsound : Sound index region roots solver)
    (hmodel : Model index solver numbers values truth) :
    Coherent index solver (· ∈ numbers) truth where
  exclusive parameter text other first second hfirst hsecond hcompared hother htrue htrueOther := by
    have htext := hmodel.comparison first hfirst parameter text hcompared
    have hotherText := hmodel.comparison second hsecond parameter other hother
    rw [htrue, eq_comm, beq_iff_eq] at htext
    rw [htrueOther, eq_comm, beq_iff_eq] at hotherText
    rw [← htext] at hcompared
    rw [← hotherText] at hother
    exact hsound.compared_injective hcompared hother
  covered parameter allowed hallowed hne hcovered := by
    obtain ⟨sample, hsample⟩ := List.exists_mem_of_ne_nil allowed hne
    obtain ⟨number, hnumber, hcompared⟩ := hcovered sample hsample
    have hvalue := hmodel.allowed number hnumber parameter sample hcompared allowed hallowed
    obtain ⟨matching, hmatching, hmatched⟩ := hcovered (values parameter) hvalue
    refine ⟨values parameter, hvalue, matching, hmatching, hmatched, ?_⟩
    rw [hmodel.comparison matching hmatching parameter _ hmatched, beq_self_eq_true]

/-- Nothing below coherent truth values is taken for a contradiction. -/
theorem Coherent.consistent (hsound : Sound index region roots solver)
    (hcoherent : Coherent index solver (· ∈ numbers) truth) (hnodup : numbers.Nodup)
    (hbelow : assignment.Below (.total truth)) {group : Comparisons}
    (hgroup : group ∈ solver.comparisons numbers) :
    group.consistent index assignment = true := by
  have htruth : ∀ number value, assignment number = some value → truth number = value :=
    fun number value hvalue => Option.some.inj (hbelow number value hvalue)
  rw [consistent_iff, (grouped_comparisons solver numbers).entries group hgroup]
  constructor
  · have hentries : (solver.entriesOf numbers group.parameter).Nodup :=
      List.Nodup.of_map _ (nodup_entriesOf hnodup group.parameter)
    refine countP_le_one hentries fun first hfirst second hsecond hselect hselectSecond => ?_
    obtain ⟨hnumber, hcompared⟩ := mem_entriesOf.mp hfirst
    obtain ⟨hnumberSecond, hcomparedSecond⟩ := mem_entriesOf.mp hsecond
    have hsame : first.1 = second.1 :=
      hcoherent.exclusive group.parameter first.2 second.2 _ _ hnumber hnumberSecond hcompared
        hcomparedSecond (htruth _ _ (beq_iff_eq.mp hselect))
        (htruth _ _ (beq_iff_eq.mp hselectSecond))
    rw [hsame, hcomparedSecond] at hcompared
    have htext := congrArg Prod.snd (Option.some.inj hcompared)
    exact Prod.ext hsame htext.symm
  · intro allowed hallowed hne
    by_cases hcovered : ∀ value ∈ allowed, ∃ number, number ∈ numbers ∧
        solver.compared? number = some (group.parameter, value)
    · obtain ⟨value, hvalue, number, -, hcompared, htrue⟩ :=
        hcoherent.covered group.parameter allowed hallowed hne hcovered
      refine ⟨value, hvalue, fun other hother hrejected => ?_⟩
      have hsame := hsound.compared_injective hcompared (mem_entriesOf.mp hother).2
      rw [hsame, htruth other false hrejected] at htrue
      cases htrue
    · push Not at hcovered
      obtain ⟨value, hvalue, hnone⟩ := hcovered
      refine ⟨value, hvalue, fun number hentry => ?_⟩
      obtain ⟨hnumber, hcompared⟩ := mem_entriesOf.mp hentry
      exact absurd hcompared (hnone number hnumber)

/-- A value of a parameter fits what is closed: its comparisons with texts have
the truth values they are closed with, and it is allowed if it is compared. -/
def Fits (index : ConditionIndex) (solver : Solver) (numbers : List Nat)
    (assignment : Assignment) (parameter value : String) : Prop :=
  ∀ number ∈ numbers, ∀ text, solver.compared? number = some (parameter, text) →
    (∀ closed, assignment number = some closed → closed = (value == text)) ∧
      ∀ allowed, index.allowed? parameter = some allowed → value ∈ allowed

/-- A text that is matched fits, as no other one is. -/
theorem fits_of_matched (hsound : Sound index region roots solver) {parameter : String}
    (hmatched : (solver.entriesOf numbers parameter).countP
      (fun entry => assignment entry.1 == some true) ≤ 1)
    {entry : Nat × String} (hentry : entry ∈ solver.entriesOf numbers parameter)
    (htrue : assignment entry.1 = some true) :
    Fits index solver numbers assignment parameter entry.2 := by
  have hentryCompared := (mem_entriesOf.mp hentry).2
  refine fun number hnumber text hcompared => ⟨fun closed hclosed => ?_, fun allowed hallowed =>
    hsound.mem_allowed hentryCompared hallowed⟩
  cases closed with
  | true =>
    have hother : (number, text) ∈ solver.entriesOf numbers parameter :=
      mem_entriesOf.mpr ⟨hnumber, hcompared⟩
    have hsame : entry = (number, text) := eq_of_countP_le_one hmatched hentry hother
      (beq_iff_eq.mpr htrue) (beq_iff_eq.mpr hclosed)
    rw [hsame, beq_self_eq_true]
  | false =>
    refine (beq_eq_false_iff_ne.mpr fun he => ?_).symm
    rw [← he] at hcompared
    rw [hsound.compared_injective hentryCompared hcompared, hclosed] at htrue
    cases htrue

/-- Where no text is matched, a value fits if it is not rejected and allowed. -/
theorem fits_of_unmatched {parameter value : String}
    (hunmatched : ∀ entry ∈ solver.entriesOf numbers parameter, assignment entry.1 ≠ some true)
    (hkept : ∀ number, (number, value) ∈ solver.entriesOf numbers parameter →
      assignment number ≠ some false)
    (hallowed : ∀ entry ∈ solver.entriesOf numbers parameter, ∀ allowed,
      index.allowed? parameter = some allowed → value ∈ allowed) :
    Fits index solver numbers assignment parameter value := by
  intro number hnumber text hcompared
  have hentry : (number, text) ∈ solver.entriesOf numbers parameter :=
    mem_entriesOf.mpr ⟨hnumber, hcompared⟩
  refine ⟨fun closed hclosed => ?_, hallowed _ hentry⟩
  cases closed with
  | true => exact absurd hclosed (hunmatched _ hentry)
  | false =>
    refine (beq_eq_false_iff_ne.mpr fun he => ?_).symm
    rw [← he] at hentry
    exact hkept number hentry hclosed

/-- A parameter whose group does not contradict itself has a value that fits:
the matched text, or else an allowed value that is not rejected, or else a text
that is not compared at all. A compared text is allowed, so in the last case no
allowed values are declared. -/
theorem exists_fits (hsound : Sound index region roots solver)
    (hconsistent : ∀ group ∈ solver.comparisons numbers, group.consistent index assignment = true)
    (parameter : String) : ∃ value, Fits index solver numbers assignment parameter value := by
  have hgrouped := grouped_comparisons solver numbers
  by_cases hpresent : parameter ∈ (solver.comparisons numbers).map Comparisons.parameter
  · obtain ⟨group, hgroup, rfl⟩ := List.mem_map.mp hpresent
    obtain ⟨hmatched, hcovered⟩ := consistent_iff.mp (hconsistent group hgroup)
    rw [hgrouped.entries group hgroup] at hmatched hcovered
    by_cases htrue : ∃ entry ∈ solver.entriesOf numbers group.parameter,
        assignment entry.1 = some true
    · obtain ⟨entry, hentry, hentryTrue⟩ := htrue
      exact ⟨entry.2, fits_of_matched hsound hmatched hentry hentryTrue⟩
    · have hunmatched := fun entry hentry h => htrue ⟨entry, hentry, h⟩
      by_cases hlisted : ∃ allowed, index.allowed? group.parameter = some allowed ∧ allowed ≠ []
      · obtain ⟨allowed, hallowed, hne⟩ := hlisted
        obtain ⟨value, hvalue, hkept⟩ := hcovered allowed hallowed hne
        refine ⟨value, fits_of_unmatched hunmatched hkept fun _ _ other hother => ?_⟩
        rw [hallowed] at hother
        exact Option.some.inj hother ▸ hvalue
      · obtain ⟨value, hfresh⟩ := Infinite.exists_notMem_finset
          ((solver.entriesOf numbers group.parameter).map Prod.snd).toFinset
        rw [List.mem_toFinset] at hfresh
        refine ⟨value, fits_of_unmatched hunmatched (fun number hmem => ?_) ?_⟩
        · exact absurd (List.mem_map_of_mem hmem) hfresh
        · intro entry hentry allowed hallowed
          have hmem := hsound.mem_allowed (mem_entriesOf.mp hentry).2 hallowed
          exact absurd ⟨allowed, hallowed, List.ne_nil_of_mem hmem⟩ hlisted
  · refine ⟨"", fun number hnumber text hcompared => ?_⟩
    exact absurd (hgrouped.present number hnumber parameter text hcompared) hpresent

end Consistency

/-- The atoms of formulas that are wanted are those of each formula. -/
theorem mem_relevantAtoms {goals : List (Formula × Bool)} {number : Nat} :
    number ∈ relevantAtoms goals ↔ ∃ goal ∈ goals, number ∈ goal.1.atoms := by
  have hstep : ∀ found : List Nat,
      number ∈ goals.foldl (fun found goal => Formula.addAtoms found goal.1) found ↔
        number ∈ found ∨ ∃ goal ∈ goals, number ∈ goal.1.atoms := by
    induction goals with
    | nil => simp
    | cons goal goals ih =>
      intro found
      rw [List.foldl_cons, ih, Formula.mem_addAtoms, List.exists_mem_cons_iff, or_assoc]
  rw [relevantAtoms, hstep]
  exact or_iff_right List.not_mem_nil

/-- No atom is listed twice. -/
theorem nodup_relevantAtoms (goals : List (Formula × Bool)) : (relevantAtoms goals).Nodup := by
  have hstep : ∀ found : List Nat, found.Pairwise (· < ·) →
      (goals.foldl (fun found goal => Formula.addAtoms found goal.1) found).Pairwise (· < ·) := by
    induction goals with
    | nil => exact fun _ h => h
    | cons goal goals ih => exact fun found h => ih _ (Formula.pairwise_addAtoms goal.1 h)
  exact (hstep [] List.Pairwise.nil).imp Nat.ne_of_lt

section Exactness

variable {region : Option String} {roots : String → Prop} {goals : List (Formula × Bool)}

/-- Formulas that have the wanted truth values under coherent ones are
satisfiable. -/
theorem satisfiable_of_coherent (hsound : Sound index region roots solver) {truth : Nat → Bool}
    (hcoherent : Coherent index solver (· ∈ relevantAtoms goals) truth)
    (hgoals : ∀ goal ∈ goals, goal.1.holds truth = goal.2) :
    satisfiable index solver goals = true := by
  refine search_of_holds (fun assignment hbelow group hgroup => ?_) hgoals
    (Assignment.empty_below _) fun goal hgoal number hnumber => ?_
  · exact hcoherent.consistent hsound (nodup_relevantAtoms goals) hbelow hgroup
  · exact .inl (mem_relevantAtoms.mpr ⟨goal, hgoal, hnumber⟩)

/-- Formulas that have the wanted truth values in a model are satisfiable. -/
theorem satisfiable_of_model (hsound : Sound index region roots solver)
    {values : String → String} {truth : Nat → Bool}
    (hmodel : Model index solver (relevantAtoms goals) values truth)
    (hgoals : ∀ goal ∈ goals, goal.1.holds truth = goal.2) :
    satisfiable index solver goals = true :=
  satisfiable_of_coherent hsound (hmodel.coherent hsound) hgoals

/-- Satisfiable formulas have the wanted truth values in some model. -/
theorem exists_model_of_satisfiable (hsound : Sound index region roots solver)
    (h : satisfiable index solver goals = true) :
    ∃ values truth, Model index solver (relevantAtoms goals) values truth ∧
      ∀ goal ∈ goals, goal.1.holds truth = goal.2 := by
  obtain ⟨final, hclosed, hconsistent, hsettled⟩ := exists_of_search h
  choose values hfits using exists_fits hsound hconsistent
  let truth : Nat → Bool := fun number =>
    match solver.compared? number with
    | some (parameter, text) => values parameter == text
    | none => (final number).getD false
  have htruth : ∀ number parameter text, solver.compared? number = some (parameter, text) →
      truth number = (values parameter == text) := by
    intro number parameter text hcompared
    simp only [truth, hcompared]
  have hbelow : final.Below (.total truth) := by
    intro number closed hfinal
    rw [Assignment.total_apply]
    cases hcompared : solver.compared? number with
    | none => simp only [truth, hcompared, hfinal, Option.getD_some]
    | some pair =>
      have hnumber := (hclosed number (Option.isSome_of_eq_some hfinal)).resolve_right (by
        simp [Assignment.empty])
      have hvalue := (hfits pair.1 number hnumber pair.2 hcompared).1 closed hfinal
      rw [htruth number pair.1 pair.2 hcompared, hvalue]
  refine ⟨values, truth, ⟨fun number _ => htruth number, ?_⟩, ?_⟩
  · exact fun number hnumber parameter text hcompared =>
      (hfits parameter number hnumber text hcompared).2
  · exact fun goal hgoal => Formula.holds_of_eval hbelow (hsettled goal hgoal)

end Exactness

end StackTemplate.Solver
