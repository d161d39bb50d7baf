import StackTemplate.Proofs.Cycles

/-!
# Comparisons that share an atom

Atoms are numbered as their keys are met, and a number stands for its key from
then on, whatever is compiled later. So two comparisons share an atom exactly
if their keys are the same text. The order of operands does not show in a key,
but neither do the places where its parts end: an equals sign may belong to a
name, to a text or to the key itself, and a name may look like the key of an
operand. Names without such traits are never confused.
-/

namespace StackTemplate

/-- A text is divided by an equals sign in one place, or in two of which one
comes first. -/
theorem append_equalsSign_eq_iff {before after before' after' : String} :
    before ++ "=" ++ after = before' ++ "=" ++ after' ↔
      (before = before' ∧ after = after') ∨
        (∃ middle, before' = before ++ "=" ++ middle ∧ after = middle ++ "=" ++ after') ∨
        ∃ middle, before = before' ++ "=" ++ middle ∧ after' = middle ++ "=" ++ after := by
  constructor
  · intro h
    have hlist : before.toList ++ '=' :: after.toList = before'.toList ++ '=' :: after'.toList := by
      simpa using congrArg String.toList h
    rcases List.append_eq_append_iff.mp hlist with ⟨middle, hlong, hrest⟩ | ⟨middle, hlong, hrest⟩
    · cases middle with
      | nil => exact .inl ⟨String.toList_inj.mp (by simpa using hlong.symm),
          String.toList_inj.mp (by simpa using hrest)⟩
      | cons sign middle =>
        obtain ⟨rfl, hafter⟩ := List.cons.inj hrest
        exact .inr (.inl ⟨String.ofList middle, String.toList_inj.mp (by simpa using hlong),
          String.toList_inj.mp (by simpa using hafter)⟩)
    · cases middle with
      | nil => exact .inl ⟨String.toList_inj.mp (by simpa using hlong),
          String.toList_inj.mp (by simpa using hrest.symm)⟩
      | cons sign middle =>
        obtain ⟨rfl, hafter⟩ := List.cons.inj hrest
        exact .inr (.inr ⟨String.ofList middle, String.toList_inj.mp (by simpa using hlong),
          String.toList_inj.mp (by simpa using hafter)⟩)
  · rintro (⟨rfl, rfl⟩ | ⟨middle, rfl, rfl⟩ | ⟨middle, rfl, rfl⟩)
    · rfl
    · simp only [String.append_assoc]
    · simp only [String.append_assoc]

namespace Subject

/-- What a comparison is about, if nothing decides it. -/
def ofOperands : Operand → Operand → Subject
  | .ref parameter, .literal text => .comparison parameter text
  | .literal text, .ref parameter => .comparison parameter text
  | left, right => .pair s(left, right)

/-- What stands before and after the equals sign in the key of a comparison. -/
inductive Sides : Subject → String → String → Prop where
  /-- A parameter and a text are written as they are. -/
  | comparison (parameter text : String) : Sides (.comparison parameter text) parameter text
  /-- Of other operands the keys are written, in order. -/
  | pair {first second : Operand} (h : ¬second.key < first.key) :
      Sides (.pair s(first, second)) first.key second.key

/-- Different comparisons with the same key. -/
inductive Blurs : Subject → Subject → Prop where
  /-- A parameter has the key of an operand as its name and is compared with the
  key of another operand. -/
  | disguised {first second : Operand} (h : ¬second.key < first.key) :
      Blurs (.comparison first.key second.key) (.pair s(first, second))
  /-- The key has two equals signs, and each comparison is divided at another. -/
  | shifted {subject other : Subject} {before middle after : String}
      (h : Sides subject before (middle ++ "=" ++ after))
      (hother : Sides other (before ++ "=" ++ middle) after) : Blurs subject other

/-- The sides make up the key. -/
theorem Sides.key_eq {subject : Subject} {before after : String} (h : Sides subject before after) :
    subject.key = "equals:" ++ (before ++ "=" ++ after) := by
  cases h with
  | comparison parameter text => simp only [key, String.append_assoc]
  | pair horder =>
    rw [key, Sym2.lift_mk]
    dsimp only
    rw [Solver.pairKey, if_neg horder]
    simp only [String.append_assoc]

/-- Comparisons have sides. -/
theorem exists_sides (left right : Operand) :
    ∃ before after, Sides (ofOperands left right) before after := by
  have hpair : ∃ before after, Sides (.pair s(left, right)) before after := by
    by_cases h : right.key < left.key
    · rw [Sym2.eq_swap]
      exact ⟨_, _, .pair h.asymm⟩
    · exact ⟨_, _, .pair h⟩
  unfold ofOperands
  split
  · exact ⟨_, _, .comparison _ _⟩
  · exact ⟨_, _, .comparison _ _⟩
  · exact hpair

/-- Comparisons with the same sides are the same, or one of them is a parameter
with the key of an operand as its name. -/
theorem Sides.eq_or_blurs {subject other : Subject} {before after : String}
    (h : Sides subject before after) (hother : Sides other before after) :
    subject = other ∨ Blurs subject other ∨ Blurs other subject := by
  generalize hbefore : before = before' at hother
  generalize hafter : after = after' at hother
  cases h with
  | comparison parameter text =>
    cases hother with
    | comparison parameter' text' => exact .inl (by rw [hbefore, hafter])
    | pair horder =>
      rw [hbefore, hafter]
      exact .inr (.inl (.disguised horder))
  | pair horder =>
    cases hother with
    | comparison parameter text =>
      rw [← hbefore, ← hafter]
      exact .inr (.inr (.disguised horder))
    | pair horder' =>
      exact .inl (by rw [Operand.key_injective hbefore, Operand.key_injective hafter])

/-- Blurred comparisons have the same key. -/
theorem Blurs.key_eq {subject other : Subject} (h : Blurs subject other) :
    subject.key = other.key := by
  cases h with
  | disguised horder => rw [(Sides.comparison _ _).key_eq, (Sides.pair horder).key_eq]
  | shifted hsides hother =>
    rw [hsides.key_eq, hother.key_eq]
    simp only [String.append_assoc]

/-- Comparisons have the same key exactly if they are the same or blurred. -/
theorem key_eq_iff_eq_or_blurs {left right left' right' : Operand} :
    (ofOperands left right).key = (ofOperands left' right').key ↔
      ofOperands left right = ofOperands left' right' ∨
        Blurs (ofOperands left right) (ofOperands left' right') ∨
        Blurs (ofOperands left' right') (ofOperands left right) := by
  constructor
  · intro h
    obtain ⟨before, after, hsides⟩ := exists_sides left right
    obtain ⟨before', after', hsides'⟩ := exists_sides left' right'
    rw [hsides.key_eq, hsides'.key_eq, String.append_right_inj, append_equalsSign_eq_iff] at h
    rcases h with ⟨rfl, rfl⟩ | ⟨middle, rfl, rfl⟩ | ⟨middle, rfl, rfl⟩
    · exact hsides.eq_or_blurs hsides'
    · exact .inr (.inl (.shifted hsides hsides'))
    · exact .inr (.inr (.shifted hsides' hsides))
  · rintro (h | h | h)
    · rw [h]
    · exact h.key_eq
    · exact h.key_eq.symm

/-- A comparison is about its operands, in whichever order. -/
theorem ofOperands_eq_iff {left right left' right' : Operand} :
    ofOperands left right = ofOperands left' right' ↔ s(left, right) = s(left', right') := by
  cases left <;> cases right <;> cases left' <;> cases right' <;>
    simp [ofOperands, and_comm]

/-- A comparison that nothing decides is about its operands. -/
theorem eq_ofOperands_of_free {index : ConditionIndex} {region : Option String}
    {left right : Operand} {subject : Subject}
    (h : Reading.ofOperands index region left right = .free subject) :
    subject = ofOperands left right := by
  cases left with
  | literal first =>
    cases right with
    | literal second => cases h
    | ref name => exact (Reading.ofMatch_eq_free h).1
    | other digest =>
      cases h
      rfl
  | ref name =>
    cases right with
    | literal text => exact (Reading.ofMatch_eq_free h).1
    | ref second =>
      rw [Reading.ofOperands] at h
      split at h
      · cases h
      · cases h
        rfl
    | other digest =>
      cases h
      rfl
  | other digest =>
    cases right with
    | _ =>
      cases h
      rfl

end Subject

namespace Solver

variable {index : ConditionIndex} {region : Option String} {solver later : Solver}

/-- An expression is compiled, whatever names are being compiled around it. -/
def Step (index : ConditionIndex) (region : Option String) (solver later : Solver) : Prop :=
  ∃ height stack expr formula,
    compileExpr index region (compileNested index region height stack) expr solver =
      .ok (formula, later)

/-- Any number of expressions are compiled one after the other. -/
def Runs (index : ConditionIndex) (region : Option String) : Solver → Solver → Prop :=
  Relation.ReflTransGen (Step index region)

/-- Compiling an expression makes the tables grow. -/
theorem Step.grows (h : Step index region solver later) : Grows solver later := by
  obtain ⟨height, stack, expr, formula, hcompile⟩ := h
  have hdoes : Compilation.Does (compileExpr index region (compileNested index region height stack)
      expr) (CompilesExpr index region expr) fun _ => True :=
    does_compileExpr fun name _ =>
      (does_compileNested height stack name).imp_fails fun _ _ => trivial
  exact (hdoes.runs_of_ok hcompile).grows

/-- Compiling any number of expressions makes the tables grow. -/
theorem Runs.grows (h : Runs index region solver later) : Grows solver later := by
  induction h with
  | refl => exact .refl solver
  | tail _ hstep ih => exact ih.trans hstep.grows

/-- A comparison that becomes an atom has the number of its key. -/
theorem key_of_compileEquals {left right : Operand} {number : Nat}
    (h : compileEquals index region left right solver = .ok (.atom number, later)) :
    Reading.ofOperands index region left right = .free (Subject.ofOperands left right) ∧
      Grows solver later ∧
      (later.atoms.map Atom.key)[number]? = some (Subject.ofOperands left right).key := by
  rw [compileEquals_eq] at h
  cases hreading : Reading.ofOperands index region left right with
  | decided truth =>
    rw [hreading] at h
    cases h
  | free subject =>
    rw [hreading] at h
    obtain rfl := Subject.eq_ofOperands_of_free hreading
    cases h
    exact ⟨rfl, grows_atomNumber rfl, key_of_atomNumber rfl⟩

/-- Wherever two comparisons are compiled in one run, they share an atom exactly
if they compare the same operands, in whichever order, or are blurred: a name
of a parameter is the key of an operand, or an equals sign in a name, a text or
a digest is taken for the one between the operands. If the operands of both are
legible, this does not happen. The first number still stands for its key when the
second comparison is done, so the two keys can be compared. -/
theorem atom_eq_iff_same_operands (index : ConditionIndex) (region : Option String)
    (left right left' right' : Operand) (before middle between after : Solver)
    (number other : Nat) (hbefore : Runs index region {} before)
    (hfirst : compileEquals index region left right before = .ok (.atom number, middle))
    (hbetween : Runs index region middle between)
    (hsecond : compileEquals index region left' right' between = .ok (.atom other, after)) :
    (number = other ↔ s(left, right) = s(left', right') ∨
      Subject.Blurs (.ofOperands left right) (.ofOperands left' right') ∨
      Subject.Blurs (.ofOperands left' right') (.ofOperands left right)) ∧
    (left.Legible ∧ right.Legible → left'.Legible ∧ right'.Legible →
      (number = other ↔ s(left, right) = s(left', right'))) := by
  obtain ⟨hfree, hgrows, hkey⟩ := key_of_compileEquals hfirst
  obtain ⟨hfree', hgrows', hkey'⟩ := key_of_compileEquals hsecond
  have hlater := hbetween.grows.trans hgrows'
  have hnodup : (after.atoms.map Atom.key).Nodup :=
    (hbefore.grows.trans (hgrows.trans hlater)).nodup List.nodup_nil
  have hstill : (after.atoms.map Atom.key)[number]? = some (Subject.ofOperands left right).key := by
    obtain ⟨added, hadded⟩ := hlater.atoms
    rw [← hadded, List.map_append, List.getElem?_append_left (List.getElem?_eq_some_iff.mp hkey).1]
    exact hkey
  have hkeys : number = other ↔
      (Subject.ofOperands left right).key = (Subject.ofOperands left' right').key := by
    constructor
    · rintro rfl
      exact Option.some.inj (hstill.symm.trans hkey')
    · intro hsame
      have hlt := (List.getElem?_eq_some_iff.mp hstill).1
      exact (List.getElem?_inj hlt hnodup).mp (by rw [hstill, hkey', hsame])
  constructor
  · rw [hkeys, Subject.key_eq_iff_eq_or_blurs, Subject.ofOperands_eq_iff]
  · intro hlegible hlegible'
    rw [hkeys, ← Subject.ofOperands_eq_iff]
    refine ⟨Subject.key_injective ?_ ?_, fun h => congrArg Subject.key h⟩
    · exact Subject.legible_of_free hlegible.1 hlegible.2 hfree
    · exact Subject.legible_of_free hlegible'.1 hlegible'.2 hfree'

/-- The tables after a comparison of the stage. -/
def stageTable : Solver where
  atoms := [⟨"equals:Stage=prod", some ("Stage", "prod")⟩]

/-- The tables after a comparison of the region. -/
def stageRegionTable : Solver where
  atoms := [⟨"equals:Stage=prod", some ("Stage", "prod")⟩,
    ⟨"equals:AWS::Region=eu-west-1", some ("AWS::Region", "eu-west-1")⟩]

theorem atom_eq_iff_same_operands_stage :
    compileEquals (.ofTemplate stageTemplate {}) none (.ref "Stage") (.literal "prod") {} =
        .ok (.atom 0, stageTable) ∧
      Runs (.ofTemplate stageTemplate {}) none stageTable stageRegionTable ∧
      compileEquals (.ofTemplate stageTemplate {}) none (.literal "prod") (.ref "Stage")
        stageRegionTable = .ok (.atom 0, stageRegionTable) ∧
      s(Operand.ref "Stage", .literal "prod") = s(.literal "prod", .ref "Stage") := by
  have hfirst : compileEquals (.ofTemplate stageTemplate {}) none (.ref "Stage") (.literal "prod")
      {} = .ok (.atom 0, stageTable) := rfl
  have hbetween : Runs (.ofTemplate stageTemplate {}) none stageTable stageRegionTable :=
    .single ⟨3, [], .equals (.ref "AWS::Region") (.literal "eu-west-1"), .atom 1, rfl⟩
  have hsecond : compileEquals (.ofTemplate stageTemplate {}) none (.literal "prod") (.ref "Stage")
      stageRegionTable = .ok (.atom 0, stageRegionTable) := rfl
  have hplain : PlainName "Stage" := by decide
  have hshared := (atom_eq_iff_same_operands _ none _ _ _ _ {} stageTable stageRegionTable
    stageRegionTable 0 0 .refl hfirst hbetween hsecond).2 ⟨hplain, trivial⟩ ⟨trivial, hplain⟩
  exact ⟨hfirst, hbetween, hsecond, hshared.mp rfl⟩

/-- A stack whose parameters have equals signs in their names, or names that look
like keys of operands. -/
def signTemplate : Template where
  root := .object [("Conditions", .object [
    ("IsFastOn", .object [("Fn::Equals", .array [.object [("Ref", .string "Mode")],
      .string "fast=on"])]),
    ("IsOn", .object [("Fn::Equals", .array [.object [("Ref", .string "Mode=fast")],
      .string "on"])]),
    ("IsSame", .object [("Fn::Equals", .array [.object [("Ref", .string "First")],
      .object [("Ref", .string "Second")]])]),
    ("IsSecond", .object [("Fn::Equals", .array [.object [("Ref", .string "ref:First")],
      .string "ref:Second"])])])]

/-- Comparisons of different operands share an atom, by an equals sign that is
shifted or by a name that is disguised. So conditions that have nothing to do
with each other are never given different truth values. -/
theorem different_operands_share_atom :
    (∃ middle after,
      compileEquals (.ofTemplate signTemplate {}) none (.ref "Mode") (.literal "fast=on") {} =
        .ok (.atom 0, middle) ∧
      compileEquals (.ofTemplate signTemplate {}) none (.ref "Mode=fast") (.literal "on") middle =
        .ok (.atom 0, after)) ∧
    s(Operand.ref "Mode", .literal "fast=on") ≠ s(.ref "Mode=fast", .literal "on") ∧
    (∃ middle after,
      compileEquals (.ofTemplate signTemplate {}) none (.ref "First") (.ref "Second") {} =
        .ok (.atom 0, middle) ∧
      compileEquals (.ofTemplate signTemplate {}) none (.ref "ref:First") (.literal "ref:Second")
        middle = .ok (.atom 0, after)) ∧
    s(Operand.ref "First", .ref "Second") ≠ s(.ref "ref:First", .literal "ref:Second") ∧
    (ConditionIndex.ofTemplate signTemplate {}).buildScenarios
        [("IsFastOn", .both), ("IsOn", .both)] none =
      .ok [⟨[("IsFastOn", true), ("IsOn", true)]⟩, ⟨[("IsFastOn", false), ("IsOn", false)]⟩] ∧
    (ConditionIndex.ofTemplate signTemplate {}).buildScenarios
        [("IsSame", .both), ("IsSecond", .both)] none =
      .ok [⟨[("IsSame", true), ("IsSecond", true)]⟩, ⟨[("IsSame", false), ("IsSecond", false)]⟩] := by
  refine ⟨⟨_, _, rfl, rfl⟩, by decide, ⟨_, _, rfl, rfl⟩, by decide, ?_, ?_⟩
  · decide +kernel
  · decide +kernel

end Solver

end StackTemplate
