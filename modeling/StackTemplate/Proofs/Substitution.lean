import StackTemplate.Proofs.ExpansionSteps
import StackTemplate.Proofs.LoopVariables
import StackTemplate.Proofs.Staging

/-!
# Substitution inside loops

A substitution inside a loop is expanded first and evaluated afterwards, outside
of the loop. If loop variables are bound to letters and digits, this gives the
value that the substitution has in the loop, with three exceptions. A list of a
text alone is not substituted. Variables that look like the call of a function
are expanded as one. And a variable whose name holds a placeholder is renamed,
which may give a value to a name of the text that had another.
-/

namespace StackTemplate

/-- The names of the placeholders of a substituted text. -/
def Placeholder.dollarNames (text : String) : List String :=
  (substituteDollar (fun _ => none) text).unresolved

/-- The placeholders of a substituted text bear its names. -/
theorem Placeholder.mem_dollarNames_of_hole {text : String} {form : Form} {name : List Char}
    (h : .hole form name ∈ pieces .dollar text.toList) : String.ofList name ∈ dollarNames text :=
  List.mem_filterMap.mpr ⟨_, h, rfl⟩

/-- The names of placeholders hold no closing brace. -/
theorem Placeholder.notMem_of_mem_dollarNames {text name : String} (h : name ∈ dollarNames text) :
    '\x7d' ∉ name.toList := by
  obtain ⟨piece, hpiece, hname⟩ := List.mem_filterMap.mp h
  cases piece with
  | literal text => cases hname
  | hole form chars =>
    cases hname
    rw [String.toList_ofList]
    exact (splits_pieces .dollar text.toList).notMem_of_hole hpiece

/-- Names are bound to texts of ASCII letters and digits, which are not empty. -/
def Scope.Alphanumeric (scope : Scope) : Prop :=
  ∀ name value, scope.get? name = some value →
    ∃ text, value = .string text ∧ text ≠ "" ∧ ∀ c ∈ text.toList, c.isAlphanum = true

namespace Evaluator

variable {c : Context} {scope : Scope}

/-- A name that is not bound means the same outside of all loops. -/
theorem resolveRef_of_unbound {name : String} (h : scope.get? name = none) (bindingsOnly : Bool) :
    resolveRef ⟨c, scope, bindingsOnly⟩ name = resolveRef ⟨c, .root, bindingsOnly⟩ name := by
  have hroot : Scope.root.get? name = none := rfl
  rw [resolveRef, resolveRef, h, hroot]

end Evaluator

namespace Expansion

open Unrolling (malformed unroll unrollEntries)

variable {c : Context} {scope : Scope} {ownNames : List (String × Value)}

/-- The names that an expansion replaces in a substituted text. -/
def boundOutside (scope : Scope) (ownNames : List (String × Value)) (name : String) :
    Option Value :=
  if Entries.contains name ownNames then none else scope.get? name

/-- Letters and digits do not disturb placeholders. -/
theorem inert_boundOutside (hscope : scope.Alphanumeric) (ownNames : List (String × Value)) :
    Placeholder.Inert (boundOutside scope ownNames) := by
  intro form name text hrendered
  obtain ⟨value, hvalue, hrendering⟩ := Option.bind_eq_some_iff.mp hrendered
  have hbound : scope.get? (String.ofList name) = some value := by
    unfold boundOutside at hvalue
    split at hvalue
    · cases hvalue
    · exact hvalue
  obtain ⟨bound, rfl, hempty, hletters⟩ := hscope _ _ hbound
  have htext : text = bound.toList := by
    cases form with
    | dollar => exact (Option.some.inj hrendering).symm
    | ampersand =>
      refine (Option.some.inj hrendering).symm.trans ?_
      exact List.filter_eq_self.mpr hletters
  rw [htext]
  refine ⟨fun hnil => hempty (String.toList_eq_nil_iff.mp hnil), fun letter hletter => ?_⟩
  have halphanumeric := hletters letter hletter
  refine ⟨?_, ?_, ?_⟩ <;> rintro rfl <;> cases halphanumeric

/-- A placeholder that has a text in a loop has it by expansion or outside of the
loop, if an own variable keeps its value and none comes to bear a name that
stands for something else. -/
theorem rendered?_placeholderValue? {entries : List (String × Value)} {name : List Char}
    {form : Placeholder.Form} (htexts : ∀ entry ∈ ownNames, ∃ text, entry.2 = .string text)
    (hagree : Entries.contains (String.ofList name) ownNames = true ∨
        scope.get? (String.ofList name) = none →
      Entries.get? (String.ofList name) entries = Entries.get? (String.ofList name) ownNames)
    (hcomplete : Placeholder.rendered? (Evaluator.placeholderValue? ⟨c, scope, false⟩
      (Evaluator.entryOutcomes ⟨c, scope, false⟩ ownNames)) form name ≠ none) :
    Placeholder.rendered? (Evaluator.placeholderValue? ⟨c, scope, false⟩
        (Evaluator.entryOutcomes ⟨c, scope, false⟩ ownNames)) form name =
      (Placeholder.rendered? (boundOutside scope ownNames) form name).or
        (Placeholder.rendered? (Evaluator.placeholderValue? ⟨c, .root, false⟩
          (Evaluator.entryOutcomes ⟨c, .root, false⟩ entries)) form name) := by
  simp only [Placeholder.rendered?, boundOutside, Evaluator.placeholderValue?,
    Evaluator.get?_entryOutcomes, Entries.contains_eq_isSome_get?] at hcomplete hagree ⊢
  generalize String.ofList name = name at hcomplete hagree ⊢
  cases hown : Entries.get? name ownNames with
  | some own =>
    obtain ⟨text, rfl⟩ := htexts _ (Entries.mem_of_get? hown)
    rw [hown] at hagree
    rw [hagree (.inl rfl)]
    rfl
  | none =>
    rw [hown] at hagree hcomplete
    cases hbound : scope.get? name with
    | some value =>
      have hvalue : (Evaluator.resolveRef ⟨c, scope, false⟩ name).toOption = some value := by
        rw [Evaluator.resolveRef, hbound]
        rfl
      simp only [Option.map_none, hvalue] at hcomplete ⊢
      split at hcomplete
      · exact absurd rfl hcomplete
      · next hplain =>
        rw [Option.bind_some] at hcomplete
        obtain ⟨text, htext⟩ := Option.ne_none_iff_exists.mp hcomplete
        simp [hplain, ← htext]
    | none =>
      rw [hagree (.inr hbound)]
      simp only [Option.map_none, Evaluator.resolveRef_of_unbound hbound]
      rfl

/-- A substitution keeps its value if it is expanded in a loop and evaluated
outside of it, under the same proviso for the own variables. -/
theorem substituteText_root (hscope : scope.Alphanumeric)
    (htexts : ∀ entry ∈ ownNames, ∃ text, entry.2 = .string text) {text : String}
    {entries : List (String × Value)}
    (hagree : ∀ name ∈ Placeholder.dollarNames text,
      Entries.contains name ownNames = true ∨ scope.get? name = none →
        Entries.get? name entries = Entries.get? name ownNames) {value : Value}
    (h : Evaluator.substituteText ⟨c, scope, false⟩ text
      (Evaluator.entryOutcomes ⟨c, scope, false⟩ ownNames) = .ok value) :
    Evaluator.substituteText ⟨c, .root, false⟩ (substituteText scope ownNames text)
      (Evaluator.entryOutcomes ⟨c, .root, false⟩ entries) = .ok value := by
  have hcomplete : (Placeholder.substituteDollar (Evaluator.placeholderValue? ⟨c, scope, false⟩
      (Evaluator.entryOutcomes ⟨c, scope, false⟩ ownNames)) text).isComplete = true := by
    rw [Evaluator.substituteText] at h
    split at h
    · next hcomplete => exact hcomplete
    · cases h
  have hrendered := Placeholder.isComplete_iff_rendered.mp hcomplete
  have hstaged : Placeholder.substituteDollar (Evaluator.placeholderValue? ⟨c, .root, false⟩
        (Evaluator.entryOutcomes ⟨c, .root, false⟩ entries)) (substituteText scope ownNames text) =
      Placeholder.substituteDollar (Evaluator.placeholderValue? ⟨c, scope, false⟩
        (Evaluator.entryOutcomes ⟨c, scope, false⟩ ownNames)) text := by
    refine Placeholder.substituteForms_substituteForms (inert_boundOutside hscope ownNames)
      fun form name hhole => ?_
    exact rendered?_placeholderValue? htexts (hagree _ (Placeholder.mem_dollarNames_of_hole hhole))
      (hrendered form name hhole)
  rw [Evaluator.substituteText, hstaged]
  exact h

/-- The same without own variables. -/
theorem substituteText_root_of_text (hscope : scope.Alphanumeric) {text : String} {value : Value}
    (h : Evaluator.substituteText ⟨c, scope, false⟩ text [] = .ok value) :
    Evaluator.substituteText ⟨c, .root, false⟩ (substituteText scope [] text) [] = .ok value :=
  @substituteText_root c scope [] hscope (by simp) text [] (fun _ _ _ => rfl) value h

/-- Texts are unrolled to themselves. -/
theorem unroll_string (text : String) : unroll c scope (.string text) = pure (.string text) := by
  rw [Unrolling.unroll.eq_def]

/-- A mapping of texts keeps its values, and its keys are substituted, unless one
of them asks for a loop. -/
theorem unrollEntries_of_texts {entries : List (String × Value)}
    (htexts : ∀ entry ∈ entries, ∃ text, entry.2 = .string text) :
    unrollEntries c scope entries = malformed ∨ unrollEntries c scope entries =
      pure (entries.map fun entry => (substituteKey scope entry.1, entry.2)) := by
  induction entries with
  | nil =>
    rw [unrollEntries]
    exact .inr rfl
  | cons entry entries ih =>
    obtain ⟨key, value⟩ := entry
    obtain ⟨text, rfl⟩ := htexts _ List.mem_cons_self
    rw [unrollEntries]
    split
    · rw [Unrolling.unrollLoop_of_malformed (by simp)]
      exact .inl rfl
    · rw [unroll_string]
      rcases ih fun other hother => htexts other (List.mem_cons_of_mem _ hother) with hrest | hrest
      · rw [hrest]
        exact .inl rfl
      · rw [hrest]
        exact .inr rfl

/-- Expansion keeps the call of a function with a text: a reference to a name that
is not bound, a text without bound names, and any other call but the one that
writes the text as JSON. -/
def CallKept (scope : Scope) : Intrinsic → String → Prop
  | .ref, name => scope.get? name = none
  | .sub, text => substituteText scope [] text = text
  | .toJsonString, _ => False
  | _, _ => True

/-- A call that expansion keeps is not changed. -/
theorem unrollCall_of_kept {key text : String} {kind : Intrinsic}
    (hkind : Intrinsic.functionOfKey? key = some kind) (hkept : CallKept scope kind text) :
    unroll c scope (.object [(key, .string text)]) = pure (.object [(key, .string text)]) := by
  have hrebuilt : kind ≠ .toJsonString →
      (do return rebuild key (← unroll c scope (.string text))) =
        (pure (.object [(key, .string text)]) : Unrolling Value) := by
    intro hjson
    rw [unroll_string, pure_bind]
    refine congrArg pure (if_neg ?_)
    rintro ⟨he, -⟩
    exact hjson (Option.some.inj (hkind.symm.trans he))
  rw [Unrolling.unroll.eq_def]
  dsimp only
  rw [hkind]
  cases kind with
  | ref =>
    have hunbound : scope.get? text = none := hkept
    dsimp only
    rw [hunbound, Option.getD_none]
  | sub =>
    have hunchanged : substituteText scope [] text = text := hkept
    dsimp only
    rw [hunchanged]
  | findInMap =>
    have hnone : foundInMap? c scope (.object [(key, .string text)]) = none := by
      unfold foundInMap?
      split
      · rfl
      · rw [Evaluator.resolve.eq_def]
        dsimp only
        rw [hkind]
        rfl
    dsimp only
    rw [hnone]
    exact hrebuilt (by decide)
  | toJsonString => exact hkept.elim
  | _ => exact hrebuilt (by decide)

/-- What expansion makes of own variables that are texts: it keeps them as a
call, or it substitutes their names. -/
def KeptOrRenamed (scope : Scope) (ownNames entries : List (String × Value)) : Prop :=
  entries = ownNames ∨
    entries = ownNames.map (fun entry => (substituteKey scope entry.1, entry.2)) ∧
      Entries.Distinct entries

/-- Own variables that are texts are kept as a call or renamed. -/
theorem keptOrRenamed_of_clean {result : Value}
    (htexts : ∀ entry ∈ ownNames, ∃ text, entry.2 = .string text)
    (hcall : ∀ kind text, (Value.object ownNames).call? = some (kind, .string text) →
      CallKept scope kind text) (h : (unroll c scope (.object ownNames)).Clean result) :
    ∃ entries, result = .object entries ∧ KeptOrRenamed scope ownNames entries := by
  cases hfunction : (Value.object ownNames).call? with
  | some call =>
    obtain ⟨kind, args⟩ := call
    obtain ⟨key, heq, hkind⟩ := Value.eq_of_call? hfunction
    cases heq
    obtain ⟨text, rfl⟩ := htexts _ List.mem_cons_self
    rw [unrollCall_of_kept hkind (hcall _ _ hfunction)] at h
    exact ⟨_, h.unique (.pure _), .inl rfl⟩
  | none =>
    rw [Unrolling.unroll_of_plain hfunction] at h
    obtain ⟨pairs, hpairs, hbuilt⟩ := h.exists_of_bind
    obtain ⟨rfl, hdistinct⟩ := hbuilt.distinct_of_build
    rcases unrollEntries_of_texts htexts with hloop | hrenamed
    · rw [hloop] at hpairs
      obtain ⟨_, hrun, -⟩ := hpairs
      cases hrun
    · rw [hrenamed] at hpairs
      cases hpairs.unique (.pure _)
      exact ⟨_, rfl, .inr ⟨rfl, hdistinct⟩⟩

/-- A name without a closing brace is not substituted. -/
theorem substituteKey_eq_self {key : String} (h : '\x7d' ∉ key.toList) :
    substituteKey scope key = key := by
  refine Placeholder.substituteForms_text_eq_self fun form name hhole => ?_
  exact absurd hhole ((Placeholder.splits_pieces .both key.toList).notMem_hole h form name)

/-- A name that the text asks for keeps its own value, and if it has none and is
not bound, it gets none from a variable that is renamed. -/
theorem KeptOrRenamed.get?_eq {text : String} {entries : List (String × Value)}
    (hentries : KeptOrRenamed scope ownNames entries)
    (hrenamed : ∀ entry ∈ ownNames, substituteKey scope entry.1 ≠ entry.1 →
      substituteKey scope entry.1 ∈ Placeholder.dollarNames text →
        scope.get? (substituteKey scope entry.1) ≠ none)
    {name : String} (hname : name ∈ Placeholder.dollarNames text)
    (hkept : Entries.contains name ownNames = true ∨ scope.get? name = none) :
    Entries.get? name entries = Entries.get? name ownNames := by
  rcases hentries with rfl | ⟨rfl, hdistinct⟩
  · rfl
  · have hself : substituteKey scope name = name :=
      substituteKey_eq_self (Placeholder.notMem_of_mem_dollarNames hname)
    cases hown : Entries.get? name ownNames with
    | some value =>
      refine hdistinct.get?_of_mem (List.mem_map.mpr ⟨_, Entries.mem_of_get? hown, ?_⟩)
      rw [hself]
    | none =>
      rw [Entries.contains_eq_isSome_get?, hown] at hkept
      have hunbound : scope.get? name = none := hkept.resolve_left (by simp)
      cases hfound : Entries.get? name
          (ownNames.map fun entry => (substituteKey scope entry.1, entry.2)) with
      | none => rfl
      | some value =>
        obtain ⟨entry, hentry, he⟩ := List.mem_map.mp (Entries.mem_of_get? hfound)
        obtain ⟨rfl, -⟩ := Prod.mk.inj he
        have hother : substituteKey scope entry.1 ≠ entry.1 := by
          intro hsame
          have hmem : entry.1 ∈ Entries.keys ownNames := List.mem_map_of_mem hentry
          rw [← Entries.contains_iff_mem_keys, Entries.contains_eq_isSome_get?, ← hsame, hown]
            at hmem
          cases hmem
        exact absurd hunbound (hrenamed entry hentry hother hname)

/-- Arguments of a substitution that mean the same after expansion in a scope. -/
inductive Transparent (scope : Scope) : Value → Prop where
  /-- A text. -/
  | text (text : String) : Transparent scope (.string text)
  /-- A list of a text alone, in which no bound name occurs. -/
  | alone {text : String}
      (hunbound : ∀ name ∈ Placeholder.dollarNames text, scope.get? name = none) :
      Transparent scope (.array [.string text])
  /-- A text and own variables that are texts. If they look like the call of a
  function, expansion keeps it, and no variable is renamed to a name that the
  text asks for and that is not bound. -/
  | withOwnNames {text : String} {ownNames : List (String × Value)}
      (htexts : ∀ entry ∈ ownNames, ∃ text, entry.2 = .string text)
      (hcall : ∀ kind text, (Value.object ownNames).call? = some (kind, .string text) →
        CallKept scope kind text)
      (hrenamed : ∀ entry ∈ ownNames, substituteKey scope entry.1 ≠ entry.1 →
        substituteKey scope entry.1 ∈ Placeholder.dollarNames text →
          scope.get? (substituteKey scope entry.1) ≠ none) :
      Transparent scope (.array [.string text, .object ownNames])

/-- A mapping in the arguments of such a substitution holds nothing but texts. -/
theorem Transparent.texts {args : Value} {entries : List (String × Value)}
    (h : Transparent scope args) (hpart : .object entries ∈ args.parts) :
    ∀ entry ∈ entries, ∃ text, entry.2 = .string text := by
  cases h with
  | text => cases List.mem_singleton.mp hpart
  | alone => simp [Value.parts, Value.itemParts] at hpart
  | @withOwnNames _ ownNames htexts =>
    have hown : .object entries ∈ (Value.object ownNames).parts := by
      simpa [Value.parts, Value.itemParts] using hpart
    rcases Value.mem_parts_object.mp hown with hself | ⟨own, hmem, hinside⟩
    · cases hself
      exact htexts
    · obtain ⟨text, htext⟩ := htexts own hmem
      rw [htext] at hinside
      cases List.mem_singleton.mp hinside

/-- If there are loops in such a substitution, they are texts, for which no
placeholder items are asked. So all caches serve. -/
theorem Transparent.servesLoops {args : Value} (h : Transparent scope args)
    (caches : CollectionCache → Prop) :
    CollectionCache.ServesLoops caches (.object [("Fn::Sub", args)]) := by
  intro entries hentries entry hentry hkey expression hinside
  rcases Value.mem_parts_object.mp hentries with hself | ⟨call, hcall, hpart⟩
  · cases hself
    rw [List.mem_singleton.mp hentry] at hkey
    have hnone : Intrinsic.isForEachKey "Fn::Sub" = false := by decide
    cases hnone.symm.trans hkey
  · cases List.mem_singleton.mp hcall
    obtain ⟨text, htext⟩ := h.texts hpart entry hentry
    rw [htext] at hinside
    exact absurd hinside.depth_lt (Nat.not_lt_zero _)

/-- From any cache, such a substitution is expanded as it is unrolled. -/
theorem Transparent.clean_of_run {args expanded : Value} (h : Transparent scope args) {path : Path}
    {cache later : CollectionCache}
    (hrun : (expand c scope path (.object [("Fn::Sub", args)])).run cache = .ok (expanded, later)) :
    (unroll c scope (.object [("Fn::Sub", args)])).Clean expanded := by
  have hfollows := agrees_of_serves c (h.servesLoops fun _ => True) scope path
  have houtcome : outcome (expand c scope path (.object [("Fn::Sub", args)])) cache =
      .ok expanded := by
    rw [outcome, hrun]
    rfl
  exact (hfollows.outcome_eq_ok_iff trivial).mp houtcome

/-- Where loop variables are letters and digits, a substitution that has a value
in a loop has it outside of the loop, too, once it was expanded. -/
theorem resolve_expanded_sub (template : Template) (settings : Settings) (scope : Scope)
    (path : Path) (cache later : CollectionCache) (args value expanded : Value)
    (hscope : scope.Alphanumeric) (hargs : Transparent scope args)
    (hresolve : Evaluator.resolve ⟨template.context settings, scope, false⟩
      (.object [("Fn::Sub", args)]) = .ok value)
    (hexpand : (expand (template.context settings) scope path (.object [("Fn::Sub", args)])).run
      cache = .ok (expanded, later)) :
    Evaluator.resolve ⟨template.context settings, .root, false⟩ expanded = .ok value := by
  have hclean := hargs.clean_of_run hexpand
  rw [Unrolling.unroll.eq_def] at hclean
  cases hargs with
  | text text =>
    cases hclean.unique (.pure _)
    exact substituteText_root_of_text hscope hresolve
  | @alone text hunbound =>
    have hunchanged : substituteText scope [] text = text := by
      refine Placeholder.substituteForms_text_eq_self fun form name hhole => ?_
      have hnone := hunbound _ (Placeholder.mem_dollarNames_of_hole hhole)
      simp [Placeholder.rendered?, Entries.contains, hnone]
    have hroot := substituteText_root_of_text hscope hresolve
    rw [hunchanged] at hroot
    cases hclean.unique (.pure _)
    exact hroot
  | @withOwnNames text ownNames htexts hcall hrenamed =>
    obtain ⟨unrolled, hunrolled, hresult⟩ := hclean.exists_of_bind
    obtain ⟨entries, rfl, hentries⟩ := keptOrRenamed_of_clean htexts hcall hunrolled
    cases hresult.unique (.pure _)
    exact substituteText_root hscope htexts (fun name => hentries.get?_eq hrenamed) hresolve

/-- A stack for a stage. -/
def stagedTemplate : Template where
  root := .object [("Parameters", .object [("Stage", .object [("Type", .string "String"),
    ("Default", .string "prod")])])]

/-- The scope of an iteration over names. -/
def nameScope : Scope := Scope.root.child.bind "Name" (.string "Stage")

/-- The name of the iteration consists of letters. -/
theorem alphanumeric_nameScope : nameScope.Alphanumeric := by
  intro name value h
  by_cases hname : "Name" = name
  · subst hname
    rw [nameScope, Scope.get?_bind_self] at h
    cases h
    have hletters : "Stage".toList.all Char.isAlphanum = true := rfl
    exact ⟨"Stage", rfl, by decide, List.all_eq_true.mp hletters⟩
  · rw [nameScope, Scope.get?_bind_of_ne _ hname, Scope.get?_child] at h
    cases h

/-- A text with a loop variable, a parameter, an escape and an own variable,
beside one that is renamed. -/
def nameSub : Value := .array [
  .string "$\x7bName\x7d-$\x7bStage\x7d-$\x7b!Name\x7d-$\x7bSuffix\x7d",
  .object [("Suffix", .string "x"), ("$\x7bName\x7dCopy", .string "y")]]

theorem resolve_expanded_nameSub :
    Evaluator.resolve ⟨stagedTemplate.context {}, nameScope, false⟩
        (.object [("Fn::Sub", nameSub)]) = .ok (.string "Stage-prod-$\x7bName\x7d-x") ∧
      ∃ expanded later, (expand (stagedTemplate.context {}) nameScope []
          (.object [("Fn::Sub", nameSub)])).run {} = .ok (expanded, later) ∧
        Evaluator.resolve ⟨stagedTemplate.context {}, .root, false⟩ expanded =
          .ok (.string "Stage-prod-$\x7bName\x7d-x") := by
  have hresolve : Evaluator.resolve ⟨stagedTemplate.context {}, nameScope, false⟩
      (.object [("Fn::Sub", nameSub)]) = .ok (.string "Stage-prod-$\x7bName\x7d-x") := rfl
  have hexpand : (expand (stagedTemplate.context {}) nameScope []
      (.object [("Fn::Sub", nameSub)])).run {} = .ok (.object [("Fn::Sub", .array [
        .string "Stage-$\x7bStage\x7d-$\x7b!Name\x7d-$\x7bSuffix\x7d",
        .object [("Suffix", .string "x"), ("StageCopy", .string "y")]])], {}) := rfl
  have hargs : Transparent nameScope nameSub :=
    .withOwnNames (by simp) (fun _ _ h => nomatch h) (by decide +kernel)
  exact ⟨hresolve, _, _, hexpand, resolve_expanded_sub stagedTemplate {} nameScope [] {} {} nameSub
    _ _ alphanumeric_nameScope hargs hresolve hexpand⟩

/-- What a substitution evaluates to in the iteration. -/
def insideLoop (args : List Value) : Resolved :=
  Evaluator.resolve ⟨stagedTemplate.context {}, nameScope, false⟩
    (.object [("Fn::Sub", .array args)])

/-- What it evaluates to outside, once it was expanded in the iteration. -/
def afterExpansion (args : List Value) : Except Diagnostic Resolved :=
  let call : Value := .object [("Fn::Sub", .array args)]
  ((expand (stagedTemplate.context {}) nameScope [] call).run {}).map fun outcome =>
    Evaluator.resolve ⟨stagedTemplate.context {}, .root, false⟩ outcome.1

/-- Expansion changes what a substitution evaluates to: a list of a text alone is
not substituted, variables that look like a reference are replaced by a value,
and a variable takes the place of a parameter once its name is substituted. -/
theorem expand_changes_sub :
    (insideLoop [.string "$\x7bName\x7d"] = .ok (.string "Stage") ∧
      afterExpansion [.string "$\x7bName\x7d"] = .ok (.error (.openPlaceholders ["Name"]))) ∧
    (insideLoop [.string "$\x7bRef\x7d", .object [("Ref", .string "Name")]] =
        .ok (.string "Name") ∧
      afterExpansion [.string "$\x7bRef\x7d", .object [("Ref", .string "Name")]] =
        .ok (.error .malformedSub)) ∧
    (insideLoop [.string "$\x7bStage\x7d", .object [("$\x7bName\x7d", .string "x")]] =
        .ok (.string "prod") ∧
      afterExpansion [.string "$\x7bStage\x7d", .object [("$\x7bName\x7d", .string "x")]] =
        .ok (.ok (.string "x"))) :=
  ⟨⟨rfl, rfl⟩, ⟨rfl, rfl⟩, ⟨rfl, rfl⟩⟩

end Expansion

end StackTemplate
