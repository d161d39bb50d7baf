import Mathlib.Data.List.Basic
import StackTemplate.Expansion.Basic
import StackTemplate.Proofs.Parts

/-!
# What loop variables alone tell

Resolving an expression by the loop variables alone knows less than resolving
it by everything there is. All functions but one keep such answers: an unknown
argument leaves the call unresolved. A map lookup guesses unknown keys from the
structure of the map and falls back on its default, so its answer is final only
if nothing more can become known of its arguments.
-/

namespace StackTemplate

namespace Placeholder

variable {known full : String → Option Value}

/-- A placeholder that is filled is filled alike if more names have values. -/
theorem Piece.fill_of_resolved (h : ∀ name value, known name = some value → full name = some value)
    {piece : Piece} (hresolved : piece.unresolved? known = none) :
    piece.fill full = piece.fill known ∧ piece.unresolved? full = none := by
  cases piece with
  | literal text => exact ⟨rfl, rfl⟩
  | hole form name =>
    cases hvalue : known (String.ofList name) with
    | none => simp [unresolved?, hvalue] at hresolved
    | some value =>
      have hfull := h _ _ hvalue
      rw [unresolved?, hvalue] at hresolved
      rw [fill, fill, unresolved?, hfull, hvalue]
      exact ⟨rfl, hresolved⟩

/-- A complete substitution stays as it is if more names have values. -/
theorem substituteForms_of_isComplete
    (h : ∀ name value, known name = some value → full name = some value) {forms : Forms}
    {text : String} (hcomplete : (substituteForms forms known text).isComplete = true) :
    substituteForms forms full text = substituteForms forms known text := by
  have hall : ∀ piece ∈ pieces forms text.toList, piece.unresolved? known = none := by
    have hnil := List.isEmpty_iff.mp hcomplete
    exact List.filterMap_eq_nil_iff.mp hnil
  have hpiece : ∀ piece ∈ pieces forms text.toList,
      piece.fill full = piece.fill known ∧ piece.unresolved? full = piece.unresolved? known := by
    intro piece hmem
    obtain ⟨hfill, hnone⟩ := Piece.fill_of_resolved h (hall piece hmem)
    exact ⟨hfill, hnone.trans (hall piece hmem).symm⟩
  have htext := List.flatMap_congr fun piece hmem => (hpiece piece hmem).1
  have hnames := List.filterMap_congr fun piece hmem => (hpiece piece hmem).2
  simp only [substituteForms, htext, hnames]

end Placeholder

namespace Evaluator

/-- Whatever an outcome resolves, another one resolves to the same. -/
def Below {α : Type} (known full : Except Unresolved α) : Prop :=
  ∀ value, known = .ok value → full = .ok value

variable {c : Context} {scope : Scope}

section Monotone

variable {known full : Resolved}

/-- Nothing is claimed of what is unresolved. -/
theorem below_error {α : Type} (cause : Unresolved) (full : Except Unresolved α) :
    Below (.error cause) full := by
  intro value h
  cases h

/-- What is resolved may be wrapped. -/
theorem below_map {α β : Type} {known full : Except Unresolved α} (h : Below known full)
    (wrap : α → β) : Below (known.map wrap) (full.map wrap) := by
  intro value hvalue
  cases known with
  | error cause => cases hvalue
  | ok inner =>
    rw [h inner rfl]
    exact hvalue

/-- Only what is resolved has a value. -/
theorem toOption_eq_some_iff {outcome : Resolved} {value : Value} :
    outcome.toOption = some value ↔ outcome = .ok value := by
  cases outcome <;> simp [Except.toOption]

/-- A text that is known stays known. -/
theorem scalar?_of_below (h : Below known full) {text : String}
    (htext : scalar? known = some text) :
    scalar? full = some text := by
  cases known with
  | error cause => cases htext
  | ok value =>
    rw [h value rfl]
    exact htext

/-- A call that needs a text and a value keeps its answer. -/
theorem below_of_needs {call : Option String → Resolved → Resolved}
    (htext : ∀ outcome, ∃ cause, call none outcome = .error cause)
    (hvalue : ∀ text cause, ∃ other, call (some text) (.error cause) = .error other)
    {argument : Resolved} {fullArgument : Resolved} (hargument : Below argument fullArgument)
    (h : Below known full) :
    Below (call (scalar? argument) known) (call (scalar? fullArgument) full) := by
  cases hknown : scalar? argument with
  | none =>
    obtain ⟨cause, hcause⟩ := htext known
    rw [hcause]
    exact below_error cause _
  | some text =>
    rw [scalar?_of_below hargument hknown]
    cases known with
    | error cause =>
      obtain ⟨other, hother⟩ := hvalue text cause
      rw [hother]
      exact below_error other _
    | ok value =>
      rw [h value rfl]
      exact fun _ => id

/-- Joining keeps its answer. -/
theorem joinItems_below {delimiter fullDelimiter : Resolved}
    (hdelimiter : Below delimiter fullDelimiter) (h : Below known full) :
    Below (joinItems (scalar? delimiter) known) (joinItems (scalar? fullDelimiter) full) :=
  below_of_needs (fun _ => ⟨_, rfl⟩) (fun _ _ => ⟨_, rfl⟩) hdelimiter h

/-- Selecting keeps its answer. -/
theorem selectItem_below {position fullPosition : Resolved}
    (hposition : Below position fullPosition) (h : Below known full) :
    Below (selectItem (scalar? position) known) (selectItem (scalar? fullPosition) full) := by
  refine below_of_needs (fun _ => ⟨_, rfl⟩) (fun text cause => ?_) hposition h
  rw [selectItem, Option.bind_some]
  cases Text.natural? text <;> exact ⟨_, rfl⟩

/-- Splitting keeps its answer. -/
theorem splitText_below {delimiter fullDelimiter : Resolved}
    (hdelimiter : Below delimiter fullDelimiter) (h : Below known full) :
    Below (splitText (scalar? delimiter) (scalar? known))
      (splitText (scalar? fullDelimiter) (scalar? full)) := by
  let call (delimiter : Option String) (text : Resolved) : Resolved :=
    splitText delimiter (scalar? text)
  have hkept : Below (call (scalar? delimiter) known) (call (scalar? fullDelimiter) full) :=
    below_of_needs (fun _ => ⟨_, rfl⟩) (fun _ _ => ⟨_, rfl⟩) hdelimiter h
  exact hkept

/-- Counting keeps its answer. -/
theorem countItems_below (h : Below known full) :
    Below (countItems known) (countItems full) := by
  cases known with
  | error cause => exact below_error cause _
  | ok value =>
    rw [h value rfl]
    exact fun _ => id

/-- The zones of a region that is known stay known. -/
theorem zones_below (h : Below known full) :
    Below (zones ⟨c, scope, true⟩ (scalar? known))
      (zones ⟨c, scope, false⟩ (scalar? full)) := by
  cases hregion : scalar? known with
  | none => exact below_error _ _
  | some region =>
    rw [scalar?_of_below h hregion]
    intro value hvalue
    by_cases hempty : region = ""
    · subst hempty
      cases hvalue
    · simp only [zones, ne_eq, hempty, not_false_eq_true, if_true] at hvalue ⊢
      exact hvalue

end Monotone

/-- A loop variable has its value in both modes, and no other name is known by
loop variables alone. -/
theorem resolveRef_below (name : String) :
    Below (resolveRef ⟨c, scope, true⟩ name) (resolveRef ⟨c, scope, false⟩ name) := by
  intro value h
  rw [resolveRef] at h ⊢
  dsimp only at h ⊢
  cases hbound : scope.get? name with
  | some bound =>
    rw [hbound] at h
    exact h
  | none =>
    rw [hbound] at h
    cases h

/-- The outcomes of items are those of each item. -/
theorem itemOutcomes_eq_map (e : Evaluator) (items : List Value) :
    itemOutcomes e items = items.map e.resolve := by
  induction items with
  | nil => rfl
  | cons item items ih => rw [itemOutcomes, ih, List.map_cons]

/-- The outcomes of entries are those of each value, under its key. -/
theorem entryOutcomes_eq_map (e : Evaluator) (entries : List (String × Value)) :
    entryOutcomes e entries = entries.map fun entry => (entry.1, e.resolve entry.2) := by
  induction entries with
  | nil => rfl
  | cons entry entries ih => rw [entryOutcomes, ih, List.map_cons]

/-- The outcome under a key is that of the value under it. -/
theorem get?_entryOutcomes (e : Evaluator) (key : String) (entries : List (String × Value)) :
    Entries.get? key (entryOutcomes e entries) = (Entries.get? key entries).map e.resolve := by
  induction entries with
  | nil => rfl
  | cons entry entries ih =>
    rw [entryOutcomes, Entries.get?, Entries.get?, ih]
    split <;> rfl

/-- All items are known exactly if each of them is. -/
theorem allItems_eq_ok_iff {outcomes : List Resolved} {values : List Value} :
    allItems outcomes = .ok values ↔ outcomes = values.map .ok := by
  induction outcomes generalizing values with
  | nil => cases values <;> simp [allItems]
  | cons outcome outcomes ih =>
    cases outcome with
    | error cause => cases values <;> simp [allItems]
    | ok value =>
      rw [allItems]
      cases hrest : allItems outcomes with
      | error cause =>
        have hnone : ∀ rest : List Value, outcomes ≠ rest.map .ok := fun rest he => by
          rw [ih.mpr he] at hrest
          cases hrest
        cases values <;> simp [Except.map, hnone]
      | ok rest =>
        rw [ih.mp hrest]
        cases values <;> simp [Except.map, List.map_inj_right]

/-- All items stay known if each of them does. -/
theorem allItems_below {items : List Value}
    (h : ∀ item ∈ items, Below (resolve ⟨c, scope, true⟩ item) (resolve ⟨c, scope, false⟩ item)) :
    Below (allItems (itemOutcomes ⟨c, scope, true⟩ items))
      (allItems (itemOutcomes ⟨c, scope, false⟩ items)) := by
  intro values hvalues
  rw [allItems_eq_ok_iff, itemOutcomes_eq_map] at hvalues ⊢
  rw [← hvalues]
  refine List.map_congr_left fun item hitem => ?_
  have hmem : resolve ⟨c, scope, true⟩ item ∈ values.map .ok := hvalues ▸ List.mem_map_of_mem hitem
  obtain ⟨value, -, hvalue⟩ := List.mem_map.mp hmem
  rw [← hvalue]
  exact h item hitem value hvalue.symm

/-- Entries are known if their values are. -/
theorem allEntries_eq (outcomes : List (String × Resolved)) :
    allEntries outcomes =
      (allItems (outcomes.map Prod.snd)).map ((outcomes.map Prod.fst).zip ·) := by
  induction outcomes with
  | nil => rfl
  | cons outcome outcomes ih =>
    obtain ⟨key, outcome⟩ := outcome
    cases outcome with
    | error cause => rfl
    | ok value =>
      rw [allEntries, ih, List.map_cons, List.map_cons, allItems]
      cases allItems (outcomes.map Prod.snd) <;> rfl

/-- All entries stay known if the value of each of them does. -/
theorem allEntries_below {entries : List (String × Value)}
    (h : ∀ entry ∈ entries,
      Below (resolve ⟨c, scope, true⟩ entry.2) (resolve ⟨c, scope, false⟩ entry.2)) :
    Below (allEntries (entryOutcomes ⟨c, scope, true⟩ entries))
      (allEntries (entryOutcomes ⟨c, scope, false⟩ entries)) := by
  have hitems : ∀ item ∈ entries.map Prod.snd,
      Below (resolve ⟨c, scope, true⟩ item) (resolve ⟨c, scope, false⟩ item) := by
    intro item hitem
    obtain ⟨entry, hentry, rfl⟩ := List.mem_map.mp hitem
    exact h entry hentry
  have hvalues := allItems_below hitems
  rw [itemOutcomes_eq_map, itemOutcomes_eq_map, List.map_map, List.map_map] at hvalues
  rw [allEntries_eq, allEntries_eq, entryOutcomes_eq_map, entryOutcomes_eq_map, List.map_map,
    List.map_map, List.map_map, List.map_map]
  exact below_map hvalues _

/-- A substitution keeps its answer. -/
theorem substituteText_below (text : String) {ownNames : List (String × Value)}
    (h : ∀ entry ∈ ownNames,
      Below (resolve ⟨c, scope, true⟩ entry.2) (resolve ⟨c, scope, false⟩ entry.2)) :
    Below (substituteText ⟨c, scope, true⟩ text (entryOutcomes ⟨c, scope, true⟩ ownNames))
      (substituteText ⟨c, scope, false⟩ text (entryOutcomes ⟨c, scope, false⟩ ownNames)) := by
  have hnames : ∀ name value,
      placeholderValue? ⟨c, scope, true⟩ (entryOutcomes ⟨c, scope, true⟩ ownNames) name =
        some value →
      placeholderValue? ⟨c, scope, false⟩ (entryOutcomes ⟨c, scope, false⟩ ownNames) name =
        some value := by
    intro name value hvalue
    rw [placeholderValue?, get?_entryOutcomes] at hvalue ⊢
    cases hown : Entries.get? name ownNames with
    | some own =>
      rw [hown] at hvalue
      have hknown := h _ (Entries.mem_of_get? hown) value (toOption_eq_some_iff.mp hvalue)
      exact toOption_eq_some_iff.mpr hknown
    | none =>
      rw [hown] at hvalue
      dsimp only [Option.map_none] at hvalue ⊢
      split at hvalue
      · cases hvalue
      · next hplain =>
        rw [if_neg hplain]
        have hresolved := toOption_eq_some_iff.mp hvalue
        exact toOption_eq_some_iff.mpr (resolveRef_below name value hresolved)
  intro value hvalue
  unfold substituteText at hvalue ⊢
  dsimp only at hvalue ⊢
  by_cases hcomplete : (Placeholder.substituteDollar (placeholderValue? ⟨c, scope, true⟩
      (entryOutcomes ⟨c, scope, true⟩ ownNames)) text).isComplete = true
  · have hsame := Placeholder.substituteForms_of_isComplete hnames hcomplete
    rw [Placeholder.substituteDollar, hsame]
    exact hvalue
  · rw [if_neg hcomplete] at hvalue
    cases hvalue

/-- Nothing more can become known of a map lookup than the loop variables tell:
every map name or key that has a text at all has one by loop variables alone,
and so has the default its value unless an entry is found anyway. -/
structure Grounded (c : Context) (scope : Scope) (arguments : List Value) : Prop where
  /-- The map name and the keys. -/
  keys : ∀ argument ∈ arguments.take 3, ∀ text,
    scalar? (resolve ⟨c, scope, false⟩ argument) = some text →
    (scalar? (resolve ⟨c, scope, true⟩ argument)).isSome = true
  /-- The default. -/
  fallback : ∀ name top second options fallback value,
    arguments = [name, top, second, options] → options.get? "DefaultValue" = some fallback →
    Mapping.find? c.mappings (scalar? (resolve ⟨c, scope, true⟩ name))
      (scalar? (resolve ⟨c, scope, true⟩ top)) (scalar? (resolve ⟨c, scope, true⟩ second)) = none →
    resolve ⟨c, scope, false⟩ fallback = .ok value →
    ∃ known, resolve ⟨c, scope, true⟩ fallback = .ok known

/-- A text about which nothing more can become known is the same in both modes. -/
theorem scalar?_eq_of_below {known full : Resolved} (h : Below known full)
    (hknown : ∀ text, scalar? full = some text → (scalar? known).isSome = true) :
    scalar? full = scalar? known := by
  cases htext : scalar? known with
  | some text => exact scalar?_of_below h htext
  | none =>
    cases hfull : scalar? full with
    | none => rfl
    | some text =>
      have hsome := hknown text hfull
      rw [htext] at hsome
      cases hsome

/-- The default of a lookup is resolved if possible. -/
theorem defaultValue?_entryOutcomes (e : Evaluator) (options : List (String × Value)) :
    defaultValue? options (entryOutcomes e options) =
      (Entries.get? "DefaultValue" options).map fun fallback =>
        (e.resolve fallback).toOption.getD fallback := by
  rw [defaultValue?, get?_entryOutcomes]
  cases hfallback : Entries.get? "DefaultValue" options with
  | none => rfl
  | some fallback =>
    rw [Option.map_some, Option.map_some]
    cases e.resolve fallback <;> rfl

/-- A lookup with known arguments keeps its answer, and so does one of which
nothing more can become known. -/
theorem lookupMap_below {name top second : Value}
    (h : ∀ argument ∈ [name, top, second],
      scalar? (resolve ⟨c, scope, false⟩ argument) = scalar? (resolve ⟨c, scope, true⟩ argument))
    {default fullDefault : Option Value}
    (hdefault : Mapping.find? c.mappings (scalar? (resolve ⟨c, scope, true⟩ name))
        (scalar? (resolve ⟨c, scope, true⟩ top)) (scalar? (resolve ⟨c, scope, true⟩ second)) =
      none → fullDefault = default) :
    Below
      (lookupMap ⟨c, scope, true⟩ (scalar? (resolve ⟨c, scope, true⟩ name))
        (scalar? (resolve ⟨c, scope, true⟩ top)) (scalar? (resolve ⟨c, scope, true⟩ second))
        default)
      (lookupMap ⟨c, scope, false⟩ (scalar? (resolve ⟨c, scope, false⟩ name))
        (scalar? (resolve ⟨c, scope, false⟩ top)) (scalar? (resolve ⟨c, scope, false⟩ second))
        fullDefault) := by
  rw [h name (by simp), h top (by simp), h second (by simp), lookupMap, lookupMap]
  dsimp only
  cases hfound : Mapping.find? c.mappings (scalar? (resolve ⟨c, scope, true⟩ name))
      (scalar? (resolve ⟨c, scope, true⟩ top)) (scalar? (resolve ⟨c, scope, true⟩ second)) with
  | some found => exact fun _ => id
  | none =>
    rw [hdefault hfound]
    exact fun _ => id

/-- A default of which nothing more can become known is the same in both modes. -/
theorem defaultValue?_eq_of_below {options : List (String × Value)}
    (h : ∀ fallback, Entries.get? "DefaultValue" options = some fallback →
      Below (resolve ⟨c, scope, true⟩ fallback) (resolve ⟨c, scope, false⟩ fallback) ∧
        ∀ value, resolve ⟨c, scope, false⟩ fallback = .ok value →
          ∃ known, resolve ⟨c, scope, true⟩ fallback = .ok known) :
    defaultValue? options (entryOutcomes ⟨c, scope, false⟩ options) =
      defaultValue? options (entryOutcomes ⟨c, scope, true⟩ options) := by
  rw [defaultValue?_entryOutcomes, defaultValue?_entryOutcomes]
  refine Option.map_congr fun fallback hfallback => ?_
  obtain ⟨hbelow, hknown⟩ := h fallback hfallback
  cases hfull : resolve ⟨c, scope, false⟩ fallback with
  | ok value =>
    obtain ⟨known, hloops⟩ := hknown value hfull
    rw [hbelow known hloops] at hfull
    rw [hloops, hfull]
  | error cause =>
    cases hloops : resolve ⟨c, scope, true⟩ fallback with
    | ok known =>
      rw [hbelow known hloops] at hfull
      cases hfull
    | error other => rfl

/-- Every call keeps its answer if its arguments do, a map lookup if nothing
more can become known of it. -/
theorem resolve_call_below {key : String} {args : Value}
    (h : ∀ part : Value, part.Within (.object [(key, args)]) →
      Below (resolve ⟨c, scope, true⟩ part) (resolve ⟨c, scope, false⟩ part))
    (hgrounded : ∀ arguments, args = .array arguments →
      Intrinsic.functionOfKey? key = some .findInMap → Grounded c scope arguments) :
    Below (resolve ⟨c, scope, true⟩ (.object [(key, args)]))
      (resolve ⟨c, scope, false⟩ (.object [(key, args)])) := by
  have hargs := h args (.entry List.mem_cons_self)
  have hitem : ∀ items, args = .array items → ∀ item ∈ items,
      Below (resolve ⟨c, scope, true⟩ item) (resolve ⟨c, scope, false⟩ item) := by
    rintro items rfl item hmem
    exact h item ((Value.Within.item hmem).trans (.entry List.mem_cons_self))
  have htext : ∀ items, args = .array items →
      Intrinsic.functionOfKey? key = some .findInMap → ∀ item ∈ items.take 3,
      scalar? (resolve ⟨c, scope, false⟩ item) = scalar? (resolve ⟨c, scope, true⟩ item) := by
    intro items he hkey item hmem
    exact scalar?_eq_of_below (hitem items he item (List.mem_of_mem_take hmem))
      ((hgrounded items he hkey).keys item hmem)
  rw [resolve.eq_def ⟨c, scope, true⟩, resolve.eq_def ⟨c, scope, false⟩]
  dsimp only
  split
  · exact resolveRef_below _
  · exact below_error _ _
  · next name top second hkey => exact lookupMap_below (htext _ rfl hkey) fun _ => rfl
  · next name top second options hkey =>
    refine lookupMap_below (htext _ rfl hkey) fun hnone => ?_
    cases options with
    | object entries =>
      refine defaultValue?_eq_of_below fun fallback hfallback => ⟨?_, ?_⟩
      · have hinside := Value.Within.entry (Entries.mem_of_get? hfallback)
        exact h fallback (hinside.trans (.argument (by simp)))
      · intro value
        exact (hgrounded _ rfl hkey).fallback _ _ _ _ fallback value rfl hfallback hnone
    | _ => rfl
  · exact below_error _ _
  · exact below_error _ _
  · exact @substituteText_below c scope _ [] (by simp)
  · exact @substituteText_below c scope _ [] (by simp)
  · next text ownNames hkey =>
    refine substituteText_below text fun entry hentry => ?_
    exact h entry.2 ((Value.Within.entry hentry).trans (.argument (by simp)))
  · exact below_error _ _
  · exact zones_below hargs
  · next delimiter items hkey =>
    exact joinItems_below (hitem _ rfl _ (by simp)) (hitem _ rfl _ (by simp))
  · exact below_error _ _
  · next position items hkey =>
    exact selectItem_below (hitem _ rfl _ (by simp)) (hitem _ rfl _ (by simp))
  · exact below_error _ _
  · next delimiter text hkey =>
    exact splitText_below (hitem _ rfl _ (by simp)) (hitem _ rfl _ (by simp))
  · exact below_error _ _
  · exact countItems_below hargs
  · exact below_map hargs _
  · exact below_error _ _
  · exact below_map hargs _

/-- A mapping that is no call is resolved entry by entry. -/
theorem resolve_object {e : Evaluator} {entries : List (String × Value)}
    (h : ∀ key args, entries = [(key, args)] → False) :
    e.resolve (.object entries) = (allEntries (entryOutcomes e entries)).map .object := by
  match entries with
  | [] => rfl
  | [(key, args)] => exact absurd rfl (h key args)
  | _ :: _ :: _ => rfl

/-- A list is resolved item by item. -/
theorem resolve_array (e : Evaluator) (items : List Value) :
    e.resolve (.array items) = (allItems (itemOutcomes e items)).map .array := rfl

/-- What loop variables alone tell of a value is what everything tells, if
nothing more can become known of the map lookups inside. -/
theorem resolve_below {value : Value}
    (h : ∀ part ∈ value.parts, ∀ arguments,
      part.call? = some (.findInMap, .array arguments) → Grounded c scope arguments) :
    Below (resolve ⟨c, scope, true⟩ value) (resolve ⟨c, scope, false⟩ value) := by
  induction value using Value.partInduction with
  | step value ih =>
    have hinside : ∀ part : Value, part.Within value →
        Below (resolve ⟨c, scope, true⟩ part) (resolve ⟨c, scope, false⟩ part) :=
      fun part hpart => ih part hpart fun inner hinner =>
        h inner (Value.parts_subset hpart.mem_parts hinner)
    cases value with
    | array items =>
      rw [resolve_array, resolve_array]
      exact below_map (allItems_below fun item hitem => hinside item (.item hitem)) _
    | object entries =>
      by_cases hsingle : ∃ key args, entries = [(key, args)]
      · obtain ⟨key, args, rfl⟩ := hsingle
        refine resolve_call_below hinside fun arguments hargs hkey => ?_
        refine h _ (Value.mem_parts_self _) arguments ?_
        rw [Value.call?, hkey, hargs, Option.map_some]
      · have hmany : ∀ key args, entries = [(key, args)] → False :=
          fun key args he => hsingle ⟨key, args, he⟩
        rw [resolve_object hmany, resolve_object hmany]
        exact below_map (allEntries_below fun entry hentry => hinside entry.2 (.entry hentry)) _
    | _ =>
      intro result hresult
      exact hresult

/-- Resolving by loop variables alone never contradicts full resolution, if
nothing more can become known of the map lookups in the expression. -/
theorem resolve_of_loopVariables (template : Template) (settings : Settings) (scope : Scope)
    (expression result : Value)
    (hgrounded : ∀ part ∈ expression.parts, ∀ arguments,
      part.call? = some (.findInMap, .array arguments) →
      Grounded (template.context settings) scope arguments)
    (h : resolve ⟨template.context settings, scope, true⟩ expression = .ok result) :
    resolve ⟨template.context settings, scope, false⟩ expression = .ok result :=
  resolve_below hgrounded result h

/-- A stack with images for two regions. -/
def imageTemplate : Template where
  root := .object [("Mappings", .object [("Images", .object [
    ("us-east-1", .object [("Id", .string "ami-1")]),
    ("eu-west-1", .object [("Id", .string "ami-2")])])])]

/-- The image of a region given by a loop variable, with a default. -/
def loopImage : Value := .object [("Fn::FindInMap", .array [.string "Images",
  .object [("Ref", .string "Region")], .string "Id",
  .object [("DefaultValue", .object [("Ref", .string "AWS::Region")])]])]

/-- The scope of an iteration over regions. -/
def regionScope : Scope := Scope.root.child.bind "Region" (.string "eu-west-1")

theorem resolve_loopImage :
    resolve ⟨imageTemplate.context {}, regionScope, true⟩ loopImage = .ok (.string "ami-2") ∧
      resolve ⟨imageTemplate.context {}, regionScope, false⟩ loopImage = .ok (.string "ami-2") := by
  have hloops : resolve ⟨imageTemplate.context {}, regionScope, true⟩ loopImage =
      .ok (.string "ami-2") := rfl
  refine ⟨hloops, resolve_of_loopVariables imageTemplate {} _ loopImage _ ?_ hloops⟩
  intro part hpart arguments hcall
  have hinner : ∀ inner ∈ loopImage.parts.tail, inner.call?.map Prod.fst ≠ some .findInMap := by
    decide
  rcases List.mem_cons.mp hpart with rfl | hlater
  · cases congrArg Prod.snd (Option.some.inj hcall)
    refine ⟨?_, ?_⟩
    · intro argument hargument text htext
      clear htext text
      revert argument
      decide
    · rintro name top second options fallback value he _ hnone
      cases he
      cases hnone
  · exact absurd (congrArg (Option.map Prod.fst) hcall) (hinner part hlater)

/-- The image of the analysed region, with a default. -/
def regionImage : Value := .object [("Fn::FindInMap", .array [.string "Images",
  .object [("Ref", .string "AWS::Region")], .string "Id",
  .object [("DefaultValue", .string "none")]])]

/-- A lookup by the region is taken to fail while the region is not known, and
falls back on its default although there is an entry. -/
theorem loopVariables_contradict_resolve :
    resolve ⟨imageTemplate.context {}, Scope.root.child.bind "Name" (.string "a"), true⟩
        regionImage = .ok (.string "none") ∧
      resolve ⟨imageTemplate.context {}, Scope.root.child.bind "Name" (.string "a"), false⟩
        regionImage = .ok (.string "ami-1") :=
  ⟨rfl, rfl⟩

end Evaluator

end StackTemplate
