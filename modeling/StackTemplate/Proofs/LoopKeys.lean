import Mathlib.Logic.Relation
import StackTemplate.Proofs.Expansion

/-!
# Loop keys in an expanded document

Expansion unrolls the loops that it meets, and it does not look again at what
it writes. Two things are written without being expanded: a value put in the
place of a reference or of a map lookup, and a key in which loop variables are
replaced. An expanded document is free of loop keys exactly if none of these
brings one in, wherever the expansion comes by.
-/

namespace StackTemplate

namespace Intrinsic

/-- The key of a function is no loop's. -/
theorem isForEachKey_of_functionOfKey? {key : String} {kind : Intrinsic}
    (h : functionOfKey? key = some kind) : isForEachKey key = false := by
  obtain ⟨hkind, hfunction⟩ := Option.filter_eq_some_iff.mp h
  refine Bool.eq_false_iff.mpr fun hloop => ?_
  rw [ofKey?_eq_forEach_iff.mpr hloop] at hkind
  cases hkind
  cases hfunction

end Intrinsic

namespace Value

/-- The keys of loops among the keys of a mapping. -/
def ownLoopKeys : Value → List String
  | .object entries => (Entries.keys entries).filter Intrinsic.isForEachKey
  | _ => []

/-- The keys of loops anywhere in a value. -/
def loopKeys (value : Value) : List String := value.parts.flatMap ownLoopKeys

/-- No mapping in a value has the key of a loop. -/
def LoopFree (value : Value) : Prop := value.loopKeys = []

instance (value : Value) : Decidable value.LoopFree :=
  inferInstanceAs (Decidable (value.loopKeys = []))

/-- An entry has not the key of a loop, and there is none in its value. -/
def EntryLoopFree (entry : String × Value) : Prop :=
  Intrinsic.isForEachKey entry.1 = false ∧ entry.2.LoopFree

/-- Every mapping in a value counts. -/
theorem loopFree_iff {value : Value} :
    value.LoopFree ↔ ∀ part ∈ value.parts, part.ownLoopKeys = [] :=
  List.flatMap_eq_nil_iff

/-- There is no loop key in a list if there is none in its items. -/
theorem loopFree_array {items : List Value} :
    (array items).LoopFree ↔ ∀ item ∈ items, item.LoopFree := by
  simp only [loopFree_iff, mem_parts_array]
  constructor
  · intro h item hitem part hpart
    exact h part (.inr ⟨item, hitem, hpart⟩)
  · rintro h part (rfl | ⟨item, hitem, hpart⟩)
    · rfl
    · exact h item hitem part hpart

/-- There is no loop key in a mapping if there is none in its entries. -/
theorem loopFree_object {entries : List (String × Value)} :
    (object entries).LoopFree ↔ ∀ entry ∈ entries, EntryLoopFree entry := by
  have hown : (object entries).ownLoopKeys = [] ↔
      ∀ entry ∈ entries, Intrinsic.isForEachKey entry.1 = false := by
    simp [ownLoopKeys, Entries.keys]
  simp only [EntryLoopFree, loopFree_iff, mem_parts_object]
  constructor
  · intro h entry hentry
    have hkey := hown.mp (h _ (.inl rfl)) entry hentry
    exact ⟨hkey, fun part hpart => h part (.inr ⟨entry, hentry, hpart⟩)⟩
  · rintro h part (rfl | ⟨entry, hentry, hpart⟩)
    · exact hown.mpr fun entry hentry => (h entry hentry).1
    · exact (h entry hentry).2 part hpart

/-- Items hold a reserved key if one of them does. -/
theorem itemsUseIntrinsic_eq_any (items : List Value) :
    itemsUseIntrinsic items = items.any usesIntrinsic := by
  induction items with
  | nil => rfl
  | cons item items ih => rw [itemsUseIntrinsic, ih, List.any_cons]

/-- Entries hold a reserved key if one of them does. -/
theorem entriesUseIntrinsic_eq_any (entries : List (String × Value)) :
    entriesUseIntrinsic entries =
      entries.any fun entry => (Intrinsic.ofKey? entry.1).isSome || entry.2.usesIntrinsic := by
  induction entries with
  | nil => rfl
  | cons entry entries ih => rw [entriesUseIntrinsic, ih, List.any_cons]

/-- No reserved key is in a list if none is in its items. -/
theorem usesIntrinsic_array_eq_false {items : List Value} :
    (array items).usesIntrinsic = false ↔ ∀ item ∈ items, item.usesIntrinsic = false := by
  rw [usesIntrinsic, itemsUseIntrinsic_eq_any]
  simp

/-- No reserved key is in a mapping if no key is reserved and none is in a value. -/
theorem usesIntrinsic_object_eq_false {entries : List (String × Value)} :
    (object entries).usesIntrinsic = false ↔
      ∀ entry ∈ entries, Intrinsic.ofKey? entry.1 = none ∧ entry.2.usesIntrinsic = false := by
  rw [usesIntrinsic, entriesUseIntrinsic_eq_any]
  simp

/-- A value without reserved keys has no loop keys. -/
theorem loopFree_of_usesIntrinsic {value : Value} (h : value.usesIntrinsic = false) :
    value.LoopFree := by
  induction value using partInduction with
  | step value ih =>
    cases value with
    | array items =>
      have hitems := usesIntrinsic_array_eq_false.mp h
      exact loopFree_array.mpr fun item hitem => ih item (.item hitem) (hitems item hitem)
    | object entries =>
      refine loopFree_object.mpr fun entry hentry => ?_
      obtain ⟨hkey, hinside⟩ := usesIntrinsic_object_eq_false.mp h entry hentry
      refine ⟨Bool.eq_false_iff.mpr fun hloop => ?_, ih entry.2 (.entry hentry) hinside⟩
      rw [Intrinsic.ofKey?_eq_forEach_iff.mpr hloop] at hkey
      cases hkey
    | _ => rfl

end Value

namespace Expansion

/-- What calls no function stays. -/
theorem replacement?_of_plain {c : Context} {scope : Scope} {value : Value}
    (h : value.call? = none) : replacement? c scope value = none := by
  rw [replacement?, h]

end Expansion

namespace Unrolling

open Expansion (substituteKey substituteText foundInMap? rebuild replacement?
  replacement?_of_plain replacement?_eq_none)

section Results

variable {α β : Type} {first : Unrolling α} {next : α → Unrolling β}

/-- What a rewriting comes to, whatever mappings it builds. -/
def ComesTo (first : Unrolling α) (result : α) : Prop := ∃ built, first.run = some (result, built)

/-- All that a rewriting can come to is good. -/
def Gives (first : Unrolling α) (good : α → Prop) : Prop :=
  ∀ result, first.ComesTo result → good result

/-- A result at hand. -/
theorem Gives.pure {good : α → Prop} {result : α} (h : good result) :
    (pure result : Unrolling α).Gives good := by
  rintro _ ⟨_, hrun⟩
  cases hrun
  exact h

/-- A malformed loop comes to nothing. -/
theorem gives_malformed (good : α → Prop) : (malformed : Unrolling α).Gives good := by
  rintro _ ⟨_, hrun⟩
  cases hrun

/-- One rewriting after another. -/
theorem Gives.bind {middle : α → Prop} {good : β → Prop} (hfirst : first.Gives middle)
    (hnext : ∀ result, middle result → (next result).Gives good) : (first >>= next).Gives good := by
  rintro result ⟨built, hrun⟩
  obtain ⟨early, before, after, hbefore, hafter, -⟩ := run_bind_eq_some_iff.mp hrun
  exact hnext early (hfirst early ⟨before, hbefore⟩) result ⟨after, hafter⟩

/-- What was built for a mapping is the mapping. -/
theorem gives_build {good : Value → Prop} {pairs : List (String × Value)}
    (h : good (.object pairs)) : (build pairs).Gives good := by
  rintro _ ⟨_, hrun⟩
  cases hrun
  exact h

end Results

/-- One step of the expansion into a part of the document, with the scope in
which the part is expanded. What is replaced as a whole is not entered. -/
inductive Enters (c : Context) : Scope × Value → Scope × Value → Prop
  /-- Into an item of a list. -/
  | item {scope : Scope} {items : List Value} {item : Value} (hitem : item ∈ items) :
    Enters c (scope, .array items) (scope, item)
  /-- Into the arguments of a call. -/
  | argument {scope : Scope} {call args : Value} {kind : Intrinsic}
    (hcall : call.call? = some (kind, args)) (hkept : replacement? c scope call = none) :
    Enters c (scope, call) (scope, args)
  /-- Into the value of an entry. -/
  | entry {scope : Scope} {entries : List (String × Value)} {key : String} {value : Value}
    (hplain : (Value.object entries).call? = none) (hentry : (key, value) ∈ entries)
    (hkey : Intrinsic.isForEachKey key = false) : Enters c (scope, .object entries) (scope, value)
  /-- Into the body of a loop, for an item that the loop runs over. -/
  | body {scope : Scope} {entries body : List (String × Value)} {key name : String}
    {collection item : Value} {items : List Value}
    (hplain : (Value.object entries).call? = none)
    (hentry : (key, .array [.string name, collection, .object body]) ∈ entries)
    (hkey : Intrinsic.isForEachKey key = true)
    (hitems : (loopItems ⟨c, scope, false⟩ collection).ComesTo items) (hitem : item ∈ items) :
    Enters c (scope, .object entries) (scope.child.bind name item, .object body)

/-- The expansion comes from one part of the document to another. -/
def Visits (c : Context) : Scope × Value → Scope × Value → Prop :=
  Relation.ReflTransGen (Enters c)

/-- What is written without being expanded brings in no loop key here. -/
structure Harmless (c : Context) (visit : Scope × Value) : Prop where
  /-- A value put in the place of a call is free of loop keys. -/
  inserted : ∀ inserted, replacement? c visit.1 visit.2 = some inserted → inserted.LoopFree
  /-- Replacing loop variables makes no key a loop's. -/
  renamed : visit.2.call? = none → ∀ entries, visit.2 = .object entries →
    ∀ entry ∈ entries, Intrinsic.isForEachKey entry.1 = false →
      Intrinsic.isForEachKey (substituteKey visit.1 entry.1) = false

/-- No loop key is brought in here or where the expansion goes from here. -/
def HarmlessFrom (c : Context) (visit : Scope × Value) : Prop :=
  ∀ later, Visits c visit later → Harmless c later

section Harmless

variable {c : Context} {scope : Scope}

/-- Nothing is brought in here, nor after any one step. -/
theorem harmlessFrom_iff {visit : Scope × Value} :
    HarmlessFrom c visit ↔
      Harmless c visit ∧ ∀ next, Enters c visit next → HarmlessFrom c next := by
  constructor
  · intro h
    exact ⟨h visit .refl, fun next hnext later hlater => h later (.head hnext hlater)⟩
  · rintro ⟨hhere, hnext⟩ later hlater
    rcases Relation.ReflTransGen.cases_head hlater with rfl | ⟨next, hstep, hrest⟩
    · exact hhere
    · exact hnext next hstep later hrest

/-- A scalar stays as it is. -/
theorem harmlessFrom_scalar {value : Value} (hlist : ∀ items, value ≠ .array items)
    (hmapping : ∀ entries, value ≠ .object entries) : HarmlessFrom c (scope, value) := by
  have hplain : value.call? = none := by
    cases value with
    | object entries => exact absurd rfl (hmapping entries)
    | _ => rfl
  refine harmlessFrom_iff.mpr ⟨⟨fun _ hinserted => ?_, fun _ entries hentries => ?_⟩, ?_⟩
  · cases (replacement?_of_plain hplain).symm.trans hinserted
  · exact absurd hentries (hmapping entries)
  · intro next hnext
    cases hnext with
    | item => exact absurd rfl (hlist _)
    | argument hcall => cases hplain.symm.trans hcall
    | entry => exact absurd rfl (hmapping _)
    | body => exact absurd rfl (hmapping _)

/-- A list is as harmless as its items. -/
theorem harmlessFrom_array {items : List Value} :
    HarmlessFrom c (scope, .array items) ↔ ∀ item ∈ items, HarmlessFrom c (scope, item) := by
  rw [harmlessFrom_iff]
  constructor
  · exact fun h item hitem => h.2 _ (.item hitem)
  · intro h
    refine ⟨⟨fun _ hinserted => (nomatch hinserted), fun _ _ hentries => (nomatch hentries)⟩, ?_⟩
    intro next hnext
    cases hnext with
    | item hitem => exact h _ hitem
    | argument hcall => cases hcall

/-- A call that stays is as harmless as its arguments. -/
theorem harmlessFrom_call {call args : Value} {kind : Intrinsic}
    (hcall : call.call? = some (kind, args)) (hkept : replacement? c scope call = none) :
    HarmlessFrom c (scope, call) ↔ HarmlessFrom c (scope, args) := by
  rw [harmlessFrom_iff]
  constructor
  · exact fun h => h.2 _ (.argument hcall hkept)
  · intro h
    refine ⟨⟨fun _ hinserted => ?_, fun hplain => ?_⟩, fun next hnext => ?_⟩
    · cases hkept.symm.trans hinserted
    · cases hcall.symm.trans hplain
    · cases hnext with
      | item => cases hcall
      | argument hother =>
        cases hcall.symm.trans hother
        exact h
      | entry hplain => cases hcall.symm.trans hplain
      | body hplain => cases hcall.symm.trans hplain

/-- A call that is replaced is as harmless as the value in its place. -/
theorem harmlessFrom_replaced {call inserted : Value}
    (hinserted : replacement? c scope call = some inserted) :
    HarmlessFrom c (scope, call) ↔ inserted.LoopFree := by
  have hcall : call.call? ≠ none := by
    intro hplain
    cases (replacement?_of_plain hplain).symm.trans hinserted
  rw [harmlessFrom_iff]
  constructor
  · exact fun h => h.1.inserted inserted hinserted
  · intro h
    refine ⟨⟨fun _ hother => ?_, fun hplain => absurd hplain hcall⟩, fun next hnext => ?_⟩
    · cases hinserted.symm.trans hother
      exact h
    · cases hnext with
      | item => exact absurd rfl hcall
      | argument _ hkept => cases hinserted.symm.trans hkept
      | entry hplain => exact absurd hplain hcall
      | body hplain => exact absurd hplain hcall

/-- A loop is harmless if its body is for every item. -/
def HarmlessLoop (c : Context) (scope : Scope) (block : Value) : Prop :=
  ∀ name collection body items, block = .array [.string name, collection, .object body] →
    (loopItems ⟨c, scope, false⟩ collection).ComesTo items →
    ∀ item ∈ items, HarmlessFrom c (scope.child.bind name item, .object body)

/-- An entry is harmless if its loop is, or else its key and its value. -/
def HarmlessEntry (c : Context) (scope : Scope) (entry : String × Value) : Prop :=
  if Intrinsic.isForEachKey entry.1 then HarmlessLoop c scope entry.2
  else Intrinsic.isForEachKey (substituteKey scope entry.1) = false ∧
    HarmlessFrom c (scope, entry.2)

/-- A mapping that calls no function is as harmless as its entries. -/
theorem harmlessFrom_mapping {entries : List (String × Value)}
    (hplain : (Value.object entries).call? = none) :
    HarmlessFrom c (scope, .object entries) ↔ ∀ entry ∈ entries, HarmlessEntry c scope entry := by
  rw [harmlessFrom_iff]
  constructor
  · rintro ⟨hhere, hnext⟩ ⟨key, value⟩ hentry
    unfold HarmlessEntry
    split
    · next hkey =>
      rintro name collection body items rfl hitems item hitem
      exact hnext _ (.body hplain hentry hkey hitems hitem)
    · next hkey =>
      have hkey := Bool.eq_false_iff.mpr hkey
      exact ⟨hhere.renamed hplain entries rfl _ hentry hkey, hnext _ (.entry hplain hentry hkey)⟩
  · intro h
    refine ⟨⟨fun inserted hinserted => ?_, fun _ others hothers entry hentry hkey => ?_⟩,
      fun next hnext => ?_⟩
    · cases (replacement?_of_plain hplain).symm.trans hinserted
    · cases hothers
      have hhere := h entry hentry
      rw [HarmlessEntry, hkey] at hhere
      exact hhere.1
    · cases hnext with
      | argument hcall => cases hplain.symm.trans hcall
      | entry _ hentry hkey =>
        have hhere := h _ hentry
        rw [HarmlessEntry, hkey] at hhere
        exact hhere.2
      | body _ hentry hkey hitems hitem =>
        have hhere := h _ hentry
        rw [HarmlessEntry, hkey] at hhere
        exact hhere _ _ _ _ rfl hitems _ hitem

end Harmless

section Unrolled

variable {c : Context} {scope : Scope}

/-- Unrolling a value leaves no loop key exactly if nothing brings one in. -/
def Exact (c : Context) (value : Value) : Prop :=
  ∀ scope, (unroll c scope value).Gives fun result =>
    result.LoopFree ↔ HarmlessFrom c (scope, value)

/-- The pairs are free of loop keys. -/
def PairsLoopFree (pairs : List (String × Value)) : Prop :=
  ∀ pair ∈ pairs, Value.EntryLoopFree pair

/-- The items of a list are unrolled one by one. -/
theorem unrollItems_gives {items : List Value} (h : ∀ item ∈ items, Exact c item)
    (scope : Scope) :
    (unrollItems c scope items).Gives fun result =>
      (∀ item ∈ result, item.LoopFree) ↔ ∀ item ∈ items, HarmlessFrom c (scope, item) := by
  induction items with
  | nil =>
    rw [unrollItems]
    exact .pure (by simp)
  | cons item items ih =>
    rw [unrollItems]
    refine (h item List.mem_cons_self scope).bind fun first hfirst => ?_
    refine (ih fun other hother => h other (List.mem_cons_of_mem _ hother)).bind
      fun others hothers => .pure ?_
    rw [List.forall_mem_cons, List.forall_mem_cons, hfirst, hothers]

/-- The pairs for all items are those for each item. -/
theorem forItems_gives {body : Value → Unrolling (List (String × Value))} (good : Value → Prop)
    (h : ∀ item, (body item).Gives fun pairs => PairsLoopFree pairs ↔ good item)
    (items : List Value) :
    (forItems body items).Gives fun pairs => PairsLoopFree pairs ↔ ∀ item ∈ items, good item := by
  induction items with
  | nil => exact .pure (by simp [PairsLoopFree])
  | cons item items ih =>
    refine (h item).bind fun here hhere => ih.bind fun others hothers => .pure ?_
    rw [PairsLoopFree, List.forall_mem_append, List.forall_mem_cons]
    exact and_congr hhere hothers

/-- A loop produces the pairs of its body for every item. It runs over one list of
items, so any such list is the one at hand. -/
theorem unrollLoop_gives {block : Value}
    (h : ∀ part : Value, part.Within block → Exact c part) :
    (unrollLoop c scope block).Gives fun pairs =>
      PairsLoopFree pairs ↔ HarmlessLoop c scope block := by
  by_cases hform : ∃ name collection body, block = .array [.string name, collection, .object body]
  · obtain ⟨name, collection, body, rfl⟩ := hform
    have hbody : Exact c (.object body) := h _ (.item (by simp))
    rw [unrollLoop]
    refine Gives.bind (fun items hitems => hitems) fun items hitems pairs hrun => ?_
    have hpairs := forItems_gives
      (fun item => HarmlessFrom c (scope.child.bind name item, .object body))
      (fun item => ?_) items pairs hrun
    refine hpairs.trans ⟨?_, ?_⟩
    · rintro hharmless _ _ _ others hblock hothers
      cases hblock
      obtain ⟨_, hfirst⟩ := hitems
      obtain ⟨_, hsecond⟩ := hothers
      cases hfirst.symm.trans hsecond
      exact hharmless
    · exact fun hharmless => hharmless name collection body items rfl hitems
    · refine (hbody _).bind fun result hresult => ?_
      cases result with
      | object pairs => exact .pure (Value.loopFree_object.symm.trans hresult)
      | _ => exact gives_malformed _
  · rw [unrollLoop_of_malformed fun name collection body hblock =>
      hform ⟨name, collection, body, hblock⟩]
    exact gives_malformed _

/-- The pairs of a mapping are those of its entries. -/
theorem unrollEntries_gives {entries : List (String × Value)}
    (h : ∀ entry ∈ entries, Exact c entry.2 ∧
      ∀ part : Value, part.Within entry.2 → Exact c part) :
    (unrollEntries c scope entries).Gives fun pairs =>
      PairsLoopFree pairs ↔ ∀ entry ∈ entries, HarmlessEntry c scope entry := by
  induction entries with
  | nil =>
    rw [unrollEntries]
    exact .pure (by simp [PairsLoopFree])
  | cons entry entries ih =>
    obtain ⟨key, value⟩ := entry
    obtain ⟨hvalue, hinside⟩ := h _ List.mem_cons_self
    have hhere : Gives (if Intrinsic.ofKey? key = some .forEach then unrollLoop c scope value
        else do return [(substituteKey scope key, ← unroll c scope value)])
          fun pairs => PairsLoopFree pairs ↔ HarmlessEntry c scope (key, value) := by
      simp only [Intrinsic.ofKey?_eq_forEach_iff, HarmlessEntry]
      split
      · exact unrollLoop_gives hinside
      · refine (hvalue scope).bind fun result hresult => .pure ?_
        rw [PairsLoopFree, List.forall_mem_singleton, Value.EntryLoopFree, hresult]
    rw [unrollEntries]
    refine hhere.bind fun here hhere => ?_
    refine (ih fun other hother => h other (List.mem_cons_of_mem _ hother)).bind
      fun others hothers => .pure ?_
    rw [PairsLoopFree, List.forall_mem_append, List.forall_mem_cons]
    exact and_congr hhere hothers

/-- A mapping that calls no function is built from the pairs of its entries. -/
theorem build_unrollEntries_gives {entries : List (String × Value)}
    (hplain : (Value.object entries).call? = none)
    (h : ∀ part : Value, part.Within (.object entries) → Exact c part) :
    Gives (do build (← unrollEntries c scope entries)) fun result =>
      result.LoopFree ↔ HarmlessFrom c (scope, .object entries) := by
  have hentries : ∀ entry ∈ entries, Exact c entry.2 ∧
      ∀ part : Value, part.Within entry.2 → Exact c part := fun entry hentry =>
    ⟨h _ (.entry hentry), fun part hpart => h part (hpart.trans (.entry hentry))⟩
  refine (unrollEntries_gives hentries).bind fun pairs hpairs => gives_build ?_
  rw [Value.loopFree_object, harmlessFrom_mapping hplain]
  exact hpairs

/-- A call has the loop keys of its arguments. -/
theorem loopFree_call {key : String} {kind : Intrinsic} {args : Value}
    (hkind : Intrinsic.functionOfKey? key = some kind) :
    (Value.object [(key, args)]).LoopFree ↔ args.LoopFree := by
  rw [Value.loopFree_object, List.forall_mem_singleton, Value.EntryLoopFree,
    Intrinsic.isForEachKey_of_functionOfKey? hkind]
  exact and_iff_right rfl

/-- No loop key is lost with a call: only arguments without reserved keys are
written out as a text. -/
theorem loopFree_rebuild {key : String} {kind : Intrinsic} {args : Value}
    (hkind : Intrinsic.functionOfKey? key = some kind) :
    (rebuild key args).LoopFree ↔ args.LoopFree := by
  unfold rebuild
  split
  · next htext =>
    have hargs : args.LoopFree := Value.loopFree_of_usesIntrinsic (by simpa using htext.2)
    exact ⟨fun _ => hargs, fun _ => rfl⟩
  · exact loopFree_call hkind

/-- Texts hold no loop key, whatever is replaced in them. -/
theorem loopFree_string_iff (old new : String) :
    (Value.string new).LoopFree ↔ HarmlessFrom c (scope, .string old) :=
  iff_of_true rfl (harmlessFrom_scalar nofun nofun)

section Call

variable {key : String} {args : Value} {kind : Intrinsic}
  (hkind : Intrinsic.functionOfKey? key = some kind)

include hkind

/-- A call that stays is as free of loop keys as its new arguments. -/
theorem loopFree_call_iff {unrolled : Value}
    (hkept : replacement? c scope (.object [(key, args)]) = none)
    (h : unrolled.LoopFree ↔ HarmlessFrom c (scope, args)) :
    (Value.object [(key, unrolled)]).LoopFree ↔ HarmlessFrom c (scope, .object [(key, args)]) := by
  rw [loopFree_call hkind, harmlessFrom_call (Value.call?_of_functionOfKey? hkind args) hkept]
  exact h

/-- A call that stays is unrolled in its arguments. -/
theorem rebuild_gives (hargs : Exact c args)
    (hkept : replacement? c scope (.object [(key, args)]) = none) :
    Gives (do return rebuild key (← unroll c scope args)) fun result =>
      result.LoopFree ↔ HarmlessFrom c (scope, .object [(key, args)]) := by
  refine (hargs scope).bind fun unrolled hunrolled => .pure ?_
  rw [loopFree_rebuild hkind, ← loopFree_call hkind]
  exact loopFree_call_iff hkind hkept hunrolled

/-- A call is replaced, or it is unrolled in its arguments. The cases are those of
a reference, a substitution in its two forms, a map lookup, and the other calls. -/
theorem unrollCall_gives (h : ∀ part : Value, part.Within (.object [(key, args)]) → Exact c part) :
    (unroll c scope (.object [(key, args)])).Gives fun result =>
      result.LoopFree ↔ HarmlessFrom c (scope, .object [(key, args)]) := by
  have hcall := Value.call?_of_functionOfKey? hkind args
  have hrebuilt := @rebuild_gives c scope _ _ _ hkind (h args (.entry List.mem_cons_self))
  rw [unroll.eq_def]
  dsimp only
  rw [hkind]
  split
  · next name href =>
    cases href
    have hreplacement : replacement? c scope (.object [(key, .string name)]) = scope.get? name := by
      rw [replacement?, hcall]
    cases hbound : scope.get? name with
    | some value => exact .pure (harmlessFrom_replaced (hreplacement.trans hbound)).symm
    | none =>
      exact .pure (loopFree_call_iff hkind (hreplacement.trans hbound) (loopFree_string_iff _ _))
  · next text hsub =>
    cases hsub
    have hkept := replacement?_eq_none c scope hcall (fun _ _ => by decide) (by decide)
    exact .pure (loopFree_call_iff hkind hkept (loopFree_string_iff _ _))
  · next text ownNames hsub =>
    cases hsub
    have hkept := replacement?_eq_none c scope hcall (fun _ _ => by decide) (by decide)
    refine (h (.object ownNames) (.argument (by simp)) scope).bind fun unrolled hunrolled =>
      .pure (loopFree_call_iff hkind hkept ?_)
    rw [Value.loopFree_array, harmlessFrom_array, List.forall_mem_cons, List.forall_mem_singleton,
      List.forall_mem_cons, List.forall_mem_singleton]
    exact and_congr (loopFree_string_iff _ _) hunrolled
  · next args _ _ hfind =>
    cases hfind
    have hreplacement : replacement? c scope (.object [(key, args)]) =
        foundInMap? c scope (.object [(key, args)]) := by
      rw [replacement?, hcall]
    cases hfound : foundInMap? c scope (.object [(key, args)]) with
    | some found => exact .pure (harmlessFrom_replaced (hreplacement.trans hfound)).symm
    | none => exact hrebuilt (hreplacement.trans hfound)
  · next hfind heq href _ _ =>
    cases heq
    exact hrebuilt (replacement?_eq_none c scope hcall href hfind)
  · next hnone => cases hnone

end Call

/-- Every unrolling leaves a loop key exactly if something brings one in. The body
of a loop is no entry of its mapping, so the induction is on all parts. -/
theorem exact_unroll (c : Context) (value : Value) : Exact c value := by
  induction value using Value.partInduction with
  | step value ih =>
    intro scope
    cases value with
    | array items =>
      have hitems := unrollItems_gives (fun item hitem => ih item (.item hitem))
      rw [unroll]
      refine (hitems scope).bind fun result hresult => .pure ?_
      rw [Value.loopFree_array, harmlessFrom_array]
      exact hresult
    | object entries =>
      cases hcall : (Value.object entries).call? with
      | none =>
        rw [unroll_of_plain hcall]
        exact build_unrollEntries_gives hcall ih
      | some call =>
        obtain ⟨key, heq, hkind⟩ := Value.eq_of_call? hcall
        rw [heq] at ih ⊢
        exact unrollCall_gives hkind ih
    | _ => exact .pure (iff_of_true rfl (harmlessFrom_scalar (by simp) (by simp)))

end Unrolled

end Unrolling

namespace Template

/-- Expansion unrolls every loop that it enters and no other one. An expanded
document is free of loop keys exactly if, wherever the expansion comes by, no
value put in the place of a reference or of a map lookup holds a loop key, and
no key becomes a loop's by the loop variables replaced in it. -/
theorem loopFree_expand_iff (template : Template) (settings : Settings) (value : Value)
    (h : template.expand settings = .ok value) :
    value.LoopFree ↔ ∀ scope part,
      Unrolling.Visits (template.context settings) (.root, template.root) (scope, part) →
      Unrolling.Harmless (template.context settings) (scope, part) := by
  have houtcome := expand_outcome template settings
  rw [h] at houtcome
  obtain ⟨built, hunroll, -⟩ := houtcome
  have hexact := Unrolling.exact_unroll (template.context settings) template.root .root value
    ⟨built, hunroll⟩
  exact hexact.trans Prod.forall

/-- A loop over one item. -/
def loopTemplate (item : Value) (body : List (String × Value)) (entry : Value) : Template where
  root := .object [
    ("Mappings", .object [("Names", .object [("a", .object [("Tags", entry)])])]),
    ("Resources", .object [("Fn::ForEach::Buckets",
      .array [.string "Name", .array [item], .object body])])]

/-- A body that looks up an entry of the mappings. -/
def lookupBody : List (String × Value) :=
  [("Bucket$\x7bName\x7d", .object [("Fn::FindInMap", .array [.string "Names",
    .object [("Ref", .string "Name")], .string "Tags"])])]

/-- A loop over one item that produces one entry. -/
def innerLoop : Value :=
  .object [("Fn::ForEach::Inner", .array [.string "Key", .array [.string "x"],
    .object [("$\x7bKey\x7d", .integer 1)]])]

/-- A document in which a loop looks up a text. -/
def tagTemplate : Template := loopTemplate (.string "a") lookupBody (.string "t")

/-- The text takes the place of the lookup, and nothing brings in a loop key on
the way. -/
theorem loopFree_expand_tagTemplate :
    tagTemplate.expand {} = .ok (.object [
      ("Mappings", .object [("Names", .object [("a", .object [("Tags", .string "t")])])]),
      ("Resources", .object [("Bucketa", .string "t")])]) ∧
    ∀ scope part,
      Unrolling.Visits (tagTemplate.context {}) (.root, tagTemplate.root) (scope, part) →
      Unrolling.Harmless (tagTemplate.context {}) (scope, part) :=
  ⟨rfl, (loopFree_expand_iff tagTemplate {} _ rfl).mp (by decide)⟩

/-- A loop stays in an expanded document if it stands in an entry that is looked
up or in an item that is referred to, and a key becomes a loop's if an item says
so. -/
theorem expand_leaves_loopKeys :
    ((loopTemplate (.string "a") lookupBody innerLoop).expand {}).map Value.loopKeys =
      .ok ["Fn::ForEach::Inner"] ∧
    ((loopTemplate innerLoop [("Bucket", .object [("Ref", .string "Name")])] .null).expand {}).map
      Value.loopKeys = .ok ["Fn::ForEach::Inner"] ∧
    ((loopTemplate (.string "Fn::ForEach::Inner") [("$\x7bName\x7d", .null)] .null).expand {}).map
      Value.loopKeys = .ok ["Fn::ForEach::Inner"] :=
  ⟨rfl, rfl, rfl⟩

end Template

end StackTemplate
