import Mathlib.Control.Monad.Writer
import Mathlib.Data.List.Nodup
import StackTemplate.Expansion.Basic

/-!
# Unrolling without checks

A reference for the expansion: one pass over the document in source order that
rewrites it as the expansion does, but lists whatever pairs of keys and values
its loops and entries produce. It remembers the keys of every mapping that it
builds and hands out placeholder items without a cache.

An unrolling is clean if it builds no mapping with a repeated key. A diagnostic
is right about it if a loop is malformed or the key that it names is repeated.
-/

namespace StackTemplate

namespace Value

/-- A mapping with one entry under the key of a function is a call. -/
theorem call?_of_functionOfKey? {key : String} {kind : Intrinsic}
    (h : Intrinsic.functionOfKey? key = some kind) (args : Value) :
    (object [(key, args)]).call? = some (kind, args) := by
  rw [call?, h]
  rfl

/-- Whatever calls a function is such a mapping. -/
theorem eq_of_call? {value args : Value} {kind : Intrinsic} (h : value.call? = some (kind, args)) :
    ∃ key, value = object [(key, args)] ∧ Intrinsic.functionOfKey? key = some kind := by
  unfold call? at h
  split at h
  · next key other =>
    obtain ⟨found, hfound, he⟩ := Option.map_eq_some_iff.mp h
    cases he
    exact ⟨key, rfl, hfound⟩
  · cases h

end Value

/-- A rewriting that checks no keys. It comes to nothing if it meets a malformed
loop, and otherwise to a result with the keys of every mapping built. -/
abbrev Unrolling := WriterT (List (List String)) Option

namespace Unrolling

open Expansion (substituteKey substituteText foundInMap? rebuild)

/-- A loop is malformed. -/
def malformed {α : Type} : Unrolling α := WriterT.mk none

/-- Builds a mapping, whatever its keys are. -/
def build (pairs : List (String × Value)) : Unrolling Value := do
  tell [Entries.keys pairs]
  return .object pairs

/-- What an item of a written list stands for. -/
def listedItem (e : Evaluator) (item : Value) : List Value :=
  match e.resolve item with
  | .ok .null => []
  | .ok value => [value]
  | .error _ => (CollectionCache.freshItems item.digest).take 1

/-- The items that a loop runs over. -/
def loopItems (e : Evaluator) (collection : Value) : Unrolling (List Value) :=
  match collection with
  | .array items => return items.flatMap (listedItem e)
  | collection =>
    if collection.call?.isSome then
      match e.resolve collection with
      | .ok (.array items) => return items
      | .ok _ => malformed
      | .error _ => return CollectionCache.freshItems collection.digest
    else malformed

/-- The pairs produced for all items, one item after the other. -/
def forItems (body : Value → Unrolling (List (String × Value))) :
    List Value → Unrolling (List (String × Value))
  | [] => return []
  | item :: items => do
    let here ← body item
    let others ← forItems body items
    return here ++ others

mutual

/-- Unrolls the loops in a part of the document. -/
def unroll (c : Context) (scope : Scope) : Value → Unrolling Value
  | .array items => do return .array (← unrollItems c scope items)
  | .object entries =>
    match entries with
    | [(key, args)] =>
      match Intrinsic.functionOfKey? key, args with
      | some .ref, .string name =>
        return (scope.get? name).getD (.object [(key, .string name)])
      | some .sub, .string text =>
        return .object [(key, .string (substituteText scope [] text))]
      | some .sub, .array [.string text, .object ownNames] => do
        let unrolled ← unroll c scope (.object ownNames)
        return .object [(key, .array [.string (substituteText scope ownNames text), unrolled])]
      | some .findInMap, args =>
        match foundInMap? c scope (.object [(key, args)]) with
        | some found => return found
        | none => do return rebuild key (← unroll c scope args)
      | some _, args => do return rebuild key (← unroll c scope args)
      | none, args => do build (← unrollEntries c scope [(key, args)])
    | entries => do build (← unrollEntries c scope entries)
  | scalar => return scalar

/-- Unrolls the loops in the items of a list. -/
def unrollItems (c : Context) (scope : Scope) : List Value → Unrolling (List Value)
  | [] => return []
  | item :: items => do
    let item ← unroll c scope item
    let items ← unrollItems c scope items
    return item :: items

/-- The pairs of a mapping in source order: those of its entries, and in the
place of every loop those that the loop produces. -/
def unrollEntries (c : Context) (scope : Scope) :
    List (String × Value) → Unrolling (List (String × Value))
  | [] => return []
  | (key, value) :: entries => do
    let here ← (if Intrinsic.ofKey? key = some .forEach then unrollLoop c scope value
      else do return [(substituteKey scope key, ← unroll c scope value)])
    let others ← unrollEntries c scope entries
    return here ++ others

/-- The pairs produced by a loop, in the order of its items. -/
def unrollLoop (c : Context) (scope : Scope) : Value → Unrolling (List (String × Value))
  | .array [.string name, collection, .object body] => do
    let items ← loopItems ⟨c, scope, false⟩ collection
    forItems (fun item => do
      match ← unroll c (scope.child.bind name item) (.object body) with
      | .object pairs => return pairs
      | _ => malformed) items
  | _ => malformed

end

/-- A loop without a variable, a collection and a body is malformed. -/
theorem unrollLoop_of_malformed {c : Context} {scope : Scope} {block : Value}
    (h : ∀ name collection body, block = .array [.string name, collection, .object body] →
      False) : unrollLoop c scope block = malformed := by
  rw [unrollLoop]
  exact h

/-- A mapping that calls no function is built from the pairs of its entries. -/
theorem unroll_of_plain {c : Context} {scope : Scope} {entries : List (String × Value)}
    (h : (Value.object entries).call? = none) :
    unroll c scope (.object entries) = unrollEntries c scope entries >>= build := by
  rcases entries with _ | ⟨⟨key, args⟩, _ | ⟨second, others⟩⟩
  · rw [unroll]
    simp
  · rw [Value.call?, Option.map_eq_none_iff] at h
    rw [unroll.eq_def]
    dsimp only
    rw [h]
  · rw [unroll]
    simp

section Laws

variable {α β γ : Type} (first : Unrolling α)

/-- One rewriting after another: the mappings of both are built. -/
theorem run_bind (next : α → Unrolling β) :
    (first >>= next).run = first.run.bind fun done =>
      (next done.1).run.map fun last => (last.1, done.2 ++ last.2) := rfl

/-- The result of a rewriting may be changed. -/
theorem bind_pure_eq_map (change : α → β) :
    (first >>= fun result => pure (change result)) = change <$> first := by
  have hmap : (change <$> first).run = first.run.map fun done => (change done.1, done.2) := rfl
  have hpure : ∀ result : β, (pure result : Unrolling β).run = some (result, []) := fun _ => rfl
  refine WriterT.ext _ _ ?_
  rw [run_bind, hmap, Option.map_eq_bind]
  simp only [hpure, Option.map_some, List.append_nil]
  rfl

/-- A result at hand is handed on. -/
theorem pure_bind_eq (result : α) (next : α → Unrolling β) :
    (pure result >>= next : Unrolling β) = next result := by
  have hrun : (pure result >>= next : Unrolling β).run =
      (next result).run.map fun last => (last.1, last.2) := rfl
  rw [Option.map_id'] at hrun
  exact hrun

/-- Mappings are built in the order of the steps, however these are grouped. -/
theorem bind_bind_eq (next : α → Unrolling β) (last : β → Unrolling γ) :
    (first >>= next) >>= last = first >>= fun result => next result >>= last := by
  refine WriterT.ext _ _ ?_
  simp only [run_bind, Option.bind_assoc, Option.map_bind, Option.bind_map, Option.map_map,
    Function.comp_def, List.append_assoc]

instance : LawfulMonad Unrolling :=
  .mk' Unrolling (fun _ => Option.map_id') pure_bind_eq bind_bind_eq (fun _ _ => rfl)
    (fun _ _ => rfl) (fun _ _ => rfl) (fun change first => bind_pure_eq_map first change)
    fun _ _ => rfl

end Laws

section Lists

/-- Items are run over one list after the other. -/
theorem forItems_append (body : Value → Unrolling (List (String × Value)))
    (items others : List Value) :
    forItems body (items ++ others) = do
      return (← forItems body items) ++ (← forItems body others) := by
  induction items with
  | nil => simp [forItems]
  | cons item items ih =>
    rw [List.cons_append, forItems, forItems, ih]
    simp only [bind_assoc, pure_bind, List.append_assoc]

/-- The pairs of a mapping are those of its first entries and then those of the
others. -/
theorem unrollEntries_append (c : Context) (scope : Scope)
    (entries others : List (String × Value)) :
    unrollEntries c scope (entries ++ others) = do
      return (← unrollEntries c scope entries) ++ (← unrollEntries c scope others) := by
  induction entries with
  | nil => simp [unrollEntries]
  | cons entry entries ih =>
    rw [List.cons_append, unrollEntries, unrollEntries, ih]
    simp only [bind_assoc, pure_bind, List.append_assoc]

end Lists

section Outcome

variable {α β : Type} {first : Unrolling α} {next : α → Unrolling β}

/-- Two rewritings come to a result if both do, and the mappings of both are
built. -/
theorem run_bind_eq_some_iff {result : β} {built : List (List String)} :
    (first >>= next).run = some (result, built) ↔ ∃ middle before after,
      first.run = some (middle, before) ∧ (next middle).run = some (result, after) ∧
        before ++ after = built := by
  rw [run_bind]
  simp only [Option.bind_eq_some_iff, Option.map_eq_some_iff, Prod.exists, Prod.mk.injEq]
  grind

/-- Builds a mapping of pairs at hand and further ones. -/
def buildAfter (output : List (String × Value)) (others : Unrolling (List (String × Value))) :
    Unrolling Value := do
  build (output ++ (← others))

/-- The first of the further pairs may be put to those at hand. -/
theorem buildAfter_append (output : List (String × Value))
    (here others : Unrolling (List (String × Value))) :
    buildAfter output (do return (← here) ++ (← others)) =
      here >>= fun early => buildAfter (output ++ early) others := by
  simp only [buildAfter, bind_assoc, pure_bind, List.append_assoc]

/-- A rewriting comes to a result, and no mapping built has a repeated key. -/
def Clean (first : Unrolling α) (result : α) : Prop :=
  ∃ built, first.run = some (result, built) ∧ ∀ keys ∈ built, keys.Nodup

/-- A diagnostic is right about a rewriting: unless a loop is malformed, it
names a key that a mapping built has repeatedly. -/
def Faulted (first : Unrolling α) (diagnostic : Diagnostic) : Prop :=
  ∀ result built, first.run = some (result, built) → ∃ key,
    diagnostic.fault = .duplicateKey key ∧ ∃ keys ∈ built, 2 ≤ keys.count key

/-- Nothing is built for a result at hand. -/
theorem Clean.pure (result : α) : Clean (pure result) result :=
  ⟨[], rfl, fun _ h => absurd h List.not_mem_nil⟩

/-- What is clean in both steps is clean. -/
theorem Clean.bind {middle : α} {result : β} (hfirst : first.Clean middle)
    (hnext : (next middle).Clean result) : (first >>= next).Clean result := by
  obtain ⟨before, hbefore, hbeforeKeys⟩ := hfirst
  obtain ⟨after, hafter, hafterKeys⟩ := hnext
  exact ⟨before ++ after, run_bind_eq_some_iff.mpr ⟨_, _, _, hbefore, hafter, rfl⟩,
    List.forall_mem_append.mpr ⟨hbeforeKeys, hafterKeys⟩⟩

/-- What is clean is so in both steps. -/
theorem Clean.exists_of_bind {result : β} (h : (first >>= next).Clean result) :
    ∃ middle, first.Clean middle ∧ (next middle).Clean result := by
  obtain ⟨built, hrun, hnodup⟩ := h
  obtain ⟨middle, before, after, hbefore, hafter, rfl⟩ := run_bind_eq_some_iff.mp hrun
  obtain ⟨hbeforeKeys, hafterKeys⟩ := List.forall_mem_append.mp hnodup
  exact ⟨middle, ⟨before, hbefore, hbeforeKeys⟩, after, hafter, hafterKeys⟩

/-- A rewriting comes to one result. -/
theorem Clean.unique {result other : α} (h : first.Clean result) (hother : first.Clean other) :
    result = other := by
  obtain ⟨built, hrun, -⟩ := h
  obtain ⟨others, hothers, -⟩ := hother
  cases hrun.symm.trans hothers
  rfl

/-- No diagnostic is right about a clean rewriting. -/
theorem Clean.not_faulted {result : α} {diagnostic : Diagnostic} (h : first.Clean result) :
    ¬first.Faulted diagnostic := by
  intro hfaulted
  obtain ⟨built, hrun, hnodup⟩ := h
  obtain ⟨key, -, keys, hkeys, hcount⟩ := hfaulted result built hrun
  have honce := List.nodup_iff_count_le_one.mp (hnodup keys hkeys) key
  omega

/-- Whatever comes later, a fault of the first step stays one. -/
theorem Faulted.bind {diagnostic : Diagnostic} (h : first.Faulted diagnostic) :
    (first >>= next).Faulted diagnostic := by
  intro result built hrun
  obtain ⟨middle, before, after, hbefore, -, rfl⟩ := run_bind_eq_some_iff.mp hrun
  obtain ⟨key, hfault, keys, hkeys, hcount⟩ := h middle before hbefore
  exact ⟨key, hfault, keys, List.mem_append_left _ hkeys, hcount⟩

/-- A fault of the second step is one. -/
theorem Faulted.bind_of_next {diagnostic : Diagnostic}
    (h : ∀ middle before, first.run = some (middle, before) → (next middle).Faulted diagnostic) :
    (first >>= next).Faulted diagnostic := by
  intro result built hrun
  obtain ⟨middle, before, after, hbefore, hafter, rfl⟩ := run_bind_eq_some_iff.mp hrun
  obtain ⟨key, hfault, keys, hkeys, hcount⟩ := h middle before hbefore result after hafter
  exact ⟨key, hfault, keys, List.mem_append_right _ hkeys, hcount⟩

/-- A fault after a clean step is one. -/
theorem Clean.faulted_bind {middle : α} {diagnostic : Diagnostic} (hfirst : first.Clean middle)
    (h : (next middle).Faulted diagnostic) : (first >>= next).Faulted diagnostic := by
  refine Faulted.bind_of_next fun other before hother => ?_
  obtain ⟨built, hbuilt, -⟩ := hfirst
  cases hother.symm.trans hbuilt
  exact h

/-- A malformed loop excuses every diagnostic. -/
theorem faulted_malformed (diagnostic : Diagnostic) :
    (malformed : Unrolling α).Faulted diagnostic := by
  intro result built hrun
  cases hrun

/-- Building a mapping is clean if its keys are distinct. -/
theorem clean_build {pairs : List (String × Value)} (h : Entries.Distinct pairs) :
    (build pairs).Clean (.object pairs) :=
  ⟨[Entries.keys pairs], rfl, List.forall_mem_singleton.mpr h⟩

/-- Only then it is clean. -/
theorem Clean.distinct_of_build {pairs : List (String × Value)} {result : Value}
    (h : (build pairs).Clean result) : result = .object pairs ∧ Entries.Distinct pairs := by
  obtain ⟨built, hrun, hnodup⟩ := h
  cases hrun
  exact ⟨rfl, hnodup _ List.mem_cons_self⟩

/-- A key that a mapping has repeatedly is at fault. -/
theorem faulted_build {pairs : List (String × Value)} {diagnostic : Diagnostic} {key : String}
    (hfault : diagnostic.fault = .duplicateKey key)
    (hcount : 2 ≤ (Entries.keys pairs).count key) : (build pairs).Faulted diagnostic := by
  intro result built hrun
  cases hrun
  exact ⟨key, hfault, _, List.mem_singleton_self _, hcount⟩

end Outcome

end Unrolling

/-- The document with its loops unrolled and the keys of every mapping built;
nothing if a loop is malformed. -/
def Template.unroll (template : Template) (settings : Settings) :
    Option (Value × List (List String)) :=
  (Unrolling.unroll (template.context settings) .root template.root).run

end StackTemplate
