import StackTemplate.Proofs.Locality
import StackTemplate.Proofs.LoopKeys

/-!
# Splitting a loop

A loop over two lists put together produces what two loops produce that stand
one after the other and run over one list each. The items of the two loops are
found independently, placeholder items depend on nothing but their expressions,
and keys are compared with all keys before them wherever these come from. So a
loop can be split without a trace in the expanded document.
-/

namespace StackTemplate

/-- A mapping with a loop in it calls no function. -/
theorem Value.call?_of_mem_forEach {entries : List (String × Value)} {entry : String × Value}
    (hentry : entry ∈ entries) (hkey : Intrinsic.isForEachKey entry.1 = true) :
    (Value.object entries).call? = none := by
  cases hcall : (Value.object entries).call? with
  | none => rfl
  | some call =>
    obtain ⟨key, heq, hkind⟩ := eq_of_call? hcall
    cases heq
    rw [List.mem_singleton.mp hentry, Intrinsic.isForEachKey_of_functionOfKey? hkind] at hkey
    cases hkey

namespace Unrolling

variable (c : Context) (scope : Scope)

/-- A loop over a written list. -/
def listLoop (name : String) (items : List Value) (body : List (String × Value)) : Value :=
  .array [.string name, .array items, .object body]

/-- A loop over two lists put together runs over one and then over the other. -/
theorem unrollLoop_append (name : String) (items others : List Value)
    (body : List (String × Value)) :
    unrollLoop c scope (listLoop name (items ++ others) body) = do
      return (← unrollLoop c scope (listLoop name items body)) ++
        (← unrollLoop c scope (listLoop name others body)) := by
  simp only [listLoop, unrollLoop, loopItems, pure_bind, List.flatMap_append, forItems_append]

/-- In a mapping, a loop over two lists put together may be replaced by two loops
that stand one after the other. -/
theorem unrollEntries_split {key first second : String}
    (hkey : Intrinsic.isForEachKey key = true) (hfirst : Intrinsic.isForEachKey first = true)
    (hsecond : Intrinsic.isForEachKey second = true) (name : String) (items others : List Value)
    (body before after : List (String × Value)) :
    unrollEntries c scope (before ++ (key, listLoop name (items ++ others) body) :: after) =
      unrollEntries c scope (before ++ (first, listLoop name items body) ::
        (second, listLoop name others body) :: after) := by
  have hloop : ∀ {key : String}, Intrinsic.isForEachKey key = true →
      Intrinsic.ofKey? key = some .forEach := Intrinsic.ofKey?_eq_forEach_iff.mpr
  rw [unrollEntries_append, unrollEntries_append]
  simp only [unrollEntries, if_pos (hloop hkey), if_pos (hloop hfirst), if_pos (hloop hsecond),
    unrollLoop_append, bind_assoc, pure_bind, List.append_assoc]

end Unrolling

namespace Expansion

open Unrolling (listLoop)

/-- Splitting a loop is invisible. In a mapping, let a loop over two lists put
together be replaced by two loops over one list each that stand in its place, one
after the other and with the same variable and body. In every context and scope,
one mapping is expanded to a value if and only if the other is. -/
theorem expand_split_loop (c : Context) (scope : Scope) (path : Path)
    (before after body : List (String × Value)) (key first second name : String)
    (items others : List Value) (hkey : Intrinsic.isForEachKey key = true)
    (hfirst : Intrinsic.isForEachKey first = true) (hsecond : Intrinsic.isForEachKey second = true)
    (cache : CollectionCache) (hcache : cache.Reached) (value : Value) :
    outcome (expand c scope path
        (.object (before ++ (key, listLoop name (items ++ others) body) :: after))) cache =
      .ok value ↔
    outcome (expand c scope path (.object (before ++ (first, listLoop name items body) ::
        (second, listLoop name others body) :: after))) cache = .ok value := by
  have hjoined : (key, listLoop name (items ++ others) body) ∈
      before ++ (key, listLoop name (items ++ others) body) :: after := by simp
  have hsplit : (first, listLoop name items body) ∈ before ++ (first, listLoop name items body) ::
      (second, listLoop name others body) :: after := by simp
  rw [(agrees c _ scope path).outcome_eq_ok_iff hcache,
    (agrees c _ scope path).outcome_eq_ok_iff hcache,
    Unrolling.unroll_of_plain (Value.call?_of_mem_forEach hjoined hkey),
    Unrolling.unroll_of_plain (Value.call?_of_mem_forEach hsplit hfirst),
    Unrolling.unrollEntries_split c scope hkey hfirst hsecond]

/-- A queue for every name. -/
def queueBody : List (String × Value) :=
  [("Queue${Name}", .object [("Name", .object [("Ref", .string "Name")])])]

/-- Two queues by two loops, after placeholder items were asked for. -/
theorem expand_split_queues :
    (CollectionCache.placeholders {} subnets).2.Reached ∧
    outcome (expand ⟨[], [], "us-east-1"⟩ .root [] (.object [("Topic", .null),
      ("Fn::ForEach::Early", listLoop "Name" [.string "A"] queueBody),
      ("Fn::ForEach::Late", listLoop "Name" [.null, .string "B"] queueBody)]))
        (CollectionCache.placeholders {} subnets).2 =
      .ok (.object [("Topic", .null), ("QueueA", .object [("Name", .string "A")]),
        ("QueueB", .object [("Name", .string "B")])]) := by
  have hreached : (CollectionCache.placeholders {} subnets).2.Reached := .request .start subnets
  have hsplit := expand_split_loop ⟨[], [], "us-east-1"⟩ .root [] [("Topic", .null)] [] queueBody
    "Fn::ForEach::Queues" "Fn::ForEach::Early" "Fn::ForEach::Late" "Name" [.string "A"]
    [.null, .string "B"] (by decide) (by decide) (by decide) _ hreached
  exact ⟨hreached, (hsplit _).mp rfl⟩

end Expansion

end StackTemplate
