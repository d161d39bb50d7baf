import StackTemplate.Proofs.LoopKeys
import StackTemplate.Proofs.LoopVariables

/-!
# Static values

A value without reserved keys says what it is. There is nothing to resolve in it,
so it is resolved to itself whatever is known. This is why the JSON text of a
value may be written while a document is expanded: it is written as soon as the
expanded value is static, and then it is the text that the call resolves to
anywhere.
-/

namespace StackTemplate

/-- A value without reserved keys calls no function. -/
theorem Value.call?_of_static {value : Value} (h : value.usesIntrinsic = false) :
    value.call? = none := by
  cases hcall : value.call? with
  | none => rfl
  | some call =>
    obtain ⟨key, rfl, hkind⟩ := eq_of_call? hcall
    have hreserved := (Option.filter_eq_some_iff.mp hkind).1
    have hfree := (usesIntrinsic_object_eq_false.mp h _ List.mem_cons_self).1
    rw [hfree] at hreserved
    cases hreserved

namespace Evaluator

variable {e : Evaluator}

/-- A mapping that calls no function is resolved entry by entry. -/
theorem resolve_of_plain {entries : List (String × Value)}
    (h : (Value.object entries).call? = none) :
    e.resolve (.object entries) = (allEntries (entryOutcomes e entries)).map .object := by
  by_cases hsingle : ∃ key args, entries = [(key, args)]
  · obtain ⟨key, args, rfl⟩ := hsingle
    have hkey : Intrinsic.functionOfKey? key = none := Option.map_eq_none_iff.mp h
    rw [resolve.eq_def]
    dsimp only
    rw [hkey]
    dsimp only [entryOutcomes, allEntries]
    cases e.resolve args <;> rfl
  · exact resolve_object fun key args hentries => hsingle ⟨key, args, hentries⟩

/-- Items that are resolved to themselves stay together. -/
theorem allItems_of_fixed {items : List Value}
    (h : ∀ item ∈ items, e.resolve item = .ok item) :
    allItems (itemOutcomes e items) = .ok items := by
  rw [allItems_eq_ok_iff, itemOutcomes_eq_map]
  exact List.map_congr_left h

/-- Entries whose values are resolved to themselves stay together. -/
theorem allEntries_of_fixed {entries : List (String × Value)}
    (h : ∀ entry ∈ entries, e.resolve entry.2 = .ok entry.2) :
    allEntries (entryOutcomes e entries) = .ok entries := by
  induction entries with
  | nil => rfl
  | cons entry entries ih =>
    obtain ⟨hentry, hentries⟩ := List.forall_mem_cons.mp h
    rw [entryOutcomes, hentry, allEntries, ih hentries]
    rfl

/-- A value without reserved keys is resolved to itself. -/
theorem resolve_eq_self {value : Value} (h : value.usesIntrinsic = false) :
    e.resolve value = .ok value := by
  induction value using Value.partInduction with
  | step value ih =>
    cases value with
    | array items =>
      have hitems := Value.usesIntrinsic_array_eq_false.mp h
      rw [resolve_array, allItems_of_fixed fun item hitem => ih item (.item hitem)
        (hitems item hitem)]
      rfl
    | object entries =>
      have hentries := Value.usesIntrinsic_object_eq_false.mp h
      rw [resolve_of_plain (Value.call?_of_static h), allEntries_of_fixed fun entry hentry =>
        ih entry.2 (.entry hentry) (hentries entry hentry).2]
      rfl
    | _ => rfl

/-- The JSON text of a static value is written as it is. -/
theorem resolve_toJsonString {value : Value} (h : value.usesIntrinsic = false) :
    e.resolve (.object [("Fn::ToJsonString", value)]) = .ok (.string (Json.render value)) := by
  have hcall : e.resolve (.object [("Fn::ToJsonString", value)]) = jsonText (e.resolve value) :=
    rfl
  rw [hcall, resolve_eq_self h]
  rfl

end Evaluator

namespace Expansion

/-- A rebuilt call is a text exactly if it writes a static value as JSON. -/
theorem rebuild_toJsonString_eq_string_iff {args : Value} {text : String} :
    rebuild "Fn::ToJsonString" args = .string text ↔
      args.usesIntrinsic = false ∧ Json.render args = text := by
  have hkind : Intrinsic.functionOfKey? "Fn::ToJsonString" = some .toJsonString := by decide
  rw [rebuild]
  cases args.usesIntrinsic <;> simp [hkind]

/-- Nothing follows the expansion of an argument but the call's being rebuilt. -/
theorem run_expand_toJsonString (c : Context) (scope : Scope) (path : Path) (args : Value)
    (cache later : CollectionCache) (result : Value) :
    (expand c scope path (.object [("Fn::ToJsonString", args)])).run cache =
        .ok (result, later) ↔
      ∃ expanded, (expand c scope (path ++ [.key "Fn::ToJsonString"]) args).run cache =
          .ok (expanded, later) ∧ rebuild "Fn::ToJsonString" expanded = result := by
  have hcall : expand c scope path (.object [("Fn::ToJsonString", args)]) = (do
      let expanded ← expand c scope (path ++ [.key "Fn::ToJsonString"]) args
      return rebuild "Fn::ToJsonString" expanded) := by
    rw [expand.eq_def]
    rfl
  rw [hcall, StateT.run_bind]
  cases (expand c scope (path ++ [.key "Fn::ToJsonString"]) args).run cache with
  | error diagnostic =>
    constructor
    · intro h
      cases h
    · rintro ⟨expanded, h, -⟩
      cases h
  | ok done =>
    obtain ⟨expanded, after⟩ := done
    constructor
    · intro h
      cases h
      exact ⟨expanded, rfl, rfl⟩
    · rintro ⟨other, h, rfl⟩
      cases h
      rfl

/-- Expansion and resolution agree on static values. A value without reserved keys
is resolved to itself, whatever is known. And a call that writes a value as JSON is
expanded to a text, in any scope, exactly if the expanded value is static and the
call with the expanded value resolves to that text, again whatever is known. -/
theorem resolve_static_expand_toJsonString :
    (∀ (e : Evaluator) (value : Value), value.usesIntrinsic = false → e.resolve value = .ok value) ∧
    ∀ (c : Context) (scope : Scope) (path : Path) (args : Value) (cache later : CollectionCache)
      (text : String),
      (expand c scope path (.object [("Fn::ToJsonString", args)])).run cache =
          .ok (.string text, later) ↔
        ∃ expanded, (expand c scope (path ++ [.key "Fn::ToJsonString"]) args).run cache =
            .ok (expanded, later) ∧ expanded.usesIntrinsic = false ∧
          ∀ e : Evaluator,
            e.resolve (.object [("Fn::ToJsonString", expanded)]) = .ok (.string text) := by
  refine ⟨fun e value => Evaluator.resolve_eq_self, ?_⟩
  intro c scope path args cache later text
  rw [run_expand_toJsonString]
  constructor
  · rintro ⟨expanded, hrun, hrebuilt⟩
    obtain ⟨hstatic, rfl⟩ := rebuild_toJsonString_eq_string_iff.mp hrebuilt
    exact ⟨expanded, hrun, hstatic, fun e => Evaluator.resolve_toJsonString hstatic⟩
  · rintro ⟨expanded, hrun, hstatic, hresolved⟩
    have hhere := hresolved ⟨c, scope, false⟩
    rw [Evaluator.resolve_toJsonString hstatic] at hhere
    cases hhere
    exact ⟨expanded, hrun, rebuild_toJsonString_eq_string_iff.mpr ⟨hstatic, rfl⟩⟩

/-- A tag named by the variable of a loop. The key of a loop without a name is not
reserved. -/
def tagBody : Value :=
  .object [("${Name}", .array [.object [("Ref", .string "Name")], .null]),
    ("Fn::ForEach::", .integer 7)]

/-- The tag for one name. -/
def blueTag : Value :=
  .object [("Blue", .array [.string "Blue", .null]), ("Fn::ForEach::", .integer 7)]

theorem resolve_static_expand_tagBody :
    blueTag.usesIntrinsic = false ∧ (∀ e : Evaluator, e.resolve blueTag = .ok blueTag) ∧
    (expand ⟨[], [], "us-east-1"⟩ (Scope.root.child.bind "Name" (.string "Blue")) []
        (.object [("Fn::ToJsonString", tagBody)])).run {} =
      .ok (.string "\x7b\"Blue\":[\"Blue\",null],\"Fn::ForEach::\":7\x7d", {}) := by
  have hstatic : blueTag.usesIntrinsic = false := by decide
  obtain ⟨hresolve, hexpand⟩ := resolve_static_expand_toJsonString
  refine ⟨hstatic, fun e => hresolve e blueTag hstatic, (hexpand _ _ _ _ _ _ _).mpr ?_⟩
  exact ⟨blueTag, rfl, hstatic, fun e => Evaluator.resolve_toJsonString hstatic⟩

end Expansion

end StackTemplate
