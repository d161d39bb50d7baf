import StackTemplate.Proofs.ExpansionSteps

/-!
# Locality of the expansion

A step of the expansion cannot tell a cache that was filled by earlier requests
from an empty one, and it leaves a cache of this kind. So what happens elsewhere
in a document never changes what a part of it expands to.
-/

namespace StackTemplate

namespace Expansion

open CollectionCache (Reached serves_reached)

variable {α β : Type}

/-- A template is expanded from the empty cache. -/
theorem expand_eq_outcome (template : Template) (settings : Settings) :
    template.expand settings =
      outcome (expand (template.context settings) .root [] template.root) {} := by
  unfold Template.expand outcome
  cases (expand (template.context settings) .root [] template.root).run {} <;> rfl

/-- One step after another, if the second one does not mind the cache that the
first one leaves. -/
theorem outcome_bind {step : Expansion α} {next : α → Expansion β} {cache : CollectionCache}
    (h : ∀ result later, step.run cache = .ok (result, later) →
      outcome (next result) later = outcome (next result) {}) :
    outcome (step >>= next) cache =
      outcome step cache >>= fun result => outcome (next result) {} := by
  cases hrun : step.run cache with
  | error diagnostic =>
    rw [outcome, outcome, StateT.run_bind, hrun]
    rfl
  | ok done =>
    have hnext : outcome (step >>= next) cache = outcome (next done.1) done.2 := by
      rw [outcome, StateT.run_bind, hrun]
      rfl
    have hstep : outcome step cache = .ok done.1 := by
      rw [outcome, hrun]
      rfl
    rw [hnext, h done.1 done.2 hrun, hstep]
    rfl

/-- A step that comes to the same end from all caches that requests can lead to
leaves such a cache. -/
theorem Meets.reached {step : Expansion α} {good : α → Prop} {bad : Diagnostic → Prop}
    (h : Meets Reached step good bad) {cache later : CollectionCache} {result : α}
    (hcache : cache.Reached) (hrun : step.run cache = .ok (result, later)) : later.Reached := by
  cases h with
  | fails _ hfails => cases hrun.symm.trans (hfails cache hcache)
  | gives _ hgives =>
    obtain ⟨_, hlater, hhere⟩ := hgives cache hcache
    cases hrun.symm.trans hhere
    exact hlater

/-- The items of a list are expanded as if each stood alone, up to the first one
that ends with a diagnostic. -/
theorem outcome_expandItems (c : Context) (scope : Scope) (path : Path) (position : Nat)
    (items : List Value) {cache : CollectionCache} (hcache : cache.Reached) :
    outcome (expandItems c scope path position items) cache =
      (items.zipIdx position).mapM fun item =>
        outcome (expand c scope (path ++ [.index item.2]) item.1) {} := by
  induction items generalizing position cache with
  | nil => rfl
  | cons item items ih =>
    have hitem := agrees c item scope (path ++ [.index position])
    have hlater : ∀ (first : Value) (later : CollectionCache), outcome (do
        return first :: (← expandItems c scope path (position + 1) items)) later =
          outcome (expandItems c scope path (position + 1) items) later >>=
            fun others => .ok (first :: others) := fun _ _ => outcome_bind fun _ _ _ => rfl
    have hhere := outcome_bind fun first later hrun => by
      rw [hlater first later, hlater first {}, ih _ (hitem.reached hcache hrun), ih _ .start]
    rw [expandItems, hhere, hitem.outcome_eq hcache .start, List.zipIdx_cons, List.mapM_cons]
    simp only [hlater, ih (position + 1) .start]
    rfl

/-- Expansion is local. From any cache that requests can lead to, a part of a
document comes to what it comes to from the empty one, and the cache it leaves is
again such a cache. So a loop runs over the same items and an expression gets
the same placeholder items wherever and however often it occurs, and a list is
expanded item by item. -/
theorem expand_of_reached (c : Context) (scope : Scope) (path : Path) (value : Value)
    (cache : CollectionCache) (hcache : cache.Reached) :
    outcome (expand c scope path value) cache = outcome (expand c scope path value) {} ∧
    (∀ result later, (expand c scope path value).run cache = .ok (result, later) →
      later.Reached) ∧
    (∀ e collection, outcome (collectionItems e path collection) cache =
      outcome (collectionItems e path collection) {}) ∧
    (∀ expression, (cache.placeholders expression).1 =
      (CollectionCache.placeholders {} expression).1) ∧
    ∀ items, outcome (expand c scope path (.array items)) cache =
      (items.zipIdx.mapM fun item =>
        outcome (expand c scope (path ++ [.index item.2]) item.1) {}).map .array := by
  have hvalue := agrees c value scope path
  have hitems : ∀ e collection, Follows Reached (collectionItems e path collection) _ _ :=
    fun e collection => collectionItems_follows e (serves_reached collection)
      (fun part _ => serves_reached part) path
  refine ⟨hvalue.outcome_eq hcache .start, fun _ _ hrun => hvalue.reached hcache hrun,
    fun e collection => (hitems e collection).outcome_eq hcache .start, fun expression => ?_,
    fun items => ?_⟩
  · rw [(serves_reached expression cache hcache).1, (serves_reached expression {} .start).1]
  · have hlist : outcome (expand c scope path (.array items)) cache =
        outcome (expandItems c scope path 0 items) cache >>= fun expanded =>
          .ok (Value.array expanded) := by
      rw [expand_array]
      exact outcome_bind fun _ _ _ => rfl
    rw [hlist, outcome_expandItems c scope path 0 items hcache]
    rfl

/-- The subnets of a network, which are known only after deployment. -/
def subnets : Value := .object [("Fn::GetAtt", .array [.string "Vpc", .string "Subnets"])]

/-- A route for every subnet. -/
def routes : Value :=
  .object [("Fn::ForEach::Routes", .array [.string "Name", subnets,
    .object [("Route${Name}", .object [("Subnet", .object [("Ref", .string "Name")])])]])]

theorem expand_routes_of_reached :
    (CollectionCache.placeholders {} subnets).2.Reached ∧
      outcome (expand ⟨[], [], "us-east-1"⟩ .root [] routes)
          (CollectionCache.placeholders {} subnets).2 =
        outcome (expand ⟨[], [], "us-east-1"⟩ .root [] routes) {} := by
  have hreached : (CollectionCache.placeholders {} subnets).2.Reached := .request .start subnets
  exact ⟨hreached, (expand_of_reached _ _ _ routes _ hreached).1⟩

end Expansion

end StackTemplate
