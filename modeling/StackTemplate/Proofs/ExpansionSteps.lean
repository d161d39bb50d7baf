import Mathlib.Data.List.Nodup
import StackTemplate.Proofs.Locations

/-!
# What an expansion does

One walk over the document says what every step of the expansion can do. A step
is compared with the unrolling, from all caches of a kind at once: it comes to
the result of a clean unrolling, or it ends with a diagnostic that is right about
the unrolling and stands at the entry at fault. From which of the caches it starts
makes no difference, if they serve the expressions that stand in loops.
-/

namespace StackTemplate

namespace Intrinsic

/-- The keys that ask for a loop. -/
theorem ofKey?_eq_forEach_iff {key : String} :
    ofKey? key = some .forEach ↔ isForEachKey key = true := by
  unfold ofKey?
  split
  case h_19 => cases isForEachKey key <;> simp
  all_goals decide

/-- All other keys. -/
theorem ofKey?_ne_forEach_iff {key : String} :
    ofKey? key ≠ some .forEach ↔ isForEachKey key = false := by
  rw [ne_eq, ofKey?_eq_forEach_iff, Bool.not_eq_true]

end Intrinsic

namespace CollectionCache

/-- Every expression in the cache has the items that it would get afresh. -/
def Faithful (cache : CollectionCache) : Prop :=
  ∀ entry ∈ cache.entries, entry.2 = freshItems entry.1

/-- The cache makes no difference to the items handed out. -/
theorem Faithful.placeholders {cache : CollectionCache} (h : cache.Faithful)
    (expression : Value) : (cache.placeholders expression).1 = freshItems expression.digest ∧
      (cache.placeholders expression).2.Faithful := by
  unfold CollectionCache.placeholders
  dsimp only
  split
  · next items hknown => exact ⟨h _ (Entries.mem_of_get? hknown), h⟩
  · exact ⟨rfl, List.forall_mem_cons.mpr ⟨rfl, h⟩⟩

/-- The empty cache holds nothing. -/
theorem faithful_empty : ({} : CollectionCache).Faithful :=
  fun _ h => absurd h List.not_mem_nil

/-- The caches that requests for placeholder items can lead to. -/
inductive Reached : CollectionCache → Prop where
  /-- At first the cache is empty. -/
  | start : Reached {}
  /-- A request may note the items that it hands out. -/
  | request {cache : CollectionCache} (h : Reached cache) (expression : Value) :
      Reached (cache.placeholders expression).2

/-- Whatever was asked for, the items noted are those handed out afresh. -/
theorem Reached.faithful {cache : CollectionCache} (h : cache.Reached) : cache.Faithful := by
  induction h with
  | start => exact faithful_empty
  | request _ expression ih => exact (ih.placeholders expression).2

/-- Caches of a kind serve an expression: it gets the items that it would get
afresh, and the cache stays of this kind. -/
def Serves (caches : CollectionCache → Prop) (expression : Value) : Prop :=
  ∀ cache, caches cache → (cache.placeholders expression).1 = freshItems expression.digest ∧
    caches (cache.placeholders expression).2

/-- Earlier requests make no difference to what is handed out. -/
theorem serves_reached (expression : Value) : Serves Reached expression :=
  fun _ hcache => ⟨(hcache.faithful.placeholders expression).1, hcache.request expression⟩

/-- Caches of a kind serve every expression that stands in a loop of a value. -/
def ServesLoops (caches : CollectionCache → Prop) (value : Value) : Prop :=
  ∀ entries, .object entries ∈ value.parts → ∀ entry ∈ entries,
    Intrinsic.isForEachKey entry.1 = true → ∀ expression : Value, expression.Within entry.2 →
      Serves caches expression

/-- The loops of a part are among those of the value. -/
theorem ServesLoops.part {caches : CollectionCache → Prop} {part value : Value}
    (h : ServesLoops caches value) (hpart : part.Within value) : ServesLoops caches part :=
  fun entries hentries => h entries (Value.parts_subset hpart.mem_parts hentries)

end CollectionCache

namespace Expansion

open CollectionCache (Serves ServesLoops)
open Unrolling (loopItems malformed unroll unrollEntries unrollItems unrollLoop)

variable {α β : Type} {caches : CollectionCache → Prop}

/-- From whichever of the caches it starts, an expansion comes to one end: a good
result, which leaves one of the caches, or a diagnostic that is in order. -/
inductive Meets (caches : CollectionCache → Prop) (step : Expansion α) (good : α → Prop)
    (bad : Diagnostic → Prop) : Prop where
  /-- It hands back a result. -/
  | gives {result : α} (h : good result) (hrun : ∀ cache, caches cache →
      ∃ later, caches later ∧ step.run cache = .ok (result, later))
  /-- It ends with a diagnostic. -/
  | fails {diagnostic : Diagnostic} (h : bad diagnostic)
      (hrun : ∀ cache, caches cache → step.run cache = .error diagnostic)

namespace Meets

variable {step : Expansion α} {next : α → Expansion β} {good : α → Prop} {after : β → Prop}
  {early bad : Diagnostic → Prop}

/-- A result at hand. -/
theorem pure {result : α} (h : good result) : Meets caches (pure result) good bad :=
  .gives h fun cache hcache => ⟨cache, hcache, rfl⟩

/-- The end of an expansion. -/
theorem fail {fault : Fault} {path : Path} {node : Value} (h : bad ⟨fault, path, node⟩) :
    Meets caches (fail fault path node) good bad :=
  .fails h fun _ _ => rfl

/-- One expansion after another. -/
theorem bind (hstep : Meets caches step good early)
    (hearly : ∀ diagnostic, early diagnostic → bad diagnostic)
    (hnext : ∀ result, good result → Meets caches (next result) after bad) :
    Meets caches (step >>= next) after bad := by
  cases hstep with
  | @fails diagnostic hbad hrun =>
    refine .fails (hearly diagnostic hbad) fun cache hcache => ?_
    rw [StateT.run_bind, hrun cache hcache]
    rfl
  | @gives result hgood hrun =>
    have hboth : ∀ cache, caches cache → ∃ later, caches later ∧
        (step >>= next).run cache = (next result).run later := by
      intro cache hcache
      obtain ⟨later, hlater, hhere⟩ := hrun cache hcache
      refine ⟨later, hlater, ?_⟩
      rw [StateT.run_bind, hhere]
      rfl
    cases hnext result hgood with
    | fails hbad hfails =>
      refine .fails hbad fun cache hcache => ?_
      obtain ⟨later, hlater, hthen⟩ := hboth cache hcache
      exact hthen.trans (hfails later hlater)
    | gives hafter hgives =>
      refine .gives hafter fun cache hcache => ?_
      obtain ⟨later, hlater, hthen⟩ := hboth cache hcache
      rw [hthen]
      exact hgives later hlater

/-- Less may be asked. -/
theorem mono {other : α → Prop} (h : Meets caches step good early)
    (hgood : ∀ result, good result → other result)
    (hearly : ∀ diagnostic, early diagnostic → bad diagnostic) : Meets caches step other bad := by
  cases h with
  | gives hresult hrun => exact .gives (hgood _ hresult) hrun
  | fails hdiagnostic hrun => exact .fails (hearly _ hdiagnostic) hrun

end Meets

/-- An expansion follows an unrolling: it succeeds with the result of a clean one,
and its diagnostic is right about any other and stands where the fault is. -/
def Follows (caches : CollectionCache → Prop) (step : Expansion α) (reference : Unrolling α)
    (located : Diagnostic → Prop) : Prop :=
  Meets caches step reference.Clean fun diagnostic =>
    reference.Faulted diagnostic ∧ located diagnostic

namespace Follows

variable {step : Expansion α} {next : α → Expansion β} {first : Unrolling α}
  {later : α → Unrolling β} {located others : Diagnostic → Prop}

/-- A result at hand. -/
theorem pure (result : α) : Follows caches (pure result) (pure result) located :=
  Meets.pure (.pure result)

/-- A malformed loop. -/
theorem fail {fault : Fault} {path : Path} {node : Value} (h : located ⟨fault, path, node⟩) :
    Follows caches (Expansion.fail fault path node : Expansion α) malformed located :=
  Meets.fail ⟨Unrolling.faulted_malformed _, h⟩

/-- One step after another. -/
theorem bind (hstep : Follows caches step first located)
    (hnext : ∀ result, first.Clean result → Follows caches (next result) (later result) located) :
    Follows caches (step >>= next) (first >>= later) located := by
  refine Meets.bind hstep (fun _ h => ⟨h.1.bind, h.2⟩) fun result hresult => ?_
  exact Meets.mono (hnext result hresult) (fun _ h => hresult.bind h)
    fun _ h => ⟨hresult.faulted_bind h.1, h.2⟩

/-- Where a diagnostic stands may be said in other words. -/
theorem imp (h : Follows caches step first located)
    (hlocated : ∀ diagnostic, located diagnostic → others diagnostic) :
    Follows caches step first others :=
  Meets.mono h (fun _ h => h) fun _ h => ⟨h.1, hlocated _ h.2⟩

end Follows

section Collections

variable (e : Evaluator) {located : Diagnostic → Prop}

/-- Placeholder items do not depend on the cache. -/
theorem placeholders_follows {expression : Value} (h : Serves caches expression) :
    Follows caches (placeholders expression)
      (pure (CollectionCache.freshItems expression.digest)) located := by
  refine .gives (.pure _) fun cache hcache => ?_
  obtain ⟨hitems, hlater⟩ := h cache hcache
  refine ⟨_, hlater, ?_⟩
  rw [← hitems]
  rfl

/-- The items of a written list are what they stand for. -/
theorem listItems_follows {items : List Value} (h : ∀ item ∈ items, Serves caches item) :
    Follows caches (listItems e items) (pure (items.flatMap (Unrolling.listedItem e))) located := by
  induction items with
  | nil => exact .pure []
  | cons item items ih =>
    have hitems := ih fun other hother => h other (List.mem_cons_of_mem _ hother)
    have hrest : ∀ here, Follows caches (do return here ++ (← listItems e items))
        (pure (here ++ items.flatMap (Unrolling.listedItem e))) located :=
      fun here => hitems.bind fun others _ => .pure (here ++ others)
    rw [listItems, List.flatMap_cons, Unrolling.listedItem]
    cases e.resolve item with
    | error _ =>
      rw [map_eq_pure_bind, bind_assoc]
      exact (placeholders_follows (h item List.mem_cons_self)).bind
        fun fresh _ => hrest (fresh.take 1)
    | ok value => cases value with
      | null => exact hrest []
      | _ => exact hrest [_]

/-- A loop runs over the same items, or its collection is at fault. -/
theorem collectionItems_follows {collection : Value} (hserves : Serves caches collection)
    (hinside : ∀ part : Value, part.Within collection → Serves caches part) (path : Path) :
    Follows caches (collectionItems e path collection) (loopItems e collection)
      fun diagnostic => diagnostic = ⟨.collectionNotList, path, collection⟩ ∧
        loopItems e collection = malformed := by
  cases collection with
  | array items => exact listItems_follows e fun item hitem => hinside item (.item hitem)
  | object entries =>
    unfold collectionItems loopItems
    dsimp only
    split
    · cases e.resolve (.object entries) with
      | error _ => exact placeholders_follows hserves
      | ok value => cases value with
        | array items => exact .pure items
        | _ => exact .fail ⟨rfl, rfl⟩
    · exact .fail ⟨rfl, rfl⟩
  | _ => exact .fail ⟨rfl, rfl⟩

end Collections

section Keys

variable {output pairs : List (String × Value)}

/-- A key that is there already is repeated if it is added. -/
theorem two_le_count_keys {key : String} (h : Entries.contains key output = true) (value : Value)
    (later : List (String × Value)) :
    2 ≤ (Entries.keys (output ++ (key, value) :: later)).count key := by
  have hkey : 1 ≤ (Entries.keys output).count key :=
    List.count_pos_iff.mpr (Entries.contains_iff_mem_keys.mp h)
  have hkeys : Entries.keys (output ++ (key, value) :: later) =
      Entries.keys output ++ key :: Entries.keys later := List.map_append
  rw [hkeys, List.count_append, List.count_cons_self]
  omega

/-- A diagnostic rejects pairs from one source: it stands at the source and names
the first key among them that is there already. -/
def Rejects (path : Path) (sourceKey : String) (source : Value)
    (output pairs : List (String × Value)) (diagnostic : Diagnostic) : Prop :=
  ∃ early key value later, pairs = early ++ (key, value) :: later ∧
    Entries.Distinct (output ++ early) ∧ Entries.contains key (output ++ early) = true ∧
    diagnostic = ⟨.duplicateKey key, path ++ [.key sourceKey], source⟩

section Rejection

variable {path : Path} {sourceKey : String} {source : Value} {diagnostic : Diagnostic}

/-- Later pairs make no difference to a rejection. -/
theorem Rejects.append (h : Rejects path sourceKey source output pairs diagnostic)
    (others : List (String × Value)) :
    Rejects path sourceKey source output (pairs ++ others) diagnostic := by
  obtain ⟨early, key, value, later, rfl, hrest⟩ := h
  refine ⟨early, key, value, later ++ others, ?_, hrest⟩
  rw [List.append_assoc, List.cons_append]

/-- A pair that could be added may be counted among those rejected. -/
theorem Rejects.cons {pair : String × Value}
    (h : Rejects path sourceKey source (output ++ [pair]) pairs diagnostic) :
    Rejects path sourceKey source output (pair :: pairs) diagnostic := by
  obtain ⟨early, key, value, later, rfl, hrest⟩ := h
  rw [List.append_assoc, List.singleton_append] at hrest
  exact ⟨pair :: early, key, value, later, rfl, hrest⟩

/-- A rejection is right about the mapping that is built of the pairs and of any
further ones. -/
theorem Rejects.faulted (h : Rejects path sourceKey source output pairs diagnostic)
    (others : Unrolling (List (String × Value))) :
    (others.buildAfter (output ++ pairs)).Faulted diagnostic := by
  refine .bind_of_next fun late _ _ => ?_
  obtain ⟨early, key, value, later, hpairs, -, hknown, rfl⟩ := h.append late
  refine Unrolling.faulted_build rfl ?_
  rw [List.append_assoc, hpairs, ← List.append_assoc]
  exact two_le_count_keys hknown value later

/-- If the pairs of an entry are rejected, the diagnostic stands at the entry. -/
theorem Rejects.locatedFrom {c : Context} {scope : Scope} {before after : List (String × Value)}
    (h : Rejects path sourceKey source output pairs diagnostic)
    (houtput : (unrollEntries c scope before).Clean output)
    (hpairs : (unrollEntries c scope [(sourceKey, source)]).Clean pairs) :
    LocatedFrom c scope path (.object (before ++ (sourceKey, source) :: after)) diagnostic := by
  obtain ⟨early, key, value, later, rfl, hdistinct, hcontains, rfl⟩ := h
  have hknown := Entries.contains_iff_mem_keys.mp hcontains
  have hdescribes : Describes c scope (before ++ (sourceKey, source) :: after) sourceKey source
      (.duplicateKey key) source := .repeated rfl houtput hpairs hdistinct hknown
  exact hdescribes.locatedFrom (List.mem_append_right _ List.mem_cons_self)

end Rejection

/-- Pairs from one source were added: they stand at the end, and the keys are
distinct, or a key that is repeated is reported. -/
def Adds (caches : CollectionCache → Prop) (step : Expansion (List (String × Value)))
    (path : Path) (source : String × Value) (output pairs : List (String × Value)) : Prop :=
  Meets caches step (fun result => result = output ++ pairs ∧ Entries.Distinct result)
    (Rejects path source.1 source.2 output pairs)

/-- Adding an entry keeps the keys distinct or reports one that is repeated. -/
theorem insertUnique_adds (hdistinct : Entries.Distinct output) (path : Path)
    (source : String × Value) (key : String) (value : Value) :
    Adds caches (insertUnique path source.1 source.2 output key value) path source output
      [(key, value)] := by
  unfold insertUnique
  split
  · next hknown =>
    rw [← List.append_nil output] at hdistinct hknown
    exact .fail ⟨[], key, value, [], rfl, hdistinct, hknown, rfl⟩
  · next hnew => exact .pure ⟨rfl, hdistinct.concat hnew value⟩

/-- Adding entries keeps the keys distinct or reports one that is repeated. -/
theorem insertAll_adds (hdistinct : Entries.Distinct output) (path : Path)
    (source : String × Value) (pairs : List (String × Value)) :
    Adds caches (insertAll path source.1 source.2 output pairs) path source output pairs := by
  induction pairs generalizing output with
  | nil => exact .pure ⟨(List.append_nil output).symm, hdistinct⟩
  | cons pair pairs ih =>
    have hhere : Adds caches _ path source output [pair] :=
      insertUnique_adds hdistinct path source pair.1 pair.2
    refine Meets.bind hhere (fun _ h => h.append pairs) ?_
    rintro _ ⟨rfl, hlonger⟩
    refine Meets.mono (ih hlonger) ?_ fun _ h => h.cons
    rw [List.append_assoc, List.singleton_append]
    exact fun _ h => h

end Keys

section Walk

variable {c : Context} {scope : Scope} {path : Path} {entries : List (String × Value)}

/-- Wherever a value stands, its expansion follows its unrolling. -/
def Agrees (c : Context) (caches : CollectionCache → Prop) (value : Value) : Prop :=
  ∀ scope path, Follows caches (expand c scope path value) (unroll c scope value)
    (LocatedFrom c scope path value)

/-- What a loop produces follows what its body does for every item. -/
theorem forItems_follows {body : Value → Expansion (List (String × Value))}
    {reference : Value → Unrolling (List (String × Value))} {located : Diagnostic → Prop}
    {items : List Value} (h : ∀ item ∈ items, Follows caches (body item) (reference item) located) :
    Follows caches (forItems body items) (Unrolling.forItems reference items) located := by
  induction items with
  | nil => exact .pure []
  | cons item items ih =>
    have hitems := ih fun other hother => h other (List.mem_cons_of_mem _ hother)
    exact (h item List.mem_cons_self).bind fun here _ =>
      hitems.bind fun others _ => .pure (here ++ others)

/-- A loop of a mapping follows its unrolling if its body does. -/
theorem expandLoop_follows {source : String} {block : Value} (hentry : (source, block) ∈ entries)
    (hloop : Intrinsic.isForEachKey source = true)
    (hserves : ∀ part : Value, part.Within block → Serves caches part)
    (h : ∀ part : Value, part.Within block → Agrees c caches part) :
    Follows caches (expandLoop c scope (path ++ [.key source]) block) (unrollLoop c scope block)
      (LocatedFrom c scope path (.object entries)) := by
  rw [expandLoop.eq_def]
  split
  · next name collection body =>
    have hcollection : collection.Within (.array [.string name, collection, .object body]) :=
      .item (by simp)
    have hitems := collectionItems_follows ⟨c, scope, false⟩ (hserves collection hcollection)
      (fun part hpart => hserves part (hpart.trans hcollection)) (path ++ [.key source])
    rw [unrollLoop]
    refine (hitems.imp ?_).bind fun items hitems => forItems_follows fun item hitem => ?_
    · rintro _ ⟨rfl, hmalformed⟩
      exact (Describes.collection hloop hmalformed).locatedFrom hentry
    · have hbody := h (.object body) (.item (by simp)) (scope.child.bind name item)
        (path ++ [.key source] ++ [.index 2])
      have hway : ∀ root, Arrives c root scope path (.object entries) → Arrives c root _ _ _ :=
        fun _ harrives => harrives.body hentry hloop hitems hitem
      refine (hbody.imp fun _ h => h.outward hway).bind fun result hresult => ?_
      cases result with
      | object pairs => exact .pure pairs
      | _ => exact .fail ((Describes.product hloop hitems hitem hresult rfl).locatedFrom hentry)
  · next hmalformed =>
    rw [Unrolling.unrollLoop_of_malformed hmalformed]
    exact .fail ((describes_malformedFault hloop hmalformed).locatedFrom hentry)

/-- What is known of an entry once the loops of its mapping were expanded. -/
inductive Produces (c : Context) (scope : Scope) :
    String × Value → Option (List (String × Value)) → Prop where
  /-- It is no loop. -/
  | entry {key : String} {value : Value} (h : Intrinsic.ofKey? key ≠ some .forEach) :
      Produces c scope (key, value) none
  /-- It is a loop that is well-formed and produces pairs. -/
  | loop {key : String} {value : Value} {produced : List (String × Value)}
      (h : Intrinsic.ofKey? key = some .forEach)
      (hclean : (unrollLoop c scope value).Clean produced) :
      Produces c scope (key, value) (some produced)

/-- The loops of a mapping are expanded before its entries, which makes no
difference to their results. -/
theorem expandLoops_meets {located : Diagnostic → Prop}
    (h : ∀ entry ∈ entries, Intrinsic.isForEachKey entry.1 = true →
      Follows caches (expandLoop c scope (path ++ [.key entry.1]) entry.2)
        (unrollLoop c scope entry.2) located) :
    Meets caches (expandLoops c scope path entries) (List.Forall₂ (Produces c scope) entries)
      fun diagnostic =>
        (unrollEntries c scope entries).Faulted diagnostic ∧ located diagnostic := by
  induction entries with
  | nil => exact .pure .nil
  | cons entry entries ih =>
    obtain ⟨key, value⟩ := entry
    have hrest := ih fun other hother => h other (List.mem_cons_of_mem _ hother)
    rw [expandLoops, unrollEntries]
    split
    · next hkey =>
      have hloop := h (key, value) List.mem_cons_self (Intrinsic.ofKey?_eq_forEach_iff.mp hkey)
      simp only [map_eq_pure_bind, bind_assoc, pure_bind]
      refine Meets.bind hloop (fun _ h => ⟨h.1.bind, h.2⟩) fun produced hproduced => ?_
      refine hrest.bind (fun _ h => ⟨hproduced.faulted_bind h.1.bind, h.2⟩) fun loops hloops => ?_
      exact .pure (.cons (.loop hkey hproduced) hloops)
    · next hkey =>
      rw [pure_bind]
      refine hrest.bind (fun _ h => ⟨.bind_of_next fun _ _ _ => h.1.bind, h.2⟩) ?_
      exact fun loops hloops => .pure (.cons (.entry hkey) hloops)

/-- The entries of a mapping follow the unrolling that builds it. -/
def Completes (caches : CollectionCache → Prop) (step : Expansion (List (String × Value)))
    (reference : Unrolling Value) (located : Diagnostic → Prop) : Prop :=
  Meets caches step (fun result => reference.Clean (.object result)) fun diagnostic =>
    reference.Faulted diagnostic ∧ located diagnostic

/-- The pairs of an entry are added to a mapping, and the rest of it comes after
them. -/
theorem Adds.completes {entry : String × Value} {before after output pairs : List (String × Value)}
    {insertion : Expansion (List (String × Value))}
    {rest : List (String × Value) → Expansion (List (String × Value))}
    {others : Unrolling (List (String × Value))}
    (hadds : Adds caches insertion path entry output pairs)
    (houtput : (unrollEntries c scope before).Clean output)
    (hpairs : (unrollEntries c scope [entry]).Clean pairs)
    (hrest : Entries.Distinct (output ++ pairs) →
      Completes caches (rest (output ++ pairs)) (others.buildAfter (output ++ pairs))
        (LocatedFrom c scope path (.object (before ++ entry :: after)))) :
    Completes caches (insertion >>= rest)
      (unrollEntries c scope [entry] >>= fun here => others.buildAfter (output ++ here))
      (LocatedFrom c scope path (.object (before ++ entry :: after))) := by
  refine Meets.bind hadds ?_ ?_
  · exact fun _ h => ⟨hpairs.faulted_bind (h.faulted others), h.locatedFrom houtput hpairs⟩
  · rintro _ ⟨rfl, hdistinct⟩
    exact Meets.mono (hrest hdistinct) (fun _ h => hpairs.bind h)
      fun _ h => ⟨hpairs.faulted_bind h.1, h.2⟩

/-- One entry alone unrolls to its own pairs. -/
theorem unrollEntries_singleton (key : String) (value : Value) :
    unrollEntries c scope [(key, value)] =
      if Intrinsic.ofKey? key = some .forEach then unrollLoop c scope value
      else do return [(substituteKey scope key, ← unroll c scope value)] := by
  simp only [unrollEntries, pure_bind, List.append_nil, bind_pure]

/-- The entries of a mapping are added in source order, each loop's pairs in its
place. Those before are in the output already, and their keys are distinct. -/
theorem expandEntries_completes {before output : List (String × Value)}
    {loops : List (Option (List (String × Value)))}
    (h : ∀ entry ∈ entries, Intrinsic.isForEachKey entry.1 = false →
      Follows caches (expand c scope (path ++ [.key entry.1]) entry.2) (unroll c scope entry.2)
        (LocatedFrom c scope path (.object (before ++ entries))))
    (hloops : List.Forall₂ (Produces c scope) entries loops)
    (houtput : (unrollEntries c scope before).Clean output) (hdistinct : Entries.Distinct output) :
    Completes caches (expandEntries c scope path loops output entries)
      ((unrollEntries c scope entries).buildAfter output)
      (LocatedFrom c scope path (.object (before ++ entries))) := by
  induction hloops generalizing before output with
  | nil =>
    rw [expandEntries, unrollEntries]
    refine .pure (.bind (.pure []) ?_)
    rw [List.append_nil]
    exact Unrolling.clean_build hdistinct
  | @cons entry loop entries loops hhere _ ih =>
    have hmore : ∀ pairs, (unrollEntries c scope [entry]).Clean pairs →
        Entries.Distinct (output ++ pairs) →
        Completes caches (expandEntries c scope path loops (output ++ pairs) entries)
          ((unrollEntries c scope entries).buildAfter (output ++ pairs))
          (LocatedFrom c scope path (.object (before ++ entry :: entries))) := by
      intro pairs hpairs hlonger
      have hoff : before ++ entry :: entries = (before ++ [entry]) ++ entries := by simp
      rw [hoff] at h ⊢
      refine ih (fun other hother => h other (List.mem_cons_of_mem _ hother)) ?_ hlonger
      rw [Unrolling.unrollEntries_append]
      exact houtput.bind (hpairs.bind (.pure _))
    have hsplit : unrollEntries c scope (entry :: entries) = do
        return (← unrollEntries c scope [entry]) ++ (← unrollEntries c scope entries) :=
      Unrolling.unrollEntries_append c scope [entry] entries
    rw [hsplit, Unrolling.buildAfter_append]
    cases hhere with
    | @loop key value produced hkey hclean =>
      have hpairs : (unrollEntries c scope [(key, value)]).Clean produced := by
        rw [unrollEntries_singleton, if_pos hkey]
        exact hclean
      exact (insertAll_adds hdistinct path (key, value) produced).completes houtput hpairs
        (hmore produced hpairs)
    | @entry key value hkey =>
      have hvalue := h (key, value) List.mem_cons_self (Intrinsic.ofKey?_ne_forEach_iff.mp hkey)
      have halone : unrollEntries c scope [(key, value)] = do
          return [(substituteKey scope key, ← unroll c scope value)] := by
        rw [unrollEntries_singleton, if_neg hkey]
      refine Meets.bind hvalue (fun _ h => ⟨?_, h.2⟩) fun expanded hexpanded => ?_
      · rw [halone]
        exact h.1.bind.bind
      · have hpairs : (unrollEntries c scope [(key, value)]).Clean
            [(substituteKey scope key, expanded)] := by
          rw [halone]
          exact hexpanded.bind (.pure _)
        exact (insertUnique_adds hdistinct path (key, value) _ expanded).completes houtput hpairs
          (hmore _ hpairs)

/-- The loops of a mapping that calls no function are expanded first. -/
theorem expand_of_plain (h : (Value.object entries).call? = none) :
    expand c scope path (.object entries) = do
      let loops ← expandLoops c scope path entries
      return .object (← expandEntries c scope path loops [] entries) := by
  rcases entries with _ | ⟨⟨key, args⟩, _ | ⟨second, others⟩⟩
  · rw [expand]
    simp
  · rw [Value.call?, Option.map_eq_none_iff] at h
    rw [expand.eq_def]
    dsimp only
    rw [h]
  · rw [expand]
    simp

/-- A mapping that calls no function follows its unrolling if its parts do. -/
theorem expandMapping_follows (hplain : (Value.object entries).call? = none)
    (hserves : ServesLoops caches (.object entries))
    (h : ∀ part : Value, part.Within (.object entries) → Agrees c caches part) :
    Follows caches (expand c scope path (.object entries)) (unroll c scope (.object entries))
      (LocatedFrom c scope path (.object entries)) := by
  have hloops : ∀ entry ∈ entries, Intrinsic.isForEachKey entry.1 = true →
      Follows caches (expandLoop c scope (path ++ [.key entry.1]) entry.2)
        (unrollLoop c scope entry.2) (LocatedFrom c scope path (.object entries)) := by
    intro entry hentry hkey
    refine expandLoop_follows hentry hkey
      (hserves entries (Value.mem_parts_self _) entry hentry hkey) fun part hpart => ?_
    exact h part (hpart.trans (.entry hentry))
  have hvalues : ∀ entry ∈ entries, Intrinsic.isForEachKey entry.1 = false →
      Follows caches (expand c scope (path ++ [.key entry.1]) entry.2) (unroll c scope entry.2)
        (LocatedFrom c scope path (.object ([] ++ entries))) :=
    fun entry hentry hkey => (h entry.2 (.entry hentry) scope _).imp
      fun _ h => h.outward fun _ harrives => harrives.entry hplain hentry hkey
  rw [expand_of_plain hplain, Unrolling.unroll_of_plain hplain]
  refine (expandLoops_meets hloops).bind (fun _ h => ⟨h.1.bind, h.2⟩) fun loops hproduces => ?_
  have hentries := expandEntries_completes hvalues hproduces (.pure []) List.nodup_nil
  exact Meets.bind hentries (fun _ h => h) fun result hresult => .pure hresult

/-- A list is expanded item by item. -/
theorem expand_array (items : List Value) :
    expand c scope path (.array items) = do
      return .array (← expandItems c scope path 0 items) := by
  rw [expand.eq_def]

/-- The items of a list follow their unrolling if each does. -/
theorem expandItems_follows {located : Diagnostic → Prop} {items : List Value} {position : Nat}
    (h : ∀ offset item, items[offset]? = some item →
      Follows caches (expand c scope (path ++ [.index (position + offset)]) item)
        (unroll c scope item) located) :
    Follows caches (expandItems c scope path position items) (unrollItems c scope items) located := by
  induction items generalizing position with
  | nil => exact .pure []
  | cons item items ih =>
    have hitem := h 0 item rfl
    have hitems : Follows caches (expandItems c scope path (position + 1) items)
        (unrollItems c scope items) located := by
      refine ih fun offset other hother => ?_
      rw [Nat.add_right_comm]
      exact h (offset + 1) other hother
    exact hitem.bind fun item _ => hitems.bind fun items _ => .pure (item :: items)

section Calls

variable {key : String} {args : Value}

/-- A substitution follows its unrolling if its own variables and its arguments
do. The arguments are taken apart as far as the form with own variables needs. -/
theorem expandSub_follows (hkind : Intrinsic.functionOfKey? key = some .sub)
    (h : ∀ part : Value, part.Within (.object [(key, args)]) → Agrees c caches part)
    (hrebuilt : Follows caches
      (do return rebuild key (← expand c scope (path ++ [.key key]) args))
      (do return rebuild key (← unroll c scope args)) (LocatedFrom c scope path (.object [(key, args)]))) :
    Follows caches (expand c scope path (.object [(key, args)]))
      (unroll c scope (.object [(key, args)])) (LocatedFrom c scope path (.object [(key, args)])) := by
  have hcall := Value.call?_of_functionOfKey? hkind args
  have hkept := replacement?_eq_none c scope hcall (fun _ _ => by decide) (by decide)
  rw [expand.eq_def, Unrolling.unroll.eq_def]
  dsimp only
  rw [hkind]
  cases args with
  | string text => exact .pure _
  | array parts =>
    rcases parts with _ | ⟨first, others⟩
    · exact hrebuilt
    · cases first with
      | string text =>
        rcases others with _ | ⟨second, others⟩
        · exact hrebuilt
        · cases second with
          | object ownNames =>
            rcases others with _ | ⟨third, others⟩
            · have howns := h (.object ownNames) (.argument (by simp)) scope
                (path ++ [.key key] ++ [.index 1])
              have hplace : path ++ [.key key] ++ [.index 1] = path ++ [.key key, .index 1] :=
                List.append_assoc _ _ _
              rw [← hplace]
              have hown : [Value.string text, .object ownNames][1]? = some (.object ownNames) :=
                rfl
              have hway : ∀ root, Arrives c root scope path _ → Arrives c root scope _ _ :=
                fun _ harrives => (harrives.argument hkind hkept).item hown
              exact (howns.imp fun _ h => h.outward hway).bind fun _ _ => .pure _
            · exact hrebuilt
          | _ => exact hrebuilt
      | _ => exact hrebuilt
  | _ => exact hrebuilt

/-- A call follows its unrolling if its arguments do. -/
theorem expandCall_follows {kind : Intrinsic} (hkind : Intrinsic.functionOfKey? key = some kind)
    (h : ∀ part : Value, part.Within (.object [(key, args)]) → Agrees c caches part) :
    Follows caches (expand c scope path (.object [(key, args)]))
      (unroll c scope (.object [(key, args)])) (LocatedFrom c scope path (.object [(key, args)])) := by
  have hcall := Value.call?_of_functionOfKey? hkind args
  have hargs := h args (.entry List.mem_cons_self) scope (path ++ [.key key])
  have hrebuilt : replacement? c scope (.object [(key, args)]) = none → Follows caches
      (do return rebuild key (← expand c scope (path ++ [.key key]) args))
      (do return rebuild key (← unroll c scope args))
      (LocatedFrom c scope path (.object [(key, args)])) := fun hkept =>
    (hargs.imp fun _ h => h.outward fun _ harrives => harrives.argument hkind hkept).bind
      fun args _ => .pure (rebuild key args)
  by_cases hsub : kind = .sub
  · subst hsub
    have hkept := replacement?_eq_none c scope hcall (fun _ _ => by decide) (by decide)
    exact expandSub_follows hkind h (hrebuilt hkept)
  · rw [expand.eq_def, Unrolling.unroll.eq_def]
    dsimp only
    rw [hkind]
    rw [replacement?, hcall] at hrebuilt
    cases kind with
    | sub => exact absurd rfl hsub
    | ref => cases args with
      | string name => exact .pure _
      | _ => exact hrebuilt rfl
    | findInMap =>
      dsimp only at hrebuilt ⊢
      cases hfound : foundInMap? c scope (.object [(key, args)]) with
      | some found => exact .pure found
      | none => exact hrebuilt hfound
    | _ => exact hrebuilt rfl

end Calls

/-- Every expansion follows the unrolling, from caches that serve the loops. -/
theorem agrees_of_serves (c : Context) {value : Value} (hserves : ServesLoops caches value) :
    Agrees c caches value := by
  induction value using Value.partInduction with
  | step value ih =>
    intro scope path
    have hparts : ∀ part : Value, part.Within value → Agrees c caches part :=
      fun part hpart => ih part hpart (hserves.part hpart)
    cases value with
    | array items =>
      have hitems : Follows caches (expandItems c scope path 0 items) (unrollItems c scope items)
          (LocatedFrom c scope path (.array items)) := by
        refine expandItems_follows fun offset item hitem => ?_
        rw [Nat.zero_add]
        exact (hparts item (.item (List.mem_of_getElem? hitem)) scope _).imp
          fun _ h => h.outward fun _ harrives => harrives.item hitem
      rw [expand_array]
      exact hitems.bind fun items _ => .pure (Value.array items)
    | object entries =>
      cases hcall : (Value.object entries).call? with
      | none => exact expandMapping_follows hcall hserves hparts
      | some call =>
        obtain ⟨key, heq, hkind⟩ := Value.eq_of_call? hcall
        rw [heq] at hparts ⊢
        exact expandCall_follows hkind hparts
    | _ => exact .pure _

/-- Every expansion follows the unrolling, whatever was asked for before. -/
theorem agrees (c : Context) (value : Value) : Agrees c CollectionCache.Reached value :=
  agrees_of_serves c fun _ _ _ _ _ expression _ => CollectionCache.serves_reached expression

end Walk

section Outcomes

variable {step : Expansion α}

/-- What an expansion comes to from a cache, without the cache it leaves. -/
def outcome (step : Expansion α) (cache : CollectionCache) : Except Diagnostic α :=
  (step.run cache).map Prod.fst

/-- The outcome is the same from all of the caches. -/
theorem Meets.outcome_eq {good : α → Prop} {bad : Diagnostic → Prop}
    (h : Meets caches step good bad) {cache other : CollectionCache} (hcache : caches cache)
    (hother : caches other) : outcome step cache = outcome step other := by
  unfold outcome
  cases h with
  | fails _ hrun => rw [hrun cache hcache, hrun other hother]
  | gives _ hrun =>
    obtain ⟨_, -, hhere⟩ := hrun cache hcache
    obtain ⟨_, -, hthere⟩ := hrun other hother
    rw [hhere, hthere]
    rfl

/-- From one of the caches, an expansion that follows an unrolling succeeds exactly
if the unrolling is clean, and then with its result. -/
theorem Follows.outcome_eq_ok_iff {reference : Unrolling α} {located : Diagnostic → Prop}
    (h : Follows caches step reference located) {cache : CollectionCache} (hcache : caches cache)
    {result : α} : outcome step cache = .ok result ↔ reference.Clean result := by
  unfold outcome
  cases h with
  | fails hbad hrun =>
    rw [hrun cache hcache]
    refine ⟨fun hok => ?_, fun hclean => absurd hbad.1 hclean.not_faulted⟩
    cases hok
  | gives hclean hrun =>
    obtain ⟨later, -, hhere⟩ := hrun cache hcache
    rw [hhere]
    refine ⟨fun hok => ?_, fun hother => ?_⟩
    · cases hok
      exact hclean
    · rw [hother.unique hclean]
      rfl

end Outcomes

end Expansion

end StackTemplate
