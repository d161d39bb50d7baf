import StackTemplate.Proofs.Gating
import StackTemplate.Proofs.Settlement

/-!
# Ternaries listed and ternaries passed

The list of all ternaries inside a document and the walk along a path see the
same ternaries. The list has the path of each of them once, an outer ternary
before those inside it, and tells which of them stand inside calls of other
functions. The walk into the first branch of a listed ternary records nothing
but this ternary beyond what it records on the way to it, and not even that if
the ternary stands inside a call.
-/

namespace StackTemplate

namespace Value

section Children

variable {value : Value}

/-- No step is listed twice. -/
theorem nodup_children (hwell : value.WellFormed) : (value.children.map Prod.fst).Nodup := by
  cases value with
  | array items =>
    have hsteps : ((array items).children.map Prod.fst) =
        (items.zipIdx.map Prod.snd).map Segment.index := by
      rw [children, List.map_map, List.map_map]
      rfl
    rw [hsteps, List.zipIdx_map_snd]
    exact List.Nodup.map (fun _ _ => Segment.index.inj) List.nodup_range'
  | object entries =>
    have hsteps : ((object entries).children.map Prod.fst) =
        (Entries.keys entries).map Segment.key := by
      rw [children, Entries.keys, List.map_map, List.map_map]
      rfl
    rw [hsteps]
    exact List.Nodup.map (fun _ _ => Segment.key.inj) hwell.1
  | _ => exact List.nodup_nil

end Children

section Listing

variable {value : Value} {base : Path} {insideFunction : Bool}

/-- The ternaries of items come in the order of the items. -/
theorem itemTernarySites_eq_flatMap (position : Nat) (items : List Value) :
    itemTernarySites base insideFunction position items =
      (items.zipIdx position).flatMap fun entry =>
        entry.1.ternarySitesAt (base ++ [.index entry.2]) insideFunction := by
  induction items generalizing position with
  | nil => rw [itemTernarySites, List.zipIdx_nil, List.flatMap_nil]
  | cons item items ih => rw [itemTernarySites, ih, List.zipIdx_cons, List.flatMap_cons]

/-- The ternaries of entries come in the order of the entries. -/
theorem entryTernarySites_eq_flatMap (entries : List (String × Value)) :
    entryTernarySites base insideFunction entries =
      entries.flatMap fun entry =>
        entry.2.ternarySitesAt (base ++ [.key entry.1]) insideFunction := by
  induction entries with
  | nil => rw [entryTernarySites, List.flatMap_nil]
  | cons entry entries ih => rw [entryTernarySites, ih, List.flatMap_cons]

/-- A value is listed if it is a ternary, then the ternaries inside its parts
are. -/
theorem ternarySitesAt_eq (base : Path) (insideFunction : Bool) (value : Value) :
    value.ternarySitesAt base insideFunction =
      ((Ternary.ofValue? value).map fun ternary => ⟨base, ternary, insideFunction⟩).toList ++
        value.children.flatMap fun child =>
          child.2.ternarySitesAt (base ++ [child.1]) (insideFunction || value.callsOther) := by
  cases value with
  | array items =>
    rw [ternarySitesAt, itemTernarySites_eq_flatMap, children, List.flatMap_map]
    rfl
  | object entries =>
    rw [ternarySitesAt, entryTernarySites_eq_flatMap, children, List.flatMap_map]
    cases Ternary.ofValue? (object entries) <;> rfl
  | _ => rfl

/-- Whether a path leaves a call of a function other than the ternary. -/
def callsAlong (value : Value) : Path → Bool
  | [] => false
  | segment :: path =>
    value.callsOther || (value.step? segment).any fun part => part.callsAlong path

/-- The walk from a part goes on with what was called before. -/
theorem callsAlong_cons {part : Value} {segment : Segment} (hstep : value.step? segment = some part)
    (path : Path) :
    value.callsAlong (segment :: path) = (value.callsOther || part.callsAlong path) := by
  rw [callsAlong, hstep, Option.any_some]

/-- A call of another function has a kind of its own. -/
theorem callsOther_iff : value.callsOther = true ↔
    ∃ call, value.call? = some call ∧ call.1 ≠ .ternary := by
  unfold callsOther
  cases value.call? with
  | none => simp
  | some call => simp

/-- A path leaves a call exactly if there is one at a proper beginning. -/
theorem callsAlong_iff {path : Path} {last : Value} (hlookup : value.lookup path = some last) :
    value.callsAlong path = true ↔
      ∃ before segment rest part call, path = before ++ segment :: rest ∧
        value.lookup before = some part ∧ part.call? = some call ∧ call.1 ≠ .ternary := by
  induction path generalizing value with
  | nil => simp [callsAlong]
  | cons first path ih =>
    obtain ⟨inner, hstep, hinner⟩ := exists_of_lookup_cons hlookup
    rw [callsAlong_cons hstep, Bool.or_eq_true, callsOther_iff, ih hinner]
    constructor
    · rintro (⟨call, hcall⟩ | ⟨before, segment, rest, part, call, rfl, hpart, hcall⟩)
      · exact ⟨[], first, path, value, call, rfl, rfl, hcall⟩
      · refine ⟨first :: before, segment, rest, part, call, rfl, ?_, hcall⟩
        rw [lookup_cons hstep, hpart]
    · rintro ⟨before, segment, rest, part, call, hpath, hpart, hcall⟩
      cases before with
      | nil =>
        cases hpart
        exact .inl ⟨call, hcall⟩
      | cons other before =>
        cases hpath
        obtain ⟨next, hnext, hpart⟩ := exists_of_lookup_cons hpart
        cases hstep.symm.trans hnext
        exact .inr ⟨before, segment, rest, part, call, rfl, hpart, hcall⟩

/-- The listed ternaries are those that paths lead to. -/
theorem mem_ternarySitesAt (hwell : value.WellFormed) {site : TernarySite} :
    site ∈ value.ternarySitesAt base insideFunction ↔
      ∃ path part, site.path = base ++ path ∧ value.lookup path = some part ∧
        Ternary.ofValue? part = some site.ternary ∧
        site.insideFunction = (insideFunction || value.callsAlong path) := by
  induction value using partInduction generalizing base insideFunction with
  | step value ih =>
    rw [ternarySitesAt_eq, List.mem_append, List.mem_flatMap, Option.mem_toList,
      Option.map_eq_some_iff]
    constructor
    · rintro (⟨ternary, hternary, rfl⟩ | ⟨⟨segment, inner⟩, hchild, hsite⟩)
      · refine ⟨[], value, (List.append_nil base).symm, rfl, hternary, ?_⟩
        rw [callsAlong, Bool.or_false]
      · obtain ⟨path, part, hpath, hlookup, hternary, hinside⟩ :=
          (ih inner (.child hchild) (hwell.child hchild)).mp hsite
        have hstep := (mem_children hwell).mp hchild
        refine ⟨segment :: path, part, ?_, ?_, hternary, ?_⟩
        · rw [hpath, List.append_assoc, List.singleton_append]
        · rw [lookup_cons hstep, hlookup]
        · rw [hinside, callsAlong_cons hstep, Bool.or_assoc]
    · rintro ⟨path, part, hpath, hlookup, hternary, hinside⟩
      cases path with
      | nil =>
        cases hlookup
        refine .inl ⟨site.ternary, hternary, ?_⟩
        rw [List.append_nil] at hpath
        rw [callsAlong, Bool.or_false] at hinside
        rw [← hpath, ← hinside]
      | cons segment path =>
        obtain ⟨inner, hstep, hinner⟩ := exists_of_lookup_cons hlookup
        have hchild := (mem_children hwell).mpr hstep
        refine .inr ⟨(segment, inner), hchild, ?_⟩
        refine (ih inner (.child hchild) (hwell.child hchild)).mpr
          ⟨path, part, ?_, hinner, hternary, ?_⟩
        · rw [hpath, List.append_assoc, List.singleton_append]
        · rw [hinside, callsAlong_cons hstep, Bool.or_assoc]

/-- No listed ternary stands at or around an earlier one: what stands inside
different parts has paths that part after the base. -/
theorem pairwise_ternarySitesAt (hwell : value.WellFormed) :
    (value.ternarySitesAt base insideFunction).Pairwise
      fun earlier later => ¬later.path <+: earlier.path := by
  induction value using partInduction generalizing base insideFunction with
  | step value ih =>
    have hbelow : ∀ child ∈ value.children, ∀ site ∈ child.2.ternarySitesAt (base ++ [child.1])
        (insideFunction || value.callsOther), ∃ path, site.path = base ++ child.1 :: path := by
      intro child hchild site hsite
      obtain ⟨path, -, hpath, -⟩ := (mem_ternarySitesAt (hwell.child hchild)).mp hsite
      rw [List.append_assoc, List.singleton_append] at hpath
      exact ⟨path, hpath⟩
    rw [ternarySitesAt_eq, List.pairwise_append, List.pairwise_flatMap]
    refine ⟨?_, ⟨?_, ?_⟩, ?_⟩
    · cases Ternary.ofValue? value with
      | none => exact .nil
      | some ternary => exact List.pairwise_singleton _ _
    · intro child hchild
      exact ih child.2 (.child hchild) (hwell.child hchild)
    · refine (List.pairwise_map.mp (nodup_children hwell)).imp_of_mem ?_
      intro first second hfirst hsecond hne earlier hearlier later hlater hprefix
      obtain ⟨path, hpath⟩ := hbelow first hfirst earlier hearlier
      obtain ⟨rest, hrest⟩ := hbelow second hsecond later hlater
      rw [hpath, hrest, List.prefix_append_right_inj, List.cons_prefix_cons] at hprefix
      exact hne hprefix.1.symm
    · intro earlier hearlier later hlater hprefix
      obtain ⟨child, hchild, hlater⟩ := List.mem_flatMap.mp hlater
      obtain ⟨rest, hrest⟩ := hbelow child hchild later hlater
      obtain ⟨ternary, -, rfl⟩ := Option.map_eq_some_iff.mp (Option.mem_toList.mp hearlier)
      have hlength := hprefix.length_le
      rw [hrest, List.length_append, List.length_cons] at hlength
      dsimp only at hlength
      omega

end Listing

end Value

namespace Constraints

variable {constraints : Constraints} {name : String} {truths : TruthSet}

/-- Truth values may be added at once or one after another. -/
theorem extend_extend_self (added : TruthSet) :
    (constraints.extend name truths).extend name added =
      constraints.extend name (truths.union added) := by
  have hunion : ∀ first : TruthSet,
      (first.union truths).union added = first.union (truths.union added) := by
    intro first
    rw [TruthSet.union, TruthSet.union, TruthSet.union, TruthSet.union, Bool.or_assoc,
      Bool.or_assoc]
  rw [extend, extend, extend, Entries.get?_insert_self, Entries.insert_insert_self,
    Option.getD_some, hunion]

/-- A name that is known may be extended before or after another one. -/
theorem extend_comm_of_mem {other : String} (h : name ∈ Entries.keys constraints)
    (hne : other ≠ name) (added : TruthSet) :
    (constraints.extend name truths).extend other added =
      (constraints.extend other added).extend name truths := by
  rw [extend, extend, extend, extend, Entries.get?_insert_of_ne hne,
    Entries.get?_insert_of_ne hne.symm,
    Entries.insert_comm_of_contains (Entries.contains_iff_mem_keys.mpr h) hne]

/-- A name that is known and not merged may be extended before or after merging. -/
theorem merge_extend_of_notMem {added : Constraints} (h : name ∈ Entries.keys constraints)
    (hadded : name ∉ Entries.keys added) :
    added.foldl (fun merged pair => Constraints.extend merged pair.1 pair.2)
        (constraints.extend name truths) =
      Constraints.extend
        (added.foldl (fun merged pair => Constraints.extend merged pair.1 pair.2) constraints)
        name truths := by
  induction added generalizing constraints with
  | nil => rfl
  | cons pair added ih =>
    have hne : name ≠ pair.1 := List.ne_of_not_mem_cons hadded
    have hrest : name ∉ Entries.keys added := List.not_mem_of_not_mem_cons hadded
    rw [List.foldl_cons, List.foldl_cons, extend_comm_of_mem h hne.symm,
      ih (mem_keys_extend.mpr (.inl h)) hrest]

/-- What is merged may be extended before or after merging. -/
theorem merge_extend {added : Constraints} (hadded : Entries.Distinct added) :
    (Constraints.extend added name truths).foldl
        (fun merged pair => Constraints.extend merged pair.1 pair.2) constraints =
      Constraints.extend
        (added.foldl (fun merged pair => Constraints.extend merged pair.1 pair.2) constraints)
        name truths := by
  induction added generalizing constraints with
  | nil => rfl
  | cons pair added ih =>
    obtain ⟨first, known⟩ := pair
    obtain ⟨hnew, hrest⟩ := List.nodup_cons.mp hadded
    by_cases hfirst : first = name
    · subst hfirst
      have hhead : Constraints.extend ((first, known) :: added) first truths =
          (first, known.union truths) :: added := by
        simp [extend, Entries.get?, Entries.insert]
      rw [hhead, List.foldl_cons, List.foldl_cons, ← extend_extend_self]
      exact merge_extend_of_notMem (mem_keys_extend.mpr (.inr rfl)) hnew
    · have hlater : Constraints.extend ((first, known) :: added) name truths =
          (first, known) :: Constraints.extend added name truths := by
        simp [extend, Entries.get?, Entries.insert, hfirst]
      rw [hlater, List.foldl_cons, List.foldl_cons, ih hrest]

end Constraints

namespace PathQuery

/-- The steps into the first branch of a ternary. -/
def intoWhenTrue : Path := [.key Ternary.key, .index 1]

/-- Only the first two steps from a ternary tell which branch a path takes. -/
theorem taken_cons_cons (first second : Segment) (rest : Path) :
    taken (first :: second :: rest) =
      if first = .key Ternary.key ∧ second = .index 1 then .only true
      else if first = .key Ternary.key ∧ second = .index 2 then .only false
      else .both := by
  unfold taken Ternary.key
  split
  · next heq =>
    cases heq
    rw [if_pos ⟨rfl, rfl⟩]
  · next heq =>
    cases heq
    rw [if_neg (by simp), if_pos ⟨rfl, rfl⟩]
  · next hfirst hsecond =>
    have hnotFirst : ¬(first = .key "Fn::If" ∧ second = .index 1) := by
      rintro ⟨rfl, rfl⟩
      exact hfirst rest rfl
    have hnotSecond : ¬(first = .key "Fn::If" ∧ second = .index 2) := by
      rintro ⟨rfl, rfl⟩
      exact hsecond rest rfl
    rw [if_neg hnotFirst, if_neg hnotSecond]

/-- A path that enters a mapping at its end takes no other branches on its way. -/
theorem taken_append_key (segment : Segment) (path : Path) (name : String) (rest : Path) :
    taken (segment :: (path ++ .key name :: rest)) = taken (segment :: path) := by
  cases path with
  | nil =>
    rw [List.nil_append, taken_cons_cons, taken]
    · simp
    all_goals simp
  | cons next path => rw [List.cons_append, taken_cons_cons, taken_cons_cons]

section Sites

variable {root value part : Value} {path : Path} {ternary : Ternary} {insideFunction : Bool}
  {found : Constraints}

/-- The walk into the first branch of a ternary records the ternary last, unless
it stands inside a call. -/
theorem branches_intoWhenTrue (first second : Path) (hlookup : value.lookup path = some part)
    (hternary : Ternary.ofValue? part = some ternary) :
    branches ⟨first, false, false⟩ (path ++ intoWhenTrue) value insideFunction found =
      if insideFunction || value.callsAlong path then
        branches ⟨second, false, false⟩ path value insideFunction found
      else
        Constraints.extend (branches ⟨second, false, false⟩ path value insideFunction found)
          ternary.condition (.only true) := by
  induction path generalizing value insideFunction found with
  | nil =>
    cases hlookup
    cases Ternary.eq_of_ofValue? hternary
    cases insideFunction <;> rfl
  | cons segment path ih =>
    obtain ⟨inner, hstep, hinner⟩ := Value.exists_of_lookup_cons hlookup
    have hrecorded : recorded ⟨first, false, false⟩ (segment :: (path ++ intoWhenTrue)) value
        insideFunction found =
        recorded ⟨second, false, false⟩ (segment :: path) value insideFunction found := by
      rw [recorded, recorded, intoWhenTrue, taken_append_key]
    rw [List.cons_append, branches_cons, branches_cons, hstep, Option.elim_some,
      Option.elim_some, hrecorded, ih hinner, Value.callsAlong_cons hstep, Bool.or_assoc]

/-- The guard of a ternary is that of its first branch. A ternary in the place of
all resources has arguments, which have no guard. -/
theorem guard?_intoWhenTrue (hlookup : root.lookup path = some part)
    (hternary : Ternary.ofValue? part = some ternary) :
    guard? root (path ++ intoWhenTrue) = guard? root path := by
  cases Ternary.eq_of_ofValue? hternary
  cases path with
  | nil => rfl
  | cons segment path =>
    cases path with
    | nil =>
      cases segment with
      | index position => rfl
      | key name =>
        obtain ⟨inner, hstep, hinner⟩ := Value.exists_of_lookup_cons hlookup
        cases hinner
        have hentities := Value.get?_of_step? hstep
        have hentity : Value.get? (.object [("Fn::If", .array [.string ternary.condition,
            ternary.whenTrue, ternary.whenFalse])]) "Fn::If" = some (.array [.string
            ternary.condition, ternary.whenTrue, ternary.whenFalse]) := rfl
        have hguard : Value.get? (.array [.string ternary.condition, ternary.whenTrue,
            ternary.whenFalse]) "Condition" = none := rfl
        change guard? root [.key name, .key "Fn::If", .index 1] = none
        simp only [guard?, hentities, hentity, hguard, Option.bind_eq_bind, Option.bind_some,
          Option.bind_none, ite_self]
    | cons next path => cases segment <;> cases next <;> rfl

/-- Beyond what is recorded along the path to a ternary, the path into its first
branch records that its condition may hold, unless it stands inside a call. -/
theorem constraints_intoWhenTrue (hlookup : root.lookup path = some part)
    (hternary : Ternary.ofValue? part = some ternary) :
    constraints ⟨path ++ intoWhenTrue, false, false⟩ root =
      if root.callsAlong path then constraints ⟨path, false, false⟩ root
      else Constraints.extend (constraints ⟨path, false, false⟩ root) ternary.condition
        (.only true) := by
  have hdistinct : Entries.Distinct (branches ⟨path, false, false⟩ path root false []) :=
    distinct_branches _ List.nodup_nil
  rw [constraints_eq, constraints_eq, branches_intoWhenTrue _ path hlookup hternary,
    guard?_intoWhenTrue hlookup hternary, Bool.false_or]
  split
  · rfl
  · exact Constraints.merge_extend hdistinct

end Sites

end PathQuery

namespace Analysis

/-- The list of ternaries and the walk along paths see the same ternaries. A
ternary is listed for each path that leads to one, once and with what it chooses
between, an outer ternary before those inside it; it is marked exactly if a
proper beginning of its path leads to a call of another function. The path into
the first branch of a listed ternary has the conditions along the path to the
ternary, and the ternary's own may also hold if it is not marked. -/
theorem ternarySites_agree_with_paths :
    (∀ value : Value, value.WellFormed →
      (∀ path ternary,
        (∃ site ∈ value.ternarySites, site.path = path ∧ site.ternary = ternary) ↔
          ∃ part, value.lookup path = some part ∧ Ternary.ofValue? part = some ternary) ∧
      (value.ternarySites.map TernarySite.path).Nodup ∧
      (value.ternarySites.Pairwise fun earlier later => ¬later.path <+: earlier.path) ∧
      ∀ site ∈ value.ternarySites, (site.insideFunction = true ↔
        ∃ before segment rest part call, site.path = before ++ segment :: rest ∧
          value.lookup before = some part ∧ part.call? = some call ∧ call.1 ≠ .ternary)) ∧
    (∀ template settings region analysis, Reached template settings region analysis →
      template.root.WellFormed → ∀ site ∈ template.root.ternarySites,
        (analysis.conditionsAlong
            ⟨site.path ++ [.key "Fn::If", .index 1], false, false⟩).1 =
          if site.insideFunction then (analysis.conditionsAlong ⟨site.path, false, false⟩).1
          else (analysis.conditionsAlong ⟨site.path, false, false⟩).1.extend
            site.ternary.condition (.only true)) := by
  have hlisted : ∀ {value : Value}, value.WellFormed → ∀ {site : TernarySite},
      site ∈ value.ternarySites ↔ ∃ part, value.lookup site.path = some part ∧
        Ternary.ofValue? part = some site.ternary ∧
        site.insideFunction = value.callsAlong site.path := by
    intro value hwell site
    rw [Value.ternarySites, Value.mem_ternarySitesAt hwell]
    constructor
    · rintro ⟨path, part, hpath, hlookup, hternary, hinside⟩
      rw [List.nil_append] at hpath
      subst hpath
      exact ⟨part, hlookup, hternary, hinside⟩
    · rintro ⟨part, hlookup, hternary, hinside⟩
      exact ⟨site.path, part, rfl, hlookup, hternary, hinside⟩
  refine ⟨fun value hwell => ⟨?_, ?_, ?_, ?_⟩, ?_⟩
  · intro path ternary
    constructor
    · rintro ⟨site, hsite, rfl, rfl⟩
      obtain ⟨part, hlookup, hternary, -⟩ := (hlisted hwell).mp hsite
      exact ⟨part, hlookup, hternary⟩
    · rintro ⟨part, hlookup, hternary⟩
      exact ⟨⟨path, ternary, value.callsAlong path⟩,
        (hlisted hwell).mpr ⟨part, hlookup, hternary, rfl⟩, rfl, rfl⟩
  · refine List.pairwise_map.mpr ((Value.pairwise_ternarySitesAt hwell).imp ?_)
    intro earlier later hlater hsame
    exact hlater (hsame ▸ List.prefix_rfl)
  · exact Value.pairwise_ternarySitesAt hwell
  · intro site hsite
    obtain ⟨part, hlookup, -, hinside⟩ := (hlisted hwell).mp hsite
    rw [hinside, Value.callsAlong_iff hlookup]
  · intro template settings region analysis hreached hwell site hsite
    obtain ⟨part, hlookup, hternary, hinside⟩ := (hlisted hwell).mp hsite
    rw [hreached.faithful.conditionsAlong_fst, hreached.faithful.conditionsAlong_fst, hinside]
    exact PathQuery.constraints_intoWhenTrue hlookup hternary

/-- A stack whose queue has a name joined from parts, one of which depends on the
region. -/
def joinTemplate : Template where
  root := .object [("Resources", .object [("Queue", .object [("Condition", .string "IsLive"),
    ("Name", .object [("Fn::If", .array [.string "IsProd",
      .object [("Fn::Join", .array [.string "-", .object [("Fn::If", .array [.string "IsLocal",
        .string "near", .string "far"])]])],
      .string "queue"])])])])]

/-- The path to the name of the queue. -/
def namePath : Path := [.key "Resources", .key "Queue", .key "Name"]

/-- The path to the part of the name that depends on the region. -/
def regionPath : Path :=
  namePath ++ [.key "Fn::If", .index 1, .key "Fn::Join", .index 1]

theorem ternarySites_agree_with_paths_queue :
    joinTemplate.root.WellFormed ∧
    (joinTemplate.root.ternarySites.map TernarySite.path).Nodup ∧
    (∃ site ∈ joinTemplate.root.ternarySites,
      site.path = regionPath ∧ site.ternary = ⟨"IsLocal", .string "near", .string "far"⟩ ∧
      site.insideFunction = true) ∧
    (conditionsAlong ⟨joinTemplate, (ConditionIndex.ofTemplate joinTemplate {}).builder, none, []⟩
        ⟨regionPath ++ [.key "Fn::If", .index 1], false, false⟩).1 =
      (conditionsAlong ⟨joinTemplate, (ConditionIndex.ofTemplate joinTemplate {}).builder, none, []⟩
        ⟨regionPath, false, false⟩).1 := by
  have hwell : joinTemplate.root.WellFormed := by
    simp [joinTemplate, Value.WellFormed, Value.itemsWellFormed, Value.entriesWellFormed,
      Entries.Distinct, Entries.keys]
  obtain ⟨hlists, hagrees⟩ := ternarySites_agree_with_paths
  obtain ⟨hpaths, hnodup, -, hmarked⟩ := hlists joinTemplate.root hwell
  obtain ⟨site, hsite, hpath, hternary⟩ := (hpaths regionPath _).mpr ⟨_, rfl, rfl⟩
  have hinside : site.insideFunction = true := by
    rw [hmarked site hsite, hpath]
    exact ⟨namePath ++ [.key "Fn::If", .index 1], .key "Fn::Join", [.index 1], _, (.join, _), rfl,
      rfl, rfl, by decide⟩
  have hsame := hagrees joinTemplate {} none _ .start hwell site hsite
  rw [hinside, hpath] at hsame
  exact ⟨hwell, hnodup, ⟨site, hsite, hpath, hternary, hinside⟩, hsame⟩

end Analysis

end StackTemplate
