import Mathlib.Data.List.Nodup
import Mathlib.Data.List.Perm.Basic
import StackTemplate.Mapping
import StackTemplate.Proofs.Parts

/-!
# Inference of keys in mappings

A lookup in a map may know the top level key, the second level key, both or
none of them. It finds a value exactly if the map leaves one choice for what is
not known: one pair of keys has a value and agrees with the keys that are
known. A lookup that knows neither key finds nothing.
-/

namespace StackTemplate

namespace Entries

variable {α : Type} {entries : List (String × α)} {key : String} {value : α}

/-- Where keys are distinct, an entry whose key all entries have stands alone. -/
theorem Distinct.eq_singleton (h : Distinct entries) (hmem : (key, value) ∈ entries)
    (hall : ∀ entry ∈ entries, entry.1 = key) : entries = [(key, value)] := by
  have hsame : ∀ entry, entry ∈ entries ↔ entry ∈ [(key, value)] := by
    intro entry
    rw [List.mem_singleton]
    constructor
    · intro hentry
      have hkey := hall entry hentry
      have hvalue : get? key entries = some entry.2 := h.get?_of_mem (by rwa [← hkey])
      rw [h.get?_of_mem hmem] at hvalue
      exact Prod.ext hkey (Option.some.inj hvalue).symm
    · rintro rfl
      exact hmem
  have hperm := (List.perm_ext_iff_of_nodup (List.Nodup.of_map _ h)
    (List.nodup_singleton _)).mpr hsame
  exact List.perm_singleton.mp hperm

/-- Some entries of a list with distinct keys have distinct keys. -/
theorem Distinct.filter (h : Distinct entries) (p : String × α → Bool) :
    Distinct (entries.filter p) :=
  List.Nodup.sublist (List.filter_sublist.map _) h

end Entries

namespace Value

variable {value part : Value} {key : String} {entries : List (String × Value)}

/-- Mappings have entries. -/
theorem entries?_eq_some_iff : value.entries? = some entries ↔ value = .object entries := by
  cases value with
  | object others => simp [entries?]
  | _ => simp [entries?]

/-- Mappings have values under keys. -/
theorem get?_eq_some_iff : value.get? key = some part ↔
    ∃ entries, value = .object entries ∧ Entries.get? key entries = some part := by
  cases value with
  | object others => simp [get?]
  | _ => simp [get?]

end Value

namespace Mapping

/-- The map that is meant: the one of a name that is known and present, or else
the only map there is. -/
def Means (maps : List (String × Value)) (name : Option String) (map : Value) : Prop :=
  (∃ known ∈ name, Entries.get? known maps = some map) ∨
    (∀ known ∈ name, Entries.get? known maps = none) ∧ ∃ key, maps = [(key, map)]

/-- The value that a map has under a top level and a second level key. -/
def valueAt? (map : Value) (keys : String × String) : Option Value :=
  (map.get? keys.1).bind (·.get? keys.2)

/-- A pair of keys that has a value and agrees with all keys that are known. -/
def Fits (map : Value) (top second : Option String) (keys : String × String) : Prop :=
  (valueAt? map keys).isSome ∧ (∀ known ∈ top, known = keys.1) ∧ ∀ known ∈ second, known = keys.2

variable {maps sections entries : List (String × Value)} {map value : Value}
  {name top second : Option String} {t s : String}

/-- The map that is meant is chosen. -/
theorem chosen?_eq_some_iff : chosen? maps name = some map ↔ Means maps name map := by
  unfold chosen? Means
  cases hnamed : name.bind fun known => Entries.get? known maps with
  | some found =>
    obtain ⟨known, hknown, hfound⟩ := Option.bind_eq_some_iff.mp hnamed
    subst hknown
    simp [hfound]
  | none =>
    have hunnamed : ∀ known ∈ name, Entries.get? known maps = none :=
      Option.bind_eq_none_iff.mp hnamed
    have hnever : ¬∃ known ∈ name, Entries.get? known maps = some map := by
      rintro ⟨known, hknown, hfound⟩
      rw [hunnamed known hknown] at hfound
      cases hfound
    rw [or_iff_right hnever, and_iff_right hunnamed]
    rcases maps with _ | ⟨⟨key, only⟩, _ | ⟨other, rest⟩⟩ <;> simp

/-- What a lookup finds in a map. -/
def inside? (map : Value) (top second : Option String) : Option Value :=
  map.entries?.bind fun sections => (section? sections top second).bind fun part =>
    part.entries?.bind fun entries => entry? entries second

/-- A lookup chooses a map and looks inside. -/
theorem find?_eq_bind : find? maps name top second =
    (chosen? maps name).bind fun map => inside? map top second := rfl

/-- A value is under two keys if the map has a section that has it. -/
theorem valueAt?_eq_some_iff : valueAt? map (t, s) = some value ↔
    ∃ sections, map = .object sections ∧
      ∃ entries, Entries.get? t sections = some (.object entries) ∧
        Entries.get? s entries = some value := by
  constructor
  · intro h
    obtain ⟨part, hpart, hvalue⟩ := Option.bind_eq_some_iff.mp h
    obtain ⟨sections, rfl, hpart⟩ := Value.get?_eq_some_iff.mp hpart
    obtain ⟨entries, rfl, hvalue⟩ := Value.get?_eq_some_iff.mp hvalue
    exact ⟨sections, rfl, entries, hpart, hvalue⟩
  · rintro ⟨sections, rfl, entries, hpart, hvalue⟩
    exact Option.bind_eq_some_iff.mpr ⟨_, hpart, hvalue⟩

/-- A value is inside a map if it is the entry that is chosen in the section that
is chosen. -/
theorem inside?_eq_some_iff : inside? map top second = some value ↔
    ∃ sections, map = .object sections ∧
      ∃ entries, section? sections top second = some (.object entries) ∧
        entry? entries second = some value := by
  simp only [inside?, Option.bind_eq_some_iff, Value.entries?_eq_some_iff]
  constructor
  · rintro ⟨sections, rfl, _, hpart, entries, rfl, hvalue⟩
    exact ⟨sections, rfl, entries, hpart, hvalue⟩
  · rintro ⟨sections, rfl, entries, hpart, hvalue⟩
    exact ⟨sections, rfl, _, hpart, entries, rfl, hvalue⟩

/-- The entries of a section of a well-formed map have distinct keys. -/
theorem distinct_entries (hwell : (Value.object sections).WellFormed)
    (hpart : Entries.get? t sections = some (.object entries)) : Entries.Distinct entries :=
  (Value.wellFormed_of_mem_entries hwell.2 (Entries.mem_of_get? hpart)).1

/-- Without a second level key, a section has to have one entry. -/
theorem entry?_none_eq_some_iff (h : Entries.Distinct entries) :
    entry? entries none = some value ↔ ∃ s, Entries.get? s entries = some value ∧
      ∀ other, (Entries.get? other entries).isSome → other = s := by
  constructor
  · intro hentry
    rcases entries with _ | ⟨⟨s, only⟩, _ | ⟨other, rest⟩⟩
    · cases hentry
    · cases hentry
      refine ⟨s, by simp [Entries.get?], fun other hother => ?_⟩
      by_contra hne
      simp [Entries.get?, Ne.symm hne] at hother
    · cases hentry
  · rintro ⟨s, hvalue, honly⟩
    have halone : entries = [(s, value)] := by
      refine h.eq_singleton (Entries.mem_of_get? hvalue) fun entry hentry => ?_
      exact honly entry.1 (Option.isSome_iff_exists.mpr ⟨entry.2, h.get?_of_mem hentry⟩)
    rw [halone]
    rfl

/-- Without a top level key, one section has to have the second level key. -/
theorem onlySectionWith?_eq_some_iff {part : Value} (h : Entries.Distinct sections) :
    onlySectionWith? s sections = some part ↔ ∃ t, Entries.get? t sections = some part ∧
      (part.get? s).isSome ∧ ∀ other ∈ sections, (other.2.get? s).isSome → other.1 = t := by
  have hmem : ∀ other, other ∈ sections.filter (fun part => (part.2.get? s).isSome) ↔
      other ∈ sections ∧ (other.2.get? s).isSome := fun other => List.mem_filter
  have hdistinct := h.filter fun part => (part.2.get? s).isSome
  unfold onlySectionWith?
  generalize sections.filter (fun part => (part.2.get? s).isSome) = candidates at hmem hdistinct ⊢
  constructor
  · intro hfound
    rcases candidates with _ | ⟨⟨t, only⟩, _ | ⟨another, rest⟩⟩
    · cases hfound
    · cases hfound
      obtain ⟨honly, hhas⟩ := (hmem (t, part)).mp List.mem_cons_self
      refine ⟨t, h.get?_of_mem honly, hhas, fun other hother hs => ?_⟩
      have hsame := List.mem_singleton.mp ((hmem other).mpr ⟨hother, hs⟩)
      rw [hsame]
    · cases hfound
  · rintro ⟨t, hpart, hhas, honly⟩
    have hcandidate := (hmem (t, part)).mpr ⟨Entries.mem_of_get? hpart, hhas⟩
    have halone : candidates = [(t, part)] := by
      refine hdistinct.eq_singleton hcandidate fun other hother => ?_
      obtain ⟨hsection, hs⟩ := (hmem other).mp hother
      exact honly other hsection hs
    rw [halone]

/-- The value under two keys is the entry of a section. -/
theorem valueAt?_of_section (hpart : Entries.get? t sections = some (.object entries))
    (s : String) : valueAt? (.object sections) (t, s) = Entries.get? s entries := by
  simp [valueAt?, Value.get?, hpart]

/-- A lookup that knows both keys. -/
theorem inside?_both : inside? map (some t) (some s) = valueAt? map (t, s) := by
  refine Option.ext fun value => ?_
  rw [inside?_eq_some_iff, valueAt?_eq_some_iff]
  rfl

/-- A lookup that knows the top level key. -/
theorem inside?_top (hwell : map.WellFormed) : inside? map (some t) none = some value ↔
    ∃ s, valueAt? map (t, s) = some value ∧
      ∀ other, (valueAt? map (t, other)).isSome → other = s := by
  rw [inside?_eq_some_iff]
  constructor
  · rintro ⟨sections, rfl, entries, hpart, hentry⟩
    have hdistinct := distinct_entries hwell hpart
    obtain ⟨s, hvalue, honly⟩ := (entry?_none_eq_some_iff hdistinct).mp hentry
    refine ⟨s, ?_, fun other hother => honly other ?_⟩
    · rwa [valueAt?_of_section hpart]
    · rwa [valueAt?_of_section hpart] at hother
  · rintro ⟨s, hvalue, honly⟩
    obtain ⟨sections, rfl, entries, hpart, hvalue⟩ := valueAt?_eq_some_iff.mp hvalue
    have hdistinct := distinct_entries hwell hpart
    refine ⟨sections, rfl, entries, hpart, (entry?_none_eq_some_iff hdistinct).mpr ?_⟩
    refine ⟨s, hvalue, fun other hother => honly other ?_⟩
    rwa [valueAt?_of_section hpart]

/-- A lookup that knows the second level key. -/
theorem inside?_second (hwell : map.WellFormed) : inside? map none (some s) = some value ↔
    ∃ t, valueAt? map (t, s) = some value ∧
      ∀ other, (valueAt? map (other, s)).isSome → other = t := by
  rw [inside?_eq_some_iff]
  constructor
  · rintro ⟨sections, rfl, entries, hfound, hvalue⟩
    obtain ⟨t, hpart, -, honly⟩ := (onlySectionWith?_eq_some_iff hwell.1).mp hfound
    refine ⟨t, ?_, fun other hother => ?_⟩
    · rwa [valueAt?_of_section hpart]
    · obtain ⟨found, hfound⟩ := Option.isSome_iff_exists.mp hother
      obtain ⟨part, hother, hs⟩ := Option.bind_eq_some_iff.mp hfound
      exact honly (other, part) (Entries.mem_of_get? hother) (Option.isSome_of_eq_some hs)
  · rintro ⟨t, hvalue, honly⟩
    obtain ⟨sections, rfl, entries, hpart, hvalue⟩ := valueAt?_eq_some_iff.mp hvalue
    have hfound : onlySectionWith? s sections = some (.object entries) := by
      refine (onlySectionWith?_eq_some_iff hwell.1).mpr
        ⟨t, hpart, Option.isSome_of_eq_some hvalue, fun other hother hs => honly other.1 ?_⟩
      have hother : (Value.object sections).get? other.1 = some other.2 := hwell.1.get?_of_mem hother
      rwa [valueAt?, hother, Option.bind_some]
    exact ⟨sections, rfl, entries, hfound, hvalue⟩

/-- One pair of keys fits if it has a value, agrees with what is known, and every
pair that fits is the same. -/
theorem fits_iff_eq_iff {keys : String × String} (hvalue : valueAt? map keys = some value) :
    (∀ other, Fits map top second other ↔ other = keys) ↔
      ((∀ known ∈ top, known = keys.1) ∧ ∀ known ∈ second, known = keys.2) ∧
        ∀ other, Fits map top second other → other = keys := by
  constructor
  · intro h
    exact ⟨((h keys).mpr rfl).2, fun other => (h other).mp⟩
  · rintro ⟨hagree, honly⟩ other
    refine ⟨honly other, ?_⟩
    rintro rfl
    exact ⟨Option.isSome_of_eq_some hvalue, hagree⟩

/-- A lookup finds a value inside a map if it knows one of the keys at least and
one pair of keys fits. -/
theorem inside?_eq_some_iff_fits (hwell : map.WellFormed) :
    inside? map top second = some value ↔ (top ≠ none ∨ second ≠ none) ∧
      ∃ keys, (∀ other, Fits map top second other ↔ other = keys) ∧
        valueAt? map keys = some value := by
  cases top with
  | none =>
    cases second with
    | none =>
      rw [inside?_eq_some_iff]
      constructor
      · rintro ⟨sections, -, entries, hpart, -⟩
        cases hpart
      · rintro ⟨hknown, -⟩
        simp at hknown
    | some s =>
      rw [inside?_second hwell]
      constructor
      · rintro ⟨t, hvalue, honly⟩
        refine ⟨.inr (by simp), (t, s), (fits_iff_eq_iff hvalue).mpr ⟨by simp, ?_⟩, hvalue⟩
        rintro ⟨other, same⟩ ⟨hother, -, hagree⟩
        obtain rfl := hagree s rfl
        rw [honly other hother]
      · rintro ⟨-, ⟨t, same⟩, hkeys, hvalue⟩
        obtain ⟨⟨-, hagree⟩, honly⟩ := (fits_iff_eq_iff hvalue).mp hkeys
        obtain rfl := hagree s rfl
        refine ⟨t, hvalue, fun other hother => ?_⟩
        exact congrArg Prod.fst (honly (other, s) ⟨hother, by simp⟩)
  | some t =>
    cases second with
    | none =>
      rw [inside?_top hwell]
      constructor
      · rintro ⟨s, hvalue, honly⟩
        refine ⟨.inl (by simp), (t, s), (fits_iff_eq_iff hvalue).mpr ⟨by simp, ?_⟩, hvalue⟩
        rintro ⟨same, other⟩ ⟨hother, hagree, -⟩
        obtain rfl := hagree t rfl
        rw [honly other hother]
      · rintro ⟨-, ⟨same, s⟩, hkeys, hvalue⟩
        obtain ⟨⟨hagree, -⟩, honly⟩ := (fits_iff_eq_iff hvalue).mp hkeys
        obtain rfl := hagree t rfl
        refine ⟨s, hvalue, fun other hother => ?_⟩
        exact congrArg Prod.snd (honly (t, other) ⟨hother, by simp⟩)
    | some s =>
      rw [inside?_both]
      constructor
      · intro hvalue
        refine ⟨.inl (by simp), (t, s), (fits_iff_eq_iff hvalue).mpr ⟨by simp, ?_⟩, hvalue⟩
        rintro ⟨first, last⟩ ⟨-, hfirst, hlast⟩
        rw [hfirst t rfl, hlast s rfl]
      · rintro ⟨-, ⟨first, last⟩, hkeys, hvalue⟩
        obtain ⟨⟨hfirst, hlast⟩, -⟩ := (fits_iff_eq_iff hvalue).mp hkeys
        rwa [hfirst t rfl, hlast s rfl]

/-- The map that is meant is one of the maps. -/
theorem Means.exists_mem (h : Means maps name map) : ∃ key, (key, map) ∈ maps := by
  rcases h with ⟨known, -, hmap⟩ | ⟨-, key, rfl⟩
  · exact ⟨known, Entries.mem_of_get? hmap⟩
  · exact ⟨key, List.mem_cons_self⟩

/-- A lookup finds a value exactly if there is a map that is meant, a key that is
known, and one pair of keys in this map that fits; it is the value under these. -/
theorem find_eq_some_iff_unique_fit (maps : List (String × Value))
    (hwell : (Value.object maps).WellFormed) (name top second : Option String) (value : Value) :
    find? maps name top second = some value ↔
      ∃ map, Means maps name map ∧ (top ≠ none ∨ second ≠ none) ∧
        ∃ keys, (∀ other, Fits map top second other ↔ other = keys) ∧
          valueAt? map keys = some value := by
  rw [find?_eq_bind, Option.bind_eq_some_iff]
  refine exists_congr fun map => ?_
  rw [chosen?_eq_some_iff]
  refine and_congr_right fun hmap => ?_
  obtain ⟨key, hmem⟩ := hmap.exists_mem
  exact inside?_eq_some_iff_fits (Value.wellFormed_of_mem_entries hwell.2 hmem)

/-- Two sections that share a key and one that is no section. -/
def sizeMaps : List (String × Value) :=
  [("Sizes", .object [
    ("prod", .object [("Instance", .string "m5.large"), ("Count", .integer 3)]),
    ("dev", .object [("Instance", .string "t3.micro")]),
    ("note", .string "Count")])]

/-- A map that is not there is taken for the only one, and the section that has a
count is inferred. -/
theorem find_sizeMaps :
    (Value.object sizeMaps).WellFormed ∧
      find? sizeMaps (some "Other") none (some "Count") = some (.integer 3) ∧
      ∃ map keys, Means sizeMaps (some "Other") map ∧
        (∀ other, Fits map none (some "Count") other ↔ other = keys) ∧
          valueAt? map keys = some (.integer 3) := by
  have hwell : (Value.object sizeMaps).WellFormed := by
    simp [sizeMaps, Value.WellFormed, Value.entriesWellFormed, Entries.Distinct, Entries.keys]
  have hfound : find? sizeMaps (some "Other") none (some "Count") = some (.integer 3) := rfl
  obtain ⟨map, hmap, -, keys, hkeys, hvalue⟩ :=
    (find_eq_some_iff_unique_fit sizeMaps hwell _ _ _ _).mp hfound
  exact ⟨hwell, hfound, map, keys, hmap, hkeys, hvalue⟩

end Mapping

end StackTemplate
