/-!
# Entries

Mappings keep the order in which their keys were first written. They are lists
of pairs, and every operation here keeps the keys of such a list distinct.
-/

namespace StackTemplate.Entries

variable {α β : Type}

/-- The value under a key. -/
def get? (key : String) : List (String × α) → Option α
  | [] => none
  | (k, v) :: rest => if k = key then some v else get? key rest

/-- Whether a key is present. -/
def contains (key : String) : List (String × α) → Bool
  | [] => false
  | (k, _) :: rest => k = key || contains key rest

/-- Sets the value under a key. A key that is present keeps its position, a new
one goes to the end. -/
def insert (key : String) (value : α) : List (String × α) → List (String × α)
  | [] => [(key, value)]
  | (k, v) :: rest =>
    if k = key then (k, value) :: rest else (k, v) :: insert key value rest

/-- The pairs entered one after the other: a repeated key keeps its first
position and its last value. -/
def ofPairs (pairs : List (String × α)) : List (String × α) :=
  pairs.foldl (fun entries pair => insert pair.1 pair.2 entries) []

/-- The keys in order. -/
def keys (entries : List (String × α)) : List String := entries.map Prod.fst

/-- Whether all keys are distinct. -/
def Distinct (entries : List (String × α)) : Prop := (keys entries).Nodup

/-- A key is present exactly when it has a value. -/
theorem contains_eq_isSome_get? (key : String) (entries : List (String × α)) :
    contains key entries = (get? key entries).isSome := by
  induction entries with
  | nil => rfl
  | cons pair rest ih =>
    obtain ⟨k, v⟩ := pair
    by_cases h : k = key <;> simp [contains, get?, h, ih]

/-- A value that is found stands in the list under its key. -/
theorem mem_of_get? {key : String} {value : α} {entries : List (String × α)}
    (h : get? key entries = some value) : (key, value) ∈ entries := by
  induction entries with
  | nil => cases h
  | cons pair rest ih =>
    obtain ⟨k, v⟩ := pair
    rw [get?] at h
    split at h
    · next hk =>
      cases h
      exact hk ▸ List.mem_cons_self
    · exact List.mem_cons_of_mem _ (ih h)

/-- The value under a key in one list after another: the first list decides if it
has the key. -/
theorem get?_append (key : String) (first second : List (String × α)) :
    get? key (first ++ second) = (get? key first).or (get? key second) := by
  induction first with
  | nil => rfl
  | cons pair rest ih =>
    obtain ⟨k, v⟩ := pair
    by_cases h : k = key <;> simp [get?, h, ih]

/-- Keys that are listed with their values have them. -/
theorem get?_map_self (value : String → α) (names : List String) (key : String) :
    get? key (names.map fun name => (name, value name)) =
      if key ∈ names then some (value key) else none := by
  induction names with
  | nil => rfl
  | cons name names ih =>
    by_cases h : name = key
    · simp [get?, h]
    · simp [get?, h, ih, Ne.symm h]

/-- The presence of a key is a matter of the list of keys. -/
theorem contains_iff_mem_keys {key : String} {entries : List (String × α)} :
    contains key entries = true ↔ key ∈ keys entries := by
  induction entries with
  | nil => simp [contains, keys]
  | cons pair rest ih =>
    obtain ⟨k, v⟩ := pair
    simp only [contains, keys, Bool.or_eq_true, decide_eq_true_eq, List.map_cons,
      List.mem_cons, ih, eq_comm (a := k)]

/-- The value just set is found under its key. -/
theorem get?_insert_self (key : String) (value : α) (entries : List (String × α)) :
    get? key (insert key value entries) = some value := by
  induction entries with
  | nil => simp [insert, get?]
  | cons pair rest ih =>
    obtain ⟨k, v⟩ := pair
    by_cases h : k = key <;> simp [insert, get?, h, ih]

/-- Setting a key leaves the values of the others alone. -/
theorem get?_insert_of_ne {key other : String} (h : other ≠ key) (value : α)
    (entries : List (String × α)) :
    get? other (insert key value entries) = get? other entries := by
  induction entries with
  | nil => simp [insert, get?, h.symm]
  | cons pair rest ih =>
    obtain ⟨k, v⟩ := pair
    by_cases hk : k = key
    · subst hk
      simp [insert, get?, h.symm]
    · simp only [insert, hk, if_false, get?, ih]

/-- Whatever stands in the list after setting a key stood there or was set. -/
theorem eq_or_mem_of_mem_insert {key : String} {value : α} {entries : List (String × α)}
    {pair : String × α} (h : pair ∈ insert key value entries) :
    pair = (key, value) ∨ pair ∈ entries := by
  induction entries with
  | nil => exact .inl (List.mem_singleton.mp h)
  | cons first rest ih =>
    obtain ⟨k, v⟩ := first
    rw [insert] at h
    split at h
    · next hk =>
      subst hk
      exact (List.mem_cons.mp h).imp_right (List.mem_cons_of_mem _)
    · rcases List.mem_cons.mp h with rfl | hrest
      · exact .inr List.mem_cons_self
      · exact (ih hrest).imp_right (List.mem_cons_of_mem _)

/-- Setting a key keeps the keys if it is present, and appends it if not. -/
theorem keys_insert (key : String) (value : α) (entries : List (String × α)) :
    keys (insert key value entries) =
      if contains key entries then keys entries else keys entries ++ [key] := by
  induction entries with
  | nil => simp [insert, keys, contains]
  | cons pair rest ih =>
    obtain ⟨k, v⟩ := pair
    by_cases hk : k = key
    · simp [insert, keys, contains, hk]
    · simp only [insert, hk, if_false, contains, decide_false, Bool.false_or]
      simp only [keys, List.map_cons] at ih ⊢
      rw [ih]
      split <;> rfl

/-- The keys of one list after another. -/
theorem keys_append (first second : List (String × α)) :
    keys (first ++ second) = keys first ++ keys second := List.map_append

/-- A new key at the end keeps distinct keys distinct. -/
theorem Distinct.concat {entries : List (String × α)} (h : Distinct entries) {key : String}
    (hnew : ¬contains key entries = true) (value : α) : Distinct (entries ++ [(key, value)]) := by
  have hkey : key ∉ keys entries := fun hmem => hnew (contains_iff_mem_keys.2 hmem)
  have hlast : (keys [(key, value)]).Nodup := by simp [keys]
  rw [Distinct, keys_append, List.nodup_append]
  refine ⟨h, hlast, fun other hother last hmem => ?_⟩
  have he : last = key := List.mem_singleton.1 hmem
  rw [he]
  exact fun hsame => hkey (hsame ▸ hother)

/-- Setting a key keeps distinct keys distinct. -/
theorem Distinct.insert {entries : List (String × α)} (h : Distinct entries) (key : String)
    (value : α) : Distinct (insert key value entries) := by
  rw [Distinct, keys_insert]
  split
  · exact h
  · next hnew =>
    have hlonger := h.concat hnew value
    rw [Distinct, keys_append] at hlonger
    exact hlonger

/-- Where keys are distinct, an entry that is listed is the one that is found. -/
theorem Distinct.get?_of_mem {entries : List (String × α)} (h : Distinct entries) {key : String}
    {value : α} (hmem : (key, value) ∈ entries) : get? key entries = some value := by
  induction entries with
  | nil => cases hmem
  | cons pair rest ih =>
    obtain ⟨k, v⟩ := pair
    obtain ⟨hfirst, hrest⟩ := List.nodup_cons.1 h
    rw [get?]
    rcases List.mem_cons.1 hmem with he | hlater
    · cases he
      rw [if_pos rfl]
    · have hkey : key ∈ keys rest := List.mem_map.2 ⟨_, hlater, rfl⟩
      have hne : k ≠ key := fun he => hfirst (he ▸ hkey)
      rw [if_neg hne, ih hrest hlater]

/-- A new key goes to the end. -/
theorem insert_of_not_contains {key : String} {entries : List (String × α)}
    (h : ¬contains key entries = true) (value : α) :
    insert key value entries = entries ++ [(key, value)] := by
  induction entries with
  | nil => rfl
  | cons pair rest ih =>
    obtain ⟨k, v⟩ := pair
    simp only [contains, Bool.or_eq_true, decide_eq_true_eq, not_or] at h
    rw [insert, if_neg h.1, ih h.2, List.cons_append]

/-- Of two values set under a key, the later one stays. -/
theorem insert_insert_self (key : String) (first second : α) (entries : List (String × α)) :
    insert key second (insert key first entries) = insert key second entries := by
  induction entries with
  | nil => simp [insert]
  | cons pair rest ih =>
    obtain ⟨k, v⟩ := pair
    by_cases h : k = key <;> simp [insert, h, ih]

/-- A key that is present keeps its position, so it may be set before or after
another key. -/
theorem insert_comm_of_contains {key other : String} {entries : List (String × α)}
    (h : contains key entries = true) (hne : other ≠ key) (value added : α) :
    insert other added (insert key value entries) =
      insert key value (insert other added entries) := by
  induction entries with
  | nil => cases h
  | cons pair rest ih =>
    obtain ⟨k, v⟩ := pair
    by_cases hk : k = key
    · subst hk
      simp [insert, hne.symm]
    · have hrest : contains key rest = true := by simpa [contains, hk] using h
      by_cases ho : k = other
      · subst ho
        simp [insert, hk]
      · simp [insert, hk, ho, ih hrest]

/-- Pairs with distinct keys are entered as they are. -/
theorem ofPairs_of_distinct {pairs : List (String × α)} (h : Distinct pairs) :
    ofPairs pairs = pairs := by
  have hfrom : ∀ (later before : List (String × α)), Distinct (before ++ later) →
      later.foldl (fun entries pair => insert pair.1 pair.2 entries) before = before ++ later := by
    intro later
    induction later with
    | nil => exact fun before _ => (List.append_nil before).symm
    | cons pair later ih =>
      intro before hdistinct
      have hnew : ¬contains pair.1 before = true := by
        intro hknown
        rw [Distinct, keys_append, List.nodup_append] at hdistinct
        exact hdistinct.2.2 pair.1 (contains_iff_mem_keys.1 hknown) pair.1 List.mem_cons_self rfl
      have hsplit : before ++ pair :: later = (before ++ [pair]) ++ later := by
        rw [List.append_assoc, List.singleton_append]
      rw [hsplit] at hdistinct ⊢
      rw [List.foldl_cons, insert_of_not_contains hnew]
      exact ih _ hdistinct
  exact hfrom pairs [] h

end StackTemplate.Entries
