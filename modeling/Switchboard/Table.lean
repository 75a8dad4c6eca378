/-! Finite maps from names, kept as lists of pairs with distinct keys. Insertion replaces the value
of a known key in its place and puts a new key at the end. -/

namespace Switchboard

abbrev Table (α : Type) := List (String × α)

namespace Table

variable {α : Type}

def get? (t : Table α) (key : String) : Option α :=
  List.lookup key t

def contains (t : Table α) (key : String) : Bool :=
  t.any (·.1 == key)

def insert (key : String) (value : α) : Table α → Table α
  | [] => [(key, value)]
  | (k, v) :: t => if k == key then (key, value) :: t else (k, v) :: insert key value t

def keys (t : Table α) : List String :=
  t.map (·.1)

/-- Of pairs with one key the last counts. -/
def ofList (pairs : List (String × α)) : Table α :=
  pairs.foldl (fun t p => t.insert p.1 p.2) []

/-- The same pairs in the code point order of their keys. -/
def sorted (t : Table α) : Table α :=
  t.mergeSort (fun a b => decide (a.1 ≤ b.1))

theorem get?_insert (t : Table α) (key other : String) (value : α) :
    (t.insert key value).get? other = if other == key then some value else t.get? other := by
  induction t with
  | nil => by_cases h : other == key <;> simp [insert, get?, List.lookup_cons, h]
  | cons p t ih =>
    obtain ⟨k, v⟩ := p
    simp only [get?] at ih
    by_cases hk : k == key
    · have hk' : k = key := by simpa using hk
      subst hk'
      by_cases h : other == k <;> simp [insert, get?, List.lookup_cons, h]
    · by_cases hok : other == k
      · have hok' : other = k := by simpa using hok
        subst hok'
        simp [insert, get?, hk]
      · simp [insert, get?, List.lookup_cons, hk, hok, ih]

theorem get?_cons (key other : String) (value : α) (t : Table α) :
    Table.get? ((key, value) :: t) other = if other = key then some value else t.get? other := by
  by_cases h : other = key
  · simp [get?, h]
  · have hb : (other == key) = false := by simpa using h
    simp [get?, List.lookup_cons, h, hb]

theorem get?_filter_ne (t : Table α) (key other : String) :
    Table.get? (t.filter (·.1 != key)) other =
      if other = key then none else t.get? other := by
  induction t with
  | nil => simp [get?]
  | cons p t ih =>
    obtain ⟨k, v⟩ := p
    by_cases hk : k = key
    · rw [List.filter_cons_of_neg (by simp [hk]), ih, get?_cons, hk]
      split <;> rfl
    · rw [List.filter_cons_of_pos (by simp [hk]), get?_cons, ih, get?_cons]
      by_cases ho : other = k
      · simp [ho, hk]
      · simp [ho]

theorem mem_of_get? {t : Table α} {key : String} {value : α} (h : t.get? key = some value) :
    (key, value) ∈ t := by
  induction t with
  | nil => simp [get?] at h
  | cons p t ih =>
    obtain ⟨k, v⟩ := p
    rw [get?_cons] at h
    by_cases hk : key = k
    · obtain rfl : v = value := by simpa [hk] using h
      simp [hk]
    · exact List.mem_cons_of_mem _ (ih (by simpa [hk] using h))

theorem insert_of_notMem {t : Table α} {key : String} (value : α) (h : key ∉ t.keys) :
    t.insert key value = t ++ [(key, value)] := by
  induction t with
  | nil => rfl
  | cons p t ih =>
    obtain ⟨k, v⟩ := p
    simp only [keys, List.map_cons, List.mem_cons, not_or] at h
    have hk : (k == key) = false := by simpa using Ne.symm h.1
    simp [insert, hk, ih h.2]

theorem keys_insert_of_mem {t : Table α} {key : String} (value : α) (h : key ∈ t.keys) :
    (t.insert key value).keys = t.keys := by
  induction t with
  | nil => simp [keys] at h
  | cons p t ih =>
    obtain ⟨k, v⟩ := p
    by_cases hk : k = key
    · simp [insert, keys, hk]
    · have ht : key ∈ keys t := by
        simp only [keys, List.map_cons, List.mem_cons] at h
        exact h.resolve_left (Ne.symm hk)
      have hb : (k == key) = false := by simpa using hk
      simpa [insert, keys, hb] using ih ht

theorem mem_keys_insert {t : Table α} {key other : String} {value : α} :
    other ∈ (t.insert key value).keys ↔ other = key ∨ other ∈ t.keys := by
  by_cases h : key ∈ t.keys
  · rw [keys_insert_of_mem value h]
    constructor
    · exact .inr
    · rintro (rfl | ho)
      · exact h
      · exact ho
  · rw [insert_of_notMem value h]
    simp [keys, or_comm]

theorem nodup_keys_insert {t : Table α} (h : t.keys.Nodup) (key : String) (value : α) :
    (t.insert key value).keys.Nodup := by
  by_cases hk : key ∈ t.keys
  · rw [keys_insert_of_mem value hk]
    exact h
  · rw [insert_of_notMem value hk, keys, List.map_append, List.nodup_append]
    refine ⟨h, by simp, ?_⟩
    intro a ha b hb
    obtain rfl : b = key := by simpa using hb
    exact fun he => hk (he ▸ ha)

theorem get?_of_mem {t : Table α} (h : t.keys.Nodup) {key : String} {value : α}
    (hm : (key, value) ∈ t) : t.get? key = some value := by
  induction t with
  | nil => simp at hm
  | cons p t ih =>
    obtain ⟨k, v⟩ := p
    have hn : k ∉ keys t ∧ (keys t).Nodup := List.nodup_cons.mp h
    rw [get?_cons]
    rcases List.mem_cons.mp hm with he | hm
    · cases he
      simp
    · have hk : key ≠ k := fun he => hn.1 (he ▸ List.mem_map_of_mem hm)
      simpa [hk] using ih hn.2 hm

end Table

end Switchboard
