/-!
# Tables in insertion order

A table maps keys to values and remembers the order in which its keys came in: a value that replaces
another takes its place, and a new key goes to the end. No key occurs twice, which the type itself
says, so looking a key up finds the one entry that it has.
-/

namespace HostBinding

variable {κ : Type} {ν : Type} [DecidableEq κ]

/-- Entries with `key` set to `value`, in place when the key is there and at the end otherwise. -/
def putEntry (key : κ) (value : ν) : List (κ × ν) → List (κ × ν)
  | [] => [(key, value)]
  | entry :: rest =>
    if entry.1 = key then (key, value) :: rest else entry :: putEntry key value rest

theorem mem_keys_putEntry {key k : κ} {value : ν} {entries : List (κ × ν)} :
    k ∈ (putEntry key value entries).map Prod.fst ↔ k = key ∨ k ∈ entries.map Prod.fst := by
  induction entries with
  | nil => simp [putEntry]
  | cons entry rest ih =>
    simp only [putEntry]
    split
    · rename_i h
      simp [h]
    · simp only [List.map_cons, List.mem_cons, ih]
      constructor
      · rintro (h | h | h) <;> simp [h]
      · rintro (h | h | h) <;> simp [h]

theorem nodup_keys_putEntry {key : κ} {value : ν} {entries : List (κ × ν)}
    (h : (entries.map Prod.fst).Nodup) : ((putEntry key value entries).map Prod.fst).Nodup := by
  induction entries with
  | nil => simp [putEntry]
  | cons entry rest ih =>
    rw [List.map_cons, List.nodup_cons] at h
    simp only [putEntry]
    split
    · rename_i hkey
      subst hkey
      exact List.nodup_cons.mpr h
    · rename_i hkey
      rw [List.map_cons, List.nodup_cons]
      refine ⟨fun hmem => ?_, ih h.2⟩
      rcases mem_keys_putEntry.mp hmem with heq | hmem
      · exact hkey heq
      · exact h.1 hmem

/-- A finite map that keeps its keys in the order of their first insertion. -/
structure Table (κ ν : Type) where
  entries : List (κ × ν) := []
  nodup_keys : (entries.map Prod.fst).Nodup := by simp

namespace Table

instance : Inhabited (Table κ ν) := ⟨⟨[], by simp⟩⟩

instance : EmptyCollection (Table κ ν) := ⟨⟨[], by simp⟩⟩

omit [DecidableEq κ] in
theorem ext_entries {s t : Table κ ν} (h : s.entries = t.entries) : s = t := by
  cases s
  cases t
  cases h
  rfl

instance [DecidableEq ν] : DecidableEq (Table κ ν) := fun s t =>
  decidable_of_iff (s.entries = t.entries) ⟨ext_entries, fun h => h ▸ rfl⟩

def keys (t : Table κ ν) : List κ :=
  t.entries.map Prod.fst

def values (t : Table κ ν) : List ν :=
  t.entries.map Prod.snd

def size (t : Table κ ν) : Nat :=
  t.entries.length

def isEmpty (t : Table κ ν) : Bool :=
  t.entries.isEmpty

def get? (t : Table κ ν) (key : κ) : Option ν :=
  (t.entries.find? (·.1 = key)).map Prod.snd

def contains (t : Table κ ν) (key : κ) : Bool :=
  (t.get? key).isSome

/-- Sets the value of a key; a key that the table has keeps its position. -/
def insert (t : Table κ ν) (key : κ) (value : ν) : Table κ ν where
  entries := putEntry key value t.entries
  nodup_keys := nodup_keys_putEntry t.nodup_keys

def filter (t : Table κ ν) (p : κ → ν → Bool) : Table κ ν where
  entries := t.entries.filter fun entry => p entry.1 entry.2
  nodup_keys := (List.filter_sublist.map _).nodup t.nodup_keys

def mapValues {ω : Type} (t : Table κ ν) (f : ν → ω) : Table κ ω where
  entries := t.entries.map fun entry => (entry.1, f entry.2)
  nodup_keys := by simpa [List.map_map, Function.comp_def] using t.nodup_keys

/-- The table that inserting the pairs in order makes: of two pairs with one key the first gives the
position and the last the value. -/
def ofList (pairs : List (κ × ν)) : Table κ ν :=
  pairs.foldl (fun t pair => t.insert pair.1 pair.2) ∅

theorem get?_insert (t : Table κ ν) (key k : κ) (value : ν) :
    (t.insert key value).get? k = if k = key then some value else t.get? k := by
  obtain ⟨entries, _⟩ := t
  simp only [insert, get?]
  induction entries with
  | nil => by_cases h : k = key <;> simp [putEntry, h, eq_comm]
  | cons entry rest ih =>
    simp only [putEntry]
    split
    · rename_i hkey
      by_cases h : k = key
      · simp [h]
      · have hne : ¬ key = k := fun heq => h heq.symm
        simp [h, hne, hkey]
    · rename_i hkey
      by_cases h : entry.1 = k
      · have hne : ¬ k = key := fun heq => hkey (h.trans heq)
        simp [h, hne]
      · simpa [List.find?_cons, h] using ih (by rename_i hnodup; exact (List.nodup_cons.mp hnodup).2)

theorem get?_empty (k : κ) : (∅ : Table κ ν).get? k = none :=
  rfl

theorem get?_mapValues {ω : Type} (t : Table κ ν) (f : ν → ω) (k : κ) :
    (t.mapValues f).get? k = (t.get? k).map f := by
  obtain ⟨entries, _⟩ := t
  simp only [mapValues, get?, List.find?_map, Option.map_map]
  rfl

theorem get?_eq_some_iff {t : Table κ ν} {k : κ} {value : ν} :
    t.get? k = some value ↔ (k, value) ∈ t.entries := by
  obtain ⟨entries, hnodup⟩ := t
  simp only [get?]
  induction entries with
  | nil => simp
  | cons entry rest ih =>
    rw [List.map_cons, List.nodup_cons] at hnodup
    rw [List.find?_cons]
    by_cases h : entry.1 = k
    · have hrest : (k, value) ∉ rest := fun hmem =>
        hnodup.1 (List.mem_map.mpr ⟨(k, value), hmem, h.symm⟩)
      obtain ⟨first, held⟩ := entry
      simp_all [eq_comm]
    · have hne : (k, value) ≠ entry := fun heq => h (heq ▸ rfl)
      simpa [h, hne] using ih hnodup.2

theorem get?_filter (t : Table κ ν) (p : κ → ν → Bool) (k : κ) :
    (t.filter p).get? k = (t.get? k).filter (p k) := by
  ext value
  rw [get?_eq_some_iff, Option.filter_eq_some_iff, get?_eq_some_iff]
  simp [filter]

theorem get?_eq_none_iff {t : Table κ ν} {k : κ} : t.get? k = none ↔ k ∉ t.keys := by
  rw [get?, Option.map_eq_none_iff, List.find?_eq_none, keys]
  simp only [decide_eq_true_eq, List.mem_map, not_exists, not_and]

theorem mem_keys_of_get? {t : Table κ ν} {k : κ} {value : ν} (h : t.get? k = some value) : k ∈ t.keys :=
  List.mem_map.mpr ⟨(k, value), get?_eq_some_iff.mp h, rfl⟩

theorem mem_keys_iff_exists {t : Table κ ν} {k : κ} : k ∈ t.keys ↔ ∃ value, t.get? k = some value := by
  rw [← Option.ne_none_iff_exists', ne_eq, get?_eq_none_iff, Classical.not_not]

theorem entries_insert_of_notMem {t : Table κ ν} {key : κ} {value : ν} (h : key ∉ t.keys) :
    (t.insert key value).entries = t.entries ++ [(key, value)] := by
  obtain ⟨entries, hnodup⟩ := t
  simp only [insert, keys] at h ⊢
  clear hnodup
  induction entries with
  | nil => rfl
  | cons entry rest ih =>
    rw [List.map_cons, List.mem_cons, not_or] at h
    rw [putEntry, if_neg (Ne.symm h.1), ih h.2, List.cons_append]

/-- A key that is there gets its value where it stands, and all other entries stay. -/
theorem entries_insert_of_mem {t : Table κ ν} {key : κ} {value : ν} (h : key ∈ t.keys) :
    (t.insert key value).entries =
      t.entries.map fun entry => if entry.1 = key then (key, value) else entry := by
  obtain ⟨entries, hnodup⟩ := t
  simp only [insert, keys] at h ⊢
  induction entries with
  | nil => simp at h
  | cons entry rest ih =>
    rw [List.map_cons, List.nodup_cons] at hnodup
    rw [List.map_cons, List.mem_cons] at h
    rw [putEntry, List.map_cons]
    split
    · rename_i hkey
      have hrest : rest.map (fun entry => if entry.1 = key then (key, value) else entry) = rest.map id := by
        refine List.map_congr_left fun other hother => if_neg fun heq => hnodup.1 ?_
        rw [hkey, ← heq]
        exact List.mem_map_of_mem hother
      rw [hrest, List.map_id]
    · rename_i hkey
      rw [ih hnodup.2 (h.resolve_left fun heq => hkey heq.symm)]

theorem keys_insert_of_mem {t : Table κ ν} {key : κ} {value : ν} (h : key ∈ t.keys) :
    (t.insert key value).keys = t.keys := by
  rw [keys, entries_insert_of_mem h, List.map_map]
  refine List.map_congr_left fun entry _ => ?_
  by_cases hkey : entry.1 = key
  · simp [hkey]
  · simp [hkey]

/-- Tables with the same keys in the same order and the same values are equal. -/
theorem ext_get? {s t : Table κ ν} (hkeys : s.keys = t.keys) (h : ∀ k, s.get? k = t.get? k) : s = t := by
  have hlength : s.entries.length = t.entries.length := by
    simpa [keys] using congrArg List.length hkeys
  refine ext_entries (List.ext_getElem hlength fun i hi hi' => ?_)
  have hkey : s.entries[i].1 = t.entries[i].1 := by
    have hat := congrArg (·[i]?) hkeys
    simpa [keys, hi, hi'] using hat
  have hheld : s.get? s.entries[i].1 = some s.entries[i].2 := get?_eq_some_iff.mpr (List.getElem_mem hi)
  have hheld' : t.get? t.entries[i].1 = some t.entries[i].2 := get?_eq_some_iff.mpr (List.getElem_mem hi')
  rw [h, hkey, hheld', Option.some.injEq] at hheld
  exact Prod.ext hkey hheld.symm

theorem insert_eq_self {t : Table κ ν} {key : κ} {value : ν} (h : t.get? key = some value) :
    t.insert key value = t := by
  refine ext_get? (keys_insert_of_mem (mem_keys_of_get? h)) fun k => ?_
  rw [get?_insert]
  split
  · rename_i hkey
    rw [hkey, h]
  · rfl

end Table

end HostBinding
