import Mathlib.Data.List.Induction
import Mathlib.Data.List.Nodup

/-!
# First occurrences

Whatever is collected once keeps the place where it was seen first. What is left of a list then is stated by a
key: an element stays when no element before it has its key. Collecting in several steps leaves the same as
collecting at once.
-/

namespace HostBinding

variable {α κ : Type} [DecidableEq κ]

/-- The elements of a list that are the first ones with their key. -/
def firstBy (key : α → κ) : List α → List α
  | [] => []
  | x :: rest => x :: (firstBy key rest).filter (key · ≠ key x)

variable {key : α → κ} {xs ys : List α} {x : α}

theorem mem_keys_firstBy {k : κ} : k ∈ (firstBy key xs).map key ↔ k ∈ xs.map key := by
  induction xs with
  | nil => rfl
  | cons x rest ih =>
    rw [firstBy, List.map_cons, List.map_cons, List.mem_cons, List.mem_cons, ← ih]
    by_cases hk : k = key x
    · simp [hk]
    · simp only [hk, false_or, List.mem_map, List.mem_filter, decide_eq_true_eq]
      constructor
      · rintro ⟨y, ⟨hy, -⟩, rfl⟩
        exact ⟨y, hy, rfl⟩
      · rintro ⟨y, hy, rfl⟩
        exact ⟨y, ⟨hy, hk⟩, rfl⟩

theorem mem_firstBy_id {ks : List κ} {k : κ} : k ∈ firstBy id ks ↔ k ∈ ks := by
  have hmem : k ∈ (firstBy id ks).map id ↔ k ∈ ks.map id := mem_keys_firstBy
  rwa [List.map_id, List.map_id] at hmem

theorem mem_of_mem_firstBy (h : x ∈ firstBy key xs) : x ∈ xs := by
  induction xs with
  | nil => exact h
  | cons y rest ih =>
    rw [firstBy] at h
    rcases List.mem_cons.mp h with rfl | hrest
    · exact List.mem_cons_self
    · exact List.mem_cons_of_mem _ (ih (List.mem_of_mem_filter hrest))

theorem nodup_firstBy (key : α → κ) (xs : List α) : ((firstBy key xs).map key).Nodup := by
  induction xs with
  | nil => exact List.nodup_nil
  | cons x rest ih =>
    rw [firstBy, List.map_cons, List.nodup_cons]
    refine ⟨?_, ih.sublist (List.filter_sublist.map key)⟩
    simp [List.mem_map, List.mem_filter]

theorem find?_key_eq (h : (xs.map key).Nodup) (hx : x ∈ xs) : xs.find? (key · = key x) = some x := by
  have hsome : (xs.find? (key · = key x)).isSome := List.find?_isSome.mpr ⟨x, hx, decide_eq_true rfl⟩
  obtain ⟨y, hfound⟩ := Option.isSome_iff_exists.mp hsome
  have hkey : key y = key x := by simpa using List.find?_some hfound
  rw [hfound, List.inj_on_of_nodup_map h (List.mem_of_find?_eq_some hfound) hx hkey]

theorem firstBy_eq_self (h : (xs.map key).Nodup) : firstBy key xs = xs := by
  induction xs with
  | nil => rfl
  | cons x rest ih =>
    rw [List.map_cons, List.nodup_cons] at h
    rw [firstBy, ih h.2, List.filter_eq_self.mpr]
    intro y hy
    rw [decide_eq_true_eq]
    exact fun heq => h.1 (heq ▸ List.mem_map_of_mem hy)

theorem filter_firstBy (p : κ → Bool) (xs : List α) :
    (firstBy key xs).filter (fun x => p (key x)) = firstBy key (xs.filter fun x => p (key x)) := by
  induction xs with
  | nil => rfl
  | cons x rest ih =>
    cases hx : p (key x) with
    | true =>
      simp only [firstBy, List.filter_cons, hx, if_true]
      rw [← ih, List.filter_comm]
    | false =>
      simp only [firstBy, List.filter_cons, hx, Bool.false_eq_true, if_false]
      rw [← ih, List.filter_comm, List.filter_eq_self]
      intro y hy
      have hy' := (List.mem_filter.mp hy).2
      rw [decide_eq_true_eq]
      intro heq
      rw [heq, hx] at hy'
      cases hy'

theorem firstBy_concat :
    firstBy key (xs ++ [x]) = if key x ∈ xs.map key then firstBy key xs else firstBy key xs ++ [x] := by
  induction xs with
  | nil => rfl
  | cons y rest ih =>
    rw [List.cons_append, firstBy, ih, firstBy]
    by_cases hrest : key x ∈ rest.map key
    · rw [if_pos hrest, List.map_cons, if_pos (List.mem_cons_of_mem _ hrest)]
    · rw [if_neg hrest, List.filter_append, List.map_cons]
      by_cases hy : key x = key y
      · rw [if_pos (List.mem_cons.mpr (.inl hy))]
        simp [hy]
      · rw [if_neg (by simpa [hy] using hrest)]
        simp [hy]

theorem firstBy_append (xs ys : List α) :
    firstBy key (xs ++ ys) = firstBy key xs ++ (firstBy key ys).filter (key · ∉ xs.map key) := by
  induction ys using List.reverseRecOn with
  | nil => simp [firstBy]
  | append_singleton rest y ih =>
    rw [← List.append_assoc, firstBy_concat, firstBy_concat, ih, List.map_append]
    by_cases hrest : key y ∈ rest.map key
    · rw [if_pos (List.mem_append_right _ hrest), if_pos hrest]
    · rw [if_neg hrest, List.filter_append]
      by_cases hxs : key y ∈ xs.map key
      · rw [if_pos (List.mem_append_left _ hxs), List.filter_cons_of_neg (by simpa using hxs), List.filter_nil,
          List.append_nil]
      · rw [if_neg fun hmem => (List.mem_append.mp hmem).elim hxs hrest,
          List.filter_cons_of_pos (by simpa using hxs), List.filter_nil, List.append_assoc]

theorem foldl_firstBy {push : List α → α → List α}
    (hpush : ∀ xs x, push xs x = if key x ∈ xs.map key then xs else xs ++ [x]) (xs ys : List α) :
    ys.foldl push (firstBy key xs) = firstBy key (xs ++ ys) := by
  induction ys generalizing xs with
  | nil => rw [List.append_nil, List.foldl_nil]
  | cons y rest ih =>
    have hstep : push (firstBy key xs) y = firstBy key (xs ++ [y]) := by
      rw [hpush, firstBy_concat]
      simp only [mem_keys_firstBy]
    rw [List.foldl_cons, hstep, ih, List.append_assoc, List.singleton_append]

theorem firstBy_append_of_mem (h : ∀ y ∈ ys, key y ∈ xs.map key) :
    firstBy key (xs ++ ys) = firstBy key xs := by
  rw [firstBy_append, List.filter_eq_nil_iff.mpr, List.append_nil]
  intro y hy
  simpa using h y (mem_of_mem_firstBy hy)

theorem firstBy_firstBy_append (xs ys : List α) :
    firstBy key (firstBy key xs ++ ys) = firstBy key (xs ++ ys) := by
  rw [firstBy_append, firstBy_append, firstBy_eq_self (nodup_firstBy key xs)]
  simp only [mem_keys_firstBy]

theorem firstBy_append_firstBy (xs ys : List α) :
    firstBy key (xs ++ firstBy key ys) = firstBy key (xs ++ ys) := by
  rw [firstBy_append, firstBy_append, firstBy_eq_self (nodup_firstBy key ys)]

theorem firstBy_append_congr {zs : List α} (h : firstBy key xs = firstBy key ys) :
    firstBy key (xs ++ zs) = firstBy key (ys ++ zs) := by
  rw [← firstBy_firstBy_append xs, h, firstBy_firstBy_append]

end HostBinding
