import Mathlib.Data.List.TakeWhile
import HostBinding.Proofs.Text.Reading

/-!
# The words of a text

A text falls into words at its blanks. One equation says how: a blank between two texts keeps their words
apart. So words with one space between them are found again.
-/

namespace HostBinding.Text

variable {text front back : List Char} {c : Char}

/-- Whether all characters of a text are of a kind is decided along the text, and not by trying every character. -/
instance decidableForallMem (p : Char → Prop) [DecidablePred p] (text : List Char) :
    Decidable (∀ c ∈ text, p c) :=
  List.decidableBAll p text

/-! ### Fields -/

theorem fields_ne_nil {α : Type} (p : α → Bool) (xs : List α) : fields p xs ≠ [] := by
  fun_cases fields p xs <;> exact List.cons_ne_nil _ _

theorem fields_cons_of_pos {α : Type} {p : α → Bool} {y : α} (hy : p y = true) (ys : List α) :
    fields p (y :: ys) = [] :: fields p ys := by
  simp only [fields, hy]

theorem fields_append_of_neg {α : Type} {p : α → Bool} {xs : List α} (hxs : ∀ x ∈ xs, p x = false)
    (ys : List α) : fields p (xs ++ ys) = (fields p ys).modifyHead (xs ++ ·) := by
  obtain ⟨piece, pieces, hpieces⟩ := List.exists_cons_of_ne_nil (fields_ne_nil p ys)
  induction xs with
  | nil =>
    rw [List.nil_append, hpieces]
    rfl
  | cons x rest ih =>
    obtain ⟨hx, hrest⟩ := List.forall_mem_cons.mp hxs
    rw [List.cons_append, fields, hx, ih hrest, hpieces]
    rfl

theorem fields_append_separator {α : Type} {p : α → Bool} {y : α} (hy : p y = true) (xs ys : List α) :
    fields p (xs ++ y :: ys) = fields p xs ++ fields p ys := by
  induction xs with
  | nil => simp only [List.nil_append, fields, hy, List.cons_append]
  | cons x rest ih =>
    obtain ⟨piece, pieces, hpieces⟩ := List.exists_cons_of_ne_nil (fields_ne_nil p rest)
    rw [List.cons_append, fields, fields, ih, hpieces]
    cases p x <;> rfl

theorem exists_mem_fields {α : Type} {p : α → Bool} {x : α} {xs : List α} (hmem : x ∈ xs) (hx : p x = false) :
    ∃ piece ∈ fields p xs, x ∈ piece := by
  induction xs with
  | nil => cases hmem
  | cons y rest ih =>
    obtain ⟨first, pieces, hpieces⟩ := List.exists_cons_of_ne_nil (fields_ne_nil p rest)
    rcases List.mem_cons.mp hmem with rfl | hrest
    · exact ⟨x :: first, by simp [fields, hx, hpieces], List.mem_cons_self⟩
    · obtain ⟨piece, hpiece, hin⟩ := ih hrest
      rw [hpieces] at hpiece
      cases hy : p y with
      | true => exact ⟨piece, by simp [fields, hy, hpieces, List.mem_cons.mp hpiece], hin⟩
      | false =>
        rcases List.mem_cons.mp hpiece with rfl | hothers
        · exact ⟨y :: piece, by simp [fields, hy, hpieces], List.mem_cons_of_mem _ hin⟩
        · exact ⟨piece, by simp [fields, hy, hpieces, hothers], hin⟩

/-! ### Words -/

/-- A blank keeps the words on both of its sides apart. -/
theorem words_append_blank (hc : isBlank c = true) (front back : List Char) :
    words (front ++ c :: back) = words front ++ words back := by
  rw [words, fields_append_separator hc, List.filter_append]
  rfl

theorem words_cons_blank (hc : isBlank c = true) (text : List Char) : words (c :: text) = words text :=
  words_append_blank hc [] text

theorem words_append_of_blank (hfront : ∀ c ∈ front, isBlank c = true) (back : List Char) :
    words (front ++ back) = words back := by
  induction front with
  | nil => rfl
  | cons c front ih =>
    obtain ⟨hc, hfront⟩ := List.forall_mem_cons.mp hfront
    rw [List.cons_append, words_cons_blank hc, ih hfront]

theorem exists_mem_words (hmem : c ∈ text) (hc : isBlank c = false) : ∃ word ∈ words text, c ∈ word := by
  obtain ⟨piece, hpiece, hin⟩ := exists_mem_fields hmem hc
  refine ⟨piece, List.mem_filter.mpr ⟨hpiece, ?_⟩, hin⟩
  cases piece with
  | nil => cases hin
  | cons => rfl

/-! ### Words with a space between them -/

def AreWords (ws : List (List Char)) : Prop :=
  ∀ w ∈ ws, w ≠ [] ∧ ∀ c ∈ w, isBlank c = false

def joined (ws : List (List Char)) : List Char :=
  [' '].intercalate ws

theorem joined_append {ws vs : List (List Char)} (hws : ws ≠ []) (hvs : vs ≠ []) :
    joined (ws ++ vs) = joined ws ++ ' ' :: joined vs := by
  induction ws with
  | nil => exact absurd rfl hws
  | cons w rest ih =>
    cases rest with
    | nil =>
      obtain ⟨v, vs, rfl⟩ := List.exists_cons_of_ne_nil hvs
      simp [joined, List.intercalate_cons_cons]
    | cons second rest =>
      have hrest := ih (List.cons_ne_nil _ _)
      simp only [joined, List.cons_append] at hrest ⊢
      rw [List.intercalate_cons_cons, hrest, List.intercalate_cons_cons]
      simp

theorem joined_concat {w : List Char} (hws : ws ≠ []) : joined (ws ++ [w]) = joined ws ++ ' ' :: w := by
  rw [joined_append hws (List.cons_ne_nil w []), joined, joined, List.intercalate_singleton]

theorem joined_cons {w : List Char} {ws : List (List Char)} (hws : ws ≠ []) :
    joined (w :: ws) = w ++ ' ' :: joined ws := by
  have h := joined_append (List.cons_ne_nil w []) hws
  simpa [joined] using h

theorem AreWords.tail {w : List Char} {ws : List (List Char)} (h : AreWords (w :: ws)) : AreWords ws :=
  fun v hv => h v (List.mem_cons_of_mem _ hv)

theorem AreWords.words_joined {ws : List (List Char)} (h : AreWords ws) : words (joined ws) = ws := by
  induction ws with
  | nil => rfl
  | cons w rest ih =>
    obtain ⟨hne, hblank⟩ := h w List.mem_cons_self
    have hword := words_of_forall hne hblank
    cases rest with
    | nil => simpa [joined] using hword
    | cons second rest =>
      rw [joined_cons (List.cons_ne_nil _ _), words_append_blank (by decide), hword, ih h.tail]
      rfl

theorem AreWords.solid_joined {ws : List (List Char)} (h : AreWords ws) (hne : ws ≠ []) :
    Solid (joined ws) := by
  induction ws with
  | nil => exact absurd rfl hne
  | cons w rest ih =>
    obtain ⟨hw, hblank⟩ := h w List.mem_cons_self
    have hsolid := solid_of_forall hw hblank
    cases rest with
    | nil => simpa [joined] using hsolid
    | cons second rest =>
      rw [joined_cons (List.cons_ne_nil _ _)]
      simpa using hsolid.append [' '] (ih h.tail (List.cons_ne_nil _ _))

theorem mem_joined_of_mem {w : List Char} {ws : List (List Char)} (hw : w ∈ ws) (hc : c ∈ w) :
    c ∈ joined ws := by
  induction ws with
  | nil => cases hw
  | cons first rest ih =>
    cases rest with
    | nil =>
      rw [List.mem_singleton.mp hw] at hc
      simpa [joined] using hc
    | cons second rest =>
      rw [joined_cons (List.cons_ne_nil _ _)]
      rcases List.mem_cons.mp hw with rfl | hrest
      · exact List.mem_append_left _ hc
      · exact List.mem_append_right _ (List.mem_cons_of_mem _ (ih hrest))

end HostBinding.Text
