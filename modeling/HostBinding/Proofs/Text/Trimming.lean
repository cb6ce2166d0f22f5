import Mathlib.Data.List.Basic
import Mathlib.Data.List.TakeWhile
import HostBinding.Proofs.Text.Reading

/-!
# What trimming takes off

Trimming drops a run of blanks at the start and one at the end. What is left keeps every other character, starts
with none of the blanks, and is not changed by more of them behind the text.
-/

namespace HostBinding.Text

variable {text back : List Char} {c : Char}

/-! ### At the start -/

theorem exists_trimStart (text : List Char) :
    ∃ blanks, text = blanks ++ trimStart text ∧ ∀ c ∈ blanks, isBlank c = true :=
  ⟨text.takeWhile isBlank, List.takeWhile_append_dropWhile.symm, fun _ hc => List.mem_takeWhile_imp hc⟩

theorem isBlank_of_trimStart (text : List Char) : ∀ c rest, trimStart text = c :: rest → isBlank c = false := by
  intro c rest h
  rw [trimStart] at h
  have hne : text.dropWhile isBlank ≠ [] := by simp [h]
  simpa [h] using List.head_dropWhile_not isBlank hne

theorem trimStart_of_first (h : ∀ c rest, text = c :: rest → isBlank c = false) : trimStart text = text := by
  cases text with
  | nil => rfl
  | cons c rest => simp [trimStart, h c rest rfl]

theorem trimStart_ne_nil (h : trim text ≠ []) : trimStart text ≠ [] := by
  intro hnil
  rw [trim, hnil] at h
  exact h rfl

theorem trimStart_append (h : trimStart text ≠ []) (back : List Char) :
    trimStart (text ++ back) = trimStart text ++ back := by
  rw [trimStart] at h
  rw [trimStart, trimStart, List.dropWhile_append, if_neg (by simpa using h)]

theorem mem_trimStart_iff (hc : isBlank c = false) : c ∈ trimStart text ↔ c ∈ text := by
  obtain ⟨blanks, htext, hblanks⟩ := exists_trimStart text
  have hnone : c ∉ blanks := fun hmem => by simp [hblanks c hmem] at hc
  have hsplit : c ∈ text ↔ c ∈ blanks ∨ c ∈ trimStart text := by rw [← List.mem_append, ← htext]
  exact (hsplit.trans (or_iff_right hnone)).symm

/-! ### At the end -/

theorem exists_trimEnd (text : List Char) :
    ∃ blanks, text = trimEnd text ++ blanks ∧ ∀ c ∈ blanks, isBlank c = true := by
  refine ⟨(text.reverse.takeWhile isBlank).reverse, ?_, ?_⟩
  · rw [trimEnd, ← List.reverse_append, List.takeWhile_append_dropWhile, List.reverse_reverse]
  · intro c hc
    exact List.mem_takeWhile_imp (List.mem_reverse.mp hc)

theorem trimEnd_prefix_self (text : List Char) : trimEnd text <+: text := by
  obtain ⟨blanks, htext, -⟩ := exists_trimEnd text
  exact ⟨blanks, htext.symm⟩

theorem trimEnd_append (front : List Char) (hback : trimEnd back ≠ []) :
    trimEnd (front ++ back) = front ++ trimEnd back := by
  have hne : (back.reverse.dropWhile isBlank).isEmpty = false := by
    simpa [trimEnd] using hback
  rw [trimEnd, trimEnd, List.reverse_append, List.dropWhile_append, hne]
  simp

theorem trimEnd_append_blanks (text : List Char) (hback : ∀ c ∈ back, isBlank c = true) :
    trimEnd (text ++ back) = trimEnd text := by
  rw [trimEnd, trimEnd, List.reverse_append, List.dropWhile_append_of_pos (by simpa using hback)]

theorem trimEnd_trimEnd (text : List Char) : trimEnd (trimEnd text) = trimEnd text := by
  rcases List.eq_nil_or_concat' (trimEnd text) with hnil | hlast
  · rw [hnil]
    rfl
  · obtain ⟨rest, c, hrest⟩ := hlast
    have hc : isBlank c = false := by
      have hreverse : text.reverse.dropWhile isBlank = c :: rest.reverse := by
        have h := congrArg List.reverse hrest
        rw [trimEnd, List.reverse_reverse] at h
        simpa using h
      have hne : text.reverse.dropWhile isBlank ≠ [] := by simp [hreverse]
      have hhead := List.head_dropWhile_not isBlank hne
      simpa [hreverse] using hhead
    rw [hrest, trimEnd_concat hc]

theorem mem_trimEnd_iff (hc : isBlank c = false) : c ∈ trimEnd text ↔ c ∈ text := by
  obtain ⟨blanks, htext, hblanks⟩ := exists_trimEnd text
  have hnone : c ∉ blanks := fun hmem => by simp [hblanks c hmem] at hc
  have hsplit : c ∈ text ↔ c ∈ trimEnd text ∨ c ∈ blanks := by rw [← List.mem_append, ← htext]
  exact (hsplit.trans (or_iff_left hnone)).symm

/-! ### At both ends -/

theorem mem_trim_iff (hc : isBlank c = false) : c ∈ trim text ↔ c ∈ text :=
  (mem_trimEnd_iff hc).trans (mem_trimStart_iff hc)

end HostBinding.Text
