import HostBinding.Text.Identifier
import HostBinding.Text.Numeral

/-!
# Reading back what was written

Readers cut blanks off, split at separators and take numbers from digits. On a text that was written from
parts they find these parts again: a solid part loses nothing to trimming, a part without separators is one
field, and the digits of a word are read as that word.
-/

namespace HostBinding.Text

variable {text rest : List Char} {c : Char}

/-! ### Blanks -/

/-- A text that neither starts nor ends with a blank. -/
structure Solid (text : List Char) : Prop where
  first : ∃ c rest, text = c :: rest ∧ isBlank c = false
  last : ∃ rest c, text = rest ++ [c] ∧ isBlank c = false

theorem Solid.append {front back : List Char} (hfront : Solid front) (between : List Char)
    (hback : Solid back) : Solid (front ++ between ++ back) := by
  obtain ⟨c, rest, rfl, hc⟩ := hfront.first
  obtain ⟨rest', d, rfl, hd⟩ := hback.last
  constructor
  · exact ⟨c, rest ++ between ++ (rest' ++ [d]), rfl, hc⟩
  · exact ⟨c :: rest ++ between ++ rest', d, by simp only [List.append_assoc], hd⟩

theorem solid_of_forall (hne : text ≠ []) (h : ∀ c ∈ text, isBlank c = false) : Solid text := by
  constructor
  · obtain ⟨c, rest, rfl⟩ := List.exists_cons_of_ne_nil hne
    exact ⟨c, rest, rfl, h c List.mem_cons_self⟩
  · have hlast := List.dropLast_concat_getLast hne
    exact ⟨text.dropLast, text.getLast hne, hlast.symm, h _ (List.getLast_mem hne)⟩

theorem solid_singleton (hc : isBlank c = false) : Solid [c] :=
  ⟨⟨c, [], rfl, hc⟩, ⟨[], c, rfl, hc⟩⟩

theorem trimEnd_concat (hc : isBlank c = false) : trimEnd (rest ++ [c]) = rest ++ [c] := by
  simp [trimEnd, hc]

theorem trimEnd_append_blank (text : List Char) : trimEnd (text ++ [' ']) = trimEnd text := by
  have hblank : isBlank ' ' = true := by decide
  simp [trimEnd, hblank]

theorem Solid.trimStart_eq (h : Solid text) (after : List Char) :
    trimStart (text ++ after) = text ++ after := by
  obtain ⟨c, rest, rfl, hc⟩ := h.first
  simp [trimStart, hc]

theorem Solid.trimEnd_eq (h : Solid text) : trimEnd text = text := by
  obtain ⟨rest, c, rfl, hc⟩ := h.last
  exact trimEnd_concat hc

theorem Solid.trim_eq (h : Solid text) : trim text = text := by
  have hstart := h.trimStart_eq []
  rw [List.append_nil] at hstart
  rw [trim, hstart, h.trimEnd_eq]

theorem Solid.trim_append_blank (h : Solid text) : trim (text ++ [' ']) = text := by
  rw [trim, h.trimStart_eq, trimEnd_append_blank, h.trimEnd_eq]

/-! ### Fields -/

theorem fields_of_forall {α : Type} {p : α → Bool} {xs : List α} (h : ∀ x ∈ xs, p x = false) :
    fields p xs = [xs] := by
  induction xs with
  | nil => rfl
  | cons x rest ih =>
    obtain ⟨hx, hrest⟩ := List.forall_mem_cons.mp h
    rw [fields, ih hrest, hx]

theorem fields_append_cons {α : Type} {p : α → Bool} {xs : List α} {y : α} (h : ∀ x ∈ xs, p x = false)
    (hy : p y = true) (ys : List α) : fields p (xs ++ y :: ys) = xs :: fields p ys := by
  induction xs with
  | nil =>
    rw [List.nil_append, fields, hy]
  | cons x rest ih =>
    obtain ⟨hx, hrest⟩ := List.forall_mem_cons.mp h
    rw [List.cons_append, fields, ih hrest, hx]

theorem words_of_forall (hne : text ≠ []) (h : ∀ c ∈ text, isBlank c = false) : words text = [text] := by
  rw [words, fields_of_forall h]
  simp [hne]

/-! ### Identifiers -/

theorem toNat_of_isWordChar (hc : isWordChar c = true) : 48 ≤ c.toNat ∧ c.toNat ≤ 122 := by
  change (((decide (c.val ≥ 'A'.val ∧ c.val ≤ 'Z'.val) || (c.val ≥ 'a'.val && c.val ≤ 'z'.val)) ||
    (c.val ≥ '0'.val && c.val ≤ '9'.val)) || c == '_') = true at hc
  simp only [Bool.or_eq_true, Bool.and_eq_true, decide_eq_true_eq, beq_iff_eq, ge_iff_le,
    UInt32.le_iff_toNat_le] at hc
  change (((65 ≤ c.toNat ∧ c.toNat ≤ 90) ∨ (97 ≤ c.toNat ∧ c.toNat ≤ 122)) ∨
    (48 ≤ c.toNat ∧ c.toNat ≤ 57)) ∨ c = '_' at hc
  rcases hc with ((hupper | hlower) | hdigit) | rfl
  · omega
  · omega
  · omega
  · decide

theorem isBlank_of_toNat (hlow : 0x20 < c.toNat) (hhigh : c.toNat < 0x85) : isBlank c = false := by
  simp [isBlank, blankRanges]
  omega

theorem isBlank_of_isWordChar (hc : isWordChar c = true) : isBlank c = false := by
  obtain ⟨hlow, hhigh⟩ := toNat_of_isWordChar hc
  exact isBlank_of_toNat (by omega) (by omega)

theorem forall_of_scopes {p : Char → Prop} (h : ∀ piece ∈ scopes text, ∀ c ∈ piece, p c) :
    ∀ c ∈ text, p c ∨ c = ':' := by
  fun_induction scopes text with
  | case1 => simp
  | case2 rest ih =>
    have hrest := ih fun piece hmem => h piece (List.mem_cons_of_mem _ hmem)
    simpa using hrest
  | case3 c rest _ piece pieces hpieces ih =>
    obtain ⟨hfirst, hothers⟩ := List.forall_mem_cons.mp h
    obtain ⟨hc, hpiece⟩ := List.forall_mem_cons.mp hfirst
    have hrest := ih (hpieces ▸ List.forall_mem_cons.mpr ⟨hpiece, hothers⟩)
    exact List.forall_mem_cons.mpr ⟨.inl hc, hrest⟩
  | case4 c rest _ hpieces ih =>
    have hc := h [c] List.mem_cons_self c List.mem_cons_self
    have hrest := ih (by simp [hpieces])
    exact List.forall_mem_cons.mpr ⟨.inl hc, hrest⟩

theorem forall_of_isQualifiedIdentifier (h : isQualifiedIdentifier text = true) :
    text ≠ [] ∧ ∀ c ∈ text, isWordChar c = true ∨ c = ':' := by
  constructor
  · intro heq
    subst heq
    exact absurd h (by decide)
  · apply forall_of_scopes
    intro piece hpiece
    have hident := List.all_eq_true.mp h piece hpiece
    rw [isIdentifier, Bool.and_eq_true] at hident
    exact List.all_eq_true.mp hident.2

/-! ### Numbers -/

theorem isBlank_of_isDigit (hc : c.isDigit = true) : isBlank c = false :=
  isBlank_of_isWordChar (by simp [isWordChar, Char.isAlphanum, hc])

theorem isBlank_of_isSome_digitValue? (h : (digitValue? c).isSome = true) : isBlank c = false := by
  rw [digitValue?] at h
  split at h
  · rename_i hdigit
    exact isBlank_of_isDigit hdigit
  · split at h
    · rename_i hlower
      simp only [Char.le_def, UInt32.le_iff_toNat_le] at hlower
      change 97 ≤ c.toNat ∧ c.toNat ≤ 122 at hlower
      exact isBlank_of_toNat (by omega) (by omega)
    · split at h
      · rename_i hupper
        simp only [Char.le_def, UInt32.le_iff_toNat_le] at hupper
        change 65 ≤ c.toNat ∧ c.toNat ≤ 90 at hupper
        exact isBlank_of_toNat (by omega) (by omega)
      · cases h

theorem digitValue?_of_isDigit (hc : c.isDigit = true) :
    digitValue? c = some (c.toNat - '0'.toNat) ∧ c.toNat - '0'.toNat < 10 := by
  refine ⟨if_pos hc, ?_⟩
  have hhigh : c.toNat ≤ '9'.toNat := by
    simp only [Char.isDigit, Bool.and_eq_true, decide_eq_true_eq, UInt32.le_iff_toNat_le] at hc
    exact hc.2
  simp at hhigh ⊢
  omega

theorem readDigits?_of_isDigit (hne : text ≠ []) (h : ∀ c ∈ text, c.isDigit = true) :
    readDigits? 10 text = some (Nat.ofDigitChars 10 text 0) := by
  have hfold : ∀ start, text.foldlM (fun value c => do
      let digit ← digitValue? c
      if digit < 10 then some (value * 10 + digit) else none) start =
        some (Nat.ofDigitChars 10 text start) := by
    clear hne
    induction text with
    | nil => exact fun start => by simp
    | cons c rest ih =>
      intro start
      obtain ⟨hc, hrest⟩ := List.forall_mem_cons.mp h
      obtain ⟨hvalue, hsmall⟩ := digitValue?_of_isDigit hc
      rw [List.foldlM_cons, hvalue, Nat.ofDigitChars_cons, Nat.mul_comm 10 start]
      rw [Option.bind_eq_bind, Option.bind_some, if_pos hsmall, Option.bind_some]
      exact ih hrest _
  rw [readDigits?, if_neg (by simpa using hne)]
  exact hfold 0

theorem readWord64?_toString (word : UInt64) : readWord64? (toString word.toNat).toList = some word := by
  have hdigits : ∀ c ∈ Nat.toDigits 10 word.toNat, c.isDigit = true := fun c hc =>
    Nat.isDigit_of_mem_toDigits (by decide) (by decide) hc
  have hplus : dropPlus (Nat.toDigits 10 word.toNat) = Nat.toDigits 10 word.toNat := by
    apply dropPlus.eq_2
    intro rest hrest
    exact absurd (hdigits '+' (hrest ▸ List.mem_cons_self)) (by decide)
  rw [Nat.toString_eq_repr, Nat.toList_repr, readWord64?, hplus,
    readDigits?_of_isDigit Nat.toDigits_ne_nil hdigits, Nat.ofDigitChars_ten_toDigits, Option.bind_some,
    word64?_toNat]

end HostBinding.Text
