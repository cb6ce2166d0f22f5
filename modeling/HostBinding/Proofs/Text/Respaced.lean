import Mathlib.Data.List.Forall2
import HostBinding.Proofs.Text.Words

/-!
# Texts that differ only in their blanks

Two texts are respaced forms of each other when they have blanks in the same places, but perhaps others or another
number of them. Such texts come apart in the same places at every character that is no blank, so whatever looks for
such characters, or cuts blanks off, makes respaced pieces of respaced texts.
-/

namespace HostBinding.Text

/-- A run of blanks, at least one. -/
structure IsGap (text : List Char) : Prop where
  ne_nil : text ≠ []
  blank : ∀ c ∈ text, isBlank c = true

/-- The same characters with other runs of blanks between them. -/
inductive Respaced : List Char → List Char → Prop where
  | nil : Respaced [] []
  | char {c : Char} {text text' : List Char} (hc : isBlank c = false) (h : Respaced text text') :
      Respaced (c :: text) (c :: text')
  | gap {blanks blanks' text text' : List Char} (hblanks : IsGap blanks) (hblanks' : IsGap blanks')
      (h : Respaced text text') : Respaced (blanks ++ text) (blanks' ++ text')

variable {text text' front front' back back' piece piece' word : List Char} {c : Char}

theorem isGap_singleton (hc : isBlank c = true) : IsGap [c] :=
  ⟨List.cons_ne_nil c [], by simpa using hc⟩

theorem IsGap.reverse (h : IsGap text) : IsGap text.reverse :=
  ⟨by simpa using h.ne_nil, by simpa using h.blank⟩

namespace Respaced

theorem refl (text : List Char) : Respaced text text := by
  induction text with
  | nil => exact .nil
  | cons c rest ih =>
    cases hc : isBlank c with
    | false => exact .char hc ih
    | true => exact .gap (isGap_singleton hc) (isGap_singleton hc) ih

theorem symm (h : Respaced text text') : Respaced text' text := by
  induction h with
  | nil => exact .nil
  | char hc _ ih => exact .char hc ih
  | gap hblanks hblanks' _ ih => exact .gap hblanks' hblanks ih

theorem append (hfront : Respaced front front') (hback : Respaced back back') :
    Respaced (front ++ back) (front' ++ back') := by
  induction hfront with
  | nil => exact hback
  | char hc _ ih => exact .char hc ih
  | gap hblanks hblanks' _ ih =>
    rw [List.append_assoc, List.append_assoc]
    exact .gap hblanks hblanks' ih

theorem reverse (h : Respaced text text') : Respaced text.reverse text'.reverse := by
  induction h with
  | nil => exact .nil
  | char hc _ ih =>
    rw [List.reverse_cons, List.reverse_cons]
    exact ih.append (.char hc .nil)
  | gap hblanks hblanks' _ ih =>
    rw [List.reverse_append, List.reverse_append]
    simpa using ih.append (.gap hblanks.reverse hblanks'.reverse .nil)

/-! ### Characters that are no blanks -/

theorem eq_nil (h : Respaced [] text) : text = [] := by
  generalize hnil : [] = empty at h
  cases h with
  | nil => rfl
  | char => cases hnil
  | gap hblanks => exact absurd (List.append_eq_nil_iff.mp hnil.symm).1 hblanks.ne_nil

/-- **A text comes apart at a character where its respaced forms do.** -/
theorem exists_split (h : Respaced (front ++ c :: back) text) (hc : isBlank c = false) :
    ∃ front' back', text = front' ++ c :: back' ∧ Respaced front front' ∧ Respaced back back' := by
  generalize hwhole : front ++ c :: back = whole at h
  induction h generalizing front with
  | nil => simp at hwhole
  | @char d rest rest' hd hrest ih =>
    cases front with
    | nil =>
      cases hwhole
      exact ⟨[], rest', rfl, .nil, hrest⟩
    | cons e front =>
      rw [List.cons_append, List.cons.injEq] at hwhole
      obtain ⟨rfl, hwhole⟩ := hwhole
      obtain ⟨front', back', rfl, hfront, hback⟩ := ih hwhole
      exact ⟨e :: front', back', rfl, .char hd hfront, hback⟩
  | @gap blanks blanks' rest rest' hblanks hblanks' hrest ih =>
    -- the character stands behind the blanks
    rcases List.append_eq_append_iff.mp hwhole with ⟨more, hmore, hin⟩ | ⟨more, hmore, hin⟩
    · cases more with
      | nil =>
        obtain ⟨front', back', rfl, hfront, hback⟩ := ih (show [] ++ c :: back = rest by simpa using hin)
        refine ⟨blanks' ++ front', back', by simp, ?_, hback⟩
        have hall := Respaced.gap hblanks hblanks' hfront
        rwa [List.append_nil, hmore, List.append_nil] at hall
      | cons d more =>
        rw [List.cons_append, List.cons.injEq] at hin
        have hblank := hblanks.blank c (by simp [hmore, hin.1])
        rw [hc] at hblank
        cases hblank
    · obtain ⟨front', back', rfl, hfront, hback⟩ := ih hin.symm
      refine ⟨blanks' ++ front', back', by simp, ?_, hback⟩
      rw [hmore]
      exact .gap hblanks hblanks' hfront

theorem exists_cons (h : Respaced (c :: back) text) (hc : isBlank c = false) :
    ∃ back', text = c :: back' ∧ Respaced back back' := by
  obtain ⟨front', back', rfl, hfront, hback⟩ := exists_split (show Respaced ([] ++ c :: back) text from h) hc
  rw [hfront.eq_nil]
  exact ⟨back', rfl, hback⟩

theorem mem_iff (h : Respaced text text') (hc : isBlank c = false) : c ∈ text ↔ c ∈ text' := by
  have hsub {text text' : List Char} (h : Respaced text text') (hmem : c ∈ text) : c ∈ text' := by
    obtain ⟨front, back, rfl⟩ := List.append_of_mem hmem
    obtain ⟨front', back', rfl, -, -⟩ := h.exists_split hc
    exact List.mem_append_right _ List.mem_cons_self
  exact ⟨hsub h, hsub h.symm⟩

theorem eq_of_solid (h : Respaced word text) (hword : ∀ c ∈ word, isBlank c = false) : text = word := by
  induction word generalizing text with
  | nil => exact h.eq_nil
  | cons c rest ih =>
    obtain ⟨hc, hrest⟩ := List.forall_mem_cons.mp hword
    obtain ⟨back', rfl, hback⟩ := h.exists_cons hc
    rw [ih hback hrest]

theorem exists_append_word (h : Respaced (front ++ word) text) (hword : ∀ c ∈ word, isBlank c = false) :
    ∃ front', text = front' ++ word ∧ Respaced front front' := by
  cases word with
  | nil =>
    rw [List.append_nil] at h
    exact ⟨text, (List.append_nil text).symm, h⟩
  | cons c rest =>
    obtain ⟨hc, hrest⟩ := List.forall_mem_cons.mp hword
    obtain ⟨front', back', rfl, hfront, hback⟩ := h.exists_split hc
    rw [hback.eq_of_solid hrest]
    exact ⟨front', rfl, hfront⟩

theorem exists_word_append (h : Respaced (word ++ back) text) (hword : ∀ c ∈ word, isBlank c = false) :
    ∃ back', text = word ++ back' ∧ Respaced back back' := by
  induction word generalizing text with
  | nil => exact ⟨text, rfl, h⟩
  | cons c rest ih =>
    obtain ⟨hc, hrest⟩ := List.forall_mem_cons.mp hword
    obtain ⟨after, rfl, hafter⟩ := h.exists_cons hc
    obtain ⟨back', rfl, hback⟩ := ih hafter hrest
    exact ⟨back', rfl, hback⟩

theorem exists_cons_blank (h : Respaced (c :: back) text) (hc : isBlank c = true) :
    ∃ d back', text = d :: back' ∧ isBlank d = true := by
  cases text with
  | nil => cases h.symm.eq_nil
  | cons d back' =>
    refine ⟨d, back', rfl, ?_⟩
    by_contra hd
    rw [Bool.not_eq_true] at hd
    obtain ⟨after, hsame, -⟩ := h.symm.exists_cons hd
    rw [(List.cons.inj hsame).1, hd] at hc
    cases hc

/-! ### The ends of a text -/

theorem trimStart (h : Respaced text text') : Respaced (trimStart text) (Text.trimStart text') := by
  induction h with
  | nil => exact .nil
  | char hc h _ => simpa [Text.trimStart, hc] using Respaced.char hc h
  | gap hblanks hblanks' _ ih =>
    rw [Text.trimStart, Text.trimStart, List.dropWhile_append_of_pos hblanks.blank,
      List.dropWhile_append_of_pos hblanks'.blank]
    exact ih

theorem trimEnd (h : Respaced text text') : Respaced (trimEnd text) (Text.trimEnd text') :=
  h.reverse.trimStart.reverse

theorem trim (h : Respaced text text') : Respaced (trim text) (Text.trim text') :=
  h.trimStart.trimEnd

theorem getLast?_eq_iff (h : Respaced text text') (hc : isBlank c = false) :
    text.getLast? = some c ↔ text'.getLast? = some c := by
  have hlast {text text' : List Char} (h : Respaced text text') (hlast : text.getLast? = some c) :
      text'.getLast? = some c := by
    obtain ⟨front, rfl⟩ := List.getLast?_eq_some_iff.mp hlast
    obtain ⟨front', rfl, -⟩ := h.exists_append_word (by simpa using hc)
    exact List.getLast?_concat
  exact ⟨hlast h, hlast h.symm⟩

theorem getLast?_any_isBlank (h : Respaced text text') :
    text.getLast?.any isBlank = text'.getLast?.any isBlank := by
  rw [List.getLast?_eq_head?_reverse, List.getLast?_eq_head?_reverse]
  have hfirst {text text' : List Char} (h : Respaced text text') (hblank : text.head?.any isBlank = true) :
      text'.head?.any isBlank = true := by
    obtain ⟨c, hhead, hc⟩ := (Option.any_eq_true _ _).mp hblank
    obtain ⟨rest, rfl⟩ := List.head?_eq_some_iff.mp hhead
    obtain ⟨d, rest', rfl, hd⟩ := h.exists_cons_blank hc
    exact hd
  exact Bool.eq_iff_iff.mpr ⟨hfirst h.reverse, hfirst h.symm.reverse⟩

/-! ### Pieces of a text -/

theorem words_eq (h : Respaced text text') : words text = words text' := by
  -- behind what has been read of a word
  suffices hbehind : ∀ front, words (front ++ text) = words (front ++ text') from hbehind []
  induction h with
  | nil => exact fun _ => rfl
  | @char c text text' _ _ ih =>
    intro front
    simpa using ih (front ++ [c])
  | @gap blanks blanks' text text' hblanks hblanks' _ ih =>
    intro front
    have hapart {blanks : List Char} (hblanks : IsGap blanks) (text : List Char) :
        words (front ++ (blanks ++ text)) = words front ++ words text := by
      obtain ⟨c, rest, rfl⟩ := List.exists_cons_of_ne_nil hblanks.ne_nil
      obtain ⟨hc, hrest⟩ := List.forall_mem_cons.mp hblanks.blank
      rw [List.cons_append, words_append_blank hc, words_append_of_blank hrest]
    have hsame : words text = words text' := ih []
    rw [hapart hblanks, hapart hblanks', hsame]

variable {p : Char → Bool}

theorem takeWhile (hp : ∀ c, isBlank c = true → p c = true) (h : Respaced text text') :
    Respaced (text.takeWhile p) (text'.takeWhile p) := by
  induction h with
  | nil => exact .nil
  | @char c _ _ hc _ ih =>
    rw [List.takeWhile_cons, List.takeWhile_cons]
    split
    · exact .char hc ih
    · exact .nil
  | gap hblanks hblanks' _ ih =>
    rw [List.takeWhile_append_of_pos fun c hc => hp c (hblanks.blank c hc),
      List.takeWhile_append_of_pos fun c hc => hp c (hblanks'.blank c hc)]
    exact .gap hblanks hblanks' ih

theorem dropWhile (hp : ∀ c, isBlank c = true → p c = true) (h : Respaced text text') :
    Respaced (text.dropWhile p) (text'.dropWhile p) := by
  induction h with
  | nil => exact .nil
  | @char c _ _ hc h ih =>
    rw [List.dropWhile_cons, List.dropWhile_cons]
    split
    · exact ih
    · exact .char hc h
  | gap hblanks hblanks' _ ih =>
    rw [List.dropWhile_append_of_pos fun c hc => hp c (hblanks.blank c hc),
      List.dropWhile_append_of_pos fun c hc => hp c (hblanks'.blank c hc)]
    exact ih

theorem forall₂_modifyHead {pieces pieces' : List (List Char)} (hfront : Respaced front front')
    (h : List.Forall₂ Respaced pieces pieces') :
    List.Forall₂ Respaced (pieces.modifyHead (front ++ ·)) (pieces'.modifyHead (front' ++ ·)) := by
  cases h with
  | nil => exact .nil
  | cons hpiece hpieces => exact .cons (hfront.append hpiece) hpieces

theorem fields (hp : ∀ c, isBlank c = true → p c = false) (h : Respaced text text') :
    List.Forall₂ Respaced (fields p text) (Text.fields p text') := by
  induction h with
  | nil => exact .cons .nil .nil
  | @char c text text' hc _ ih =>
    cases hsep : p c with
    | true =>
      rw [fields_cons_of_pos hsep, fields_cons_of_pos hsep]
      exact .cons .nil ih
    | false =>
      have hnone : ∀ x ∈ [c], p x = false := by simpa using hsep
      have hcons (text : List Char) : Text.fields p (c :: text) = (Text.fields p text).modifyHead ([c] ++ ·) :=
        fields_append_of_neg hnone text
      rw [hcons, hcons]
      exact forall₂_modifyHead (.char hc .nil) ih
  | gap hblanks hblanks' _ ih =>
    rw [fields_append_of_neg fun c hc => hp c (hblanks.blank c hc),
      fields_append_of_neg fun c hc => hp c (hblanks'.blank c hc)]
    have hgap := forall₂_modifyHead (Respaced.gap hblanks hblanks' .nil) ih
    rwa [List.append_nil, List.append_nil] at hgap

end Respaced

end HostBinding.Text
