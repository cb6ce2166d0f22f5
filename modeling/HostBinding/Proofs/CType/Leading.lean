import Mathlib.Data.List.Induction
import HostBinding.Proofs.CType.Cuts
import HostBinding.Proofs.Text.Respaced

/-!
# The `const` at the start of a spelling

Words `const` at the start of a spelling are no part of its innermost target, but any pointer or reference whose
target begins with them may claim the first one. It does so when that word is followed by a space, by no other
blank, and when the target holds no `*` and has no `const` at its end.
-/

namespace HostBinding.CType

open Text

variable {text back core : List Char} {gaps : List (List Char)} {c : Char}

/-! ### Leading words `const` -/

/-- Words `const` with the gap behind each of them. -/
def leadText (gaps : List (List Char)) : List Char :=
  gaps.flatMap (constWord ++ ·)

/-- How many of these words can be claimed: those before the first one that has no space right behind it. -/
def spacedConsts : List (List Char) → Nat
  | (' ' :: _) :: gaps => spacedConsts gaps + 1
  | _ => 0

/-- What stands behind the leading words `const` of a spelling. -/
structure Core (text : List Char) : Prop where
  first : ∀ c rest, text = c :: rest → isBlank c = false
  lead : ∀ c, isBlank c = true → ¬ constWord ++ [c] <+: text

theorem Core.of_prefix (h : Core core) (hfront : text <+: core) : Core text where
  first := by
    rintro c rest rfl
    obtain ⟨back, rfl⟩ := hfront
    exact h.first c (rest ++ back) rfl
  lead c hc hlead := h.lead c hc (hlead.trans hfront)

structure SolidCore (text : List Char) : Prop extends Core text where
  ne_nil : text ≠ []
  ne_const : text ≠ constWord

theorem Core.solid_or (h : Core core) : core = [] ∨ core = constWord ∨ SolidCore core := by
  by_cases hne : core = []
  · exact .inl hne
  · by_cases hconst : core = constWord
    · exact .inr (.inl hconst)
    · exact .inr (.inr ⟨h, hne, hconst⟩)

theorem SolidCore.trimEnd_ne_nil (h : SolidCore core) : trimEnd core ≠ [] := by
  obtain ⟨c, rest, rfl⟩ := List.exists_cons_of_ne_nil h.ne_nil
  exact List.ne_nil_of_mem ((mem_trimEnd_iff (h.first c rest rfl)).mpr List.mem_cons_self)

/-- Of what stands behind the leading words only a single `const` is trimmed to one. -/
theorem SolidCore.trimEnd_ne_const (h : SolidCore core) : trimEnd core ≠ constWord := by
  intro htrim
  obtain ⟨blanks, hcore, hblanks⟩ := exists_trimEnd core
  rw [htrim] at hcore
  cases blanks with
  | nil => exact h.ne_const (by simpa using hcore)
  | cons c rest => exact h.lead c (hblanks c List.mem_cons_self) ⟨rest, by simp [hcore]⟩

theorem leadText_cons_append (gap : List Char) (gaps : List (List Char)) (text : List Char) :
    leadText (gap :: gaps) ++ text = constWord ++ (gap ++ (leadText gaps ++ text)) := by
  simp [leadText]

theorem leadText_concat (gaps : List (List Char)) (gap : List Char) :
    leadText (gaps ++ [gap]) = leadText gaps ++ constWord ++ gap := by
  simp [leadText]

theorem notMem_leadText (hgaps : ∀ gap ∈ gaps, IsGap gap) (hc : isBlank c = false) (hconst : c ∉ constWord) :
    c ∉ leadText gaps := by
  intro hmem
  obtain ⟨gap, hgap, hin⟩ := List.mem_flatMap.mp hmem
  rcases List.mem_append.mp hin with hword | hblank
  · exact hconst hword
  · rw [(hgaps gap hgap).blank c hblank] at hc
    cases hc

theorem separatesKeyword_append (front : List Char) (hback : back ≠ []) :
    separatesKeyword (front ++ back) = separatesKeyword back := by
  rw [separatesKeyword, separatesKeyword, List.getLast?_append_of_ne_nil _ hback]

theorem exists_concat_of_isGap (h : IsGap text) : ∃ front c, text = front ++ [c] ∧ isBlank c = true := by
  obtain ⟨front, c, rfl⟩ := (List.eq_nil_or_concat' text).resolve_left h.ne_nil
  exact ⟨front, c, rfl, h.blank c (by simp)⟩

theorem separatesKeyword_of_isGap (h : IsGap text) : separatesKeyword text = true := by
  obtain ⟨front, c, rfl, hc⟩ := exists_concat_of_isGap h
  rw [separatesKeyword, List.getLast?_concat]
  simp [hc]

theorem trimStart_leadText_append (gaps : List (List Char)) (hcore : Core core) :
    trimStart (leadText gaps ++ core) = leadText gaps ++ core := by
  cases gaps with
  | nil => exact trimStart_of_first hcore.first
  | cons gap gaps =>
    refine trimStart_of_first fun c rest h => ?_
    have hc : 'c' = c := (List.cons.inj h).1
    rw [← hc]
    decide

/-! ### Spellings of nothing but `const` -/

theorem dropTrailingConst_leadText_append_const (hgaps : ∀ gap ∈ gaps, IsGap gap) :
    dropTrailingConst (leadText gaps ++ constWord) = constWord := by
  induction gaps using List.reverseRecOn with
  | nil =>
    have htrim : trimEnd constWord = constWord := solid_constWord.trimEnd_eq
    refine (dropTrailingConst_eq_trimEnd fun rest hrest => ?_).trans htrim
    have hnil : rest = [] := by simpa using hrest.symm.trans htrim
    rw [hnil]
    rfl
  | append_singleton gaps gap ih =>
    obtain ⟨hgaps, hgap⟩ := List.forall_mem_append.mp hgaps
    replace hgap := hgap gap (List.mem_singleton_self gap)
    have hseparates : separatesKeyword (leadText (gaps ++ [gap])) = true := by
      rw [leadText_concat, separatesKeyword_append _ hgap.ne_nil, separatesKeyword_of_isGap hgap]
    rw [dropTrailingConst_append_const hseparates, leadText_concat, dropTrailingConst_append_blanks _ hgap.blank,
      ih hgaps]

/-- A text of which nothing is left but one `const`. -/
def IsHollow (text : List Char) : Prop :=
  dropTrailingConst (trim text) = constWord

theorem isHollow_leadText_append_const (hgaps : ∀ gap ∈ gaps, IsGap gap) :
    IsHollow (leadText gaps ++ constWord) := by
  have hcore : Core constWord :=
    ⟨fun c rest h => (by cases h; decide), fun c _ h => absurd h.length_le (by simp)⟩
  rw [IsHollow, dropTrailingConst_trim, trimStart_leadText_append gaps hcore,
    dropTrailingConst_leadText_append_const hgaps]

theorem isHollow_leadText (hgaps : ∀ gap ∈ gaps, IsGap gap) (hne : gaps ≠ []) : IsHollow (leadText gaps) := by
  obtain ⟨front, gap, rfl⟩ := (List.eq_nil_or_concat' gaps).resolve_left hne
  have hcore : Core [] := ⟨fun c rest h => (by cases h), fun c _ h => absurd h.length_le (by simp)⟩
  obtain ⟨hfront, hgap⟩ := List.forall_mem_append.mp hgaps
  have hstart := trimStart_leadText_append (front ++ [gap]) hcore
  rw [List.append_nil] at hstart
  rw [IsHollow, dropTrailingConst_trim, hstart, leadText_concat,
    dropTrailingConst_append_blanks _ (hgap gap (List.mem_singleton_self gap)).blank,
    dropTrailingConst_leadText_append_const hfront]

namespace IsHollow

theorem ofChars_eq (h : IsHollow text) : ofChars text = .error (.unsupported (String.ofList (trim text))) := by
  rw [IsHollow] at h
  have hne : trim text ≠ [] := by
    intro hnil
    rw [hnil, dropTrailingConst_eq_trimEnd (by simp [trimEnd, constWord])] at h
    cases h
  have hlast : (trim text).getLast? ≠ some ']' := by
    intro hlast
    obtain ⟨front, hfront⟩ := List.getLast?_eq_some_iff.mp hlast
    rw [hfront, dropTrailingConst_concat front (by decide) (by decide)] at h
    have hends := congrArg List.getLast? h
    simp [constWord] at hends
  have hcut := outermost_eq_ofBody hne hlast
  rw [h] at hcut
  exact ofChars_error hcut

theorem splitConst_eq (h : IsHollow text) : (splitConst text).2 = constWord := by
  rw [IsHollow] at h
  simp only [splitConst, h]
  split
  · rfl
  · rename_i hlength
    rw [ne_eq, not_not] at hlength
    have htrim : trim text = constWord := by
      have hfront := dropTrailingConst_prefix_self (trim text)
      rw [h] at hfront
      exact (hfront.eq_of_length hlength).symm
    rw [htrim]
    rfl

end IsHollow

/-! ### Behind the leading words -/

theorem dropTrailingConst_leadText_append (hgaps : ∀ gap ∈ gaps, IsGap gap) (hcore : SolidCore core) :
    dropTrailingConst (leadText gaps ++ core) = leadText gaps ++ dropTrailingConst core := by
  induction core using dropTrailingConst_induction with
  | drop core rest htrim hseparates heq ih =>
    have hrest : rest <+: core := (htrim ▸ List.prefix_append rest constWord).trans (trimEnd_prefix_self core)
    have hsolid : SolidCore rest := by
      refine ⟨hcore.of_prefix hrest, ?_, ?_⟩
      · rintro rfl
        cases hseparates
      · rintro rfl
        exact absurd hseparates (by decide)
    have hwhole : separatesKeyword (leadText gaps ++ rest) = true := by
      rwa [separatesKeyword_append _ hsolid.ne_nil]
    rw [heq, ← ih hsolid, ← dropTrailingConst_append_const hwhole, List.append_assoc, ← htrim,
      ← trimEnd_append _ hcore.trimEnd_ne_nil, dropTrailingConst_trimEnd]
  | keep core hkeep heq =>
    have htrim := trimEnd_append (leadText gaps) hcore.trimEnd_ne_nil
    rw [heq, ← htrim]
    refine dropTrailingConst_eq_trimEnd fun rest hrest => ?_
    rw [htrim] at hrest
    rcases List.append_eq_append_iff.mp hrest with ⟨more, rfl, hmore⟩ | ⟨more, hlead, hword⟩
    · have hmorene : more ≠ [] := by
        rintro rfl
        exact hcore.trimEnd_ne_const (by simpa using hmore)
      rw [separatesKeyword_append _ hmorene]
      exact hkeep more hmore
    · -- the keyword cannot begin within the leading words, which end in a blank
      cases more using List.reverseRecOn with
      | nil => exact absurd (by simpa using hword.symm) hcore.trimEnd_ne_const
      | append_singleton more c =>
        rcases List.eq_nil_or_concat' gaps with rfl | ⟨front, gap, rfl⟩
        · simp [leadText] at hlead
        · obtain ⟨before, d, hgap, hd⟩ := exists_concat_of_isGap (hgaps gap (by simp))
          have hlast := congrArg List.getLast? hlead
          rw [leadText_concat, hgap, ← List.append_assoc, ← List.append_assoc, List.getLast?_concat,
            List.getLast?_concat, Option.some.injEq] at hlast
          have hin : d ∈ constWord := by simp [hword, hlast]
          have hwordblank : ∀ c ∈ constWord, isBlank c = false := by decide
          rw [hwordblank d hin] at hd
          cases hd

theorem trim_leadText_append (gaps : List (List Char)) (hcore : SolidCore core) :
    trim (leadText gaps ++ core) = leadText gaps ++ trimEnd core := by
  rw [trim, trimStart_leadText_append gaps hcore.toCore, trimEnd_append _ hcore.trimEnd_ne_nil]

/-- The gaps that are left when the first leading `const` is claimed, if it can be. -/
def behindClaim : List (List Char) → List (List Char)
  | (' ' :: _) :: gaps => gaps
  | gaps => gaps

theorem behindClaim_cases (gaps : List (List Char)) :
    (∃ blanks rest, gaps = (' ' :: blanks) :: rest) ∨ spacedConsts gaps = 0 ∧ behindClaim gaps = gaps := by
  fun_cases behindClaim gaps with
  | case1 blanks rest => exact .inl ⟨blanks, rest, rfl⟩
  | case2 gaps hother =>
    refine .inr ⟨?_, rfl⟩
    rw [spacedConsts]
    exact hother

theorem spacedConsts_behindClaim (gaps : List (List Char)) :
    spacedConsts (behindClaim gaps) = spacedConsts gaps - 1 := by
  rcases behindClaim_cases gaps with ⟨blanks, rest, rfl⟩ | ⟨hnone, hsame⟩
  · rfl
  · rw [hsame, hnone]

theorem length_behindClaim (gaps : List (List Char)) :
    (behindClaim gaps).length = if spacedConsts gaps = 0 then gaps.length else gaps.length - 1 := by
  rcases behindClaim_cases gaps with ⟨blanks, rest, rfl⟩ | ⟨hnone, hsame⟩
  · rfl
  · rw [hsame, if_pos hnone]

theorem behindClaim_subset (gaps : List (List Char)) : behindClaim gaps ⊆ gaps := by
  rcases behindClaim_cases gaps with ⟨blanks, rest, rfl⟩ | ⟨-, hsame⟩
  · exact List.subset_cons_self _ _
  · rw [hsame]
    exact List.Subset.refl _

section Split

variable (hgaps : ∀ gap ∈ gaps, IsGap gap) (hcore : SolidCore core)
include hgaps hcore

theorem dropTrailingConst_leadText_append_trimEnd :
    dropTrailingConst (leadText gaps ++ trimEnd core) = leadText gaps ++ dropTrailingConst core := by
  rw [← trimEnd_append _ hcore.trimEnd_ne_nil, dropTrailingConst_trimEnd,
    dropTrailingConst_leadText_append hgaps hcore]

/-- A trailing `const` is the target's own. -/
theorem splitConst_leadText_of_trailing (h : dropTrailingConst core ≠ trimEnd core) :
    splitConst (leadText gaps ++ core) = (true, leadText gaps ++ dropTrailingConst core) := by
  have hlength : (dropTrailingConst core).length ≠ (trimEnd core).length := by
    intro hlength
    have hfront := dropTrailingConst_prefix_self (trimEnd core)
    rw [dropTrailingConst_trimEnd] at hfront
    exact h (hfront.eq_of_length hlength)
  simp only [splitConst, trim_leadText_append gaps hcore, dropTrailingConst_leadText_append_trimEnd hgaps hcore]
  rw [if_pos (by simpa using hlength)]

/-- The leading words are left to a `*`. -/
theorem splitConst_leadText_of_star (h : dropTrailingConst core = trimEnd core) (hstar : '*' ∈ core) :
    splitConst (leadText gaps ++ core) = (false, leadText gaps ++ trimEnd core) := by
  have hin : '*' ∈ trimEnd core := (mem_trimEnd_iff (by decide)).mpr hstar
  simp only [splitConst, trim_leadText_append gaps hcore, dropTrailingConst_leadText_append_trimEnd hgaps hcore, h]
  rw [if_neg (by simp), if_neg (by simp [hin])]

/-- Without either, the first leading `const` is claimed when a space follows. -/
theorem splitConst_leadText_of_plain (h : dropTrailingConst core = trimEnd core) (hstar : '*' ∉ core) :
    splitConst (leadText gaps ++ core) =
      (decide (0 < spacedConsts gaps), leadText (behindClaim gaps) ++ trimEnd core) := by
  have hnone : '*' ∉ leadText gaps ++ trimEnd core := by
    rw [List.mem_append, not_or]
    exact ⟨notMem_leadText hgaps (by decide) (by decide), fun hmem => hstar ((trimEnd_sublist _).subset hmem)⟩
  have htrimCore : Core (trimEnd core) := hcore.of_prefix (trimEnd_prefix_self core)
  simp only [splitConst, trim_leadText_append gaps hcore, dropTrailingConst_leadText_append_trimEnd hgaps hcore, h]
  rw [if_neg (by simp)]
  rcases behindClaim_cases gaps with ⟨blanks, rest, rfl⟩ | ⟨hzero, hsame⟩
  · have hblanks : ∀ c ∈ blanks, isBlank c = true := fun c hc =>
      (hgaps _ List.mem_cons_self).blank c (List.mem_cons_of_mem _ hc)
    have hlead : leadText ((' ' :: blanks) :: rest) ++ trimEnd core =
        (constWord ++ [' ']) ++ (blanks ++ (leadText rest ++ trimEnd core)) := by
      simp [leadText_cons_append]
    have hlength : constWord.length + 1 = (constWord ++ [' ']).length := by simp
    rw [if_pos, hlead, hlength, List.drop_left, trimStart, List.dropWhile_append_of_pos hblanks, ← trimStart,
      trimStart_leadText_append rest htrimCore]
    · rfl
    · rw [Bool.and_eq_true, List.isPrefixOf_iff_prefix]
      exact ⟨by simpa using hnone, hlead ▸ List.prefix_append _ _⟩
  · rw [if_neg, hzero, hsame]
    · rfl
    · rw [Bool.and_eq_true, List.isPrefixOf_iff_prefix]
      rintro ⟨-, hlead⟩
      cases gaps with
      | nil => exact htrimCore.lead ' ' (by decide) hlead
      | cons gap gaps =>
        obtain ⟨c, rest, rfl⟩ := List.exists_cons_of_ne_nil (hgaps gap List.mem_cons_self).ne_nil
        obtain rfl : ' ' = c := by simpa [leadText, constWord] using hlead
        cases hzero

end Split

end HostBinding.CType
