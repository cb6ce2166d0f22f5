import Mathlib.Data.List.Basic
import HostBinding.CType.Parser
import HostBinding.CType.Spelling
import HostBinding.Proofs.Text.Reading

/-!
# Cutting off what the printer put on

The printer puts a declarator and the constness of its target around the text of the target, and the parser
takes them off again by looking only at the outside. It finds what was put there when the text itself does not
end in the keyword `const`, and when a leading `const` of the text is claimed by a `*` inside it.
-/

namespace HostBinding.CType

open Text

variable {text rest : List Char} {c : Char}

/-! ### The keyword `const` -/

theorem solid_constWord : Solid constWord :=
  ⟨⟨'c', _, rfl, by decide⟩, ⟨['c', 'o', 'n', 's'], 't', rfl, by decide⟩⟩

/-- A text whose end is not taken for the keyword `const`, whatever is written before it. -/
def EndsPlain (text : List Char) : Prop :=
  ∀ rest, text = rest ++ constWord → rest ≠ [] ∧ separatesKeyword rest = false

theorem endsPlain_concat (hc : c ≠ 't') : EndsPlain (rest ++ [c]) := by
  intro rest' h
  have hlast := congrArg List.getLast? h
  simp [constWord] at hlast
  exact absurd hlast hc

theorem EndsPlain.after_blank (h : EndsPlain text) (front : List Char) :
    EndsPlain (front ++ ' ' :: text) := by
  intro rest hrest
  rw [← List.singleton_append, ← List.append_assoc] at hrest
  rcases List.append_eq_append_iff.mp hrest with ⟨more, rfl, htext⟩ | ⟨more, hfront, hword⟩
  · obtain ⟨hne, hseparates⟩ := h more htext
    refine ⟨by simp, ?_⟩
    rwa [separatesKeyword, List.getLast?_append_of_ne_nil _ hne]
  · -- the keyword would have to begin before the blank, or be the whole text
    cases more with
    | nil => exact absurd rfl (h [] (by simpa using hword.symm)).1
    | cons d more =>
      have hlast := congrArg List.getLast? hfront
      rw [List.getLast?_concat, List.getLast?_append_of_ne_nil _ (List.cons_ne_nil d more)] at hlast
      have hblank : ' ' ∈ constWord := by
        rw [hword]
        exact List.mem_append_left _ (List.mem_of_getLast? hlast.symm)
      exact absurd hblank (by decide)

theorem endsPlain_word (hne : text ≠ constWord) (hblank : ∀ c ∈ text, isBlank c = false) (hstar : '*' ∉ text)
    (hamp : '&' ∉ text) : EndsPlain text := by
  rintro rest rfl
  have hrest : rest ≠ [] := by
    rintro rfl
    exact hne rfl
  refine ⟨hrest, ?_⟩
  obtain ⟨before, c, rfl⟩ := (List.eq_nil_or_concat' rest).resolve_left hrest
  have hmem : c ∈ before ++ [c] ++ constWord := by simp
  have hc : c ≠ '*' ∧ c ≠ '&' := by
    constructor <;> rintro rfl
    · exact hstar hmem
    · exact hamp hmem
  simp [separatesKeyword, hblank c hmem, hc.1, hc.2]

theorem dropTrailingConst_eq_self (hsolid : Solid text) (h : EndsPlain text) :
    dropTrailingConst text = text := by
  rw [dropTrailingConst]
  simp only [hsolid.trimEnd_eq]
  rw [if_neg]
  intro hconst
  obtain ⟨hends, hseparates⟩ := Bool.and_eq_true_iff.mp hconst
  obtain ⟨rest, rfl⟩ := List.isSuffixOf_iff_suffix.mp hends
  rw [List.length_append, Nat.add_sub_cancel, List.take_left] at hseparates
  rw [(h rest rfl).2] at hseparates
  cases hseparates

theorem dropTrailingConst_append_blank (text : List Char) :
    dropTrailingConst (text ++ [' ']) = dropTrailingConst text := by
  rw [dropTrailingConst.eq_1 (text ++ [' ']), dropTrailingConst.eq_1 text, trimEnd_append_blank]

theorem dropTrailingConst_append_const (hseparates : separatesKeyword rest = true) :
    dropTrailingConst (rest ++ constWord) = dropTrailingConst rest := by
  have hend : trimEnd (rest ++ constWord) = rest ++ constWord := by
    rw [show constWord = ['c', 'o', 'n', 's'] ++ ['t'] from rfl, ← List.append_assoc]
    exact trimEnd_concat (by decide)
  have hsuffix : constWord.isSuffixOf (rest ++ constWord) = true :=
    List.isSuffixOf_iff_suffix.mpr (List.suffix_append _ _)
  rw [dropTrailingConst]
  simp only [hend]
  rw [List.length_append, Nat.add_sub_cancel, List.take_left, hsuffix, hseparates]
  rfl

/-! ### Constness -/

theorem splitConst_plain (hsolid : Solid text) (hplain : EndsPlain text)
    (hlead : constWord ++ [' '] <+: text → '*' ∈ text) : splitConst (text ++ [' ']) = (false, text) := by
  simp only [splitConst, hsolid.trim_append_blank, dropTrailingConst_eq_self hsolid hplain]
  rw [if_neg (by simp), if_neg]
  intro hboth
  rw [Bool.and_eq_true, List.isPrefixOf_iff_prefix] at hboth
  simpa [hlead hboth.2] using hboth.1

theorem splitConst_east (hsolid : Solid text) (hplain : EndsPlain text) :
    splitConst (text ++ ' ' :: constWord ++ [' ']) = (true, text) := by
  have hwhole : Solid ((text ++ [' ']) ++ constWord) := hsolid.append [' '] solid_constWord
  have hseparates : separatesKeyword (text ++ [' ']) = true := by
    rw [separatesKeyword, List.getLast?_concat]
    decide
  rw [show text ++ ' ' :: constWord = (text ++ [' ']) ++ constWord by simp]
  simp only [splitConst, hwhole.trim_append_blank, dropTrailingConst_append_const hseparates,
    dropTrailingConst_append_blank, dropTrailingConst_eq_self hsolid hplain]
  rw [if_pos (by simp)]

theorem splitConst_west (hsolid : Solid text) (hplain : EndsPlain text) (hstar : '*' ∉ text) :
    splitConst (constWord ++ ' ' :: text ++ [' ']) = (true, text) := by
  have hwhole : Solid (constWord ++ ' ' :: text) := by
    simpa using solid_constWord.append [' '] hsolid
  simp only [splitConst, hwhole.trim_append_blank, dropTrailingConst_eq_self hwhole (hplain.after_blank _)]
  rw [if_neg (by simp), if_pos]
  · rw [show constWord ++ ' ' :: text = (constWord ++ [' ']) ++ text by simp,
      show constWord.length + 1 = (constWord ++ [' ']).length by simp, List.drop_left]
    have hstart := hsolid.trimStart_eq []
    rw [List.append_nil] at hstart
    rw [hstart]
  · rw [Bool.and_eq_true, List.isPrefixOf_iff_prefix]
    refine ⟨?_, text, by simp⟩
    have hword : '*' ∉ constWord := by decide
    simp [hstar, hword]

/-! ### The outermost declarator -/

/-- A star at the end is a pointer's. -/
theorem outermost_star (hsolid : Solid (text ++ ['*'])) :
    outermost (text ++ ['*']) = .ok (.derived (.pointer (splitConst text).1) (splitConst text).2) := by
  have hdrop := dropTrailingConst_eq_self hsolid (endsPlain_concat (by decide))
  have hamp : ['&', '&'].isSuffixOf (text ++ ['*']) = false := by
    rw [← Bool.not_eq_true, List.isSuffixOf_iff_suffix]
    intro hparts
    obtain ⟨rest, hrest⟩ := hparts
    have hlast := congrArg List.getLast? hrest
    simp at hlast
  simp [outermost, hsolid.trim_eq, hdrop, hamp]

theorem outermost_ampersand (hsolid : Solid (text ++ ['&'])) (hblank : text.getLast? = some ' ') :
    outermost (text ++ ['&']) = .ok (.derived (.reference (splitConst text).1) (splitConst text).2) := by
  have hdrop := dropTrailingConst_eq_self hsolid (endsPlain_concat (by decide))
  have hamp : ['&', '&'].isSuffixOf (text ++ ['&']) = false := by
    rw [← Bool.not_eq_true, List.isSuffixOf_iff_suffix]
    intro hparts
    obtain ⟨rest, hrest⟩ := hparts
    have hlast := congrArg (fun chars => chars.dropLast.getLast?) hrest
    simp [hblank] at hlast
  simp [outermost, hsolid.trim_eq, hdrop, hamp]

def boundChars (lengths : List UInt64) : List Char :=
  lengths.flatMap fun length => (boundText length).toList

theorem boundText_toList (length : UInt64) :
    (boundText length).toList = '[' :: ((toString length.toNat).toList ++ [']']) := by
  simp [boundText]

theorem isDigit_of_mem_toString {n : Nat} (h : c ∈ (toString n).toList) : c.isDigit = true := by
  rw [Nat.toString_eq_repr, Nat.toList_repr] at h
  exact Nat.isDigit_of_mem_toDigits (by decide) (by decide) h

theorem boundChars_cons (length : UInt64) (lengths : List UInt64) :
    boundChars (length :: lengths) =
      '[' :: ((toString length.toNat).toList ++ ']' :: boundChars lengths) := by
  simp [boundChars, boundText_toList]

theorem readBound?_digits (length : UInt64) :
    readBound? ((toString length.toNat).toList ++ [']']) = some length := by
  have hne : (toString length.toNat).toList ≠ [] := by
    rw [Nat.toString_eq_repr, Nat.toList_repr]
    exact Nat.toDigits_ne_nil
  have hsolid : Solid (toString length.toNat).toList :=
    solid_of_forall hne fun c hc => isBlank_of_isDigit (isDigit_of_mem_toString hc)
  rw [readBound?, if_pos List.getLast?_concat, List.dropLast_concat, hsolid.trim_eq, readWord64?_toString]

theorem ne_bracket_of_mem_bound {length : UInt64} (h : c ∈ (toString length.toNat).toList ++ [']']) :
    (c == '[') = false := by
  rw [beq_eq_false_iff_ne]
  intro heq
  subst heq
  rcases List.mem_append.mp h with hdigit | hclose
  · exact absurd (isDigit_of_mem_toString hdigit) (by decide)
  · exact absurd hclose (by decide)

theorem mapM_readBound? (length : UInt64) (lengths : List UInt64) :
    (fields (· == '[') (boundChars (length :: lengths)).tail).mapM readBound? = some (length :: lengths) := by
  induction lengths generalizing length with
  | nil =>
    have htail : (boundChars [length]).tail = (toString length.toNat).toList ++ [']'] := by
      rw [boundChars_cons]
      rfl
    rw [htail, fields_of_forall fun c => ne_bracket_of_mem_bound, List.mapM_cons, readBound?_digits]
    rfl
  | cons second lengths ih =>
    have htail : (boundChars (length :: second :: lengths)).tail =
        ((toString length.toNat).toList ++ [']']) ++ '[' :: (boundChars (second :: lengths)).tail := by
      simp [boundChars_cons]
    rw [htail, fields_append_cons (fun c => ne_bracket_of_mem_bound) (by decide), List.mapM_cons,
      readBound?_digits, ih]
    rfl

theorem exists_of_boundChars (length : UInt64) (lengths : List UInt64) :
    ∃ front, boundChars (length :: lengths) = front ++ [']'] := by
  rcases List.eq_nil_or_concat' (length :: lengths) with hnil | ⟨before, last, hlast⟩
  · cases hnil
  · refine ⟨boundChars before ++ '[' :: (toString last.toNat).toList, ?_⟩
    rw [hlast]
    simp [boundChars, boundText_toList]

/-- Brackets at the end are an array's, and all that stand next to each other are cut off at once. -/
theorem outermost_bounds (hsolid : Solid text) (hbracket : '[' ∉ text) {lengths : List UInt64}
    (hne : lengths ≠ []) :
    outermost (text ++ boundChars lengths) = .ok (.derived (.bounds lengths) text) := by
  obtain ⟨length, lengths, rfl⟩ := List.exists_cons_of_ne_nil hne
  have hbefore : ∀ c ∈ text, (c != '[') = true := by
    intro c hc
    rw [bne_iff_ne]
    intro heq
    subst heq
    exact hbracket hc
  have hopen : boundChars (length :: lengths) = '[' :: (boundChars (length :: lengths)).tail := by
    rw [boundChars_cons, List.tail_cons]
  obtain ⟨front, hfront⟩ := exists_of_boundChars length lengths
  have hwhole : Solid (text ++ boundChars (length :: lengths)) := by
    rw [hfront]
    exact List.append_assoc _ _ _ ▸ hsolid.append front (solid_singleton (by decide))
  have hlast : (text ++ boundChars (length :: lengths)).getLast? = some ']' := by
    rw [hfront, ← List.append_assoc, List.getLast?_concat]
  have htake : (text ++ boundChars (length :: lengths)).takeWhile (· != '[') = text := by
    rw [List.takeWhile_append_of_pos hbefore, hopen]
    simp
  have hdrop : (text ++ boundChars (length :: lengths)).dropWhile (· != '[') =
      boundChars (length :: lengths) := by
    rw [List.dropWhile_append_of_pos hbefore, hopen]
    simp
  have hnonempty : text ++ boundChars (length :: lengths) ≠ [] := by
    simp [hfront]
  simp only [outermost, hwhole.trim_eq, hnonempty, hlast, htake, hdrop, mapM_readBound?, if_true, if_false]

end HostBinding.CType
