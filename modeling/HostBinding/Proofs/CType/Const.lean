import Mathlib.Data.List.DropRight
import HostBinding.Proofs.CType.Cuts

/-!
# Where a `const` counts

A `const` qualifies the type that it stands beside. At the end of a whole spelling it qualifies the value
itself and means nothing, except that nothing but a bracket may end the spelling of an array. Among the words
of a target it counts in two places only, as the first word and as the last one; between other words it is
dropped together with the words that mean nothing.
-/

namespace HostBinding.CType

open Text

variable {text back : List Char} {ws : List (List Char)} {t : CType} {c : Char}

/-! ### Behind a whole spelling -/

theorem trim_append_const (h : trim text ≠ []) :
    trim (text ++ ' ' :: constWord) = trimStart text ++ ' ' :: constWord := by
  have hlast : trimStart text ++ ' ' :: constWord = (trimStart text ++ [' ', 'c', 'o', 'n', 's']) ++ ['t'] := by
    simp [constWord]
  rw [trim, trimStart_append (trimStart_ne_nil h), hlast, trimEnd_concat (by decide)]

theorem dropTrailingConst_trim_append_const (h : trim text ≠ []) :
    dropTrailingConst (trim (text ++ ' ' :: constWord)) = dropTrailingConst (trim text) := by
  have hseparates : separatesKeyword (trimStart text ++ [' ']) = true := by
    rw [separatesKeyword, List.getLast?_concat]
    decide
  rw [trim_append_const h, ← List.singleton_append, ← List.append_assoc,
    dropTrailingConst_append_const hseparates, dropTrailingConst_append_blank, trim, dropTrailingConst_trimEnd]

theorem outermostOfBody_eq_ok {named body : List Char} {cut : Outermost} (named' : List Char)
    (h : outermostOfBody named body = .ok cut) : outermostOfBody named' body = .ok cut := by
  rw [outermostOfBody] at h ⊢
  split at h
  · cases h
  · rename_i hrvalue
    rw [if_neg hrvalue]
    split at h
    · rename_i hreference
      rwa [if_pos hreference]
    · rename_i hreference
      rw [if_neg hreference]
      split at h
      · rename_i hpointer
        rwa [if_pos hpointer]
      · rename_i hpointer
        rw [if_neg hpointer]
        split at h
        · exact h
        · cases h

/-- A cut that takes off no brackets is made in the same way when a `const` follows. -/
theorem outermost_append_const {cut : Outermost} (h : outermost text = .ok cut)
    (hlast : (trim text).getLast? ≠ some ']') : outermost (text ++ ' ' :: constWord) = .ok cut := by
  have hne : trim text ≠ [] := by
    intro hnil
    simp [outermost, hnil] at h
  have hlong : trim (text ++ ' ' :: constWord) ≠ [] ∧
      (trim (text ++ ' ' :: constWord)).getLast? ≠ some ']' := by
    rw [trim_append_const hne]
    constructor
    · simp
    · simp [constWord]
  rw [outermost_eq_ofBody hne hlast] at h
  rw [outermost_eq_ofBody hlong.1 hlong.2, dropTrailingConst_trim_append_const hne]
  exact outermostOfBody_eq_ok _ h

theorem outermost_append_const_of_bracket (hlast : (trim text).getLast? = some ']') :
    outermost (text ++ ' ' :: constWord) =
      .error (.unsupported (String.ofList (trimStart text ++ ' ' :: constWord))) := by
  obtain ⟨front, hfront⟩ := List.getLast?_eq_some_iff.mp hlast
  have hne : trim text ≠ [] := by simp [hfront]
  have hbody : dropTrailingConst (trim text) = front ++ [']'] :=
    hfront ▸ dropTrailingConst_concat front (by decide) (by decide)
  have hlong : trim (text ++ ' ' :: constWord) ≠ [] ∧
      (trim (text ++ ' ' :: constWord)).getLast? ≠ some ']' := by
    rw [trim_append_const hne]
    constructor
    · simp
    · simp [constWord]
  have hnone : leaf? (front ++ [']']) = none := by
    cases hleaf : leaf? (front ++ [']']) with
    | none => rfl
    | some t => exact absurd (by simp) (notMem_of_leaf? hleaf (c := ']') (by decide))
  rw [outermost_eq_ofBody hlong.1 hlong.2, dropTrailingConst_trim_append_const hne, hbody,
    outermostOfBody_leaf (by simp) (by simp), hnone, trim_append_const hne]

/-- **A `const` behind a spelling means nothing**, except behind an array: there the whole is refused. -/
theorem ofSpelling_append_const {spelling : String} {t : CType} (h : ofSpelling spelling = .ok t) :
    ofSpelling (spelling ++ " const") =
      if t.isArray then .error (.unsupported (String.ofList (trimStart spelling.toList) ++ " const"))
      else .ok t := by
  have htext : (spelling ++ " const").toList = spelling.toList ++ ' ' :: constWord := by
    simp [constWord]
  rw [ofSpelling] at h
  rw [ofSpelling, htext]
  have harray := isArray_iff_of_ofChars h
  by_cases hlast : (trim spelling.toList).getLast? = some ']'
  · have hname : String.ofList (trimStart spelling.toList ++ ' ' :: constWord) =
        String.ofList (trimStart spelling.toList) ++ " const" := by
      apply String.toList_injective
      simp [constWord]
    rw [if_pos (harray.mpr hlast), ofChars_error (outermost_append_const_of_bracket hlast), hname]
  · rw [if_neg fun h => hlast (harray.mp h)]
    cases hcut : outermost spelling.toList with
    | error cause =>
      rw [ofChars_error hcut] at h
      cases h
    | ok cut => rw [← h, ofChars_congr ((outermost_append_const hcut hlast).trans hcut.symm)]

theorem ofSpelling_append_const_reference :
    ofSpelling "const Foo *[2] &" = .ok (.reference (.array (.pointer (.named "Foo") true) 2) false) ∧
    ofSpelling ("const Foo *[2] &" ++ " const") =
      .ok (.reference (.array (.pointer (.named "Foo") true) 2) false) := by
  have hread : ofSpelling "const Foo *[2] &" =
      .ok (.reference (.array (.pointer (.named "Foo") true) 2) false) := by decide +kernel
  exact ⟨hread, ofSpelling_append_const hread⟩

theorem ofSpelling_append_const_array :
    ofSpelling "int[3]" = .ok (.array (.primitive (.integral .i32) "int") 3) ∧
    ofSpelling "int[3] const" = .error (.unsupported "int[3] const") ∧
    ¬ ∀ spelling t, ofSpelling spelling = .ok t → ofSpelling (spelling ++ " const") = .ok t := by
  have hread : ofSpelling "int[3]" = .ok (.array (.primitive (.integral .i32) "int") 3) := by decide +kernel
  have hrefused : ofSpelling "int[3] const" = .error (.unsupported "int[3] const") := by decide +kernel
  refine ⟨hread, hrefused, fun hall => ?_⟩
  have hsame := hall _ _ hread
  rw [show "int[3]" ++ " const" = "int[3] const" by decide, hrefused] at hsame
  cases hsame

/-! ### Among the words of a target -/

theorem endsPlain_joined (hws : AreWords ws) (hlast : ws.getLast? ≠ some constWord)
    (hstar : '*' ∉ joined ws) (hamp : '&' ∉ joined ws) : EndsPlain (joined ws) := by
  rcases List.eq_nil_or_concat' ws with rfl | ⟨front, w, rfl⟩
  · intro rest h
    cases rest <;> cases h
  · have hw := hws w (by simp)
    have hplain : EndsPlain w := by
      refine endsPlain_word (fun heq => hlast (heq ▸ List.getLast?_concat)) hw.2 ?_ ?_
      · exact fun hmem => hstar (mem_joined_of_mem (by simp) hmem)
      · exact fun hmem => hamp (mem_joined_of_mem (by simp) hmem)
    by_cases hfront : front = []
    · simpa [hfront, joined] using hplain
    · rw [joined_concat hfront]
      exact hplain.after_blank _

theorem dropTrailingConst_joined (hws : AreWords ws) (hbase : ∃ w ∈ ws, w ≠ constWord)
    (hstar : '*' ∉ joined ws) (hamp : '&' ∉ joined ws) :
    dropTrailingConst (joined ws) = joined (ws.rdropWhile (· == constWord)) := by
  induction ws using List.reverseRecOn with
  | nil => simp at hbase
  | append_singleton front w ih =>
    by_cases hw : w = constWord
    · subst hw
      have hfront : front ≠ [] := by
        rintro rfl
        simp at hbase
      rw [joined_concat hfront, List.mem_append, not_or] at hstar hamp
      have hbase : ∃ w ∈ front, w ≠ constWord := by
        obtain ⟨w, hmem, hw⟩ := hbase
        rcases List.mem_append.mp hmem with hmem | hmem
        · exact ⟨w, hmem, hw⟩
        · exact absurd (List.mem_singleton.mp hmem) hw
      have hseparates : separatesKeyword (joined front ++ [' ']) = true := by
        rw [separatesKeyword, List.getLast?_concat]
        decide
      rw [joined_concat hfront, ← List.singleton_append, ← List.append_assoc,
        dropTrailingConst_append_const hseparates, dropTrailingConst_append_blank,
        ih (fun w hmem => hws w (List.mem_append_left _ hmem)) hbase hstar.1 hamp.1,
        List.rdropWhile_concat_pos _ _ _ (by simp)]
    · have hlast : (front ++ [w]).getLast? ≠ some constWord := by
        simpa using hw
      rw [List.rdropWhile_concat_neg _ _ _ (by simpa using hw)]
      exact dropTrailingConst_eq_self (hws.solid_joined (by simp)) (endsPlain_joined hws hlast hstar hamp)

theorem filter_rdropWhile_const (ws : List (List Char)) :
    (ws.rdropWhile (· == constWord)).filter (!qualifierWords.contains ·) =
      ws.filter (!qualifierWords.contains ·) := by
  induction ws using List.reverseRecOn with
  | nil => rfl
  | append_singleton front w ih =>
    by_cases hw : w = constWord
    · have hqualifier : [constWord].filter (!qualifierWords.contains ·) = [] := by decide
      subst hw
      rw [List.rdropWhile_concat_pos _ _ _ (by simp), ih, List.filter_append, hqualifier, List.append_nil]
    · rw [List.rdropWhile_concat_neg _ _ _ (by simpa using hw)]

/-- Words that spell a leaf, any number of qualifiers among them. -/
structure SpellsLeaf (ws : List (List Char)) (t : CType) : Prop where
  words : AreWords ws
  leaf : leaf? (joined ws) = some t

namespace SpellsLeaf

theorem notMem (h : SpellsLeaf ws t) (hc : c ∈ ['*', '&', '[', ']']) : c ∉ joined ws :=
  notMem_of_leaf? h.leaf hc

theorem of_filter_eq {vs : List (List Char)} (h : SpellsLeaf ws t) (hvs : AreWords vs)
    (heq : vs.filter (!qualifierWords.contains ·) = ws.filter (!qualifierWords.contains ·)) :
    SpellsLeaf vs t := by
  refine ⟨hvs, (leaf?_congr ?_).trans h.leaf⟩
  rw [baseWords, baseWords, hvs.words_joined, h.words.words_joined, heq]

theorem exists_base (h : SpellsLeaf ws t) : ∃ w ∈ ws, w ≠ constWord := by
  by_contra hnone
  push Not at hnone
  have hempty : baseWords (joined ws) = [] := by
    rw [baseWords, h.words.words_joined, List.filter_eq_nil_iff]
    intro w hw
    rw [hnone w hw]
    decide
  have hleaf := h.leaf
  rw [leaf?, ← baseWords, hempty] at hleaf
  cases hleaf

theorem ne_nil (h : SpellsLeaf ws t) : ws ≠ [] := by
  obtain ⟨w, hw, -⟩ := h.exists_base
  exact List.ne_nil_of_mem hw

theorem dropConst (h : SpellsLeaf ws t) : SpellsLeaf (ws.rdropWhile (· == constWord)) t := by
  refine h.of_filter_eq (fun w hw => h.words w ?_) (filter_rdropWhile_const ws)
  exact (List.rdropWhile_prefix _ _).subset hw

theorem dropTrailingConst_eq (h : SpellsLeaf ws t) :
    dropTrailingConst (joined ws) = joined (ws.rdropWhile (· == constWord)) :=
  dropTrailingConst_joined h.words h.exists_base (h.notMem (by decide)) (h.notMem (by decide))

theorem ofChars_eq (h : SpellsLeaf ws t) : ofChars (joined ws) = .ok t := by
  have hsolid := h.words.solid_joined h.ne_nil
  have hlast {vs : List (List Char)} (hvs : SpellsLeaf vs t) (c : Char) (hc : c ∈ ['*', '&', '[', ']']) :
      (joined vs).getLast? ≠ some c := fun heq => hvs.notMem hc (List.mem_of_getLast? heq)
  have hne : trim (joined ws) ≠ [] := by
    obtain ⟨rest, c, hrest, -⟩ := hsolid.last
    rw [hsolid.trim_eq, hrest]
    simp
  have hcut : outermost (joined ws) = .ok (.leaf t) := by
    have hbracket : (trim (joined ws)).getLast? ≠ some ']' := by
      rw [hsolid.trim_eq]
      exact hlast h ']' (by decide)
    rw [outermost_eq_ofBody hne hbracket, hsolid.trim_eq, h.dropTrailingConst_eq,
      outermostOfBody_leaf (hlast h.dropConst '&' (by decide)) (hlast h.dropConst '*' (by decide)), h.dropConst.leaf]
  exact ofChars_leaf hcut

/-- A target that consists of such words is `const` when the first or the last of them is. -/
theorem splitConst_eq (h : SpellsLeaf ws t) :
    ∃ vs, SpellsLeaf vs t ∧ splitConst (joined ws ++ [' ']) =
      (ws.head? = some constWord || ws.getLast? = some constWord, joined vs) := by
  have hsolid := h.words.solid_joined h.ne_nil
  by_cases hlast : ws.getLast? = some constWord
  · refine ⟨_, h.dropConst, ?_⟩
    have hshort : (joined (ws.rdropWhile (· == constWord))).length ≠ (joined ws).length := by
      intro hlength
      have hsublist := dropTrailingConst_sublist (joined ws)
      rw [h.dropTrailingConst_eq] at hsublist
      have hsame := congrArg Text.words (hsublist.eq_of_length hlength)
      rw [h.dropConst.words.words_joined, h.words.words_joined, List.rdropWhile_eq_self_iff] at hsame
      refine hsame h.ne_nil ?_
      rw [List.getLast?_eq_some_getLast h.ne_nil, Option.some.injEq] at hlast
      simp [hlast]
    simp only [splitConst, hsolid.trim_append_blank, h.dropTrailingConst_eq]
    rw [if_pos hshort]
    simp [hlast]
  · have hplain := endsPlain_joined h.words hlast (h.notMem (by decide)) (h.notMem (by decide))
    have hstar : '*' ∉ joined ws := h.notMem (by decide)
    by_cases hfirst : ws.head? = some constWord
    · obtain ⟨rest, rfl⟩ := List.head?_eq_some_iff.mp hfirst
      have hrest : rest ≠ [] := by
        rintro rfl
        exact hlast rfl
      have htail : SpellsLeaf rest t := by
        have hqualifier : qualifierWords.contains constWord = true := by decide
        refine h.of_filter_eq h.words.tail ?_
        rw [List.filter_cons_of_neg (by simpa using hqualifier)]
      refine ⟨rest, htail, ?_⟩
      rw [joined_cons hrest] at hplain ⊢
      have hplain' : EndsPlain (joined rest) := by
        refine endsPlain_joined htail.words ?_ (htail.notMem (by decide)) (htail.notMem (by decide))
        rwa [List.getLast?_cons_of_ne_nil hrest] at hlast
      rw [splitConst_west (htail.words.solid_joined hrest) hplain' (htail.notMem (by decide))]
      simp
    · refine ⟨ws, h, ?_⟩
      rw [splitConst_plain hsolid hplain]
      · simp [hfirst, hlast]
      · intro hlead
        obtain ⟨after, hafter⟩ := hlead
        have hwords := h.words.words_joined
        rw [← hafter, List.append_assoc, List.singleton_append, words_append_blank (by decide)] at hwords
        rw [← hwords] at hfirst
        exact absurd rfl hfirst

end SpellsLeaf

theorem spellsLeaf_of_ofChars (hws : AreWords ws) (hnone : ∀ w ∈ ws, w ∉ qualifierWords)
    (h : ofChars (joined ws) = .ok t) (hleaf : t.WellFormedLeaf) : SpellsLeaf ws t := by
  refine ⟨hws, ?_⟩
  have hne : ws ≠ [] := by
    rintro rfl
    have hcut : outermost (joined []) = .error .empty := by decide
    rw [ofChars_error hcut] at h
    cases h
  have hsolid := hws.solid_joined hne
  have hread := leaf?_of_ofChars h hleaf
  rw [hsolid.trim_eq] at hread
  suffices hplain : EndsPlain (joined ws) by rwa [dropTrailingConst_eq_self hsolid hplain] at hread
  intro rest hrest
  have hwords := hws.words_joined
  constructor
  · rintro rfl
    rw [hrest] at hwords
    exact hnone constWord (hwords ▸ by decide) (by decide)
  · rw [← Bool.not_eq_true]
    intro hseparates
    obtain ⟨c, hlast, hc⟩ := (Option.any_eq_true _ _).mp hseparates
    obtain ⟨front, rfl⟩ := List.getLast?_eq_some_iff.mp hlast
    rw [Bool.or_eq_true, Bool.or_eq_true, beq_iff_eq, beq_iff_eq] at hc
    rw [hrest] at hread hwords
    by_cases hblank : isBlank c = true
    · -- the keyword would be one of the words
      rw [List.append_assoc, List.singleton_append, words_append_blank hblank] at hwords
      exact hnone constWord (hwords ▸ List.mem_append_right _ (by decide)) (by decide)
    · -- a declarator would be left at the end
      rw [Bool.not_eq_true] at hblank
      have hdeclarator : c = '*' ∨ c = '&' := by simpa [hblank] using hc
      have ht : c ≠ 't' := by
        rintro rfl
        simp at hdeclarator
      rw [dropTrailingConst_append_const hseparates, dropTrailingConst_concat _ hblank ht] at hread
      refine notMem_of_leaf? hread ?_ (List.mem_append_right _ List.mem_cons_self)
      rcases hdeclarator with rfl | rfl <;> decide

/-- **A target is `const` when its first or its last word is.** -/
theorem ofSpelling_declarator {ws : List String} {t : CType}
    (hwords : ∀ w ∈ ws, w ≠ "" ∧ ∀ c ∈ w.toList, isBlank c = false)
    (hbase : ofSpelling (" ".intercalate (ws.filter fun w => !qualifierWords.contains w.toList)) = .ok t)
    (hleaf : t.WellFormedLeaf) :
    ofSpelling (" ".intercalate ws ++ " &") =
        .ok (.reference t (ws.head? = some "const" ∨ ws.getLast? = some "const")) ∧
      ofSpelling (" ".intercalate ws ++ " *") =
        .ok (.pointer t (ws.head? = some "const" ∨ ws.getLast? = some "const")) := by
  have hare : AreWords (ws.map String.toList) := by
    intro w hw
    obtain ⟨word, hword, rfl⟩ := List.mem_map.mp hw
    exact ⟨fun hnil => (hwords word hword).1 (String.toList_eq_nil_iff.mp hnil), (hwords word hword).2⟩
  have hspells : SpellsLeaf (ws.map String.toList) t := by
    have hfilter : (ws.filter fun w => !qualifierWords.contains w.toList).map String.toList =
        (ws.map String.toList).filter (!qualifierWords.contains ·) := by
      rw [List.filter_map]
      rfl
    have hsub : AreWords ((ws.map String.toList).filter (!qualifierWords.contains ·)) :=
      fun w hw => hare w (List.mem_of_mem_filter hw)
    have hnone : ∀ w ∈ (ws.map String.toList).filter (!qualifierWords.contains ·), w ∉ qualifierWords :=
      fun w hw => by simpa using (List.mem_filter.mp hw).2
    rw [ofSpelling, String.toList_intercalate, hfilter] at hbase
    refine (spellsLeaf_of_ofChars hsub hnone hbase hleaf).of_filter_eq hare ?_
    rw [List.filter_filter]
    simp
  obtain ⟨vs, hvs, hsplit⟩ := hspells.splitConst_eq
  have hconst (word : Option String) : word.map String.toList = some constWord ↔ word = some "const" := by
    rw [show constWord = "const".toList by decide, ← Option.map_some]
    exact (Option.map_injective fun _ _ => String.toList_injective).eq_iff
  simp only [List.head?_map, List.getLast?_map, hconst, ← Bool.decide_or] at hsplit
  have hsolid := hare.solid_joined hspells.ne_nil
  have hread := hvs.ofChars_eq
  constructor
  · have htext : (" ".intercalate ws ++ " &").toList = joined (ws.map String.toList) ++ [' '] ++ ['&'] := by
      simp [joined, String.toList_intercalate]
    have hcut := outermost_ampersand (hsolid.append [' '] (solid_singleton (c := '&') (by decide)))
      List.getLast?_concat
    rw [hsplit] at hcut
    rw [ofSpelling, htext, ofChars_derived hcut hread]
    rfl
  · have htext : (" ".intercalate ws ++ " *").toList = joined (ws.map String.toList) ++ [' '] ++ ['*'] := by
      simp [joined, String.toList_intercalate]
    have hcut := outermost_star (hsolid.append [' '] (solid_singleton (c := '*') (by decide)))
    rw [hsplit] at hcut
    rw [ofSpelling, htext, ofChars_derived hcut hread]
    rfl

theorem ofSpelling_declarator_volatile :
    ofSpelling "struct ns::Foo volatile const &" = .ok (.reference (.named "ns::Foo") true) ∧
    ofSpelling "struct ns::Foo volatile const *" = .ok (.pointer (.named "ns::Foo") true) := by
  have hwords : ∀ w ∈ ["struct", "ns::Foo", "volatile", "const"],
      w ≠ "" ∧ ∀ c ∈ w.toList, isBlank c = false := by decide
  have hbase : ofSpelling (" ".intercalate
      (["struct", "ns::Foo", "volatile", "const"].filter fun w => !qualifierWords.contains w.toList)) =
      .ok (.named "ns::Foo") := by decide +kernel
  exact ofSpelling_declarator hwords hbase (by decide)

/-- Between other words a `const` is lost. -/
theorem ofSpelling_declarator_between :
    ofSpelling "volatile const int &" = .ok (.reference (.primitive (.integral .i32) "int") false) ∧
    ¬ ∀ (ws : List String) (t : CType), (∀ w ∈ ws, w ≠ "" ∧ ∀ c ∈ w.toList, isBlank c = false) →
      ofSpelling (" ".intercalate (ws.filter fun w => !qualifierWords.contains w.toList)) = .ok t →
      t.WellFormedLeaf →
      ofSpelling (" ".intercalate ws ++ " &") = .ok (.reference t ("const" ∈ ws)) ∧
        ofSpelling (" ".intercalate ws ++ " *") = .ok (.pointer t ("const" ∈ ws)) := by
  have hread : ofSpelling "volatile const int &" =
      .ok (.reference (.primitive (.integral .i32) "int") false) := by decide +kernel
  refine ⟨hread, fun hall => ?_⟩
  have hboth := hall ["volatile", "const", "int"] (.primitive (.integral .i32) "int") (by decide)
    (by decide +kernel) (by decide)
  have hsame := hboth.1
  rw [show " ".intercalate ["volatile", "const", "int"] ++ " &" = "volatile const int &" by decide, hread] at hsame
  exact absurd hsame (by decide)

end HostBinding.CType
