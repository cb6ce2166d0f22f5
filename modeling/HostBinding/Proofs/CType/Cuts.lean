import HostBinding.Proofs.CType.Readable
import HostBinding.Proofs.Prelude
import HostBinding.Proofs.Text.Trimming
import HostBinding.Proofs.Text.Words

/-!
# How a spelling is cut

Reading looks at the words of a leaf, at what a text ends in, and at what brackets hold. This module says once what
each of these can be: which texts are leaves, when a trailing `const` is dropped, which declarator an ending stands
for, and in which ways a type can have been read. Nothing else is dropped on the way, so a spelling holds a `*`
exactly when its type holds a pointer.
-/

namespace HostBinding.CType

open Text

variable {text back : List Char} {t : CType} {c : Char}

/-! ### Leaves and their words -/

def baseWords (text : List Char) : List (List Char) :=
  (words text).filter (!qualifierWords.contains ·)

theorem leaf?_congr {text' : List Char} (h : baseWords text = baseWords text') : leaf? text = leaf? text' := by
  rw [baseWords, baseWords] at h
  rw [leaf?, leaf?, h]

theorem spell_eq_of_leaf? (h : leaf? text = some t) : t.spell.toList = joined (baseWords text) := by
  rw [leaf?] at h
  split at h
  · cases h
  · rename_i first rest hwords
    rw [baseWords, hwords, joined]
    dsimp only at h
    split at h
    · rename_i hvoid
      cases h
      have hlist := congrArg String.toList hvoid
      rw [String.toList_ofList] at hlist
      exact hlist.symm
    · split at h
      · cases h
        simp [spell, spellWithin]
      · rw [Option.ite_none_right_eq_some] at h
        cases h.2
        simp [spell, spellWithin]

theorem mem_baseWords {word : List Char} (hword : word ∈ words text) (hqualifier : word ∉ qualifierWords) :
    word ∈ baseWords text :=
  List.mem_filter.mpr ⟨hword, by simpa using hqualifier⟩

theorem notMem_of_leaf? (h : leaf? text = some t) (hc : c ∈ ['*', '&', '[', ']']) : c ∉ text := by
  intro hmem
  have hblanks : ∀ c ∈ ['*', '&', '[', ']'], isBlank c = false := by decide
  have hqualifiers : ∀ c ∈ ['*', '&', '[', ']'], ∀ word ∈ qualifierWords, c ∉ word := by decide
  obtain ⟨word, hword, hin⟩ := exists_mem_words hmem (hblanks c hc)
  have hbase := mem_baseWords hword fun hqualifier => hqualifiers c hc word hqualifier hin
  have hspell := (wellFormedLeaf_of_leaf? h).leafText.declarators c hc
  rw [spell_eq_of_leaf? h] at hspell
  exact hspell (mem_joined_of_mem hbase hin)

/-! ### Dropping what trails -/

theorem dropTrailingConst_trimEnd (text : List Char) :
    dropTrailingConst (trimEnd text) = dropTrailingConst text := by
  rw [dropTrailingConst.eq_1 (trimEnd text), dropTrailingConst.eq_1 text, trimEnd_trimEnd]

theorem dropTrailingConst_trim (text : List Char) :
    dropTrailingConst (trim text) = dropTrailingConst (trimStart text) :=
  dropTrailingConst_trimEnd _

theorem dropTrailingConst_append_blanks (text : List Char) (hback : ∀ c ∈ back, isBlank c = true) :
    dropTrailingConst (text ++ back) = dropTrailingConst text := by
  rw [← dropTrailingConst_trimEnd (text ++ back), trimEnd_append_blanks text hback, dropTrailingConst_trimEnd]

theorem dropTrailingConst_concat (front : List Char) (hblank : isBlank c = false) (hc : c ≠ 't') :
    dropTrailingConst (front ++ [c]) = front ++ [c] := by
  rw [dropTrailingConst]
  simp only [trimEnd_concat hblank]
  rw [if_neg]
  intro hconst
  obtain ⟨rest, hrest⟩ := List.isSuffixOf_iff_suffix.mp (Bool.and_eq_true_iff.mp hconst).1
  have hlast := congrArg List.getLast? hrest
  simp [constWord] at hlast
  exact hc hlast.symm

theorem dropTrailingConst_eq_trimEnd
    (h : ∀ rest, trimEnd text = rest ++ constWord → separatesKeyword rest = false) :
    dropTrailingConst text = trimEnd text := by
  rw [dropTrailingConst]
  refine if_neg fun hconst => ?_
  rw [Bool.and_eq_true, List.isSuffixOf_iff_suffix] at hconst
  obtain ⟨⟨rest, hrest⟩, hseparates⟩ := hconst
  rw [← hrest, List.length_append, Nat.add_sub_cancel, List.take_left, h rest hrest.symm] at hseparates
  cases hseparates

theorem dropTrailingConst_eq_trimEnd_iff : dropTrailingConst text = trimEnd text ↔
    ∀ rest, trimEnd text = rest ++ constWord → separatesKeyword rest = false := by
  refine ⟨fun heq rest hrest => ?_, dropTrailingConst_eq_trimEnd⟩
  rw [← Bool.not_eq_true]
  intro hseparates
  have hlength := length_dropTrailingConst_le rest
  rw [← dropTrailingConst_append_const hseparates, ← hrest, dropTrailingConst_trimEnd, heq, hrest,
    List.length_append] at hlength
  simp only [constWord, List.length_cons] at hlength
  omega

/-- The steps in which trailing `const` are dropped: the last word goes, or nothing but blanks does. -/
@[elab_as_elim]
theorem dropTrailingConst_induction {motive : List Char → Prop}
    (drop : ∀ text rest, trimEnd text = rest ++ constWord → separatesKeyword rest = true →
      dropTrailingConst text = dropTrailingConst rest → motive rest → motive text)
    (keep : ∀ text, (∀ rest, trimEnd text = rest ++ constWord → separatesKeyword rest = false) →
      dropTrailingConst text = trimEnd text → motive text)
    (text : List Char) : motive text := by
  fun_induction dropTrailingConst text with
  | case1 text body rest hconst ih =>
    rw [Bool.and_eq_true, List.isSuffixOf_iff_suffix] at hconst
    obtain ⟨⟨front, hfront⟩, hseparates⟩ := hconst
    have hrest : rest = front := by
      simp only [rest, ← hfront, List.length_append, Nat.add_sub_cancel, List.take_left]
    rw [hrest] at hseparates ih
    refine drop text front hfront.symm hseparates ?_ ih
    rw [← dropTrailingConst_trimEnd text, ← dropTrailingConst_append_const hseparates, hfront]
  | case2 text body rest hconst =>
    have hkeep : ∀ front, trimEnd text = front ++ constWord → separatesKeyword front = false := by
      intro front hfront
      have hbody : body = front ++ constWord := hfront
      simp only [rest, hbody, List.length_append, Nat.add_sub_cancel, List.take_left] at hconst
      simpa [List.isSuffixOf_iff_suffix] using hconst
    exact keep text hkeep (dropTrailingConst_eq_trimEnd hkeep)

theorem dropTrailingConst_prefix_self (text : List Char) : dropTrailingConst text <+: text := by
  induction text using dropTrailingConst_induction with
  | drop text rest htext _ heq ih =>
    have hrest : rest <+: trimEnd text := htext ▸ List.prefix_append rest constWord
    exact heq ▸ ih.trans (hrest.trans (trimEnd_prefix_self text))
  | keep text _ heq => exact heq ▸ trimEnd_prefix_self text

theorem mem_dropTrailingConst_iff (hc : isBlank c = false) (hconst : c ∉ constWord) :
    c ∈ dropTrailingConst text ↔ c ∈ text := by
  induction text using dropTrailingConst_induction with
  | drop text rest htext _ heq ih =>
    have hrest : c ∈ trimEnd text ↔ c ∈ rest := by rw [htext, List.mem_append, or_iff_left hconst]
    rw [heq, ih, ← hrest, mem_trimEnd_iff hc]
  | keep text _ heq => rw [heq, mem_trimEnd_iff hc]

theorem mem_splitConst_iff (hc : isBlank c = false) (hconst : c ∉ constWord) :
    c ∈ (splitConst text).2 ↔ c ∈ text := by
  simp only [splitConst]
  split
  · rw [mem_dropTrailingConst_iff hc hconst, mem_trim_iff hc]
  · split
    · rename_i hlead
      rw [Bool.and_eq_true, List.isPrefixOf_iff_prefix] at hlead
      obtain ⟨rest, hrest⟩ := hlead.2
      have hlength : constWord.length + 1 = (constWord ++ [' ']).length := by simp
      have hspace : c ≠ ' ' := by
        rintro rfl
        cases hc
      have hword : c ∈ trim text ↔ c ∈ rest := by simp [← hrest, hconst, hspace]
      have htrim : c ∈ trim text ↔ c ∈ text := mem_trim_iff hc
      rw [← htrim, hword, ← hrest, hlength, List.drop_left, mem_trimStart_iff hc]
    · exact mem_trim_iff hc

/-! ### What a text ends in -/

/-- What is on the outside of a text that ends in no bracket and no `const`; `named` is the text that an error
names. -/
def outermostOfBody (named body : List Char) : Except SpellingError Outermost :=
  if ['&', '&'].isSuffixOf body then .error (.rvalueReference (String.ofList named))
  else if body.getLast? = some '&' then
    .ok (.derived (.reference (splitConst body.dropLast).1) (splitConst body.dropLast).2)
  else if body.getLast? = some '*' then
    .ok (.derived (.pointer (splitConst body.dropLast).1) (splitConst body.dropLast).2)
  else match leaf? body with
    | some type => .ok (.leaf type)
    | none => .error (.unsupported (String.ofList named))

theorem outermost_eq_ofBody (hne : trim text ≠ []) (hlast : (trim text).getLast? ≠ some ']') :
    outermost text = outermostOfBody (trim text) (dropTrailingConst (trim text)) := by
  simp only [outermost, hne, hlast, if_false]
  rfl

/-- What is on the outside of a text that ends in a bracket. -/
def outermostOfBounds (text : List Char) : Except SpellingError Outermost :=
  match (fields (· == '[') (text.dropWhile (· != '[')).tail).mapM readBound? with
  | some lengths => .ok (.derived (.bounds lengths) (text.takeWhile (· != '[')))
  | none => .error (.arrayBound (String.ofList text))

theorem outermost_eq_ofBounds (hlast : (trim text).getLast? = some ']') :
    outermost text = outermostOfBounds (trim text) := by
  have hne : trim text ≠ [] := by
    intro hnil
    simp [hnil] at hlast
  simp only [outermost, hne, hlast, if_false, if_true]
  rfl

theorem isSuffixOf_ampersands {c : Char} (h : c = '&' → text.getLast? ≠ some '&') :
    ['&', '&'].isSuffixOf (text ++ [c]) = false := by
  rw [← Bool.not_eq_true, List.isSuffixOf_iff_suffix]
  rintro ⟨rest, hrest⟩
  rw [show rest ++ ['&', '&'] = rest ++ ['&'] ++ ['&'] by simp] at hrest
  obtain ⟨rfl, hc⟩ := List.append_inj' hrest rfl
  exact h (List.cons.inj hc).1.symm List.getLast?_concat

theorem outermostOfBody_rvalue {named : List Char} (h : text.getLast? = some '&') :
    outermostOfBody named (text ++ ['&']) = .error (.rvalueReference (String.ofList named)) := by
  obtain ⟨front, rfl⟩ := List.getLast?_eq_some_iff.mp h
  have hends : ['&', '&'].isSuffixOf (front ++ ['&'] ++ ['&']) = true :=
    List.isSuffixOf_iff_suffix.mpr ⟨front, by simp⟩
  rw [outermostOfBody, if_pos hends]

theorem outermostOfBody_reference {named : List Char} (h : text.getLast? ≠ some '&') :
    outermostOfBody named (text ++ ['&']) =
      .ok (.derived (.reference (splitConst text).1) (splitConst text).2) := by
  simp [outermostOfBody, isSuffixOf_ampersands fun _ => h]

theorem outermostOfBody_pointer {named : List Char} :
    outermostOfBody named (text ++ ['*']) =
      .ok (.derived (.pointer (splitConst text).1) (splitConst text).2) := by
  have hends : ['&', '&'].isSuffixOf (text ++ ['*']) = false := isSuffixOf_ampersands fun h => absurd h (by decide)
  simp [outermostOfBody, hends]

theorem outermostOfBody_leaf {named : List Char} (hamp : text.getLast? ≠ some '&')
    (hstar : text.getLast? ≠ some '*') :
    outermostOfBody named text = match leaf? text with
      | some type => .ok (.leaf type)
      | none => .error (.unsupported (String.ofList named)) := by
  have hends : ['&', '&'].isSuffixOf text = false := by
    rw [← Bool.not_eq_true, List.isSuffixOf_iff_suffix]
    rintro ⟨rest, rfl⟩
    exact hamp (by simp)
  simp only [outermostOfBody, hends, hamp, hstar, if_false, Bool.false_eq_true]

theorem outermostOfBody_cases {named body : List Char} {cut : Outermost}
    (h : outermostOfBody named body = .ok cut) :
    (∃ t, leaf? body = some t ∧ cut = .leaf t) ∨
    (∃ front, body = front ++ ['&'] ∧ cut = .derived (.reference (splitConst front).1) (splitConst front).2) ∨
    ∃ front, body = front ++ ['*'] ∧ cut = .derived (.pointer (splitConst front).1) (splitConst front).2 := by
  rw [outermostOfBody] at h
  split at h
  · cases h
  · split at h
    · rename_i hlast
      obtain ⟨front, rfl⟩ := List.getLast?_eq_some_iff.mp hlast
      rw [List.dropLast_concat] at h
      exact .inr (.inl ⟨front, rfl, (Except.ok.inj h).symm⟩)
    · split at h
      · rename_i hlast
        obtain ⟨front, rfl⟩ := List.getLast?_eq_some_iff.mp hlast
        rw [List.dropLast_concat] at h
        exact .inr (.inr ⟨front, rfl, (Except.ok.inj h).symm⟩)
      · split at h
        · rename_i t hleaf
          exact .inl ⟨t, hleaf, (Except.ok.inj h).symm⟩
        · cases h

/-! ### How a type can be read -/

theorem isArray_bounds {lengths : List UInt64} (hne : lengths ≠ []) (t : CType) :
    ((Declarator.bounds lengths).apply t).isArray = true := by
  obtain ⟨length, lengths, rfl⟩ := List.exists_cons_of_ne_nil hne
  rfl

/-- How a type can be read. -/
theorem ofChars_cases (h : ofChars text = .ok t) :
    (∃ lengths u, (trim text).getLast? = some ']' ∧ lengths ≠ [] ∧
      (fields (· == '[') ((trim text).dropWhile (· != '[')).tail).mapM readBound? = some lengths ∧
      ofChars ((trim text).takeWhile (· != '[')) = .ok u ∧ t = (Declarator.bounds lengths).apply u) ∨
    (trim text).getLast? ≠ some ']' ∧
      (leaf? (dropTrailingConst (trim text)) = some t ∨
      (∃ front u, dropTrailingConst (trim text) = front ++ ['&'] ∧ ofChars (splitConst front).2 = .ok u ∧
        t = .reference u (splitConst front).1) ∨
      ∃ front u, dropTrailingConst (trim text) = front ++ ['*'] ∧ ofChars (splitConst front).2 = .ok u ∧
        t = .pointer u (splitConst front).1) := by
  by_cases hlast : (trim text).getLast? = some ']'
  · refine .inl ?_
    have hcut := outermost_eq_ofBounds hlast
    rw [outermostOfBounds] at hcut
    split at hcut
    · rename_i lengths hbounds
      rw [ofChars_eq_map hcut, map_eq_ok_iff] at h
      obtain ⟨u, hu, rfl⟩ := h
      refine ⟨lengths, u, hlast, ?_, hbounds, hu, rfl⟩
      rintro rfl
      exact fields_ne_nil _ _ (List.forall₂_nil_right_iff.mp (mapM_eq_some_iff.mp hbounds))
    · rw [ofChars_error hcut] at h
      cases h
  · refine .inr ⟨hlast, ?_⟩
    cases hcut : outermost text with
    | error cause =>
      rw [ofChars_error hcut] at h
      cases h
    | ok cut =>
      have hne : trim text ≠ [] := by
        intro hnil
        simp [outermost, hnil] at hcut
      rcases outermostOfBody_cases ((outermost_eq_ofBody hne hlast).symm.trans hcut) with
        ⟨u, hleaf, rfl⟩ | ⟨front, hbody, rfl⟩ | ⟨front, hbody, rfl⟩
      · rw [ofChars_leaf hcut] at h
        exact .inl (hleaf.trans (congrArg some (Except.ok.inj h)))
      · rw [ofChars_eq_map hcut, map_eq_ok_iff] at h
        obtain ⟨u, hu, rfl⟩ := h
        exact .inr (.inl ⟨front, u, hbody, hu, rfl⟩)
      · rw [ofChars_eq_map hcut, map_eq_ok_iff] at h
        obtain ⟨u, hu, rfl⟩ := h
        exact .inr (.inr ⟨front, u, hbody, hu, rfl⟩)

/-- A spelling that is read ends in a bracket exactly when it means an array. -/
theorem isArray_iff_of_ofChars (h : ofChars text = .ok t) :
    t.isArray = true ↔ (trim text).getLast? = some ']' := by
  rcases ofChars_cases h with ⟨lengths, u, hlast, hne, -, -, rfl⟩ | ⟨hlast, hread⟩
  · exact iff_of_true (isArray_bounds hne u) hlast
  · refine iff_of_false ?_ hlast
    rcases hread with hleaf | ⟨front, u, -, -, rfl⟩ | ⟨front, u, -, -, rfl⟩
    · simp [(wellFormedLeaf_of_leaf? hleaf).readable.2 t List.mem_cons_self]
    · exact Bool.false_ne_true
    · exact Bool.false_ne_true

theorem leaf?_of_ofChars (h : ofChars text = .ok t) (hleaf : t.WellFormedLeaf) :
    leaf? (dropTrailingConst (trim text)) = some t := by
  rcases ofChars_cases h with ⟨lengths, u, -, hne, -, -, rfl⟩ | ⟨-, hread⟩
  · have harray := isArray_bounds hne u
    simp [hleaf.readable.2 _ List.mem_cons_self] at harray
  · rcases hread with hread | ⟨front, u, -, -, rfl⟩ | ⟨front, u, -, -, rfl⟩
    · exact hread
    · cases hleaf
    · cases hleaf

/-! ### Where a `*` can stand -/

theorem isSome_digitValue?_of_mem {value : Nat} (h : readDigits? 10 text = some value) (hmem : c ∈ text) :
    (digitValue? c).isSome = true := by
  rw [readDigits?, Option.ite_none_left_eq_some] at h
  obtain ⟨-, h⟩ := h
  generalize 0 = start at h
  induction text generalizing start with
  | nil => cases hmem
  | cons d rest ih =>
    rw [List.foldlM_cons] at h
    obtain ⟨next, hstep, hrest⟩ := Option.bind_eq_some_iff.mp h
    obtain ⟨digit, hdigit, -⟩ := Option.bind_eq_some_iff.mp hstep
    rcases List.mem_cons.mp hmem with rfl | hmem
    · rw [hdigit]
      rfl
    · exact ih hmem next hrest

theorem star_notMem_of_readBound? {length : UInt64} (h : readBound? text = some length) : '*' ∉ text := by
  rw [readBound?, Option.ite_none_right_eq_some] at h
  obtain ⟨hlast, h⟩ := h
  obtain ⟨front, rfl⟩ := List.getLast?_eq_some_iff.mp hlast
  rw [List.dropLast_concat, readWord64?, Option.bind_eq_some_iff] at h
  obtain ⟨value, hvalue, -⟩ := h
  intro hmem
  have hfront : '*' ∈ front := by simpa using hmem
  rw [← mem_trim_iff (by decide)] at hfront
  have hplus : '*' ∈ dropPlus (trim front) := by
    generalize trim front = digits at hfront
    fun_cases dropPlus digits with
    | case1 rest => simpa using hfront
    | case2 => exact hfront
  exact absurd (isSome_digitValue?_of_mem hvalue hplus) (by decide)

theorem star_notMem_of_bounds {lengths : List UInt64}
    (h : (fields (· == '[') (text.dropWhile (· != '[')).tail).mapM readBound? = some lengths) :
    '*' ∉ text.dropWhile (· != '[') := by
  cases hbounds : text.dropWhile (· != '[') with
  | nil => exact List.not_mem_nil
  | cons c rest =>
    have hne : text.dropWhile (· != '[') ≠ [] := by simp [hbounds]
    have hopen : c = '[' := by simpa [hbounds] using List.head_dropWhile_not (· != '[') hne
    rw [hbounds, List.tail_cons] at h
    rw [hopen, List.mem_cons, not_or]
    refine ⟨by decide, fun hmem => ?_⟩
    obtain ⟨piece, hpiece, hin⟩ := exists_mem_fields (p := (· == '[')) hmem (by decide)
    obtain ⟨bound, hbound⟩ := exists_of_forall₂_of_mem (mapM_eq_some_iff.mp h) hpiece
    exact star_notMem_of_readBound? hbound hin

theorem containsPointer_bounds (lengths : List UInt64) (t : CType) :
    ((Declarator.bounds lengths).apply t).containsPointer = t.containsPointer := by
  induction lengths with
  | nil => rfl
  | cons length lengths ih => exact ih

theorem star_mem_iff_of_ofChars (h : ofChars text = .ok t) : '*' ∈ text ↔ t.containsPointer = true := by
  induction hlength : text.length using Nat.strong_induction_on generalizing text t with
  | _ length ih =>
    have hstar : isBlank '*' = false := by decide
    have hbody (text : List Char) : '*' ∈ text ↔ '*' ∈ dropTrailingConst (trim text) := by
      rw [mem_dropTrailingConst_iff hstar (by decide), mem_trim_iff hstar]
    have hshorter {front : List Char} {c : Char} (hfront : dropTrailingConst (trim text) = front ++ [c]) :
        (splitConst front).2.length < length := by
      have hcut := (length_dropTrailingConst_le (trim text)).trans (length_trim_le text)
      have hsplit := length_splitConst_le front
      rw [hfront, List.length_append, List.length_singleton] at hcut
      omega
    rcases ofChars_cases h with ⟨lengths, u, hlast, -, hbounds, hu, rfl⟩ |
      ⟨-, hleaf | ⟨front, u, hfront, hu, rfl⟩ | ⟨front, u, hfront, hu, rfl⟩⟩
    · have hcut : outermost text = .ok (.derived (.bounds lengths) ((trim text).takeWhile (· != '['))) := by
        rw [outermost_eq_ofBounds hlast, outermostOfBounds, hbounds]
      rw [containsPointer_bounds, ← ih _ (hlength ▸ length_lt_of_outermost hcut) hu rfl, ← mem_trim_iff hstar]
      conv_lhs => rw [← List.takeWhile_append_dropWhile (p := (· != '[')) (l := trim text)]
      rw [List.mem_append, or_iff_left (star_notMem_of_bounds hbounds)]
    · rw [hbody]
      refine iff_of_false (notMem_of_leaf? hleaf (by decide)) ?_
      have hwell := wellFormedLeaf_of_leaf? hleaf
      cases t with
      | pointer => cases hwell
      | reference => cases hwell
      | array => cases hwell
      | _ => exact Bool.false_ne_true
    · rw [hbody, hfront, List.mem_append, or_iff_left (by decide), ← mem_splitConst_iff hstar (by decide),
        ih _ (hshorter hfront) hu rfl, containsPointer]
    · rw [hbody, hfront]
      exact iff_of_true (by simp) rfl

end HostBinding.CType
