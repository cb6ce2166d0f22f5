import HostBinding.Proofs.CType.Leading

/-!
# Which blanks a spelling has

Reading a spelling cuts at characters that are no blanks and cuts blanks off, so a respaced spelling is read in the
same way, with one exception. Whether a leading `const` is claimed depends on the character right behind it. So two
respaced spellings are errors of one kind, or they mean one type up to the `const` of the declarators that claim a
leading one, from the outside inwards.
-/

namespace HostBinding

/-- The kind of an error, without the text that was refused. -/
def SpellingError.bare : SpellingError → SpellingError
  | .empty => .empty
  | .rvalueReference _ => .rvalueReference ""
  | .arrayBound _ => .arrayBound ""
  | .unsupported _ => .unsupported ""

namespace CType

open Text

/-! ### Claiming a `const` -/

/-- The type in which as many declarators as there are words `const` to claim are const. A declarator claims one
when it is not const already and its target holds no pointer; outer declarators come first. -/
def claimConst (count : Nat) : CType → CType
  | .pointer target isConst =>
    if isConst || target.containsPointer then .pointer (target.claimConst count) isConst
    else .pointer (target.claimConst (count - 1)) (0 < count)
  | .reference target isConst =>
    if isConst || target.containsPointer then .reference (target.claimConst count) isConst
    else .reference (target.claimConst (count - 1)) (0 < count)
  | .array element length => .array (element.claimConst count) length
  | type => type

/-- How many declarators claim a `const` when there are enough. -/
def claimants : CType → Nat
  | .pointer target isConst | .reference target isConst =>
    if isConst || target.containsPointer then target.claimants else target.claimants + 1
  | .array element _ => element.claimants
  | _ => 0

variable {t : CType} {count count' : Nat}

theorem containsPointer_claimConst (count : Nat) (t : CType) :
    (t.claimConst count).containsPointer = t.containsPointer := by
  induction t generalizing count with
  | pointer target isConst ih =>
    rw [claimConst]
    split <;> rfl
  | reference target isConst ih =>
    rw [claimConst]
    split <;> simp only [containsPointer, ih]
  | array element length ih => exact ih count
  | _ => rfl

/-- Words that no declarator is left for change nothing. -/
theorem claimConst_eq_iff :
    t.claimConst count = t.claimConst count' ↔ min count t.claimants = min count' t.claimants := by
  induction t generalizing count count' with
  | pointer target isConst ih =>
    simp only [claimConst, claimants]
    split
    · simp [ih]
    · simp only [pointer.injEq, ih, decide_eq_decide]
      omega
  | reference target isConst ih =>
    simp only [claimConst, claimants]
    split
    · simp [ih]
    · simp only [reference.injEq, ih, decide_eq_decide]
      omega
  | array element length ih => simp [claimConst, claimants, ih]
  | _ => simp [claimConst, claimants]

theorem claimConst_bounds (lengths : List UInt64) :
    ((Declarator.bounds lengths).apply t).claimConst count =
      (Declarator.bounds lengths).apply (t.claimConst count) := by
  induction lengths with
  | nil => rfl
  | cons length lengths ih => exact congrArg (CType.array · length) ih

/-- The two declarators that a `const` can belong to. -/
def IsMark (mark : Bool → Declarator) : Prop :=
  mark = .pointer ∨ mark = .reference

theorem IsMark.claimConst_apply {mark : Bool → Declarator} (hmark : IsMark mark) (isConst : Bool) :
    ((mark isConst).apply t).claimConst count =
      if isConst || t.containsPointer then (mark isConst).apply (t.claimConst count)
      else (mark (0 < count)).apply (t.claimConst (count - 1)) := by
  rcases hmark with rfl | rfl <;> rfl

/-! ### Cuts of respaced texts -/

section Cuts

variable {text text' : List Char} {lengths : List UInt64}

theorem separatesKeyword_respaced (h : Respaced text text') : separatesKeyword text = separatesKeyword text' := by
  have hlast (text : List Char) : separatesKeyword text = true ↔
      text.getLast?.any isBlank = true ∨ text.getLast? = some '*' ∨ text.getLast? = some '&' := by
    rw [separatesKeyword]
    cases text.getLast? <;> simp [or_assoc]
  rw [Bool.eq_iff_iff, hlast, hlast, h.getLast?_any_isBlank, h.getLast?_eq_iff (by decide),
    h.getLast?_eq_iff (by decide)]

theorem exists_append_const (h : Respaced text text') {rest : List Char} (hrest : trimEnd text = rest ++ constWord) :
    ∃ rest', trimEnd text' = rest' ++ constWord ∧ Respaced rest rest' :=
  (hrest ▸ h.trimEnd).exists_append_word (by decide)

theorem dropTrailingConst_respaced (h : Respaced text text') :
    Respaced (dropTrailingConst text) (dropTrailingConst text') := by
  induction text using dropTrailingConst_induction generalizing text' with
  | drop text rest hrest hseparates heq ih =>
    obtain ⟨rest', hrest', hsame⟩ := exists_append_const h hrest
    rw [separatesKeyword_respaced hsame] at hseparates
    rw [heq, ← dropTrailingConst_trimEnd text', hrest', dropTrailingConst_append_const hseparates]
    exact ih hsame
  | keep text hkeep heq =>
    have hkeep' : ∀ rest', trimEnd text' = rest' ++ constWord → separatesKeyword rest' = false := by
      intro rest' hrest'
      obtain ⟨rest, hrest, hsame⟩ := exists_append_const h.symm hrest'
      rw [separatesKeyword_respaced hsame]
      exact hkeep rest hrest
    rw [heq, dropTrailingConst_eq_trimEnd hkeep']
    exact h.trimEnd

theorem dropTrailingConst_eq_trimEnd_respaced (h : Respaced text text') :
    dropTrailingConst text = trimEnd text ↔ dropTrailingConst text' = trimEnd text' := by
  have hkeep {text text' : List Char} (h : Respaced text text') (heq : dropTrailingConst text = trimEnd text) :
      dropTrailingConst text' = trimEnd text' := by
    rw [dropTrailingConst_eq_trimEnd_iff] at heq ⊢
    intro rest' hrest'
    obtain ⟨rest, hrest, hsame⟩ := exists_append_const h.symm hrest'
    rw [separatesKeyword_respaced hsame]
    exact heq rest hrest
  exact ⟨hkeep h, hkeep h.symm⟩

theorem isBlank_of_readWord64? {word : UInt64} (h : readWord64? text = some word) :
    ∀ c ∈ text, isBlank c = false := by
  obtain ⟨value, hvalue, -⟩ := Option.bind_eq_some_iff.mp h
  intro c hmem
  by_cases hplus : c = '+'
  · rw [hplus]
    decide
  · refine isBlank_of_isSome_digitValue? (isSome_digitValue?_of_mem hvalue ?_)
    fun_cases dropPlus text with
    | case1 rest => exact (List.mem_cons.mp hmem).resolve_left hplus
    | case2 => exact hmem

theorem readWord64?_respaced (h : Respaced text text') : readWord64? text = readWord64? text' := by
  have hread {text text' : List Char} (h : Respaced text text') {word : UInt64}
      (hword : readWord64? text = some word) : readWord64? text' = some word := by
    rwa [h.eq_of_solid (isBlank_of_readWord64? hword)]
  exact Option.ext fun word => ⟨hread h, hread h.symm⟩

theorem readBound?_respaced (h : Respaced text text') : readBound? text = readBound? text' := by
  by_cases hlast : text.getLast? = some ']'
  · obtain ⟨front, rfl⟩ := List.getLast?_eq_some_iff.mp hlast
    obtain ⟨front', rfl, hfront⟩ := h.exists_append_word (by decide)
    simp only [readBound?, List.getLast?_concat, List.dropLast_concat, if_true]
    exact readWord64?_respaced hfront.trim
  · have hlast' : text'.getLast? ≠ some ']' := fun hlast' => hlast ((h.getLast?_eq_iff (by decide)).mpr hlast')
    rw [readBound?, readBound?, if_neg hlast, if_neg hlast']

theorem mapM_readBound?_respaced {pieces pieces' : List (List Char)} (h : List.Forall₂ Respaced pieces pieces') :
    pieces.mapM readBound? = pieces'.mapM readBound? := by
  induction h with
  | nil => rfl
  | cons hpiece _ ih => rw [List.mapM_cons, List.mapM_cons, readBound?_respaced hpiece, ih]

theorem ne_bracket_of_isBlank {c : Char} (hc : isBlank c = true) : (c != '[') = true := by
  rw [bne_iff_ne]
  rintro rfl
  cases hc

theorem readBounds_respaced (h : Respaced text text') :
    (fields (· == '[') (text.dropWhile (· != '[')).tail).mapM readBound? =
      (fields (· == '[') (text'.dropWhile (· != '[')).tail).mapM readBound? := by
  have hdrop : Respaced (text.dropWhile (· != '[')) (text'.dropWhile (· != '[')) :=
    h.dropWhile fun _ => ne_bracket_of_isBlank
  have htail : Respaced (text.dropWhile (· != '[')).tail (text'.dropWhile (· != '[')).tail := by
    cases hbounds : text.dropWhile (· != '[') with
    | nil =>
      rw [hbounds] at hdrop
      rw [hdrop.eq_nil]
      exact .nil
    | cons c rest =>
      have hne : text.dropWhile (· != '[') ≠ [] := by simp [hbounds]
      have hopen : c = '[' := by simpa [hbounds] using List.head_dropWhile_not (· != '[') hne
      rw [hbounds, hopen] at hdrop
      obtain ⟨rest', hrest', hsame⟩ := hdrop.exists_cons (by decide)
      rw [hrest']
      exact hsame
  refine mapM_readBound?_respaced (htail.fields fun c hc => ?_)
  simpa using ne_bracket_of_isBlank hc

theorem leaf?_respaced (h : Respaced text text') : leaf? text = leaf? text' :=
  leaf?_congr (congrArg (List.filter (!qualifierWords.contains ·)) h.words_eq)

/-- Behind leading words a spelling is read as the same leaf. -/
theorem leaf?_leadText_append {gaps : List (List Char)} (hgaps : ∀ gap ∈ gaps, IsGap gap) (text : List Char) :
    leaf? (leadText gaps ++ text) = leaf? text := by
  refine leaf?_congr ?_
  induction gaps with
  | nil => rfl
  | cons gap gaps ih =>
    obtain ⟨hgap, hothers⟩ := List.forall_mem_cons.mp hgaps
    obtain ⟨c, blanks, rfl⟩ := List.exists_cons_of_ne_nil hgap.ne_nil
    obtain ⟨hc, hblanks⟩ := List.forall_mem_cons.mp hgap.blank
    have hlead : leadText ((c :: blanks) :: gaps) ++ text =
        constWord ++ c :: (blanks ++ (leadText gaps ++ text)) := leadText_cons_append _ gaps text
    have hqualifier : (words constWord).filter (!qualifierWords.contains ·) = [] := by decide
    rw [← ih hothers, baseWords, hlead, words_append_blank hc, words_append_of_blank hblanks, List.filter_append,
      hqualifier]
    rfl

end Cuts

/-! ### Respaced spellings -/

/-- Two texts behind leading words are read alike: as one type in which the leading words are claimed, or as errors,
which are of one kind when the same leading words stand before both. -/
def ReadAlike (gaps gaps' : List (List Char)) (result result' : Except SpellingError CType) : Prop :=
  (∃ t : CType, result = .ok (t.claimConst (spacedConsts gaps)) ∧
    result' = .ok (t.claimConst (spacedConsts gaps'))) ∨
  ∃ cause cause', result = .error cause ∧ result' = .error cause' ∧
    (gaps.length = gaps'.length → spacedConsts gaps = spacedConsts gaps' → cause.bare = cause'.bare)

section Reading

variable {gaps gaps' : List (List Char)} {core core' : List Char} {result result' : Except SpellingError CType}

theorem readAlike_of_error {cause cause' : SpellingError} (h : cause.bare = cause'.bare) :
    ReadAlike gaps gaps' (.error cause) (.error cause') :=
  .inr ⟨cause, cause', rfl, rfl, fun _ _ => h⟩

theorem ReadAlike.map (h : ReadAlike gaps gaps' result result') {f : CType → CType}
    (hf : ∀ t, result = .ok (t.claimConst (spacedConsts gaps)) →
      ∀ count, (f t).claimConst count = f (t.claimConst count)) :
    ReadAlike gaps gaps' (result.map f) (result'.map f) := by
  rcases h with ⟨t, rfl, rfl⟩ | ⟨cause, cause', rfl, rfl, h⟩
  · exact .inl ⟨f t, congrArg _ (hf t rfl _).symm, congrArg _ (hf t rfl _).symm⟩
  · exact .inr ⟨cause, cause', rfl, rfl, h⟩

theorem isHollow_constWord : IsHollow constWord :=
  show IsHollow (leadText [] ++ constWord) from isHollow_leadText_append_const (by simp)

/-- Leading words alone are no type, and no declarator's target. -/
theorem exists_ofChars_leadText (hgaps : ∀ gap ∈ gaps, IsGap gap) :
    (∃ named, ofChars (leadText gaps) = .error (if gaps = [] then .empty else .unsupported named)) ∧
    ∃ named, ofChars (splitConst (leadText gaps)).2 = .error (if gaps = [] then .empty else .unsupported named) := by
  by_cases hnil : gaps = []
  · subst hnil
    have hempty : ofChars [] = .error .empty := ofChars_error (by decide)
    have htarget : (splitConst []).2 = [] := List.sublist_nil.mp (splitConst_sublist [])
    exact ⟨⟨"", hempty⟩, "", (congrArg ofChars htarget).trans hempty⟩
  · have hhollow := isHollow_leadText hgaps hnil
    simp only [if_neg hnil, hhollow.splitConst_eq]
    exact ⟨⟨_, hhollow.ofChars_eq⟩, _, isHollow_constWord.ofChars_eq⟩

theorem readAlike_of_exhausted {named named' : String}
    (h : result = .error (if gaps = [] then .empty else .unsupported named))
    (h' : result' = .error (if gaps' = [] then .empty else .unsupported named')) :
    ReadAlike gaps gaps' result result' := by
  refine .inr ⟨_, _, h, h', fun hlength _ => ?_⟩
  have hnil : gaps = [] ↔ gaps' = [] := by
    rw [← List.length_eq_zero_iff, ← List.length_eq_zero_iff, hlength]
  by_cases hgap : gaps = []
  · rw [if_pos hgap, if_pos (hnil.mp hgap)]
  · rw [if_neg hgap, if_neg fun h => hgap (hnil.mpr h)]
    rfl

theorem Core.respaced (h : Core core) (hsame : Respaced core core') : Core core' where
  first := by
    rintro c rest rfl
    by_contra hc
    rw [Bool.not_eq_false] at hc
    obtain ⟨d, rest', rfl, hd⟩ := hsame.symm.exists_cons_blank hc
    rw [h.first d rest' rfl] at hd
    cases hd
  lead := by
    rintro c hc ⟨rest, rfl⟩
    rw [List.append_assoc] at hsame
    obtain ⟨back, rfl, hback⟩ := hsame.symm.exists_word_append (by decide)
    obtain ⟨d, rest', rfl, hd⟩ := hback.exists_cons_blank hc
    exact h.lead d hd ⟨rest', by simp⟩

theorem SolidCore.respaced (h : SolidCore core) (hsame : Respaced core core') : SolidCore core' where
  toCore := h.toCore.respaced hsame
  ne_nil hnil := h.ne_nil (Respaced.eq_nil (hnil ▸ hsame.symm))
  ne_const hconst := h.ne_const (Respaced.eq_of_solid (hconst ▸ hsame.symm) (by decide))

/-- What is to be shown of spellings, for those with a short part behind the leading words. -/
def ReadsAlikeUpTo (bound : Nat) : Prop :=
  ∀ ⦃gaps gaps' : List (List Char)⦄ ⦃core core' : List Char⦄, (∀ gap ∈ gaps, IsGap gap) →
    (∀ gap ∈ gaps', IsGap gap) → Core core → Respaced core core' → core.length ≤ bound →
    ReadAlike gaps gaps' (ofChars (leadText gaps ++ core)) (ofChars (leadText gaps' ++ core'))

/-- A pointer or reference that claims the first of the leading words, if it can be claimed. -/
theorem readAlike_claim {mark : Bool → Declarator} (hmark : IsMark mark)
    (h : ReadAlike (behindClaim gaps) (behindClaim gaps') result result')
    (hplain : ∀ t, result = .ok t → t.containsPointer = false) :
    ReadAlike gaps gaps' (result.map (mark (0 < spacedConsts gaps)).apply)
      (result'.map (mark (0 < spacedConsts gaps')).apply) := by
  rcases h with ⟨t, rfl, rfl⟩ | ⟨cause, cause', rfl, rfl, hbare⟩
  · have hnone : t.containsPointer = false := (containsPointer_claimConst _ t).symm.trans (hplain _ rfl)
    have hclaim (gaps : List (List Char)) : ((mark false).apply t).claimConst (spacedConsts gaps) =
        (mark (0 < spacedConsts gaps)).apply (t.claimConst (spacedConsts (behindClaim gaps))) := by
      rw [hmark.claimConst_apply, hnone, spacedConsts_behindClaim]
      rfl
    exact .inl ⟨(mark false).apply t, congrArg _ (hclaim gaps).symm, congrArg _ (hclaim gaps').symm⟩
  · refine .inr ⟨cause, cause', rfl, rfl, fun hcount hspaced => hbare ?_ ?_⟩
    · rw [length_behindClaim, length_behindClaim, hcount, hspaced]
    · rw [spacedConsts_behindClaim, spacedConsts_behindClaim, hspaced]

theorem readAlike_mark {mark : Bool → Declarator} (hmark : IsMark mark) (hgaps : ∀ gap ∈ gaps, IsGap gap)
    (hgaps' : ∀ gap ∈ gaps', IsGap gap) (hcore : Core core) (hsame : Respaced core core')
    (ih : ReadsAlikeUpTo core.length) :
    ReadAlike gaps gaps'
      ((ofChars (splitConst (leadText gaps ++ core)).2).map (mark (splitConst (leadText gaps ++ core)).1).apply)
      ((ofChars (splitConst (leadText gaps' ++ core')).2).map
        (mark (splitConst (leadText gaps' ++ core')).1).apply) := by
  rcases hcore.solid_or with rfl | rfl | hsolid
  · rw [hsame.eq_nil, List.append_nil, List.append_nil]
    obtain ⟨-, named, h⟩ := exists_ofChars_leadText hgaps
    obtain ⟨-, named', h'⟩ := exists_ofChars_leadText hgaps'
    rw [h, h']
    exact readAlike_of_exhausted rfl rfl
  · rw [hsame.eq_of_solid (by decide), (isHollow_leadText_append_const hgaps).splitConst_eq,
      (isHollow_leadText_append_const hgaps').splitConst_eq, isHollow_constWord.ofChars_eq]
    exact readAlike_of_error rfl
  have hsolid' := hsolid.respaced hsame
  have htrim := hcore.of_prefix (trimEnd_prefix_self core)
  have hlength := length_trimEnd_le core
  by_cases htrailing : dropTrailingConst core = trimEnd core
  · have htrailing' := (dropTrailingConst_eq_trimEnd_respaced hsame).mp htrailing
    by_cases hstar : '*' ∈ core
    · rw [splitConst_leadText_of_star hgaps hsolid htrailing hstar,
        splitConst_leadText_of_star hgaps' hsolid' htrailing' ((hsame.mem_iff (by decide)).mp hstar)]
      have hread := ih hgaps hgaps' htrim hsame.trimEnd hlength
      refine hread.map fun t ht count => ?_
      have hpointer := (star_mem_iff_of_ofChars ht).mp
        (List.mem_append_right _ ((mem_trimEnd_iff (by decide)).mpr hstar))
      rw [containsPointer_claimConst] at hpointer
      rw [hmark.claimConst_apply, hpointer, Bool.or_true, if_pos rfl]
    · rw [splitConst_leadText_of_plain hgaps hsolid htrailing hstar,
        splitConst_leadText_of_plain hgaps' hsolid' htrailing' fun h => hstar ((hsame.mem_iff (by decide)).mpr h)]
      have hbehind := fun gap hgap => hgaps gap (behindClaim_subset gaps hgap)
      have hbehind' := fun gap hgap => hgaps' gap (behindClaim_subset gaps' hgap)
      refine readAlike_claim hmark (ih hbehind hbehind' htrim hsame.trimEnd hlength) fun t ht => ?_
      rw [← Bool.not_eq_true, ← star_mem_iff_of_ofChars ht, List.mem_append, not_or]
      exact ⟨notMem_leadText hbehind (by decide) (by decide), fun h => hstar ((trimEnd_sublist core).subset h)⟩
  · have htrailing' : dropTrailingConst core' ≠ trimEnd core' := fun h =>
      htrailing ((dropTrailingConst_eq_trimEnd_respaced hsame).mpr h)
    rw [splitConst_leadText_of_trailing hgaps hsolid htrailing,
      splitConst_leadText_of_trailing hgaps' hsolid' htrailing']
    have hread := ih hgaps hgaps' (hcore.of_prefix (dropTrailingConst_prefix_self core))
      (dropTrailingConst_respaced hsame) (length_dropTrailingConst_le core)
    exact hread.map fun t _ count => by rw [hmark.claimConst_apply, Bool.true_or, if_pos rfl]

theorem getLast?_leadText_append_iff (hgaps : ∀ gap ∈ gaps, IsGap gap) {c : Char} (hc : isBlank c = false)
    (hconst : c ∉ constWord) (text : List Char) :
    (leadText gaps ++ text).getLast? = some c ↔ text.getLast? = some c := by
  by_cases hnil : text = []
  · subst hnil
    rw [List.append_nil]
    exact iff_of_false (fun h => notMem_leadText hgaps hc hconst (List.mem_of_getLast? h)) (by simp)
  · rw [List.getLast?_append_of_ne_nil _ hnil]

/-- Behind a body the same cut is made in both texts, or the same error. -/
theorem readAlike_body (hgaps : ∀ gap ∈ gaps, IsGap gap) (hgaps' : ∀ gap ∈ gaps', IsGap gap)
    {body body' : List Char} (hbody : Core body) (hsame : Respaced body body')
    (ih : ∀ bound < body.length, ReadsAlikeUpTo bound)
    {text text' named named' : List Char} (hcut : outermost text = outermostOfBody named (leadText gaps ++ body))
    (hcut' : outermost text' = outermostOfBody named' (leadText gaps' ++ body')) :
    ReadAlike gaps gaps' (ofChars text) (ofChars text') := by
  by_cases hamp : body.getLast? = some '&'
  · obtain ⟨front, rfl⟩ := List.getLast?_eq_some_iff.mp hamp
    obtain ⟨front', rfl, hfront⟩ := hsame.exists_append_word (by decide)
    rw [← List.append_assoc] at hcut hcut'
    by_cases hdouble : front.getLast? = some '&'
    · have hdouble' := (hfront.getLast?_eq_iff (by decide)).mp hdouble
      rw [← getLast?_leadText_append_iff hgaps (by decide) (by decide)] at hdouble
      rw [← getLast?_leadText_append_iff hgaps' (by decide) (by decide)] at hdouble'
      rw [outermostOfBody_rvalue hdouble] at hcut
      rw [outermostOfBody_rvalue hdouble'] at hcut'
      rw [ofChars_error hcut, ofChars_error hcut']
      exact readAlike_of_error rfl
    · have hdouble' := fun h => hdouble ((hfront.getLast?_eq_iff (by decide)).mpr h)
      rw [← getLast?_leadText_append_iff hgaps (by decide) (by decide)] at hdouble
      rw [← getLast?_leadText_append_iff hgaps' (by decide) (by decide)] at hdouble'
      rw [outermostOfBody_reference hdouble] at hcut
      rw [outermostOfBody_reference hdouble'] at hcut'
      rw [ofChars_eq_map hcut, ofChars_eq_map hcut']
      exact readAlike_mark (.inr rfl) hgaps hgaps' (hbody.of_prefix (List.prefix_append _ _)) hfront (ih _ (by simp))
  by_cases hstar : body.getLast? = some '*'
  · obtain ⟨front, rfl⟩ := List.getLast?_eq_some_iff.mp hstar
    obtain ⟨front', rfl, hfront⟩ := hsame.exists_append_word (by decide)
    rw [← List.append_assoc] at hcut hcut'
    rw [outermostOfBody_pointer] at hcut hcut'
    rw [ofChars_eq_map hcut, ofChars_eq_map hcut']
    exact readAlike_mark (.inl rfl) hgaps hgaps' (hbody.of_prefix (List.prefix_append _ _)) hfront (ih _ (by simp))
  · have hamp' := fun h => hamp ((hsame.getLast?_eq_iff (by decide)).mpr h)
    have hstar' := fun h => hstar ((hsame.getLast?_eq_iff (by decide)).mpr h)
    rw [← getLast?_leadText_append_iff hgaps (by decide) (by decide)] at hamp hstar
    rw [← getLast?_leadText_append_iff hgaps' (by decide) (by decide)] at hamp' hstar'
    rw [outermostOfBody_leaf hamp hstar, leaf?_leadText_append hgaps] at hcut
    rw [outermostOfBody_leaf hamp' hstar', leaf?_leadText_append hgaps', ← leaf?_respaced hsame] at hcut'
    cases hleaf : leaf? body with
    | none =>
      rw [hleaf] at hcut hcut'
      rw [ofChars_error hcut, ofChars_error hcut']
      exact readAlike_of_error rfl
    | some t =>
      rw [hleaf] at hcut hcut'
      rw [ofChars_leaf hcut, ofChars_leaf hcut']
      have hwell := wellFormedLeaf_of_leaf? hleaf
      have hplain (count : Nat) : t.claimConst count = t := by
        cases t with
        | pointer => cases hwell
        | reference => cases hwell
        | array => cases hwell
        | _ => rfl
      exact .inl ⟨t, by rw [hplain], by rw [hplain]⟩

theorem readAlike_bounds (hgaps : ∀ gap ∈ gaps, IsGap gap) (hgaps' : ∀ gap ∈ gaps', IsGap gap)
    {body body' : List Char} (hbody : Core body) (hsame : Respaced body body')
    (ih : ∀ bound < body.length, ReadsAlikeUpTo bound)
    {text text' : List Char} (hcut : outermost text = outermostOfBounds (leadText gaps ++ body))
    (hcut' : outermost text' = outermostOfBounds (leadText gaps' ++ body')) :
    ReadAlike gaps gaps' (ofChars text) (ofChars text') := by
  have hbefore {gaps : List (List Char)} (hgaps : ∀ gap ∈ gaps, IsGap gap) :
      ∀ c ∈ leadText gaps, (c != '[') = true := by
    intro c hc
    rw [bne_iff_ne]
    rintro rfl
    exact notMem_leadText hgaps (by decide) (by decide) hc
  have htake : Respaced (body.takeWhile (· != '[')) (body'.takeWhile (· != '[')) :=
    hsame.takeWhile fun _ => ne_bracket_of_isBlank
  have hlengths := readBounds_respaced hsame
  rw [outermostOfBounds, List.dropWhile_append_of_pos (hbefore hgaps),
    List.takeWhile_append_of_pos (hbefore hgaps)] at hcut
  rw [outermostOfBounds, List.dropWhile_append_of_pos (hbefore hgaps'),
    List.takeWhile_append_of_pos (hbefore hgaps'), ← hlengths] at hcut'
  cases hread : (fields (· == '[') (body.dropWhile (· != '[')).tail).mapM readBound? with
  | none =>
    rw [hread] at hcut hcut'
    rw [ofChars_error hcut, ofChars_error hcut']
    exact readAlike_of_error rfl
  | some lengths =>
    rw [hread] at hcut hcut'
    rw [ofChars_eq_map hcut, ofChars_eq_map hcut']
    have hinner := hbody.of_prefix (List.takeWhile_prefix (· != '['))
    have hshorter : (body.takeWhile (· != '[')).length < body.length := by
      have hne : body.dropWhile (· != '[') ≠ [] := by
        intro hnil
        rw [hnil] at hread
        cases hread
      have hsplit := congrArg List.length (List.takeWhile_append_dropWhile (p := (· != '[')) (l := body))
      rw [List.length_append] at hsplit
      have hpos := List.length_pos_iff.mpr hne
      omega
    refine (ih _ hshorter hgaps hgaps' hinner htake le_rfl).map fun t _ count => ?_
    exact claimConst_bounds lengths

/-- **Respaced spellings are read alike**, however many words `const` they begin with. -/
theorem readsAlikeUpTo (bound : Nat) : ReadsAlikeUpTo bound := by
  induction bound using Nat.strong_induction_on with
  | _ bound ih =>
    intro gaps gaps' core core' hgaps hgaps' hcore hsame hbound
    rcases hcore.solid_or with rfl | rfl | hsolid
    · rw [hsame.eq_nil, List.append_nil, List.append_nil]
      obtain ⟨⟨named, h⟩, -⟩ := exists_ofChars_leadText hgaps
      obtain ⟨⟨named', h'⟩, -⟩ := exists_ofChars_leadText hgaps'
      exact readAlike_of_exhausted h h'
    · rw [hsame.eq_of_solid (by decide), (isHollow_leadText_append_const hgaps).ofChars_eq,
        (isHollow_leadText_append_const hgaps').ofChars_eq]
      exact readAlike_of_error rfl
    have hsolid' := hsolid.respaced hsame
    have htrim := trim_leadText_append gaps hsolid
    have htrim' := trim_leadText_append gaps' hsolid'
    by_cases hlast : (trimEnd core).getLast? = some ']'
    · have hlast' := (hsame.trimEnd.getLast?_eq_iff (by decide)).mp hlast
      rw [← getLast?_leadText_append_iff hgaps (by decide) (by decide), ← htrim] at hlast
      rw [← getLast?_leadText_append_iff hgaps' (by decide) (by decide), ← htrim'] at hlast'
      have hcut := outermost_eq_ofBounds hlast
      have hcut' := outermost_eq_ofBounds hlast'
      rw [htrim] at hcut
      rw [htrim'] at hcut'
      have hlength := (length_trimEnd_le core).trans hbound
      exact readAlike_bounds hgaps hgaps' (hcore.of_prefix (trimEnd_prefix_self core)) hsame.trimEnd
        (fun shorter h => ih shorter (h.trans_le hlength)) hcut hcut'
    · have hlast' := fun h => hlast ((hsame.trimEnd.getLast?_eq_iff (by decide)).mpr h)
      rw [← getLast?_leadText_append_iff hgaps (by decide) (by decide), ← htrim] at hlast
      rw [← getLast?_leadText_append_iff hgaps' (by decide) (by decide), ← htrim'] at hlast'
      have hwhole : trim (leadText gaps ++ core) ≠ [] := by
        rw [htrim]
        exact List.append_ne_nil_of_right_ne_nil _ hsolid.trimEnd_ne_nil
      have hwhole' : trim (leadText gaps' ++ core') ≠ [] := by
        rw [htrim']
        exact List.append_ne_nil_of_right_ne_nil _ hsolid'.trimEnd_ne_nil
      have hcut := outermost_eq_ofBody hwhole hlast
      have hcut' := outermost_eq_ofBody hwhole' hlast'
      rw [htrim, dropTrailingConst_leadText_append_trimEnd hgaps hsolid] at hcut
      rw [htrim', dropTrailingConst_leadText_append_trimEnd hgaps' hsolid'] at hcut'
      have hlength := (length_dropTrailingConst_le core).trans hbound
      exact readAlike_body hgaps hgaps' (hcore.of_prefix (dropTrailingConst_prefix_self core))
        (dropTrailingConst_respaced hsame) (fun shorter h => ih shorter (h.trans_le hlength)) hcut hcut'

end Reading

/-! ### Finding the leading words -/

def leadingGaps (text : List Char) : List (List Char) :=
  let behind := (trimStart text).drop constWord.length
  if constWord.isPrefixOf (trimStart text) && behind.head?.any isBlank then
    behind.takeWhile isBlank :: leadingGaps (trimStart behind)
  else []
termination_by text.length
decreasing_by
  rename_i h
  rw [Bool.and_eq_true, List.isPrefixOf_iff_prefix] at h
  have hword : constWord.length = 5 := rfl
  have hlength := h.1.length_le
  have hbehind := length_trimStart_le behind
  have htext := length_trimStart_le text
  simp only [behind, List.length_drop] at hbehind
  omega

section Leading

variable {text text' core : List Char} {gaps : List (List Char)}

theorem leadingGaps_trimStart (text : List Char) : leadingGaps (trimStart text) = leadingGaps text := by
  rw [leadingGaps.eq_1 (trimStart text), leadingGaps.eq_1 text, trimStart_of_first (isBlank_of_trimStart text)]

theorem leadingGaps_leadText_append (hgaps : ∀ gap ∈ gaps, IsGap gap) (hcore : Core core) :
    leadingGaps (leadText gaps ++ core) = gaps := by
  induction gaps with
  | nil =>
    rw [leadingGaps, trimStart_leadText_append [] hcore]
    refine if_neg fun hlead => ?_
    rw [Bool.and_eq_true, List.isPrefixOf_iff_prefix] at hlead
    obtain ⟨⟨rest, hrest⟩, hblank⟩ := hlead
    rw [← hrest, List.drop_left, Option.any_eq_true] at hblank
    obtain ⟨c, hc, hblank⟩ := hblank
    obtain ⟨rest', rfl⟩ := List.head?_eq_some_iff.mp hc
    exact hcore.lead c hblank ⟨rest', by simpa [leadText] using hrest⟩
  | cons gap gaps ih =>
    obtain ⟨hgap, hothers⟩ := List.forall_mem_cons.mp hgaps
    have hstart := trimStart_leadText_append (gap :: gaps) hcore
    have hbehind : trimStart (gap ++ (leadText gaps ++ core)) = leadText gaps ++ core := by
      rw [trimStart, List.dropWhile_append_of_pos hgap.blank, ← trimStart, trimStart_leadText_append gaps hcore]
    have htake : (gap ++ (leadText gaps ++ core)).takeWhile isBlank = gap := by
      have hsplit := List.takeWhile_append_dropWhile (p := isBlank) (l := gap ++ (leadText gaps ++ core))
      rw [← trimStart, hbehind] at hsplit
      exact List.append_cancel_right hsplit
    have hhead : (gap ++ (leadText gaps ++ core)).head?.any isBlank = true := by
      obtain ⟨c, rest, rfl⟩ := List.exists_cons_of_ne_nil hgap.ne_nil
      exact hgap.blank c List.mem_cons_self
    rw [leadingGaps, hstart, leadText_cons_append, List.drop_left, hbehind, htake, ih hothers, if_pos]
    rw [Bool.and_eq_true, List.isPrefixOf_iff_prefix]
    exact ⟨List.prefix_append _ _, hhead⟩

theorem isGap_takeWhile {c : Char} (hc : isBlank c = true) (rest : List Char) :
    IsGap ((c :: rest).takeWhile isBlank) := by
  refine ⟨?_, fun d hd => List.mem_takeWhile_imp hd⟩
  rw [List.takeWhile_cons, if_pos hc]
  exact List.cons_ne_nil _ _

/-- Respaced texts have the same number of leading words, with gaps of their own. -/
theorem exists_leadText (h : Respaced text text') (hfirst : ∀ c rest, text = c :: rest → isBlank c = false) :
    ∃ gaps gaps' core core', text = leadText gaps ++ core ∧ text' = leadText gaps' ++ core' ∧
      (∀ gap ∈ gaps, IsGap gap) ∧ (∀ gap ∈ gaps', IsGap gap) ∧ gaps.length = gaps'.length ∧
      Core core ∧ Respaced core core' := by
  induction hlength : text.length using Nat.strong_induction_on generalizing text text' with
  | _ length ih =>
    by_cases hlead : ∃ c rest, isBlank c = true ∧ text = constWord ++ c :: rest
    · obtain ⟨c, rest, hc, rfl⟩ := hlead
      obtain ⟨back', rfl, hback⟩ := h.exists_word_append (by decide)
      obtain ⟨d, rest', rfl, hd⟩ := hback.exists_cons_blank hc
      have hshorter : (trimStart (c :: rest)).length < length := by
        have hstart := length_trimStart_le (c :: rest)
        have hword : constWord.length = 5 := rfl
        rw [← hlength, List.length_append]
        omega
      obtain ⟨gaps, gaps', core, core', htext, htext', hgaps, hgaps', hcount, hcore, hsame⟩ :=
        ih _ hshorter hback.trimStart (isBlank_of_trimStart _) rfl
      refine ⟨_ :: gaps, _ :: gaps', core, core', ?_, ?_,
        List.forall_mem_cons.mpr ⟨isGap_takeWhile hc rest, hgaps⟩,
        List.forall_mem_cons.mpr ⟨isGap_takeWhile hd rest', hgaps'⟩, by simp [hcount], hcore, hsame⟩
      · rw [leadText_cons_append, ← htext, trimStart, List.takeWhile_append_dropWhile]
      · rw [leadText_cons_append, ← htext', trimStart, List.takeWhile_append_dropWhile]
    · have hcore : Core text := by
        refine ⟨hfirst, fun c hc hword => hlead ?_⟩
        obtain ⟨rest, hrest⟩ := hword
        exact ⟨c, rest, hc, by simp [← hrest]⟩
      exact ⟨[], [], text, text', rfl, rfl, by simp, by simp, rfl, hcore, h⟩

end Leading

/-- How many words `const` at the start of a spelling can be claimed. -/
def claimable (spelling : String) : Nat :=
  spacedConsts (leadingGaps spelling.toList)

/-- **Which blanks a spelling has matters in one place.** Respaced spellings are read as the same type, or refused
with errors of one kind, when as many of the words `const` that they begin with have a space right behind them. When
not, they are refused together, or mean one type up to the `const` of as many declarators as such words are there to
claim; that makes no difference when fewer declarators are left to claim one. -/
theorem ofSpelling_respaced {spelling spelling' : String} (h : Respaced spelling.toList spelling'.toList) :
    (claimable spelling = claimable spelling' →
      (ofSpelling spelling).mapError SpellingError.bare = (ofSpelling spelling').mapError SpellingError.bare) ∧
    ((∃ t : CType, ofSpelling spelling = .ok (t.claimConst (claimable spelling)) ∧
        ofSpelling spelling' = .ok (t.claimConst (claimable spelling')) ∧
        (t.claimConst (claimable spelling) = t.claimConst (claimable spelling') ↔
          min (claimable spelling) t.claimants = min (claimable spelling') t.claimants)) ∨
      ∃ cause cause', ofSpelling spelling = .error cause ∧ ofSpelling spelling' = .error cause') := by
  obtain ⟨gaps, gaps', core, core', htext, htext', hgaps, hgaps', hcount, hcore, hsame⟩ :=
    exists_leadText h.trimStart (isBlank_of_trimStart spelling.toList)
  have hread := readsAlikeUpTo core.length hgaps hgaps' hcore hsame le_rfl
  have htrim (text : List Char) : ofChars (trimStart text) = ofChars text := by
    refine ofChars_congr ?_
    have hsame : trim (trimStart text) = trim text := by
      rw [trim, trim, trimStart_of_first (isBlank_of_trimStart text)]
    simp only [outermost, hsame]
  rw [← htext, ← htext', htrim, htrim, ← ofSpelling, ← ofSpelling] at hread
  have hclaimable : claimable spelling = spacedConsts gaps := by
    rw [claimable, ← leadingGaps_trimStart, htext, leadingGaps_leadText_append hgaps hcore]
  have hclaimable' : claimable spelling' = spacedConsts gaps' := by
    rw [claimable, ← leadingGaps_trimStart, htext', leadingGaps_leadText_append hgaps' (hcore.respaced hsame)]
  rw [hclaimable, hclaimable']
  rcases hread with ⟨t, hok, hok'⟩ | ⟨cause, cause', herror, herror', hbare⟩
  · refine ⟨fun heq => ?_, .inl ⟨t, hok, hok', claimConst_eq_iff⟩⟩
    rw [hok, hok', heq]
  · refine ⟨fun heq => ?_, .inr ⟨cause, cause', herror, herror'⟩⟩
    rw [herror, herror']
    exact congrArg Except.error (hbare hcount heq)

theorem respaced_behind_const {gap gap' : List Char} (hgap : IsGap gap) (hgap' : IsGap gap') (text : List Char) :
    Respaced (constWord ++ (gap ++ text)) (constWord ++ (gap' ++ text)) :=
  (Respaced.refl constWord).append (.gap hgap hgap' (.refl text))

theorem ofSpelling_respaced_break :
    Respaced "const\tunsigned int &".toList "const\n  unsigned int &".toList ∧
    claimable "const\tunsigned int &" = claimable "const\n  unsigned int &" ∧
    (ofSpelling "const\tunsigned int &").mapError SpellingError.bare =
      (ofSpelling "const\n  unsigned int &").mapError SpellingError.bare := by
  have hsame : Respaced "const\tunsigned int &".toList "const\n  unsigned int &".toList := by
    have htext : "const\tunsigned int &".toList = constWord ++ (['\t'] ++ "unsigned int &".toList) := by decide
    have htext' : "const\n  unsigned int &".toList = constWord ++ (['\n', ' ', ' '] ++ "unsigned int &".toList) := by
      decide
    rw [htext, htext']
    exact respaced_behind_const ⟨by decide, by decide⟩ ⟨by decide, by decide⟩ _
  have hcount : claimable "const\tunsigned int &" = claimable "const\n  unsigned int &" := by decide +kernel
  exact ⟨hsame, hcount, (ofSpelling_respaced hsame).1 hcount⟩

/-- A tab behind a leading `const` loses it. -/
theorem ofSpelling_respaced_tab :
    Respaced "const Foo &".toList "const\tFoo &".toList ∧
    ofSpelling "const Foo &" = .ok (.reference (.named "Foo") true) ∧
    ofSpelling "const\tFoo &" = .ok (.reference (.named "Foo") false) := by
  refine ⟨?_, by decide +kernel, by decide +kernel⟩
  have htext : "const Foo &".toList = constWord ++ ([' '] ++ "Foo &".toList) := by decide
  have htext' : "const\tFoo &".toList = constWord ++ (['\t'] ++ "Foo &".toList) := by decide
  rw [htext, htext']
  exact respaced_behind_const ⟨by decide, by decide⟩ ⟨by decide, by decide⟩ _

end CType

end HostBinding
