import Mathlib.Data.List.Nodup
import HostBinding.Proofs.Text.HostNames
import HostBinding.Proofs.Text.Reading

/-!
# Native names on the host side

A name of native code becomes one of the host language in two ways. A qualified name is flattened: its scopes are
joined by underscores. The scopes of a text are cut so that it can be put together again, which makes a name of one
scope its own identifier. Any longer name gets an underscore behind a scope that is not empty, and no word that the
host language reserves has one there. An identifier is escaped: the few words that no mark can free get an
underscore at the end. That is the only way in which escaping makes one name out of two.
-/

namespace HostBinding.Text

variable {text piece : List Char} {pieces : List (List Char)} {name name' word : String}

/-! ### Cutting and joining -/

theorem scopes_ne_nil (text : List Char) : scopes text ≠ [] := by
  fun_cases scopes text <;> simp

theorem intercalate_scopes (text : List Char) : [':', ':'].intercalate (scopes text) = text := by
  fun_induction scopes text with
  | case1 => rfl
  | case2 rest ih =>
    obtain ⟨piece, pieces, hpieces⟩ := List.exists_cons_of_ne_nil (scopes_ne_nil rest)
    rw [hpieces] at ih ⊢
    simpa [List.intercalate_cons_cons] using ih
  | case3 c rest _ piece pieces hpieces ih =>
    rw [hpieces] at ih
    cases pieces <;> simpa [List.intercalate_cons_cons] using ih
  | case4 c rest _ hpieces ih => exact absurd hpieces (scopes_ne_nil rest)

theorem scopes_of_forall (h : ∀ c ∈ text, c ≠ ':') : scopes text = [text] := by
  fun_induction scopes text with
  | case1 => rfl
  | case2 rest ih => exact absurd rfl (h ':' List.mem_cons_self)
  | case3 c rest _ piece pieces hpieces ih =>
    have hrest := ih fun d hd => h d (List.mem_cons_of_mem _ hd)
    rw [hpieces, List.cons.injEq] at hrest
    rw [hrest.1, hrest.2]
  | case4 c rest _ hpieces ih => exact absurd hpieces (scopes_ne_nil rest)

/-! ### Flattened names -/

theorem isIdentifier_intercalate (h : ∀ inner ∈ piece :: pieces, isIdentifier inner = true) :
    isIdentifier (['_'].intercalate (piece :: pieces)) = true := by
  induction pieces generalizing piece with
  | nil => simpa using h
  | cons next rest ih =>
    obtain ⟨hpiece, hothers⟩ := List.forall_mem_cons.mp h
    have hrest := ih hothers
    rw [isIdentifier, Bool.and_eq_true] at hpiece hrest ⊢
    rw [List.intercalate_cons_cons, List.append_assoc, List.all_append, List.all_append, hpiece.2, hrest.2]
    exact ⟨startsIdentifier_append hpiece.1 _, by decide⟩

theorem isIdentifier_flattenScopes (h : isQualifiedIdentifier name.toList = true) :
    isIdentifier (flattenScopes name).toList = true := by
  obtain ⟨piece, pieces, hpieces⟩ := List.exists_cons_of_ne_nil (scopes_ne_nil name.toList)
  rw [isQualifiedIdentifier, hpieces, List.all_eq_true] at h
  rw [flattenScopes, String.toList_ofList, hpieces]
  exact isIdentifier_intercalate h

theorem flattenScopes_of_scopes (h : scopes name.toList = [piece]) : flattenScopes name = name := by
  have hjoined := intercalate_scopes name.toList
  rw [h, List.intercalate_singleton] at hjoined
  rw [flattenScopes, h, List.intercalate_singleton, hjoined, String.ofList_toList]

theorem sanitize_of_isIdentifier (h : isIdentifier name.toList = true) : sanitize name = name := by
  rw [isIdentifier, Bool.and_eq_true, List.all_eq_true] at h
  obtain ⟨hstarts, hwords⟩ := h
  have hsame : flattenScopes name = name := by
    refine flattenScopes_of_scopes (scopes_of_forall fun c hc heq => ?_)
    exact absurd (heq ▸ hwords c hc) (by decide)
  have hkept : name.toList.map (fun c => if isWordChar c then c else '_') = name.toList :=
    (List.map_congr_left fun c hc => if_pos (hwords c hc)).trans (List.map_id _)
  simp only [sanitize, hsame, hkept, hstarts, if_true, String.ofList_toList]

/-- Flattening makes no word that has no underscore behind its first character, except from itself. -/
theorem flattenScopes_eq_iff (hname : isQualifiedIdentifier name.toList = true) (hword : '_' ∉ word.toList.tail)
    (hplain : ':' ∉ word.toList) : flattenScopes name = word ↔ name = word := by
  obtain ⟨piece, pieces, hpieces⟩ := List.exists_cons_of_ne_nil (scopes_ne_nil name.toList)
  cases pieces with
  | nil => rw [flattenScopes_of_scopes hpieces]
  | cons next rest =>
    rw [isQualifiedIdentifier, hpieces, List.all_eq_true] at hname
    have hpiece : piece ≠ [] := fun hempty =>
      absurd (hempty ▸ hname piece List.mem_cons_self) (by decide)
    obtain ⟨c, cs, rfl⟩ := List.exists_cons_of_ne_nil hpiece
    constructor
    · rintro rfl
      rw [flattenScopes, String.toList_ofList, hpieces, List.intercalate_cons_cons] at hword
      exact absurd (by simp) hword
    · rintro rfl
      have hone := scopes_of_forall fun c hc heq => hplain (heq ▸ hc)
      rw [hpieces, List.cons.injEq] at hone
      exact absurd hone.2 (List.cons_ne_nil _ _)

theorem rawMark_append_ne (h : isIdentifier name.toList = true) (word : String) : rawMark ++ word ≠ name := by
  rintro rfl
  exact absurd ((isIdentifier_iff.mp h).2 '#' (by simp [rawMark])) (by decide)

/-- An identifier is a name of the host language as long as it is not reserved. -/
theorem isHostName_iff_of_isIdentifier (h : isIdentifier name.toList = true) :
    IsHostName name ↔ name ∉ reservedWords ∧ name ≠ "_" := by
  constructor
  · rintro (hplain | ⟨word, heq, -⟩)
    · exact ⟨hplain.unreserved, hplain.ne_placeholder⟩
    · exact absurd heq.symm (rawMark_append_ne h word)
  · exact fun hunreserved => .inl ⟨h, hunreserved.1, hunreserved.2⟩

/-- The type that a qualified name is flattened to has a name of the host language exactly when the native name is not
itself a reserved word or the placeholder. -/
theorem isHostName_flattenScopes_iff (h : isQualifiedIdentifier name.toList = true) :
    IsHostName (flattenScopes name) ↔ name ∉ reservedWords ∧ name ≠ "_" := by
  have hwords : ∀ word ∈ "_" :: reservedWords, '_' ∉ word.toList.tail ∧ ':' ∉ word.toList := by decide
  have hsame (word : String) (hword : word ∈ "_" :: reservedWords) : flattenScopes name = word ↔ name = word :=
    flattenScopes_eq_iff h (hwords word hword).1 (hwords word hword).2
  rw [isHostName_iff_of_isIdentifier (isIdentifier_flattenScopes h), Ne, Ne, hsame "_" List.mem_cons_self]
  refine and_congr_left fun _ => not_congr ⟨fun hmem => ?_, fun hmem => ?_⟩
  · rwa [(hsame _ (List.mem_cons_of_mem _ hmem)).mp rfl]
  · rwa [(hsame _ (List.mem_cons_of_mem _ hmem)).mpr rfl]

/-! ### Escaped names -/

theorem escapeKeyword_cases (name : String) :
    name ∈ pathKeywords ∧ escapeKeyword name = name ++ "_" ∨
    name ∈ keywords ∧ escapeKeyword name = rawMark ++ name ∨
    name ∉ pathKeywords ∧ escapeKeyword name = name := by
  rw [escapeKeyword]
  split
  · rename_i hpath
    exact .inl ⟨by simpa using hpath, rfl⟩
  · rename_i hpath
    split
    · rename_i hkeyword
      exact .inr (.inl ⟨by simpa using hkeyword, rfl⟩)
    · exact .inr (.inr ⟨by simpa using hpath, rfl⟩)

/-- Two names are escaped alike when one is a word that no mark can free and the other ends in an underscore
instead. -/
theorem escapeKeyword_eq_iff (hname : isIdentifier name.toList = true) (hname' : isIdentifier name'.toList = true) :
    escapeKeyword name = escapeKeyword name' ↔
      name = name' ∨ name ∈ pathKeywords ∧ name' = name ++ "_" ∨ name' ∈ pathKeywords ∧ name = name' ++ "_" := by
  have hpaths : ∀ path ∈ pathKeywords, escapeKeyword path = escapeKeyword (path ++ "_") := by decide
  have hlonger (name : String) (h : isIdentifier name.toList = true) : isIdentifier (name ++ "_").toList = true :=
    isIdentifier_append h (within_of_all (by decide))
  constructor
  · intro h
    rcases escapeKeyword_cases name with ⟨hpath, heq⟩ | ⟨-, heq⟩ | ⟨-, heq⟩ <;>
      rcases escapeKeyword_cases name' with ⟨hpath', heq'⟩ | ⟨-, heq'⟩ | ⟨-, heq'⟩ <;> rw [heq, heq'] at h
    · exact .inl ((String.append_left_inj _).mp h)
    · exact absurd h.symm (rawMark_append_ne (hlonger name hname) name')
    · exact .inr (.inl ⟨hpath, h.symm⟩)
    · exact absurd h (rawMark_append_ne (hlonger name' hname') name)
    · exact .inl ((String.append_right_inj _).mp h)
    · exact absurd h (rawMark_append_ne hname' name)
    · exact .inr (.inr ⟨hpath', h⟩)
    · exact absurd h.symm (rawMark_append_ne hname name')
    · exact .inl h
  · rintro (rfl | ⟨hpath, rfl⟩ | ⟨hpath, rfl⟩)
    · rfl
    · exact hpaths name hpath
    · exact (hpaths name' hpath).symm

/-- Different names stay different when they are escaped, unless one of them is what another is escaped to. -/
theorem nodup_map_escapeKeyword_iff {names : List String} (hdistinct : names.Nodup)
    (hidents : ∀ name ∈ names, isIdentifier name.toList = true) :
    (names.map escapeKeyword).Nodup ↔ ∀ path ∈ pathKeywords, path ∈ names → path ++ "_" ∉ names := by
  have hpaths : ∀ path ∈ pathKeywords, path ≠ path ++ "_" ∧ escapeKeyword path = escapeKeyword (path ++ "_") := by
    decide
  rw [List.nodup_map_iff_inj_on hdistinct]
  constructor
  · intro hinj path hpath hmem hmem'
    obtain ⟨hne, heq⟩ := hpaths path hpath
    exact hne (hinj path hmem _ hmem' heq)
  · intro hapart name hmem name' hmem' heq
    rcases (escapeKeyword_eq_iff (hidents name hmem) (hidents name' hmem')).mp heq with
      hsame | ⟨hpath, rfl⟩ | ⟨hpath, rfl⟩
    · exact hsame
    · exact absurd hmem' (hapart name hpath hmem)
    · exact absurd hmem (hapart name' hpath hmem')

end HostBinding.Text
