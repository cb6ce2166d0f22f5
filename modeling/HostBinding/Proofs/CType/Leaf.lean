import HostBinding.Proofs.CType.Outermost

/-!
# Leaves

A leaf is read from words, so its spelling stands for it exactly when these words name it: a primitive under
one of its builtin spellings, a struct under an identifier that means nothing else. Such a spelling holds no
declarator, and no part of it is taken for a `const` of the level outside.
-/

namespace HostBinding.CType

open Text

/-- A leaf that its spelling names. -/
def WellFormedLeaf : CType → Prop
  | .void => True
  | .primitive kind spelling => Primitive.ofSpelling? spelling = some kind
  | .named name => isQualifiedIdentifier name.toList = true ∧ name ≠ "void" ∧
    Primitive.ofSpelling? name = none ∧ name.toList ∉ qualifierWords
  | .pointer _ _ | .reference _ _ | .array _ _ => False

instance (t : CType) : Decidable t.WellFormedLeaf :=
  match t with
  | .void => isTrue trivial
  | .primitive kind spelling => inferInstanceAs (Decidable (Primitive.ofSpelling? spelling = some kind))
  | .named name => inferInstanceAs (Decidable (isQualifiedIdentifier name.toList = true ∧ name ≠ "void" ∧
    Primitive.ofSpelling? name = none ∧ name.toList ∉ qualifierWords))
  | .pointer _ _ | .reference _ _ | .array _ _ => isFalse id

/-- What the printer relies on when it puts a declarator and constness around a text. -/
structure Sealed (text : List Char) : Prop where
  solid : Solid text
  plain : EndsPlain text
  lead : constWord ++ [' '] <+: text → '*' ∈ text

/-- A text that is sealed and holds no declarator. -/
structure LeafText (text : List Char) : Prop extends Sealed text where
  declarators : ∀ c ∈ ['*', '&', '[', ']'], c ∉ text

variable {text : List Char} {t : CType}

theorem LeafText.outermost_eq (h : LeafText text) (hleaf : leaf? text = some t) :
    outermost text = .ok (.leaf t) := by
  have hne : text ≠ [] := by
    intro heq
    subst heq
    obtain ⟨c, rest, hnil, -⟩ := h.solid.first
    cases hnil
  have hlast : ∀ c ∈ ['*', '&', '[', ']'], text.getLast? ≠ some c :=
    fun c hc heq => h.declarators c hc (List.mem_of_getLast? heq)
  have hamp : ['&', '&'].isSuffixOf text = false := by
    rw [← Bool.not_eq_true, List.isSuffixOf_iff_suffix]
    intro hsuffix
    exact h.declarators '&' (by decide) (hsuffix.subset List.mem_cons_self)
  simp [outermost, h.solid.trim_eq, hne, dropTrailingConst_eq_self h.solid h.plain, hamp, hleaf,
    hlast ']' (by decide), hlast '&' (by decide), hlast '*' (by decide)]

/-! ### Builtin spellings -/

def isLeafText (text : List Char) : Bool :=
  text.head?.any (!isBlank ·) && text.getLast?.any (!isBlank ·) && !constWord.isSuffixOf text &&
    !(constWord ++ [' ']).isPrefixOf text && ['*', '&', '[', ']'].all (!text.contains ·)

theorem leafText_of_isLeafText (h : isLeafText text = true) : LeafText text := by
  simp only [isLeafText, Bool.and_eq_true, Bool.not_eq_true', Option.any_eq_true, List.all_eq_true,
    List.contains_eq_mem, decide_eq_false_iff_not] at h
  obtain ⟨⟨⟨⟨⟨c, hfirst, hc⟩, ⟨d, hlast, hd⟩⟩, hplain⟩, hlead⟩, hdeclarators⟩ := h
  constructor
  case declarators => exact hdeclarators
  case toSealed =>
    constructor
    case solid =>
      obtain ⟨rest, hrest⟩ := List.head?_eq_some_iff.mp hfirst
      obtain ⟨rest', hrest'⟩ := List.getLast?_eq_some_iff.mp hlast
      exact ⟨⟨c, rest, hrest, hc⟩, ⟨rest', d, hrest', hd⟩⟩
    case plain =>
      rintro rest rfl
      rw [← Bool.not_eq_true, List.isSuffixOf_iff_suffix] at hplain
      exact absurd (List.suffix_append rest constWord) hplain
    case lead =>
      intro hleads
      rw [List.isPrefixOf_iff_prefix.mpr hleads] at hlead
      cases hlead

theorem leaf?_of_words {spelling : String}
    (hwords : [' '].intercalate ((words spelling.toList).filter (!qualifierWords.contains ·)) =
      spelling.toList)
    (hvoid : spelling ≠ "void") {kind : Primitive} (hkind : Primitive.ofSpelling? spelling = some kind) :
    leaf? spelling.toList = some (.primitive kind spelling) := by
  rw [leaf?]
  split
  · rename_i hnone
    rw [hnone] at hwords
    have hempty : spelling = "" := String.toList_eq_nil_iff.mp hwords.symm
    have hnothing : Primitive.ofSpelling? "" = none := by decide
    rw [hempty, hnothing] at hkind
    cases hkind
  · rename_i first rest hsome
    rw [hsome] at hwords
    simp [hwords, hvoid, hkind]

theorem builtin_words : ∀ spelling ∈ Primitive.builtins.map Prod.fst,
    isLeafText spelling.toList = true ∧ spelling ≠ "void" ∧
    [' '].intercalate ((words spelling.toList).filter (!qualifierWords.contains ·)) = spelling.toList := by
  decide +kernel

theorem mem_builtins {spelling : String} {kind : Primitive} (h : Primitive.ofSpelling? spelling = some kind) :
    spelling ∈ Primitive.builtins.map Prod.fst := by
  obtain ⟨before, after, hsplit, -⟩ := List.lookup_eq_some_iff.mp h
  rw [hsplit]
  simp

/-! ### Names -/

theorem not_mem_of_isQualifiedIdentifier (hname : isQualifiedIdentifier text = true) {c : Char}
    (hword : isWordChar c = false) (hcolon : c ≠ ':') : c ∉ text := by
  intro hmem
  rcases (forall_of_isQualifiedIdentifier hname).2 c hmem with h | h
  · rw [hword] at h
    cases h
  · exact hcolon h

theorem isBlank_of_mem_name (hname : isQualifiedIdentifier text = true) :
    ∀ c ∈ text, isBlank c = false := by
  intro c hmem
  rcases (forall_of_isQualifiedIdentifier hname).2 c hmem with h | rfl
  · exact isBlank_of_isWordChar h
  · decide

theorem leafText_of_name (hname : isQualifiedIdentifier text = true) (hconst : text ≠ constWord) :
    LeafText text := by
  have hblank := isBlank_of_mem_name hname
  have hdeclarators : ∀ c ∈ ['*', '&', '[', ']'], c ∉ text := by
    have hothers : (['*', '&', '[', ']'].all fun c => !isWordChar c && c != ':') = true := by decide
    intro c hc
    have hother := List.all_eq_true.mp hothers c hc
    rw [Bool.and_eq_true, Bool.not_eq_true', bne_iff_ne] at hother
    exact not_mem_of_isQualifiedIdentifier hname hother.1 hother.2
  constructor
  case declarators => exact hdeclarators
  case toSealed =>
    constructor
    case solid => exact solid_of_forall (forall_of_isQualifiedIdentifier hname).1 hblank
    case plain =>
      exact endsPlain_word hconst hblank (hdeclarators '*' (by decide)) (hdeclarators '&' (by decide))
    case lead =>
      intro h
      have hspace := hblank ' ' (h.subset (by decide))
      exact absurd hspace (by decide)

theorem leaf?_of_name {name : String} (h : (CType.named name).WellFormedLeaf) :
    leaf? name.toList = some (.named name) := by
  obtain ⟨hname, hvoid, hbuiltin, hqualifier⟩ := h
  have hwords := words_of_forall (forall_of_isQualifiedIdentifier hname).1 (isBlank_of_mem_name hname)
  simp [leaf?, hwords, hqualifier, hvoid, hbuiltin, hname]

/-! ### All leaves -/

theorem WellFormedLeaf.leafText (h : t.WellFormedLeaf) : LeafText t.spell.toList := by
  cases t with
  | void => exact leafText_of_isLeafText (by decide)
  | primitive kind spelling =>
    have htext := leafText_of_isLeafText (builtin_words spelling (mem_builtins h)).1
    simpa [spell, spellWithin] using htext
  | named name =>
    obtain ⟨hname, -, -, hqualifier⟩ := h
    have hconst : name.toList ≠ constWord := fun heq => hqualifier (heq ▸ List.mem_cons_self)
    simpa [spell, spellWithin] using leafText_of_name hname hconst
  | _ => cases h

theorem WellFormedLeaf.leaf?_eq (h : t.WellFormedLeaf) : leaf? t.spell.toList = some t := by
  cases t with
  | void => decide
  | primitive kind spelling =>
    obtain ⟨-, hvoid, hwords⟩ := builtin_words spelling (mem_builtins h)
    simpa [spell, spellWithin] using leaf?_of_words hwords hvoid h
  | named name => simpa [spell, spellWithin] using leaf?_of_name h
  | _ => cases h

/-- **A well-formed leaf is read from its spelling.** -/
theorem WellFormedLeaf.outermost_eq (h : t.WellFormedLeaf) : outermost t.spell.toList = .ok (.leaf t) :=
  h.leafText.outermost_eq h.leaf?_eq

end HostBinding.CType
