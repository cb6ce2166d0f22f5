import HostBinding.Proofs.Text.Cut

/-!
# Names that the host language reads

The editions of the host language do not reserve the same words, and a generated module has to be read in any of
them. A name can therefore be written as it is when it is an identifier, not the placeholder, and reserved in no
edition. Behind the raw mark a reserved word is a name as well, unless it stands for a place in a path.
-/

namespace HostBinding.Text

/-- The words that some edition of the host language reserves, in use or not. -/
def reservedWords : List String :=
  ["abstract", "as", "async", "await", "become", "box", "break", "const", "continue", "crate", "do", "dyn",
    "else", "enum", "extern", "false", "final", "fn", "for", "gen", "if", "impl", "in", "let", "loop", "macro",
    "match", "mod", "move", "mut", "override", "priv", "pub", "ref", "return", "self", "Self", "static", "struct",
    "super", "trait", "true", "try", "type", "typeof", "unsafe", "unsized", "use", "virtual", "where", "while",
    "yield"]

/-- The reserved words that are none of the names that a raw mark allows. -/
def pathWords : List String :=
  ["crate", "self", "Self", "super"]

/-- A name that needs no mark. -/
structure IsPlainName (text : String) : Prop where
  identifier : isIdentifier text.toList = true
  unreserved : text ∉ reservedWords
  ne_placeholder : text ≠ "_"

def IsRawName (text : String) : Prop :=
  ∃ name, text = rawMark ++ name ∧ isIdentifier name.toList = true ∧ name ∉ pathWords ∧ name ≠ "_"

def IsHostName (text : String) : Prop :=
  IsPlainName text ∨ IsRawName text

theorem isIdentifier_iff {text : String} :
    isIdentifier text.toList = true ↔ startsIdentifier text.toList = true ∧ Within isWordChar text := by
  rw [isIdentifier, Bool.and_eq_true, List.all_eq_true, Within]

theorem IsPlainName.not_isRawName {text : String} (h : IsPlainName text) : ¬ IsRawName text := by
  rintro ⟨name, rfl, -⟩
  have hmark := (isIdentifier_iff.mp h.identifier).2 '#' (by simp [rawMark])
  exact absurd hmark (by decide)

theorem startsIdentifier_append {text : List Char} (h : startsIdentifier text = true) (rest : List Char) :
    startsIdentifier (text ++ rest) = true := by
  cases text with
  | nil => cases h
  | cons c text => exact h

theorem isIdentifier_append {text rest : String} (h : isIdentifier text.toList = true)
    (hrest : Within isWordChar rest) : isIdentifier (text ++ rest).toList = true := by
  obtain ⟨hstarts, hwords⟩ := isIdentifier_iff.mp h
  refine isIdentifier_iff.mpr ⟨?_, hwords.append hrest⟩
  rw [String.toList_append]
  exact startsIdentifier_append hstarts _

theorem isIdentifier_sanitize (name : String) : isIdentifier (sanitize name).toList = true := by
  refine isIdentifier_iff.mpr ⟨?_, within_sanitize name⟩
  simp only [sanitize, String.toList_ofList]
  split
  · assumption
  · rfl

theorem reserved_of_mem_reservedWords :
    ∀ word ∈ reservedWords, word ∈ pathKeywords ∨ word ∈ keywords := by decide

theorem isHostName_escapeKeyword {name : String} (h : isIdentifier name.toList = true) :
    IsHostName (escapeKeyword name) := by
  have hpaths : ∀ path ∈ pathKeywords, path ++ "_" ∉ reservedWords ∧ path ++ "_" ≠ "_" := by decide
  have hkeywords : ∀ keyword ∈ keywords, keyword ∉ pathWords ∧ keyword ≠ "_" := by decide
  rw [escapeKeyword]
  split
  · rename_i hpath
    obtain ⟨hreserved, hplaceholder⟩ := hpaths name (by simpa using hpath)
    exact .inl ⟨isIdentifier_append h (within_of_all (by decide)), hreserved, hplaceholder⟩
  · rename_i hpath
    split
    · rename_i hkeyword
      exact .inr ⟨name, rfl, h, hkeywords name (by simpa using hkeyword)⟩
    · rename_i hkeyword
      rw [List.contains_iff_mem] at hpath hkeyword
      refine .inl ⟨h, fun hmem => ?_, fun heq => hpath (heq ▸ by decide)⟩
      exact (reserved_of_mem_reservedWords name hmem).elim hpath hkeyword

end HostBinding.Text
