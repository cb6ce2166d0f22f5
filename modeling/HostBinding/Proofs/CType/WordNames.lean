import HostBinding.Proofs.CType.Pieces
import HostBinding.Proofs.Text.NativeNames

/-!
# Mangled types over names without underscores

A struct name of letters and digits is one piece of a mangled type, and it is the name itself. Unless it is one of the
words for a declarator or for another leaf, it is read as what it is. So lists of types over such names are told apart
by their mangled texts, and a list without types is told apart from all others.
-/

namespace HostBinding

theorem Text.isDigit_eq_false_of_isAlpha {c : Char} (h : c.isAlpha = true) : c.isDigit = false := by
  change (decide (c.val ≥ 'A'.val ∧ c.val ≤ 'Z'.val) || (c.val ≥ 'a'.val && c.val ≤ 'z'.val)) = true at h
  change (c.val ≥ '0'.val && c.val ≤ '9'.val) = false
  simp only [Bool.or_eq_true, Bool.and_eq_true, decide_eq_true_eq, ge_iff_le, UInt32.le_iff_toNat_le] at h
  simp only [Bool.and_eq_false_iff, decide_eq_false_iff_not, ge_iff_le, UInt32.le_iff_toNat_le]
  change (65 ≤ c.toNat ∧ c.toNat ≤ 90) ∨ (97 ≤ c.toNat ∧ c.toNat ≤ 122) at h
  change ¬ 48 ≤ c.toNat ∨ ¬ c.toNat ≤ 57
  omega

namespace CType

open Text

/-- The words of a mangled type that stand for something, without those of arrays. -/
def markWords : List String :=
  ["void", "bool", "u8", "u16", "u32", "u64", "i8", "i16", "i32", "i64", "f16", "f32", "f64", "cptr", "ptr", "cref",
    "ref"]

/-- The names of structs that are read back from a mangled type. -/
structure IsWordName (name : String) : Prop where
  alphanumeric : ∀ c ∈ name.toList, c.isAlphanum = true
  letter : ∃ c ∈ name.toList.head?, c.isAlpha = true
  unmarked : name ∉ markWords
  /-- The name is no word of an array, `arr` with a bound behind it. -/
  unbounded : ∀ digits : List Char, digits ≠ [] → (∀ c ∈ digits, c.isDigit = true) →
    name.toList ≠ ['a', 'r', 'r'] ++ digits

variable {name name' : String} {types types' : List CType}

namespace Mark

theorem map_text_simple : simple.map text = markWords := by
  decide

/-- What is no word and no array is the text of no mark. -/
theorem isText_eq_false_iff : isText name.toList = false ↔ name ∉ markWords ∧
    ∀ digits : List Char, digits ≠ [] → (∀ c ∈ digits, c.isDigit = true) →
      name.toList ≠ ['a', 'r', 'r'] ++ digits := by
  rw [← Bool.not_eq_true, isText, Bool.or_eq_true, not_or, ← map_text_simple]
  refine and_congr (not_congr ?_) ?_
  · simp only [List.any_eq_true, decide_eq_true_eq, String.toList_inj, List.mem_map]
  · simp only [Bool.and_eq_true, Bool.not_eq_true', List.isPrefixOf_iff_prefix, List.all_eq_true,
      List.isEmpty_eq_false_iff]
    constructor
    · rintro harray digits hne hdigits heq
      refine harray ?_
      rw [heq]
      exact ⟨⟨List.prefix_append _ _, hne⟩, hdigits⟩
    · rintro hunbounded ⟨⟨⟨digits, heq⟩, hne⟩, hdigits⟩
      rw [← heq] at hne hdigits
      exact hunbounded digits hne hdigits heq.symm

end Mark

namespace IsWordName

theorem iff_chars : IsWordName name ↔ name.toList.all (·.isAlphanum) = true ∧
    name.toList.head?.any (·.isAlpha) = true ∧ Mark.isText name.toList = false := by
  rw [List.all_eq_true, Option.any_eq_true, Mark.isText_eq_false_iff]
  constructor
  · exact fun h => ⟨h.alphanumeric, h.letter, h.unmarked, h.unbounded⟩
  · exact fun ⟨alphanumeric, letter, unmarked, unbounded⟩ => ⟨alphanumeric, letter, unmarked, unbounded⟩

instance (name : String) : Decidable (IsWordName name) :=
  decidable_of_iff _ iff_chars.symm

theorem isIdentifier (h : IsWordName name) : isIdentifier name.toList = true := by
  obtain ⟨first, hfirst, hletter⟩ := h.letter
  obtain ⟨rest, hname⟩ := List.head?_eq_some_iff.mp hfirst
  have hdigit := isDigit_eq_false_of_isAlpha hletter
  rw [Text.isIdentifier, Bool.and_eq_true, List.all_eq_true]
  refine ⟨by simp [hname, startsIdentifier, hdigit], fun c hc => ?_⟩
  rw [isWordChar, h.alphanumeric c hc, Bool.true_or]

theorem pieces_sanitize (h : IsWordName name) : pieces (sanitize name) = [name.toList] := by
  rw [sanitize_of_isIdentifier h.isIdentifier]
  refine pieces_of_notMem fun hunderscore => ?_
  exact absurd (h.alphanumeric '_' hunderscore) (by decide)

theorem separable {names : List String} (h : ∀ name ∈ names, IsWordName name) : Separable names := by
  constructor
  case unmarked =>
    intro name hname piece hpiece
    rw [(h name hname).pieces_sanitize, List.head?_cons, Option.mem_some_iff] at hpiece
    rw [← hpiece]
    exact Mark.isText_eq_false_iff.mpr ⟨(h name hname).unmarked, (h name hname).unbounded⟩
  case apart =>
    intro name hname name' hname' hparts
    rw [(h name hname).pieces_sanitize, (h name' hname').pieces_sanitize, List.cons_prefix_cons] at hparts
    exact String.toList_injective hparts.1

end IsWordName

/-- **Lists of types over names of letters and digits are mangled to one text exactly when they are the same**, as long
and with the same types up to the spelling of primitives. No type of them may be `void`, which is how the empty list is
mangled. -/
theorem mangleAll_eq_iff_of_wordNames
    (htypes : ∀ t ∈ types, t ≠ .void ∧ ∀ name ∈ t.structName?, IsWordName name)
    (htypes' : ∀ t ∈ types', t ≠ .void ∧ ∀ name ∈ t.structName?, IsWordName name) :
    mangleAll types = mangleAll types' ↔
      types.length = types'.length ∧ types.map canonical = types'.map canonical := by
  let names := (types ++ types').filterMap structName?
  have hnames : ∀ name ∈ names, IsWordName name := by
    intro name hname
    obtain ⟨t, hmem, ht⟩ := List.mem_filterMap.mp hname
    rcases List.mem_append.mp hmem with hmem | hmem
    · exact (htypes t hmem).2 name ht
    · exact (htypes' t hmem).2 name ht
  have hwithin {list : List CType} (hlist : list ⊆ types ++ types') {t : CType} (hmem : t ∈ list) :
      ∀ name ∈ t.structName?, name ∈ names :=
    fun _ hname => List.mem_filterMap.mpr ⟨t, hlist hmem, hname⟩
  rw [(IsWordName.separable hnames).mangleAll_eq_iff
    (fun t hmem => ⟨(htypes t hmem).1, hwithin (List.subset_append_left _ _) hmem⟩)
    (fun t hmem => ⟨(htypes' t hmem).1, hwithin (List.subset_append_right _ _) hmem⟩)]
  refine ⟨fun hsame => ⟨?_, hsame⟩, And.right⟩
  simpa using congrArg List.length hsame

namespace Sample

def crowded : List CType :=
  [.pointer (.array (.named "arr") 3) true, .reference (.pointer .void false) true, .named "ptr8", .named "i16b",
    .primitive (.integral .i64) "long"]

def respelled : List CType :=
  [.pointer (.array (.named "arr") 3) true, .reference (.pointer .void false) true, .named "ptr8", .named "i16b",
    .primitive (.integral .i64) "ptrdiff_t"]

end Sample

open CType.Sample in
theorem mangleAll_eq_iff_of_wordNames_crowded :
    (∀ t ∈ crowded, t ≠ .void ∧ ∀ name ∈ t.structName?, IsWordName name) ∧
    (∀ t ∈ respelled, t ≠ .void ∧ ∀ name ∈ t.structName?, IsWordName name) ∧
    mangleAll crowded = "cptr_arr3_arr_cref_ptr_void_ptr8_i16b_i64" ∧ mangleAll crowded = mangleAll respelled ∧
    mangleAll [] ≠ mangleAll crowded := by
  have hnames : ∀ name ∈ ["arr", "ptr8", "i16b"], IsWordName name := by decide +kernel
  have hcrowded : ∀ t ∈ crowded, t ≠ .void ∧ ∀ name ∈ t.structName?, IsWordName name := by
    simpa [crowded, structName?] using hnames
  have hrespelled : ∀ t ∈ respelled, t ≠ .void ∧ ∀ name ∈ t.structName?, IsWordName name := by
    simpa [respelled, structName?] using hnames
  refine ⟨hcrowded, hrespelled, by decide +kernel, ?_, ?_⟩
  · exact (mangleAll_eq_iff_of_wordNames hcrowded hrespelled).mpr ⟨rfl, rfl⟩
  · intro hempty
    have hsame := (mangleAll_eq_iff_of_wordNames (by simp) hcrowded).mp hempty
    exact absurd hsame.1 (by decide)

/-- With an underscore in a name, the text does not tell one struct from two. -/
example : mangleAll [.named "Vec_Vec"] = mangleAll [.named "Vec", .named "Vec"] := by decide +kernel

end CType

end HostBinding
