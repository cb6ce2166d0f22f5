import HostBinding.Proofs.CType.Readable
import HostBinding.Proofs.Prelude

/-!
# When a printed type is read back

A `const` to the left of a target is read as that of the innermost pointer or, when the target holds no
pointer, as that of the outermost declarator. The printer writes it there for every target but a pointer. So a
type that was read comes back from its own spelling exactly when each such `const` is read for the declarator
that it was written for. Otherwise it turns up on another level, as it does for a reference to a `const` array
of pointers.
-/

namespace HostBinding.CType

open Text

/-- Whether the type is or holds a reference to something `const`. -/
def holdsConstReference : CType → Bool
  | .reference target isConst => isConst || target.holdsConstReference
  | .pointer target _ => target.holdsConstReference
  | .array element _ => element.holdsConstReference
  | _ => false

/-- Whether the constness of the outermost declarator is read from where the printer writes it. -/
def keepsConst : CType → Bool
  | .pointer target isConst | .reference target isConst =>
    if isConst then target.isPointer || !target.containsPointer
    else target.containsPointer || !target.holdsConstReference
  | _ => true

variable {t target : CType} {isConst : Bool} {front after text inner : List Char} {c : Char}

/-! ### Both ends of a spelling -/

theorem ends_of_append_bounds (hsolid : Solid text) (hplain : EndsPlain text) (lengths : List UInt64) :
    Solid (text ++ boundChars lengths) ∧ EndsPlain (text ++ boundChars lengths) := by
  cases lengths with
  | nil => simpa [boundChars] using ⟨hsolid, hplain⟩
  | cons length lengths =>
    obtain ⟨front, hfront⟩ := exists_of_boundChars length lengths
    rw [hfront, ← List.append_assoc]
    exact ⟨hsolid.append front (solid_singleton (by decide)), endsPlain_concat (by decide)⟩

theorem ends_of_spell (hleaf : t.leaf.WellFormedLeaf) :
    Solid t.spell.toList ∧ EndsPlain t.spell.toList := by
  -- an array ends like its element with bounds after it, so arrays are skipped
  have helement : Solid t.element.spell.toList ∧ EndsPlain t.element.spell.toList := by
    have hmark : ∀ (target : CType) (isConst : Bool) (c : Char),
        Solid target.element.spell.toList ∧ EndsPlain target.element.spell.toList → isBlank c = false →
        c ≠ 't' → Solid (qualified isConst target ++ [c]) ∧ EndsPlain (qualified isConst target ++ [c]) := by
      intro target isConst c hends hblank hlast
      have htarget := (ends_of_append_bounds hends.1 hends.2 target.lengths).1
      rw [← spell_toList] at htarget
      exact ⟨solid_qualified_of_solid isConst htarget hblank, endsPlain_concat hlast⟩
    induction t with
    | void => exact ⟨hleaf.leafText.solid, hleaf.leafText.plain⟩
    | primitive => exact ⟨hleaf.leafText.solid, hleaf.leafText.plain⟩
    | named => exact ⟨hleaf.leafText.solid, hleaf.leafText.plain⟩
    | array inner length ih => exact ih hleaf
    | pointer target isConst ih =>
      have hends := hmark target isConst '*' (ih hleaf) (by decide) (by decide)
      rwa [← spell_pointer] at hends
    | reference target isConst ih =>
      have hends := hmark target isConst '&' (ih hleaf) (by decide) (by decide)
      rwa [← spell_reference] at hends
  rw [spell_toList]
  exact ends_of_append_bounds helement.1 helement.2 t.lengths

/-- What the spelling of a type is on the outside. -/
def outside : CType → Outermost
  | .pointer target isConst =>
    .derived (.pointer (splitConst (qualified isConst target)).1) (splitConst (qualified isConst target)).2
  | .reference target isConst =>
    .derived (.reference (splitConst (qualified isConst target)).1) (splitConst (qualified isConst target)).2
  | .array inner length => .derived (.bounds (length :: inner.lengths)) inner.element.spell.toList
  | leaf => .leaf leaf

theorem Readable.outermost_spell (h : t.Readable) : outermost t.spell.toList = .ok t.outside := by
  cases t with
  | void => exact h.leaf.outermost_eq
  | primitive => exact h.leaf.outermost_eq
  | named => exact h.leaf.outermost_eq
  | pointer target isConst =>
    have htarget : Solid target.spell.toList := (ends_of_spell (t := target) h.leaf).1
    rw [spell_pointer]
    exact outermost_star (solid_qualified_of_solid isConst htarget (by decide))
  | reference target isConst =>
    have htarget : Solid target.spell.toList := (ends_of_spell (t := target) h.leaf).1
    rw [spell_reference]
    exact outermost_ampersand (solid_qualified_of_solid isConst htarget (by decide))
      (getLast?_qualified isConst target)
  | array inner length =>
    have hleaf : inner.element.leaf.WellFormedLeaf := leaf_element inner ▸ h.leaf
    have hbracket := bracket_not_mem hleaf (h.arrays (.array inner length) List.mem_cons_self rfl)
    rw [spell_toList]
    exact outermost_bounds (ends_of_spell hleaf).1 hbracket (List.cons_ne_nil _ _)

/-! ### Stars and leading `const` in a spelling -/

theorem not_mem_boundChars {lengths : List UInt64} (hdigit : c.isDigit = false) (hopen : c ≠ '[')
    (hclose : c ≠ ']') : c ∉ boundChars lengths := by
  simp only [boundChars, List.mem_flatMap, boundText_toList, List.mem_cons, List.mem_append, List.not_mem_nil,
    or_false, not_exists, not_and, not_or]
  refine fun length _ => ⟨hopen, fun hmem => ?_, hclose⟩
  rw [isDigit_of_mem_toString hmem] at hdigit
  cases hdigit

theorem mem_qualified (hconst : c ∉ constWord) (hblank : c ≠ ' ') :
    c ∈ qualified isConst target ↔ c ∈ target.spell.toList := by
  rcases qualified_cases isConst target with ⟨-, htext⟩ | ⟨-, -, htext⟩ | ⟨-, -, htext⟩ <;> rw [htext] <;>
    simp [hconst, hblank]

theorem star_mem_spell_iff (hleaf : t.leaf.WellFormedLeaf) :
    '*' ∈ t.spell.toList ↔ t.containsPointer = true := by
  induction t with
  | void => exact iff_of_false (hleaf.leafText.declarators '*' (by decide)) Bool.false_ne_true
  | primitive => exact iff_of_false (hleaf.leafText.declarators '*' (by decide)) Bool.false_ne_true
  | named => exact iff_of_false (hleaf.leafText.declarators '*' (by decide)) Bool.false_ne_true
  | pointer target isConst =>
    rw [spell_pointer]
    simp [containsPointer]
  | reference target isConst ih =>
    rw [spell_reference, List.mem_append, mem_qualified (by decide) (by decide), ih hleaf]
    simp [containsPointer]
  | array element length ih =>
    rw [containsPointer, ← ih hleaf, spell_toList, spell_toList element]
    have hbounds : ∀ lengths, '*' ∉ boundChars lengths :=
      fun lengths => not_mem_boundChars (by decide) (by decide) (by decide)
    simp [hbounds, CType.element]

/-- What a `const` on the left looks like to the reader. -/
def leadingConst : List Char :=
  constWord ++ [' ']

theorem leadingConst_prefix_append (h : ¬ front ++ [c] <+: leadingConst) :
    leadingConst <+: front ++ c :: after ↔ leadingConst <+: front := by
  constructor
  · intro hlead
    have hfront : front ++ [c] <+: front ++ c :: after := ⟨after, by simp⟩
    rcases List.prefix_or_prefix_of_prefix hlead hfront with hshort | hlong
    · rcases List.prefix_concat_iff.mp hshort with heq | hprefix
      · exact absurd (heq ▸ List.prefix_refl _) h
      · exact hprefix
    · exact absurd hlong h
  · exact fun hlead => hlead.trans (List.prefix_append _ _)

theorem leadingConst_prefix_blank (hplain : EndsPlain front) :
    leadingConst <+: front ++ ' ' :: after ↔ leadingConst <+: front := by
  apply leadingConst_prefix_append
  intro hprefix
  rcases List.prefix_concat_iff.mp hprefix with heq | hword
  · exact absurd rfl (hplain [] (List.append_cancel_right heq)).1
  · have hblank : ' ' ∈ constWord := hword.subset (by simp)
    exact absurd hblank (by decide)

theorem not_leadingConst_prefix_leaf (hleaf : t.WellFormedLeaf) : ¬ leadingConst <+: t.spell.toList :=
  fun hlead => hleaf.leafText.declarators '*' (by decide) (hleaf.leafText.lead hlead)

/-- Without pointers a spelling begins with `const` exactly when the type holds a reference to something
`const`. -/
theorem leadingConst_prefix_spell_iff (hleaf : t.leaf.WellFormedLeaf) (hpointer : t.containsPointer = false) :
    leadingConst <+: t.spell.toList ↔ t.holdsConstReference = true := by
  induction t with
  | void => exact iff_of_false (not_leadingConst_prefix_leaf hleaf) Bool.false_ne_true
  | primitive => exact iff_of_false (not_leadingConst_prefix_leaf hleaf) Bool.false_ne_true
  | named => exact iff_of_false (not_leadingConst_prefix_leaf hleaf) Bool.false_ne_true
  | pointer => cases hpointer
  | reference target isConst ih =>
    have hends := ends_of_spell (t := target) hleaf
    rw [spell_reference]
    rcases qualified_cases isConst target with ⟨rfl, htext⟩ | ⟨-, htarget, -⟩ | ⟨rfl, -, htext⟩
    · rw [htext, List.append_assoc, List.singleton_append, leadingConst_prefix_blank hends.2,
        ih hleaf hpointer]
      simp [holdsConstReference]
    · cases target <;> simp_all [isPointer, containsPointer]
    · simp [htext, holdsConstReference, leadingConst]
  | array element length ih =>
    rw [holdsConstReference, ← ih hleaf hpointer, spell_toList, spell_toList element]
    have hbounds : ∀ lengths, leadingConst <+: element.element.spell.toList ++ boundChars lengths ↔
        leadingConst <+: element.element.spell.toList := by
      intro lengths
      cases lengths with
      | nil => simp [boundChars]
      | cons first rest =>
        rw [boundChars_cons]
        apply leadingConst_prefix_append
        intro hprefix
        have hbracket : '[' ∈ leadingConst := hprefix.subset (by simp)
        exact absurd hbracket (by decide)
    exact (hbounds _).trans (hbounds _).symm

/-! ### Which level a `const` is read for -/

theorem splitConst_of_keepsConst (hleaf : target.leaf.WellFormedLeaf)
    (hkeeps : (CType.pointer target isConst).keepsConst = true) :
    splitConst (qualified isConst target) = (isConst, target.spell.toList) := by
  obtain ⟨hsolid, hplain⟩ := ends_of_spell hleaf
  rcases qualified_cases isConst target with
    ⟨rfl, htext⟩ | ⟨rfl, -, htext⟩ | ⟨rfl, hpointer, htext⟩ <;> rw [htext]
  · apply splitConst_plain hsolid hplain
    intro hlead
    rw [star_mem_spell_iff hleaf]
    by_contra hnone
    rw [Bool.not_eq_true] at hnone
    simp [keepsConst, hnone, (leadingConst_prefix_spell_iff hleaf hnone).mp hlead] at hkeeps
  · exact splitConst_east hsolid hplain
  · apply splitConst_west hsolid hplain
    rw [star_mem_spell_iff hleaf]
    simpa [keepsConst, hpointer] using hkeeps

theorem splitConst_of_not_keepsConst (hleaf : target.leaf.WellFormedLeaf)
    (hloses : (CType.pointer target isConst).keepsConst = false) :
    (splitConst (qualified isConst target)).1 ≠ isConst := by
  obtain ⟨hsolid, hplain⟩ := ends_of_spell hleaf
  rcases qualified_cases isConst target with
    ⟨rfl, htext⟩ | ⟨rfl, hpointer, -⟩ | ⟨rfl, hpointer, htext⟩
  · simp only [keepsConst, Bool.false_eq_true, if_false, Bool.or_eq_false_iff, Bool.not_eq_false'] at hloses
    obtain ⟨hnone, hconst⟩ := hloses
    have hstar : '*' ∉ target.spell.toList := by
      rw [star_mem_spell_iff hleaf, hnone]
      decide
    have hlead := List.isPrefixOf_iff_prefix.mpr ((leadingConst_prefix_spell_iff hleaf hnone).mpr hconst)
    rw [leadingConst] at hlead
    simp [htext, splitConst, hsolid.trim_append_blank, dropTrailingConst_eq_self hsolid hplain, hstar, hlead]
  · simp [keepsConst, hpointer] at hloses
  · have hstar : '*' ∈ target.spell.toList := by
      rw [star_mem_spell_iff hleaf]
      simpa [keepsConst, hpointer] using hloses
    have hwhole : Solid (constWord ++ ' ' :: target.spell.toList) := by
      simpa using solid_constWord.append [' '] hsolid
    simp only [htext, splitConst, hwhole.trim_append_blank,
      dropTrailingConst_eq_self hwhole (hplain.after_blank _)]
    simp [hstar]

/-! ### Reading back -/

theorem ofChars_derived_iff {declarator : Declarator} (h : outermost text = .ok (.derived declarator inner)) :
    ofChars text = .ok t ↔ ∃ u, ofChars inner = .ok u ∧ declarator.apply u = t := by
  rw [ofChars_eq_map h, map_eq_ok_iff]

theorem bounds_apply_inj {lengths : List UInt64} {u u' : CType}
    (h : (Declarator.bounds lengths).apply u = (Declarator.bounds lengths).apply u') : u = u' := by
  induction lengths with
  | nil => exact h
  | cons length lengths ih => exact ih (CType.array.inj h).1

/-- The bounds of an array are always found again. -/
theorem Readable.ofChars_iff_element (h : t.Readable) :
    ofChars t.spell.toList = .ok t ↔ ofChars t.element.spell.toList = .ok t.element := by
  cases t with
  | array inner length =>
    rw [ofChars_derived_iff h.outermost_spell]
    constructor
    · intro hparts
      obtain ⟨u, hu, heq⟩ := hparts
      have htarget : u = inner.element :=
        bounds_apply_inj (heq.trans (apply_lengths (CType.array inner length)).symm)
      exact htarget ▸ hu
    · exact fun helement => ⟨_, helement, apply_lengths (CType.array inner length)⟩
  | _ => exact Iff.rfl

/-- A pointer or a reference is read back when its constness is, and its target is. -/
theorem ofChars_iff_of_mark (mark : Bool → Declarator) (hleaf : target.leaf.WellFormedLeaf)
    (hmark : ∀ c c' u u', (mark c).apply u = (mark c').apply u' → c = c' ∧ u = u')
    (hcut : outermost text = .ok (.derived (mark (splitConst (qualified isConst target)).1)
      (splitConst (qualified isConst target)).2)) :
    ofChars text = .ok ((mark isConst).apply target) ↔
      (CType.pointer target isConst).keepsConst = true ∧ ofChars target.spell.toList = .ok target := by
  rw [ofChars_derived_iff hcut]
  cases hkeeps : (CType.pointer target isConst).keepsConst with
  | true =>
    rw [splitConst_of_keepsConst hleaf hkeeps, and_iff_right rfl]
    constructor
    · intro hparts
      obtain ⟨u, hu, heq⟩ := hparts
      rw [hu, (hmark _ _ _ _ heq).2]
    · exact fun htarget => ⟨target, htarget, rfl⟩
  | false =>
    refine iff_of_false ?_ fun h => by cases h.1
    intro hparts
    obtain ⟨u, -, heq⟩ := hparts
    exact splitConst_of_not_keepsConst hleaf hkeeps (hmark _ _ _ _ heq).1

theorem keepsConst_of_element (t : CType) :
    (∀ u ∈ t.layers, u.keepsConst = true) ↔ ∀ u ∈ t.element.layers, u.keepsConst = true := by
  induction t with
  | array inner length ih => exact List.forall_mem_cons.trans ((and_iff_right rfl).trans ih)
  | _ => exact Iff.rfl

theorem Readable.ofChars_element_iff (h : t.Readable) :
    ofChars t.element.spell.toList = .ok t.element ↔ ∀ u ∈ t.element.layers, u.keepsConst = true := by
  induction t with
  | void => exact iff_of_true (ofChars_leaf h.leaf.outermost_eq) (List.forall_mem_singleton.mpr rfl)
  | primitive => exact iff_of_true (ofChars_leaf h.leaf.outermost_eq) (List.forall_mem_singleton.mpr rfl)
  | named => exact iff_of_true (ofChars_leaf h.leaf.outermost_eq) (List.forall_mem_singleton.mpr rfl)
  | array inner length ih => exact ih (h.of_mem_inside List.mem_cons_self)
  | pointer target isConst ih =>
    have htarget : target.Readable := h.of_mem_inside List.mem_cons_self
    have hinner := htarget.ofChars_iff_element.trans ((ih htarget).trans (keepsConst_of_element target).symm)
    have hread := ofChars_iff_of_mark .pointer htarget.leaf
      (fun _ _ _ _ heq => (CType.pointer.inj heq).symm) h.outermost_spell
    rw [hinner] at hread
    change _ ↔ ∀ u ∈ CType.pointer target isConst :: target.layers, u.keepsConst = true
    rwa [List.forall_mem_cons]
  | reference target isConst ih =>
    have htarget : target.Readable := h.of_mem_inside List.mem_cons_self
    have hinner := htarget.ofChars_iff_element.trans ((ih htarget).trans (keepsConst_of_element target).symm)
    have hread := ofChars_iff_of_mark .reference htarget.leaf
      (fun _ _ _ _ heq => (CType.reference.inj heq).symm) h.outermost_spell
    rw [hinner] at hread
    change _ ↔ ∀ u ∈ CType.reference target isConst :: target.layers, u.keepsConst = true
    rwa [List.forall_mem_cons]

/-- **A type that was read is read back from its own spelling exactly when all its constness is.** -/
theorem ofSpelling_spell_iff {spelling : String} (h : ofSpelling spelling = .ok t) :
    ofSpelling t.spell = .ok t ↔ ∀ u ∈ t.layers, u.keepsConst = true := by
  have hreadable := (readable_of_ofChars h).1
  exact hreadable.ofChars_iff_element.trans
    (hreadable.ofChars_element_iff.trans (keepsConst_of_element t).symm)

namespace Sample

def mixed : CType :=
  .reference (.array (.array (.pointer (.reference (.pointer
    (.primitive (.integral .u32) "unsigned int") true) true) false) 3) 2) false

def fixedPointers : CType :=
  .reference (.array (.pointer (.primitive (.integral .i32) "int") false) 3) true

def fixedTargets : CType :=
  .reference (.array (.pointer (.primitive (.integral .i32) "int") true) 3) false

end Sample

theorem ofSpelling_spell_iff_mixed :
    ofSpelling "unsigned int const* const&* const [ 2][+3]&" = .ok Sample.mixed ∧
    Sample.mixed.spell = "const unsigned int * const & *[2][3] &" ∧
    (∀ u ∈ Sample.mixed.layers, u.keepsConst = true) ∧
    ofSpelling Sample.mixed.spell = .ok Sample.mixed := by
  have hread : ofSpelling "unsigned int const* const&* const [ 2][+3]&" = .ok Sample.mixed := by
    decide +kernel
  have hkeeps : ∀ u ∈ Sample.mixed.layers, u.keepsConst = true := by decide
  exact ⟨hread, by decide +kernel, hkeeps, (ofSpelling_spell_iff hread).mpr hkeeps⟩

/-- The `const` of an array of pointers is read back as that of what the pointers point to. -/
theorem ofSpelling_spell_fixedPointers :
    ofSpelling "int *[3] const &" = .ok Sample.fixedPointers ∧
    ofSpelling Sample.fixedPointers.spell = .ok Sample.fixedTargets ∧
    ¬ ∀ spelling t, ofSpelling spelling = .ok t → ofSpelling t.spell = .ok t := by
  have hread : ofSpelling "int *[3] const &" = .ok Sample.fixedPointers := by decide +kernel
  have hreread : ofSpelling Sample.fixedPointers.spell = .ok Sample.fixedTargets := by decide +kernel
  refine ⟨hread, hreread, fun hall => ?_⟩
  have hsame := hall _ _ hread
  rw [hreread] at hsame
  exact absurd hsame (by decide)

end HostBinding.CType
