import HostBinding.Proofs.CType.Reread

/-!
# The types that have a spelling

The canonical spelling of a type may mean another type, because a `const` in front of a target can be claimed
by a declarator further inside. A `const` behind its target cannot. With every `const` written there, each type
is read back that has a well-formed leaf and no array inside the element of an array, so these are all the
types that reading gives.
-/

namespace HostBinding.CType

open Text

/-- The text of a target and, behind it, what a declarator says about its constness. -/
def constBehind (isConst : Bool) (text : List Char) : List Char :=
  if isConst then text ++ ' ' :: constWord ++ [' '] else text ++ [' ']

/-- The spelling, with every `const` behind its target, of what the arrays on the outside are made of. -/
def eastElement : CType → List Char
  | .pointer target isConst => constBehind isConst (target.eastElement ++ boundChars target.lengths) ++ ['*']
  | .reference target isConst => constBehind isConst (target.eastElement ++ boundChars target.lengths) ++ ['&']
  | .array inner _ => inner.eastElement
  | t => t.spell.toList

/-- The spelling of a type with every `const` behind its target. -/
def eastSpelling (t : CType) : List Char :=
  t.eastElement ++ boundChars t.lengths

variable {t target : CType} {text : List Char} {isConst : Bool} {c : Char}

/-! ### What stands around a target -/

theorem splitConst_constBehind (h : Sealed text) : splitConst (constBehind isConst text) = (isConst, text) := by
  cases isConst with
  | false => exact splitConst_plain h.solid h.plain h.lead
  | true => exact splitConst_east h.solid h.plain

theorem getLast?_constBehind (isConst : Bool) (text : List Char) :
    (constBehind isConst text).getLast? = some ' ' := by
  cases isConst <;> exact List.getLast?_concat

theorem mem_constBehind (hconst : c ∉ constWord) (hblank : c ≠ ' ') :
    c ∈ constBehind isConst text ↔ c ∈ text := by
  cases isConst <;> simp [constBehind, hconst, hblank]

theorem Sealed.constBehind (h : Sealed text) (isConst : Bool) (hblank : isBlank c = false) (hlast : c ≠ 't') :
    Sealed (constBehind isConst text ++ [c]) := by
  have hend := solid_singleton hblank
  constructor
  case solid =>
    cases isConst with
    | false => exact h.solid.append [' '] hend
    | true => simpa [CType.constBehind] using h.solid.append (' ' :: constWord ++ [' ']) hend
  case plain => exact endsPlain_concat hlast
  case lead =>
    -- a blank follows the target, so a leading `const` would be the target's own
    obtain ⟨after, hafter⟩ : ∃ after, CType.constBehind isConst text ++ [c] = text ++ ' ' :: after := by
      cases isConst <;> simp [CType.constBehind]
    intro hlead
    rw [hafter] at hlead ⊢
    exact List.mem_append_left _ (h.lead ((leadingConst_prefix_blank h.plain).mp hlead))

/-! ### The east spelling -/

theorem sealed_eastElement (hleaf : t.leaf.WellFormedLeaf) : Sealed t.eastElement := by
  induction t with
  | void => exact hleaf.leafText.toSealed
  | primitive => exact hleaf.leafText.toSealed
  | named => exact hleaf.leafText.toSealed
  | array inner length ih => exact ih hleaf
  | pointer target isConst ih =>
    exact ((ih hleaf).bounds target.lengths).constBehind isConst (by decide) (by decide)
  | reference target isConst ih =>
    exact ((ih hleaf).bounds target.lengths).constBehind isConst (by decide) (by decide)

theorem sealed_eastSpelling (hleaf : t.leaf.WellFormedLeaf) : Sealed t.eastSpelling :=
  (sealed_eastElement hleaf).bounds t.lengths

theorem eastElement_element (t : CType) : t.element.eastElement = t.eastElement := by
  induction t with
  | array inner length ih => exact ih
  | _ => rfl

theorem lengths_eq_nil (h : t.isArray = false) : t.lengths = [] := by
  cases t with
  | array => cases h
  | _ => rfl

theorem bracket_notMem_eastElement (hleaf : t.leaf.WellFormedLeaf)
    (hflat : ∀ u ∈ t.layers, u.isArray = false) : '[' ∉ t.eastElement := by
  have hstep : ∀ (target : CType) (isConst : Bool) (c : Char), target.isArray = false →
      '[' ∉ target.eastElement → c ≠ '[' →
      '[' ∉ constBehind isConst (target.eastElement ++ boundChars target.lengths) ++ [c] := by
    intro target isConst c htarget hinner hc hmem
    rw [lengths_eq_nil htarget, boundChars, List.flatMap_nil, List.append_nil] at hmem
    rcases List.mem_append.mp hmem with hbehind | hlast
    · exact hinner ((mem_constBehind (by decide) (by decide)).mp hbehind)
    · exact hc (List.mem_singleton.mp hlast).symm
  induction t with
  | void => exact hleaf.leafText.declarators '[' (by decide)
  | primitive => exact hleaf.leafText.declarators '[' (by decide)
  | named => exact hleaf.leafText.declarators '[' (by decide)
  | array inner length => exact absurd (hflat _ List.mem_cons_self) (by simp [isArray])
  | pointer target isConst ih =>
    have hinside := (List.forall_mem_cons.mp hflat).2
    exact hstep target isConst '*' (hinside _ List.mem_cons_self) (ih hleaf hinside) (by decide)
  | reference target isConst ih =>
    have hinside := (List.forall_mem_cons.mp hflat).2
    exact hstep target isConst '&' (hinside _ List.mem_cons_self) (ih hleaf hinside) (by decide)

/-! ### Reading it -/

theorem Readable.ofChars_of_eastElement (h : t.Readable) (helement : ofChars t.eastElement = .ok t.element) :
    ofChars t.eastSpelling = .ok t := by
  cases harray : t.isArray with
  | false =>
    have hself : t.element = t := by
      cases t <;> first | rfl | cases harray
    rw [hself] at helement
    rwa [eastSpelling, lengths_eq_nil harray, boundChars, List.flatMap_nil, List.append_nil]
  | true =>
    have hleaf : t.element.leaf.WellFormedLeaf := leaf_element t ▸ h.leaf
    have hbracket := bracket_notMem_eastElement hleaf (h.arrays t List.mem_cons_self harray)
    rw [eastElement_element] at hbracket
    have hne : t.lengths ≠ [] := by
      cases t with
      | array => exact List.cons_ne_nil _ _
      | _ => cases harray
    have hcut := outermost_bounds (sealed_eastElement h.leaf).solid hbracket hne
    exact (ofChars_derived hcut helement).trans (congrArg _ (apply_lengths t))

theorem Readable.ofChars_eastElement (h : t.Readable) : ofChars t.eastElement = .ok t.element := by
  induction t with
  | void => exact ofChars_leaf h.leaf.outermost_eq
  | primitive => exact ofChars_leaf h.leaf.outermost_eq
  | named => exact ofChars_leaf h.leaf.outermost_eq
  | array inner length ih => exact ih (h.of_mem_inside List.mem_cons_self)
  | pointer target isConst ih =>
    have htarget : target.Readable := h.of_mem_inside List.mem_cons_self
    have hsealed := sealed_eastSpelling htarget.leaf
    have hcut := outermost_star (hsealed.constBehind isConst (by decide) (by decide)).solid
    rw [splitConst_constBehind hsealed] at hcut
    exact ofChars_derived hcut (htarget.ofChars_of_eastElement (ih htarget))
  | reference target isConst ih =>
    have htarget : target.Readable := h.of_mem_inside List.mem_cons_self
    have hsealed := sealed_eastSpelling htarget.leaf
    have hcut := outermost_ampersand (hsealed.constBehind isConst (by decide) (by decide)).solid
      (getLast?_constBehind isConst _)
    rw [splitConst_constBehind hsealed] at hcut
    exact ofChars_derived hcut (htarget.ofChars_of_eastElement (ih htarget))

/-- Reading inverts the spelling with every `const` behind its target, on every type that can be read. -/
theorem Readable.ofChars_eastSpelling (h : t.Readable) : ofChars t.eastSpelling = .ok t :=
  h.ofChars_of_eastElement h.ofChars_eastElement

example :
    String.ofList (pointer (reference (array (pointer (named "Foo") true) 3) true) false).eastSpelling =
      "Foo const *[3] const & *" := by
  decide +kernel

/-! ### The range of reading -/

theorem exists_ofSpelling_iff_readable : (∃ spelling, ofSpelling spelling = .ok t) ↔ t.Readable := by
  constructor
  · rintro ⟨spelling, hread⟩
    exact (readable_of_ofChars hread).1
  · intro hreadable
    refine ⟨String.ofList t.eastSpelling, ?_⟩
    rw [ofSpelling, String.toList_ofList]
    exact hreadable.ofChars_eastSpelling

/-- Where no array is below a pointer or reference, what the arrays on the outside are made of holds none. -/
theorem forall_below_declarator_iff (t : CType) :
    (∀ p ∈ t.layers, p.isPointer = true ∨ p.isReference = true → ∀ b ∈ p.inside, b.isArray = false) ↔
      ∀ u ∈ t.element.layers, u.isArray = false := by
  -- a pointer or reference is what the arrays are made of, so only types below it are left
  have hstop : ∀ t : CType, t.isPointer = true ∨ t.isReference = true → t.isArray = false →
      ((∀ p ∈ t.layers, p.isPointer = true ∨ p.isReference = true → ∀ b ∈ p.inside, b.isArray = false) ↔
        ∀ u ∈ t.layers, u.isArray = false) := by
    intro t hdeclarator hself
    constructor
    · exact fun hbelow => List.forall_mem_cons.mpr ⟨hself, hbelow t List.mem_cons_self hdeclarator⟩
    · intro hflat p hp _ b hb
      rcases List.mem_cons.mp hp with rfl | hinside
      · exact hflat b (List.mem_cons_of_mem _ hb)
      · exact hflat b (List.mem_cons_of_mem _ (layers_subset_inside hinside (List.mem_cons_of_mem _ hb)))
  induction t with
  | pointer target isConst => exact hstop _ (.inl rfl) rfl
  | reference target isConst => exact hstop _ (.inr rfl) rfl
  | array inner length ih =>
    refine Iff.trans ⟨fun h p hp => h p (List.mem_cons_of_mem _ hp), fun h => ?_⟩ ih
    refine List.forall_mem_cons.mpr ⟨fun hself => ?_, h⟩
    rcases hself with hself | hself <;> cases hself
  | _ => simp [layers, inside, element, isArray]

/-- The condition on arrays, in terms of what stands between two of them. -/
theorem readable_iff : t.Readable ↔ t.leaf.WellFormedLeaf ∧
    ∀ a ∈ t.layers, a.isArray = true → ∀ p ∈ a.inside, p.isPointer = true ∨ p.isReference = true →
      ∀ b ∈ p.inside, b.isArray = false := by
  have harray : ∀ a : CType, a.isArray = true →
      ((∀ p ∈ a.inside, p.isPointer = true ∨ p.isReference = true → ∀ b ∈ p.inside, b.isArray = false) ↔
        ∀ u ∈ a.element.layers, u.isArray = false) := by
    intro a hself
    cases a with
    | array inner length => exact forall_below_declarator_iff inner
    | _ => cases hself
  constructor
  · exact fun h => ⟨h.leaf, fun a ha hself => (harray a hself).mpr (h.arrays a ha hself)⟩
  · exact fun ⟨hleaf, h⟩ => ⟨hleaf, fun a ha hself => (harray a hself).mp (h a ha hself)⟩

/-- **The range of reading.** A type is read from some text exactly when its leaf is named by the leaf's own
spelling and no two of its arrays have a pointer or reference between them. So every pointer and every
reference to a type that can be read can be read too, `const` or not. -/
theorem exists_ofSpelling_iff (t : CType) :
    ((∃ spelling, ofSpelling spelling = .ok t) ↔ t.leaf.WellFormedLeaf ∧
      ∀ a ∈ t.layers, a.isArray = true → ∀ p ∈ a.inside, p.isPointer = true ∨ p.isReference = true →
        ∀ b ∈ p.inside, b.isArray = false) ∧
    ((∃ spelling, ofSpelling spelling = .ok t) → ∀ isConst,
      (∃ spelling, ofSpelling spelling = .ok (.pointer t isConst)) ∧
      ∃ spelling, ofSpelling spelling = .ok (.reference t isConst)) := by
  refine ⟨exists_ofSpelling_iff_readable.trans readable_iff, fun hread isConst => ?_⟩
  have hreadable := exists_ofSpelling_iff_readable.mp hread
  exact ⟨exists_ofSpelling_iff_readable.mpr (hreadable.pointer isConst),
    exists_ofSpelling_iff_readable.mpr (hreadable.reference isConst)⟩

end HostBinding.CType
