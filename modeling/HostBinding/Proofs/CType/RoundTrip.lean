import HostBinding.Proofs.CType.Leaf

/-!
# Printing a type and reading it back

Not every type has a spelling that means it: brackets behind a `*` are read with those in front of it, and a
`const` in front of a `*` belongs to the innermost pointer. The types for which neither comes up are
printable, and each of them is read back from its spelling. The spelling of an array is that of its innermost
element with all bounds after it, so arrays are taken off by groups.
-/

namespace HostBinding.CType

open Text

/-- The types strictly inside a type, from the outside in. -/
def inside : CType → List CType
  | .pointer target _ => target :: target.inside
  | .reference target _ => target :: target.inside
  | .array element _ => element :: element.inside
  | _ => []

def layers (t : CType) : List CType :=
  t :: t.inside

/-- What all declarators of a type apply to. -/
def leaf : CType → CType
  | .pointer target _ => target.leaf
  | .reference target _ => target.leaf
  | .array element _ => element.leaf
  | t => t

def isPointer : CType → Bool
  | .pointer _ _ => true
  | _ => false

def isReference : CType → Bool
  | .reference _ _ => true
  | _ => false

def isArray : CType → Bool
  | .array _ _ => true
  | _ => false

/-- Whether the type is a pointer or reference to a `const` array whose spelling holds a `*`. -/
def hidesConst : CType → Bool
  | .pointer (.array element length) true => (CType.array element length).spell.toList.contains '*'
  | .reference (.array element length) true => (CType.array element length).spell.toList.contains '*'
  | _ => false

/-- The types whose spelling means them. -/
structure Printable (t : CType) : Prop where
  leaf : t.leaf.WellFormedLeaf
  /-- Only the outermost declarator may be a reference. -/
  references : ∀ u ∈ t.inside, u.isReference = false
  /-- No array is inside a pointer that is inside an array. -/
  arrays : ∀ a ∈ t.layers, a.isArray = true → ∀ p ∈ a.inside, p.isPointer = true →
    ∀ b ∈ p.inside, b.isArray = false
  consts : ∀ u ∈ t.layers, u.hidesConst = false

instance (t : CType) : Decidable t.Printable :=
  decidable_of_iff (t.leaf.WellFormedLeaf ∧ (∀ u ∈ t.inside, u.isReference = false) ∧
    (∀ a ∈ t.layers, a.isArray = true → ∀ p ∈ a.inside, p.isPointer = true →
      ∀ b ∈ p.inside, b.isArray = false) ∧
    ∀ u ∈ t.layers, u.hidesConst = false)
    ⟨fun ⟨leaf, references, arrays, consts⟩ => ⟨leaf, references, arrays, consts⟩,
      fun ⟨leaf, references, arrays, consts⟩ => ⟨leaf, references, arrays, consts⟩⟩

variable {t u : CType}

/-! ### Inner types -/

theorem layers_subset_inside (h : u ∈ t.inside) : u.layers ⊆ t.inside := by
  have hstep : ∀ target : CType, (u ∈ target.inside → u.layers ⊆ target.inside) → u ∈ target.layers →
      u.layers ⊆ target.layers := by
    intro target ih hmem
    rcases List.mem_cons.mp hmem with rfl | hinside
    · exact List.Subset.refl _
    · exact List.subset_cons_of_subset _ (ih hinside)
  induction t with
  | pointer target isConst ih => exact hstep target ih h
  | reference target isConst ih => exact hstep target ih h
  | array element length ih => exact hstep element ih h
  | _ => cases h

theorem leaf_eq_of_mem_inside (h : u ∈ t.inside) : u.leaf = t.leaf := by
  have hstep : ∀ target : CType, (u ∈ target.inside → u.leaf = target.leaf) → u ∈ target.layers →
      u.leaf = target.leaf := by
    intro target ih hmem
    rcases List.mem_cons.mp hmem with rfl | hinside
    · rfl
    · exact ih hinside
  induction t with
  | pointer target isConst ih => exact hstep target ih h
  | reference target isConst ih => exact hstep target ih h
  | array element length ih => exact hstep element ih h
  | _ => cases h

theorem Printable.of_mem_inside (h : t.Printable) (hu : u ∈ t.inside) : u.Printable := by
  have hlayers := layers_subset_inside hu
  constructor
  case leaf => exact leaf_eq_of_mem_inside hu ▸ h.leaf
  case references => exact fun v hv => h.references v (hlayers (List.mem_cons_of_mem _ hv))
  case arrays => exact fun a ha => h.arrays a (List.mem_cons_of_mem _ (hlayers ha))
  case consts => exact fun v hv => h.consts v (List.mem_cons_of_mem _ (hlayers hv))

/-! ### Arrays -/

/-- What the arrays on the outside of a type are made of. -/
def element : CType → CType
  | .array inner _ => inner.element
  | t => t

def lengths : CType → List UInt64
  | .array inner length => length :: inner.lengths
  | _ => []

theorem apply_lengths (t : CType) : (Declarator.bounds t.lengths).apply t.element = t := by
  induction t with
  | array inner length ih => exact congrArg (CType.array · length) ih
  | _ => rfl

theorem mem_layers_element (t : CType) : t.element ∈ t.layers := by
  induction t with
  | array inner length ih => exact List.mem_cons_of_mem _ ih
  | _ => exact List.mem_cons_self

theorem leaf_element (t : CType) : t.element.leaf = t.leaf := by
  induction t with
  | array inner length ih => exact ih
  | _ => rfl

theorem isArray_element (t : CType) : t.element.isArray = false := by
  induction t with
  | array inner length ih => exact ih
  | _ => rfl

theorem spellWithin_toList (bounds : String) (t : CType) :
    (t.spellWithin bounds).toList = t.element.spell.toList ++ bounds.toList ++ boundChars t.lengths := by
  induction t generalizing bounds with
  | array inner length ih =>
    rw [spellWithin, ih]
    simp [element, lengths, boundChars]
  | _ => simp [spell, spellWithin, element, lengths, boundChars]

theorem spell_toList (t : CType) : t.spell.toList = t.element.spell.toList ++ boundChars t.lengths := by
  rw [spell, spellWithin_toList]
  simp

theorem Sealed.bounds {text : List Char} (h : Sealed text) (lengths : List UInt64) :
    Sealed (text ++ boundChars lengths) := by
  cases lengths with
  | nil => simpa [boundChars] using h
  | cons length lengths =>
    obtain ⟨front, hfront⟩ := exists_of_boundChars length lengths
    constructor
    case solid =>
      rw [hfront, ← List.append_assoc]
      exact h.solid.append front (solid_singleton (by decide))
    case plain =>
      rw [hfront, ← List.append_assoc]
      exact endsPlain_concat (by decide)
    case lead =>
      intro hparts
      obtain ⟨after, hsplit⟩ := hparts
      rcases List.append_eq_append_iff.mp hsplit with ⟨more, rfl, -⟩ | ⟨more, hfront, hbounds⟩
      · exact List.mem_append_left _ (h.lead (List.prefix_append _ more))
      · cases more with
        | nil =>
          rw [List.append_nil] at hfront
          exact List.mem_append_left _ (h.lead (hfront ▸ List.prefix_refl _))
        | cons d more =>
          rw [boundChars_cons, List.cons_append, List.cons.injEq] at hbounds
          have hbracket : '[' ∈ constWord ++ [' '] := by
            rw [hfront, ← hbounds.1]
            simp
          exact absurd hbracket (by decide)

/-! ### Pointers and references -/

def qualified (isConst : Bool) (target : CType) : List Char :=
  (qualify isConst target target.spell "").toList

theorem qualify_toList (isConst : Bool) (target : CType) (declarator : String) :
    (qualify isConst target target.spell declarator).toList =
      qualified isConst target ++ declarator.toList := by
  cases isConst with
  | false => simp [qualified, qualify]
  | true => cases target <;> simp [qualified, qualify]

theorem qualified_cases (isConst : Bool) (target : CType) :
    isConst = false ∧ qualified isConst target = target.spell.toList ++ [' '] ∨
    isConst = true ∧ target.isPointer = true ∧
      qualified isConst target = target.spell.toList ++ ' ' :: constWord ++ [' '] ∨
    isConst = true ∧ target.isPointer = false ∧
      qualified isConst target = constWord ++ ' ' :: target.spell.toList ++ [' '] := by
  cases isConst with
  | false => exact .inl ⟨rfl, by simp [qualified, qualify]⟩
  | true =>
    right
    cases target with
    | pointer target isConst => exact .inl ⟨rfl, rfl, by simp [qualified, qualify, constWord]⟩
    | _ => exact .inr ⟨rfl, rfl, by simp [qualified, qualify, constWord]⟩

theorem spell_pointer (target : CType) (isConst : Bool) :
    (CType.pointer target isConst).spell.toList = qualified isConst target ++ ['*'] := by
  rw [show (CType.pointer target isConst).spell = qualify isConst target target.spell "*" ++ "" from rfl,
    String.toList_append, qualify_toList]
  simp

theorem spell_reference (target : CType) (isConst : Bool) :
    (CType.reference target isConst).spell.toList = qualified isConst target ++ ['&'] := by
  rw [show (CType.reference target isConst).spell = qualify isConst target target.spell "&" ++ "" from rfl,
    String.toList_append, qualify_toList]
  simp

variable {isConst : Bool} {target : CType}

theorem solid_qualified_of_solid (isConst : Bool) (h : Solid target.spell.toList) {c : Char}
    (hc : isBlank c = false) : Solid (qualified isConst target ++ [c]) := by
  have hlast := solid_singleton hc
  rcases qualified_cases isConst target with ⟨-, htext⟩ | ⟨-, -, htext⟩ | ⟨-, -, htext⟩ <;> rw [htext]
  · exact h.append [' '] hlast
  · simpa using h.append (' ' :: constWord ++ [' ']) hlast
  · simpa using solid_constWord.append (' ' :: target.spell.toList ++ [' ']) hlast

theorem solid_qualified (isConst : Bool) (h : Sealed target.spell.toList) {c : Char}
    (hc : isBlank c = false) : Solid (qualified isConst target ++ [c]) :=
  solid_qualified_of_solid isConst h.solid hc

theorem getLast?_qualified (isConst : Bool) (target : CType) :
    (qualified isConst target).getLast? = some ' ' := by
  rcases qualified_cases isConst target with ⟨-, htext⟩ | ⟨-, -, htext⟩ | ⟨-, -, htext⟩ <;>
    rw [htext, List.getLast?_concat]

theorem splitConst_qualified (h : Sealed target.spell.toList)
    (hstar : isConst = true → target.isPointer = false → '*' ∉ target.spell.toList) :
    splitConst (qualified isConst target) = (isConst, target.spell.toList) := by
  rcases qualified_cases isConst target with
    ⟨rfl, htext⟩ | ⟨rfl, -, htext⟩ | ⟨rfl, hpointer, htext⟩ <;> rw [htext]
  · exact splitConst_plain h.solid h.plain h.lead
  · exact splitConst_east h.solid h.plain
  · exact splitConst_west h.solid h.plain (hstar rfl hpointer)

/-! ### Spellings of printable types -/

theorem Printable.sealed_element (h : t.Printable) (href : t.isReference = false) :
    Sealed t.element.spell.toList := by
  induction t with
  | void => exact h.leaf.leafText.toSealed
  | primitive kind spelling => exact h.leaf.leafText.toSealed
  | named name => exact h.leaf.leafText.toSealed
  | reference => cases href
  | array inner length ih =>
    have hinner : inner ∈ (CType.array inner length).inside := List.mem_cons_self
    exact ih (h.of_mem_inside hinner) (h.references inner hinner)
  | pointer target isConst ih =>
    have htarget : target ∈ (CType.pointer target isConst).inside := List.mem_cons_self
    have hsealed := (ih (h.of_mem_inside htarget) (h.references target htarget)).bounds target.lengths
    rw [← spell_toList] at hsealed
    change Sealed (CType.pointer target isConst).spell.toList
    rw [spell_pointer]
    constructor
    case solid => exact solid_qualified isConst hsealed (by decide)
    case plain => exact endsPlain_concat (by decide)
    case lead => exact fun _ => List.mem_append_right _ List.mem_cons_self

theorem Printable.sealed (h : t.Printable) (href : t.isReference = false) : Sealed t.spell.toList :=
  spell_toList t ▸ (h.sealed_element href).bounds t.lengths

theorem bracket_not_mem (hleaf : t.leaf.WellFormedLeaf) (harrays : ∀ u ∈ t.layers, u.isArray = false) :
    '[' ∉ t.spell.toList := by
  have hstep : ∀ (target : CType) (isConst : Bool) (c : Char), '[' ∉ target.spell.toList → c ≠ '[' →
      '[' ∉ qualified isConst target ++ [c] := by
    intro target isConst c htarget hc
    have hword : '[' ∉ constWord := by decide
    rcases qualified_cases isConst target with ⟨-, htext⟩ | ⟨-, -, htext⟩ | ⟨-, -, htext⟩ <;> rw [htext] <;>
      simp [htarget, hword, hc.symm]
  induction t with
  | void => exact hleaf.leafText.declarators '[' (by decide)
  | primitive => exact hleaf.leafText.declarators '[' (by decide)
  | named => exact hleaf.leafText.declarators '[' (by decide)
  | pointer target isConst ih =>
    have htarget := ih hleaf fun u hu => harrays u (List.mem_cons_of_mem _ hu)
    exact spell_pointer target isConst ▸ hstep target isConst '*' htarget (by decide)
  | reference target isConst ih =>
    have htarget := ih hleaf fun u hu => harrays u (List.mem_cons_of_mem _ hu)
    exact spell_reference target isConst ▸ hstep target isConst '&' htarget (by decide)
  | array inner length => exact absurd (harrays _ List.mem_cons_self) (by simp [isArray])

theorem Printable.element_arrays (h : t.Printable) (harray : t.isArray = true) :
    ∀ u ∈ t.element.layers, u.isArray = false := by
  have hinside : t.element ∈ t.inside := by
    rcases List.mem_cons.mp (mem_layers_element t) with hself | hinside
    · have hnone := isArray_element t
      rw [hself, harray] at hnone
      cases hnone
    · exact hinside
  have hself := isArray_element t
  have href := h.references _ hinside
  have hbelow := h.arrays t List.mem_cons_self harray _ hinside
  generalize t.element = e at hself href hbelow
  cases e with
  | pointer target isConst => exact List.forall_mem_cons.mpr ⟨hself, hbelow rfl⟩
  | reference => cases href
  | array => cases hself
  | _ => simpa [layers, inside] using hself

theorem Printable.star_not_mem (h : t.Printable) {target : CType} {isConst : Bool}
    (ht : t = .pointer target isConst ∨ t = .reference target isConst) (hconst : isConst = true)
    (hpointer : target.isPointer = false) : '*' ∉ target.spell.toList := by
  have hhides := h.consts t List.mem_cons_self
  have hleaf := h.leaf
  have href : target.isReference = false := by
    rcases ht with rfl | rfl <;> exact h.references target List.mem_cons_self
  subst hconst
  cases target with
  | pointer => cases hpointer
  | reference => cases href
  | array element length => rcases ht with rfl | rfl <;> simpa [hidesConst] using hhides
  | _ => rcases ht with rfl | rfl <;> exact hleaf.leafText.declarators '*' (by decide)

/-! ### Reading back -/

variable {text text' inner : List Char} {declarator : Declarator}

theorem ofChars_error {cause : SpellingError} (h : outermost text = .error cause) :
    ofChars text = .error cause := by
  rw [ofChars]
  split <;> rename_i hcut <;> rw [h] at hcut <;> cases hcut
  rfl

theorem ofChars_leaf (h : outermost text = .ok (.leaf t)) : ofChars text = .ok t := by
  rw [ofChars]
  split <;> rename_i hcut <;> rw [h] at hcut <;> cases hcut
  rfl

theorem ofChars_eq_map (h : outermost text = .ok (.derived declarator inner)) :
    ofChars text = (ofChars inner).map declarator.apply := by
  rw [ofChars]
  split <;> rename_i hcut <;> rw [h] at hcut <;> cases hcut
  cases ofChars inner <;> rfl

theorem ofChars_congr (h : outermost text = outermost text') : ofChars text = ofChars text' := by
  cases hcut : outermost text' with
  | error cause => rw [ofChars_error hcut, ofChars_error (h.trans hcut)]
  | ok cut =>
    cases cut with
    | leaf type => rw [ofChars_leaf hcut, ofChars_leaf (h.trans hcut)]
    | derived declarator target => rw [ofChars_eq_map hcut, ofChars_eq_map (h.trans hcut)]

theorem ofChars_derived (h : outermost text = .ok (.derived declarator inner)) (ht : ofChars inner = .ok t) :
    ofChars text = .ok (declarator.apply t) := by
  rw [ofChars_eq_map h, ht]
  rfl

theorem Printable.ofChars_of_element (h : t.Printable) (href : t.isReference = false)
    (helement : ofChars t.element.spell.toList = .ok t.element) : ofChars t.spell.toList = .ok t := by
  by_cases harray : t.isArray = true
  · have hleaf : t.element.leaf.WellFormedLeaf := leaf_element t ▸ h.leaf
    have hbracket := bracket_not_mem hleaf (h.element_arrays harray)
    have hne : t.lengths ≠ [] := by
      cases t with
      | array => exact List.cons_ne_nil _ _
      | _ => cases harray
    have hcut := outermost_bounds (h.sealed_element href).solid hbracket hne
    rw [spell_toList]
    exact (ofChars_derived hcut helement).trans (congrArg _ (apply_lengths t))
  · have hself : t.element = t := by
      cases t <;> simp_all [element, isArray]
    rwa [hself] at helement

theorem Printable.ofChars_element (h : t.Printable) (href : t.isReference = false) :
    ofChars t.element.spell.toList = .ok t.element := by
  induction t with
  | void => exact ofChars_leaf h.leaf.outermost_eq
  | primitive => exact ofChars_leaf h.leaf.outermost_eq
  | named => exact ofChars_leaf h.leaf.outermost_eq
  | reference => cases href
  | array inner length ih =>
    have hinner : inner ∈ (CType.array inner length).inside := List.mem_cons_self
    exact ih (h.of_mem_inside hinner) (h.references inner hinner)
  | pointer target isConst ih =>
    have hmem : target ∈ (CType.pointer target isConst).inside := List.mem_cons_self
    have htarget := h.of_mem_inside hmem
    have htargetRef := h.references target hmem
    have hsealed := htarget.sealed htargetRef
    have hread := htarget.ofChars_of_element htargetRef (ih htarget htargetRef)
    have hcut := outermost_star (solid_qualified isConst hsealed (by decide))
    rw [splitConst_qualified hsealed (h.star_not_mem (.inl rfl))] at hcut
    change ofChars (CType.pointer target isConst).spell.toList = _
    rw [spell_pointer]
    exact ofChars_derived hcut hread

/-- **Reading inverts printing**: a printable type is read back from its spelling. -/
theorem Printable.ofSpelling_spell (h : t.Printable) : ofSpelling t.spell = .ok t := by
  rw [ofSpelling]
  by_cases href : t.isReference = true
  · cases t with
    | reference target isConst =>
      have hmem : target ∈ (CType.reference target isConst).inside := List.mem_cons_self
      have htarget := h.of_mem_inside hmem
      have htargetRef := h.references target hmem
      have hsealed := htarget.sealed htargetRef
      have hread := htarget.ofChars_of_element htargetRef (htarget.ofChars_element htargetRef)
      have hcut := outermost_ampersand (solid_qualified isConst hsealed (by decide))
        (getLast?_qualified isConst target)
      rw [splitConst_qualified hsealed (h.star_not_mem (.inr rfl))] at hcut
      rw [spell_reference]
      exact ofChars_derived hcut hread
    | _ => cases href
  · rw [Bool.not_eq_true] at href
    exact h.ofChars_of_element href (h.ofChars_element href)

namespace Sample

def nested : CType :=
  .reference (.pointer (.array (.array (.pointer (.pointer (.named "ns::Foo") true) true) 3) 2) false) true

end Sample

theorem ofSpelling_spell_nested :
    Sample.nested.Printable ∧ Sample.nested.spell = "const ns::Foo * const *[2][3] * const &" ∧
    ofSpelling Sample.nested.spell = .ok Sample.nested := by
  have hprintable : Sample.nested.Printable := by decide +kernel
  exact ⟨hprintable, by decide +kernel, hprintable.ofSpelling_spell⟩

end HostBinding.CType
