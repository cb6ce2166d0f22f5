import HostBinding.Proofs.CType.Reread
import HostBinding.Proofs.Layout.Depth

/-!
# Types that are spelled alike

A key holds the spellings of field types, and two types that were read can have one spelling without being
equal: a `const` may stand at another pointer. What a spelling is on the outside is the same for both, though,
and neither the target of a pointer nor its `const` changes how much storage a field takes.
-/

namespace HostBinding

open Text

namespace CType

variable {t t' : CType}

/-- The array bounds that a spelling ends in. -/
def boundsOf : Except SpellingError Outermost → List UInt64
  | .ok (.derived (.bounds lengths) _) => lengths
  | _ => []

theorem Readable.element (h : t.Readable) : t.element.Readable := by
  rcases List.mem_cons.mp (mem_layers_element t) with hself | hinside
  · rwa [hself]
  · exact h.of_mem_inside hinside

theorem Readable.lengths_eq (h : t.Readable) : t.lengths = boundsOf (outermost t.spell.toList) := by
  rw [h.outermost_spell]
  cases t <;> rfl

/-- Types that are spelled alike are arrays of the same lengths, of elements that are spelled alike. -/
theorem Readable.lengths_and_element_eq (h : t.Readable) (h' : t'.Readable) (hspell : t.spell = t'.spell) :
    t.lengths = t'.lengths ∧ t.element.spell = t'.element.spell := by
  have hlengths : t.lengths = t'.lengths := by rw [h.lengths_eq, h'.lengths_eq, hspell]
  have htext := congrArg String.toList hspell
  rw [spell_toList t, spell_toList t', hlengths, List.append_cancel_right_eq] at htext
  exact ⟨hlengths, String.toList_injective htext⟩

end CType

namespace Resolver

open CType

variable {t t' : CType} {pointerWidth : Nat} {named? : String → Option Extent}

/-- The storage of an array is that of its element, taken by the lengths from the inside out. -/
theorem extentBy?_eq_foldr (t : CType) :
    extentBy? pointerWidth named? t =
      t.lengths.foldr (fun length extent => extent.bind (Extent.array? length))
        (extentBy? pointerWidth named? t.element) := by
  induction t with
  | array inner length ih => rw [extentBy?, ih]; rfl
  | _ => rfl

/-- The storage of what a spelling is on the outside. It is found without reading any target. -/
def cutExtent? (pointerWidth : Nat) (named? : String → Option Extent) :
    Except SpellingError Outermost → Option Extent
  | .ok (.leaf leaf) => extentBy? pointerWidth named? leaf
  | .ok (.derived (.pointer _) _) => some ⟨pointerWidth, pointerWidth⟩
  | _ => none

theorem extentBy?_eq_cutExtent? (h : t.Readable) (harray : t.isArray = false) :
    extentBy? pointerWidth named? t = cutExtent? pointerWidth named? (outermost t.spell.toList) := by
  rw [h.outermost_spell]
  cases t with
  | array => cases harray
  | _ => rfl

/-- **Types that are spelled alike take the same storage.** -/
theorem extentBy?_eq_of_spell_eq (h : t.Readable) (h' : t'.Readable) (hspell : t.spell = t'.spell) :
    extentBy? pointerWidth named? t = extentBy? pointerWidth named? t' := by
  obtain ⟨hlengths, helement⟩ := h.lengths_and_element_eq h' hspell
  rw [extentBy?_eq_foldr t, extentBy?_eq_foldr t', hlengths,
    extentBy?_eq_cutExtent? h.element (isArray_element t),
    extentBy?_eq_cutExtent? h'.element (isArray_element t'), helement]

/-- A struct is laid out the same when its fields are called the same and spelled the same. -/
theorem placeBy?_eq_of_fields_eq {structName : String} {fields fields' : List FieldDecl} {placed : Placement}
    (h : List.Forall₂ (fun field field' : FieldDecl => field.name = field'.name ∧
      field.type.spell = field'.type.spell) fields fields')
    (hfields : ∀ field ∈ fields, field.type.Readable) (hfields' : ∀ field ∈ fields', field.type.Readable) :
    placeBy? (extentBy? pointerWidth named?) structName fields placed =
      placeBy? (extentBy? pointerWidth named?) structName fields' placed := by
  induction h generalizing placed with
  | nil => rfl
  | @cons field field' rest rest' hfield _ ih =>
    obtain ⟨hname, hspell⟩ := hfield
    obtain ⟨hfirst, hrest⟩ := List.forall_mem_cons.mp hfields
    obtain ⟨hfirst', hrest'⟩ := List.forall_mem_cons.mp hfields'
    rw [placeBy?, placeBy?, extentBy?_eq_of_spell_eq hfirst hfirst' hspell]
    refine Option.bind_congr fun extent _ => ?_
    simp only [Placement.push, hname, hspell]
    split
    · exact ih hrest hrest'
    · rfl

end Resolver

end HostBinding
