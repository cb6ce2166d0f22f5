import Mathlib.Data.Nat.Find
import Mathlib.Logic.Relation
import HostBinding.Proofs.CType.RoundTrip
import HostBinding.Proofs.Layout.Queries

/-!
# Structs inside structs

A struct holds another one when it stores objects of it, alone or in arrays. Laying out follows this relation and
no other: a pointer needs no layout of its target, and a struct that was laid out elsewhere is not looked into. A
struct that has a layout is found at a greater depth than all that it holds, so it never holds itself. That is also
why a layout, once there is one, is found from inside a descent as well: the structs around it hold it, and none of
them can be needed for it.
-/

namespace HostBinding

namespace CType

/-- The arrays on the outside of a type, from the outside in. -/
def arrays : CType → List CType
  | .array element length => .array element length :: element.arrays
  | _ => []

theorem element_of_mem_arrays {type element : CType} {length : UInt64} (h : .array element length ∈ type.arrays) :
    element.element = type.element := by
  induction type with
  | array inner outerLength ih =>
    rcases List.mem_cons.mp h with heq | hinside
    · cases heq
      rfl
    · exact ih hinside
  | _ => cases h

end CType

namespace Resolver

/-- A struct holds another one by value, and that one is not laid out elsewhere. -/
def Holds (r : Resolver) (outer inner : String) : Prop :=
  r.known.get? inner = none ∧ ∃ decl, r.declared? outer = some decl ∧
    ∃ field ∈ decl.fields, field.type.element = .named inner

variable {r : Resolver} {pointerWidth depth : Nat} {name outer inner structName : String} {type : CType}
  {extent : Extent} {layout : StructLayout} {named? : String → Option Extent}
  {extentOf? : CType → Option Extent} {field : FieldDecl} {fields : List FieldDecl} {placed : Placement}
  {memo : Table String StructLayout} {inProgress : List String}

/-! ### Depths along what is held -/

theorem exists_extentBy?_element (h : extentBy? pointerWidth named? type = some extent) :
    ∃ inner, extentBy? pointerWidth named? type.element = some inner := by
  induction type generalizing extent with
  | array element length ih =>
    obtain ⟨inner, hinner, -⟩ := Option.bind_eq_some_iff.mp h
    exact ih hinner
  | _ => exact ⟨extent, h⟩

/-- What a struct holds is laid out at a smaller depth. -/
theorem exists_layoutAt?_of_holds (hholds : r.Holds outer inner)
    (h : r.layoutAt? (depth + 1) outer = some layout) : ∃ found, r.layoutAt? depth inner = some found := by
  obtain ⟨hunknown, decl, hdecl, field, hmem, helement⟩ := hholds
  rw [layoutAt?_succ, hdecl] at h
  obtain ⟨extent, hextent⟩ := exists_extent_of_placeBy? h hmem
  obtain ⟨held, hheld⟩ := exists_extentBy?_element hextent
  rw [helement, extentBy?, namedAt?, hunknown, Option.none_or] at hheld
  obtain ⟨found, hfound, -⟩ := Option.map_eq_some_iff.mp hheld
  exact ⟨found, hfound⟩

theorem exists_layoutAt?_of_transGen (hholds : Relation.TransGen r.Holds outer inner)
    (h : r.layoutAt? depth outer = some layout) :
    ∃ below < depth, ∃ found, r.layoutAt? below inner = some found := by
  have hstep : ∀ {depth outer inner layout}, r.Holds outer inner → r.layoutAt? depth outer = some layout →
      ∃ below < depth, ∃ found, r.layoutAt? below inner = some found := by
    intro depth outer inner layout hholds h
    cases depth with
    | zero => cases h
    | succ depth => exact ⟨depth, Nat.lt_succ_self depth, exists_layoutAt?_of_holds hholds h⟩
  induction hholds with
  | single hholds => exact hstep hholds h
  | tail _ hholds ih =>
    obtain ⟨middle, hmiddle, found, hfound⟩ := ih
    obtain ⟨below, hbelow, hinner⟩ := hstep hholds hfound
    exact ⟨below, Nat.lt_trans hbelow hmiddle, hinner⟩

theorem LaysOut.of_reflTransGen (h : r.LaysOut outer layout) (hholds : Relation.ReflTransGen r.Holds outer inner) :
    ∃ found, r.LaysOut inner found := by
  obtain ⟨depth, hdepth⟩ := h
  rcases Relation.reflTransGen_iff_eq_or_transGen.mp hholds with rfl | hinside
  · exact ⟨layout, depth, hdepth⟩
  · obtain ⟨below, -, found, hfound⟩ := exists_layoutAt?_of_transGen hinside hdepth
    exact ⟨found, below, hfound⟩

theorem LaysOut.exists_least (h : r.LaysOut name layout) :
    ∃ depth, r.layoutAt? depth name = some layout ∧ ∀ below < depth, r.layoutAt? below name = none := by
  have hfound : ∃ depth, r.layoutAt? depth name ≠ none := by
    obtain ⟨depth, hdepth⟩ := h
    exact ⟨depth, by rw [hdepth]; exact Option.some_ne_none layout⟩
  refine ⟨Nat.find hfound, ?_, fun below hbelow => not_not.mp (Nat.find_min hfound hbelow)⟩
  obtain ⟨found, hleast⟩ := Option.ne_none_iff_exists'.mp (Nat.find_spec hfound)
  rw [hleast, LaysOut.unique ⟨_, hleast⟩ h]

/-- A struct around one that has a layout needs a greater depth. -/
theorem layoutAt?_eq_none_of_transGen (hholds : Relation.TransGen r.Holds outer name)
    (hleast : ∀ below < depth, r.layoutAt? below name = none) : r.layoutAt? depth outer = none := by
  cases houter : r.layoutAt? depth outer with
  | none => rfl
  | some found =>
    obtain ⟨below, hbelow, inner, hinner⟩ := exists_layoutAt?_of_transGen hholds houter
    rw [hleast below hbelow] at hinner
    cases hinner

/-- A struct that has a layout does not hold itself. -/
theorem LaysOut.not_transGen_self (h : r.LaysOut name layout) : ¬ Relation.TransGen r.Holds name name := by
  intro hcycle
  obtain ⟨depth, hdepth, hleast⟩ := h.exists_least
  rw [layoutAt?_eq_none_of_transGen hcycle hleast] at hdepth
  cases hdepth

/-! ### Descents from inside -/

/-- The structs that are being laid out are around the one that comes next. -/
def Around (r : Resolver) (inProgress : List String) (name : String) : Prop :=
  ∀ outer ∈ inProgress, Relation.TransGen r.Holds outer name

theorem around_nil (r : Resolver) (name : String) : r.Around [] name :=
  List.forall_mem_nil _

theorem Around.inside (h : r.Around inProgress outer) (hholds : r.Holds outer inner) :
    r.Around (outer :: inProgress) inner :=
  List.forall_mem_cons.mpr ⟨.single hholds, fun other hother => (h other hother).tail hholds⟩

/-- What has a layout is laid out, whatever is in progress around it. -/
theorem runs_of_laysOut (haround : r.Around inProgress name) (hmemo : r.Remembers memo)
    (h : r.LaysOut name layout) :
    ∃ memo', Runs (r.layoutWithin inProgress name) memo memo' layout ∧ r.Remembers memo' := by
  obtain ⟨depth, hdepth, hleast⟩ := h.exists_least
  exact runs_of_layoutAt? (fun outer hmem => layoutAt?_eq_none_of_transGen (haround outer hmem) hleast) hmemo hdepth

end Resolver

end HostBinding
