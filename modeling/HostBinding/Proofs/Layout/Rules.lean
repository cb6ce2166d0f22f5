import Mathlib.Order.Bounds.Basic
import HostBinding.Proofs.Layout.Queries

/-!
# The rules that layouts follow

Fields stand in order, each at the least multiple of its alignment that is not below the end of the one before
it, and a struct is rounded up to the largest alignment of its fields. These rules are written down here as
least elements and maxima, without the arithmetic of the placement. Every layout that a resolver gives follows
them, and when the alignments that it starts from are powers of two that divide the sizes, so are all others:
objects of any type can then stand next to each other.
-/

namespace HostBinding

/-- Objects that take so much storage stay aligned when they stand next to each other, and both numbers are
words. -/
structure Extent.Tiles (extent : Extent) : Prop where
  alignment : extent.alignment.isPowerOfTwo
  size : extent.alignment ∣ extent.size
  sizeFits : extent.size < UInt64.size
  alignmentFits : extent.alignment < UInt64.size

def FieldLayout.stop (field : FieldLayout) : Nat :=
  field.offset + field.size

/-- Fields that stand one after the other behind an offset, each as early as its alignment allows. -/
def Consecutive (start : Nat) : List FieldLayout → Prop
  | [] => True
  | field :: rest =>
    IsLeast {offset | field.alignment ∣ offset ∧ start ≤ offset} field.offset ∧ Consecutive field.stop rest

/-- Where fields that stand behind an offset end. -/
def lastStop (start : Nat) : List FieldLayout → Nat
  | [] => start
  | field :: rest => lastStop field.stop rest

def largestAlignment (alignment : Nat) (fields : List FieldLayout) : Nat :=
  fields.foldl (fun largest field => max largest field.alignment) alignment

structure StructLayout.Ruled (layout : StructLayout) : Prop where
  offsets : Consecutive 0 layout.fields
  alignment : layout.alignment = largestAlignment 1 layout.fields
  size : if layout.fields = [] then layout.size = 1
    else IsLeast {size | layout.alignment ∣ size ∧ lastStop 0 layout.fields ≤ size} layout.size
  stops : ∀ field ∈ layout.fields, field.stop ≤ maxObjectSize
  sizeFits : layout.size ≤ maxObjectSize

variable {fields : List FieldLayout} {field : FieldLayout} {start alignment : Nat} {layout : StructLayout}
  {extent : Extent}

/-! ### Least multiples -/

theorem alignUp_isLeast (offset : Nat) (hpositive : 0 < alignment) :
    IsLeast {aligned | alignment ∣ aligned ∧ offset ≤ aligned} (alignUp offset alignment) := by
  rw [← padTo_eq_alignUp]
  refine ⟨⟨dvd_padTo offset hpositive, Nat.le_add_right _ _⟩, ?_⟩
  intro aligned haligned
  obtain ⟨hdvd, hle⟩ := haligned
  -- a smaller multiple would differ from the padded offset by less than the alignment
  by_contra hsmaller
  have hpad : padTo offset alignment < offset + alignment :=
    Nat.add_lt_add_left (Nat.mod_lt _ hpositive) offset
  have hgap : alignment ∣ padTo offset alignment - aligned :=
    Nat.dvd_sub (dvd_padTo offset hpositive) hdvd
  have hgapLe := Nat.le_of_dvd (by omega) hgap
  omega

theorem Extent.Tiles.pos (h : extent.Tiles) : 0 < extent.alignment := by
  obtain ⟨exponent, hpower⟩ := h.alignment
  rw [hpower]
  exact Nat.two_pow_pos exponent

/-! ### Fields in order -/

theorem start_le_of_consecutive (h : Consecutive start fields) (hmem : field ∈ fields) :
    start ≤ field.offset := by
  induction fields generalizing start with
  | nil => cases hmem
  | cons first rest ih =>
    obtain ⟨⟨⟨-, hfirst⟩, -⟩, hrest⟩ := h
    rcases List.mem_cons.mp hmem with rfl | htail
    · exact hfirst
    · exact Nat.le_trans (Nat.le_trans hfirst (Nat.le_add_right _ _)) (ih hrest htail)

theorem dvd_offset_of_consecutive (h : Consecutive start fields) (hmem : field ∈ fields) :
    field.alignment ∣ field.offset := by
  induction fields generalizing start with
  | nil => cases hmem
  | cons first rest ih =>
    rcases List.mem_cons.mp hmem with rfl | htail
    · exact h.1.1.1
    · exact ih h.2 htail

theorem pairwise_of_consecutive (h : Consecutive start fields) :
    fields.Pairwise fun before after => before.stop ≤ after.offset := by
  induction fields generalizing start with
  | nil => exact .nil
  | cons first rest ih => exact .cons (fun _ => start_le_of_consecutive h.2) (ih h.2)

theorem start_le_lastStop (h : Consecutive start fields) : start ≤ lastStop start fields := by
  induction fields generalizing start with
  | nil => exact Nat.le_refl _
  | cons first rest ih =>
    obtain ⟨⟨⟨-, hfirst⟩, -⟩, hrest⟩ := h
    exact Nat.le_trans (Nat.le_trans hfirst (Nat.le_add_right _ _)) (ih hrest)

theorem stop_le_lastStop (h : Consecutive start fields) (hmem : field ∈ fields) :
    field.stop ≤ lastStop start fields := by
  induction fields generalizing start with
  | nil => cases hmem
  | cons first rest ih =>
    rcases List.mem_cons.mp hmem with rfl | htail
    · exact start_le_lastStop h.2
    · exact ih h.2 htail

theorem largestAlignment_mem (alignment : Nat) (fields : List FieldLayout) :
    largestAlignment alignment fields = alignment ∨
      ∃ field ∈ fields, largestAlignment alignment fields = field.alignment := by
  induction fields generalizing alignment with
  | nil => exact .inl rfl
  | cons first rest ih =>
    rcases ih (max alignment first.alignment) with hlargest | hfield
    · rw [largestAlignment, List.foldl_cons, ← largestAlignment, hlargest]
      rcases Nat.le_total first.alignment alignment with hle | hle
      · exact .inl (Nat.max_eq_left hle)
      · exact .inr ⟨first, List.mem_cons_self, Nat.max_eq_right hle⟩
    · obtain ⟨field, hmem, hlargest⟩ := hfield
      exact .inr ⟨field, List.mem_cons_of_mem _ hmem, hlargest⟩

theorem StructLayout.Ruled.tiles (h : layout.Ruled) (hfields : ∀ field ∈ layout.fields, field.Tiles) :
    layout.Tiles := by
  have halignment : layout.alignment.isPowerOfTwo ∧ layout.alignment < UInt64.size := by
    rw [h.alignment]
    rcases largestAlignment_mem 1 layout.fields with hone | ⟨field, hmem, hlargest⟩
    · rw [hone]
      exact ⟨⟨0, rfl⟩, by decide⟩
    · rw [hlargest]
      exact ⟨(hfields field hmem).alignment, (hfields field hmem).alignmentFits⟩
  have hsize := h.size
  have hfits : layout.size < UInt64.size := Nat.lt_of_le_of_lt h.sizeFits (by decide)
  refine ⟨halignment.1, ?_, hfits, halignment.2⟩
  split at hsize
  · rename_i hempty
    have hone : layout.alignment = 1 := by rw [h.alignment, hempty]; rfl
    exact hone ▸ Nat.one_dvd _
  · exact hsize.1.1

namespace Resolver

/-! ### What the placement gives -/

/-- A field stands for a declared one and takes the storage that its type takes. -/
structure PlacedAs (extentOf? : CType → Option Extent) (decl : FieldDecl) (field : FieldLayout) : Prop where
  name : field.name = decl.name
  nativeType : field.nativeType = decl.type.spell
  extent : extentOf? decl.type = some field.toExtent

/-- A layout goes on from the fields placed so far. -/
structure Continues (placed : Placement) (added : List FieldLayout) (layout : StructLayout) : Prop where
  fields : layout.fields = placed.fields ++ added
  offsets : Consecutive placed.stop added
  alignment : layout.alignment = largestAlignment placed.alignment added
  size : layout.size = if layout.fields = [] then 1 else alignUp (lastStop placed.stop added) layout.alignment
  stops : ∀ field ∈ added, field.stop ≤ maxObjectSize
  sizeFits : layout.size ≤ maxObjectSize

variable {r : Resolver} {extentOf? : CType → Option Extent} {structName name : String}
  {decls : List FieldDecl} {placed : Placement} {depth : Nat} {type : CType}

theorem continues_of_close (h : placed.close structName = .ok layout) : Continues placed [] layout := by
  obtain ⟨size, hsize, rfl⟩ := map_eq_ok_iff.mp h
  have hempty : placed.fields.isEmpty = true ↔ placed.fields = [] := List.isEmpty_iff
  have hparts : size = (if placed.fields = [] then 1 else alignUp placed.stop placed.alignment) ∧
      size ≤ maxObjectSize := by
    simp only [hempty, boundedSize] at hsize
    split at hsize
    · rename_i hnone
      cases hsize
      exact ⟨by rw [if_pos hnone], by decide⟩
    · rename_i hsome
      split at hsize <;> cases hsize
      rename_i hbound
      exact ⟨by rw [if_neg hsome], hbound⟩
  exact {
    fields := (List.append_nil _).symm
    offsets := trivial
    alignment := rfl
    size := hparts.1
    stops := List.forall_mem_nil _
    sizeFits := hparts.2 }

/-- One more field: it stands at the least offset that its alignment allows, and the layout goes on from
there. -/
theorem continues_of_push {decl : FieldDecl} {next : Placement} {added : List FieldLayout}
    (hpositive : 0 < extent.alignment) (hpush : placed.push structName decl extent = .ok next)
    (h : Continues next added layout) :
    ∃ field : FieldLayout, field.name = decl.name ∧ field.nativeType = decl.type.spell ∧
      field.toExtent = extent ∧ Continues placed (field :: added) layout := by
  rw [Placement.push] at hpush
  split at hpush <;> cases hpush
  rename_i hbound
  refine ⟨⟨extent, decl.name, decl.type.spell, alignUp placed.stop extent.alignment⟩, rfl, rfl, rfl, ?_⟩
  constructor
  case fields => simpa using h.fields
  case offsets => exact ⟨alignUp_isLeast _ hpositive, h.offsets⟩
  case alignment => exact h.alignment
  case size => exact h.size
  case stops => exact List.forall_mem_cons.mpr ⟨hbound, h.stops⟩
  case sizeFits => exact h.sizeFits

theorem continues_of_placeBy? (hpositive : ∀ type extent, extentOf? type = some extent → 0 < extent.alignment)
    (h : placeBy? extentOf? structName decls placed = some layout) :
    ∃ added, Continues placed added layout ∧ List.Forall₂ (PlacedAs extentOf?) decls added := by
  induction decls generalizing placed with
  | nil => exact ⟨[], continues_of_close (eq_ok_of_toOption_eq_some h), .nil⟩
  | cons decl rest ih =>
    obtain ⟨extent, hextent, hafter⟩ := Option.bind_eq_some_iff.mp h
    obtain ⟨next, hnext, hrest⟩ := Option.bind_eq_some_iff.mp hafter
    obtain ⟨added, hcontinues, hadded⟩ := ih hrest
    obtain ⟨field, hname, hspelling, rfl, hfield⟩ := continues_of_push (hpositive _ _ hextent)
      (eq_ok_of_toOption_eq_some hnext) hcontinues
    exact ⟨field :: added, hfield, .cons ⟨hname, hspelling, hextent⟩ hadded⟩

theorem ruled_of_placeBy? (htiles : ∀ type extent, extentOf? type = some extent → extent.Tiles)
    (h : placeBy? extentOf? structName decls {} = some layout) :
    layout.Ruled ∧ List.Forall₂ (PlacedAs extentOf?) decls layout.fields ∧ layout.Tiles := by
  obtain ⟨added, hcontinues, hadded⟩ := continues_of_placeBy? (fun type extent h => (htiles type extent h).pos) h
  obtain rfl : layout.fields = added := by simpa using hcontinues.fields
  have hfields : ∀ field ∈ layout.fields, field.Tiles :=
    forall_mem_of_forall₂ hadded fun decl field hplaced => htiles decl.type field.toExtent hplaced.extent
  have halignment : layout.alignment = largestAlignment 1 layout.fields := hcontinues.alignment
  have hpositive : 0 < layout.alignment := by
    rw [halignment]
    rcases largestAlignment_mem 1 layout.fields with hone | ⟨field, hmem, hlargest⟩
    · rw [hone]
      exact Nat.one_pos
    · rw [hlargest]
      exact (hfields field hmem).pos
  have hruled : layout.Ruled := by
    constructor
    case offsets => exact hcontinues.offsets
    case alignment => exact halignment
    case size =>
      have hsize := hcontinues.size
      split
      · rename_i hempty
        rwa [if_pos hempty] at hsize
      · rename_i hsome
        rw [if_neg hsome] at hsize
        exact hsize ▸ alignUp_isLeast _ hpositive
    case stops => exact hcontinues.stops
    case sizeFits => exact hcontinues.sizeFits
  exact ⟨hruled, hadded, hruled.tiles hfields⟩

/-! ### Every extent -/

/-- What a resolver starts from: a pointer and the structs laid out elsewhere can stand next to others of
their kind. -/
structure Grounded (r : Resolver) : Prop where
  pointer : r.pointerWidth.isPowerOfTwo
  pointerFits : r.pointerWidth < UInt64.size
  known : ∀ name extent, r.known.get? name = some extent → extent.Tiles

theorem tiles_of_primitive (kind : Primitive) : (⟨kind.size, kind.size⟩ : Extent).Tiles := by
  obtain ⟨exponent, hsmall, hpower⟩ : ∃ exponent, exponent < 4 ∧ kind.size = 2 ^ exponent := by
    cases kind with
    | bool => decide
    | integral kind => cases kind <;> decide
    | floating kind => cases kind <;> decide
  have hfits : kind.size < UInt64.size :=
    hpower ▸ Nat.lt_of_le_of_lt (Nat.pow_le_pow_right (by decide) (Nat.le_of_lt hsmall)) (by decide)
  exact ⟨⟨exponent, hpower⟩, Nat.dvd_refl _, hfits, hfits⟩

theorem tiles_of_extentBy? {named? : String → Option Extent} (h : r.Grounded)
    (hnamed : ∀ name extent, named? name = some extent → extent.Tiles)
    (hextent : extentBy? r.pointerWidth named? type = some extent) : extent.Tiles := by
  induction type generalizing extent with
  | void => cases hextent
  | reference => cases hextent
  | primitive kind =>
    cases hextent
    exact tiles_of_primitive kind
  | pointer =>
    cases hextent
    exact ⟨h.pointer, Nat.dvd_refl _, h.pointerFits, h.pointerFits⟩
  | named name => exact hnamed name extent hextent
  | array element length ih =>
    obtain ⟨inner, hinner, harray⟩ := Option.bind_eq_some_iff.mp hextent
    obtain ⟨hbound, heq⟩ := Option.ite_none_right_eq_some.mp harray
    cases heq
    have htiles := ih hinner
    exact ⟨htiles.alignment, Nat.dvd_mul_right_of_dvd htiles.size _,
      Nat.lt_of_le_of_lt hbound (by decide), htiles.alignmentFits⟩

theorem tiles_of_namedAt? (h : r.Grounded) (hextent : r.namedAt? depth name = some extent) :
    extent.Tiles := by
  induction depth generalizing name extent with
  | zero =>
    rcases Option.or_eq_some_iff.mp hextent with hknown | ⟨-, hfound⟩
    · exact h.known name extent hknown
    · cases hfound
  | succ depth ih =>
    rcases Option.or_eq_some_iff.mp hextent with hknown | ⟨-, hfound⟩
    · exact h.known name extent hknown
    · obtain ⟨layout, hlayout, rfl⟩ := Option.map_eq_some_iff.mp hfound
      obtain ⟨decl, -, hplace⟩ := Option.bind_eq_some_iff.mp hlayout
      exact (ruled_of_placeBy? (fun _ _ => tiles_of_extentBy? h fun _ _ => ih) hplace).2.2

theorem tiles_of_extentAt? (h : r.Grounded) (hextent : r.extentAt? depth type = some extent) :
    extent.Tiles :=
  tiles_of_extentBy? h (fun _ _ => tiles_of_namedAt? h) hextent

theorem LaysOut.ruled (h : r.LaysOut name layout) (hgrounded : r.Grounded) :
    layout.Ruled ∧ ∃ decl depth, r.declared? name = some decl ∧
      List.Forall₂ (PlacedAs (r.extentAt? depth)) decl.fields layout.fields := by
  obtain ⟨decl, depth, hdecl, hplace⟩ := h.exists_placeBy?
  obtain ⟨hruled, hplaced, -⟩ := ruled_of_placeBy? (fun _ _ => tiles_of_extentAt? hgrounded) hplace
  exact ⟨hruled, decl, depth, hdecl, hplaced⟩

end Resolver

end HostBinding
