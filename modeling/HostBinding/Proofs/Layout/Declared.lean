import HostBinding.Proofs.Layout.Depth

/-!
# The layout of a declaration

A resolver lays out names, and of several declarations with one name it takes the last. What a declaration itself
looks like to a C compiler is written down here without its name: its fields are the members of a C struct, and a
struct without fields takes one byte.
-/

namespace HostBinding.Resolver

variable {r : Resolver} {decl : StructDecl} {own own' : HostLayout} {extentOf? : CType → Option Extent}
  {name structName : String} {fields : List FieldDecl} {placed : Placement} {layout : StructLayout} {depth depth' : Nat}

/-- The C layout of a declaration, when the structs in it that are found within a depth have the extents that the
resolver gives them. -/
def ownLayout? (r : Resolver) (depth : Nat) (decl : StructDecl) : Option HostLayout :=
  (decl.fields.mapM fun field => r.extentAt? depth field.type).map fun extents =>
    { toExtent := (reprC 1 (if extents = [] then [⟨1, 1⟩] else extents)).toExtent
      offsets := (reprC 1 extents).offsets }

def HasLayout (r : Resolver) (decl : StructDecl) (own : HostLayout) : Prop :=
  ∃ depth, r.ownLayout? depth decl = some own

theorem ownLayout?_mono (hle : depth ≤ depth') (h : r.ownLayout? depth decl = some own) :
    r.ownLayout? depth' decl = some own := by
  obtain ⟨extents, hextents, rfl⟩ := Option.map_eq_some_iff.mp h
  have hmore := mapM_eq_some_iff.mpr ((mapM_eq_some_iff.mp hextents).imp fun _ _ => extentAt?_mono hle)
  rw [ownLayout?, hmore]
  rfl

theorem HasLayout.unique (h : r.HasLayout decl own) (h' : r.HasLayout decl own') : own = own' := by
  obtain ⟨depth, h⟩ := h
  obtain ⟨depth', h'⟩ := h'
  have hmax := ownLayout?_mono (Nat.le_max_left depth depth') h
  rw [ownLayout?_mono (Nat.le_max_right depth depth') h'] at hmax
  exact (Option.some.inj hmax).symm

theorem HasLayout.length_offsets (h : r.HasLayout decl own) : own.offsets.length = decl.fields.length := by
  obtain ⟨depth, h⟩ := h
  obtain ⟨extents, hextents, rfl⟩ := Option.map_eq_some_iff.mp h
  exact (length_placeMembers 0 1 extents).trans (mapM_eq_some_iff.mp hextents).length_eq.symm

theorem completes_of_placeBy? (h : placeBy? extentOf? structName fields placed = some layout) :
    ∃ extents, fields.mapM (fun field => extentOf? field.type) = some extents ∧
      Completes placed extents (fields.map (·.name)) layout := by
  simp only [mapM_eq_some_iff]
  induction fields generalizing placed with
  | nil => exact ⟨[], .nil, completes_of_close (eq_ok_of_toOption_eq_some h)⟩
  | cons field rest ih =>
    obtain ⟨extent, hextent, hafter⟩ := Option.bind_eq_some_iff.mp h
    obtain ⟨next, hnext, hrest⟩ := Option.bind_eq_some_iff.mp hafter
    obtain ⟨extents, hextents, hcompletes⟩ := ih hrest
    exact ⟨extent :: extents, .cons hextent hextents, hcompletes.push (eq_ok_of_toOption_eq_some hnext)⟩

/-- A layout states the numbers of a declaration: size and alignment, and for each declared field its name and
offset. -/
structure States (layout : StructLayout) (decl : StructDecl) (own : HostLayout) : Prop where
  extent : layout.toExtent = own.toExtent
  offsets : (layout.fields.map fun field => (field.name, field.offset)) = (decl.fields.map (·.name)).zip own.offsets

theorem states_of_placeBy? (h : placeBy? (r.extentAt? depth) structName decl.fields {} = some layout) :
    ∃ own, r.HasLayout decl own ∧ States layout decl own := by
  obtain ⟨extents, hextents, hcompletes⟩ := completes_of_placeBy? h
  obtain ⟨hextent, hoffsets, hnames⟩ := hcompletes.eq_reprC
  refine ⟨_, ⟨depth, Option.map_eq_some_iff.mpr ⟨extents, hextents, rfl⟩⟩, hextent, ?_⟩
  rw [← hnames, ← hoffsets, List.zip_map']

/-- What is laid out is the last declaration of a name. -/
theorem LaysOut.states (h : r.LaysOut name layout) :
    ∃ last own, r.declared? name = some last ∧ r.HasLayout last own ∧ States layout last own := by
  obtain ⟨last, depth, hlast, hplace⟩ := h.exists_placeBy?
  obtain ⟨own, hown, hstates⟩ := states_of_placeBy? hplace
  exact ⟨last, own, hlast, hown, hstates⟩

end HostBinding.Resolver
