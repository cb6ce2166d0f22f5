import HostBinding.Proofs.Layout.Nesting

/-!
# Which structs have a layout

Whether a struct can be laid out is a question about declarations alone: everything that it holds by value is
declared, nothing holds itself, no field is stored by value that cannot be, and no number that the rules of C give
is larger than the largest object. The numbers are taken from the rules without any bound, by a relation between
types and storage that does not follow the search. A resolver finds a layout exactly when all of this holds.
-/

namespace HostBinding

/-- Where members that stand behind an offset end, each as early as its alignment allows. -/
def memberStops (start : Nat) : List Extent → List Nat
  | [] => []
  | member :: rest =>
    let stop := padTo start member.alignment + member.size
    stop :: memberStops stop rest

/-- The storage of a struct by that of its members. One without members takes a byte. -/
def structExtent (members : List Extent) : Extent :=
  if members = [] then ⟨1, 1⟩ else (reprC 1 members).toExtent

namespace Resolver

/-- The storage that a type takes by the rules of C, however large it is. -/
inductive Takes (r : Resolver) : CType → Extent → Prop where
  | primitive (kind : Primitive) (spelling : String) : Takes r (.primitive kind spelling) ⟨kind.size, kind.size⟩
  | pointer (target : CType) (isConst : Bool) : Takes r (.pointer target isConst) ⟨r.pointerWidth, r.pointerWidth⟩
  | array {element : CType} {extent : Extent} (length : UInt64) (helement : Takes r element extent) :
    Takes r (.array element length) (extent.array length.toNat)
  | known {name : String} {extent : Extent} (hknown : r.known.get? name = some extent) : Takes r (.named name) extent
  | struct {name : String} {decl : StructDecl} {members : List Extent} (hunknown : r.known.get? name = none)
    (hdecl : r.declared? name = some decl)
    (hmembers : List.Forall₂ (fun (field : FieldDecl) member => Takes r field.type member) decl.fields members) :
    Takes r (.named name) (structExtent members)

/-- The numbers that come up when a struct is laid out with everything that it holds: the sizes of arrays and
structs, and where fields end. -/
inductive Measures (r : Resolver) (name : String) : Nat → Prop where
  | array {met : String} {decl : StructDecl} {field : FieldDecl} {element : CType} {length : UInt64} {extent : Extent}
    (hmet : Relation.ReflTransGen r.Holds name met) (hdecl : r.declared? met = some decl)
    (hfield : field ∈ decl.fields) (harray : .array element length ∈ field.type.arrays)
    (hextent : r.Takes (.array element length) extent) : Measures r name extent.size
  | stop {met : String} {decl : StructDecl} {members : List Extent} {stop : Nat}
    (hmet : Relation.ReflTransGen r.Holds name met) (hdecl : r.declared? met = some decl)
    (hmembers : List.Forall₂ (fun (field : FieldDecl) member => r.Takes field.type member) decl.fields members)
    (hstop : stop ∈ memberStops 0 members) : Measures r name stop
  | struct {met : String} {decl : StructDecl} {members : List Extent}
    (hmet : Relation.ReflTransGen r.Holds name met) (hdecl : r.declared? met = some decl)
    (hmembers : List.Forall₂ (fun (field : FieldDecl) member => r.Takes field.type member) decl.fields members) :
    Measures r name (structExtent members).size

/-- What it takes for a struct to have a layout. -/
structure Storable (r : Resolver) (name : String) : Prop where
  declared : ∀ met, Relation.ReflTransGen r.Holds name met → r.isDeclared met = true
  acyclic : ∀ met, Relation.ReflTransGen r.Holds name met → ¬ Relation.TransGen r.Holds met met
  sized : ∀ met, Relation.ReflTransGen r.Holds name met → ∀ decl, r.declared? met = some decl →
    ∀ field ∈ decl.fields, field.type.element.isVoid = false ∧ field.type.element.isReference = false
  bounded : ∀ value, r.Measures name value → value ≤ maxObjectSize

variable {r : Resolver} {depth : Nat} {name structName : String} {type : CType} {extent extent' : Extent}
  {layout : StructLayout} {extentOf? : CType → Option Extent} {field : FieldDecl} {fields : List FieldDecl}
  {members : List Extent} {placed next : Placement} {inProgress : List String}

/-! ### Placing members -/

/-- Members fit behind the fields placed so far, and all of them together take the given storage. -/
structure Fills (placed : Placement) (members : List Extent) (extent : Extent) : Prop where
  stops : ∀ stop ∈ memberStops placed.stop members, stop ≤ maxObjectSize
  alignment : extent.alignment = (placeMembers placed.stop placed.alignment members).2.1
  size : extent.size = if placed.fields = [] ∧ members = [] then 1 else
    padTo (placeMembers placed.stop placed.alignment members).1
      (placeMembers placed.stop placed.alignment members).2.1
  sizeFits : extent.size ≤ maxObjectSize

theorem fills_empty_iff :
    Fills {} members extent ↔
      (∀ stop ∈ memberStops 0 members, stop ≤ maxObjectSize) ∧ extent = structExtent members ∧
        extent.size ≤ maxObjectSize := by
  have hextent : extent = structExtent members ↔
      extent.alignment = (placeMembers 0 1 members).2.1 ∧
      extent.size = if members = [] then 1 else
        padTo (placeMembers 0 1 members).1 (placeMembers 0 1 members).2.1 := by
    obtain ⟨size, alignment⟩ := extent
    rw [structExtent]
    split
    · rename_i hnone
      subst hnone
      simp [placeMembers, and_comm]
    · simp [reprC, and_comm]
  constructor
  · exact fun h => ⟨h.stops, hextent.mpr ⟨h.alignment, by simpa using h.size⟩, h.sizeFits⟩
  · intro h
    obtain ⟨hstops, hmembers, hfits⟩ := h
    obtain ⟨halignment, hsize⟩ := hextent.mp hmembers
    exact ⟨hstops, halignment, by simpa using hsize, hfits⟩

theorem fills_nil_iff (structName : String) :
    Fills placed [] extent ↔ ∃ layout, placed.close structName = .ok layout ∧ layout.toExtent = extent := by
  simp only [close_eq_ok_iff, and_assoc, exists_and_left, exists_eq_left]
  constructor
  · intro h
    obtain ⟨size, alignment⟩ := extent
    obtain ⟨-, halignment, hsize, hfits⟩ := h
    simp only [and_true, placeMembers] at halignment hsize hfits
    subst halignment hsize
    exact ⟨hfits, rfl⟩
  · intro h
    obtain ⟨hfits, rfl⟩ := h
    exact ⟨List.forall_mem_nil _, rfl, by simp only [and_true]; rfl, hfits⟩

theorem exists_push_iff (structName : String) (field : FieldDecl) {member : Extent} :
    (∃ next, placed.push structName field member = .ok next) ↔
      padTo placed.stop member.alignment + member.size ≤ maxObjectSize := by
  simp only [Placement.push, padTo_eq_alignUp]
  split <;> rename_i hbound <;> simp [hbound]

theorem fills_cons_iff (structName : String) (field : FieldDecl) {member : Extent} :
    Fills placed (member :: members) extent ↔
      ∃ next, placed.push structName field member = .ok next ∧ Fills next members extent := by
  have hparts {next : Placement} (hpush : placed.push structName field member = .ok next) :
      next.stop = padTo placed.stop member.alignment + member.size ∧
      next.alignment = max placed.alignment member.alignment ∧ next.fields ≠ [] := by
    obtain ⟨hstop, halignment, hoffsets, -⟩ := Placement.push_eq_ok hpush
    refine ⟨hstop, halignment, fun hnone => ?_⟩
    simp [hnone] at hoffsets
  constructor
  · intro h
    obtain ⟨hfirst, hrest⟩ := List.forall_mem_cons.mp h.stops
    obtain ⟨next, hpush⟩ := (exists_push_iff structName field).mpr hfirst
    obtain ⟨hstop, halignment, hsome⟩ := hparts hpush
    refine ⟨next, hpush, ?_, ?_, ?_, h.sizeFits⟩
    · rwa [hstop]
    · rw [hstop, halignment]
      exact h.alignment
    · have hsize := h.size
      rw [if_neg (by simp)] at hsize
      rw [if_neg (fun hnone => hsome hnone.1), hstop, halignment]
      exact hsize
  · intro hnext
    obtain ⟨next, hpush, h⟩ := hnext
    obtain ⟨hstop, halignment, hsome⟩ := hparts hpush
    refine ⟨List.forall_mem_cons.mpr ⟨(exists_push_iff structName field).mp ⟨next, hpush⟩, hstop ▸ h.stops⟩, ?_, ?_, h.sizeFits⟩
    · have := h.alignment
      rwa [hstop, halignment] at this
    · have hsize := h.size
      rw [if_neg (fun hnone => hsome hnone.1), hstop, halignment] at hsize
      rw [if_neg (by simp)]
      exact hsize

/-- The fields of a struct can be placed exactly when their types take storage that fits. -/
theorem exists_placeBy?_iff :
    (∃ layout, placeBy? extentOf? structName fields placed = some layout ∧ layout.toExtent = extent) ↔
      ∃ members, List.Forall₂ (fun (field : FieldDecl) member => extentOf? field.type = some member) fields members ∧
        Fills placed members extent := by
  induction fields generalizing placed with
  | nil =>
    simp only [List.forall₂_nil_left_iff, exists_eq_left, fills_nil_iff structName, placeBy?]
    constructor
    · intro h
      obtain ⟨layout, hclose, hextent⟩ := h
      exact ⟨layout, eq_ok_of_toOption_eq_some hclose, hextent⟩
    · intro h
      obtain ⟨layout, hclose, hextent⟩ := h
      exact ⟨layout, by rw [hclose]; rfl, hextent⟩
  | cons field rest ih =>
    constructor
    · intro h
      obtain ⟨layout, hplace, hextent⟩ := h
      obtain ⟨member, hmember, hafter⟩ := Option.bind_eq_some_iff.mp hplace
      obtain ⟨next, hnext, hrest⟩ := Option.bind_eq_some_iff.mp hafter
      obtain ⟨members, hmembers, hfills⟩ := ih.mp ⟨layout, hrest, hextent⟩
      exact ⟨member :: members, .cons hmember hmembers,
        (fills_cons_iff structName field).mpr ⟨next, eq_ok_of_toOption_eq_some hnext, hfills⟩⟩
    · intro h
      obtain ⟨members, hall, hfills⟩ := h
      obtain ⟨member, members, hmember, hmembers, rfl⟩ := List.forall₂_cons_left_iff.mp hall
      obtain ⟨next, hpush, hfills⟩ := (fills_cons_iff structName field).mp hfills
      obtain ⟨layout, hrest, hextent⟩ := ih.mpr ⟨members, hmembers, hfills⟩
      refine ⟨layout, ?_, hextent⟩
      rw [placeBy?, hmember, Option.bind_some, hpush]
      exact hrest

/-! ### Layouts follow the rules of C -/

theorem takes_of_extentBy? {named? : String → Option Extent}
    (hnamed : ∀ name extent, named? name = some extent → r.Takes (.named name) extent)
    (h : extentBy? r.pointerWidth named? type = some extent) : r.Takes type extent := by
  induction type generalizing extent with
  | void => cases h
  | reference => cases h
  | primitive kind spelling =>
    cases h
    exact .primitive kind spelling
  | pointer target isConst =>
    cases h
    exact .pointer target isConst
  | named name => exact hnamed name extent h
  | array element length ih =>
    obtain ⟨inner, hinner, harray⟩ := Option.bind_eq_some_iff.mp h
    obtain ⟨-, heq⟩ := Option.ite_none_right_eq_some.mp harray
    cases heq
    exact .array length (ih hinner)

theorem takes_of_extentAt? (h : r.extentAt? depth type = some extent) : r.Takes type extent := by
  induction depth generalizing type extent with
  | zero =>
    refine takes_of_extentBy? (fun name extent hextent => ?_) h
    rcases Option.or_eq_some_iff.mp hextent with hknown | ⟨-, hfound⟩
    · exact .known hknown
    · cases hfound
  | succ depth ih =>
    refine takes_of_extentBy? (fun name extent hextent => ?_) h
    rcases Option.or_eq_some_iff.mp hextent with hknown | ⟨hunknown, hfound⟩
    · exact .known hknown
    · obtain ⟨layout, hlayout, rfl⟩ := Option.map_eq_some_iff.mp hfound
      obtain ⟨decl, hdecl, hplace⟩ := Option.bind_eq_some_iff.mp hlayout
      obtain ⟨members, hmembers, hfills⟩ := exists_placeBy?_iff.mp ⟨layout, hplace, rfl⟩
      rw [(fills_empty_iff.mp hfills).2.1]
      exact .struct hunknown hdecl (hmembers.imp fun _ _ => ih)

theorem takes_named_iff :
    r.Takes (.named name) extent ↔ r.known.get? name = some extent ∨
      r.known.get? name = none ∧ ∃ decl members, r.declared? name = some decl ∧
        List.Forall₂ (fun (field : FieldDecl) member => r.Takes field.type member) decl.fields members ∧
        structExtent members = extent := by
  constructor
  · intro h
    cases h with
    | known hknown => exact .inl hknown
    | struct hunknown hdecl hmembers => exact .inr ⟨hunknown, _, _, hdecl, hmembers, rfl⟩
  · intro h
    rcases h with hknown | ⟨hunknown, decl, members, hdecl, hmembers, rfl⟩
    · exact .known hknown
    · exact .struct hunknown hdecl hmembers

theorem Takes.eq_of_extentBy? {named? : String → Option Extent}
    (hnamed : ∀ name extent extent', r.Takes (.named name) extent → named? name = some extent' → extent = extent')
    (h : r.Takes type extent) (hextent : extentBy? r.pointerWidth named? type = some extent') : extent = extent' := by
  induction type generalizing extent extent' with
  | void => cases hextent
  | reference => cases hextent
  | primitive kind spelling =>
    cases h
    exact Option.some.inj hextent
  | pointer target isConst =>
    cases h
    exact Option.some.inj hextent
  | named name => exact hnamed name extent extent' h hextent
  | array element length ih =>
    obtain ⟨inner, hinner, harray⟩ := Option.bind_eq_some_iff.mp hextent
    obtain ⟨-, heq⟩ := Option.ite_none_right_eq_some.mp harray
    cases heq
    cases h with
    | array _ helement => rw [ih helement hinner]

/-- The rules give one answer, that of any depth that has one. -/
theorem Takes.eq_of_namedAt? (h : r.Takes (.named name) extent) (hdepth : r.namedAt? depth name = some extent') :
    extent = extent' := by
  induction depth generalizing name extent extent' with
  | zero =>
    rw [namedAt?] at hdepth
    rcases takes_named_iff.mp h with hknown | ⟨hunknown, -⟩
    · rw [hknown] at hdepth
      exact Option.some.inj hdepth
    · rw [hunknown] at hdepth
      cases hdepth
  | succ depth ih =>
    rw [namedAt?] at hdepth
    rcases takes_named_iff.mp h with hknown | ⟨hunknown, decl, members, hdecl, hmembers, rfl⟩
    · rw [hknown] at hdepth
      exact Option.some.inj hdepth
    · rw [hunknown, Option.none_or, layoutAt?_succ, hdecl] at hdepth
      obtain ⟨layout, hplace, rfl⟩ := Option.map_eq_some_iff.mp hdepth
      obtain ⟨members', hmembers', hfills⟩ := exists_placeBy?_iff.mp ⟨layout, hplace, rfl⟩
      have heq : members = members' := eq_of_forall₂ hmembers hmembers' fun field _ _ htakes hextent =>
        htakes.eq_of_extentBy? (fun _ _ _ => ih) hextent
      rw [(fills_empty_iff.mp hfills).2.1, heq]

theorem Takes.eq_of_extentAt? (h : r.Takes type extent) (hdepth : r.extentAt? depth type = some extent') :
    extent = extent' :=
  h.eq_of_extentBy? (fun _ _ _ => Takes.eq_of_namedAt?) hdepth

/-! ### Bounds of what has a layout -/

theorem exists_extentAt?_of_mem_arrays {inner : CType} (h : r.extentAt? depth type = some extent)
    (hmem : inner ∈ type.arrays) :
    ∃ found, r.extentAt? depth inner = some found ∧ found.size ≤ maxObjectSize := by
  induction type generalizing extent with
  | array element length ih =>
    obtain ⟨held, hheld, harray⟩ := Option.bind_eq_some_iff.mp h
    rcases List.mem_cons.mp hmem with rfl | hinside
    · obtain ⟨hbound, heq⟩ := Option.ite_none_right_eq_some.mp harray
      exact ⟨extent, h, Option.some.inj heq ▸ hbound⟩
    · exact ih hheld hinside
  | _ => cases hmem

/-- What a struct with a layout is made of, by the rules of C. -/
theorem LaysOut.exists_members (h : r.LaysOut name layout) :
    ∃ decl depth members, r.declared? name = some decl ∧
      List.Forall₂ (fun (field : FieldDecl) member => r.extentAt? depth field.type = some member)
        decl.fields members ∧
      (∀ stop ∈ memberStops 0 members, stop ≤ maxObjectSize) ∧ layout.toExtent = structExtent members ∧
      layout.size ≤ maxObjectSize := by
  obtain ⟨decl, depth, hdecl, hplace⟩ := h.exists_placeBy?
  obtain ⟨members, hmembers, hfills⟩ := exists_placeBy?_iff.mp ⟨layout, hplace, rfl⟩
  exact ⟨decl, depth, members, hdecl, hmembers, fills_empty_iff.mp hfills⟩

theorem LaysOut.measures_le {value : Nat} (h : r.LaysOut name layout) (hvalue : r.Measures name value) :
    value ≤ maxObjectSize := by
  have hstruct {met decl} (hmet : Relation.ReflTransGen r.Holds name met) (hdecl : r.declared? met = some decl) :
      ∃ depth members, List.Forall₂ (fun (field : FieldDecl) member => r.extentAt? depth field.type = some member)
          decl.fields members ∧
        (∀ stop ∈ memberStops 0 members, stop ≤ maxObjectSize) ∧ (structExtent members).size ≤ maxObjectSize := by
    obtain ⟨found, hfound⟩ := h.of_reflTransGen hmet
    obtain ⟨decl', depth, members, hdecl', hmembers, hstops, hextent, hfits⟩ := hfound.exists_members
    obtain rfl : decl = decl' := Option.some.inj (hdecl.symm.trans hdecl')
    exact ⟨depth, members, hmembers, hstops, hextent ▸ hfits⟩
  cases hvalue with
  | array hmet hdecl hfield harray hextent =>
    obtain ⟨depth, members, hmembers, -⟩ := hstruct hmet hdecl
    obtain ⟨member, hmember⟩ := exists_of_forall₂_of_mem hmembers hfield
    obtain ⟨found, hfound, hbound⟩ := exists_extentAt?_of_mem_arrays hmember harray
    exact hextent.eq_of_extentAt? hfound ▸ hbound
  | stop hmet hdecl hmembers hstop =>
    obtain ⟨depth, members', hmembers', hstops, -⟩ := hstruct hmet hdecl
    obtain rfl := eq_of_forall₂ hmembers hmembers' fun _ _ _ htakes => htakes.eq_of_extentAt?
    exact hstops _ hstop
  | struct hmet hdecl hmembers =>
    obtain ⟨depth, members', hmembers', -, hfits⟩ := hstruct hmet hdecl
    obtain rfl := eq_of_forall₂ hmembers hmembers' fun _ _ _ htakes => htakes.eq_of_extentAt?
    exact hfits

theorem LaysOut.storable (h : r.LaysOut name layout) : r.Storable name := by
  constructor
  case declared =>
    intro met hmet
    obtain ⟨found, hfound⟩ := h.of_reflTransGen hmet
    obtain ⟨decl, -, hdecl, -⟩ := hfound.exists_placeBy?
    rw [isDeclared, hdecl]
    rfl
  case acyclic =>
    intro met hmet
    obtain ⟨found, hfound⟩ := h.of_reflTransGen hmet
    exact hfound.not_transGen_self
  case sized =>
    intro met hmet decl hdecl field hfield
    obtain ⟨found, hfound⟩ := h.of_reflTransGen hmet
    obtain ⟨decl', depth, hdecl', hplace⟩ := hfound.exists_placeBy?
    obtain rfl : decl = decl' := Option.some.inj (hdecl.symm.trans hdecl')
    obtain ⟨extent, hextent⟩ := exists_extent_of_placeBy? hplace hfield
    obtain ⟨inner, hinner⟩ := exists_extentBy?_element hextent
    cases helement : field.type.element with
    | void | reference =>
      rw [helement] at hinner
      cases hinner
    | _ => exact ⟨rfl, rfl⟩
  case bounded => exact fun value => h.measures_le

/-! ### Layouts of what is storable -/

theorem exists_extentAt?_of_storable
    (hnamed : ∀ inner, type.element = .named inner → ∃ depth extent, r.namedAt? depth inner = some extent)
    (hsized : type.element.isVoid = false ∧ type.element.isReference = false)
    (hbounded : ∀ element length extent, .array element length ∈ type.arrays →
      r.Takes (.array element length) extent → extent.size ≤ maxObjectSize) :
    ∃ depth extent, r.extentAt? depth type = some extent := by
  induction type with
  | void => cases hsized.1
  | reference => cases hsized.2
  | primitive kind spelling => exact ⟨0, _, rfl⟩
  | pointer target isConst => exact ⟨0, _, rfl⟩
  | named name => exact hnamed name rfl
  | array element length ih =>
    obtain ⟨depth, extent, hextent⟩ := ih hnamed hsized fun inner length' extent hmem =>
      hbounded inner length' extent (List.mem_cons_of_mem _ hmem)
    have hbound := hbounded element length _ List.mem_cons_self (.array length (takes_of_extentAt? hextent))
    refine ⟨depth, extent.array length.toNat, ?_⟩
    rw [extentAt?, extentBy?, ← extentAt?, hextent, Option.bind_some, Extent.array?]
    exact if_pos hbound

theorem exists_depth_of_forall (h : ∀ field ∈ fields, ∃ depth extent, r.extentAt? depth field.type = some extent) :
    ∃ depth members, List.Forall₂ (fun (field : FieldDecl) member => r.extentAt? depth field.type = some member)
      fields members := by
  induction fields with
  | nil => exact ⟨0, [], .nil⟩
  | cons field rest ih =>
    obtain ⟨⟨depth, extent, hextent⟩, hrest⟩ := List.forall_mem_cons.mp h
    obtain ⟨depth', members, hmembers⟩ := ih hrest
    exact ⟨max depth depth', extent :: members, .cons (extentAt?_mono (Nat.le_max_left _ _) hextent)
      (hmembers.imp fun _ _ => extentAt?_mono (Nat.le_max_right _ _))⟩

theorem Storable.exists_laysOut_of_holds {met : String} (h : r.Storable name)
    (hmet : Relation.ReflTransGen r.Holds name met) (haround : r.Around inProgress met) :
    ∃ layout, r.LaysOut met layout := by
  -- on the number of declared structs that are not around the one at hand
  induction hcount : (remaining r.structs inProgress).length using Nat.strongRecOn
    generalizing inProgress met with
  | _ count ih =>
  subst hcount
  have hfresh : met ∉ inProgress := fun hmem => h.acyclic met hmet (haround met hmem)
  obtain ⟨decl, hdecl⟩ := Option.isSome_iff_exists.mp (h.declared met hmet)
  have hdescent := length_remaining_lt (mem_names_of_declared? hdecl) hfresh
  have hfields : ∀ field ∈ decl.fields, ∃ depth extent, r.extentAt? depth field.type = some extent := by
    intro field hfield
    refine exists_extentAt?_of_storable (fun inner hinner => ?_) (h.sized met hmet decl hdecl field hfield)
      fun element length extent harray hextent => h.bounded _ (.array hmet hdecl hfield harray hextent)
    cases hknown : r.known.get? inner with
    | some extent => exact ⟨0, extent, by rw [namedAt?, hknown]; rfl⟩
    | none =>
      have hholds : r.Holds met inner := ⟨hknown, decl, hdecl, field, hfield, hinner⟩
      obtain ⟨layout, depth, hlayout⟩ := ih _ hdescent (hmet.tail hholds) (haround.inside hholds) rfl
      exact ⟨depth, layout.toExtent, by rw [namedAt?, hknown, hlayout]; rfl⟩
  obtain ⟨depth, members, hmembers⟩ := exists_depth_of_forall hfields
  have htakes := hmembers.imp fun _ _ => takes_of_extentAt?
  have hfills : Fills {} members (structExtent members) := fills_empty_iff.mpr
    ⟨fun stop hstop => h.bounded stop (.stop hmet hdecl htakes hstop), rfl, h.bounded _ (.struct hmet hdecl htakes)⟩
  obtain ⟨layout, hplace, -⟩ := exists_placeBy?_iff.mpr ⟨members, hmembers, hfills⟩
  exact ⟨layout, depth + 1, by rw [layoutAt?_succ, hdecl]; exact hplace⟩

theorem exists_laysOut_iff_storable : (∃ layout, r.LaysOut name layout) ↔ r.Storable name :=
  ⟨fun ⟨_, h⟩ => h.storable, fun h => h.exists_laysOut_of_holds .refl (around_nil r name)⟩

/-- **A struct is laid out exactly when it should be.** From any structs, pointer width and structs laid out
elsewhere, a name resolves if and only if everything that it holds is declared, nothing that it holds holds itself,
every field can be stored, and no number that comes up exceeds the largest object. -/
theorem exists_resolve_eq_ok_iff (pointerWidth : Nat) (structs : List StructDecl) (known : Table String Extent)
    (name : String) :
    (∃ layout, (resolve { pointerWidth, structs, known } name).1 = .ok layout) ↔
      Storable { pointerWidth, structs, known } name := by
  rw [← exists_laysOut_iff_storable]
  exact exists_congr fun layout => resolve_fst_eq_ok_iff (remembers_empty _)

end Resolver

end HostBinding
