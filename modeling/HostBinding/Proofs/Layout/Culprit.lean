import HostBinding.Proofs.Layout.Results

/-!
# Where a struct cannot be laid out

An error about a field names one place, and there is only one that it can name. From the struct that was asked for, a
way leads to it through structs that hold each other, none of them twice; everything declared before the places that
it passes is laid out; and the field at its end fails by itself, because of its type or because of where it would end,
and not because of a field inside it.
-/

namespace HostBinding

namespace Resolver

/-- A field of a struct, and those before it. -/
structure Place where
  structName : String
  before : List FieldDecl
  field : FieldDecl

/-- The place is one in the declaration of its struct, and the fields before it are laid out. -/
structure Reached (r : Resolver) (place : Place) : Prop where
  declared : ∃ decl after, r.declared? place.structName = some decl ∧
    decl.fields = place.before ++ place.field :: after
  laidOut : ∃ members, LaidOut (fun type => (r.extent type).1) place.before members

/-- A way by value from a struct to a place, through the places that it passes. -/
inductive Route (r : Resolver) : String → List Place → Place → Prop where
  | here {place : Place} (hreached : r.Reached place) : Route r place.structName [] place
  | inside {outer place : Place} {inner : String} {passed : List Place} (hreached : r.Reached outer)
    (helement : outer.field.type.element = .named inner) (hunknown : r.known.get? inner = none)
    (hrest : Route r inner passed place) : Route r outer.structName (outer :: passed) place

variable {r : Resolver} {place : Place} {name inner : String}

theorem Reached.exists_mem (h : r.Reached place) :
    ∃ decl, r.declared? place.structName = some decl ∧ place.field ∈ decl.fields := by
  obtain ⟨decl, after, hdecl, hfields⟩ := h.declared
  exact ⟨decl, hdecl, hfields ▸ List.mem_append_right _ List.mem_cons_self⟩

theorem Reached.holds (h : r.Reached place) (helement : place.field.type.element = .named inner)
    (hunknown : r.known.get? inner = none) : r.Holds place.structName inner := by
  obtain ⟨decl, hdecl, hmem⟩ := h.exists_mem
  exact ⟨hunknown, decl, hdecl, place.field, hmem, helement⟩

/-- What is wrong with a struct by itself, when the structs of `path` are around it. -/
inductive Refused (r : Resolver) (path : List String) (name : String) : LayoutError → Prop where
  | recursive (hpath : name ∈ path) : Refused r path name (.recursive name)
  | undeclared (hpath : name ∉ path) (hdecl : r.declared? name = none) : Refused r path name (.unknownType name)
  /-- All fields are laid out, and only with the padding after them the struct is too large. -/
  | padded {decl : StructDecl} {members : List Extent} (hpath : name ∉ path) (hdecl : r.declared? name = some decl)
    (hmembers : LaidOut (fun type => (r.extent type).1) decl.fields members)
    (hlarge : maxObjectSize < (structExtent members).size) : Refused r path name (.overflow name)

/-- What is wrong with a field by itself, when the structs of `path` are around it and the fields before it are laid
out. -/
inductive Fault (r : Resolver) (path : List String) (place : Place) : LayoutError → Prop where
  | unsized (helement : place.field.type.element.isVoid = true ∨ place.field.type.element.isReference = true) :
    Fault r path place (.unsized place.field.type.element)
  | struct {inner : String} {cause : LayoutError} (helement : place.field.type.element = .named inner)
    (hunknown : r.known.get? inner = none) (hinner : Refused r path inner cause) : Fault r path place cause
  | array {element : CType} {length : UInt64} {extent : Extent}
    (harray : .array element length ∈ place.field.type.arrays)
    (hextent : (r.extent element).1 = .ok extent) (hlarge : maxObjectSize < extent.size * length.toNat) :
    Fault r path place (.overflow (CType.array element length).spell)
  | stop {members : List Extent} {extent : Extent} {stop : Nat}
    (hmembers : LaidOut (fun type => (r.extent type).1) place.before members)
    (hextent : (r.extent place.field.type).1 = .ok extent) (hstop : stop ∈ memberStops 0 (members ++ [extent]))
    (hlarge : maxObjectSize < stop) : Fault r path place (.overflow place.structName)

def path (passed : List Place) (place : Place) : List String :=
  (passed ++ [place]).map Place.structName

variable {inProgress names names' : List String} {structName : String} {type : CType} {extent : Extent}
  {cause reason : LayoutError} {decl : StructDecl} {field : FieldDecl} {fields : List FieldDecl}
  {members : List Extent}

/-! ### Places -/

/-- Some field on a way from a struct is at fault. -/
inductive Blamed (r : Resolver) (inProgress : List String) (name : String) : LayoutError → Prop where
  | intro {passed : List Place} {place : Place} {reason : LayoutError} (hroute : r.Route name passed place)
    (hnodup : (path passed place ++ inProgress).Nodup)
    (hfault : r.Fault (path passed place ++ inProgress) place reason) :
    Blamed r inProgress name (.inField place.structName place.field.name place.field.type reason)

theorem Refused.of_mem_iff (hnames : ∀ outer, outer ∈ names ↔ outer ∈ names') (h : r.Refused names name cause) :
    r.Refused names' name cause := by
  cases h with
  | recursive hpath => exact .recursive ((hnames name).mp hpath)
  | undeclared hpath hdecl => exact .undeclared (mt (hnames name).mpr hpath) hdecl
  | padded hpath hdecl hmembers hlarge => exact .padded (mt (hnames name).mpr hpath) hdecl hmembers hlarge

theorem Fault.of_mem_iff (hnames : ∀ outer, outer ∈ names ↔ outer ∈ names') (h : r.Fault names place cause) :
    r.Fault names' place cause := by
  cases h with
  | unsized helement => exact .unsized helement
  | struct helement hunknown hinner => exact .struct helement hunknown (hinner.of_mem_iff hnames)
  | array harray hextent hlarge => exact .array harray hextent hlarge
  | stop hmembers hextent hstop hlarge => exact .stop hmembers hextent hstop hlarge

theorem Blamed.inside {outer : Place} (hreached : r.Reached outer)
    (helement : outer.field.type.element = .named inner) (hunknown : r.known.get? inner = none)
    (h : r.Blamed (outer.structName :: inProgress) inner cause) :
    r.Blamed inProgress outer.structName cause := by
  obtain ⟨hroute, hnodup, hfault⟩ := h
  refine .intro (.inside hreached helement hunknown hroute) (List.perm_middle.nodup_iff.mp hnodup)
    (hfault.of_mem_iff fun name => List.perm_middle.mem_iff)

theorem Blamed.here (hreached : r.Reached place) (hnodup : inProgress.Nodup) (hfresh : place.structName ∉ inProgress)
    (hfault : r.Fault (place.structName :: inProgress) place reason) :
    r.Blamed inProgress place.structName (.inField place.structName place.field.name place.field.type reason) :=
  .intro (.here hreached) (List.nodup_cons.mpr ⟨hfresh, hnodup⟩) hfault

/-! ### One struct of a descent -/

theorem layoutResult_of_declared (hmemo : r.Remembers r.memo) (haround : r.Around inProgress name)
    (hfresh : name ∉ inProgress) (hdecl : r.declared? name = some decl) :
    r.layoutResult inProgress name = placeResult (r.extentResult (name :: inProgress)) name decl.fields {} := by
  rw [layoutResult_eq hmemo haround, if_neg hfresh, hdecl]
  dsimp only
  rw [(mem_of_declared? hdecl).2]

theorem extentResult_eq_ok_iff_of_mem (hmemo : r.Remembers r.memo) (haround : r.Around inProgress name)
    (hdecl : r.declared? name = some decl) (hfield : field ∈ decl.fields)
    (helement : type.element = field.type.element) :
    r.extentResult (name :: inProgress) type = .ok extent ↔ (r.extent type).1 = .ok extent :=
  extentResult_eq_ok_iff hmemo fun _ hinner hunknown =>
    haround.inside ⟨hunknown, decl, hdecl, field, hfield, helement.symm.trans hinner⟩

theorem laidOut_iff (hmemo : r.Remembers r.memo) (haround : r.Around inProgress name)
    (hdecl : r.declared? name = some decl) (hfields : fields <+: decl.fields) :
    LaidOut (r.extentResult (name :: inProgress)) fields members ↔
      LaidOut (fun type => (r.extent type).1) fields members := by
  have hsame : ∀ field ∈ fields, ∀ extent,
      r.extentResult (name :: inProgress) field.type = .ok extent ↔ (r.extent field.type).1 = .ok extent :=
    fun field hfield extent => extentResult_eq_ok_iff_of_mem hmemo haround hdecl (hfields.subset hfield) rfl
  constructor
  · intro h
    refine ⟨?_, h.stops⟩
    exact ((List.forall₂_and_left _ _).mpr ⟨hsame, h.extents⟩).imp fun _ _ hparts => (hparts.1 _).mp hparts.2
  · intro h
    refine ⟨?_, h.stops⟩
    exact ((List.forall₂_and_left _ _).mpr ⟨hsame, h.extents⟩).imp fun _ _ hparts => (hparts.1 _).mpr hparts.2

/-- A field whose type fails is blamed, unless the failure names a field already. -/
theorem layoutResult_of_field_error (hmemo : r.Remembers r.memo) (haround : r.Around inProgress place.structName)
    (hfresh : place.structName ∉ inProgress) (hreached : r.Reached place)
    (hfield : r.extentResult (place.structName :: inProgress) place.field.type = .error cause) :
    r.layoutResult inProgress place.structName = .error (blame place.structName place.field cause) := by
  obtain ⟨⟨decl, after, hdecl, hfields⟩, members, hlaid⟩ := hreached
  have hlaid' := (laidOut_iff hmemo haround hdecl ⟨_, hfields.symm⟩).mpr hlaid
  rw [layoutResult_of_declared hmemo haround hfresh hdecl, hfields]
  exact placeResult_of_error hlaid' hfield

/-- What a struct inside gives is what its field gives, also through arrays. -/
theorem extentResult_of_inner_error (helement : type.element = .named inner) (hunknown : r.known.get? inner = none)
    (h : r.layoutResult inProgress inner = .error cause) : r.extentResult inProgress type = .error cause := by
  refine extentResult_of_element ?_
  rw [helement, extentResult_unknown hunknown, h]
  rfl

theorem blame_of_refused (h : r.Refused names inner cause) :
    blame structName field cause = .inField structName field.name field.type cause := by
  cases h <;> rfl

theorem blame_of_blamed (h : r.Blamed names inner cause) : blame structName field cause = cause := by
  cases h
  rfl

theorem layoutResult_of_refused (hmemo : r.Remembers r.memo) (haround : r.Around inProgress name)
    (h : r.Refused inProgress name cause) : r.layoutResult inProgress name = .error cause := by
  cases h with
  | recursive hpath => rw [layoutResult_eq hmemo haround, if_pos hpath]
  | undeclared hpath hdecl => rw [layoutResult_eq hmemo haround, if_neg hpath, hdecl]
  | padded hpath hdecl hmembers hlarge =>
    rw [layoutResult_of_declared hmemo haround hpath hdecl]
    have hlaid := (laidOut_iff hmemo haround hdecl ⟨[], List.append_nil _⟩).mpr hmembers
    exact (placeResult_eq_error_iff_of_laidOut hlaid).mpr ⟨hlarge, rfl⟩

theorem layoutResult_of_fault (hmemo : r.Remembers r.memo) (haround : r.Around inProgress place.structName)
    (hfresh : place.structName ∉ inProgress) (hreached : r.Reached place)
    (h : r.Fault (place.structName :: inProgress) place reason) :
    r.layoutResult inProgress place.structName =
      .error (.inField place.structName place.field.name place.field.type reason) := by
  obtain ⟨decl, after, hdecl, hfields⟩ := hreached.declared
  have hmem : place.field ∈ decl.fields := hfields ▸ List.mem_append_right _ List.mem_cons_self
  cases h with
  | unsized helement =>
    exact layoutResult_of_field_error hmemo haround hfresh hreached
      (extentResult_of_element (extentResult_of_unsized helement))
  | struct helement hunknown hinner =>
    have haround' := haround.inside (hreached.holds helement hunknown)
    have hfield := extentResult_of_inner_error helement hunknown (layoutResult_of_refused hmemo haround' hinner)
    rw [layoutResult_of_field_error hmemo haround hfresh hreached hfield, blame_of_refused hinner]
  | array harray hextent hlarge =>
    have helement := CType.element_of_mem_arrays harray
    have hextent' := (extentResult_eq_ok_iff_of_mem hmemo haround hdecl hmem helement).mpr hextent
    have hfield := extentResult_of_mem_arrays harray hextent' hlarge
    exact layoutResult_of_field_error hmemo haround hfresh hreached hfield
  | stop hmembers hextent hstop hlarge =>
    have hlaid := (laidOut_iff hmemo haround hdecl ⟨_, hfields.symm⟩).mpr hmembers
    have hextent' := (extentResult_eq_ok_iff_of_mem hmemo haround hdecl hmem rfl).mpr hextent
    rw [layoutResult_of_declared hmemo haround hfresh hdecl, hfields]
    exact placeResult_of_stop hlaid hextent' hstop hlarge

theorem layoutResult_of_blamed (hmemo : r.Remembers r.memo) (haround : r.Around inProgress name)
    (h : r.Blamed inProgress name cause) : r.layoutResult inProgress name = .error cause := by
  obtain ⟨hroute, hnodup, hfault⟩ := h
  induction hroute generalizing inProgress with
  | here hreached => exact layoutResult_of_fault hmemo haround (List.nodup_cons.mp hnodup).1 hreached hfault
  | inside hreached helement hunknown _ ih =>
    have hfresh := fun hmem => (List.nodup_cons.mp hnodup).1 (List.mem_append_right _ hmem)
    have hinner := ih (haround.inside (hreached.holds helement hunknown)) (List.perm_middle.nodup_iff.mpr hnodup)
      (hfault.of_mem_iff fun name => List.perm_middle.mem_iff.symm)
    rw [layoutResult_of_field_error hmemo haround hfresh hreached
      (extentResult_of_inner_error helement hunknown hinner)]
    rfl

/-- When a field fails, it or one inside it is at fault. -/
theorem blamed_of_field_error (hmemo : r.Remembers r.memo) (haround : r.Around inProgress place.structName)
    (hnodup : inProgress.Nodup) (hfresh : place.structName ∉ inProgress) (hreached : r.Reached place)
    (hinside : ∀ inner cause, r.Holds place.structName inner →
      r.layoutResult (place.structName :: inProgress) inner = .error cause →
      r.Refused (place.structName :: inProgress) inner cause ∨ r.Blamed (place.structName :: inProgress) inner cause)
    (h : r.extentResult (place.structName :: inProgress) place.field.type = .error cause) :
    r.Blamed inProgress place.structName (blame place.structName place.field cause) := by
  rcases element_or_exists_array h with helement | ⟨element, length, extent, harray, hextent, hlarge, rfl⟩
  · rcases unsized_or_exists_named (CType.isArray_element _) helement with
      ⟨hunsized, rfl⟩ | ⟨inner, hnamed, hunknown, hinner⟩
    · exact .here hreached hnodup hfresh (.unsized hunsized)
    · rcases hinside inner cause (hreached.holds hnamed hunknown) hinner with hrefused | hblamed
      · rw [blame_of_refused hrefused]
        exact .here hreached hnodup hfresh (.struct hnamed hunknown hrefused)
      · rw [blame_of_blamed hblamed]
        exact .inside hreached hnamed hunknown hblamed
  · obtain ⟨decl, hdecl, hmem⟩ := hreached.exists_mem
    have helement := CType.element_of_mem_arrays harray
    have hextent' := (extentResult_eq_ok_iff_of_mem hmemo haround hdecl hmem helement).mp hextent
    exact .here hreached hnodup hfresh (.array harray hextent' hlarge)

theorem refused_or_blamed_of_layoutResult (hmemo : r.Remembers r.memo) (haround : r.Around inProgress name)
    (hnodup : inProgress.Nodup) (h : r.layoutResult inProgress name = .error cause) :
    r.Refused inProgress name cause ∨ r.Blamed inProgress name cause := by
  -- on the number of declared structs that are not in progress
  induction hcount : (remaining r.structs inProgress).length using Nat.strongRecOn
    generalizing inProgress name cause with
  | _ count ih =>
  subst hcount
  by_cases hfresh : name ∈ inProgress
  · rw [layoutResult_eq hmemo haround, if_pos hfresh] at h
    cases h
    exact .inl (.recursive hfresh)
  · cases hdecl : r.declared? name with
    | none =>
      rw [layoutResult_eq hmemo haround, if_neg hfresh, hdecl] at h
      cases h
      exact .inl (.undeclared hfresh hdecl)
    | some decl =>
      have hdescent := length_remaining_lt (mem_names_of_declared? hdecl) hfresh
      rw [layoutResult_of_declared hmemo haround hfresh hdecl] at h
      rcases laidOut_or_exists_first (r.extentResult (name :: inProgress)) decl.fields with
        ⟨members, hlaid⟩ | ⟨before, field, after, members, hfields, hlaid, hfirst⟩
      · obtain ⟨hlarge, rfl⟩ := (placeResult_eq_error_iff_of_laidOut hlaid).mp h
        have hlaid' := (laidOut_iff hmemo haround hdecl ⟨[], List.append_nil _⟩).mp hlaid
        exact .inl (.padded hfresh hdecl hlaid' hlarge)
      · have hlaid' := (laidOut_iff hmemo haround hdecl ⟨_, hfields.symm⟩).mp hlaid
        have hreached : r.Reached ⟨name, before, field⟩ := ⟨⟨decl, after, hdecl, hfields⟩, members, hlaid'⟩
        right
        rw [hfields] at h
        rcases hfirst with ⟨cause', hfield⟩ | ⟨extent, stop, hfield, hstop, hlarge⟩
        · rw [placeResult_of_error hlaid hfield] at h
          obtain rfl := Except.error.inj h
          have hnodup' := List.nodup_cons.mpr ⟨hfresh, hnodup⟩
          refine blamed_of_field_error hmemo haround hnodup hfresh hreached (fun inner _ hholds hinner => ?_) hfield
          exact ih _ hdescent (haround.inside hholds) hnodup' hinner rfl
        · rw [placeResult_of_stop hlaid hfield hstop hlarge] at h
          cases h
          have hmem : field ∈ decl.fields := hfields ▸ List.mem_append_right _ List.mem_cons_self
          have hextent := (extentResult_eq_ok_iff_of_mem hmemo haround hdecl hmem rfl).mp hfield
          exact .here hreached hnodup hfresh (.stop hlaid' hextent hstop hlarge)

/-- A struct fails within a descent because it is refused itself or because a field on a way from it is at fault. -/
theorem layoutResult_eq_error_iff (hmemo : r.Remembers r.memo) (haround : r.Around inProgress name)
    (hnodup : inProgress.Nodup) :
    r.layoutResult inProgress name = .error cause ↔
      r.Refused inProgress name cause ∨ r.Blamed inProgress name cause := by
  constructor
  · exact refused_or_blamed_of_layoutResult hmemo haround hnodup
  · intro h
    rcases h with hrefused | hblamed
    · exact layoutResult_of_refused hmemo haround hrefused
    · exact layoutResult_of_blamed hmemo haround hblamed

/-- **An error about a field names the first field that is at fault.** A struct fails with a field, its type and a
reason exactly when a way leads from the struct to that field, through different structs and past fields that are all
laid out, and the reason is what is wrong with the field by itself. -/
theorem resolve_eq_inField_iff (pointerWidth : Nat) (structs : List StructDecl) (known : Table String Extent)
    (name structName fieldName : String) (type : CType) (reason : LayoutError) :
    let r : Resolver := { pointerWidth, structs, known }
    (r.resolve name).1 = .error (.inField structName fieldName type reason) ↔
      ∃ passed place, r.Route name passed place ∧ (path passed place).Nodup ∧
        r.Fault (path passed place) place reason ∧
        place.structName = structName ∧ place.field = ⟨fieldName, type⟩ := by
  intro r
  change r.layoutResult [] name = _ ↔ _
  rw [layoutResult_eq_error_iff (remembers_empty r) (around_nil r name) List.nodup_nil]
  constructor
  · intro h
    rcases h with hrefused | hblamed
    · cases hrefused
    · cases hblamed with
      | intro hroute hnodup hfault =>
        rw [List.append_nil] at hnodup hfault
        exact ⟨_, _, hroute, hnodup, hfault, rfl, rfl⟩
  · intro h
    obtain ⟨passed, place, hroute, hnodup, hfault, rfl, hfield⟩ := h
    have hblamed : r.Blamed [] name _ := .intro hroute (by rwa [List.append_nil]) (by rwa [List.append_nil])
    rw [hfield] at hblamed
    exact .inr hblamed

/-- The array of the outer struct fails too, but only because of what is inside. -/
example : (resolve { pointerWidth := 8, structs := [
      { name := "Cell", fields := [⟨"value", .primitive (.integral .i64) "long"⟩, ⟨"rest", .void⟩] },
      { name := "Grid", fields := [⟨"name", .pointer .void true⟩, ⟨"cells", .array (.named "Cell") 2⟩] }] }
      "Grid").1 =
    .error (.inField "Cell" "rest" .void (.unsized .void)) := by
  cbv

end Resolver

end HostBinding
