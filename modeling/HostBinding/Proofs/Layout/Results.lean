import Mathlib.Data.List.Induction
import HostBinding.Proofs.Layout.Existence
import HostBinding.Proofs.Layout.Memory

/-!
# What a descent gives

Since what is remembered does not show in answers, the answer of a descent can be written without a memory: the fields
of a struct are placed by what each of their types gives below the struct, in order, until one fails. What a type
gives is that of the struct that it names, also inside arrays. The structs in progress show only in failures, because
what has a layout never needs one of them.
-/

namespace HostBinding

namespace Resolver

/-- The fields have extents, and placed one after the other from the beginning of a struct they fit. -/
structure LaidOut (resultOf : CType → Except LayoutError Extent) (fields : List FieldDecl) (members : List Extent) :
    Prop where
  extents : List.Forall₂ (fun (field : FieldDecl) member => resultOf field.type = .ok member) fields members
  stops : ∀ stop ∈ memberStops 0 members, stop ≤ maxObjectSize

variable {r : Resolver} {inProgress : List String} {name inner structName : String} {type : CType} {extent : Extent}
  {layout : StructLayout} {cause : LayoutError} {decl : StructDecl} {resultOf : CType → Except LayoutError Extent}
  {field : FieldDecl} {fields before after : List FieldDecl} {members : List Extent} {placed : Placement} {stop : Nat}

/-! ### Fields in order -/

/-- The layout of a struct whose first fields have been placed, given what each type gives. -/
def placeResult (resultOf : CType → Except LayoutError Extent) (structName : String) :
    List FieldDecl → Placement → Except LayoutError StructLayout
  | [], placed => placed.close structName
  | field :: rest, placed =>
    match ((resultOf field.type).mapError (blame structName field)).bind (placed.push structName field) with
    | .ok next => placeResult resultOf structName rest next
    | .error cause => .error cause

theorem push_eq_error (hlarge : maxObjectSize < padTo placed.stop extent.alignment + extent.size) :
    placed.push structName field extent =
      .error (.inField structName field.name field.type (.overflow structName)) := by
  rw [padTo_eq_alignUp] at hlarge
  exact if_neg (Nat.not_le.mpr hlarge)

theorem close_eq_error_iff :
    placed.close structName = .error cause ↔
      (¬ ∃ layout, placed.close structName = .ok layout) ∧ cause = .overflow structName := by
  simp only [Placement.close, boundedSize]
  by_cases hempty : placed.fields.isEmpty = true
  · simp [hempty, Except.map]
  · by_cases hbound : alignUp placed.stop placed.alignment ≤ maxObjectSize
    · simp [hempty, hbound, Except.map]
    · simp [hempty, hbound, Except.map, eq_comm]

theorem exists_placeResult_append (structName : String) (placed : Placement)
    (hextents : List.Forall₂ (fun (field : FieldDecl) member => resultOf field.type = .ok member) before members)
    (hstops : ∀ stop ∈ memberStops placed.stop members, stop ≤ maxObjectSize) :
    ∃ next, (∀ rest, placeResult resultOf structName (before ++ rest) placed =
        placeResult resultOf structName rest next) ∧
      (∀ more, memberStops placed.stop (members ++ more) =
        memberStops placed.stop members ++ memberStops next.stop more) ∧
      ∀ extent, Fills placed members extent ↔ Fills next [] extent := by
  induction hextents generalizing placed with
  | nil => exact ⟨placed, fun _ => rfl, fun _ => rfl, fun _ => Iff.rfl⟩
  | @cons field member before members hmember _ ih =>
    obtain ⟨hfirst, hrest⟩ := List.forall_mem_cons.mp hstops
    obtain ⟨next, hpush⟩ := (exists_push_iff structName field).mpr hfirst
    have hstop := (Placement.push_eq_ok hpush).1
    obtain ⟨last, hplace, hmore, hfills⟩ := ih next (hstop ▸ hrest)
    refine ⟨last, fun rest => ?_, fun more => ?_, fun extent => ?_⟩
    · rw [List.cons_append, placeResult, hmember]
      dsimp only [Except.mapError, Except.bind]
      rw [hpush]
      exact hplace rest
    · rw [List.cons_append, memberStops, memberStops, ← hstop, hmore]
      rfl
    · rw [← hfills, fills_cons_iff structName field]
      constructor
      · intro h
        obtain ⟨next', hpush', h⟩ := h
        cases hpush.symm.trans hpush'
        exact h
      · exact fun h => ⟨next, hpush, h⟩

/-- A field without an extent is blamed when those before it are laid out. -/
theorem placeResult_of_error (h : LaidOut resultOf before members) (hfield : resultOf field.type = .error cause) :
    placeResult resultOf structName (before ++ field :: after) {} = .error (blame structName field cause) := by
  obtain ⟨next, hplace, -⟩ := exists_placeResult_append structName {} h.extents h.stops
  rw [hplace, placeResult, hfield]
  rfl

theorem placeResult_of_stop (h : LaidOut resultOf before members) (hfield : resultOf field.type = .ok extent)
    (hstop : stop ∈ memberStops 0 (members ++ [extent])) (hlarge : maxObjectSize < stop) :
    placeResult resultOf structName (before ++ field :: after) {} =
      .error (.inField structName field.name field.type (.overflow structName)) := by
  obtain ⟨next, hplace, hmore, -⟩ := exists_placeResult_append structName {} h.extents h.stops
  have hlast : stop = padTo next.stop extent.alignment + extent.size := by
    rw [hmore, List.mem_append] at hstop
    rcases hstop with hearlier | hlast
    · exact absurd hlarge (Nat.not_lt.mpr (h.stops stop hearlier))
    · exact List.mem_singleton.mp hlast
  rw [hplace, placeResult, hfield]
  dsimp only [Except.mapError, Except.bind]
  rw [push_eq_error (hlast ▸ hlarge)]

/-- When all fields are laid out, only the size of the whole struct can be too large. -/
theorem placeResult_eq_error_iff_of_laidOut (h : LaidOut resultOf fields members) :
    placeResult resultOf structName fields {} = .error cause ↔
      maxObjectSize < (structExtent members).size ∧ cause = .overflow structName := by
  obtain ⟨next, hplace, -, hfills⟩ := exists_placeResult_append structName {} h.extents h.stops
  have hclose : (∃ layout, next.close structName = .ok layout) ↔ (structExtent members).size ≤ maxObjectSize := by
    constructor
    · intro hlayout
      obtain ⟨layout, hlayout⟩ := hlayout
      have hlast := (fills_nil_iff structName).mpr ⟨layout, hlayout, rfl⟩
      obtain ⟨-, hextent, hfits⟩ := fills_empty_iff.mp ((hfills layout.toExtent).mpr hlast)
      exact hextent ▸ hfits
    · intro hfits
      have hlast := (hfills (structExtent members)).mp (fills_empty_iff.mpr ⟨h.stops, rfl, hfits⟩)
      obtain ⟨layout, hlayout, -⟩ := (fills_nil_iff structName).mp hlast
      exact ⟨layout, hlayout⟩
  rw [← List.append_nil fields, hplace, placeResult, close_eq_error_iff, hclose, Nat.not_le]

/-- Either all fields are laid out or there is a first one that is not. -/
theorem laidOut_or_exists_first (resultOf : CType → Except LayoutError Extent) (fields : List FieldDecl) :
    (∃ members, LaidOut resultOf fields members) ∨
    ∃ before field after members, fields = before ++ field :: after ∧ LaidOut resultOf before members ∧
      ((∃ cause, resultOf field.type = .error cause) ∨ ∃ extent stop, resultOf field.type = .ok extent ∧
        stop ∈ memberStops 0 (members ++ [extent]) ∧ maxObjectSize < stop) := by
  induction fields using List.reverseRecOn with
  | nil => exact .inl ⟨[], .nil, List.forall_mem_nil _⟩
  | append_singleton fields field ih =>
    rcases ih with ⟨members, h⟩ | ⟨before, first, after, members, rfl, hfirst⟩
    · cases hfield : resultOf field.type with
      | error cause => exact .inr ⟨fields, field, [], members, rfl, h, .inl ⟨cause, hfield⟩⟩
      | ok extent =>
        by_cases hstops : ∀ stop ∈ memberStops 0 (members ++ [extent]), stop ≤ maxObjectSize
        · exact .inl ⟨members ++ [extent], List.rel_append h.extents (.cons hfield .nil), hstops⟩
        · simp only [not_forall, Nat.not_le] at hstops
          obtain ⟨stop, hstop, hlarge⟩ := hstops
          exact .inr ⟨fields, field, [], members, rfl, h, .inr ⟨extent, stop, hfield, hstop, hlarge⟩⟩
    · exact .inr ⟨before, first, after ++ [field], members, List.append_assoc _ _ _, hfirst⟩

/-! ### Answers within a descent -/

/-- What a descent into a struct gives while others are in progress. -/
def layoutResult (r : Resolver) (inProgress : List String) (name : String) : Except LayoutError StructLayout :=
  ((r.layoutWithin inProgress name).run.run r.memo).1

def extentResult (r : Resolver) (inProgress : List String) (type : CType) : Except LayoutError Extent :=
  ((typeExtent r.pointerWidth (namedExtent r.known (r.layoutWithin inProgress)) type).run.run r.memo).1

theorem extentResult_array (element : CType) (length : UInt64) :
    r.extentResult inProgress (.array element length) =
      arrayResult element length (r.extentResult inProgress element) :=
  congrArg Prod.fst run_typeExtent_array

theorem extentResult_known (hknown : r.known.get? name = some extent) :
    r.extentResult inProgress (.named name) = .ok extent := by
  rw [extentResult, typeExtent, namedExtent, hknown]
  rfl

theorem extentResult_unknown (hunknown : r.known.get? name = none) :
    r.extentResult inProgress (.named name) = (r.layoutResult inProgress name).map (·.toExtent) :=
  congrArg Prod.fst (run_namedExtent_of_unknown hunknown)

/-- The structs in progress do not show in the layouts that are found inside them. -/
theorem layoutResult_eq_ok_iff (hmemo : r.Remembers r.memo) (haround : r.Around inProgress name) :
    r.layoutResult inProgress name = .ok layout ↔ r.LaysOut name layout := by
  constructor
  · exact fun h => (laysOut_of_runs hmemo (Prod.ext h rfl)).2
  · intro h
    obtain ⟨memo, hruns, -⟩ := runs_of_laysOut haround hmemo h
    exact congrArg Prod.fst hruns

theorem extentResult_eq_ok_iff (hmemo : r.Remembers r.memo)
    (hinside : ∀ inner, type.element = .named inner → r.known.get? inner = none → r.Around inProgress inner) :
    r.extentResult inProgress type = .ok extent ↔ (r.extent type).1 = .ok extent := by
  change _ ↔ r.extentResult [] type = .ok extent
  induction type generalizing extent with
  | array element length ih =>
    rw [extentResult_array, extentResult_array]
    exact bind_eq_ok_iff.trans ((exists_congr fun inner => and_congr_left' (ih hinside)).trans bind_eq_ok_iff.symm)
  | named name =>
    cases hknown : r.known.get? name with
    | some held => rw [extentResult_known hknown, extentResult_known hknown]
    | none =>
      rw [extentResult_unknown hknown, extentResult_unknown hknown, map_eq_ok_iff, map_eq_ok_iff]
      exact exists_congr fun layout => and_congr_left' ((layoutResult_eq_ok_iff hmemo (hinside name rfl hknown)).trans
        (layoutResult_eq_ok_iff hmemo (around_nil r name)).symm)
  | _ => exact Iff.rfl

theorem fst_run_placeFields {extentOf : CType → Memoized Extent} {memo start : Table String StructLayout}
    (hextentOf : ∀ field ∈ fields, r.AnswersAlike (extentOf field.type))
    (hkeeps : ∀ type, r.KeepsRight (extentOf type)) (hmemo : r.Remembers memo) (hstart : r.Remembers start) :
    ((placeFields extentOf structName fields placed).run.run memo).1 =
      placeResult (fun type => ((extentOf type).run.run start).1) structName fields placed := by
  induction fields generalizing memo placed with
  | nil => rw [run_placeFields_nil, placeResult]
  | cons field rest ih =>
    obtain ⟨hfirst, hrest⟩ := List.forall_mem_cons.mp hextentOf
    have hanswer := hfirst memo start hmemo hstart
    have hfound := hkeeps field.type memo hmemo
    obtain ⟨⟨result, found⟩, hrun⟩ : ∃ outcome, (extentOf field.type).run.run memo = outcome := ⟨_, rfl⟩
    rw [hrun] at hanswer hfound
    rw [run_placeFields_cons, placeResult, hrun, ← hanswer]
    dsimp only
    cases (result.mapError (blame structName field)).bind (placed.push structName field) with
    | ok next => exact ih hrest hfound
    | error cause => rfl

/-- What a descent into a struct gives, by what its types give below it. -/
theorem layoutResult_eq (hmemo : r.Remembers r.memo) (haround : r.Around inProgress name) :
    r.layoutResult inProgress name =
      if name ∈ inProgress then .error (.recursive name)
      else match r.declared? name with
        | none => .error (.unknownType name)
        | some decl => placeResult (r.extentResult (name :: inProgress)) decl.name decl.fields {} := by
  have hempty := remembers_empty r
  rw [layoutResult, answersAlike_layoutWithin haround r.memo ∅ hmemo hempty,
    run_layoutWithin_of_absent (Table.get?_empty name)]
  split
  · rfl
  · cases hdecl : r.declared? name with
    | none => rfl
    | some decl =>
      have hkeeps := keepsRight_layoutWithin r (name :: inProgress)
      refine fst_run_placeFields (fun field hfield => ?_) (keepsRight_typeExtent (keepsRight_namedExtent hkeeps))
        hempty hmemo
      refine answersAlike_typeExtent (fun inner hinner => ?_) (keepsRight_namedExtent hkeeps)
      refine answersAlike_namedExtent (fun hunknown => ?_) hkeeps
      exact answersAlike_layoutWithin (haround.inside ⟨hunknown, decl, hdecl, field, hfield, hinner⟩)

theorem arrayResult_eq_error_iff {element : CType} {length : UInt64} :
    arrayResult element length (.ok extent) = .error cause ↔
      maxObjectSize < extent.size * length.toNat ∧ cause = .overflow (CType.array element length).spell := by
  rw [arrayResult, Except.bind]
  by_cases hbound : extent.size * length.toNat ≤ maxObjectSize
  · rw [boundedSize, if_pos hbound]
    constructor
    · intro h
      cases h
    · exact fun hparts => absurd hparts.1 (Nat.not_lt.mpr hbound)
  · rw [boundedSize, if_neg hbound, and_iff_right (Nat.not_le.mp hbound)]
    change Except.error _ = Except.error _ ↔ _
    rw [Except.error.injEq, eq_comm]

theorem extentResult_of_unsized (h : type.isVoid = true ∨ type.isReference = true) :
    r.extentResult inProgress type = .error (.unsized type) := by
  cases type with
  | void | reference => rfl
  | _ => rcases h with h | h <;> cases h

theorem extentResult_of_element (h : r.extentResult inProgress type.element = .error cause) :
    r.extentResult inProgress type = .error cause := by
  induction type with
  | array element length ih =>
    rw [extentResult_array, ih h]
    rfl
  | _ => exact h

theorem extentResult_of_mem_arrays {element : CType} {length : UInt64} (harray : .array element length ∈ type.arrays)
    (hextent : r.extentResult inProgress element = .ok extent) (hlarge : maxObjectSize < extent.size * length.toNat) :
    r.extentResult inProgress type = .error (.overflow (CType.array element length).spell) := by
  induction type with
  | array outer outerLength ih =>
    rw [extentResult_array]
    rcases List.mem_cons.mp harray with heq | hinside
    · cases heq
      rw [hextent]
      exact arrayResult_eq_error_iff.mpr ⟨hlarge, rfl⟩
    · rw [ih hinside]
      rfl
  | _ => cases harray

/-- A type fails because of what its arrays are made of, or because one of them is too large. -/
theorem element_or_exists_array (h : r.extentResult inProgress type = .error cause) :
    r.extentResult inProgress type.element = .error cause ∨
      ∃ element length extent, .array element length ∈ type.arrays ∧
        r.extentResult inProgress element = .ok extent ∧ maxObjectSize < extent.size * length.toNat ∧
        cause = .overflow (CType.array element length).spell := by
  induction type with
  | array element length ih =>
    rw [extentResult_array] at h
    cases hinner : r.extentResult inProgress element with
    | error inner =>
      rw [hinner] at h
      cases h
      refine (ih hinner).imp_right fun hparts => ?_
      obtain ⟨element', length', extent, harray, hrest⟩ := hparts
      exact ⟨element', length', extent, List.mem_cons_of_mem _ harray, hrest⟩
    | ok extent =>
      rw [hinner] at h
      obtain ⟨hlarge, hcause⟩ := arrayResult_eq_error_iff.mp h
      exact .inr ⟨element, length, extent, List.mem_cons_self, hinner, hlarge, hcause⟩
  | _ => exact .inl h

/-- What is not an array fails when it cannot be stored, and otherwise with the struct that it names. -/
theorem unsized_or_exists_named (harray : type.isArray = false) (h : r.extentResult inProgress type = .error cause) :
    (type.isVoid = true ∨ type.isReference = true) ∧ cause = .unsized type ∨
      ∃ inner, type = .named inner ∧ r.known.get? inner = none ∧ r.layoutResult inProgress inner = .error cause := by
  cases type with
  | void =>
    cases h
    exact .inl ⟨.inl rfl, rfl⟩
  | reference =>
    cases h
    exact .inl ⟨.inr rfl, rfl⟩
  | primitive | pointer => cases h
  | array => cases harray
  | named inner =>
    cases hknown : r.known.get? inner with
    | some extent =>
      rw [extentResult_known hknown] at h
      cases h
    | none =>
      rw [extentResult_unknown hknown] at h
      refine .inr ⟨inner, rfl, hknown, ?_⟩
      cases hlayout : r.layoutResult inProgress inner with
      | ok layout =>
        rw [hlayout] at h
        cases h
      | error inner =>
        rw [hlayout] at h
        cases h
        rfl

end Resolver

end HostBinding
