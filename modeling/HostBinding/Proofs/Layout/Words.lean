import HostBinding.Proofs.Layout.Rules

/-!
# Layouts in 64-bit words

Layouts are stated in natural numbers. A machine that places fields computes with words and checks each sum and
each product instead of letting it wrap. On a layout that follows the rules no check of this kind fails, and
the words are the numbers. The module ends with what a resolver answers, however often it was asked before.
-/

namespace HostBinding

namespace Word

def checkedAdd? (a b : UInt64) : Option UInt64 :=
  if a.toNat + b.toNat < UInt64.size then some (a + b) else none

def checkedMul? (a b : UInt64) : Option UInt64 :=
  if a.toNat * b.toNat < UInt64.size then some (a * b) else none

def divCeil (a b : UInt64) : UInt64 :=
  if a % b = 0 then a / b else a / b + 1

/-- Rounds an offset up to an alignment. -/
def alignUp? (offset alignment : UInt64) : Option UInt64 :=
  if alignment ≤ 1 then some offset else checkedMul? (divCeil offset alignment) alignment

/-- Places fields of given sizes and alignments: where the last one ends, the largest alignment, and the
offsets. -/
def placeFields? (stop alignment : UInt64) : List (UInt64 × UInt64) → Option (UInt64 × UInt64 × List UInt64)
  | [] => some (stop, alignment, [])
  | (size, own) :: rest => do
    let offset ← alignUp? stop own
    let stop ← checkedAdd? offset size
    if stop.toNat ≤ maxObjectSize then
      let (stop, alignment, offsets) ← placeFields? stop (max alignment own) rest
      some (stop, alignment, offset :: offsets)
    else none

/-- Lays out a struct whose fields have the given sizes and alignments: its size, alignment and offsets. -/
def layOut? (fields : List (UInt64 × UInt64)) : Option (UInt64 × UInt64 × List UInt64) := do
  let (stop, alignment, offsets) ← placeFields? 0 1 fields
  if fields = [] then some (1, alignment, offsets)
  else
    let size ← alignUp? stop alignment
    if size.toNat ≤ maxObjectSize then some (size, alignment, offsets) else none

variable {a b offset alignment : Nat}

/-! ### Words that stand for numbers -/

theorem checkedAdd?_ofNat (h : a + b < UInt64.size) :
    checkedAdd? (UInt64.ofNat a) (UInt64.ofNat b) = some (UInt64.ofNat (a + b)) := by
  have ha : a < UInt64.size := by omega
  have hb : b < UInt64.size := by omega
  rw [checkedAdd?, UInt64.toNat_ofNat_of_lt' ha, UInt64.toNat_ofNat_of_lt' hb, if_pos h, UInt64.ofNat_add]

theorem checkedMul?_ofNat (ha : a < UInt64.size) (hb : b < UInt64.size) (h : a * b < UInt64.size) :
    checkedMul? (UInt64.ofNat a) (UInt64.ofNat b) = some (UInt64.ofNat (a * b)) := by
  rw [checkedMul?, UInt64.toNat_ofNat_of_lt' ha, UInt64.toNat_ofNat_of_lt' hb, if_pos h, UInt64.ofNat_mul]

theorem ofNat_le_iff (ha : a < UInt64.size) (hb : b < UInt64.size) :
    UInt64.ofNat a ≤ UInt64.ofNat b ↔ a ≤ b := by
  rw [UInt64.le_iff_toNat_le, UInt64.toNat_ofNat_of_lt' ha, UInt64.toNat_ofNat_of_lt' hb]

theorem max_ofNat (ha : a < UInt64.size) (hb : b < UInt64.size) :
    max (UInt64.ofNat a) (UInt64.ofNat b) = UInt64.ofNat (max a b) := by
  simp only [UInt64.max_def, ofNat_le_iff ha hb]
  split
  · rename_i hle
    rw [Nat.max_eq_right hle]
  · rename_i hle
    rw [Nat.max_eq_left (by omega)]

theorem add_pred_div (a : Nat) (hb : 0 < b) : (a + b - 1) / b = if a % b = 0 then a / b else a / b + 1 := by
  have hparts := Nat.div_add_mod a b
  have hrest := Nat.mod_lt a hb
  split
  · apply Nat.div_eq_of_lt_le
    · rw [Nat.mul_comm]
      omega
    · rw [Nat.add_mul, Nat.mul_comm]
      omega
  · apply Nat.div_eq_of_lt_le
    · rw [Nat.add_mul, Nat.mul_comm]
      omega
    · rw [Nat.add_mul, Nat.add_mul, Nat.mul_comm]
      omega

theorem divCeil_ofNat (ha : a < UInt64.size) (hb : b < UInt64.size) (hpositive : 0 < b) :
    divCeil (UInt64.ofNat a) (UInt64.ofNat b) = UInt64.ofNat ((a + b - 1) / b) := by
  have hzero : UInt64.ofNat (a % b) = 0 ↔ a % b = 0 := by
    have hrest : a % b < UInt64.size := Nat.lt_trans (Nat.mod_lt a hpositive) hb
    rw [← UInt64.toNat_inj, UInt64.toNat_ofNat_of_lt' hrest]
    exact Iff.rfl
  simp only [divCeil, ← UInt64.ofNat_mod ha hb, ← UInt64.ofNat_div ha hb, hzero, add_pred_div a hpositive]
  split
  · rfl
  · rw [UInt64.ofNat_add]
    rfl

theorem alignUp?_ofNat (hoffset : offset < UInt64.size) (halignment : alignment < UInt64.size)
    (h : alignUp offset alignment < UInt64.size) :
    alignUp? (UInt64.ofNat offset) (UInt64.ofNat alignment) = some (UInt64.ofNat (alignUp offset alignment)) := by
  have hsmall : UInt64.ofNat alignment ≤ 1 ↔ alignment ≤ 1 := ofNat_le_iff halignment (b := 1) (by decide)
  rw [alignUp] at h ⊢
  simp only [alignUp?, hsmall]
  split
  · rfl
  · rename_i hlarge
    rw [if_neg hlarge] at h
    have hpositive : 0 < alignment := by omega
    have hquotient : (offset + alignment - 1) / alignment < UInt64.size :=
      Nat.lt_of_le_of_lt (Nat.le_mul_of_pos_right _ hpositive) h
    rw [divCeil_ofNat hoffset halignment hpositive, checkedMul?_ofNat hquotient halignment h]

/-! ### Layouts that follow the rules -/

variable {start : Nat} {fields : List FieldLayout} {layout : StructLayout}

def ofField (field : FieldLayout) : UInt64 × UInt64 :=
  (UInt64.ofNat field.size, UInt64.ofNat field.alignment)

theorem alignUp?_of_isLeast (hstart : start < UInt64.size) (hpositive : 0 < alignment)
    (halignment : alignment < UInt64.size) (hoffset : offset < UInt64.size)
    (h : IsLeast {aligned | alignment ∣ aligned ∧ start ≤ aligned} offset) :
    alignUp? (UInt64.ofNat start) (UInt64.ofNat alignment) = some (UInt64.ofNat offset) := by
  obtain rfl := h.unique (alignUp_isLeast start hpositive)
  exact alignUp?_ofNat hstart halignment hoffset

theorem lt_size_of_le (h : a ≤ maxObjectSize) : a < UInt64.size :=
  Nat.lt_of_le_of_lt h (by decide)

theorem lastStop_le (hstart : start ≤ maxObjectSize) (hstops : ∀ field ∈ fields, field.stop ≤ maxObjectSize) :
    lastStop start fields ≤ maxObjectSize := by
  induction fields generalizing start with
  | nil => exact hstart
  | cons field rest ih =>
    obtain ⟨hstop, hstops⟩ := List.forall_mem_cons.mp hstops
    exact ih hstop hstops

theorem placeFields?_of_consecutive (hstart : start ≤ maxObjectSize) (halignment : alignment < UInt64.size)
    (h : Consecutive start fields) (htiles : ∀ field ∈ fields, field.Tiles)
    (hstops : ∀ field ∈ fields, field.stop ≤ maxObjectSize) :
    placeFields? (UInt64.ofNat start) (UInt64.ofNat alignment) (fields.map ofField) =
      some (UInt64.ofNat (lastStop start fields), UInt64.ofNat (largestAlignment alignment fields),
        fields.map fun field => UInt64.ofNat field.offset) := by
  induction fields generalizing start alignment with
  | nil => rfl
  | cons field rest ih =>
    obtain ⟨hoffset, hrest⟩ := h
    obtain ⟨hfield, htiles⟩ := List.forall_mem_cons.mp htiles
    obtain ⟨hstop, hstops⟩ := List.forall_mem_cons.mp hstops
    have hplaced : field.offset < UInt64.size :=
      lt_size_of_le (Nat.le_trans (Nat.le_add_right field.offset field.size) hstop)
    have haligned := alignUp?_of_isLeast (lt_size_of_le hstart) hfield.pos hfield.alignmentFits hplaced hoffset
    have hend : checkedAdd? (UInt64.ofNat field.offset) (UInt64.ofNat field.size) =
        some (UInt64.ofNat field.stop) := checkedAdd?_ofNat (lt_size_of_le hstop)
    have hmax := max_ofNat halignment hfield.alignmentFits
    have htail := ih hstop (Nat.max_lt.mpr ⟨halignment, hfield.alignmentFits⟩) hrest htiles hstops
    have hbound : (UInt64.ofNat field.stop).toNat ≤ maxObjectSize := by
      rwa [UInt64.toNat_ofNat_of_lt' (lt_size_of_le hstop)]
    rw [List.map_cons, ofField, placeFields?, haligned]
    simp only [Option.bind_eq_bind, Option.bind_some, hend, if_pos hbound, hmax, htail]
    rfl

/-- Computing with words gives the numbers of a layout that follows the rules. -/
theorem layOut?_of_ruled (h : layout.Ruled) (htiles : ∀ field ∈ layout.fields, field.Tiles) :
    layOut? (layout.fields.map ofField) = some (UInt64.ofNat layout.size, UInt64.ofNat layout.alignment,
      layout.fields.map fun field => UInt64.ofNat field.offset) := by
  have hplace := placeFields?_of_consecutive (Nat.zero_le maxObjectSize) (show 1 < UInt64.size by decide)
    h.offsets htiles h.stops
  rw [← h.alignment] at hplace
  have hsize := h.size
  rw [layOut?]
  change (placeFields? (UInt64.ofNat 0) (UInt64.ofNat 1) _ >>= _) = _
  rw [hplace]
  simp only [Option.bind_eq_bind, Option.bind_some, List.map_eq_nil_iff]
  split at hsize
  · rename_i hempty
    rw [if_pos hempty, hsize]
    rfl
  · rename_i hsome
    have htotal := h.tiles htiles
    have hstop := lastStop_le (Nat.zero_le _) h.stops
    have haligned := alignUp?_of_isLeast (lt_size_of_le hstop) htotal.pos htotal.alignmentFits
      htotal.sizeFits hsize
    have hbound : (UInt64.ofNat layout.size).toNat ≤ maxObjectSize := by
      rw [UInt64.toNat_ofNat_of_lt' htotal.sizeFits]
      exact h.sizeFits
    simp only [if_neg hsome, haligned, Option.bind_some, if_pos hbound]

end Word

namespace Resolver

variable {start r : Resolver} {layout : StructLayout}

/-- Fields of a struct that follows the rules do not overlap, are aligned and stand inside the struct. -/
theorem apart_of_ruled (h : layout.Ruled) :
    layout.fields.Pairwise (fun before after => before.stop ≤ after.offset) ∧
      ∀ field ∈ layout.fields, field.alignment ∣ field.offset ∧ field.stop ≤ layout.size := by
  refine ⟨pairwise_of_consecutive h.offsets, fun field hmem => ?_⟩
  have hsize := h.size
  rw [if_neg (List.ne_nil_of_mem hmem)] at hsize
  exact ⟨dvd_offset_of_consecutive h.offsets hmem, Nat.le_trans (stop_le_lastStop h.offsets hmem) hsize.1.2⟩

/-- **What a resolver answers follows the rules.** From a pointer width and known structs that can stand next to
each other, and after any other questions, a layout lists the declared fields with the extents that the resolver
answers for their types. It is placed by the rules, words compute it without a failed check, and objects of
every type that has an extent can stand next to each other. -/
theorem Asked.answers_ruled (hasked : start.Asked r) (hfresh : start.memo = ∅) (hgrounded : start.Grounded) :
    (∀ name layout, (r.resolve name).1 = .ok layout →
      (layout.name = name ∧ ∃ decl, start.declared? name = some decl ∧
        List.Forall₂ (PlacedAs fun type => (r.extent type).1.toOption) decl.fields layout.fields) ∧
      layout.Ruled ∧ layout.Tiles ∧
      layout.fields.Pairwise (fun before after => before.stop ≤ after.offset) ∧
      (∀ field ∈ layout.fields, field.Tiles ∧ field.alignment ∣ field.offset ∧ field.stop ≤ layout.size) ∧
      Word.layOut? (layout.fields.map Word.ofField) = some (UInt64.ofNat layout.size,
        UInt64.ofNat layout.alignment, layout.fields.map fun field => UInt64.ofNat field.offset)) ∧
    ∀ type extent, (r.extent type).1 = .ok extent →
      extent.Tiles ∧ ∀ index, extent.alignment ∣ index * extent.size := by
  obtain ⟨memo, heq, hmemo⟩ := hasked.exists_memo hfresh
  have hright : r.Remembers r.memo := heq ▸ remembers_withMemo.mpr hmemo
  have hsame : r.Grounded := heq ▸ ⟨hgrounded.pointer, hgrounded.pointerFits, hgrounded.known⟩
  have hdeclared : ∀ name, r.declared? name = start.declared? name := fun _ => heq ▸ rfl
  constructor
  · intro name layout hresolve
    have hlayout := (resolve_fst_eq_ok_iff hright).mp hresolve
    obtain ⟨hruled, decl, depth, hdecl, hplaced⟩ := hlayout.ruled hsame
    have hfields : ∀ field ∈ layout.fields, field.Tiles :=
      forall_mem_of_forall₂ hplaced fun _ _ hfield => tiles_of_extentAt? hsame hfield.extent
    obtain ⟨hapart, haligned⟩ := apart_of_ruled hruled
    have hanswers (decl : FieldDecl) (field : FieldLayout) (h : PlacedAs (r.extentAt? depth) decl field) :
        PlacedAs (fun type => (r.extent type).1.toOption) decl field := by
      have hextent := (extent_fst_eq_ok_iff hright).mpr ⟨depth, h.extent⟩
      exact ⟨h.name, h.nativeType, by rw [hextent]; rfl⟩
    exact ⟨⟨hlayout.name_eq, decl, hdeclared name ▸ hdecl, hplaced.imp hanswers⟩, hruled, hruled.tiles hfields,
      hapart, fun field hmem => ⟨hfields field hmem, haligned field hmem⟩,
      Word.layOut?_of_ruled hruled hfields⟩
  · intro type extent hextent
    obtain ⟨depth, hdepth⟩ := (extent_fst_eq_ok_iff hright).mp hextent
    have htiles := tiles_of_extentAt? hsame hdepth
    exact ⟨htiles, fun index => Nat.dvd_mul_left_of_dvd htiles.size index⟩

namespace Sample

def nested : Resolver where
  pointerWidth := 8
  structs := [
    { name := "Outer"
      fields := [⟨"flag", .ofPrimitive .bool⟩, ⟨"matrix", .named "Matrix"⟩, ⟨"none", .array (.named "Pair") 0⟩,
        ⟨"empty", .named "Empty"⟩, ⟨"pairs", .array (.named "Pair") 2⟩,
        ⟨"next", .pointer (.named "Outer") false⟩] },
    { name := "Pair"
      fields := [⟨"tag", .ofPrimitive .bool⟩, ⟨"value", .ofPrimitive (.floating .f32)⟩] },
    { name := "Empty" }]
  known := (∅ : Table String Extent).insert "Matrix" ⟨64, 16⟩

theorem nested_grounded : nested.Grounded := by
  refine ⟨⟨3, rfl⟩, by decide, fun name extent hknown => ?_⟩
  rw [nested, Table.get?_insert] at hknown
  split at hknown
  · cases hknown
    exact ⟨⟨4, rfl⟩, by decide, by decide, by decide⟩
  · cases hknown

end Sample

theorem Asked.answers_ruled_nested :
    Sample.nested.memo = ∅ ∧ Sample.nested.Grounded ∧
    Sample.nested.Asked (Sample.nested.resolve "Missing").2 ∧
    ∃ layout, ((Sample.nested.resolve "Missing").2.resolve "Outer").1 = .ok layout ∧
      layout.fields.map (·.offset) = [0, 16, 80, 80, 84, 104] ∧ layout.toExtent = ⟨112, 16⟩ ∧
      layout.Ruled ∧ layout.Tiles := by
  have hasked : Sample.nested.Asked (Sample.nested.resolve "Missing").2 := .resolve .nothing "Missing"
  obtain ⟨memo, hmemo, hright⟩ := hasked.exists_memo rfl
  obtain ⟨layout, hlayout, hoffsets, hextent⟩ : ∃ layout, Sample.nested.layoutAt? 3 "Outer" = some layout ∧
      layout.fields.map (·.offset) = [0, 16, 80, 80, 84, 104] ∧ layout.toExtent = ⟨112, 16⟩ := by
    refine ⟨_, rfl, ?_, ?_⟩ <;> decide +kernel
  have hresolve : ((Sample.nested.resolve "Missing").2.resolve "Outer").1 = .ok layout := by
    rw [hmemo]
    exact (resolve_fst_eq_ok_iff (remembers_withMemo.mpr hright)).mpr (laysOut_withMemo.mpr ⟨3, hlayout⟩)
  have hruled := (hasked.answers_ruled rfl Sample.nested_grounded).1 "Outer" layout hresolve
  exact ⟨rfl, Sample.nested_grounded, hasked, layout, hresolve, hoffsets, hextent, hruled.2.1, hruled.2.2.1⟩

end Resolver

end HostBinding
