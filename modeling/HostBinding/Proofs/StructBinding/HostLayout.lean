import HostBinding.Proofs.Prelude
import HostBinding.StructBinding.Render

/-!
# How the host lays out what is emitted

The host compiler does not see the layouts that a proxy states, only the emitted type, and lays it out by its
own rule: members in order, each at the next offset that its alignment divides, the whole padded to its
largest alignment. This rule is written down here on its own, without the layouts of native structs, so that
what is stated about a proxy can be compared with it.
-/

namespace HostBinding

open StructBinding

/-- The least multiple of an alignment that is not below an offset, by the padding that it takes. -/
def padTo (offset alignment : Nat) : Nat :=
  offset + (alignment - offset % alignment) % alignment

structure HostLayout extends Extent where
  offsets : List Nat
deriving DecidableEq

/-- Places members after an offset: where the last one ends, the largest alignment, and the offsets. -/
def placeMembers (stop alignment : Nat) : List Extent → Nat × Nat × List Nat
  | [] => (stop, alignment, [])
  | member :: rest =>
    let offset := padTo stop member.alignment
    let (stop, alignment, offsets) :=
      placeMembers (offset + member.size) (max alignment member.alignment) rest
    (stop, alignment, offset :: offsets)

/-- The layout of a host type that is laid out like a C struct and aligned to at least `alignment`. -/
def reprC (alignment : Nat) (members : List Extent) : HostLayout :=
  let (stop, alignment, offsets) := placeMembers 0 alignment members
  { size := padTo stop alignment, alignment := alignment, offsets := offsets }

/-- Sizes of the primitives of the host language by name; each is its own alignment. -/
def hostPrimitives : List (String × Nat) :=
  [("bool", 1), ("u8", 1), ("i8", 1), ("u16", 2), ("i16", 2), ("u32", 4), ("i32", 4), ("u64", 8),
    ("i64", 8), ("f32", 4), ("f64", 8)]

def Extent.array (element : Extent) (length : Nat) : Extent :=
  ⟨element.size * length, element.alignment⟩

/-- The extent of a host type on a target with 64-bit pointers, given those of proxies. Nothing is stored
in the erased type. -/
def HostType.extent? (proxyExtent? : String → Option Extent) : HostType → Option Extent
  | .primitive kind => (hostPrimitives.lookup kind.hostName).map fun size => ⟨size, size⟩
  | .proxy name => proxyExtent? name
  | .erased => none
  | .pointer _ _ => some ⟨8, 8⟩
  | .array element length => (element.extent? proxyExtent?).map (·.array length.toNat)

namespace StructBinding

/-- The extents of the members of an emitted type and the alignment that the type asks for. -/
def ProxyText.members? (p : ProxyText) (proxyExtent? : String → Option Extent) :
    ProxyBody → Option (Nat × List Extent)
  | .bytes => some (p.layout.alignment, [(⟨1, 1⟩ : Extent).array p.layout.size])
  | .fieldwise [] => some (1, [⟨1, 1⟩])
  | .fieldwise fields => (fields.mapM fun field : ProxyField => field.type.extent? proxyExtent?).map (1, ·)

def ProxyText.hostLayout? (p : ProxyText) (proxyExtent? : String → Option Extent) (body : ProxyBody) :
    Option HostLayout :=
  (p.members? proxyExtent? body).map fun members => reprC members.1 members.2

/-- The numbers that are stated on both sides are those of the emitted type. -/
structure Faithful (proxyExtent? : String → Option Extent) (p : ProxyText) (body : ProxyBody) : Prop where
  extent : (p.hostLayout? proxyExtent? body).map (·.toExtent) = some p.layout.toExtent
  offsets : ∀ fields, body = .fieldwise fields → fields ≠ [] →
    (p.hostLayout? proxyExtent? body).map (·.offsets) = some (fields.map (·.offset))
  native : ∀ fields, body = .fieldwise fields →
    (p.layout.fields.map fun field => (field.name, field.offset)) =
      fields.map fun field => (field.nativeName, field.offset)

end StructBinding

/-! ### Padding -/

theorem padTo_eq_alignUp (offset alignment : Nat) : padTo offset alignment = alignUp offset alignment := by
  rw [padTo, alignUp]
  split
  · rename_i hsmall
    have hcases : alignment = 0 ∨ alignment = 1 := by omega
    rcases hcases with rfl | rfl <;> simp [Nat.mod_one]
  · rename_i hlarge
    have hpositive : 0 < alignment := by omega
    have hrest := Nat.mod_lt offset hpositive
    have hdiv := Nat.div_add_mod offset alignment
    generalize offset / alignment = quotient at hdiv
    generalize offset % alignment = rest at hrest hdiv ⊢
    subst hdiv
    have hregroup : alignment * quotient + rest + alignment - 1 =
        alignment * quotient + (rest + alignment - 1) := by omega
    rw [hregroup, Nat.mul_add_div hpositive, Nat.add_mul, Nat.mul_comm quotient]
    by_cases hzero : rest = 0
    · subst hzero
      rw [Nat.sub_zero, Nat.mod_self, Nat.div_eq_of_lt (by omega)]
      omega
    · have hone : (rest + alignment - 1) / alignment = 1 := by
        apply Nat.div_eq_of_lt_le <;> omega
      rw [hone, Nat.mod_eq_of_lt (by omega)]
      omega

theorem padTo_one (offset : Nat) : padTo offset 1 = offset := by
  simp [padTo, Nat.mod_one]

theorem padTo_eq_self {offset alignment : Nat} (h : alignment ∣ offset) :
    padTo offset alignment = offset := by
  rw [padTo, Nat.mod_eq_zero_of_dvd h, Nat.sub_zero, Nat.mod_self, Nat.add_zero]

theorem dvd_padTo (offset : Nat) {alignment : Nat} (h : 0 < alignment) :
    alignment ∣ padTo offset alignment := by
  rw [padTo_eq_alignUp, alignUp]
  split
  · have hone : alignment = 1 := by omega
    exact hone ▸ Nat.one_dvd offset
  · exact Nat.dvd_mul_left alignment _

theorem le_placeMembers_alignment (stop alignment : Nat) (members : List Extent) :
    alignment ≤ (placeMembers stop alignment members).2.1 := by
  induction members generalizing stop alignment with
  | nil => exact Nat.le_refl _
  | cons member rest ih => exact Nat.le_trans (Nat.le_max_left _ _) (ih _ _)

theorem reprC_dvd {alignment : Nat} (h : 0 < alignment) (members : List Extent) :
    0 < (reprC alignment members).alignment ∧
      (reprC alignment members).alignment ∣ (reprC alignment members).size := by
  have hpositive := Nat.lt_of_lt_of_le h (le_placeMembers_alignment 0 alignment members)
  exact ⟨hpositive, dvd_padTo _ hpositive⟩

theorem reprC_bytes {extent : Extent} (hpositive : 0 < extent.alignment)
    (hdvd : extent.alignment ∣ extent.size) :
    (reprC extent.alignment [(⟨1, 1⟩ : Extent).array extent.size]).toExtent = extent := by
  have halignment : max extent.alignment 1 = extent.alignment := by omega
  simp [reprC, placeMembers, Extent.array, padTo_one, halignment, padTo_eq_self hdvd]

/-! ### Host types -/

theorem lookup_hostPrimitives (kind : Primitive) : hostPrimitives.lookup kind.hostName = some kind.size := by
  cases kind with
  | bool => decide
  | integral kind => cases kind <;> decide
  | floating kind => cases kind <;> decide

theorem HostType.extent?_mono {f g : String → Option Extent}
    (hmore : ∀ name extent, f name = some extent → g name = some extent) {type : HostType} {extent : Extent}
    (h : type.extent? f = some extent) : type.extent? g = some extent := by
  induction type generalizing extent with
  | primitive => exact h
  | proxy name => exact hmore name extent h
  | erased => exact h
  | pointer => exact h
  | array element length ih =>
    obtain ⟨inner, hinner, rfl⟩ := Option.map_eq_some_iff.mp h
    rw [HostType.extent?, ih hinner]
    rfl

namespace StructBinding

theorem hostLayout?_mono {f g : String → Option Extent}
    (hmore : ∀ name extent, f name = some extent → g name = some extent) {p : ProxyText} {body : ProxyBody}
    {layout : HostLayout} (h : p.hostLayout? f body = some layout) : p.hostLayout? g body = some layout := by
  match body with
  | .bytes => exact h
  | .fieldwise [] => exact h
  | .fieldwise (field :: rest) =>
    obtain ⟨members, hmembers, rfl⟩ := Option.map_eq_some_iff.mp h
    obtain ⟨extents, hextents, rfl⟩ := Option.map_eq_some_iff.mp hmembers
    have hsame : (field :: rest).mapM (fun field : ProxyField => field.type.extent? g) = some extents :=
      mapM_eq_some_iff.mpr ((mapM_eq_some_iff.mp hextents).imp fun _ _ => HostType.extent?_mono hmore)
    simp only [ProxyText.hostLayout?, ProxyText.members?, hsame, Option.map_some]

theorem Faithful.mono {f g : String → Option Extent}
    (hmore : ∀ name extent, f name = some extent → g name = some extent) {p : ProxyText} {body : ProxyBody}
    (h : Faithful f p body) : Faithful g p body := by
  obtain ⟨layout, hlayout, -⟩ := Option.map_eq_some_iff.mp h.extent
  have hsame : p.hostLayout? g body = p.hostLayout? f body := by
    rw [hlayout, hostLayout?_mono hmore hlayout]
  exact { extent := hsame ▸ h.extent, offsets := hsame ▸ h.offsets, native := h.native }

end StructBinding

end HostBinding
