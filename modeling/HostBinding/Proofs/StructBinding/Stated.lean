import HostBinding.Proofs.Session.Coherence
import HostBinding.Proofs.StructBinding.Comments
import HostBinding.Proofs.StructBinding.HostLayout

/-!
# What the texts of a struct state

Two compilers read what is written for a struct. The host compiler reads a type, with its attribute and its members,
and behind it what is asserted about its size, its alignment and its members. The native compiler reads what is asserted
about the native struct. The lines that they read are written down here once more, each with the names and the number in
it and without the functions that write them, so that a theorem about numbers can be one about texts.
-/

namespace HostBinding

open StructBinding Text

def StructLayout.offsets (layout : StructLayout) : List (String × Nat) :=
  layout.fields.map fun field => (field.name, field.offset)

namespace StructBinding

def structLines (repr hostName : String) (members : List String) : List String :=
  [repr, "#[derive(Clone, Copy, Debug)]", "pub struct " ++ hostName ++ " \x7b"] ++ members ++ ["\x7d"]

/-- What the host compiler is made to check. -/
def hostAssertionLines (hostName : String) (extent : Extent) (offsets : List (String × Nat)) : List String :=
  ["const _: () = \x7b",
    "    assert!(core::mem::size_of::<" ++ hostName ++ ">() == " ++ toString extent.size ++ ");",
    "    assert!(core::mem::align_of::<" ++ hostName ++ ">() == " ++ toString extent.alignment ++ ");"] ++
  (offsets.map fun member =>
    "    assert!(core::mem::offset_of!(" ++ hostName ++ ", " ++ member.1 ++ ") == " ++ toString member.2 ++ ");") ++
  ["\x7d;"]

/-- What the native compiler is made to check. -/
def nativeAssertionLines (nativeName : String) (extent : Extent) (offsets : List (String × Nat)) : List String :=
  ["static_assert(sizeof(" ++ nativeName ++ ") == " ++ toString extent.size ++ ", \"" ++ nativeName ++
      ": size differs from the generated proxy\");",
    "static_assert(alignof(" ++ nativeName ++ ") == " ++ toString extent.alignment ++ ", \"" ++ nativeName ++
      ": alignment differs from the generated proxy\");"] ++
  offsets.map fun field =>
    "static_assert(offsetof(" ++ nativeName ++ ", " ++ field.1 ++ ") == " ++ toString field.2 ++ ", \"" ++ nativeName ++
      "::" ++ field.1 ++ ": offset differs from the generated proxy\");"

/-- The head of what belongs to a proxy, with the table of its offsets. -/
def offsetTableLines (hostName : String) (offsets : List (String × Nat)) : List String :=
  ["impl " ++ hostName ++ " \x7b",
    "    /// Native field offsets, in declaration order.",
    "    pub const FIELD_OFFSETS: [(&'static str, usize); " ++ toString offsets.length ++ "] = [" ++
      ", ".intercalate (offsets.map fun field => "(\"" ++ field.1 ++ "\", " ++ toString field.2 ++ ")") ++ "];"]

namespace ProxyBody

def fields : ProxyBody → List ProxyField
  | .bytes => []
  | .fieldwise fields => fields

/-- The type of a proxy. Only a block of bytes has its size and alignment in the text. -/
def typeLines (hostName : String) (extent : Extent) : ProxyBody → List String
  | .bytes => structLines ("#[repr(C, align(" ++ toString extent.alignment ++ "))]") hostName
      ["    bytes: [u8; " ++ toString extent.size ++ "],"]
  | .fieldwise [] => structLines "#[repr(C)]" hostName ["    _reserved: u8,"]
  | .fieldwise fields => structLines "#[repr(C)]" hostName
      (fields.map fun field => "    pub " ++ field.ident ++ ": " ++ field.type.spell ++ ",")

theorem typeLines_bytes (hostName : String) (extent : Extent) :
    bytes.typeLines hostName extent = structLines ("#[repr(C, align(" ++ toString extent.alignment ++ "))]") hostName
      ["    bytes: " ++ ("[u8; " ++ toString extent.size ++ "]") ++ ","] := by
  have hline : "    bytes: [u8; " ++ toString extent.size ++ "]," =
      "    bytes: " ++ ("[u8; " ++ toString extent.size ++ "]") ++ "," :=
    String.toList_injective (by simp)
  rw [typeLines, hline]

theorem typeLines_fieldwise (hostName : String) (extent : Extent) (fields : List ProxyField) :
    (fieldwise fields).typeLines hostName extent = structLines "#[repr(C)]" hostName
      (if fields.isEmpty then ["    _reserved: u8,"] else fields.map ProxyText.memberLine) := by
  have hline : ∀ field : ProxyField,
      "    pub " ++ field.ident ++ ": " ++ field.type.spell ++ "," = ProxyText.memberLine field := by
    intro field
    simp only [ProxyText.memberLine, ProxyText.typed, String.append_assoc]
  cases fields with
  | nil => rfl
  | cons field rest =>
    rw [typeLines, funext hline]
    · rfl
    · simp

end ProxyBody

/-- The text of a proxy, from its documentation to the assertions at its end, states an extent and the offsets of the
members of its body. -/
def StatedByHost (text : String) (p : ProxyText) (body : ProxyBody) (extent : Extent) (offsets : List Nat) : Prop :=
  ∃ items, text = unlines ((p.opening body :: commentLines p.comment) ++ body.typeLines p.hostName extent ++
      [""] ++ items ++ [""] ++ hostAssertionLines p.hostName extent ((body.fields.map (·.ident)).zip offsets)) ∧
    ∀ fields, body = .fieldwise fields →
      offsetTableLines p.hostName ((fields.map (·.nativeName)).zip offsets) <+: items

namespace ProxyText

theorem assertions_eq (p : ProxyText) (fields : List ProxyField) :
    p.assertions fields = hostAssertionLines p.hostName p.layout.toExtent
      ((fields.map (·.ident)).zip (fields.map (·.offset))) := by
  rw [assertions, hostAssertionLines, List.zip_map', List.map_map]
  rfl

/-- The text of a proxy states the numbers that it is written from. -/
theorem statedByHost_write (p : ProxyText) (body : ProxyBody) :
    StatedByHost (p.write body) p body p.layout.toExtent (body.fields.map (·.offset)) := by
  cases body with
  | bytes =>
    let block := "[u8; " ++ toString p.layout.size ++ "]"
    refine ⟨["impl " ++ p.hostName ++ " \x7b", "    pub const fn from_bytes(bytes: " ++ block ++ ") -> Self \x7b",
      "        Self \x7b bytes \x7d", "    \x7d", "", "    pub const fn to_bytes(self) -> " ++ block ++ " \x7b",
      "        self.bytes", "    \x7d", "\x7d"], ?lines, fun fields h => by cases h⟩
    case lines =>
      rw [← docs_title, ProxyBody.typeLines_bytes, ProxyBody.fields, ← p.assertions_eq []]
      simp only [write, bytes, structLines, List.append_assoc, List.cons_append, List.nil_append]
      rfl
  | fieldwise fields =>
    let values := if fields.isEmpty then "_reserved: 0" else ", ".intercalate (fields.map (·.ident))
    refine ⟨offsetTableLines p.hostName ((fields.map (·.nativeName)).zip (fields.map (·.offset))) ++
      ["", "    pub const fn new(" ++ ", ".intercalate (fields.map typed) ++ ") -> Self \x7b",
        "        Self \x7b " ++ values ++ " \x7d", "    \x7d", "\x7d"], ?lines, ?table⟩
    case lines =>
      rw [← docs_title, ProxyBody.typeLines_fieldwise, ProxyBody.fields, ← p.assertions_eq fields, offsetTableLines,
        List.zip_map', List.map_map, List.length_map]
      simp only [write, fieldwise, structLines, List.append_assoc, List.cons_append, List.nil_append]
      rfl
    case table =>
      rintro _ ⟨⟩
      exact List.prefix_append _ _

end ProxyText

theorem nativeAssertions_eq (nativeName : String) (layout : StructLayout) :
    nativeAssertions nativeName layout = unlines (nativeAssertionLines nativeName layout.toExtent layout.offsets) := by
  simp only [nativeAssertions, nativeAssertionLines, StructLayout.offsets, List.map_map]
  refine congrArg unlines (congrArg₂ _ ?extent ?offsets)
  case extent =>
    simp only [List.cons.injEq, and_true]
    exact ⟨String.toList_injective (by simp), String.toList_injective (by simp)⟩
  case offsets =>
    refine List.map_congr_left fun field _ => String.toList_injective ?_
    simp

/-- Offsets say nothing about a body without fields, since no name stands before them. -/
theorem zip_offsets {body : ProxyBody} {offsets : List Nat}
    (h : ∀ fields, body = .fieldwise fields → fields ≠ [] → offsets = fields.map (·.offset))
    (name : ProxyField → String) :
    (body.fields.map name).zip offsets = (body.fields.map name).zip (body.fields.map (·.offset)) := by
  cases body with
  | bytes => rfl
  | fieldwise fields =>
    by_cases hempty : fields = []
    · rw [hempty]
      rfl
    · rw [h fields rfl hempty, ProxyBody.fields]

theorem StatedByHost.congr {text : String} {p : ProxyText} {body : ProxyBody} {extent : Extent} {offsets : List Nat}
    (hstated : StatedByHost text p body extent (body.fields.map (·.offset)))
    (h : ∀ fields, body = .fieldwise fields → fields ≠ [] → offsets = fields.map (·.offset)) :
    StatedByHost text p body extent offsets := by
  obtain ⟨items, htext, htable⟩ := hstated
  refine ⟨items, ?_, ?_⟩
  · rw [zip_offsets h, htext]
  · rintro fields rfl
    exact (zip_offsets h (·.nativeName)).symm ▸ htable fields rfl

end StructBinding

namespace Session

/-- What a session stores for a struct states an extent and offsets: the binding those of the members, the shim those of
the native fields. -/
structure StatesLayout (s : Session) (key : DeclKey) (p : ProxyText) (body : ProxyBody) (extent : Extent)
    (offsets : List Nat) (native : List (String × Nat)) : Prop where
  binding : ∃ text, s.fragments.get? ⟨.structBinding, p.hostName⟩ = some ⟨key, text⟩ ∧
    StatedByHost text p body extent offsets
  shim : s.fragments.get? ⟨.shim, "static_assert " ++ p.nativeName⟩ =
    some ⟨key, unlines (nativeAssertionLines p.nativeName extent native)⟩

theorem StatesLayout.congr {s : Session} {key : DeclKey} {p : ProxyText} {body : ProxyBody} {extent : Extent}
    {offsets : List Nat} {native : List (String × Nat)}
    (hstates : s.StatesLayout key p body extent (body.fields.map (·.offset)) native)
    (h : ∀ fields, body = .fieldwise fields → fields ≠ [] → offsets = fields.map (·.offset)) :
    s.StatesLayout key p body extent offsets native := by
  obtain ⟨⟨text, hbinding, hstated⟩, hshim⟩ := hstates
  exact ⟨⟨text, hbinding, hstated.congr h⟩, hshim⟩

theorem Holds.statesLayout {s : Session} {key : DeclKey} {decl : StructDecl} {entry : TypeMapping}
    {layout : StructLayout} {body : ProxyBody} (h : s.Holds key (StructBatch.written decl entry layout body)) :
    s.StatesLayout key (StructBatch.describe decl entry layout) body layout.toExtent (body.fields.map (·.offset))
      layout.offsets := by
  have hbinding : { kind := .structBinding, name := _, text := (StructBatch.describe decl entry layout).write body } ∈
      (StructBatch.written decl entry layout body).fragments := List.mem_append_right _ List.mem_cons_self
  have hshim : { kind := .shim, name := "static_assert " ++ decl.name, text := nativeAssertions decl.name layout } ∈
      (StructBatch.written decl entry layout body).fragments :=
    List.mem_append_right _ (List.mem_cons_of_mem _ List.mem_cons_self)
  have hstored := h.owned _ hshim (by simp)
  rw [nativeAssertions_eq] at hstored
  exact ⟨⟨_, h.owned _ hbinding (by simp), ProxyText.statedByHost_write _ body⟩, hstored⟩

end Session

/-- When what is written is faithful, the stored texts state the layout of the emitted type. -/
theorem StructBinding.Faithful.statesLayout {proxyExtent? : String → Option Extent} {s : Session} {key : DeclKey}
    {p : ProxyText} {body : ProxyBody} {host : HostLayout} {native : List (String × Nat)}
    (h : Faithful proxyExtent? p body) (hhost : p.hostLayout? proxyExtent? body = some host)
    (hstates : s.StatesLayout key p body p.layout.toExtent (body.fields.map (·.offset)) native) :
    s.StatesLayout key p body host.toExtent host.offsets native ∧
    ∀ fields, body = .fieldwise fields → p.layout.offsets = (fields.map (·.nativeName)).zip host.offsets := by
  have hextent := h.extent
  have hoffsets := h.offsets
  rw [hhost, Option.map_some, Option.some.injEq] at hextent
  simp only [hhost, Option.map_some, Option.some.injEq] at hoffsets
  refine ⟨hextent ▸ hstates.congr hoffsets, ?_⟩
  rintro fields rfl
  have hpairs := zip_offsets hoffsets (·.nativeName)
  rw [ProxyBody.fields] at hpairs
  rw [hpairs, List.zip_map', StructLayout.offsets, h.native fields rfl]

end HostBinding
