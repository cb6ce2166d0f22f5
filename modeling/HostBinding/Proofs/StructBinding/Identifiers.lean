import HostBinding.Proofs.Session.Transparency
import HostBinding.Proofs.StructBinding.Stated
import HostBinding.Proofs.Text.NativeNames

/-!
# The names in a generated struct

The members of a proxy are the native fields, each escaped without a look at the others, and the proxy is called like
the native struct with its scopes flattened. Every member gets a name of the host language. Two members get the same
one when a field is called like what another is escaped to, and the name of the struct is not escaped at all.
-/

namespace HostBinding

open Text

namespace Text

def nativeKeywords : List String :=
  ["alignas", "alignof", "and", "and_eq", "asm", "auto", "bitand", "bitor", "bool", "break", "case", "catch", "char",
    "char8_t", "char16_t", "char32_t", "class", "compl", "concept", "const", "consteval", "constexpr", "constinit",
    "const_cast", "continue", "co_await", "co_return", "co_yield", "decltype", "default", "delete", "do", "double",
    "dynamic_cast", "else", "enum", "explicit", "export", "extern", "false", "float", "for", "friend", "goto", "if",
    "inline", "int", "long", "mutable", "namespace", "new", "noexcept", "not", "not_eq", "nullptr", "operator", "or",
    "or_eq", "private", "protected", "public", "register", "reinterpret_cast", "requires", "return", "short",
    "signed", "sizeof", "static", "static_assert", "static_cast", "struct", "switch", "template", "this",
    "thread_local", "throw", "true", "try", "typedef", "typeid", "typename", "union", "unsigned", "using", "virtual",
    "void", "volatile", "wchar_t", "while", "xor", "xor_eq"]

/-- A name that native code can give to something. -/
def IsNativeName (name : String) : Prop :=
  isIdentifier name.toList = true ∧ name ∉ nativeKeywords
deriving Decidable

end Text

namespace StructBinding

variable {fields : List ProxyField}

/-- The members that a fieldwise proxy declares. A struct without fields gets one byte. -/
def memberNames (fields : List ProxyField) : List String :=
  if fields.isEmpty then ["_reserved"] else fields.map (·.ident)

/-- The line declares a member of this name, with a type and nothing else behind it. -/
def DeclaresMember (name line : String) : Prop :=
  ∃ visibility ∈ ["", "pub "], ∃ type, Within isTypeChar type ∧ line = "    " ++ visibility ++ name ++ ": " ++ type ++ ","

/-- The text declares a struct of this name that has members of these names and no others. -/
def Declares (text hostName : String) (members : List String) : Prop :=
  ∃ before lines after, text = unlines (before ++ structLines "#[repr(C)]" hostName lines ++ after) ∧
    List.Forall₂ DeclaresMember members lines

theorem declaresMember_memberLine {field : ProxyField} (hreadable : field.Readable) :
    DeclaresMember field.ident (ProxyText.memberLine field) := by
  refine ⟨"pub ", by simp, field.type.spell, hreadable.2, String.toList_injective ?_⟩
  simp [ProxyText.memberLine, ProxyText.typed]

theorem declares_write (p : ProxyText) (hreadable : ∀ field ∈ fields, field.Readable) :
    Declares (p.write (.fieldwise fields)) p.hostName (memberNames fields) := by
  obtain ⟨items, htext, -⟩ := p.statedByHost_write (.fieldwise fields)
  rw [ProxyBody.typeLines_fieldwise] at htext
  refine ⟨p.opening _ :: commentLines p.comment, _, _, by simpa only [List.append_assoc] using htext, ?_⟩
  rw [memberNames]
  split
  · exact .cons ⟨"", by simp, "u8", within_of_all (by decide), rfl⟩ .nil
  · rw [List.forall₂_map_left_iff, List.forall₂_map_right_iff, List.forall₂_same]
    exact fun field hmem => declaresMember_memberLine (hreadable field hmem)

theorem idents_of_readable (hreadable : ∀ field ∈ fields, field.Readable) :
    fields.map (·.ident) = (fields.map (·.nativeName)).map escapeKeyword := by
  rw [List.map_map]
  exact List.map_congr_left fun field hmem => (hreadable field hmem).1

theorem isHostName_of_mem_memberNames (hreadable : ∀ field ∈ fields, field.Readable)
    (hidents : ∀ name ∈ fields.map (·.nativeName), isIdentifier name.toList = true) {member : String}
    (hmem : member ∈ memberNames fields) : IsHostName member := by
  rw [memberNames] at hmem
  split at hmem
  · cases List.mem_singleton.mp hmem
    exact (isHostName_iff_of_isIdentifier (by decide)).mpr (by decide)
  · rw [idents_of_readable hreadable] at hmem
    obtain ⟨name, hname, rfl⟩ := List.mem_map.mp hmem
    exact isHostName_escapeKeyword (hidents name hname)

theorem nodup_memberNames_iff (hreadable : ∀ field ∈ fields, field.Readable)
    (hdistinct : (fields.map (·.nativeName)).Nodup)
    (hidents : ∀ name ∈ fields.map (·.nativeName), isIdentifier name.toList = true) :
    (memberNames fields).Nodup ↔
      ∀ path ∈ pathKeywords, path ∈ fields.map (·.nativeName) → path ++ "_" ∉ fields.map (·.nativeName) := by
  rw [memberNames]
  split
  · rename_i hempty
    simp [List.isEmpty_iff.mp hempty]
  · rw [idents_of_readable hreadable, nodup_map_escapeKeyword_iff hdistinct hidents]

end StructBinding

namespace StructBatch

open StructBinding

variable {config : Config} {s : Session} {batch : StructBatch} {before after : List StructDecl} {decl : StructDecl}
  {entry : TypeMapping} {rendering : Rendering} {next : Session × Resolver}

/-- Whether it is built now or was before, what a struct renders to is written for a struct with the same key. -/
theorem exists_written_of_step (hs : Session.Reachable config s) (hsplit : batch.structs = before ++ decl :: after)
    (hentry : batch.mapping.get? decl.name = some entry)
    (hstep : batch.step (batch.stateAfter s before) decl = .ok (rendering, next)) :
    ∃ decl' entry' layout body, SameKey decl decl' entry entry' ∧
      body.Fits (decl.fields.map (·.name)) entry.model ∧ rendering = written decl' entry' layout body := by
  have hcall : Call.Occurs config (.struct batch (batch.stateAfter s before) decl entry) :=
    .struct batch before decl after entry hs hsplit hentry
  obtain ⟨found, hfound, hcases⟩ := step_eq_ok_iff.mp hstep
  obtain rfl : entry = found := Option.some.inj (hentry.symm.trans hfound)
  rcases hcases with ⟨hheld, -⟩ | ⟨-, hbuild, -⟩
  · obtain ⟨origin, hmade⟩ := hcall.traced.origin _ _ hheld
    have hkind := congrArg DeclKey.kind hmade.key
    cases origin with
    | function => cases hkind
    | struct batch' state' decl' entry' =>
      obtain ⟨layout, body, -, hbody, rfl⟩ := map_build_eq_ok_iff.mp hmade.build
      have hsame : SameKey decl decl' entry entry' := sameKey_of_key_eq hmade.key.symm
      have hfits := fits_of_body hmade.occurs.traced.hostName hbody
      rw [← hsame.fieldNames, ← hsame.model] at hfits
      exact ⟨decl', entry', layout, body, hsame, hfits, rfl⟩
  · obtain ⟨layout, body, -, hbody, rfl⟩ := build_eq_ok_iff.mp hbuild
    exact ⟨decl, entry, layout, body, ⟨rfl, rfl, rfl, rfl, rfl, rfl⟩, fits_of_body hcall.traced.hostName hbody, rfl⟩

theorem hostName_describe {decl' : StructDecl} {entry' : TypeMapping} (hsame : SameKey decl decl' entry entry')
    (hhost : entry.hostName = none) (hname : isQualifiedIdentifier decl.name.toList = true) (layout : StructLayout) :
    (describe decl' entry' layout).hostName = flattenScopes decl.name := by
  have hnative : entry'.hostNameFor decl'.name = flattenScopes decl.name := by
    rw [← hsame.hostName, TypeMapping.hostNameFor, hhost, Option.getD_none]
  rw [describe, hnative]
  exact sanitize_of_isIdentifier (isIdentifier_flattenScopes hname)

/-- **Every member of a proxy has a name of the host language**, but two members have the same one exactly when a field
is called like what another is escaped to, and the proxy itself has such a name exactly when the native name is not
reserved. These are the names that stand in the text. -/
theorem names_of_step (hs : Session.Reachable config s) (hsplit : batch.structs = before ++ decl :: after)
    (hentry : batch.mapping.get? decl.name = some entry) (hhost : entry.hostName = none)
    (hmodel : entry.model = .fieldwise) (hdistinct : (decl.fields.map (·.name)).Nodup)
    (hidents : ∀ field ∈ decl.fields, isIdentifier field.name.toList = true)
    (hname : isQualifiedIdentifier decl.name.toList = true)
    (hstep : batch.step (batch.stateAfter s before) decl = .ok (rendering, next)) :
    ∃ (proxy : ProxyText) (fields : List ProxyField),
      { kind := .structBinding, name := proxy.hostName, text := proxy.write (.fieldwise fields) } ∈
        rendering.fragments ∧
      Declares (proxy.write (.fieldwise fields)) proxy.hostName (memberNames fields) ∧
      proxy.nativeName = decl.name ∧ fields.map (·.nativeName) <+: decl.fields.map (·.name) ∧
      (∀ member ∈ memberNames fields, IsHostName member) ∧
      ((memberNames fields).Nodup ↔
        ∀ path ∈ pathKeywords, path ∈ fields.map (·.nativeName) → path ++ "_" ∉ fields.map (·.nativeName)) ∧
      (IsHostName proxy.hostName ↔ decl.name ∉ reservedWords ∧ decl.name ≠ "_") := by
  obtain ⟨decl', entry', layout, body, hsame, hfits, rfl⟩ := exists_written_of_step hs hsplit hentry hstep
  rw [hmodel] at hfits
  cases hfits with
  | fieldwise fields hreadable hstart =>
    have hplaced : ∀ name ∈ fields.map (·.nativeName), isIdentifier name.toList = true := by
      intro name hmem
      obtain ⟨field, hfield, rfl⟩ := List.mem_map.mp (hstart.subset hmem)
      exact hidents field hfield
    refine ⟨describe decl' entry' layout, fields, by simp [written], declares_write _ hreadable, hsame.name.symm, hstart,
      fun member hmem => isHostName_of_mem_memberNames hreadable hplaced hmem,
      nodup_memberNames_iff hreadable (hstart.sublist.nodup hdistinct) hplaced, ?_⟩
    rw [hostName_describe hsame hhost hname]
    exact isHostName_flattenScopes_iff hname

namespace Sample

def spot : StructDecl where
  name := "game::type"
  fields := [⟨"self", .ofPrimitive (.integral .i32)⟩, ⟨"type", .ofPrimitive (.integral .i32)⟩]

def spots : StructBatch where
  structs := [spot]
  mapping := Table.ofList [("game::type", { header := "t.h" })]

def token : StructDecl where
  name := "Token"
  fields := [⟨"self", .ofPrimitive (.integral .i32)⟩, ⟨"self_", .ofPrimitive (.integral .i32)⟩]

def reserved : StructDecl where
  name := "type"
  fields := [⟨"x", .ofPrimitive (.integral .i32)⟩]

def clashing : StructBatch where
  structs := [token, reserved]
  mapping := Table.ofList [("Token", { header := "t.h" }), ("type", { header := "t.h" })]

def renderedAfter (batch : StructBatch) (before : List StructDecl) (decl : StructDecl) : Rendering :=
  ((batch.step (batch.stateAfter {} before) decl).map Prod.fst).toOption.getD default

def proxyText (decl : StructDecl) (hostName : String) : ProxyText where
  nativeName := decl.name
  hostName := hostName
  header := "t.h"
  comment := none
  layout := { size := 4 * decl.fields.length, alignment := 4, name := decl.name, fields := [] }

def tokenFields : List ProxyField :=
  [⟨"self", "self_", .primitive (.integral .i32), 0⟩, ⟨"self_", "self_", .primitive (.integral .i32), 4⟩]

def reservedFields : List ProxyField :=
  [⟨"x", "x", .primitive (.integral .i32), 0⟩]

end Sample

theorem names_of_step_spot :
    ∃ (proxy : ProxyText) (fields : List ProxyField),
      { kind := .structBinding, name := proxy.hostName, text := proxy.write (.fieldwise fields) } ∈
        (Sample.renderedAfter Sample.spots [] Sample.spot).fragments ∧
      Declares (proxy.write (.fieldwise fields)) proxy.hostName (memberNames fields) ∧
      proxy.nativeName = "game::type" ∧ fields.map (·.nativeName) <+: ["self", "type"] ∧
      (∀ member ∈ memberNames fields, IsHostName member) ∧
      ((memberNames fields).Nodup ↔
        ∀ path ∈ pathKeywords, path ∈ fields.map (·.nativeName) → path ++ "_" ∉ fields.map (·.nativeName)) ∧
      (IsHostName proxy.hostName ↔ "game::type" ∉ reservedWords ∧ "game::type" ≠ "_") := by
  have hok : (Sample.spots.step (Sample.spots.stateAfter {} []) Sample.spot).map Prod.fst =
      .ok (Sample.renderedAfter Sample.spots [] Sample.spot) := eq_ok_of_isSome_toOption (by decide +kernel)
  obtain ⟨⟨rendering, next⟩, hstep, heq⟩ := map_eq_ok_iff.mp hok
  cases heq
  have hentry : Sample.spots.mapping.get? Sample.spot.name = some { header := "t.h" } := by decide +kernel
  exact names_of_step .new rfl hentry rfl rfl (by decide +kernel) (by decide +kernel) (by decide +kernel) hstep

/-- Fields whose names are different native ones get the same name, and a struct gets a reserved one. -/
theorem names_clash_token :
    (∀ name ∈ ["Token", "self", "self_", "type", "x"], IsNativeName name) ∧
    (Sample.clashing.step (Sample.clashing.stateAfter {} []) Sample.token).map Prod.fst =
      .ok (Sample.renderedAfter Sample.clashing [] Sample.token) ∧
    { kind := .structBinding, name := "Token",
      text := (Sample.proxyText Sample.token "Token").write (.fieldwise Sample.tokenFields) } ∈
        (Sample.renderedAfter Sample.clashing [] Sample.token).fragments ∧
    Declares ((Sample.proxyText Sample.token "Token").write (.fieldwise Sample.tokenFields)) "Token" ["self_", "self_"] ∧
    ¬ (memberNames Sample.tokenFields).Nodup ∧
    (Sample.clashing.step (Sample.clashing.stateAfter {} [Sample.token]) Sample.reserved).map Prod.fst =
      .ok (Sample.renderedAfter Sample.clashing [Sample.token] Sample.reserved) ∧
    (Sample.renderedAfter Sample.clashing [Sample.token] Sample.reserved).fragments.map (·.toFragmentId) =
      [⟨.structBinding, "type"⟩, ⟨.shim, "static_assert type"⟩] ∧
    { kind := .structBinding, name := "type",
      text := (Sample.proxyText Sample.reserved "type").write (.fieldwise Sample.reservedFields) } ∈
        (Sample.renderedAfter Sample.clashing [Sample.token] Sample.reserved).fragments ∧
    Declares ((Sample.proxyText Sample.reserved "type").write (.fieldwise Sample.reservedFields)) "type" ["x"] ∧
    ¬ IsHostName "type" := by
  have htoken : ∀ field ∈ Sample.tokenFields, field.Readable := by
    simp only [Sample.tokenFields, List.forall_mem_cons, List.not_mem_nil, false_imp_iff, implies_true, and_true]
    exact ⟨⟨by decide, within_of_all (by decide)⟩, by decide, within_of_all (by decide)⟩
  have hreserved : ∀ field ∈ Sample.reservedFields, field.Readable := by
    simp only [Sample.reservedFields, List.forall_mem_cons, List.not_mem_nil, false_imp_iff, implies_true, and_true]
    exact ⟨by decide, within_of_all (by decide)⟩
  refine ⟨by decide +kernel, eq_ok_of_isSome_toOption (by decide +kernel), by decide +kernel,
    declares_write _ htoken, by decide +kernel, eq_ok_of_isSome_toOption (by decide +kernel), by decide +kernel,
    by decide +kernel, declares_write _ hreserved, fun hname => ?_⟩
  exact ((isHostName_iff_of_isIdentifier (by decide)).mp hname).1 (by decide)

end StructBatch

end HostBinding
