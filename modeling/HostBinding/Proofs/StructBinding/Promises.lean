import HostBinding.Proofs.HostType
import HostBinding.Proofs.Session.StructRun
import HostBinding.Proofs.StructBinding.Splitting

/-!
# Names that a batch of structs only promises

The fields of a struct are named after proxies that are registered, or after those that the mapping gives to
structs without one. When such a struct is declared in the same batch, it has this proxy in the end. When it is
not, nothing says that it will ever be declared: the name is a promise. No struct can be stored by value on a
promise, since its extent is not known.
-/

namespace HostBinding

open StructBinding

def StructBinding.ProxyBody.hosts : ProxyBody → List HostType
  | .bytes => []
  | .fieldwise fields => fields.map (·.type)

/-- The session has a proxy of the host name. -/
def Session.Registers (s : Session) (hostName : String) : Prop :=
  ∃ native proxy, s.proxy? native = some proxy ∧ proxy.hostName = hostName

theorem Session.registers_of_hostName? {start s : Session} {native hostName : String}
    (hkept : ∀ name proxy, start.proxy? name = some proxy → s.proxy? name = some proxy)
    (h : start.hostName? native = some hostName) : s.Registers hostName := by
  obtain ⟨proxy, hproxy, rfl⟩ := Option.map_eq_some_iff.mp h
  exact ⟨native, proxy, hkept native proxy hproxy, rfl⟩

/-! ### Values have an extent -/

namespace Resolver

variable {r : Resolver} {named? : String → Option Extent} {pointerWidth : Nat} {name structName : String}
  {type : CType} {layout : StructLayout} {field : FieldDecl} {decl : StructDecl}

theorem isSome_of_extentBy? (hstruct : type.structName? = some name) (hvalue : type.containsPointer = false)
    (h : (extentBy? pointerWidth named? type).isSome = true) : (named? name).isSome = true := by
  induction type with
  | void | reference => cases h
  | primitive => cases hstruct
  | named inner => exact Option.some.inj hstruct ▸ h
  | pointer => cases hvalue
  | array element length ih =>
    refine ih hstruct hvalue ?_
    obtain ⟨extent, hextent⟩ := Option.isSome_iff_exists.mp h
    obtain ⟨inner, hinner, -⟩ := Option.bind_eq_some_iff.mp hextent
    rw [hinner]
    rfl

/-- A struct that is stored by value in one that has a layout is known or declared. -/
theorem LaysOut.known_or_declared (h : r.LaysOut structName layout) (hdecl : r.declared? structName = some decl)
    (hmem : field ∈ decl.fields) (hstruct : field.type.structName? = some name)
    (hvalue : field.type.containsPointer = false) :
    (r.known.get? name).isSome = true ∨ (r.declared? name).isSome = true := by
  obtain ⟨decl', depth, hdecl', hplace⟩ := h.exists_placeBy?
  obtain rfl : decl = decl' := Option.some.inj (hdecl.symm.trans hdecl')
  have hextent := Option.isSome_iff_exists.mpr (exists_extent_of_placeBy? hplace hmem)
  have hnamed := isSome_of_extentBy? hstruct hvalue hextent
  rw [namedAt?, Option.isSome_or, Bool.or_eq_true, Option.isSome_map] at hnamed
  refine hnamed.imp_right fun hfound => ?_
  obtain ⟨found, hfound⟩ := Option.isSome_iff_exists.mp hfound
  obtain ⟨inner, -, hinner, -⟩ := LaysOut.exists_placeBy? ⟨depth, hfound⟩
  rw [hinner]
  rfl

end Resolver

namespace StructBatch

variable {batch : StructBatch} {start s : Session} {decl : StructDecl} {model : ProxyModel} {layout : StructLayout}
  {body : ProxyBody} {host : HostType} {name : String}

/-- A name that the batch, at its beginning, only promises: the mapping gives it to a struct that has no proxy and
that the batch does not declare, and a field is made from that struct. -/
def Promises (batch : StructBatch) (start : Session) (decl : StructDecl) (name : String) : Prop :=
  ∃ field ∈ decl.fields, ∃ native entry, field.type.structName? = some native ∧ start.proxy? native = none ∧
    batch.mapping.get? native = some entry ∧ native ∉ batch.structs.map (·.name) ∧
    name = Text.sanitize (entry.hostNameFor native) ∧
    ((batch.structs.map (·.name)).Nodup → field.type.containsPointer = true)

/-- The declared fields that a layout gives an offset to. -/
def placedFields (decl : StructDecl) (layout : StructLayout) : List FieldDecl :=
  (decl.fields.zip layout.fields).map Prod.fst

theorem map_host?_placedFields (h : batch.body start decl .fieldwise layout = .ok body) :
    (placedFields decl layout).map (fun field => field.type.host? (batch.hostName? start)) =
      body.hosts.map some := by
  obtain ⟨fields, hfields, rfl⟩ := map_eq_ok_iff.mp h
  rw [placedFields, ProxyBody.hosts, List.map_map, List.map_map]
  refine map_eq_map_of_forall₂ (mapM_eq_ok_iff.mp hfields) fun pair field hfield => ?_
  obtain ⟨type, htype, rfl⟩ := proxyField_eq_ok_iff.mp hfield
  exact htype

theorem exists_placed_of_mem_hosts (h : batch.body start decl model layout = .ok body) (hmem : host ∈ body.hosts) :
    model = .fieldwise ∧
      ∃ field ∈ placedFields decl layout, field.type.host? (batch.hostName? start) = some host := by
  cases model with
  | bytes =>
    cases h
    cases hmem
  | fieldwise =>
    have hsome := List.mem_map_of_mem (f := some) hmem
    rw [← map_host?_placedFields h] at hsome
    exact ⟨rfl, List.mem_map.mp hsome⟩

theorem exists_host_of_mem_placedFields {field : FieldDecl}
    (h : batch.body start decl .fieldwise layout = .ok body) (hmem : field ∈ placedFields decl layout) :
    ∃ host ∈ body.hosts, field.type.host? (batch.hostName? start) = some host := by
  have htype := List.mem_map_of_mem (f := fun field : FieldDecl => field.type.host? (batch.hostName? start)) hmem
  rw [map_host?_placedFields h] at htype
  obtain ⟨host, hhost, heq⟩ := List.mem_map.mp htype
  exact ⟨host, hhost, heq.symm⟩

/-- What a proxy stores is what the placed fields ask for. -/
theorem exists_host_iff {Q : HostType → Prop} {R : FieldDecl → Prop}
    (h : batch.body start decl model layout = .ok body)
    (hstored : ∀ field host, field.type.host? (batch.hostName? start) = some host → (Q host ↔ R field)) :
    (∃ host ∈ body.hosts, Q host) ↔ model = .fieldwise ∧ ∃ field ∈ placedFields decl layout, R field := by
  constructor
  · rintro ⟨host, hmem, hQ⟩
    obtain ⟨hmodel, field, hfield, hhost⟩ := exists_placed_of_mem_hosts h hmem
    exact ⟨hmodel, field, hfield, (hstored field host hhost).mp hQ⟩
  · rintro ⟨rfl, field, hfield, hR⟩
    obtain ⟨host, hmem, hhost⟩ := exists_host_of_mem_placedFields h hfield
    exact ⟨host, hmem, (hstored field host hhost).mpr hR⟩

theorem exists_field_of_body (h : batch.body start decl model layout = .ok body) (hmem : host ∈ body.hosts) :
    ∃ field ∈ decl.fields, field.type.host? (batch.hostName? start) = some host := by
  obtain ⟨-, field, hfield, hhost⟩ := exists_placed_of_mem_hosts h hmem
  obtain ⟨pair, hpair, rfl⟩ := List.mem_map.mp hfield
  exact ⟨pair.1, (List.of_mem_zip hpair).1, hhost⟩

/-- What the fields of a struct name is registered in the end, or it is only promised. -/
theorem registers_or_promises
    (hmapped : ∀ decl ∈ batch.structs, ∃ entry, batch.mapping.get? decl.name = some entry)
    (hkept : ∀ name proxy, start.proxy? name = some proxy → s.proxy? name = some proxy)
    (hnames : ∀ name, batch.hostName? s name = batch.hostName? start name)
    (hregistered : ∀ decl ∈ batch.structs, ∃ proxy, s.proxy? decl.name = some proxy)
    (hdecl : decl ∈ batch.structs) (hlayout : (batch.resolver start).LaysOut decl.name layout)
    (hbody : batch.body start decl model layout = .ok body) (hmem : host ∈ body.hosts)
    (hname : host.proxyName? = some name) : s.Registers name ∨ batch.Promises start decl name := by
  obtain ⟨field, hfield, hhost⟩ := exists_field_of_body hbody hmem
  rw [CType.proxyName?_of_host? hhost] at hname
  obtain ⟨native, hstruct, hcalled⟩ := Option.bind_eq_some_iff.mp hname
  by_cases hdeclared : native ∈ batch.structs.map (·.name)
  · obtain ⟨inner, hinner, rfl⟩ := List.mem_map.mp hdeclared
    obtain ⟨proxy, hproxy⟩ := hregistered inner hinner
    refine .inl ⟨inner.name, proxy, hproxy, ?_⟩
    rw [← hnames, hostName?_eq_or, Session.hostName?, hproxy] at hcalled
    exact Option.some.inj hcalled
  rw [hostName?_eq_of_mapped hmapped, Option.or_eq_some_iff] at hcalled
  rcases hcalled with hknown | ⟨hunknown, hmapping⟩
  · exact .inl (Session.registers_of_hostName? hkept hknown)
  · obtain ⟨entry, hentry, rfl⟩ := Option.map_eq_some_iff.mp hmapping
    have hnone : start.proxy? native = none := Option.map_eq_none_iff.mp hunknown
    refine .inr ⟨field, hfield, native, entry, hstruct, hnone, hentry, hdeclared, rfl, fun hdistinct => ?_⟩
    by_contra hvalue
    rcases hlayout.known_or_declared (Resolver.declared?_eq hdistinct hdecl) hfield hstruct (by simpa using hvalue)
      with hextent | hinner
    · have hmissing : (batch.resolver start).known.get? native = none := by
        rw [StructBatch.resolver, Table.get?_mapValues]
        exact Option.map_eq_none_iff.mpr hnone
      simp [hmissing] at hextent
    · obtain ⟨inner, hinner⟩ := Option.isSome_iff_exists.mp hinner
      exact hdeclared (Resolver.mem_names_of_declared? hinner)

end StructBatch

end HostBinding
