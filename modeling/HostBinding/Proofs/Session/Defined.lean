import HostBinding.Proofs.Session.Names
import HostBinding.Proofs.StructBinding.Promises

/-!
# The names that bindings use are defined

A binding is written from host types, and a host type can name a proxy or the erased type. Functions only use
proxies that are registered, and what uses the erased type comes with its import. Structs are also named after
proxies that are still to come: those of their own batch are there when it has gone through, and what is left
are the names that a batch has only promised.
-/

namespace HostBinding

open StructBinding

namespace Session

variable {s s' : Session} {key : DeclKey} {rendering : Rendering} {replaceable : Bool} {line : String}

/-- An import line is stored. -/
def Imports (s : Session) (line : String) : Prop :=
  ∃ stored, s.fragments.get? ⟨.importLine, line⟩ = some stored

theorem imports_of_commit (hcommit : s.commit key rendering replaceable = .ok s') (h : s.Imports line) :
    s'.Imports line := by
  obtain ⟨stored, hstored⟩ := h
  obtain ⟨rfl, -, -⟩ := commit_eq_ok_iff.mp hcommit
  exact ⟨stored, get?_storeFragments_import rfl hstored⟩

theorem imports_of_mem (hcommit : s.commit key rendering replaceable = .ok s')
    (hmem : Fragment.ofImport line ∈ rendering.fragments) : s'.Imports line := by
  obtain ⟨rfl, -, -⟩ := commit_eq_ok_iff.mp hcommit
  exact exists_get?_storeFragments key s.fragments hmem

theorem imports_iff : s.Imports line ↔ line ∈ (s.assemble.ofKind .importLine).map (·.name) := by
  rw [List.mem_map]
  constructor
  · rintro ⟨⟨owner, text⟩, hstored⟩
    exact ⟨⟨⟨.importLine, line⟩, text⟩, (mem_ofKind_assemble (by decide)).mpr ⟨rfl, owner, hstored⟩, rfl⟩
  · rintro ⟨fragment, hmem, rfl⟩
    obtain ⟨hkind, owner, hstored⟩ := (mem_ofKind_assemble (by decide)).mp hmem
    exact ⟨_, Fragment.toFragmentId_eq hkind ▸ hstored⟩

/-- Everything that a host type names is there. -/
structure Knows (s : Session) (host : HostType) : Prop where
  proxy : ∀ name, host.proxyName? = some name → s.Registers name
  erased : host.isErased = true → s.Imports erasedImport

end Session

/-! ### Functions -/

theorem FunctionDecl.exists_host?_of_mem_hosts {decl : FunctionDecl} {session : Session} {overloaded : Bool}
    {plan : FunctionPlan} {host : HostType} (hplan : decl.plan session overloaded = .ok plan)
    (hmem : host ∈ plan.hosts) : ∃ value : CType, value.host? session.hostName? = some host := by
  obtain ⟨-, hparams, hret, -⟩ := plan_eq_ok_iff.mp hplan
  rcases List.mem_append.mp hmem with hmem | hmem
  · have hplanned : List.Forall₂ (fun (_ : ParamDecl) (param : ParamPlan) =>
        ∃ value : CType, value.host? session.hostName? = some param.host) decl.params plan.params := by
      refine forall₂_of_planParams (fun planned param paramPlan hparam => ?_) .nil hparams
      obtain ⟨value, mode, host, -, hvalue, rfl⟩ := planParam_eq_ok_iff.mp hparam
      exact ⟨value, hvalue⟩
    obtain ⟨param, hparam, rfl⟩ := List.mem_map.mp hmem
    exact forall_mem_of_forall₂ hplanned (fun _ _ h => h) param hparam
  · obtain ⟨-, hvoid⟩ | ⟨-, host', hvalue, hform⟩ := planReturn_eq_ok hret
    · simp [hvoid, ReturnPlan.host?, ReturnPlan.types?] at hmem
    · have hsame : host = host' := by
        rw [hform] at hmem
        split at hmem <;> simpa [ReturnPlan.host?, ReturnPlan.types?] using hmem
      exact ⟨_, hsame ▸ hvalue⟩

namespace Session

variable {config : Config} {s s' : Session} {name : String} {stored : Stored}

/-- A stored function binding and a call that wrote it. Everything that its host types name is there. -/
def FunctionDefined (config : Config) (s : Session) (name : String) (stored : Stored) : Prop :=
  ∃ batch session decl plan, (Call.function batch session decl).Wrote config s ⟨.functionBinding, name⟩ stored ∧
    decl.plan session (batch.isOverloaded decl) = .ok plan ∧ ∀ host ∈ plan.hosts, s.Knows host

def FunctionsDefined (config : Config) (s : Session) : Prop :=
  ∀ name stored, s.fragments.get? ⟨.functionBinding, name⟩ = some stored → s.FunctionDefined config name stored

theorem functionsDefined_of_empty (hfragments : s.fragments = ∅) : s.FunctionsDefined config := by
  intro name stored h
  simp [hfragments, Table.get?_empty] at h

theorem keptByCalls_functionsDefined : KeptByCalls config (FunctionsDefined config) := by
  intro call rendering s' hoccurs hs hbuild hproper hcommit name stored hstored
  have hgrows : ∀ name proxy, call.session.proxy? name = some proxy → s'.proxy? name = some proxy :=
    fun name proxy => proxy?_of_commit hcommit
  have hs' := (commit_eq_ok_iff.mp hcommit).1
  rw [hs'] at hstored
  rcases get?_storeFragments_cases hstored with hold | ⟨fragment, hmem, hid, rfl⟩
  · obtain ⟨batch, session, decl, plan, hwrote, hplan, hknows⟩ := hs name stored hold
    refine ⟨batch, session, decl, plan, hwrote.mono hgrows, hplan, fun host hhost => ?_⟩
    refine ⟨fun name hname => ?_, fun herased => imports_of_commit hcommit ((hknows host hhost).erased herased)⟩
    obtain ⟨native, proxy, hproxy, hcalled⟩ := (hknows host hhost).proxy name hname
    exact ⟨native, proxy, hgrows native proxy hproxy, hcalled⟩
  · have hkind : fragment.kind = .functionBinding := congrArg FragmentId.kind hid
    have howned := Rendering.mem_owned.mpr ⟨hmem, by rw [hkind]; decide⟩
    cases call with
    | struct batch state decl entry =>
      obtain ⟨⟨_, resolver⟩, hstruct, rfl⟩ := map_eq_ok_iff.mp hbuild
      obtain ⟨layout, body, -, -, rfl⟩ := StructBatch.build_eq_ok_iff.mp hstruct
      rcases StructBatch.binding_or_shim_of_mem_owned howned with ⟨hbinding, -⟩ | hshim
      · cases hkind.symm.trans (congrArg FragmentId.kind hbinding)
      · cases hkind.symm.trans (congrArg FragmentId.kind hshim)
    | function batch session decl =>
      obtain ⟨plan, hplan, rfl⟩ := FunctionBatch.build_eq_ok_iff.mp hbuild
      refine ⟨batch, session, decl, plan, ⟨hoccurs, rfl, ⟨_, hbuild, hid ▸ howned⟩, hgrows⟩, hplan, ?_⟩
      refine fun host hhost => ⟨fun name hname => ?_, fun herased => imports_of_mem hcommit ?_⟩
      · obtain ⟨value, hvalue⟩ := FunctionDecl.exists_host?_of_mem_hosts hplan hhost
        rw [CType.proxyName?_of_host? hvalue] at hname
        obtain ⟨native, -, hcalled⟩ := Option.bind_eq_some_iff.mp hname
        exact registers_of_hostName? hgrows hcalled
      · have hany : plan.hosts.any (·.mentionsErased) = true :=
          List.any_eq_true.mpr ⟨host, hhost, HostType.mentionsErased_of_isErased herased⟩
        simp [FunctionBatch.rendering, FunctionBatch.importLines, hany]

theorem Reachable.functionsDefined (hs : Reachable config s) : s.FunctionsDefined config :=
  keptByCalls_functionsDefined.reachable (functionsDefined_of_empty rfl)
    (fun _ _ => functionsDefined_of_empty rfl) hs

/-! ### A batch of structs -/

def Backed (s : Session) : Prop :=
  ∀ key held, s.renderings.get? key = some held → key.kind = .struct → ∃ proxy, s.proxy? key.name = some proxy

theorem Reachable.backed (hs : Reachable config s) : s.Backed := by
  intro key held hheld hkind
  obtain ⟨decl, entry, layout, body, hname, rfl⟩ := hs.exists_written hheld hkind
  exact ⟨_, hname ▸ (hs.coherent.holds key _ hheld).proxy _ rfl⟩

end Session

namespace StructBatch

theorem erasedImport_mem_importLines {body : ProxyBody} {host : HostType} (hmem : host ∈ body.hosts)
    (herased : host.isErased = true) : erasedImport ∈ importLines body := by
  cases body with
  | bytes => cases hmem
  | fieldwise fields =>
    obtain ⟨field, hfield, rfl⟩ := List.mem_map.mp hmem
    have hany : fields.any (·.type.mentionsErased) = true :=
      List.any_eq_true.mpr ⟨field, hfield, HostType.mentionsErased_of_isErased herased⟩
    simp [importLines, hany]

variable {batch : StructBatch} {start : Session} {state next last : Session × Resolver} {decl : StructDecl}
  {rendering : Rendering} {decls : List StructDecl} {renderings : List Rendering}

structure Writes (batch : StructBatch) (start : Session) (decl : StructDecl) (body : ProxyBody) (text : String) :
    Prop where
  declared : decl ∈ batch.structs
  written : ∃ entry layout, batch.mapping.get? decl.name = some entry ∧
    (batch.resolver start).LaysOut decl.name layout ∧ batch.body start decl entry.model layout = .ok body ∧
    text = (describe decl entry layout).write body

structure Going (batch : StructBatch) (start : Session) (state : Session × Resolver) : Prop
    extends Steady batch start state where
  backed : state.1.Backed
  imports : ∀ line, start.Imports line → state.1.Imports line
  stored : ∀ name stored, state.1.fragments.get? ⟨.structBinding, name⟩ = some stored →
    start.fragments.get? ⟨.structBinding, name⟩ = some stored ∨
    ∃ decl body, batch.Writes start decl body stored.text ∧
      ∀ host ∈ body.hosts, host.isErased = true → state.1.Imports erasedImport

theorem Going.init (hstart : start.Backed) : batch.Going start (start, batch.resolver start) where
  toSteady := .init batch start
  backed := hstart
  imports _ h := h
  stored _ _ h := .inl h

theorem Going.step (h : batch.Going start state) (hmem : decl ∈ batch.structs)
    (hok : batch.step state decl = .ok (rendering, next)) :
    batch.Going start next ∧ (∃ proxy, next.1.proxy? decl.name = some proxy) ∧
      ∀ name proxy, state.1.proxy? name = some proxy → next.1.proxy? name = some proxy := by
  have hsteady := h.toSteady.step hok
  obtain ⟨entry, hentry, ⟨hheld, rfl⟩ | ⟨-, hbuild, hcommit⟩⟩ := step_eq_ok_iff.mp hok
  · exact ⟨h, h.backed _ _ hheld rfl, fun _ _ hproxy => hproxy⟩
  obtain ⟨layout, body, hlayout, hbody, rfl⟩ := h.map_build_eq_ok_iff.mp (map_eq_ok_iff.mpr ⟨_, hbuild, rfl⟩)
  have hgrows : ∀ name proxy, state.1.proxy? name = some proxy → next.1.proxy? name = some proxy :=
    fun name proxy => Session.proxy?_of_commit hcommit
  have hown : ∃ proxy, next.1.proxy? decl.name = some proxy := by
    rw [(proxy?_of_commit hcommit decl.name).1, if_pos rfl]
    exact ⟨_, rfl⟩
  have himports : ∀ line, state.1.Imports line → next.1.Imports line :=
    fun line => Session.imports_of_commit hcommit
  refine ⟨⟨hsteady, ?_, fun line hline => himports line (h.imports line hline), ?_⟩, hown, hgrows⟩
  · intro key held hheld hkind
    rw [get?_renderings_of_commit hcommit] at hheld
    split at hheld
    · rename_i hkey
      exact hkey ▸ hown
    · obtain ⟨proxy, hproxy⟩ := h.backed key held hheld hkind
      exact ⟨proxy, hgrows _ _ hproxy⟩
  · intro name stored hstored
    rw [(Session.commit_eq_ok_iff.mp hcommit).1] at hstored
    rcases Session.get?_storeFragments_cases hstored with hold | ⟨fragment, hfragment, hid, rfl⟩
    · refine (h.stored name stored hold).imp_right fun ⟨decl', body', hwrites, herased⟩ => ?_
      exact ⟨decl', body', hwrites, fun host hhost hisErased => himports _ (herased host hhost hisErased)⟩
    · have hkind : fragment.kind = .structBinding := congrArg FragmentId.kind hid
      have howned := Rendering.mem_owned.mpr ⟨hfragment, by rw [hkind]; decide⟩
      rcases binding_or_shim_of_mem_owned howned with ⟨-, htext⟩ | hshim
      · refine .inr ⟨decl, body, ⟨hmem, entry, layout, hentry, hlayout, hbody, htext⟩, ?_⟩
        refine fun host hhost herased => Session.imports_of_mem hcommit ?_
        exact List.mem_append_left _ (List.mem_map_of_mem (erasedImport_mem_importLines hhost herased))
      · cases hkind.symm.trans (congrArg FragmentId.kind hshim)

/-- A batch that has gone through has proxies of all its structs. -/
theorem Going.chain (h : batch.Going start state) (hchain : Session.Chain batch.step state decls renderings last)
    (hmem : decls ⊆ batch.structs) :
    batch.Going start last ∧ (∀ decl ∈ decls, ∃ proxy, last.1.proxy? decl.name = some proxy) ∧
      ∀ name proxy, state.1.proxy? name = some proxy → last.1.proxy? name = some proxy := by
  induction hchain with
  | nil => exact ⟨h, List.forall_mem_nil _, fun _ _ hproxy => hproxy⟩
  | cons hok _ ih =>
    obtain ⟨hnext, ⟨proxy, hproxy⟩, hgrows⟩ := h.step (hmem List.mem_cons_self) hok
    obtain ⟨hlast, hrest, hkept⟩ := ih hnext fun _ hlater => hmem (List.mem_cons_of_mem _ hlater)
    refine ⟨hlast, List.forall_mem_cons.mpr ⟨⟨proxy, hkept _ _ hproxy⟩, hrest⟩, ?_⟩
    exact fun name proxy hproxy => hkept name proxy (hgrows name proxy hproxy)

end StructBatch

/-! ### Runs -/

namespace Session

/-- Runs of a new session in which every call succeeds, with the batches of structs and the sessions that they were
rendered into. -/
inductive BatchRun (config : Config) : List (Session × StructBatch) → Session → Prop
  | new : BatchRun config [] { config := config }
  | structs {past : List (Session × StructBatch)} {s : Session} {module : OutputModule} (batch : StructBatch) :
    BatchRun config past s → (batch.render s).2 = .ok module →
    BatchRun config (past ++ [(s, batch)]) (batch.render s).1
  | functions {past : List (Session × StructBatch)} {s : Session} {module : OutputModule} (batch : FunctionBatch) :
    BatchRun config past s → (batch.render s).2 = .ok module → BatchRun config past (batch.render s).1

variable {config : Config} {s s' : Session} {past past' : List (Session × StructBatch)} {name : String}
  {stored : Stored} {module : OutputModule}

theorem BatchRun.reachable (hrun : BatchRun config past s) : Reachable config s := by
  induction hrun with
  | new => exact .new
  | structs batch _ _ ih => exact .structs batch ih
  | functions batch _ _ ih => exact .functions batch ih

/-- A struct binding and the batch that wrote it. Everything that its host types name is there, but for what the
batch has only promised. -/
def StructDefined (past : List (Session × StructBatch)) (s : Session) (text : String) : Prop :=
  ∃ start batch decl body, (start, batch) ∈ past ∧ batch.Writes start decl body text ∧ ∀ host ∈ body.hosts,
    (∀ name, host.proxyName? = some name → s.Registers name ∨ batch.Promises start decl name) ∧
    (host.isErased = true → s.Imports erasedImport)

theorem StructDefined.mono {text : String} (h : StructDefined past s text) (hpast : past ⊆ past')
    (hgrows : ∀ name proxy, s.proxy? name = some proxy → s'.proxy? name = some proxy)
    (himports : ∀ line, s.Imports line → s'.Imports line) : StructDefined past' s' text := by
  obtain ⟨start, batch, decl, body, hmem, hwrites, hnamed⟩ := h
  refine ⟨start, batch, decl, body, hpast hmem, hwrites, fun host hhost => ⟨?_, fun herased => ?_⟩⟩
  · intro name hname
    refine ((hnamed host hhost).1 name hname).imp_left fun ⟨native, proxy, hproxy, hcalled⟩ => ?_
    exact ⟨native, proxy, hgrows native proxy hproxy, hcalled⟩
  · exact himports _ ((hnamed host hhost).2 herased)

def StructsDefined (past : List (Session × StructBatch)) (s : Session) : Prop :=
  ∀ name stored, s.fragments.get? ⟨.structBinding, name⟩ = some stored → StructDefined past s stored.text

/-- When a batch of structs has gone through, its own structs are no promises any more. -/
theorem StructsDefined.structs (h : StructsDefined past s) (hs : Reachable config s) {batch : StructBatch}
    (hok : (batch.render s).2 = .ok module) : StructsDefined (past ++ [(s, batch)]) (batch.render s).1 := by
  obtain ⟨renderings, last, hchain, hlast, -⟩ := StructBatch.exists_chain hs.regular hok
  obtain ⟨hgoing, hregistered, hgrows⟩ := (StructBatch.Going.init hs.backed).chain hchain (List.Subset.refl _)
  have hmapped := StructBatch.mapped_of_chain hchain
  intro name stored hstored
  rw [← hlast] at hstored ⊢
  rcases hgoing.stored name stored hstored with hold | ⟨decl, body, hwrites, herased⟩
  · exact (h name stored hold).mono (List.subset_append_left _ _) hgrows hgoing.imports
  · refine ⟨s, batch, decl, body, by simp, hwrites, fun host hhost => ⟨?_, herased host hhost⟩⟩
    intro called hcalled
    obtain ⟨entry, layout, -, hlayout, hbody, -⟩ := hwrites.written
    exact StructBatch.registers_or_promises hmapped hgrows hgoing.hostNames hregistered hwrites.declared hlayout
      hbody hhost hcalled

theorem StructsDefined.functions (h : StructsDefined past s) (hs : Reachable config s) {batch : FunctionBatch}
    (hok : (batch.render s).2 = .ok module) : StructsDefined past (batch.render s).1 := by
  obtain ⟨renderings, hchain, -⟩ := FunctionBatch.exists_chain hs.regular hok
  refine (hchain.induction (P := StructsDefined past) (Q := fun _ => True) ?_ h).2
  intro s decl rendering s' hs hstep
  refine ⟨trivial, ?_⟩
  obtain ⟨-, rfl⟩ | ⟨-, hbuild, hcommit⟩ := FunctionBatch.step_eq_ok_iff.mp hstep
  · exact hs
  intro name stored hstored
  rw [(commit_eq_ok_iff.mp hcommit).1] at hstored
  rcases get?_storeFragments_cases hstored with hold | ⟨fragment, hmem, hid, -⟩
  · exact (hs name stored hold).mono (List.Subset.refl _) (fun _ _ => proxy?_of_commit hcommit)
      fun _ => imports_of_commit hcommit
  · have hkind : fragment.kind = .structBinding := congrArg FragmentId.kind hid
    cases ((FunctionBatch.proper_of_build hbuild).structBinding fragment hmem hkind).1

theorem BatchRun.structsDefined (hrun : BatchRun config past s) : StructsDefined past s := by
  induction hrun with
  | new =>
    intro name stored hstored
    simp [Table.get?_empty] at hstored
  | structs batch hrun hok ih => exact ih.structs hrun.reachable hok
  | functions batch hrun hok ih => exact ih.functions hrun.reachable hok

/-- **Which names of a module are defined in it.** In every run in which all calls succeed, the host types of a
stored function binding only name proxies that are registered. Those of a struct binding name such proxies too, or
what the batch has promised when it wrote the struct: the name that the mapping gives to a struct that had no proxy
and that the batch does not declare. The erased type comes with its import. What is registered and imported is in
the assembled module. -/
theorem BatchRun.names_defined (hrun : BatchRun config past s) :
    (∀ name stored, s.fragments.get? ⟨.functionBinding, name⟩ = some stored →
      s.FunctionDefined config name stored) ∧
    (∀ name stored, s.fragments.get? ⟨.structBinding, name⟩ = some stored → StructDefined past s stored.text) ∧
    (∀ name, s.Registers name ↔ name ∈ s.assemble.proxyNames) ∧
    ∀ line, s.Imports line ↔ line ∈ (s.assemble.ofKind .importLine).map (·.name) :=
  ⟨hrun.reachable.functionsDefined, hrun.structsDefined, fun _ => hrun.reachable.mem_proxyNames_iff.symm,
    fun _ => imports_iff⟩

/-! ### A run whose names are all defined, and one that leaves a promise open -/

namespace Sample

def forest : StructBatch where
  structs := [
    { name := "Tree", fields := [⟨"root", .pointer (.named "Branch") false⟩, ⟨"owner", .pointer (.named "Owner") true⟩] },
    { name := "Branch", fields := [⟨"trees", .array (.named "Tree") 2⟩] }]
  mapping := Table.ofList [("Tree", { header := "forest.h", hostName := some "Oak" }),
    ("Branch", { header := "forest.h" })]

def growth : FunctionBatch where
  functions := [{ name := "grow", returnType := .named "Tree",
                  params := [⟨some "at", .pointer (.named "Branch") false⟩] }]
  header := "forest.h"

def grown : Session :=
  (growth.render (forest.render {}).1).1

def node : StructDecl where
  name := "Node"
  fields := [⟨"handle", .pointer (.named "Handle") false⟩]

def pending : StructBatch where
  structs := [node]
  mapping := Table.ofList [("Node", { header := "node.h" }), ("Handle", { header := "handle.h" })]

def nodeLayout : StructLayout where
  size := 8
  alignment := 8
  name := "Node"
  fields := [{ size := 8, alignment := 8, name := "handle", nativeType := "Handle *", offset := 0 }]

def nodeBody : ProxyBody :=
  .fieldwise [{ nativeName := "handle", ident := "handle", type := .pointer (.proxy "Handle") false, offset := 0 }]

end Sample

theorem names_defined_grown :
    BatchRun {} [({}, Sample.forest)] Sample.grown ∧ Sample.grown.assemble.proxyNames = ["Oak", "Branch"] ∧
    (∃ stored, Sample.grown.fragments.get? ⟨.structBinding, "Oak"⟩ = some stored ∧
      StructDefined [({}, Sample.forest)] Sample.grown stored.text) ∧
    ∃ stored, Sample.grown.fragments.get? ⟨.functionBinding, "grow"⟩ = some stored ∧
      Sample.grown.FunctionDefined {} "grow" stored := by
  have hrun : BatchRun {} [({}, Sample.forest)] Sample.grown :=
    .functions _ (.structs _ .new (eq_ok_of_isSome_toOption (by decide +kernel)))
      (eq_ok_of_isSome_toOption (by decide +kernel))
  obtain ⟨hfunctions, hstructs, -, -⟩ := hrun.names_defined
  have hstruct : (Sample.grown.fragments.get? ⟨.structBinding, "Oak"⟩).isSome = true := by decide +kernel
  have hfunction : (Sample.grown.fragments.get? ⟨.functionBinding, "grow"⟩).isSome = true := by decide +kernel
  obtain ⟨struct, hstruct⟩ := Option.isSome_iff_exists.mp hstruct
  obtain ⟨function, hfunction⟩ := Option.isSome_iff_exists.mp hfunction
  exact ⟨hrun, by decide +kernel, ⟨struct, hstruct, hstructs _ _ hstruct⟩,
    function, hfunction, hfunctions _ _ hfunction⟩

/-- A struct binding names a proxy that no struct has. -/
theorem handle_undefined :
    BatchRun {} [({}, Sample.pending)] (Sample.pending.render {}).1 ∧
    (∃ stored, (Sample.pending.render {}).1.fragments.get? ⟨.structBinding, "Node"⟩ = some stored ∧
      Sample.pending.Writes {} Sample.node Sample.nodeBody stored.text) ∧
    (∃ host ∈ Sample.nodeBody.hosts, host.proxyName? = some "Handle") ∧
    ¬(Sample.pending.render {}).1.Registers "Handle" := by
  have hrun : BatchRun {} [({}, Sample.pending)] (Sample.pending.render {}).1 :=
    .structs _ .new (eq_ok_of_isSome_toOption (by decide +kernel))
  have hwrites : Sample.pending.Writes {} Sample.node Sample.nodeBody
      ((StructBatch.describe Sample.node { header := "node.h" } Sample.nodeLayout).write Sample.nodeBody) :=
    ⟨List.mem_singleton_self _, _, _, by decide +kernel, ⟨1, by decide +kernel⟩,
      eq_ok_of_toOption_eq_some (by decide +kernel), rfl⟩
  refine ⟨hrun, ⟨⟨Sample.pending.key Sample.node { header := "node.h" }, _⟩, by decide +kernel, hwrites⟩,
    ⟨_, List.mem_singleton_self _, rfl⟩, ?_⟩
  rw [Registers, ← hrun.reachable.mem_proxyNames_iff]
  decide +kernel

end Session

end HostBinding
