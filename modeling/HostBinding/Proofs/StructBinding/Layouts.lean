import HostBinding.Proofs.Layout.Spelling
import HostBinding.Proofs.StructBinding.Batch

/-!
# The layouts behind registered proxies

A struct whose rendering is remembered is not laid out again, so nothing seems to tie its proxy to the
declarations of a later batch. What does is the key: a session remembers at most one key for each struct, and
the key holds the names and the spellings of all fields. So the extent of a proxy is that of any declaration
with this key, given the extents of the other proxies, and every struct of a batch that goes through has a
layout for the resolver of that batch, whether it was laid out there or only remembered.
-/

namespace HostBinding

open StructBinding

def StructDecl.Readable (decl : StructDecl) : Prop :=
  ∀ field ∈ decl.fields, field.type.Readable

namespace Session

/-- The extent of a type in which structs have the extents of their proxies. -/
def typeExtent? (s : Session) : CType → Option Extent :=
  Resolver.extentBy? s.config.pointerWidth.toNat fun name => (s.proxy? name).map (·.toExtent)

/-- A remembered declaration takes the extent of a proxy, when every other struct takes that of its own. -/
def Explained (s : Session) (proxy : Proxy) : Prop :=
  ∃ (batch : StructBatch) (decl : StructDecl) (entry : TypeMapping) (rendering : Rendering)
    (layout : StructLayout),
    decl.name = proxy.nativeName ∧ decl.Readable ∧
    s.renderings.get? (batch.key decl entry) = some rendering ∧
    Resolver.placeBy? s.typeExtent? decl.name decl.fields {} = some layout ∧
    layout.toExtent = proxy.toExtent

/-- The invariant of runs in which only structs are rendered and all their types have been read. -/
structure Grounded (s : Session) : Prop extends Recorded s where
  explained : ∀ name proxy, s.proxy? name = some proxy → s.Explained proxy

variable {s s' : Session} {type : CType} {extent : Extent} {proxy : Proxy}

theorem typeExtent?_mono (hconfig : s'.config = s.config)
    (hkept : ∀ name proxy, s.proxy? name = some proxy → s'.proxy? name = some proxy)
    (h : s.typeExtent? type = some extent) : s'.typeExtent? type = some extent := by
  rw [typeExtent?, hconfig]
  refine Resolver.extentBy?_mono (fun name extent hextent => ?_) h
  obtain ⟨proxy, hproxy, rfl⟩ := Option.map_eq_some_iff.mp hextent
  rw [hkept name proxy hproxy]
  rfl

theorem Explained.mono (hconfig : s'.config = s.config)
    (hkept : ∀ name proxy, s.proxy? name = some proxy → s'.proxy? name = some proxy)
    (hkeeps : ∀ key rendering, s.renderings.get? key = some rendering →
      s'.renderings.get? key = some rendering)
    (h : s.Explained proxy) : s'.Explained proxy := by
  obtain ⟨batch, decl, entry, rendering, layout, hname, hreadable, hheld, hplace, hextent⟩ := h
  refine ⟨batch, decl, entry, rendering, layout, hname, hreadable, hkeeps _ _ hheld, ?_, hextent⟩
  exact Resolver.placeBy?_mono (fun _ _ _ => typeExtent?_mono hconfig hkept) hplace

variable {key key' : DeclKey} {decl decl' : StructDecl} {entry entry' : TypeMapping}
  {layout layout' : StructLayout} {body body' : ProxyBody}

theorem Coherent.asserted (hs : s.Coherent)
    (hheld : s.renderings.get? key = some (StructBatch.written decl entry layout body)) :
    ∃ text, s.fragments.get? ⟨.shim, "static_assert " ++ decl.name⟩ = some ⟨key, text⟩ :=
  ⟨_, (hs.holds key _ hheld).owned _
    (List.mem_append_right _ (List.mem_cons_of_mem _ List.mem_cons_self)) (by simp)⟩

theorem Coherent.key_eq (hs : s.Coherent)
    (hheld : s.renderings.get? key = some (StructBatch.written decl entry layout body))
    (hheld' : s.renderings.get? key' = some (StructBatch.written decl' entry' layout' body'))
    (hname : decl.name = decl'.name) : key = key' := by
  obtain ⟨text, hstored⟩ := hs.asserted hheld
  obtain ⟨text', hstored'⟩ := hs.asserted hheld'
  rw [hname, hstored', Option.some.injEq, Stored.mk.injEq] at hstored
  exact hstored.1.symm

theorem Recorded.key_eq (hs : s.Recorded) {rendering rendering' : Rendering}
    (hheld : s.renderings.get? key = some rendering) (hheld' : s.renderings.get? key' = some rendering')
    (hname : key.name = key'.name) : key = key' := by
  obtain ⟨decl, entry, layout, body, hdecl, rfl⟩ := hs.written key rendering hheld
  obtain ⟨decl', entry', layout', body', hdecl', rfl⟩ := hs.written key' rendering' hheld'
  exact hs.coherent.key_eq hheld hheld' (hdecl.symm.trans (hname.trans hdecl'))

end Session

namespace StructBatch

variable {batch batch' : StructBatch} {start : Session} {before : List StructDecl}
  {state state' : Session × Resolver} {decl decl' : StructDecl} {entry entry' : TypeMapping}
  {rendering : Rendering} {name : String} {proxy : Proxy} {extent : Extent} {depth : Nat}

/-- Declarations with one key are laid out the same. -/
theorem placeBy?_eq_of_key_eq {pointerWidth : Nat} {named? : String → Option Extent}
    (hkey : batch.key decl entry = batch'.key decl' entry') (h : decl.Readable) (h' : decl'.Readable) :
    Resolver.placeBy? (Resolver.extentBy? pointerWidth named?) decl.name decl.fields {} =
      Resolver.placeBy? (Resolver.extentBy? pointerWidth named?) decl'.name decl'.fields {} := by
  rw [(sameKey_of_key_eq hkey).name]
  exact Resolver.placeBy?_eq_of_fields_eq (fields_of_key_eq hkey) h h'

theorem remembered_of_step (hok : batch.step state decl = .ok (rendering, state')) :
    (∃ entry, batch.mapping.get? decl.name = some entry ∧
      state'.1.renderings.get? (batch.key decl entry) = some rendering) ∧
    ∀ key held, state.1.renderings.get? key = some held → state'.1.renderings.get? key = some held := by
  obtain ⟨key, hkey, henters⟩ := batch.entersBy state decl rendering state' hok
  obtain ⟨entry, hentry, rfl⟩ := Option.map_eq_some_iff.mp hkey
  exact ⟨⟨entry, hentry, henters.remembered⟩, fun _ _ hheld => henters.keeps (fun h => Bool.false_ne_true h.1) hheld⟩

/-- What layouts and host names are made from is the same as at the beginning of the batch. -/
structure Steady (batch : StructBatch) (start : Session) (state : Session × Resolver) : Prop where
  resolver : state.2 = { batch.resolver start with memo := state.2.memo }
  remembers : (batch.resolver start).Remembers state.2.memo
  hostNames : ∀ name, batch.hostName? state.1 name = batch.hostName? start name

theorem Steady.init (batch : StructBatch) (start : Session) :
    batch.Steady start (start, batch.resolver start) where
  resolver := rfl
  remembers _ _ h := by cases h
  hostNames _ := rfl

theorem Steady.step (h : batch.Steady start state) (hok : batch.step state decl = .ok (rendering, state')) :
    batch.Steady start state' := by
  obtain ⟨entry, hentry, ⟨-, rfl⟩ | ⟨-, hbuild, hcommit⟩⟩ := step_eq_ok_iff.mp hok
  · exact h
  · obtain ⟨layout, body, hresolve, -, rfl⟩ := build_eq_ok_iff.mp hbuild
    rw [h.resolver] at hresolve
    obtain ⟨-, memo, hmemo, hfound⟩ :=
      Resolver.laysOut_of_resolve (Resolver.remembers_withMemo.mpr h.remembers) hresolve
    constructor
    case resolver => rw [hmemo]
    case remembers => exact hmemo ▸ Resolver.remembers_withMemo.mp hfound
    case hostNames => exact fun name => (hostName?_of_commit hentry hcommit name).trans (h.hostNames name)

/-- The progress of a batch, with what its resolver and its session remember. -/
structure Answered (batch : StructBatch) (start : Session) (before : List StructDecl)
    (state : Session × Resolver) : Prop extends Progress batch start before state where
  remembers : (batch.resolver start).Remembers state.2.memo
  answered : ∀ decl ∈ before, ∃ entry rendering,
    state.1.renderings.get? (batch.key decl entry) = some rendering
  keeps : ∀ key rendering, start.renderings.get? key = some rendering →
    state.1.renderings.get? key = some rendering

theorem Answered.init (hstart : start.Recorded) :
    Answered batch start [] (start, batch.resolver start) where
  toProgress := .init hstart
  remembers _ _ h := by cases h
  answered := by simp
  keeps _ _ h := h

theorem Answered.step (hstart : start.Recorded) (h : Answered batch start before state)
    (hmem : decl ∈ batch.structs) (hok : batch.step state decl = .ok (rendering, state')) :
    Answered batch start (before ++ [decl]) state' := by
  obtain ⟨hown, hothers⟩ := remembered_of_step hok
  constructor
  case toProgress => exact h.toProgress.step hstart hmem hok
  case remembers => exact (Steady.step ⟨h.resolver, h.remembers, h.hostNames⟩ hok).remembers
  case answered =>
    intro other hother
    rcases List.mem_append.mp hother with hbefore | hlast
    · obtain ⟨entry, held, hheld⟩ := h.answered other hbefore
      exact ⟨entry, held, hothers _ _ hheld⟩
    · rw [List.mem_singleton.mp hlast]
      obtain ⟨entry, -, hheld⟩ := hown
      exact ⟨entry, rendering, hheld⟩
  case keeps => exact fun key held hheld => hothers key held (h.keeps key held hheld)

theorem answered_of_render {module : OutputModule} (hstart : start.Recorded)
    (hok : (batch.render start).2 = .ok module) :
    ∃ state : Session × Resolver, (batch.render start).1 = state.1 ∧
      Answered batch start batch.structs state :=
  render_induction (.init hstart) (fun hmem hbefore hstep => hbefore.step hstart hmem hstep) hok

/-! ### After a batch that goes through -/

theorem get?_known (batch : StructBatch) (start : Session) (name : String) :
    (batch.resolver start).known.get? name = (start.proxy? name).map (·.toExtent) :=
  Table.get?_mapValues _ _ _

theorem extentAt?_zero (batch : StructBatch) (start : Session) :
    (batch.resolver start).extentAt? 0 = start.typeExtent? := by
  have hnamed : (batch.resolver start).namedAt? 0 = fun name => (start.proxy? name).map (·.toExtent) := by
    funext name
    rw [Resolver.namedAt?, get?_known, Resolver.layoutAt?, Option.map_none, Option.or_none]
  rw [Resolver.extentAt?, hnamed]
  rfl

/-- A struct that had no proxy before has one of its layout. -/
theorem Answered.laysOut_of_new (h : Answered batch start before state) (hnew : start.proxy? name = none)
    (hproxy : state.1.proxy? name = some proxy) :
    ∃ layout, (batch.resolver start).LaysOut name layout ∧ proxy.toExtent = layout.toExtent := by
  rcases h.laidOut name proxy hproxy with hold | ⟨layout, hfound, hextent⟩
  · rw [hnew] at hold
    cases hold
  · exact ⟨layout, h.remembers name layout hfound, hextent⟩

theorem Answered.proxy?_of_namedAt? (h : Answered batch start batch.structs state)
    (hextent : (batch.resolver start).namedAt? depth name = some extent) :
    (state.1.proxy? name).map (·.toExtent) = some extent := by
  rw [Resolver.namedAt?, get?_known, Option.or_eq_some_iff] at hextent
  rcases hextent with hknown | ⟨hunknown, hfound⟩
  · obtain ⟨proxy, hproxy, rfl⟩ := Option.map_eq_some_iff.mp hknown
    rw [h.kept name proxy hproxy]
    rfl
  · obtain ⟨layout, hlayout, rfl⟩ := Option.map_eq_some_iff.mp hfound
    have hlaysOut : (batch.resolver start).LaysOut name layout := ⟨depth, hlayout⟩
    obtain ⟨decl, -, hdecl, -⟩ := hlaysOut.exists_placeBy?
    obtain ⟨hmem, hname⟩ := Resolver.mem_of_declared? hdecl
    obtain ⟨proxy, hproxy⟩ := h.registered decl hmem
    rw [hname] at hproxy
    obtain ⟨layout', hlayout', hsame⟩ := h.laysOut_of_new (Option.map_eq_none_iff.mp hunknown) hproxy
    rw [hproxy, Option.map_some, hsame, hlayout'.unique hlaysOut]

theorem Answered.typeExtent?_of_extentAt? (h : Answered batch start batch.structs state) {type : CType}
    (hextent : (batch.resolver start).extentAt? depth type = some extent) :
    state.1.typeExtent? type = some extent := by
  rw [Session.typeExtent?, h.config]
  exact Resolver.extentBy?_mono (fun _ _ => h.proxy?_of_namedAt?) hextent

theorem Answered.grounded (hstart : start.Grounded) (hreadable : ∀ decl ∈ batch.structs, decl.Readable)
    (h : Answered batch start batch.structs state) : state.1.Grounded where
  toRecorded := h.recorded hstart.toRecorded
  explained name proxy hproxy := by
    cases hold : start.proxy? name with
    | some old =>
      have hkept := h.kept name old hold
      rw [hproxy, Option.some.injEq] at hkept
      exact hkept ▸ (hstart.explained name old hold).mono h.config h.kept h.keeps
    | none =>
      obtain ⟨layout, hlayout, hextent⟩ := h.laysOut_of_new hold hproxy
      obtain ⟨decl, depth, hdecl, hplace⟩ := hlayout.exists_placeBy?
      obtain ⟨hmem, hname⟩ := Resolver.mem_of_declared? hdecl
      obtain ⟨entry, rendering, hheld⟩ := h.answered decl hmem
      refine ⟨batch, decl, entry, rendering, layout, ?_, hreadable decl hmem, hheld, ?_, hextent.symm⟩
      · rw [hname, h.coherent.named name proxy hproxy]
      · exact Resolver.placeBy?_mono (fun _ _ _ => h.typeExtent?_of_extentAt?) hplace

/-- **Every struct of a batch that goes through has a layout, and a proxy of its extent**, also when it was
only remembered. -/
theorem Answered.laysOut (hstart : start.Grounded) (hreadable : ∀ decl ∈ batch.structs, decl.Readable)
    (h : Answered batch start batch.structs state) (hmem : decl ∈ batch.structs) :
    ∃ layout proxy, (batch.resolver start).LaysOut decl.name layout ∧
      state.1.proxy? decl.name = some proxy ∧ proxy.toExtent = layout.toExtent := by
  obtain ⟨proxy, hproxy⟩ := h.registered decl hmem
  cases hold : start.proxy? decl.name with
  | none =>
    obtain ⟨layout, hlayout, hextent⟩ := h.laysOut_of_new hold hproxy
    exact ⟨layout, proxy, hlayout, hproxy, hextent⟩
  | some old =>
    obtain ⟨batch', decl', entry', rendering', layout, hname', hreadable', hheld', hplace, hextent⟩ :=
      hstart.explained decl.name old hold
    -- of several declarations with the name, the resolver takes the last
    obtain ⟨last, hlast⟩ := Resolver.exists_declared? (r := batch.resolver start) hmem
    obtain ⟨hlastMem, hlastName⟩ := Resolver.mem_of_declared? hlast
    obtain ⟨entry, rendering, hheld⟩ := h.answered last hlastMem
    have hname : decl'.name = last.name := by
      rw [hname', hlastName, hstart.coherent.named decl.name old hold]
    have hkey : batch'.key decl' entry' = batch.key last entry :=
      (h.recorded hstart.toRecorded).key_eq (h.keeps _ _ hheld') hheld hname
    refine ⟨layout, old, ⟨1, ?_⟩, h.kept decl.name old hold, hextent.symm⟩
    rw [Resolver.layoutAt?_succ, hlast, extentAt?_zero, Option.bind_some, ← hplace, Session.typeExtent?]
    exact (placeBy?_eq_of_key_eq hkey hreadable' (hreadable last hlastMem)).symm

theorem Answered.proxy?_of_laysOut (hstart : start.Grounded)
    (hreadable : ∀ decl ∈ batch.structs, decl.Readable) (h : Answered batch start batch.structs state)
    {layout : StructLayout} (hlayout : (batch.resolver start).LaysOut name layout) :
    ∃ proxy, state.1.proxy? name = some proxy ∧ proxy.toExtent = layout.toExtent := by
  obtain ⟨decl, -, hdecl, -⟩ := hlayout.exists_placeBy?
  obtain ⟨hmem, rfl⟩ := Resolver.mem_of_declared? hdecl
  obtain ⟨layout', proxy, hlayout', hproxy, hextent⟩ := h.laysOut hstart hreadable hmem
  exact ⟨proxy, hproxy, hlayout'.unique hlayout ▸ hextent⟩

theorem Answered.declared_of_proxy? (h : Answered batch start batch.structs state)
    (hproxy : state.1.proxy? name = some proxy) :
    start.proxy? name = some proxy ∨ name ∈ batch.structs.map (·.name) := by
  rcases h.laidOut name proxy hproxy with hold | ⟨layout, hfound, -⟩
  · exact .inl hold
  · obtain ⟨decl, -, hdecl, -⟩ := (h.remembers name layout hfound).exists_placeBy?
    exact .inr (Resolver.mem_names_of_declared? hdecl)

end StructBatch

end HostBinding
