import HostBinding.Proofs.Layout.Resolver
import HostBinding.Proofs.Session.Coherence
import HostBinding.Proofs.StructBinding.Draft

/-!
# What a batch of structs leaves behind

Two descents have to agree on a struct: the resolver goes through native types and knows structs by name, and
the host compiler goes through the emitted types and knows proxies by their names. They meet in the proxies
that are registered at the end of a batch: each struct that the batch declares is registered with the layout
that the resolver found for it, under the name by which the types emitted before it already call it. A batch
that has come half-way has kept what it needs for that.
-/

namespace HostBinding

open StructBinding

namespace Session

def hostExtent? (s : Session) (hostName : String) : Option Extent :=
  (s.proxies.values.find? (·.hostName = hostName)).map (·.toExtent)

variable {s s' : Session}

theorem exists_of_hostExtent? {hostName : String} {extent : Extent}
    (h : s.hostExtent? hostName = some extent) :
    ∃ name proxy, s.proxy? name = some proxy ∧ proxy.hostName = hostName ∧ proxy.toExtent = extent := by
  obtain ⟨proxy, hfound, rfl⟩ := Option.map_eq_some_iff.mp h
  obtain ⟨⟨name, _⟩, hmem, rfl⟩ := List.mem_map.mp (List.mem_of_find?_eq_some hfound)
  exact ⟨name, _, Table.get?_eq_some_iff.mpr hmem, by simpa using List.find?_some hfound, rfl⟩

/-- Host names are unique, so looking one up finds its proxy. -/
theorem Coherent.hostExtent?_eq (hs : s.Coherent) {name : String} {proxy : Proxy}
    (h : s.proxy? name = some proxy) : s.hostExtent? proxy.hostName = some proxy.toExtent := by
  have hmem : proxy ∈ s.proxies.values := List.mem_map.mpr ⟨_, Table.get?_eq_some_iff.mp h, rfl⟩
  cases hfound : s.hostExtent? proxy.hostName with
  | none =>
    have hdiffers := List.find?_eq_none.mp (Option.map_eq_none_iff.mp hfound) proxy hmem
    simp at hdiffers
  | some extent =>
    obtain ⟨name', proxy', hproxy', hhost, rfl⟩ := exists_of_hostExtent? hfound
    have hname := hs.nativeName_eq hproxy' h hhost
    subst hname
    rw [h, Option.some.injEq] at hproxy'
    rw [hproxy']

theorem Coherent.hostExtent?_mono (hs' : s'.Coherent)
    (hmore : ∀ name proxy, s.proxy? name = some proxy → s'.proxy? name = some proxy) (hostName : String)
    (extent : Extent) (h : s.hostExtent? hostName = some extent) : s'.hostExtent? hostName = some extent := by
  obtain ⟨name, proxy, hproxy, rfl, rfl⟩ := exists_of_hostExtent? h
  exact hs'.hostExtent?_eq (hmore name proxy hproxy)

/-- The invariant of runs in which only structs are rendered: every rendering is that of a struct, and every
proxy belongs to one. -/
structure Recorded (s : Session) : Prop where
  coherent : s.Coherent
  written : ∀ key rendering, s.renderings.get? key = some rendering → ∃ decl entry layout body,
    key.name = decl.name ∧ rendering = StructBatch.written decl entry layout body
  held : ∀ name proxy, s.proxy? name = some proxy →
    ∃ key rendering, s.renderings.get? key = some rendering ∧ rendering.proxy = some proxy

/-- The invariant of such runs on a target of 64-bit pointers, with the structs of each batch told apart. -/
structure Sound (s : Session) : Prop where
  coherent : s.Coherent
  faithful : ∀ key rendering, s.renderings.get? key = some rendering → ∃ decl entry layout body,
    key.kind = .struct ∧ key.name = decl.name ∧ rendering = StructBatch.written decl entry layout body ∧
    Faithful s.hostExtent? (StructBatch.describe decl entry layout) body
  held : ∀ name proxy, s.proxy? name = some proxy →
    ∃ key rendering, s.renderings.get? key = some rendering ∧ rendering.proxy = some proxy

theorem Sound.recorded (hs : s.Sound) : s.Recorded where
  coherent := hs.coherent
  written key rendering h := by
    obtain ⟨decl, entry, layout, body, -, hname, hwritten, -⟩ := hs.faithful key rendering h
    exact ⟨decl, entry, layout, body, hname, hwritten⟩
  held := hs.held

end Session

namespace StructBatch

variable {batch : StructBatch} {start : Session} {before : List StructDecl}
  {state state' : Session × Resolver} {decl : StructDecl} {rendering : Rendering}

/-- What a batch has done after the structs `before`. -/
structure Progress (batch : StructBatch) (start : Session) (before : List StructDecl)
    (state : Session × Resolver) : Prop where
  config : state.1.config = start.config
  coherent : state.1.Coherent
  resolver : state.2 = { batch.resolver start with memo := state.2.memo }
  placed : ∀ name layout, state.2.memo.get? name = some layout →
    (batch.resolver start).Placed state.2.memo name layout
  kept : ∀ name proxy, start.proxy? name = some proxy → state.1.proxy? name = some proxy
  hostNames : ∀ name, batch.hostName? state.1 name = batch.hostName? start name
  laidOut : ∀ name proxy, state.1.proxy? name = some proxy → start.proxy? name = some proxy ∨
    ∃ layout, state.2.memo.get? name = some layout ∧ proxy.toExtent = layout.toExtent
  registered : ∀ decl ∈ before, ∃ proxy, state.1.proxy? decl.name = some proxy
  renderings : ∀ key rendering, state.1.renderings.get? key = some rendering →
    start.renderings.get? key = some rendering ∨ ∃ decl entry layout body, decl ∈ batch.structs ∧
      key = batch.key decl entry ∧ rendering = written decl entry layout body ∧
      state.2.memo.get? decl.name = some layout ∧ batch.body start decl entry.model layout = .ok body
  held : ∀ name proxy, state.1.proxy? name = some proxy →
    ∃ key rendering, state.1.renderings.get? key = some rendering ∧ rendering.proxy = some proxy

theorem Progress.init (hstart : start.Recorded) : Progress batch start [] (start, batch.resolver start) where
  config := rfl
  coherent := hstart.coherent
  resolver := rfl
  placed _ _ h := by cases h
  kept _ _ h := h
  hostNames _ := rfl
  laidOut _ _ h := .inl h
  registered := by simp
  renderings _ _ h := .inl h
  held := hstart.held

/-- The body of a proxy depends on batch and session only through the names that proxies have there. -/
theorem body_congr {batch' : StructBatch} {s t : Session}
    (h : ∀ name, batch.hostName? s name = batch'.hostName? t name)
    (decl : StructDecl) (model : ProxyModel) (layout : StructLayout) :
    batch.body s decl model layout = batch'.body t decl model layout := by
  have hnames : batch.hostName? s = batch'.hostName? t := funext h
  simp only [body, proxyFields, proxyField, hnames]

def proxyOf (decl : StructDecl) (entry : TypeMapping) (layout : StructLayout) : Proxy where
  toExtent := layout.toExtent
  nativeName := decl.name
  hostName := Text.sanitize (entry.hostNameFor decl.name)
  model := entry.model

variable {s s' : Session} {entry : TypeMapping} {layout : StructLayout} {body : ProxyBody} {key : DeclKey}

theorem proxy?_of_commit (hcommit : s.commit key (written decl entry layout body) false = .ok s')
    (name : String) :
    s'.proxy? name = (if name = decl.name then some (proxyOf decl entry layout) else s.proxy? name) ∧
    (name = decl.name → ∀ proxy, s.proxy? name = some proxy → proxy = proxyOf decl entry layout) := by
  obtain ⟨rfl, -, hfree⟩ := Session.commit_eq_ok_iff.mp hcommit
  constructor
  · rw [Session.proxy?, Session.get?_proxies_accept]
    by_cases hname : name = decl.name
    · subst hname
      simp [written, proxyOf, describe, Option.filter]
    · have hne : ¬ decl.name = name := fun heq => hname heq.symm
      simp [written, Option.filter, hname, hne, Session.proxy?]
  · rintro rfl proxy hproxy
    exact Session.proxyCollision?_eq_none.mp hfree _ rfl proxy hproxy

/-- The names that a batch uses do not change when one of its structs is registered. -/
theorem hostName?_of_commit (hentry : batch.mapping.get? decl.name = some entry)
    (hcommit : s.commit key (written decl entry layout body) false = .ok s') (name : String) :
    batch.hostName? s' name = batch.hostName? s name := by
  obtain ⟨hnew, hold⟩ := proxy?_of_commit hcommit name
  rw [hostName?_eq_or, hostName?_eq_or, Session.hostName?, Session.hostName?, hnew]
  by_cases hname : name = decl.name
  · subst hname
    rw [if_pos rfl, hentry]
    cases hproxy : s.proxy? decl.name with
    | none => rfl
    | some proxy => rw [hold rfl proxy hproxy]
  · rw [if_neg hname]

theorem get?_renderings_of_commit {k : DeclKey}
    (hcommit : s.commit key (written decl entry layout body) false = .ok s') :
    s'.renderings.get? k =
      if k = key then some (written decl entry layout body) else s.renderings.get? k := by
  obtain ⟨hadmits, rfl⟩ := Session.commit_false_eq_ok_iff.mp hcommit
  exact hadmits.get?_renderings_accept k

theorem Progress.recorded (hstart : start.Recorded) (h : Progress batch start before state) :
    state.1.Recorded where
  coherent := h.coherent
  written key rendering hheld := by
    rcases h.renderings key rendering hheld with hold | ⟨decl, entry, layout, body, -, rfl, rfl, -⟩
    · exact hstart.written key rendering hold
    · exact ⟨decl, entry, layout, body, rfl, rfl⟩
  held := h.held

theorem Progress.registered_of_held (hstart : start.Recorded) (h : Progress batch start before state)
    (hheld : state.1.renderings.get? key = some rendering) :
    ∃ proxy, state.1.proxy? key.name = some proxy := by
  obtain ⟨decl, entry, layout, body, hname, rfl⟩ := (h.recorded hstart).written key rendering hheld
  exact ⟨_, hname ▸ (h.coherent.holds key _ hheld).proxy _ rfl⟩

theorem config_of_step (hok : batch.step state decl = .ok (rendering, state')) :
    state'.1.config = state.1.config := by
  obtain ⟨key, -, henters⟩ := batch.entersBy state decl rendering state' hok
  exact henters.config_eq

theorem Progress.step (hstart : start.Recorded) (h : Progress batch start before state)
    (hmem : decl ∈ batch.structs) (hok : batch.step state decl = .ok (rendering, state')) :
    Progress batch start (before ++ [decl]) state' := by
  obtain ⟨entry, hentry, ⟨hheld, rfl⟩ | ⟨hmiss, hbuild, hcommit⟩⟩ := step_eq_ok_iff.mp hok
  · have hregistered := h.registered_of_held hstart hheld
    refine { h with registered := ?_ }
    intro other hother
    rcases List.mem_append.mp hother with hbefore | hlast
    · exact h.registered other hbefore
    · rw [List.mem_singleton.mp hlast]
      exact hregistered
  · obtain ⟨layout, body, hresolve, hbody, rfl⟩ := build_eq_ok_iff.mp hbuild
    obtain ⟨memo, hresolver, hfinds, hfound⟩ := Resolver.finds_of_resolve hresolve
    have hproxy := proxy?_of_commit hcommit
    have hmemo : state'.2.memo = memo := by rw [hresolver]
    constructor
    case config => exact (config_of_step hok).trans h.config
    case coherent => exact h.coherent.commit proper_written hcommit
    case resolver => rw [hresolver, h.resolver]
    case placed =>
      intro name found hname
      rw [hmemo] at hname ⊢
      rcases hfinds.placed name found hname with hold | hplaced
      · exact (h.placed name found hold).mono hfinds.keeps
      · rw [h.resolver] at hplaced
        exact (Resolver.placed_withMemo _).mp hplaced
    case kept => exact fun name proxy hold => Session.proxy?_of_commit hcommit (h.kept name proxy hold)
    case hostNames => exact fun name => (hostName?_of_commit hentry hcommit name).trans (h.hostNames name)
    case laidOut =>
      intro name proxy hnew
      rw [(hproxy name).1] at hnew
      rw [hmemo]
      by_cases hname : name = decl.name
      · rw [if_pos hname, Option.some.injEq] at hnew
        exact .inr ⟨layout, hname ▸ hfound, hnew ▸ rfl⟩
      · rw [if_neg hname] at hnew
        rcases h.laidOut name proxy hnew with hold | ⟨found, hmem, hextent⟩
        · exact .inl hold
        · exact .inr ⟨found, hfinds.keeps name found hmem, hextent⟩
    case registered =>
      intro other hother
      rcases List.mem_append.mp hother with hbefore | hlast
      · obtain ⟨proxy, hregistered⟩ := h.registered other hbefore
        exact ⟨proxy, Session.proxy?_of_commit hcommit hregistered⟩
      · rw [List.mem_singleton.mp hlast, (hproxy decl.name).1, if_pos rfl]
        exact ⟨_, rfl⟩
    case renderings =>
      intro k held hheld
      rw [get?_renderings_of_commit hcommit] at hheld
      rw [hmemo]
      by_cases hk : k = batch.key decl entry
      · rw [if_pos hk, Option.some.injEq] at hheld
        rw [body_congr h.hostNames] at hbody
        exact .inr ⟨decl, entry, layout, body, hmem, hk, hheld.symm, hfound, hbody⟩
      · rw [if_neg hk] at hheld
        rcases h.renderings k held hheld with
          hold | ⟨decl', entry', layout', body', hmem', hkey', hwritten', hfound', hbody'⟩
        · exact .inl hold
        · exact .inr ⟨decl', entry', layout', body', hmem', hkey', hwritten',
            hfinds.keeps _ _ hfound', hbody'⟩
    case held =>
      intro name proxy hnew
      rw [(hproxy name).1] at hnew
      by_cases hname : name = decl.name
      · rw [if_pos hname, Option.some.injEq] at hnew
        refine ⟨batch.key decl entry, written decl entry layout body, ?_, hnew ▸ rfl⟩
        rw [get?_renderings_of_commit hcommit, if_pos rfl]
      · rw [if_neg hname] at hnew
        obtain ⟨k, held, hheld, hown⟩ := h.held name proxy hnew
        have hk : k ≠ batch.key decl entry := by
          intro heq
          subst heq
          rw [hmiss] at hheld
          cases hheld
        refine ⟨k, held, ?_, hown⟩
        rw [get?_renderings_of_commit hcommit, if_neg hk]
        exact hheld

end StructBatch

end HostBinding
