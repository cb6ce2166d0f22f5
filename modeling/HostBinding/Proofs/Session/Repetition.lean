import HostBinding.Proofs.FunctionBinding.Simple
import HostBinding.Proofs.Session.BatchOrder
import HostBinding.Proofs.Session.Takeover

/-!
# Rendering a batch again

Where nothing is taken over, everything that a batch has rendered is remembered at its end, so rendering it
again only looks it up. Where the last operator wins, an operator of the batch may have been forgotten and is
rendered again. It then renders to the same as before, because a key determines the rendering of an operator on
values while the proxies stay as they are. So the second run is a second pass of the same entrants.
-/

namespace HostBinding

namespace Session

/-- When rendering succeeds, rendering once more gives the same module and leaves the session as it is. -/
def Repeats (s : Session) (render : Session → Session × Except BindingError OutputModule) : Prop :=
  ∀ module, (render s).2 = .ok module →
    (render (render s).1).2 = .ok module ∧ (render (render s).1).1.Equivalent (render s).1

variable {σ δ : Type} {step : σ → δ → Except BindingError (Rendering × σ)} {P : σ → Prop} {decls : List δ}
  {state state' : σ} {collected module : OutputModule}

/-! ### Looking everything up -/

/-- A batch that remembers what it renders, and forgets nothing, looks everything up the next time. -/
theorem renderEach_again (view : σ → Session) (Held : Session → δ → Rendering → Prop)
    (hhit : ∀ state decl rendering, Held (view state) decl rendering → step state decl = .ok (rendering, state))
    (hstep : ∀ state decl rendering state', P state → step state decl = .ok (rendering, state') →
      P state' ∧ Held (view state') decl rendering ∧
        ∀ other held, Held (view state) other held → Held (view state') other held)
    (hstart : P state) (hok : (renderEach step state collected decls).2 = .ok module)
    (hview : view state' = view (renderEach step state collected decls).1) :
    renderEach step state' collected decls = (state', .ok module) := by
  have hkeeps (decls : List δ) (state : σ) (collected : OutputModule) (hstart : P state) (other : δ)
      (held : Rendering) (hheld : Held (view state) other held) :
      Held (view (renderEach step state collected decls).1) other held := by
    induction decls generalizing state collected with
    | nil => exact hheld
    | cons decl rest ih =>
      rw [renderEach]
      cases hrendered : step state decl with
      | error cause => exact hheld
      | ok rendered =>
        obtain ⟨hnext, -, hothers⟩ := hstep state decl _ _ hstart hrendered
        exact ih _ _ hnext (hothers other held hheld)
  induction decls generalizing state collected with
  | nil =>
    cases hok
    rfl
  | cons decl rest ih =>
    rw [renderEach] at hok hview
    cases hrendered : step state decl with
    | error cause =>
      rw [hrendered] at hok
      cases hok
    | ok rendered =>
      rw [hrendered] at hok hview
      obtain ⟨hnext, hown, -⟩ := hstep state decl _ _ hstart hrendered
      rw [renderEach, hhit state' decl rendered.1]
      · exact ih hnext hok hview
      · rw [hview]
        exact hkeeps rest _ _ hnext decl _ hown

/-- A batch whose declarations render to the same in all states that count collects the same module in
each. -/
theorem exists_renderEach_eq (made : δ → Rendering) (next : σ → δ → σ)
    (hstep : ∀ decl ∈ decls, ∀ state, P state →
      step state decl = .ok (made decl, next state decl) ∧ P (next state decl))
    (collected : OutputModule) :
    ∃ module, ∀ state, P state →
      renderEach step state collected decls = (decls.foldl next state, .ok module) := by
  induction decls generalizing collected with
  | nil => exact ⟨collected, fun state _ => rfl⟩
  | cons decl rest ih =>
    obtain ⟨module, hmodule⟩ := ih (fun other hmem => hstep other (List.mem_cons_of_mem _ hmem))
      (((made decl).includes.foldl OutputModule.addInclude collected).extend (made decl).fragments)
    refine ⟨module, fun state hstate => ?_⟩
    obtain ⟨hok, hnext⟩ := hstep decl List.mem_cons_self state hstate
    rw [renderEach, hok]
    exact hmodule _ hnext

end Session

/-! ### Where nothing is taken over -/

namespace StructBatch

variable {batch : StructBatch} {state state' : Session × Resolver} {decl : StructDecl} {rendering : Rendering}

/-- A struct is remembered with a rendering. -/
def Holds (batch : StructBatch) (s : Session) (decl : StructDecl) (rendering : Rendering) : Prop :=
  ∃ entry, batch.mapping.get? decl.name = some entry ∧
    s.renderings.get? (batch.key decl entry) = some rendering

theorem holds_of_step (hok : batch.step state decl = .ok (rendering, state')) :
    batch.Holds state'.1 decl rendering ∧
      ∀ other held, batch.Holds state.1 other held → batch.Holds state'.1 other held := by
  obtain ⟨hown, hothers⟩ := remembered_of_step hok
  exact ⟨hown, fun other held ⟨entry, hentry, hheld⟩ => ⟨entry, hentry, hothers _ _ hheld⟩⟩

theorem config_render (batch : StructBatch) (s : Session) : (batch.render s).1.config = s.config :=
  batch.entersBy.renderEach (P := fun t => t.config = s.config)
    (fun _ _ _ _ _ hconfig henters => henters.config_eq.trans hconfig) rfl _ _

/-- Structs are never taken over. -/
theorem repeats (batch : StructBatch) (s : Session) : s.Repeats batch.render := by
  intro module hok
  have hempty := Session.emptyModule_eq (batch.config_render s)
  have hagain := Session.renderEach_again (P := fun _ => True) Prod.fst batch.Holds
    (fun state decl rendering ⟨entry, hentry, hheld⟩ =>
      step_eq_ok_iff.mpr ⟨entry, hentry, .inl ⟨hheld, rfl⟩⟩)
    (fun state decl rendering state' _ hok => ⟨trivial, holds_of_step hok⟩) trivial hok
    (show ((batch.render s).1, batch.resolver (batch.render s).1).1 = _ from rfl)
  rw [← hempty] at hagain
  rw [render, hagain]
  exact ⟨rfl, .refl _⟩

end StructBatch

namespace FunctionBatch

variable {batch : FunctionBatch} {s start t : Session} {decl : FunctionDecl} {rendering : Rendering}
  {config : Config}

theorem config_render (batch : FunctionBatch) (s : Session) :
    (batch.render s).1.config = s.config ∧ (batch.render s).1.proxies = s.proxies := by
  refine Session.renderEach_induction (P := fun t : Session => t.config = s.config ∧ t.proxies = s.proxies)
    ⟨rfl, rfl⟩ ?_ batch.functions [] (List.append_nil _).symm
  intro _ _ _ _ _ _ hsame hok
  obtain ⟨hconfig, hproxies⟩ := proxies_of_step hok
  exact ⟨hconfig.trans hsame.1, hproxies.trans hsame.2⟩

theorem repeats_of_reject (batch : FunctionBatch) (hreject : s.config.operatorOverride = .reject) :
    s.Repeats batch.render := by
  intro module hok
  have hempty := Session.emptyModule_eq (batch.config_render s).1
  have hagain := Session.renderEach_again (P := fun t : Session => t.config = s.config) (fun t => t)
    (fun t decl rendering => t.renderings.get? (batch.key decl) = some rendering)
    (fun t decl rendering hheld => step_eq_ok_iff.mpr (.inl ⟨hheld, rfl⟩)) ?_ rfl hok
    (show (batch.render s).1 = _ from rfl)
  · rw [← hempty] at hagain
    rw [render, hagain]
    exact ⟨rfl, .refl _⟩
  · intro t decl rendering t' hconfig hok
    obtain ⟨key, hkey, henters⟩ := batch.entersBy t decl rendering t' hok
    obtain rfl := Option.some.inj hkey
    refine ⟨henters.config_eq.trans hconfig, henters.remembered, fun other held hheld => henters.keeps ?_ hheld⟩
    simp [hconfig, hreject]

end FunctionBatch

/-! ### Where the last operator wins -/

namespace Session

variable {config : Config} {s s' : Session} {key : DeclKey} {rendering : Rendering} {replaceable : Bool}

/-- The sessions that structs alone make of a new one. -/
inductive StructsOnly (config : Config) : Session → Prop
  | new : StructsOnly config { config := config }
  | structs {s : Session} (batch : StructBatch) : StructsOnly config s → StructsOnly config (batch.render s).1

/-- The sessions that structs and after them functions make of a new one. The types of the functions have been
read. -/
inductive StructsFirst (config : Config) : Session → Prop
  | structs {s : Session} : StructsOnly config s → StructsFirst config s
  | functions {s : Session} (batch : FunctionBatch) : StructsFirst config s →
    (∀ decl ∈ batch.functions, decl.Readable) → StructsFirst config (batch.render s).1

theorem StructsFirst.reachable (hs : StructsFirst config s) : Reachable config s := by
  induction hs with
  | structs hs =>
    induction hs with
    | new => exact .new
    | structs batch _ ih => exact .structs batch ih
  | functions batch _ _ ih => exact .functions batch ih

/-- A function that the session knows under a key, as it would be rendered now. -/
def Renders (s : Session) (key : DeclKey) (rendering : Rendering) : Prop :=
  ∃ (batch : FunctionBatch) (decl : FunctionDecl), decl.Readable ∧ batch.key decl = key ∧
    batch.build s decl = .ok rendering

/-- Everything that a session holds of functions is what they would render to now. -/
structure Current (s : Session) : Prop where
  held : ∀ key held, s.renderings.get? key = some held → key.kind = .function → s.Renders key held
  owned : ∀ id stored, s.fragments.get? id = some stored → id.kind ≠ .importLine →
    stored.owner.kind = .function → ∃ rendering, s.Renders stored.owner rendering ∧
      ∃ fragment ∈ rendering.owned, fragment.toFragmentId = id

theorem Renders.congr (hconfig : s'.config = s.config) (hproxies : s'.proxies = s.proxies)
    (h : s.Renders key rendering) : s'.Renders key rendering := by
  obtain ⟨batch, decl, hread, hkey, hbuild⟩ := h
  exact ⟨batch, decl, hread, hkey, by rw [FunctionBatch.build_congr hconfig hproxies, hbuild]⟩

theorem StructsOnly.kind_eq (hs : StructsOnly config s) :
    (∀ key held, s.renderings.get? key = some held → key.kind = .struct) ∧
    ∀ id stored, s.fragments.get? id = some stored → stored.owner.kind = .struct := by
  induction hs with
  | new => exact ⟨(fun _ _ h => by cases h), (fun _ _ h => by cases h)⟩
  | @structs s batch _ ih =>
    refine renderEach_induction (P := fun state : Session × Resolver =>
      (∀ key held, state.1.renderings.get? key = some held → key.kind = .struct) ∧
      ∀ id stored, state.1.fragments.get? id = some stored → stored.owner.kind = .struct) ih ?_
      batch.structs [] (List.append_nil _).symm
    intro _ decl _ _ rendering state' hstate hok
    obtain ⟨entry, -, ⟨-, rfl⟩ | ⟨-, -, hcommit⟩⟩ := StructBatch.step_eq_ok_iff.mp hok
    · exact hstate
    obtain ⟨hadmits, hsession⟩ := commit_false_eq_ok_iff.mp hcommit
    rw [hsession]
    constructor
    · intro k held hheld
      rw [hadmits.get?_renderings_accept] at hheld
      by_cases hk : k = batch.key decl entry
      · exact hk ▸ rfl
      · exact hstate.1 k held (by rwa [if_neg hk] at hheld)
    · intro id stored hstored
      obtain hold | ⟨_, -, -, rfl⟩ := get?_storeFragments_cases hstored
      · exact hstate.2 id stored hold
      · rfl

theorem Current.commit (hs : s.Current) {batch : FunctionBatch} {decl : FunctionDecl} (hread : decl.Readable)
    (hbuild : batch.build s decl = .ok rendering)
    (hcommit : s.commit (batch.key decl) rendering replaceable = .ok s') : s'.Current := by
  obtain ⟨hconfig, hproxies⟩ := FunctionBatch.proxies_of_commit hbuild hcommit
  obtain ⟨rfl, -, -⟩ := commit_eq_ok_iff.mp hcommit
  have hown : s.Renders (batch.key decl) rendering := ⟨batch, decl, hread, rfl, hbuild⟩
  constructor
  · intro k held hheld hkind
    by_cases hk : k = batch.key decl
    · subst hk
      rw [get?_renderings_accept, if_pos rfl, Option.some.injEq] at hheld
      exact hheld ▸ hown.congr hconfig hproxies
    · rw [get?_renderings_accept_of_ne hk] at hheld
      exact (hs.held k held hheld.1 hkind).congr hconfig hproxies
  · intro id stored hstored hkind howner
    obtain hold | ⟨fragment, hmem, hid, rfl⟩ := get?_storeFragments_cases hstored
    · obtain ⟨held, hrenders, hfragment⟩ := hs.owned id stored hold hkind howner
      exact ⟨held, hrenders.congr hconfig hproxies, hfragment⟩
    · refine ⟨rendering, hown.congr hconfig hproxies, fragment, ?_, hid⟩
      exact Rendering.mem_owned.mpr ⟨hmem, hid ▸ hkind⟩

theorem Current.step (hs : s.Current) {batch : FunctionBatch} {decl : FunctionDecl} (hread : decl.Readable)
    (hok : batch.step s decl = .ok (rendering, s')) : s'.Current := by
  obtain ⟨-, rfl⟩ | ⟨-, hbuild, hcommit⟩ := FunctionBatch.step_eq_ok_iff.mp hok
  · exact hs
  · exact hs.commit hread hbuild hcommit

theorem StructsFirst.current (hs : StructsFirst config s) : s.Current := by
  induction hs with
  | structs hs =>
    obtain ⟨hrenderings, hfragments⟩ := hs.kind_eq
    constructor
    · intro key held hheld hkind
      rw [hrenderings key held hheld] at hkind
      cases hkind
    · intro id stored hstored _ howner
      rw [hfragments id stored hstored] at howner
      cases howner
  | functions batch _ hread ih =>
    refine renderEach_induction ih ?_ batch.functions [] (List.append_nil _).symm
    intro before decl after hsplit rendering s' hcurrent hok
    exact hcurrent.step (hread decl (hsplit ▸ by simp)) hok

end Session

namespace FunctionBatch

variable {batch : FunctionBatch} {s t : Session} {decl : FunctionDecl} {rendering : Rendering}

/-- Operators on values: what they take and return are leaves and references to leaves, and their types have
been read. -/
structure OnValues (batch : FunctionBatch) : Prop where
  operator : ∀ decl ∈ batch.functions, decl.operator.isSome = true
  simple : ∀ decl ∈ batch.functions, decl.isSimple = true
  readable : ∀ decl ∈ batch.functions, decl.Readable

/-- What a function renders to, when it does. -/
def made (batch : FunctionBatch) (s : Session) (decl : FunctionDecl) : Rendering :=
  (batch.build s decl).toOption.getD default

def entrant (batch : FunctionBatch) (s : Session) (decl : FunctionDecl) : Session.Entrant where
  key := batch.key decl
  rendering := batch.made s decl

theorem made_eq (hbuild : batch.build s decl = .ok rendering) : batch.made s decl = rendering := by
  rw [made, hbuild]
  rfl

/-- An operator on values is held as it would be rendered now. -/
theorem OnValues.build_of_renders (hbatch : batch.OnValues) (hmem : decl ∈ batch.functions)
    (h : s.Renders (batch.key decl) rendering) : batch.build s decl = .ok rendering := by
  obtain ⟨batch', decl', hread, hkey, hbuild⟩ := h
  exact (build_eq_ok_iff_of_key_eq hkey.symm (hbatch.readable decl hmem) hread
    (hbatch.simple decl hmem)).mpr hbuild

/-- When a batch goes through, each of its functions can be rendered at its beginning. -/
theorem OnValues.build_of_render (hbatch : batch.OnValues) (hs : s.Current) {module : OutputModule}
    (hok : (batch.render s).2 = .ok module) :
    ∀ decl ∈ batch.functions, batch.build s decl = .ok (batch.made s decl) := by
  have hstart : s.Current ∧ (s.config = s.config ∧ s.proxies = s.proxies) ∧
      ∀ decl ∈ ([] : List FunctionDecl), batch.build s decl = .ok (batch.made s decl) :=
    ⟨hs, ⟨rfl, rfl⟩, by simp⟩
  have hrun := Session.renderEach_ok_induction
    (P := fun done (t : Session) => t.Current ∧ (t.config = s.config ∧ t.proxies = s.proxies) ∧
      ∀ decl ∈ done, batch.build s decl = .ok (batch.made s decl)) hstart ?_ hok
  · exact hrun.2.2
  intro done decl rest t rendering t' hsplit hstate hok
  obtain ⟨hcurrent, hsame, hdone⟩ := hstate
  have hmem : decl ∈ batch.functions := by
    rw [← List.nil_append batch.functions, hsplit]
    simp
  have hbuild : batch.build s decl = .ok rendering := by
    rw [build_congr hsame.1.symm hsame.2.symm]
    obtain ⟨hheld, -⟩ | ⟨-, hbuild, -⟩ := step_eq_ok_iff.mp hok
    · exact hbatch.build_of_renders hmem (hcurrent.held _ _ hheld rfl)
    · exact hbuild
  obtain ⟨hconfig, hproxies⟩ := proxies_of_step hok
  refine ⟨hcurrent.step (hbatch.readable decl hmem) hok,
    ⟨hconfig.trans hsame.1, hproxies.trans hsame.2⟩, ?_⟩
  intro other hother
  rcases List.mem_append.mp hother with hbefore | hlast
  · exact hdone other hbefore
  · rw [List.mem_singleton.mp hlast, made_eq hbuild]
    exact hbuild

theorem OnValues.uniform (hbatch : batch.OnValues)
    (hbuild : ∀ decl ∈ batch.functions, batch.build s decl = .ok (batch.made s decl)) :
    Session.Uniform (batch.functions.map (batch.entrant s)) := by
  have hentrant : ∀ e ∈ batch.functions.map (batch.entrant s), ∃ decl ∈ batch.functions,
      batch.entrant s decl = e := fun e hmem => List.mem_map.mp hmem
  constructor
  · intro e hmem e' hmem' hkey
    obtain ⟨decl, hdecl, rfl⟩ := hentrant e hmem
    obtain ⟨decl', hdecl', rfl⟩ := hentrant e' hmem'
    have hsame := hbatch.build_of_renders hdecl
      ⟨batch, decl', hbatch.readable decl' hdecl', hkey.symm, hbuild decl' hdecl'⟩
    exact congrArg₂ Session.Entrant.mk hkey (made_eq hsame)
  · intro e hmem
    obtain ⟨decl, hdecl, rfl⟩ := hentrant e hmem
    exact hbatch.operator decl hdecl ▸ proper_of_build (hbuild decl hdecl)
  · intro e hmem
    obtain ⟨decl, hdecl, rfl⟩ := hentrant e hmem
    obtain ⟨plan, -, hwritten⟩ := build_eq_ok_iff.mp (hbuild decl hdecl)
    rw [entrant, hwritten]
    rfl

theorem OnValues.expects (hbatch : batch.OnValues) (hlast : s.config.operatorOverride = .lastWins)
    (hcoherent : s.Coherent) (hs : s.Current) : s.Expects (batch.functions.map (batch.entrant s)) where
  lastWins := hlast
  coherent := hcoherent
  held e hmem held hheld := by
    obtain ⟨decl, hdecl, rfl⟩ := List.mem_map.mp hmem
    exact (made_eq (hbatch.build_of_renders hdecl (hs.held _ held hheld rfl))).symm
  owned e hmem id stored hkind hstored howner := by
    obtain ⟨decl, hdecl, rfl⟩ := List.mem_map.mp hmem
    obtain ⟨rendering, hrenders, hfragment⟩ := hs.owned id stored hstored hkind (howner ▸ rfl)
    rw [entrant, made_eq (hbatch.build_of_renders hdecl (howner ▸ hrenders))]
    exact hfragment

theorem OnValues.step_eq (hbatch : batch.OnValues) (hmem : decl ∈ batch.functions)
    (hbuild : ∀ decl ∈ batch.functions, batch.build s decl = .ok (batch.made s decl))
    (ht : t.Expects (batch.functions.map (batch.entrant s)))
    (hsame : t.config = s.config ∧ t.proxies = s.proxies) :
    batch.step t decl = .ok (batch.made s decl, t.enter (batch.entrant s decl)) := by
  have hentrant : batch.entrant s decl ∈ batch.functions.map (batch.entrant s) := List.mem_map_of_mem hmem
  rw [step_eq_ok_iff]
  cases hheld : t.renderings.get? (batch.key decl) with
  | some held =>
    have hmade := ht.held _ hentrant held hheld
    refine .inl ⟨congrArg some hmade, ?_⟩
    rw [Session.enter, if_pos]
    rw [Table.contains, entrant, hheld]
    rfl
  | none =>
    refine .inr ⟨rfl, (build_congr hsame.1 hsame.2).trans (hbuild decl hmem), ?_⟩
    rw [hbatch.operator decl hmem, Session.enter, if_neg]
    · exact Session.commit_of_expects ht ((hbatch.uniform hbuild).proxy _ hentrant)
    · rw [Table.contains, entrant, hheld]
      simp

/-- **Operators on values that are taken over from each other settle in one run.** -/
theorem OnValues.repeats (hbatch : batch.OnValues) (hlast : s.config.operatorOverride = .lastWins)
    (hcoherent : s.Coherent) (hs : s.Current) : s.Repeats batch.render := by
  intro module hok
  have hbuild := hbatch.build_of_render hs hok
  have huniform := hbatch.uniform hbuild
  have hexpects := hbatch.expects hlast hcoherent hs
  obtain ⟨module', hmodule⟩ := Session.exists_renderEach_eq (σ := Session)
    (P := fun t => t.Expects (batch.functions.map (batch.entrant s)) ∧ t.config = s.config ∧
      t.proxies = s.proxies) (batch.made s) (fun t decl => t.enter (batch.entrant s decl)) (fun decl hmem t ht =>
      have hstep := hbatch.step_eq hmem hbuild ht.1 ht.2
      have hsame := proxies_of_step hstep
      ⟨hstep, ht.1.enter huniform (List.mem_map_of_mem hmem), hsame.1.trans ht.2.1,
        hsame.2.trans ht.2.2⟩) s.emptyModule
  have hfirst : batch.render s = ((batch.functions.map (batch.entrant s)).foldl Session.enter s, .ok module') := by
    rw [List.foldl_map]
    exact hmodule s ⟨hexpects, rfl, rfl⟩
  obtain rfl : module' = module := by
    rw [hfirst] at hok
    exact Except.ok.inj hok
  have hsecond : batch.render (batch.render s).1 =
      ((batch.functions.map (batch.entrant s)).foldl Session.enter (batch.render s).1, .ok module') := by
    obtain ⟨hconfig, hproxies⟩ := batch.config_render s
    rw [List.foldl_map, render, Session.emptyModule_eq hconfig]
    refine hmodule _ ⟨?_, hconfig, hproxies⟩
    rw [hfirst]
    exact hexpects.pass huniform fun _ hmem => hmem
  rw [hsecond]
  refine ⟨rfl, ?_⟩
  rw [hfirst]
  exact Session.equivalent_pass_pass huniform hexpects

end FunctionBatch

/-- **Rendering a batch again changes nothing.** Where nothing is taken over this holds of every batch in every
session, and where the last operator wins of operators on values, after structs and functions have been
rendered in this order: the same module comes out, and the session stays as it is but for the order of what it
remembers. -/
theorem Session.render_twice {config : Config} (s : Session) :
    (config.operatorOverride = .reject → s.Reachable config →
      (∀ batch : StructBatch, s.Repeats batch.render) ∧ ∀ batch : FunctionBatch, s.Repeats batch.render) ∧
    (config.operatorOverride = .lastWins → s.StructsFirst config →
      ∀ batch : FunctionBatch, batch.OnValues → s.Repeats batch.render) := by
  constructor
  · intro hreject hs
    refine ⟨fun batch => batch.repeats s, fun batch => batch.repeats_of_reject ?_⟩
    rw [hs.traced.configured, hreject]
  · intro hlast hs batch hbatch
    refine hbatch.repeats ?_ hs.reachable.coherent hs.current
    rw [hs.reachable.traced.configured, hlast]

/-! ### Two operators that take one implementation from each other -/

namespace Session.Sample

def constOperand : CType :=
  .reference (.named "Vec2") true

def contested : FunctionBatch where
  functions := (sum constOperand).functions ++ (sum (.named "Vec2")).functions
  header := "vec.h"

theorem readable_sum {text : String} {operand : CType} (h : CType.ofSpelling text = .ok operand) :
    ∀ decl ∈ (sum operand).functions, decl.Readable := by
  intro decl hmem type htype
  obtain rfl := List.mem_singleton.mp hmem
  have hvalue : CType.ofSpelling "Vec2" = .ok (.named "Vec2") := by decide +kernel
  simp only [FunctionDecl.types, List.map_cons, List.map_nil, List.mem_cons, List.not_mem_nil, or_false,
    or_self] at htype
  rcases htype with rfl | rfl
  · exact ⟨"Vec2", hvalue⟩
  · exact ⟨text, h⟩

theorem summed_structsFirst : summed.StructsFirst { operatorOverride := .lastWins } :=
  .functions _ (.structs (.structs _ .new)) (readable_sum (show CType.ofSpelling "Vec2" = _ by decide +kernel))

theorem contested_onValues : contested.OnValues where
  operator := by decide
  simple := by decide
  readable decl hmem := by
    rcases List.mem_append.mp hmem with hconst | hvalue
    · exact readable_sum (show CType.ofSpelling "const Vec2 &" = _ by decide +kernel) decl hconst
    · exact readable_sum (show CType.ofSpelling "Vec2" = _ by decide +kernel) decl hvalue

end Session.Sample

theorem Session.render_twice_contested :
    (Session.Sample.scenes.render (Session.Sample.shapes.render {}).1).2.toOption.isSome = true ∧
    (Session.Sample.shapes.render {}).1.Repeats Session.Sample.scenes.render ∧
    Session.Sample.summed.StructsFirst { operatorOverride := .lastWins } ∧
    Session.Sample.contested.OnValues ∧
    (Session.Sample.contested.render Session.Sample.summed).2.toOption.isSome = true ∧
    -- the first operator is forgotten at the end
    (Session.Sample.contested.functions.map fun decl =>
      (Session.Sample.contested.render Session.Sample.summed).1.renderings.contains
        (Session.Sample.contested.key decl)) = [false, true] ∧
    Session.Sample.summed.Repeats Session.Sample.contested.render := by
  have hreject := (Session.render_twice (Session.Sample.shapes.render {}).1).1 rfl (.structs _ .new)
  have hlast := (Session.render_twice Session.Sample.summed).2 rfl Session.Sample.summed_structsFirst
  exact ⟨by decide +kernel, hreject.1 _, Session.Sample.summed_structsFirst, Session.Sample.contested_onValues,
    by decide +kernel, by decide +kernel, hlast _ Session.Sample.contested_onValues⟩

end HostBinding
