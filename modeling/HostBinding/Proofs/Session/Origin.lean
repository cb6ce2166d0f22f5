import HostBinding.Proofs.Session.Coherence
import HostBinding.Proofs.Text.Cut

/-!
# Where a remembered rendering comes from

A renderer is called for one declaration after another, each time in the state that the declarations before
it have left. Whatever a session remembers was built by such a call, for a declaration with the same key,
and since then proxies have only been added: a reset would have forgotten the rendering too. The same is true
of every fragment that a session stores, also after the rendering that it was a part of has been forgotten.
-/

namespace HostBinding

/-- The state in which a batch comes to the declaration after `before`. -/
def StructBatch.stateAfter (batch : StructBatch) (session : Session) (before : List StructDecl) :
    Session × Resolver :=
  (Session.renderEach batch.step (session, batch.resolver session) session.emptyModule before).1

def FunctionBatch.stateAfter (batch : FunctionBatch) (session : Session)
    (before : List FunctionDecl) : Session :=
  (Session.renderEach batch.step session session.emptyModule before).1

/-- A renderer about to render one declaration. -/
inductive Call where
  | struct (batch : StructBatch) (state : Session × Resolver) (decl : StructDecl)
    (entry : TypeMapping)
  | function (batch : FunctionBatch) (session : Session) (decl : FunctionDecl)

namespace Call

def session : Call → Session
  | struct _ state _ _ => state.1
  | function _ session _ => session

def key : Call → DeclKey
  | struct batch _ decl entry => batch.key decl entry
  | function batch _ decl => batch.key decl

def build : Call → Except BindingError Rendering
  | struct batch state decl entry => (batch.build state decl entry).map Prod.fst
  | function batch session decl => batch.build session decl

def replaceable : Call → Bool
  | struct _ _ _ _ => false
  | function _ _ decl => decl.operator.isSome

/-- The calls that renderers make in sessions that start from a configuration. -/
inductive Occurs (config : Config) : Call → Prop
  | struct {s : Session} (batch : StructBatch) (before : List StructDecl) (decl : StructDecl)
      (after : List StructDecl) (entry : TypeMapping) : Session.Reachable config s →
      batch.structs = before ++ decl :: after → batch.mapping.get? decl.name = some entry →
      Occurs config (.struct batch (batch.stateAfter s before) decl entry)
  | function {s : Session} (batch : FunctionBatch) (before : List FunctionDecl)
      (decl : FunctionDecl) (after : List FunctionDecl) : Session.Reachable config s →
      batch.functions = before ++ decl :: after →
      Occurs config (.function batch (batch.stateAfter s before) decl)

/-- An earlier call that made what a session remembers under a key. -/
structure Made (config : Config) (s : Session) (key : DeclKey) (held : Rendering) (origin : Call) :
    Prop where
  occurs : origin.Occurs config
  key : origin.key = key
  build : origin.build = .ok held
  proxies : ∀ name proxy, origin.session.proxy? name = some proxy → s.proxy? name = some proxy

/-- An earlier call that rendered what a session stores under a name. -/
structure Wrote (config : Config) (s : Session) (id : FragmentId) (stored : Stored) (origin : Call) : Prop where
  occurs : origin.Occurs config
  key : origin.key = stored.owner
  built : ∃ rendering, origin.build = .ok rendering ∧ { toFragmentId := id, text := stored.text } ∈ rendering.owned
  proxies : ∀ name proxy, origin.session.proxy? name = some proxy → s.proxy? name = some proxy

end Call

theorem Call.Wrote.mono {config : Config} {s s' : Session} {id : FragmentId} {stored : Stored} {origin : Call}
    (h : origin.Wrote config s id stored)
    (hgrows : ∀ name proxy, s.proxy? name = some proxy → s'.proxy? name = some proxy) :
    origin.Wrote config s' id stored :=
  ⟨h.occurs, h.key, h.built, fun name proxy hproxy => hgrows name proxy (h.proxies name proxy hproxy)⟩

namespace Session

variable {config : Config} {s s' : Session} {key : DeclKey} {rendering : Rendering} {P : Session → Prop}

/-! ### What calls keep -/

/-- A property that a call keeps when it commits what it renders to. -/
def KeptByCalls (config : Config) (P : Session → Prop) : Prop :=
  ∀ (call : Call) (rendering : Rendering) (s' : Session), call.Occurs config → P call.session →
    call.build = .ok rendering → rendering.Proper call.key call.replaceable →
    call.session.commit call.key rendering call.replaceable = .ok s' → P s'

theorem KeptByCalls.structs (h : KeptByCalls config P) (hreachable : Reachable config s) (hs : P s)
    (batch : StructBatch) :
    ∀ before after, batch.structs = before ++ after → P (batch.stateAfter s before).1 := by
  refine renderEach_induction (P := fun state : Session × Resolver => P state.1) hs ?_
  intro before decl after hsplit rendering state' hstate hok
  obtain ⟨entry, hentry, ⟨-, rfl⟩ | ⟨-, hbuild, hcommit⟩⟩ := StructBatch.step_eq_ok_iff.mp hok
  · exact hstate
  · refine h (.struct batch (batch.stateAfter s before) decl entry) rendering state'.1
      (.struct batch before decl after entry hreachable hsplit hentry) hstate ?_ ?_ hcommit
    · simp only [Call.build, StructBatch.stateAfter, hbuild]
      rfl
    · obtain ⟨layout, body, -, -, rfl⟩ := StructBatch.build_eq_ok_iff.mp hbuild
      exact StructBatch.proper_written

theorem KeptByCalls.functions (h : KeptByCalls config P) (hreachable : Reachable config s) (hs : P s)
    (batch : FunctionBatch) :
    ∀ before after, batch.functions = before ++ after → P (batch.stateAfter s before) := by
  refine renderEach_induction hs ?_
  intro before decl after hsplit rendering s' hstate hok
  obtain ⟨-, rfl⟩ | ⟨-, hbuild, hcommit⟩ := FunctionBatch.step_eq_ok_iff.mp hok
  · exact hstate
  · exact h (.function batch (batch.stateAfter s before) decl) rendering s'
      (.function batch before decl after hreachable hsplit) hstate hbuild
      (FunctionBatch.proper_of_build hbuild) hcommit

theorem KeptByCalls.reachable (h : KeptByCalls config P) (hnew : P { config := config })
    (hreset : ∀ s, P s → P s.reset) (hs : Reachable config s) : P s := by
  induction hs with
  | new => exact hnew
  | structs batch hs ih => exact h.structs hs ih batch batch.structs [] (List.append_nil _).symm
  | functions batch hs ih => exact h.functions hs ih batch batch.functions [] (List.append_nil _).symm
  | reset _ ih => exact hreset _ ih

/-- What holds of every reachable session also holds wherever a renderer is called. -/
theorem KeptByCalls.occurs (h : KeptByCalls config P) (hnew : P { config := config })
    (hreset : ∀ s, P s → P s.reset) {call : Call} (hcall : call.Occurs config) : P call.session := by
  cases hcall with
  | struct batch before decl after entry hs hsplit _ =>
    exact h.structs hs (h.reachable hnew hreset hs) batch before (decl :: after) hsplit
  | function batch before decl after hs hsplit =>
    exact h.functions hs (h.reachable hnew hreset hs) batch before (decl :: after) hsplit

/-! ### Where renderings come from -/

/-- What a run keeps about the past of a session. -/
structure Traced (config : Config) (s : Session) : Prop where
  configured : s.config = config
  origin : ∀ key held, s.renderings.get? key = some held → ∃ call : Call, call.Made config s key held
  hostName : ∀ name proxy, s.proxy? name = some proxy → Text.Within Text.isWordChar proxy.hostName

theorem traced_of_empty (hconfig : s.config = config) (hrenderings : s.renderings = ∅)
    (hproxies : s.proxies = ∅) : s.Traced config where
  configured := hconfig
  origin _ _ h := by simp [hrenderings, Table.get?_empty] at h
  hostName _ _ h := by simp [proxy?, hproxies, Table.get?_empty] at h

theorem keptByCalls_traced : KeptByCalls config (Traced config) := by
  intro call rendering s' hoccurs hs hbuild hproper hcommit
  have hgrows : ∀ name proxy, call.session.proxy? name = some proxy → s'.proxy? name = some proxy :=
    fun name proxy => proxy?_of_commit hcommit
  obtain ⟨hs', -, -⟩ := commit_eq_ok_iff.mp hcommit
  constructor
  case configured => rw [hs', ← hs.configured]; rfl
  case origin =>
    intro k held hheld
    by_cases hk : k = call.key
    · subst hk
      rw [hs', get?_renderings_accept, if_pos rfl, Option.some.injEq] at hheld
      subst hheld
      exact ⟨call, hoccurs, rfl, hbuild, hgrows⟩
    · rw [hs', get?_renderings_accept_of_ne hk] at hheld
      obtain ⟨origin, hmade⟩ := hs.origin k held hheld.1
      exact ⟨origin, hmade.occurs, hmade.key, hmade.build,
        fun name proxy h => hgrows name proxy (hmade.proxies name proxy h)⟩
  case hostName =>
    intro name proxy hproxy
    rw [hs', proxy?, get?_proxies_accept, Option.or_eq_some_iff] at hproxy
    rcases hproxy with hown | ⟨-, hold⟩
    · obtain ⟨hown, -⟩ := Option.filter_eq_some_iff.mp hown
      obtain ⟨-, -, ⟨stem, hstem⟩, -⟩ := hproper.proxy proxy hown
      exact hstem ▸ Text.within_sanitize stem
    · exact hs.hostName name proxy hold

theorem Traced.reset (hs : s.Traced config) : s.reset.Traced config :=
  traced_of_empty hs.configured rfl rfl

theorem Reachable.traced (hs : Reachable config s) : s.Traced config :=
  keptByCalls_traced.reachable (traced_of_empty rfl rfl rfl) (fun _ => Traced.reset) hs

theorem Reachable.exists_written {held : Rendering} (hs : Reachable config s)
    (hheld : s.renderings.get? key = some held) (hkind : key.kind = .struct) :
    ∃ decl entry layout body, key.name = decl.name ∧ held = StructBatch.written decl entry layout body := by
  obtain ⟨origin, hmade⟩ := hs.traced.origin key held hheld
  have hbuild := hmade.build
  obtain rfl := hmade.key
  cases origin with
  | function => cases hkind
  | struct batch state decl entry =>
    obtain ⟨⟨_, resolver⟩, hstruct, rfl⟩ := map_eq_ok_iff.mp hbuild
    obtain ⟨layout, body, -, -, rfl⟩ := StructBatch.build_eq_ok_iff.mp hstruct
    exact ⟨decl, entry, layout, body, rfl, rfl⟩

/-! ### Where fragments come from -/

/-- Every fragment that belongs to a declaration was rendered by a call for it. -/
def Sourced (config : Config) (s : Session) : Prop :=
  ∀ id stored, s.fragments.get? id = some stored → id.kind ≠ .importLine →
    ∃ origin : Call, origin.Wrote config s id stored

theorem sourced_of_empty (hfragments : s.fragments = ∅) : s.Sourced config := by
  intro id stored h
  simp [hfragments, Table.get?_empty] at h

theorem keptByCalls_sourced : KeptByCalls config (Sourced config) := by
  intro call rendering s' hoccurs hs hbuild hproper hcommit id stored hstored hkind
  have hgrows : ∀ name proxy, call.session.proxy? name = some proxy → s'.proxy? name = some proxy :=
    fun name proxy => proxy?_of_commit hcommit
  obtain ⟨rfl, -, -⟩ := commit_eq_ok_iff.mp hcommit
  rcases get?_storeFragments_cases hstored with hold | ⟨fragment, hmem, rfl, rfl⟩
  · obtain ⟨origin, hwrote⟩ := hs id stored hold hkind
    exact ⟨origin, hwrote.mono hgrows⟩
  · exact ⟨call, hoccurs, rfl, ⟨rendering, hbuild, Rendering.mem_owned.mpr ⟨hmem, hkind⟩⟩, hgrows⟩

theorem Reachable.sourced (hs : Reachable config s) : s.Sourced config :=
  keptByCalls_sourced.reachable (sourced_of_empty rfl) (fun _ _ => sourced_of_empty rfl) hs

end Session

theorem Call.Occurs.sourced {config : Config} {call : Call} (hcall : call.Occurs config) :
    call.session.Sourced config :=
  Session.keptByCalls_sourced.occurs (Session.sourced_of_empty rfl) (fun _ _ => Session.sourced_of_empty rfl) hcall

theorem Call.Occurs.traced {config : Config} {call : Call} (hcall : call.Occurs config) :
    call.session.Traced config :=
  Session.keptByCalls_traced.occurs (Session.traced_of_empty rfl rfl rfl) (fun _ => Session.Traced.reset) hcall

end HostBinding
