import Mathlib.Data.List.Induction
import HostBinding.FunctionBinding.Render
import HostBinding.Proofs.FunctionBinding.Plan
import HostBinding.Proofs.Session.Commit

/-!
# Runs of a session

A session is only ever changed by a renderer or a reset, and a renderer changes it only by committing what
one declaration renders to. What both renderers commit has a common shape, `Rendering.Proper`, so a property
of sessions holds throughout a run as soon as a new session has it and commits of that shape preserve it.
What is true of both renderers is proved of `Session.Enters`, which is all that they do to a session.
-/

namespace HostBinding

/-- What a rendering looks like when a renderer made it for `key`. Only a struct has a proxy or a struct
binding, and a struct takes nothing over. -/
structure Rendering.Proper (rendering : Rendering) (key : DeclKey) (replaceable : Bool) : Prop where
  distinct : (rendering.owned.map (·.toFragmentId)).Nodup
  imports : ∀ fragment ∈ rendering.fragments, fragment.kind = .importLine →
    fragment = Fragment.ofImport fragment.name
  structBinding : ∀ fragment ∈ rendering.fragments, fragment.kind = .structBinding →
    key.kind = .struct ∧ replaceable = false
  proxy : ∀ proxy, rendering.proxy = some proxy → key.kind = .struct ∧ key.name = proxy.nativeName ∧
    (∃ name, proxy.hostName = Text.sanitize name) ∧
    ∃ fragment ∈ rendering.fragments, fragment.toFragmentId = ⟨.structBinding, proxy.hostName⟩

/-! ### One declaration -/

namespace FunctionBatch

variable {batch : FunctionBatch} {session session' : Session} {decl : FunctionDecl}
  {rendering : Rendering}

theorem step_eq_ok_iff :
    batch.step session decl = .ok (rendering, session') ↔
      session.renderings.get? (batch.key decl) = some rendering ∧ session' = session ∨
      session.renderings.get? (batch.key decl) = none ∧ batch.build session decl = .ok rendering ∧
        session.commit (batch.key decl) rendering decl.operator.isSome = .ok session' := by
  cases hheld : session.renderings.get? (batch.key decl) with
  | some held => simp [step, hheld, eq_comm]
  | none =>
    simp only [step, hheld, bind_eq_ok_iff, reduceCtorEq, false_and, false_or, true_and]
    constructor
    · intro hparts
      obtain ⟨r, hbuild, s, hcommit, heq⟩ := hparts
      cases heq
      exact ⟨hbuild, hcommit⟩
    · intro hparts
      obtain ⟨hbuild, hcommit⟩ := hparts
      exact ⟨rendering, hbuild, session', hcommit, rfl⟩

theorem build_eq_ok_iff :
    batch.build session decl = .ok rendering ↔
      ∃ plan, decl.plan session (batch.isOverloaded decl) = .ok plan ∧
        rendering = batch.rendering session.config plan := by
  simp only [build, bind_eq_ok_iff]
  exact exists_congr fun plan => and_congr_right fun _ =>
    ⟨fun h => by cases h; rfl, fun h => h ▸ rfl⟩

theorem proxyName_ne_implHead {plan : FunctionPlan} {operator : Operator} {overloaded : Bool}
    (hoperator : decl.operator = some operator) :
    decl.proxyName overloaded ≠ plan.implHead operator := by
  intro heq
  have hfirst := congrArg (fun name : String => name.toList.head?) heq
  simp [FunctionDecl.proxyName, FunctionDecl.mangledName, FunctionDecl.stem, FunctionPlan.implHead,
    hoperator] at hfirst

theorem owned_rendering (config : Config) (plan : FunctionPlan) :
    (batch.rendering config plan).owned =
      { kind := .functionBinding, name := plan.proxyName, text := plan.proxyText batch.header } ::
      (plan.operator.toList.map fun operator =>
        { kind := .functionBinding, name := plan.implHead operator, text := plan.implText operator }) ++
      [{ kind := .shim, name := plan.shimName, text := plan.shimText config.shimQualifiers }] := by
  have himports : ((importLines plan).map Fragment.ofImport).filter (·.kind ≠ .importLine) = [] := by
    simp [Fragment.ofImport]
  simp only [Rendering.owned, rendering, List.append_assoc, List.filter_append, himports,
    List.nil_append]
  simp

theorem eq_ofImport_of_mem_rendering {config : Config} {plan : FunctionPlan} {fragment : Fragment}
    (hmem : fragment ∈ (batch.rendering config plan).fragments) (hkind : fragment.kind = .importLine) :
    fragment = Fragment.ofImport fragment.name := by
  simp only [rendering, List.mem_append, List.mem_map, List.mem_singleton] at hmem
  obtain ((⟨line, -, rfl⟩ | rfl) | ⟨operator, -, rfl⟩) | rfl := hmem
  · rfl
  all_goals simp at hkind

theorem proper_of_build (hbuild : batch.build session decl = .ok rendering) :
    rendering.Proper (batch.key decl) decl.operator.isSome := by
  obtain ⟨plan, hplan, rfl⟩ := build_eq_ok_iff.mp hbuild
  obtain ⟨-, -, -, -, -, hoperator, -, hproxyName⟩ := FunctionDecl.plan_eq_ok_iff.mp hplan
  constructor
  case distinct =>
    rw [owned_rendering, hoperator]
    cases hop : decl.operator with
    | none => simp
    | some op => simp [hproxyName, proxyName_ne_implHead hop]
  case imports => exact fun fragment => eq_ofImport_of_mem_rendering
  case structBinding =>
    intro fragment hmem hkind
    have howned := Rendering.mem_owned.mpr ⟨hmem, by simp [hkind]⟩
    rw [owned_rendering] at howned
    have hother : fragment.kind = .functionBinding ∨ fragment.kind = .shim := by
      simp only [List.cons_append, List.mem_cons, List.mem_append, List.mem_map, List.not_mem_nil,
        or_false] at howned
      rcases howned with rfl | ⟨_, _, rfl⟩ | rfl <;> simp
    simp [hkind] at hother
  case proxy =>
    intro proxy hproxy
    simp [FunctionBatch.rendering] at hproxy

theorem plain_of_build (hbuild : batch.build session decl = .ok rendering) :
    ∀ fragment ∈ rendering.fragments, fragment.kind ≠ .opening := by
  intro fragment hmem
  obtain ⟨plan, -, rfl⟩ := build_eq_ok_iff.mp hbuild
  simp only [FunctionBatch.rendering, List.mem_append, List.mem_map, List.mem_singleton] at hmem
  rcases hmem with ((⟨line, -, rfl⟩ | rfl) | ⟨operator, -, rfl⟩) | rfl <;> simp [Fragment.ofImport]

end FunctionBatch

namespace StructBatch

variable {batch : StructBatch} {state state' : Session × Resolver} {decl : StructDecl}
  {entry : TypeMapping} {layout : StructLayout} {body : StructBinding.ProxyBody}
  {rendering : Rendering}

theorem build_eq_ok_iff {resolver : Resolver} :
    batch.build state decl entry = .ok (rendering, resolver) ↔
      ∃ layout body, state.2.resolve decl.name = (.ok layout, resolver) ∧
        batch.body state.1 decl entry.model layout = .ok body ∧
        rendering = written decl entry layout body := by
  simp only [build]
  split
  · rename_i cause _ heq
    simp [heq]
  · rename_i layout' resolver' heq
    simp only [heq, StructBatch.rendering, bind_eq_ok_iff]
    cases hbody : batch.body state.1 decl entry.model layout' with
    | error cause => simp_all [Except.map]
    | ok body =>
      constructor
      · intro hparts
        obtain ⟨r, hr, heq'⟩ := hparts
        cases hr
        cases heq'
        exact ⟨layout', body, rfl, hbody, rfl⟩
      · intro hparts
        obtain ⟨layout, body', hpair, hbody', rfl⟩ := hparts
        cases hpair
        rw [hbody] at hbody'
        cases hbody'
        exact ⟨_, rfl, rfl⟩

theorem step_eq_ok_iff :
    batch.step state decl = .ok (rendering, state') ↔
      ∃ entry, batch.mapping.get? decl.name = some entry ∧
        (state.1.renderings.get? (batch.key decl entry) = some rendering ∧ state' = state ∨
        state.1.renderings.get? (batch.key decl entry) = none ∧
          batch.build state decl entry = .ok (rendering, state'.2) ∧
          state.1.commit (batch.key decl entry) rendering false = .ok state'.1) := by
  cases hentry : batch.mapping.get? decl.name with
  | none => simp [step, hentry]
  | some entry =>
    cases hheld : state.1.renderings.get? (batch.key decl entry) with
    | some held => simp [step, hentry, hheld, eq_comm]
    | none =>
      simp only [step, hentry, hheld, bind_eq_ok_iff, Option.some.injEq, exists_eq_left',
        reduceCtorEq, false_and, false_or, true_and]
      constructor
      · intro hparts
        obtain ⟨⟨r, resolver⟩, hbuild, session, hcommit, heq⟩ := hparts
        cases heq
        exact ⟨hbuild, hcommit⟩
      · intro hparts
        obtain ⟨hbuild, hcommit⟩ := hparts
        exact ⟨_, hbuild, _, hcommit, rfl⟩

theorem owned_written :
    (written decl entry layout body).owned =
      [{ kind := .structBinding, name := Text.sanitize (entry.hostNameFor decl.name),
         text := (describe decl entry layout).write body },
       { kind := .shim, name := "static_assert " ++ decl.name,
         text := StructBinding.nativeAssertions decl.name layout }] := by
  have himports : ((importLines body).map Fragment.ofImport).filter (·.kind ≠ .importLine) = [] := by
    simp [Fragment.ofImport]
  simp only [Rendering.owned, written, List.filter_append, himports, List.nil_append]
  simp [describe]

theorem binding_or_shim_of_mem_owned {fragment : Fragment} (hmem : fragment ∈ (written decl entry layout body).owned) :
    (fragment.toFragmentId = ⟨.structBinding, Text.sanitize (entry.hostNameFor decl.name)⟩ ∧
      fragment.text = (describe decl entry layout).write body) ∨
    fragment.toFragmentId = ⟨.shim, "static_assert " ++ decl.name⟩ := by
  simp only [owned_written, List.mem_cons, List.not_mem_nil, or_false] at hmem
  rcases hmem with rfl | rfl
  · exact .inl ⟨rfl, rfl⟩
  · exact .inr rfl

theorem proper_written :
    (written decl entry layout body).Proper (batch.key decl entry) false := by
  constructor
  case distinct => simp [owned_written]
  case imports =>
    intro fragment hmem hkind
    simp only [written, List.mem_append, List.mem_map, List.mem_cons, List.not_mem_nil,
      or_false] at hmem
    obtain ⟨line, -, rfl⟩ | rfl | rfl := hmem
    · rfl
    all_goals simp at hkind
  case structBinding => exact fun _ _ _ => ⟨rfl, rfl⟩
  case proxy =>
    intro proxy hproxy
    cases hproxy
    exact ⟨rfl, rfl, ⟨_, rfl⟩, _, List.mem_append_right _ List.mem_cons_self, rfl⟩

theorem plain_written : ∀ fragment ∈ (written decl entry layout body).fragments, fragment.kind ≠ .opening := by
  intro fragment hmem
  simp only [written, List.mem_append, List.mem_map, List.mem_cons, List.not_mem_nil, or_false] at hmem
  rcases hmem with ⟨line, -, rfl⟩ | rfl | rfl <;> simp [Fragment.ofImport]

/-- The key of a struct, when the mapping has an entry for it. -/
def key? (batch : StructBatch) (decl : StructDecl) : Option DeclKey :=
  (batch.mapping.get? decl.name).map (batch.key decl)

end StructBatch

/-! ### Both renderers -/

namespace Session

/-- A declaration enters a session: it is remembered, or what it renders to is committed. -/
inductive Enters (s : Session) (key : DeclKey) (rendering : Rendering) (replaceable : Bool) : Session → Prop
  | held : s.renderings.get? key = some rendering → Enters s key rendering replaceable s
  | committed {s' : Session} : s.renderings.get? key = none → rendering.Proper key replaceable →
    (∀ fragment ∈ rendering.fragments, fragment.kind ≠ .opening) →
    s.commit key rendering replaceable = .ok s' → Enters s key rendering replaceable s'

/-- A renderer's step, as sessions see it: a declaration has a key and enters under it. -/
def EntersBy {σ δ : Type} (step : σ → δ → Except BindingError (Rendering × σ)) (view : σ → Session)
    (key? : δ → Option DeclKey) (mayReplace : δ → Bool) : Prop :=
  ∀ state decl rendering next, step state decl = .ok (rendering, next) →
    ∃ key, key? decl = some key ∧ (view state).Enters key rendering (mayReplace decl) (view next)

variable {s s' : Session} {key k : DeclKey} {rendering held : Rendering} {replaceable : Bool}

theorem Enters.config_eq (h : s.Enters key rendering replaceable s') : s'.config = s.config := by
  cases h with
  | held => rfl
  | committed _ _ _ hcommit =>
    obtain ⟨rfl, -, -⟩ := commit_eq_ok_iff.mp hcommit
    rfl

theorem Enters.remembered (h : s.Enters key rendering replaceable s') :
    s'.renderings.get? key = some rendering := by
  cases h with
  | held hheld => exact hheld
  | committed _ _ _ hcommit =>
    obtain ⟨rfl, -, -⟩ := commit_eq_ok_iff.mp hcommit
    rw [get?_renderings_accept, if_pos rfl]

theorem Enters.of_remembered (h : s.Enters key rendering replaceable s') (hne : k ≠ key)
    (hheld : s'.renderings.get? k = some held) : s.renderings.get? k = some held := by
  cases h with
  | held => exact hheld
  | committed _ _ _ hcommit =>
    obtain ⟨rfl, -, -⟩ := commit_eq_ok_iff.mp hcommit
    exact ((get?_renderings_accept_of_ne hne).mp hheld).1

/-- Where nothing may be taken over, nothing is forgotten. -/
theorem Enters.keeps (h : s.Enters key rendering replaceable s')
    (hkeeps : ¬(replaceable = true ∧ s.config.operatorOverride = .lastWins))
    (hheld : s.renderings.get? k = some held) : s'.renderings.get? k = some held := by
  cases h with
  | held => exact hheld
  | committed hmiss _ _ hcommit =>
    obtain ⟨hadmits, rfl⟩ := (commit_eq_ok_iff_admits hkeeps).mp hcommit
    exact (hadmits.remembered hmiss).2 k held hheld

end Session

theorem StructBatch.entersBy (batch : StructBatch) :
    Session.EntersBy batch.step Prod.fst batch.key? fun _ => false := by
  intro state decl rendering next hok
  obtain ⟨entry, hentry, hcases⟩ := step_eq_ok_iff.mp hok
  refine ⟨batch.key decl entry, by rw [key?, hentry]; rfl, ?_⟩
  rcases hcases with ⟨hheld, rfl⟩ | ⟨hmiss, hbuild, hcommit⟩
  · exact .held hheld
  · obtain ⟨layout, body, -, -, rfl⟩ := build_eq_ok_iff.mp hbuild
    exact .committed hmiss proper_written plain_written hcommit

theorem FunctionBatch.entersBy (batch : FunctionBatch) :
    Session.EntersBy batch.step (fun s => s) (fun decl => some (batch.key decl)) (·.operator.isSome) := by
  intro s decl rendering next hok
  refine ⟨batch.key decl, rfl, ?_⟩
  rcases step_eq_ok_iff.mp hok with ⟨hheld, rfl⟩ | ⟨hmiss, hbuild, hcommit⟩
  · exact .held hheld
  · exact .committed hmiss (proper_of_build hbuild) (plain_of_build hbuild) hcommit

/-! ### A whole run -/

namespace Session

theorem emptyModule_eq {s t : Session} (h : s.config = t.config) : s.emptyModule = t.emptyModule := by
  simp only [emptyModule, h]

variable {σ δ : Type} {step : σ → δ → Except BindingError (Rendering × σ)}

theorem renderEach_concat {state : σ} {collected : OutputModule} {before : List δ} {decl : δ} :
    (renderEach step state collected (before ++ [decl])).1 = (renderEach step state collected before).1 ∨
    ∃ rendering, step (renderEach step state collected before).1 decl =
      .ok (rendering, (renderEach step state collected (before ++ [decl])).1) := by
  induction before generalizing state collected with
  | nil =>
    simp only [List.nil_append, renderEach]
    split
    · exact .inl rfl
    · rename_i rendering state' hok
      exact .inr ⟨rendering, hok⟩
  | cons first rest ih =>
    simp only [List.cons_append, renderEach]
    split
    · exact .inl rfl
    · exact ih

/-- A property that every declaration keeps holds of every state that a batch goes through, also when the
batch fails half-way. -/
theorem renderEach_induction {P : σ → Prop} {decls : List δ} {state : σ} {collected : OutputModule}
    (hstart : P state)
    (hstep : ∀ before decl after, decls = before ++ decl :: after → ∀ rendering state',
      P (renderEach step state collected before).1 →
      step (renderEach step state collected before).1 decl = .ok (rendering, state') → P state')
    (before after : List δ) (hsplit : decls = before ++ after) :
    P (renderEach step state collected before).1 := by
  induction before using List.reverseRecOn generalizing after with
  | nil => exact hstart
  | append_singleton before decl ih =>
    rw [List.append_assoc, List.singleton_append] at hsplit
    have hbefore := ih (decl :: after) hsplit
    rcases renderEach_concat with hsame | ⟨rendering, hok⟩
    · rwa [hsame]
    · exact hstep before decl after hsplit rendering _ hbefore hok

/-- What declarations keep when they enter, a batch keeps, also when it fails half-way. -/
theorem EntersBy.renderEach {P : Session → Prop} {view : σ → Session} {key? : δ → Option DeclKey}
    {mayReplace : δ → Bool} (hstep : EntersBy step view key? mayReplace)
    (hkeeps : ∀ s s' key rendering replaceable, P s → s.Enters key rendering replaceable s' → P s') {state : σ}
    (hstart : P (view state)) (collected : OutputModule) (decls : List δ) :
    P (view (Session.renderEach step state collected decls).1) := by
  refine renderEach_induction (P := fun state => P (view state)) hstart ?_ decls [] (List.append_nil _).symm
  intro before decl after _ rendering state' hstate hok
  obtain ⟨key, -, henters⟩ := hstep _ _ _ _ hok
  exact hkeeps _ _ _ _ _ hstate henters

/-- When a whole batch succeeds, each of its declarations was rendered in the state that those before it have
left. -/
theorem renderEach_ok_induction {P : List δ → σ → Prop} {before decls : List δ} {state : σ}
    {collected module : OutputModule} (hstart : P before state)
    (hstep : ∀ done decl rest state rendering state', before ++ decls = done ++ decl :: rest →
      P done state → step state decl = .ok (rendering, state') → P (done ++ [decl]) state')
    (hok : (renderEach step state collected decls).2 = .ok module) :
    P (before ++ decls) (renderEach step state collected decls).1 := by
  induction decls generalizing before state collected with
  | nil => simpa [renderEach] using hstart
  | cons decl rest ih =>
    rw [renderEach] at hok ⊢
    split at hok
    · cases hok
    · rename_i rendering state' hrendered
      have hnext := hstep before decl rest state rendering state' rfl hstart hrendered
      rw [← List.singleton_append, ← List.append_assoc] at hstep ⊢
      simpa [hrendered] using ih hnext hstep hok

end Session

theorem StructBatch.render_induction {batch : StructBatch} {start : Session} {module : OutputModule}
    {P : List StructDecl → Session × Resolver → Prop} (hstart : P [] (start, batch.resolver start))
    (hstep : ∀ {before decl state rendering state'}, decl ∈ batch.structs → P before state →
      batch.step state decl = .ok (rendering, state') → P (before ++ [decl]) state')
    (hok : (batch.render start).2 = .ok module) :
    ∃ state : Session × Resolver, (batch.render start).1 = state.1 ∧ P batch.structs state := by
  refine ⟨_, rfl, Session.renderEach_ok_induction (P := P) hstart ?_ hok⟩
  intro before decl rest state rendering state' hsplit hbefore hrendered
  refine hstep ?_ hbefore hrendered
  rw [← List.nil_append batch.structs, hsplit]
  exact List.mem_append_right before List.mem_cons_self

/-- The sessions that renderers and resets make of a new one. -/
inductive Session.Reachable (config : Config) : Session → Prop
  | new : Reachable config { config := config }
  | structs {s : Session} (batch : StructBatch) : Reachable config s →
    Reachable config (batch.render s).1
  | functions {s : Session} (batch : FunctionBatch) : Reachable config s →
    Reachable config (batch.render s).1
  | reset {s : Session} : Reachable config s → Reachable config s.reset

/-- What declarations keep when they enter holds in every run. -/
theorem Session.Reachable.of_enters {config : Config} {P : Session → Prop} (hnew : P { config := config })
    (hkeeps : ∀ s s' key rendering replaceable, P s → s.Enters key rendering replaceable s' → P s')
    (hreset : ∀ s, P s → P s.reset) {s : Session} (hs : Reachable config s) : P s := by
  induction hs with
  | new => exact hnew
  | reset _ ih => exact hreset _ ih
  | structs batch _ ih => exact batch.entersBy.renderEach hkeeps ih _ _
  | functions batch _ ih => exact batch.entersBy.renderEach hkeeps ih _ _

/-- **What commits preserve holds in every run.** -/
theorem Session.Reachable.induction {config : Config} {P : Session → Prop}
    (hnew : P { config := config })
    (hcommit : ∀ (s s' : Session) key rendering replaceable, P s → rendering.Proper key replaceable →
      s.renderings.get? key = none → s.commit key rendering replaceable = .ok s' → P s')
    (hreset : ∀ s, P s → P s.reset) {s : Session} (hs : Reachable config s) : P s := by
  refine hs.of_enters hnew ?_ hreset
  intro s s' key rendering replaceable hstart h
  cases h with
  | held => exact hstart
  | committed hmiss hproper _ hok => exact hcommit s s' key rendering replaceable hstart hproper hmiss hok

end HostBinding
