import HostBinding.Proofs.Session.Assembly
import HostBinding.Proofs.Session.Origin

/-!
# What a batch collects

A batch that goes through is a chain of steps, each of which renders one declaration, and the module that it
returns holds these renderings together. So two calls can be compared by their renderings, and so can a call
and the session that it leaves. No rendering opens a module, also none that is only remembered.
-/

namespace HostBinding

namespace OutputModule

variable {m : OutputModule} {kind : FragmentKind} {fragments : List Fragment}

/-- Only import lines are ever dropped. -/
theorem ofKind_extend (hkind : kind ≠ .importLine) (m : OutputModule) (fragments : List Fragment) :
    (m.extend fragments).ofKind kind = m.ofKind kind ++ fragments.filter (·.kind = kind) := by
  induction fragments generalizing m with
  | nil => rw [List.filter_nil, List.append_nil]; rfl
  | cons fragment rest ih =>
    have hpush : (m.push fragment).ofKind kind = m.ofKind kind ++ [fragment].filter (·.kind = kind) := by
      simp only [push]
      split
      · rename_i hdropped
        have hother : fragment.kind ≠ kind := fun h => hkind (h.symm.trans hdropped.1)
        simp [hother]
      · rw [ofKind, ofKind, List.filter_append]
    rw [show m.extend (fragment :: rest) = (m.push fragment).extend rest from rfl, ih, hpush, List.append_assoc,
      ← List.filter_append, List.singleton_append]

theorem nodup_imports_extend (h : ((m.ofKind .importLine).map (·.toFragmentId)).Nodup) :
    (((m.extend fragments).ofKind .importLine).map (·.toFragmentId)).Nodup := by
  induction fragments generalizing m with
  | nil => exact h
  | cons fragment rest ih =>
    refine ih ?_
    simp only [push]
    split
    · exact h
    · rename_i hkept
      rw [ofKind, List.filter_append, List.map_append]
      refine List.nodup_append.mpr ⟨h, ?_, ?_⟩
      · exact (List.nodup_singleton _).sublist (List.filter_sublist.map _)
      rintro _ hheld _ hown rfl
      obtain ⟨held, hmem, hid⟩ := List.mem_map.mp hheld
      obtain ⟨new, hnew, rfl⟩ := List.mem_map.mp hown
      obtain ⟨hnew, hkind⟩ := List.mem_filter.mp hnew
      obtain rfl := List.mem_singleton.mp hnew
      exact hkept ⟨by simpa using hkind,
        List.any_eq_true.mpr ⟨held, List.mem_of_mem_filter hmem, by simpa using hid⟩⟩

theorem imports_extend (h : ((m.ofKind .importLine).map (·.toFragmentId)).Nodup) :
    (m.extend fragments).ofKind .importLine =
      firstBy (·.toFragmentId) (m.ofKind .importLine ++ fragments.filter (·.kind = .importLine)) := by
  rw [← firstBy_eq_self (nodup_imports_extend h)]
  exact firstBy_ofKind_extend [] m fragments

def collect (m : OutputModule) (rendering : Rendering) : OutputModule :=
  (rendering.includes.foldl addInclude m).extend rendering.fragments

theorem shimSourceIdent_collect (m : OutputModule) (rendering : Rendering) :
    (m.collect rendering).shimSourceIdent = m.shimSourceIdent := by
  refine List.foldlRecOn (motive := fun m' : OutputModule => m'.shimSourceIdent = m.shimSourceIdent) _ _
    (List.foldlRecOn (motive := fun m' : OutputModule => m'.shimSourceIdent = m.shimSourceIdent) _ _ rfl ?_) ?_
  · intro m' hm' header _
    rw [← hm', addInclude]
    split <;> rfl
  · intro m' hm' fragment _
    rw [← hm', push]
    split <;> rfl

/-- A module that holds renderings together, after the opening of the session. -/
structure Gathers (m : OutputModule) (s : Session) (renderings : List Rendering) : Prop where
  shimSourceIdent : m.shimSourceIdent = s.config.shimSourceIdent
  opening : m.ofKind .opening = s.emptyModule.added
  imports : m.ofKind .importLine =
    firstBy (·.toFragmentId) (renderings.flatMap fun r => r.fragments.filter (·.kind = .importLine))
  ofKind : ∀ kind, kind ≠ .opening → kind ≠ .importLine →
    m.ofKind kind = renderings.flatMap fun r => r.fragments.filter (·.kind = kind)
  includes : m.includes = firstBy id (renderings.flatMap (·.includes))

theorem gathers_emptyModule (s : Session) : s.emptyModule.Gathers s [] where
  shimSourceIdent := rfl
  opening := rfl
  imports := rfl
  ofKind kind hopening _ := by simpa [OutputModule.ofKind, Session.emptyModule] using hopening.symm
  includes := rfl

theorem Gathers.collect {s : Session} {renderings : List Rendering} {rendering : Rendering}
    (h : m.Gathers s renderings) (hplain : ∀ fragment ∈ rendering.fragments, fragment.kind ≠ .opening) :
    (m.collect rendering).Gathers s (renderings ++ [rendering]) := by
  have hsame (kind : FragmentKind) : (rendering.includes.foldl addInclude m).ofKind kind = m.ofKind kind := by
    rw [OutputModule.ofKind, OutputModule.ofKind, added_addIncludes]
  constructor
  case shimSourceIdent => rw [shimSourceIdent_collect, h.shimSourceIdent]
  case opening =>
    rw [OutputModule.collect, ofKind_extend (by decide), hsame, h.opening, List.filter_eq_nil_iff.mpr,
      List.append_nil]
    exact fun fragment hmem => by simpa using hplain fragment hmem
  case imports =>
    have hnodup : (((rendering.includes.foldl addInclude m).ofKind .importLine).map (·.toFragmentId)).Nodup := by
      rw [hsame, h.imports]
      exact nodup_firstBy _ _
    rw [OutputModule.collect, imports_extend hnodup, hsame, h.imports, firstBy_firstBy_append,
      List.flatMap_append, List.flatMap_singleton]
  case ofKind =>
    intro kind hopening himport
    rw [OutputModule.collect, ofKind_extend himport, hsame, h.ofKind kind hopening himport, List.flatMap_append,
      List.flatMap_singleton]
  case includes =>
    rw [OutputModule.collect, includes_extend, includes_addIncludes, h.includes,
      foldl_firstBy Session.addHeader_eq, List.flatMap_append, List.flatMap_singleton]

theorem Gathers.foldl_collect {s : Session} {done renderings : List Rendering} (h : m.Gathers s done)
    (hplain : ∀ rendering ∈ renderings, ∀ fragment ∈ rendering.fragments, fragment.kind ≠ .opening) :
    (renderings.foldl OutputModule.collect m).Gathers s (done ++ renderings) := by
  induction renderings generalizing m done with
  | nil => rwa [List.append_nil]
  | cons rendering rest ih =>
    have hfirst := h.collect (hplain rendering List.mem_cons_self)
    have hrest := ih hfirst fun other hmem => hplain other (List.mem_cons_of_mem _ hmem)
    rwa [List.append_assoc, List.singleton_append] at hrest

end OutputModule

/-! ### What is rendered -/

/-- What a renderer returns for a key. -/
structure Rendering.Regular (rendering : Rendering) (key : DeclKey) : Prop where
  plain : ∀ fragment ∈ rendering.fragments, fragment.kind ≠ .opening
  proper : ∃ replaceable, rendering.Proper key replaceable

def Session.Regular (s : Session) : Prop :=
  ∀ key held, s.renderings.get? key = some held → held.Regular key

theorem Session.Regular.commit {s s' : Session} {key : DeclKey} {rendering : Rendering} {replaceable : Bool}
    (hs : s.Regular) (hrendering : rendering.Regular key)
    (hcommit : s.commit key rendering replaceable = .ok s') : s'.Regular := by
  intro k held hheld
  obtain ⟨rfl, -, -⟩ := commit_eq_ok_iff.mp hcommit
  by_cases hk : k = key
  · subst hk
    rw [get?_renderings_accept, if_pos rfl, Option.some.injEq] at hheld
    exact hheld ▸ hrendering
  · exact hs k held ((get?_renderings_accept_of_ne hk).mp hheld).1

theorem Session.Enters.regular {s s' : Session} {key : DeclKey} {rendering : Rendering} {replaceable : Bool}
    (h : s.Enters key rendering replaceable s') (hs : s.Regular) : rendering.Regular key ∧ s'.Regular := by
  cases h with
  | held hheld => exact ⟨hs key rendering hheld, hs⟩
  | committed _ hproper hplain hcommit =>
    have hrendering : rendering.Regular key := ⟨hplain, replaceable, hproper⟩
    exact ⟨hrendering, hs.commit hrendering hcommit⟩

theorem Session.Reachable.regular {config : Config} {s : Session} (hs : Reachable config s) : s.Regular := by
  have hempty {t : Session} (hrenderings : t.renderings = ∅) : t.Regular := fun key held hheld => by
    simp [hrenderings, Table.get?_empty] at hheld
  exact hs.of_enters (hempty rfl) (fun _ _ _ _ _ hs h => (h.regular hs).2) fun _ _ => hempty rfl

/-! ### Chains of steps -/

namespace Session

variable {σ δ : Type} {step : σ → δ → Except BindingError (Rendering × σ)}

/-- A batch that goes through, with what each declaration renders to. -/
inductive Chain (step : σ → δ → Except BindingError (Rendering × σ)) :
    σ → List δ → List Rendering → σ → Prop
  | nil (state : σ) : Chain step state [] [] state
  | cons {state next last : σ} {decl : δ} {rest : List δ} {rendering : Rendering}
    {renderings : List Rendering} : step state decl = .ok (rendering, next) →
    Chain step next rest renderings last →
    Chain step state (decl :: rest) (rendering :: renderings) last

variable {state last : σ} {collected module : OutputModule} {decls : List δ} {renderings : List Rendering}

theorem renderEach_eq_ok_iff :
    renderEach step state collected decls = (last, .ok module) ↔
      ∃ renderings, Chain step state decls renderings last ∧
        module = renderings.foldl OutputModule.collect collected := by
  induction decls generalizing state collected with
  | nil =>
    rw [renderEach]
    constructor
    · rintro ⟨⟩
      exact ⟨[], .nil _, rfl⟩
    · rintro ⟨_, ⟨⟩, rfl⟩
      rfl
  | cons decl rest ih =>
    rw [renderEach]
    cases hstep : step state decl with
    | error cause =>
      constructor
      · rintro ⟨⟩
      · rintro ⟨_, hchain, -⟩
        cases hchain with
        | cons hok _ =>
          rw [hstep] at hok
          cases hok
    | ok rendered =>
      refine ih.trans ?_
      constructor
      · rintro ⟨renderings, hchain, hmodule⟩
        exact ⟨_, .cons hstep hchain, hmodule⟩
      · rintro ⟨_, hchain, hmodule⟩
        cases hchain with
        | cons hok hrest =>
          rw [hstep] at hok
          cases hok
          exact ⟨_, hrest, hmodule⟩

theorem Chain.append {middle : σ} {decls' : List δ} {renderings' : List Rendering}
    (h : Chain step state decls renderings middle) (h' : Chain step middle decls' renderings' last) :
    Chain step state (decls ++ decls') (renderings ++ renderings') last := by
  induction h with
  | nil => exact h'
  | cons hok _ ih => exact .cons hok (ih h')

theorem Chain.renderEach_append (h : Chain step state decls renderings last) (collected : OutputModule)
    (rest : List δ) : ∃ collected', renderEach step state collected (decls ++ rest) =
      renderEach step last collected' rest := by
  induction h generalizing collected with
  | nil => exact ⟨collected, rfl⟩
  | cons hok _ ih =>
    rw [List.cons_append, renderEach, hok]
    exact ih _

/-- What a batch does after the declarations that have gone through, it does until one fails. -/
theorem renderEach_chain_induction {P : σ → Prop} {start : σ} (hstart : P start)
    (hstep : ∀ before decl after renderings state rendering next, decls = before ++ decl :: after →
      Chain step start before renderings state → P state → step state decl = .ok (rendering, next) → P next) :
    P (renderEach step start collected decls).1 := by
  have hrest : ∀ rest before renderings state collected, decls = before ++ rest →
      Chain step start before renderings state → P state → P (renderEach step state collected rest).1 := by
    intro rest
    induction rest with
    | nil => exact fun _ _ _ _ _ _ hstate => hstate
    | cons decl rest ih =>
      intro before renderings state collected hsplit hchain hstate
      rw [renderEach]
      cases hok : step state decl with
      | error cause => exact hstate
      | ok rendered =>
        refine ih (before ++ [decl]) (renderings ++ [rendered.1]) rendered.2 _ (by simpa using hsplit)
          (hchain.append (.cons hok (.nil _))) ?_
        exact hstep before decl rest renderings state rendered.1 rendered.2 hsplit hchain hstate hok
  exact hrest decls [] [] start collected rfl (.nil start) hstart

theorem Chain.exists_step (h : Chain step state decls renderings last) {decl : δ} (hmem : decl ∈ decls) :
    ∃ before rendering after, step before decl = .ok (rendering, after) := by
  induction h with
  | nil => cases hmem
  | cons hok _ ih =>
    rcases List.mem_cons.mp hmem with rfl | hrest
    · exact ⟨_, _, _, hok⟩
    · exact ih hrest

theorem Chain.induction {P : σ → Prop} {Q : Rendering → Prop}
    (hstep : ∀ state decl rendering next, P state → step state decl = .ok (rendering, next) →
      Q rendering ∧ P next)
    (h : Chain step state decls renderings last) (hstart : P state) :
    (∀ rendering ∈ renderings, Q rendering) ∧ P last := by
  induction h with
  | nil => exact ⟨List.forall_mem_nil _, hstart⟩
  | cons hok _ ih =>
    obtain ⟨hfirst, hnext⟩ := hstep _ _ _ _ hstart hok
    obtain ⟨hrest, hlast⟩ := ih hnext
    exact ⟨List.forall_mem_cons.mpr ⟨hfirst, hrest⟩, hlast⟩

theorem Chain.plain {view : σ → Session} {key? : δ → Option DeclKey} {mayReplace : δ → Bool}
    (h : Chain step state decls renderings last) (hstep : EntersBy step view key? mayReplace)
    (hstart : (view state).Regular) :
    ∀ rendering ∈ renderings, ∀ fragment ∈ rendering.fragments, fragment.kind ≠ .opening := by
  refine (h.induction (P := fun state => (view state).Regular) ?_ hstart).1
  intro state decl rendering next hstate hok
  obtain ⟨key, -, henters⟩ := hstep _ _ _ _ hok
  obtain ⟨hrendering, hnext⟩ := henters.regular hstate
  exact ⟨hrendering.plain, hnext⟩

/-- When each step of one batch can be made by another one too, so can a whole chain. -/
theorem Chain.simulate {τ : Type} {step' : τ → δ → Except BindingError (Rendering × τ)} {R : σ → τ → Prop}
    {state' : τ} (h : Chain step state decls renderings last)
    (hstep : ∀ decl ∈ decls, ∀ state state' rendering next, R state state' →
      step state decl = .ok (rendering, next) → ∃ next', step' state' decl = .ok (rendering, next') ∧ R next next')
    (hstart : R state state') : ∃ last', Chain step' state' decls renderings last' ∧ R last last' := by
  induction h generalizing state' with
  | nil => exact ⟨state', .nil _, hstart⟩
  | cons hok _ ih =>
    obtain ⟨next', hok', hnext⟩ := hstep _ List.mem_cons_self _ _ _ _ hstart hok
    obtain ⟨last', hrest, hlast⟩ := ih (fun decl hmem => hstep decl (List.mem_cons_of_mem _ hmem)) hnext
    exact ⟨last', .cons hok' hrest, hlast⟩

theorem exists_chain_of_renderEach {s : Session}
    (hok : (renderEach step state s.emptyModule decls).2 = .ok module) :
    ∃ renderings, Chain step state decls renderings (renderEach step state s.emptyModule decls).1 ∧
      ((∀ rendering ∈ renderings, ∀ fragment ∈ rendering.fragments, fragment.kind ≠ .opening) →
        module.Gathers s renderings) := by
  obtain ⟨renderings, hchain, rfl⟩ := renderEach_eq_ok_iff.mp (Prod.ext rfl hok)
  exact ⟨renderings, hchain, (OutputModule.gathers_emptyModule s).foldl_collect⟩

theorem Chain.exists_module {s : Session} (h : Chain step state decls renderings last)
    (hplain : ∀ rendering ∈ renderings, ∀ fragment ∈ rendering.fragments, fragment.kind ≠ .opening) :
    ∃ module, renderEach step state s.emptyModule decls = (last, .ok module) ∧ module.Gathers s renderings :=
  ⟨_, renderEach_eq_ok_iff.mpr ⟨renderings, h, rfl⟩,
    (OutputModule.gathers_emptyModule s).foldl_collect hplain⟩

end Session

theorem StructBatch.exists_chain {batch : StructBatch} {s : Session} {module : OutputModule} (hs : s.Regular)
    (hok : (batch.render s).2 = .ok module) :
    ∃ renderings last, Session.Chain batch.step (s, batch.resolver s) batch.structs renderings last ∧
      last.1 = (batch.render s).1 ∧ module.Gathers s renderings := by
  have hrender : (Session.renderEach batch.step (s, batch.resolver s) s.emptyModule batch.structs).2 =
    .ok module := hok
  obtain ⟨renderings, hchain, hgathers⟩ := Session.exists_chain_of_renderEach hrender
  refine ⟨renderings, _, hchain, rfl, hgathers ?_⟩
  exact hchain.plain batch.entersBy hs

theorem FunctionBatch.exists_chain {batch : FunctionBatch} {s : Session} {module : OutputModule}
    (hs : s.Regular) (hok : (batch.render s).2 = .ok module) :
    ∃ renderings, Session.Chain batch.step s batch.functions renderings (batch.render s).1 ∧
      module.Gathers s renderings := by
  have hrender : (Session.renderEach batch.step s s.emptyModule batch.functions).2 = .ok module := hok
  obtain ⟨renderings, hchain, hgathers⟩ := Session.exists_chain_of_renderEach hrender
  exact ⟨renderings, hchain, hgathers (hchain.plain batch.entersBy hs)⟩

end HostBinding
