import HostBinding.Proofs.Session.Origin

/-!
# Rendering in place

`Session.commit` makes a new session or none, so it cannot leave a session half changed. A renderer that
works on one session could: it checks and changes one thing after another, and what it has changed when a
check fails stays changed. Rendering is written down in that way here, one fragment, one header and one
forgotten rendering at a time, and it comes to the same outcome. All checks of a declaration come before its
first change, so a batch that fails has changed what the declarations before the failing one change, and
nothing else.
-/

namespace HostBinding

/-- A computation that changes a state as it goes. What it has changed when it fails stays changed. -/
abbrev Editing (σ α : Type) := ExceptT BindingError (StateM σ) α

namespace Editing

variable {σ τ α β : Type}

def outcome (x : Editing σ α) (s : σ) : Except BindingError α × σ :=
  x.run.run s

def onFirst (x : Editing σ α) : Editing (σ × τ) α :=
  ExceptT.mk fun s => ((x.outcome s.1).1, (x.outcome s.1).2, s.2)

def ofExcept : Except BindingError α → Editing σ α
  | .ok a => pure a
  | .error cause => throw cause

@[simp]
theorem outcome_pure (a : α) (s : σ) : (pure a : Editing σ α).outcome s = (.ok a, s) :=
  rfl

@[simp]
theorem outcome_throw (cause : BindingError) (s : σ) :
    (throw cause : Editing σ α).outcome s = (.error cause, s) :=
  rfl

@[simp]
theorem outcome_get (s : σ) : (get : Editing σ σ).outcome s = (.ok s, s) :=
  rfl

@[simp]
theorem outcome_modify (f : σ → σ) (s : σ) :
    (modify f : Editing σ PUnit).outcome s = (.ok ⟨⟩, f s) :=
  rfl

@[simp]
theorem outcome_onFirst (x : Editing σ α) (s : σ × τ) :
    (onFirst x : Editing (σ × τ) α).outcome s = ((x.outcome s.1).1, (x.outcome s.1).2, s.2) :=
  rfl

theorem outcome_ofExcept (x : Except BindingError α) (s : σ) : (ofExcept x).outcome s = (x, s) := by
  cases x <;> rfl

theorem outcome_bind (x : Editing σ α) (f : α → Editing σ β) (s : σ) :
    (x >>= f).outcome s = match x.outcome s with
      | (.ok a, s') => (f a).outcome s'
      | (.error cause, s') => (.error cause, s') := by
  simp only [outcome, run_bind]
  rcases x.run.run s with ⟨_ | _, _⟩ <;> rfl

/-- Checks that change nothing stop at the first one that fails. -/
theorem outcome_forM_check {check : α → Editing σ PUnit} {refused? : α → Option BindingError} {s : σ}
    (hcheck : ∀ a, (check a).outcome s = ((refused? a).elim (.ok ⟨⟩) .error, s)) (as : List α) :
    (as.forM check).outcome s = ((as.findSome? refused?).elim (.ok ⟨⟩) .error, s) := by
  induction as with
  | nil => rfl
  | cons a rest ih =>
    change ((check a >>= fun _ => rest.forM check) : Editing σ PUnit).outcome s = _
    rw [outcome_bind, hcheck, List.findSome?_cons]
    cases refused? a with
    | none => exact ih
    | some cause => rfl

theorem outcome_forM_change {change : α → Editing σ PUnit} {changed : σ → α → σ}
    (hchange : ∀ a s, (change a).outcome s = (.ok ⟨⟩, changed s a)) (as : List α) (s : σ) :
    (as.forM change).outcome s = (.ok ⟨⟩, as.foldl changed s) := by
  induction as generalizing s with
  | nil => rfl
  | cons a rest ih =>
    change ((change a >>= fun _ => rest.forM change) : Editing σ PUnit).outcome s = _
    rw [outcome_bind, hchange]
    exact ih (changed s a)

end Editing

namespace Session

/-! ### A commit, one step at a time -/

def checkFragment (key : DeclKey) (mayReplace : Bool) (fragment : Fragment) : Editing Session PUnit := do
  match (← get).fragments.get? fragment.toFragmentId with
  | none => pure ⟨⟩
  | some stored =>
    if fragment.kind = .importLine ∨ stored.owner = key ∨ mayReplace then pure ⟨⟩
    else throw (.nameCollision fragment.name stored.owner.name key.name)

def checkProxy (rendering : Rendering) : Editing Session PUnit := do
  match rendering.proxy with
  | none => pure ⟨⟩
  | some proxy =>
    match (← get).proxies.get? proxy.nativeName with
    | none => pure ⟨⟩
    | some existing =>
      if existing = proxy then pure ⟨⟩
      else throw (.nameCollision proxy.nativeName existing.hostName proxy.hostName)

/-- Stores a fragment, and notes the declaration that it is taken from. -/
def enterFragment (key : DeclKey) (displaced : List DeclKey) (fragment : Fragment) :
    Editing Session (List DeclKey) := do
  let owner? := ((← get).fragments.get? fragment.toFragmentId).map (·.owner)
  modify fun s => { s with fragments := storeFragment key s.fragments fragment }
  match owner? with
  | none => pure displaced
  | some owner =>
    if fragment.kind = .importLine ∨ owner = key ∨ owner ∈ displaced then pure displaced
    else pure (displaced ++ [owner])

def forget (owner : DeclKey) : Editing Session PUnit :=
  modify fun s => { s with renderings := s.renderings.filter fun key _ => key ≠ owner }

def includeHeader (header : String) : Editing Session PUnit :=
  modify fun s => { s with includes := addHeader s.includes header }

def register (proxy : Proxy) : Editing Session PUnit :=
  modify fun s => { s with proxies := s.proxies.insert proxy.nativeName proxy }

def remember (key : DeclKey) (rendering : Rendering) : Editing Session PUnit :=
  modify fun s => { s with renderings := s.renderings.insert key rendering }

/-- Enters a rendering into the session: first all checks, then one change after another. -/
def commitInPlace (key : DeclKey) (rendering : Rendering) (replaceable : Bool) :
    Editing Session PUnit := do
  let mayReplace := replaceable && (← get).config.operatorOverride = .lastWins
  rendering.fragments.forM (checkFragment key mayReplace)
  checkProxy rendering
  let displaced ← rendering.fragments.foldlM (enterFragment key) []
  displaced.forM forget
  rendering.includes.forM includeHeader
  rendering.proxy.toList.forM register
  remember key rendering

variable {key : DeclKey} {rendering : Rendering} {s : Session}

theorem outcome_checkFragments (mayReplace : Bool) :
    (rendering.fragments.forM (checkFragment key mayReplace)).outcome s =
      ((if mayReplace then none else s.fragmentCollision? key rendering).elim (.ok ⟨⟩) .error, s) := by
  have hcheck (fragment : Fragment) : (checkFragment key mayReplace fragment).outcome s =
      ((if mayReplace ∨ fragment.kind = .importLine then none
        else (s.fragments.get? fragment.toFragmentId).bind fun stored =>
          if stored.owner = key then none
          else some (.nameCollision fragment.name stored.owner.name key.name)).elim (.ok ⟨⟩) .error, s) := by
    rw [checkFragment, Editing.outcome_bind]
    simp only [Editing.outcome_get]
    cases s.fragments.get? fragment.toFragmentId with
    | none => simp
    | some stored =>
      by_cases howner : stored.owner = key <;> by_cases hkind : fragment.kind = .importLine <;>
        cases mayReplace <;> simp [howner, hkind]
  rw [Editing.outcome_forM_check hcheck]
  cases mayReplace with
  | true =>
    have hnone : rendering.fragments.findSome? (fun _ => (none : Option BindingError)) = none :=
      List.findSome?_eq_none_iff.mpr fun _ _ => rfl
    simp [hnone]
  | false => simp [fragmentCollision?]

theorem outcome_checkProxy :
    (checkProxy rendering).outcome s = ((s.proxyCollision? rendering).elim (.ok ⟨⟩) .error, s) := by
  rw [checkProxy, proxyCollision?]
  cases rendering.proxy with
  | none => rfl
  | some proxy =>
    simp only [Editing.outcome_bind, Editing.outcome_get, Option.bind_some]
    cases s.proxies.get? proxy.nativeName with
    | none => rfl
    | some existing => by_cases heq : existing = proxy <;> simp [heq]

theorem outcome_enterFragment (key : DeclKey) (displaced : List DeclKey) (fragment : Fragment) (s : Session) :
    ∃ displaced', (enterFragment key displaced fragment).outcome s =
        (.ok displaced', { s with fragments := storeFragment key s.fragments fragment }) ∧
      ∀ owner, owner ∈ displaced' ↔ owner ∈ displaced ∨ owner ≠ key ∧ fragment.kind ≠ .importLine ∧
        ∃ stored, s.fragments.get? fragment.toFragmentId = some stored ∧ stored.owner = owner := by
  simp only [enterFragment, Editing.outcome_bind, Editing.outcome_get, Editing.outcome_modify]
  cases s.fragments.get? fragment.toFragmentId with
  | none => exact ⟨displaced, rfl, by simp⟩
  | some stored =>
    simp only [Option.map_some, Option.some.injEq, exists_eq_left']
    split
    · rename_i hkept
      refine ⟨displaced, rfl, fun owner => ⟨.inl, ?_⟩⟩
      rintro (hmem | ⟨hne, hkind, rfl⟩)
      · exact hmem
      · exact (hkept.resolve_left hkind).resolve_left hne
    · rename_i htaken
      rw [not_or, not_or] at htaken
      refine ⟨displaced ++ [stored.owner], rfl, fun owner => ?_⟩
      rw [List.mem_append, List.mem_singleton]
      refine or_congr_right ⟨?_, fun h => h.2.2.symm⟩
      rintro rfl
      exact ⟨htaken.2.1, htaken.1, rfl⟩

/-- What is stored for one declaration is noted when it belonged to another one before. A fragment that is
stored twice belongs to the declaration itself the second time. -/
theorem outcome_enterFragments (key : DeclKey) (displaced : List DeclKey) (fragments : List Fragment)
    (s : Session) :
    ∃ displaced', (fragments.foldlM (enterFragment key) displaced).outcome s =
        (.ok displaced', { s with fragments := fragments.foldl (storeFragment key) s.fragments }) ∧
      ∀ owner, owner ∈ displaced' ↔ owner ∈ displaced ∨ owner ≠ key ∧
        ∃ fragment ∈ fragments, fragment.kind ≠ .importLine ∧
          ∃ stored, s.fragments.get? fragment.toFragmentId = some stored ∧ stored.owner = owner := by
  induction fragments generalizing displaced s with
  | nil => exact ⟨displaced, rfl, by simp⟩
  | cons first rest ih =>
    obtain ⟨noted, hfirst, hnoted⟩ := outcome_enterFragment key displaced first s
    obtain ⟨displaced', hrest, hdisplaced⟩ :=
      ih noted { s with fragments := storeFragment key s.fragments first }
    refine ⟨displaced', ?_, fun owner => ?_⟩
    · rw [List.foldlM_cons, Editing.outcome_bind, hfirst]
      exact hrest
    · rw [hdisplaced, hnoted, or_assoc]
      refine or_congr_right ?_
      rw [← and_or_left, List.exists_mem_cons_iff]
      refine and_congr_right fun hne => ?_
      -- A fragment that is named like the first one is its own by now, but then the first one was noted.
      by_cases hsame : first.kind ≠ .importLine ∧
          ∃ stored, s.fragments.get? first.toFragmentId = some stored ∧ stored.owner = owner
      · exact iff_of_true (.inl hsame) (.inl hsame)
      · rw [or_iff_right hsame, or_iff_right hsame]
        refine exists_congr fun fragment => and_congr_right fun _ => and_congr_right fun hkind => ?_
        by_cases hid : first.toFragmentId = fragment.toFragmentId
        · have hfirstKind : first.kind ≠ .importLine := (congrArg FragmentId.kind hid).trans_ne hkind
          rw [← hid]
          refine iff_of_false ?_ fun hheld => hsame ⟨hfirstKind, hheld⟩
          rintro ⟨stored, hstored, howner⟩
          rw [get?_storeFragment_owned hfirstKind, Option.some.injEq] at hstored
          exact hne (howner.symm.trans (congrArg Stored.owner hstored.symm))
        · rw [get?_storeFragment_of_ne hid]

theorem outcome_forget (displaced : List DeclKey) (s : Session) :
    (displaced.forM forget).outcome s =
      (.ok ⟨⟩, { s with renderings := s.renderings.filter fun key _ => key ∉ displaced }) := by
  refine (Editing.outcome_forM_change (fun _ _ => rfl) displaced s).trans (congrArg (Prod.mk _) ?_)
  induction displaced generalizing s with
  | nil =>
    have hall : s.renderings.filter (fun key _ => key ∉ ([] : List DeclKey)) = s.renderings :=
      Table.ext_entries (by simp [Table.filter])
    rw [List.foldl_nil, hall]
  | cons owner rest ih =>
    rw [List.foldl_cons, ih]
    congr 1
    refine Table.ext_entries ?_
    simp only [Table.filter, List.filter_filter]
    refine List.filter_congr fun entry _ => ?_
    rw [← Bool.decide_and]
    exact decide_eq_decide.mpr (by rw [List.mem_cons, not_or, and_comm])

theorem outcome_includeHeaders (headers : List String) (s : Session) :
    (headers.forM includeHeader).outcome s =
      (.ok ⟨⟩, { s with includes := headers.foldl addHeader s.includes }) := by
  refine (Editing.outcome_forM_change (fun _ _ => rfl) headers s).trans (congrArg (Prod.mk _) ?_)
  induction headers generalizing s with
  | nil => rfl
  | cons header rest ih => rw [List.foldl_cons, ih, List.foldl_cons]

theorem outcome_register (proxy : Option Proxy) (s : Session) :
    (proxy.toList.forM register).outcome s = (.ok ⟨⟩, { s with
      proxies := proxy.elim s.proxies fun proxy => s.proxies.insert proxy.nativeName proxy }) := by
  cases proxy <;> rfl

/-- **A commit in place is a commit**: it makes the same checks, leaves the session alone when one of them
fails, and otherwise makes the session that a commit makes. -/
theorem outcome_commitInPlace (key : DeclKey) (rendering : Rendering) (replaceable : Bool) (s : Session) :
    (commitInPlace key rendering replaceable).outcome s =
      match s.commit key rendering replaceable with
      | .ok s' => (.ok ⟨⟩, s')
      | .error cause => (.error cause, s) := by
  simp only [commitInPlace, commit, Editing.outcome_bind, Editing.outcome_get, outcome_checkFragments]
  cases hfragment : (if (replaceable && decide (s.config.operatorOverride = .lastWins)) = true then none
      else s.fragmentCollision? key rendering) with
  | some cause => rfl
  | none =>
    simp only [Option.elim_none, outcome_checkProxy, Option.orElse_eq_orElse, Option.orElse_eq_or,
      Option.none_or]
    cases s.proxyCollision? rendering with
    | some cause => rfl
    | none =>
      obtain ⟨displaced, hentered, hdisplaced⟩ :=
        outcome_enterFragments key [] rendering.fragments s
      simp only [Option.elim_none, hentered, outcome_forget, outcome_includeHeaders, outcome_register,
        remember, Editing.outcome_modify]
      have hkept : s.renderings.filter (fun key _ => key ∉ displaced) =
          s.renderings.filter fun owner _ => !s.displaces key rendering owner := by
        refine Table.ext_entries (List.filter_congr fun entry _ => ?_)
        rw [Bool.eq_iff_iff, decide_eq_true_eq, Bool.not_eq_true', ← Bool.not_eq_true, displaces_iff,
          hdisplaced]
        simp [Rendering.mem_owned, and_assoc]
      rw [accept, ← hkept]

/-! ### A batch, one step at a time -/

variable {σ τ δ : Type}

/-- Renders declarations in order into one state, until one fails. -/
def renderEachInPlace (step : δ → Editing σ Rendering) : OutputModule → List δ → Editing σ OutputModule
  | collected, [] => pure collected
  | collected, decl :: rest => do
    let rendering ← step decl
    let collected := rendering.includes.foldl OutputModule.addInclude collected
    renderEachInPlace step (collected.extend rendering.fragments) rest

/-- When each declaration has one outcome in place and by itself, as far as a view shows, so does a batch. -/
theorem outcome_renderEachInPlace (stepInPlace : δ → Editing σ Rendering)
    (step : σ → δ → Except BindingError (Rendering × σ)) (view : σ → τ)
    (hok : ∀ {state decl rendering state'}, step state decl = .ok (rendering, state') →
      (stepInPlace decl).outcome state = (.ok rendering, state'))
    (herror : ∀ {state decl cause}, step state decl = .error cause →
      ∃ state', (stepInPlace decl).outcome state = (.error cause, state') ∧ view state' = view state)
    (decls : List δ) (state : σ) (collected : OutputModule) :
    view ((renderEachInPlace stepInPlace collected decls).outcome state).2 =
        view (renderEach step state collected decls).1 ∧
      ((renderEachInPlace stepInPlace collected decls).outcome state).1 =
        (renderEach step state collected decls).2 := by
  induction decls generalizing state collected with
  | nil => exact ⟨rfl, rfl⟩
  | cons decl rest ih =>
    rw [renderEachInPlace, renderEach, Editing.outcome_bind]
    cases hstep : step state decl with
    | error cause =>
      obtain ⟨state', houtcome, hview⟩ := herror hstep
      rw [houtcome]
      exact ⟨hview, rfl⟩
    | ok rendered =>
      rw [hok hstep]
      exact ih rendered.2 _

/-- A batch that fails does so at one declaration, in the state that those before it have left. -/
theorem renderEach_error {step : σ → δ → Except BindingError (Rendering × σ)} {decls : List δ} {state : σ}
    {collected : OutputModule} {cause : BindingError}
    (herror : (renderEach step state collected decls).2 = .error cause) :
    ∃ before decl after module, decls = before ++ decl :: after ∧
      (renderEach step state collected before).2 = .ok module ∧
      ∀ more, renderEach step state collected (before ++ decl :: more) =
        ((renderEach step state collected before).1, .error cause) := by
  induction decls generalizing state collected with
  | nil => cases herror
  | cons decl rest ih =>
    rw [renderEach] at herror
    cases hstep : step state decl with
    | error cause' =>
      rw [hstep] at herror
      cases herror
      refine ⟨[], decl, rest, collected, rfl, rfl, fun more => ?_⟩
      rw [List.nil_append, renderEach, renderEach, hstep]
    | ok rendered =>
      rw [hstep] at herror
      obtain ⟨before, failing, after, module, rfl, hmodule, hmore⟩ := ih herror
      refine ⟨decl :: before, failing, after, module, rfl, ?_, fun more => ?_⟩
      · rw [renderEach, hstep]
        exact hmodule
      · rw [List.cons_append, renderEach, renderEach, hstep]
        exact hmore more

end Session

namespace StructBatch

/-- Renders one struct into a session and a resolver. The resolver keeps what it has found also when the
struct has no layout. -/
def stepInPlace (batch : StructBatch) (decl : StructDecl) : Editing (Session × Resolver) Rendering := do
  match batch.mapping.get? decl.name with
  | none => throw (.missingMapping decl.name)
  | some entry =>
    let key := batch.key decl entry
    match (← get).1.renderings.get? key with
    | some held => pure held
    | none =>
      let (found, resolver) := (← get).2.resolve decl.name
      modify fun state => (state.1, resolver)
      let layout ← Editing.ofExcept (found.mapError (.noLayout decl.name))
      let rendering ← Editing.ofExcept (batch.rendering (← get).1 decl entry layout)
      Editing.onFirst (Session.commitInPlace key rendering false)
      pure rendering

def renderInPlace (batch : StructBatch) (session : Session) (structs : List StructDecl) :
    Session × Except BindingError OutputModule :=
  let (result, state) := (Session.renderEachInPlace batch.stepInPlace session.emptyModule structs).outcome
    (session, batch.resolver session)
  (state.1, result)

variable {batch : StructBatch} {state : Session × Resolver} {decl : StructDecl}

theorem outcome_stepInPlace (batch : StructBatch) (state : Session × Resolver) (decl : StructDecl) :
    match batch.step state decl with
    | .ok (rendering, state') => (batch.stepInPlace decl).outcome state = (.ok rendering, state')
    | .error cause =>
      ∃ state', (batch.stepInPlace decl).outcome state = (.error cause, state') ∧ state'.1 = state.1 := by
  simp only [step, stepInPlace]
  cases batch.mapping.get? decl.name with
  | none => exact ⟨state, rfl, rfl⟩
  | some entry =>
    simp only [Editing.outcome_bind, Editing.outcome_get]
    cases state.1.renderings.get? (batch.key decl entry) with
    | some held => rfl
    | none =>
      simp only [build, Editing.outcome_bind, Editing.outcome_get, Editing.outcome_modify,
        Editing.outcome_ofExcept]
      obtain ⟨⟨found, resolver⟩, hresolve⟩ : ∃ answer, state.2.resolve decl.name = answer := ⟨_, rfl⟩
      rw [hresolve]
      cases found with
      | error cause => exact ⟨(state.1, resolver), rfl, rfl⟩
      | ok layout =>
        simp only [Except.mapError]
        cases hrendering : batch.rendering state.1 decl entry layout with
        | error cause => exact ⟨(state.1, resolver), rfl, rfl⟩
        | ok rendering =>
          simp only [Editing.outcome_onFirst, Session.outcome_commitInPlace, bind, pure, Except.bind,
            Except.pure]
          cases state.1.commit (batch.key decl entry) rendering false with
          | error cause => exact ⟨(state.1, resolver), rfl, rfl⟩
          | ok session => rfl

theorem renderInPlace_eq (batch : StructBatch) (session : Session) (structs : List StructDecl) :
    batch.renderInPlace session structs = ((batch.stateAfter session structs).1,
      (Session.renderEach batch.step (session, batch.resolver session) session.emptyModule structs).2) := by
  have houtcome := Session.outcome_renderEachInPlace batch.stepInPlace batch.step Prod.fst
    (fun {state decl rendering state'} hok => by simpa [hok] using batch.outcome_stepInPlace state decl)
    (fun {state decl cause} herror => by simpa [herror] using batch.outcome_stepInPlace state decl)
    structs (session, batch.resolver session) session.emptyModule
  exact Prod.ext houtcome.1 houtcome.2

end StructBatch

namespace FunctionBatch

/-- Renders one function into a session. -/
def stepInPlace (batch : FunctionBatch) (decl : FunctionDecl) : Editing Session Rendering := do
  let key := batch.key decl
  match (← get).renderings.get? key with
  | some held => pure held
  | none =>
    let rendering ← Editing.ofExcept (batch.build (← get) decl)
    Session.commitInPlace key rendering decl.operator.isSome
    pure rendering

def renderInPlace (batch : FunctionBatch) (session : Session) (functions : List FunctionDecl) :
    Session × Except BindingError OutputModule :=
  let (result, session) :=
    (Session.renderEachInPlace batch.stepInPlace session.emptyModule functions).outcome session
  (session, result)

theorem outcome_stepInPlace (batch : FunctionBatch) (s : Session) (decl : FunctionDecl) :
    (batch.stepInPlace decl).outcome s = match batch.step s decl with
      | .ok (rendering, s') => (.ok rendering, s')
      | .error cause => (.error cause, s) := by
  simp only [step, stepInPlace, Editing.outcome_bind, Editing.outcome_get]
  cases s.renderings.get? (batch.key decl) with
  | some held => rfl
  | none =>
    simp only [Editing.outcome_bind, Editing.outcome_get, Editing.outcome_ofExcept]
    cases batch.build s decl with
    | error cause => rfl
    | ok rendering =>
      simp only [Session.outcome_commitInPlace, bind, pure, Except.bind, Except.pure]
      cases s.commit (batch.key decl) rendering decl.operator.isSome <;> rfl

theorem renderInPlace_eq (batch : FunctionBatch) (session : Session) (functions : List FunctionDecl) :
    batch.renderInPlace session functions = (batch.stateAfter session functions,
      (Session.renderEach batch.step session session.emptyModule functions).2) := by
  have houtcome := Session.outcome_renderEachInPlace batch.stepInPlace batch.step id
    (fun {s decl rendering s'} hok => by rw [outcome_stepInPlace, hok])
    (fun {s decl cause} herror => ⟨s, by rw [outcome_stepInPlace, herror], rfl⟩)
    functions session session.emptyModule
  exact Prod.ext houtcome.1 houtcome.2

end FunctionBatch

namespace Session

/-- Rendering some declarations of a batch stops at one of them: those before it are rendered, and what they
leave behind is all that is left behind. -/
structure StopsAt {δ : Type} (render : List δ → Session × Except BindingError OutputModule)
    (before : List δ) (decl : δ) (after : List δ) (cause : BindingError) : Prop where
  earlier : ∃ module, (render before).2 = .ok module
  refused : render (before ++ [decl]) = ((render before).1, .error cause)
  stopped : render (before ++ decl :: after) = ((render before).1, .error cause)

/-- **A declaration that fails leaves no trace.** Whatever refuses it, at whichever check, a renderer that
works in place has by then done what the declarations before it ask for, in the context of the same batch, and
nothing more. -/
theorem stopsAt_of_render_error (s : Session) (cause : BindingError) :
    (∀ batch : StructBatch, (batch.render s).2 = .error cause →
      ∃ before decl after, batch.structs = before ++ decl :: after ∧
        StopsAt (batch.renderInPlace s) before decl after cause ∧
        batch.render s = ((batch.stateAfter s before).1, .error cause)) ∧
    (∀ batch : FunctionBatch, (batch.render s).2 = .error cause →
      ∃ before decl after, batch.functions = before ++ decl :: after ∧
        StopsAt (batch.renderInPlace s) before decl after cause ∧
        batch.render s = (batch.stateAfter s before, .error cause)) := by
  constructor
  · intro batch herror
    obtain ⟨before, decl, after, module, hsplit, hmodule, hstops⟩ := renderEach_error (δ := StructDecl)
      (show (renderEach batch.step (s, batch.resolver s) s.emptyModule batch.structs).2 = _ from herror)
    have hinPlace (more : List StructDecl) : batch.renderInPlace s (before ++ decl :: more) =
        ((batch.renderInPlace s before).1, .error cause) := by
      simp only [StructBatch.renderInPlace_eq, StructBatch.stateAfter, hstops]
    refine ⟨before, decl, after, hsplit, ⟨⟨module, ?_⟩, hinPlace [], hinPlace after⟩, ?_⟩
    · rw [StructBatch.renderInPlace_eq]
      exact hmodule
    · rw [StructBatch.render, hsplit, hstops]
      rfl
  · intro batch herror
    obtain ⟨before, decl, after, module, hsplit, hmodule, hstops⟩ := renderEach_error herror
    have hinPlace (more : List FunctionDecl) : batch.renderInPlace s (before ++ decl :: more) =
        ((batch.renderInPlace s before).1, .error cause) := by
      simp only [FunctionBatch.renderInPlace_eq, FunctionBatch.stateAfter, hstops]
    refine ⟨before, decl, after, hsplit, ⟨⟨module, ?_⟩, hinPlace [], hinPlace after⟩, ?_⟩
    · rw [FunctionBatch.renderInPlace_eq]
      exact hmodule
    · rw [FunctionBatch.render, hsplit, hstops]
      rfl

/-! ### A shim that is taken -/

namespace Sample

def count (operand : CType) : FunctionDecl :=
  { name := "count", returnType := .void, params := [⟨some "n", operand⟩] }

def counter : FunctionBatch where
  functions := [count (.ofPrimitive (.integral .i32))]
  header := "a.h"

def counted : Session :=
  (counter.render { config := { operatorOverride := .lastWins } }).1

/-- The second of these overloads has a host name of its own, but the shim of the function in the other
header. -/
def overloads : FunctionBatch where
  functions := [count (.ofPrimitive (.floating .f32)), count (.ofPrimitive (.integral .i32)),
    count (.ofPrimitive (.floating .f64))]
  header := "b.h"

def halfMapped : StructBatch where
  structs := vectors.structs ++ [{ name := "Box", fields := [⟨"v", .named "Vec2"⟩] }]
  mapping := vectors.mapping

end Sample

theorem stopsAt_of_render_error_overloads :
    (∃ before decl after, Sample.halfMapped.structs = before ++ decl :: after ∧
      StopsAt (Sample.halfMapped.renderInPlace {}) before decl after (.missingMapping "Box") ∧
      Sample.halfMapped.render {} =
        ((Sample.halfMapped.stateAfter {} before).1, .error (.missingMapping "Box"))) ∧
    ∃ before decl after, Sample.overloads.functions = before ++ decl :: after ∧
      StopsAt (Sample.overloads.renderInPlace Sample.counted) before decl after
        (.nameCollision "__bind_shim_count_i32" "count" "count") ∧
      Sample.overloads.render Sample.counted = (Sample.overloads.stateAfter Sample.counted before,
        .error (.nameCollision "__bind_shim_count_i32" "count" "count")) :=
  ⟨(stopsAt_of_render_error {} _).1 Sample.halfMapped (by decide +kernel),
    (stopsAt_of_render_error Sample.counted _).2 Sample.overloads (by decide +kernel)⟩

end Session

end HostBinding
