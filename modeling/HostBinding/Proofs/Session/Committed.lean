import HostBinding.Proofs.Session.BatchOrder
import HostBinding.Proofs.Session.Collecting

/-!
# What a batch of structs commits

A batch goes through its structs until one fails. What it has committed before that stays, so a session is made by
all the calls since its last reset, whether they went through or not: every proxy that it has was committed by one
of them.
-/

namespace HostBinding

open StructBinding

namespace StructBatch

variable {batch : StructBatch} {s : Session} {before after : List StructDecl} {decl : StructDecl}
  {entry : TypeMapping} {rendering : Rendering} {name : String} {proxy : Proxy}

/-- The batch comes to a declaration that is not remembered, and commits it. What follows may fail. -/
structure Commits (batch : StructBatch) (s : Session) (before : List StructDecl) (decl : StructDecl)
    (after : List StructDecl) (entry : TypeMapping) (rendering : Rendering) : Prop where
  split : batch.structs = before ++ decl :: after
  mapped : batch.mapping.get? decl.name = some entry
  committed : ∃ renderings state next, Session.Chain batch.step (s, batch.resolver s) before renderings state ∧
    state.1.renderings.get? (batch.key decl entry) = none ∧ batch.step state decl = .ok (rendering, next)

theorem steady_of_chain {state last : Session × Resolver} {structs : List StructDecl} {renderings : List Rendering}
    (hchain : Session.Chain batch.step state structs renderings last) (h : batch.Steady s state) :
    batch.Steady s last :=
  (hchain.induction (P := batch.Steady s) (Q := fun _ => True)
    (fun _ _ _ _ hsteady hok => ⟨trivial, hsteady.step hok⟩) h).2

theorem Commits.exists_written (h : batch.Commits s before decl after entry rendering) :
    ∃ layout body, (batch.resolver s).LaysOut decl.name layout ∧ batch.body s decl entry.model layout = .ok body ∧
      rendering = written decl entry layout body := by
  obtain ⟨renderings, state, next, hchain, hmiss, hok⟩ := h.committed
  obtain ⟨entry', hentry, hcases⟩ := step_eq_ok_iff.mp hok
  obtain rfl : entry' = entry := Option.some.inj (hentry.symm.trans h.mapped)
  rcases hcases with ⟨hheld, -⟩ | ⟨-, hbuild, -⟩
  · rw [hmiss] at hheld
    cases hheld
  · exact (steady_of_chain hchain (.init batch s)).map_build_eq_ok_iff.mp (map_eq_ok_iff.mpr ⟨_, hbuild, rfl⟩)

/-- What is committed stays, also when a later declaration fails. -/
theorem Commits.kept (h : batch.Commits s before decl after entry rendering) :
    (batch.render s).1.renderings.get? (batch.key decl entry) = some rendering := by
  obtain ⟨renderings, state, next, hchain, -, hok⟩ := h.committed
  obtain ⟨⟨entry', hentry, hnext⟩, -⟩ := remembered_of_step hok
  obtain rfl : entry' = entry := Option.some.inj (hentry.symm.trans h.mapped)
  obtain ⟨collected, hrender⟩ := (hchain.append (.cons hok (.nil next))).renderEach_append s.emptyModule after
  rw [List.append_assoc, List.singleton_append, ← h.split] at hrender
  have hkept : (Session.renderEach batch.step next collected after).1.1.renderings.get? (batch.key decl entry') =
      some rendering :=
    Session.renderEach_induction (P := fun state => state.1.renderings.get? (batch.key decl entry') = some rendering)
      hnext (fun _ _ _ _ _ _ hheld hstep => (remembered_of_step hstep).2 _ _ hheld) after [] (List.append_nil _).symm
  rw [← hrender] at hkept
  exact hkept

theorem Commits.eq_written (h : batch.Commits s before decl after entry rendering) {layout : StructLayout}
    {body : ProxyBody} (hlayout : (batch.resolver s).LaysOut decl.name layout)
    (hbody : batch.body s decl entry.model layout = .ok body) : rendering = written decl entry layout body := by
  obtain ⟨layout', body', hlayout', hbody', rfl⟩ := h.exists_written
  obtain rfl := hlayout'.unique hlayout
  rw [hbody', Except.ok.injEq] at hbody
  rw [hbody]

theorem exists_commits (hsplit : batch.structs = before ++ decl :: after)
    (hentry : batch.mapping.get? decl.name = some entry)
    (hbefore : (Session.renderEach batch.step (s, batch.resolver s) s.emptyModule before).2.toOption.isSome)
    (hmiss : (batch.stateAfter s before).1.renderings.get? (batch.key decl entry) = none)
    (hok : (batch.step (batch.stateAfter s before) decl).toOption.isSome) :
    ∃ rendering, batch.Commits s before decl after entry rendering := by
  obtain ⟨module, hmodule⟩ := exists_of_isSome_toOption hbefore
  obtain ⟨renderings, hchain, -⟩ := Session.renderEach_eq_ok_iff.mp (Prod.ext rfl hmodule)
  obtain ⟨⟨rendering, next⟩, hstep⟩ := exists_of_isSome_toOption hok
  exact ⟨rendering, hsplit, hentry, renderings, _, next, hchain, hmiss, hstep⟩

/-- A proxy that a batch leaves was there before, or the batch has committed it. -/
theorem exists_commits_of_proxy? (hproxy : (batch.render s).1.proxy? name = some proxy) :
    s.proxy? name = some proxy ∨ ∃ before decl after entry rendering,
      batch.Commits s before decl after entry rendering ∧ decl.name = name ∧ rendering.proxy = some proxy := by
  refine Session.renderEach_chain_induction (P := fun state : Session × Resolver => state.1.proxy? name = some proxy →
    s.proxy? name = some proxy ∨ ∃ before decl after entry rendering,
      batch.Commits s before decl after entry rendering ∧ decl.name = name ∧ rendering.proxy = some proxy)
    .inl ?_ hproxy
  intro before decl after renderings state rendering next hsplit hchain hstate hok hnext
  obtain ⟨entry, hentry, ⟨-, rfl⟩ | ⟨hmiss, hbuild, hcommit⟩⟩ := step_eq_ok_iff.mp hok
  · exact hstate hnext
  · obtain ⟨layout, body, -, -, rfl⟩ := build_eq_ok_iff.mp hbuild
    rw [(proxy?_of_commit hcommit name).1] at hnext
    split at hnext
    · rename_i hname
      exact .inr ⟨before, decl, after, entry, _, ⟨hsplit, hentry, renderings, state, next, hchain, hmiss, hok⟩,
        hname.symm, hnext⟩
    · exact hstate hnext

theorem proxy?_render (batch : StructBatch) (hproxy : s.proxy? name = some proxy) :
    (batch.render s).1.proxy? name = some proxy := by
  refine Session.renderEach_induction (P := fun state : Session × Resolver => state.1.proxy? name = some proxy)
    hproxy ?_ batch.structs [] (List.append_nil _).symm
  intro before decl after _ rendering next hstate hok
  obtain ⟨entry, -, ⟨-, rfl⟩ | ⟨-, -, hcommit⟩⟩ := step_eq_ok_iff.mp hok
  · exact hstate
  · exact Session.proxy?_of_commit hcommit hstate

end StructBatch

theorem FunctionBatch.proxies_render (batch : FunctionBatch) (s : Session) :
    (batch.render s).1.proxies = s.proxies := by
  refine Session.renderEach_induction (P := fun t : Session => t.proxies = s.proxies) rfl ?_ batch.functions []
    (List.append_nil _).symm
  exact fun _ _ _ _ _ _ hstate hok => (proxies_of_step hok).2.trans hstate

namespace Session

/-- The runs of a new session, with the batches of structs since its last reset and the sessions that they were
rendered into. -/
inductive History (config : Config) : List (Session × StructBatch) → Session → Prop
  | new : History config [] { config := config }
  | structs {past : List (Session × StructBatch)} {s : Session} (batch : StructBatch) :
    History config past s → History config (past ++ [(s, batch)]) (batch.render s).1
  | functions {past : List (Session × StructBatch)} {s : Session} (batch : FunctionBatch) :
    History config past s → History config past (batch.render s).1
  | reset {past : List (Session × StructBatch)} {s : Session} : History config past s → History config [] s.reset

variable {config : Config} {past : List (Session × StructBatch)} {s : Session} {name : String} {proxy : Proxy}

theorem History.reachable (hs : History config past s) : Reachable config s := by
  induction hs with
  | new => exact .new
  | structs batch _ ih => exact .structs batch ih
  | functions batch _ ih => exact .functions batch ih
  | reset _ ih => exact .reset ih

theorem Reachable.registered_of_commits {batch : StructBatch} {before after : List StructDecl} {decl : StructDecl}
    {entry : TypeMapping} {rendering : Rendering} (hs : Reachable config s)
    (h : batch.Commits s before decl after entry rendering) (hproxy : rendering.proxy = some proxy) :
    (batch.render s).1.proxy? decl.name = some proxy := by
  obtain ⟨layout, body, -, -, rfl⟩ := h.exists_written
  cases hproxy
  exact ((Reachable.structs batch hs).coherent.holds _ _ h.kept).proxy _ rfl

/-- The proxies of a session are those that were committed since its last reset. -/
theorem History.proxy?_eq_some_iff (hs : History config past s) : s.proxy? name = some proxy ↔
    ∃ start batch before decl after entry rendering, (start, batch) ∈ past ∧
      batch.Commits start before decl after entry rendering ∧ decl.name = name ∧
      rendering.proxy = some proxy := by
  induction hs with
  | new => simp [proxy?, Table.get?_empty]
  | @structs past s batch hs ih =>
    constructor
    · intro hproxy
      rcases StructBatch.exists_commits_of_proxy? hproxy with hold | ⟨before, decl, after, entry, rendering, hnew⟩
      · obtain ⟨start, batch', before, decl, after, entry, rendering, hmem, hcommits⟩ := ih.mp hold
        exact ⟨start, batch', before, decl, after, entry, rendering, List.mem_append_left _ hmem, hcommits⟩
      · exact ⟨s, batch, before, decl, after, entry, rendering, by simp, hnew⟩
    · rintro ⟨start, batch', before, decl, after, entry, rendering, hmem, hcommits, hname, hproxy⟩
      rcases List.mem_append.mp hmem with hold | hnew
      · refine batch.proxy?_render (ih.mpr ?_)
        exact ⟨start, batch', before, decl, after, entry, rendering, hold, hcommits, hname, hproxy⟩
      · obtain ⟨rfl, rfl⟩ := Prod.mk.inj (List.mem_singleton.mp hnew)
        exact hname ▸ hs.reachable.registered_of_commits hcommits hproxy
  | functions batch _ ih => rwa [proxy?, batch.proxies_render]
  | reset => simp [proxy?, Session.reset, Table.get?_empty]

theorem Reachable.exists_history (hs : Reachable config s) : ∃ past, History config past s := by
  induction hs with
  | new => exact ⟨_, .new⟩
  | structs batch _ ih => exact ⟨_, .structs batch ih.choose_spec⟩
  | functions batch _ ih => exact ⟨_, .functions batch ih.choose_spec⟩
  | reset _ ih => exact ⟨_, .reset ih.choose_spec⟩

end Session

end HostBinding
