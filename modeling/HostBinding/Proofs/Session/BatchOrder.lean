import HostBinding.Proofs.Session.Order
import HostBinding.Proofs.Session.StructRun
import HostBinding.Proofs.Session.Transparency
import HostBinding.Proofs.StructBinding.Layouts

/-!
# The order of a batch

A struct refers to other structs of its batch, before or after it, by layouts and by host names. Neither
changes while the batch goes on: what is remembered of layouts is what would be found again, and a struct is
registered under the name by which the batch called it already. A function refers to its whole batch only
through the number of functions of its name. So every declaration renders to what it would render to at
the beginning of the batch, the declarations of a batch are requests to its session, and requests can be made
in any order.
-/

namespace HostBinding

/-! ### Structs -/

namespace StructBatch

/-- What a struct asks a session for, which is what it renders to at the beginning of its batch. -/
def request (batch : StructBatch) (start : Session) (decl : StructDecl) : Option Session.Request :=
  (batch.mapping.get? decl.name).map fun entry =>
    { key := batch.key decl entry
      rendering? := ((batch.build (start, batch.resolver start) decl entry).map Prod.fst).toOption }

variable {batch : StructBatch} {start t : Session} {state state' : Session × Resolver} {decl : StructDecl}
  {entry : TypeMapping} {rendering : Rendering} {structs : List StructDecl} {request : Session.Request}

/-- Throughout a batch a struct renders from its layout and the host names of the beginning. -/
theorem Steady.map_build_eq_ok_iff (h : batch.Steady start state) :
    (batch.build state decl entry).map Prod.fst = .ok rendering ↔
      ∃ layout body, (batch.resolver start).LaysOut decl.name layout ∧
        batch.body start decl entry.model layout = .ok body ∧ rendering = written decl entry layout body := by
  have hmemo : state.2.Remembers state.2.memo := by
    rw [h.resolver]
    exact Resolver.remembers_withMemo.mpr h.remembers
  rw [StructBatch.map_build_eq_ok_iff]
  refine exists_congr fun layout => exists_congr fun body => and_congr ?_ (by rw [body_congr h.hostNames])
  have hlaysOut : state.2.LaysOut decl.name layout ↔ (batch.resolver start).LaysOut decl.name layout := by
    rw [h.resolver]
    exact Resolver.laysOut_withMemo
  rw [← hlaysOut]
  constructor
  · exact fun hresolve => (Resolver.laysOut_of_resolve hmemo (Prod.ext hresolve rfl)).1
  · intro hlayout
    obtain ⟨memo, hresolve, -⟩ := Resolver.resolve_of_laysOut hmemo hlayout
    rw [hresolve]

/-- A struct is rendered like the request that it makes is answered. -/
theorem Steady.answer_eq_some_iff (h : batch.Steady start state) :
    state.1.answer (batch.request start decl) = some t ↔
      ∃ rendering state', batch.step state decl = .ok (rendering, state') ∧ state'.1 = t := by
  simp only [step_eq_ok_iff]
  cases hentry : batch.mapping.get? decl.name with
  | none => simp [StructBatch.request, hentry, Session.answer]
  | some entry =>
    rw [StructBatch.request, hentry, Option.map_some, Session.answer_eq_some_iff]
    simp only [Option.some.injEq, exists_eq_left']
    constructor
    · rintro (⟨⟨held, hheld⟩, rfl⟩ | ⟨hmiss, rendering, hrendering, hadmits, rfl⟩)
      · exact ⟨held, state, .inl ⟨hheld, rfl⟩, rfl⟩
      · have hstart := (Steady.init batch start).map_build_eq_ok_iff.mp (eq_ok_of_toOption_eq_some hrendering)
        obtain ⟨⟨_, resolver⟩, hbuild, rfl⟩ := map_eq_ok_iff.mp (h.map_build_eq_ok_iff.mpr hstart)
        refine ⟨_, (_, resolver), .inr ⟨hmiss, hbuild, ?_⟩, rfl⟩
        exact Session.commit_false_eq_ok_iff.mpr ⟨hadmits, rfl⟩
    · rintro ⟨rendering, state', ⟨hheld, rfl⟩ | ⟨hmiss, hbuild, hcommit⟩, rfl⟩
      · exact .inl ⟨⟨rendering, hheld⟩, rfl⟩
      · have hnow := h.map_build_eq_ok_iff.mp (map_eq_ok_iff.mpr ⟨_, hbuild, rfl⟩)
        have hstart := (Steady.init batch start).map_build_eq_ok_iff.mpr hnow
        obtain ⟨hadmits, hsession⟩ := Session.commit_false_eq_ok_iff.mp hcommit
        exact .inr ⟨hmiss, rendering, by rw [hstart]; rfl, hadmits, hsession⟩

theorem answerAll_request (batch : StructBatch) (start : Session) :
    (batch.structs.map (batch.request start)).foldlM Session.answer start =
      (batch.render start).2.toOption.map fun _ => (batch.render start).1 :=
  Session.renderEach_eq_answerAll Prod.fst (Steady.init batch start)
    (fun _ _ _ _ hsteady => hsteady.step) fun _ _ _ hsteady => hsteady.answer_eq_some_iff

/-- What a struct asks for does not depend on the order of its batch. -/
theorem request_eq_of_perm (hdistinct : (batch.structs.map (·.name)).Nodup)
    (hperm : batch.structs.Perm structs) :
    StructBatch.request { batch with structs := structs } start = batch.request start := by
  have hdistinct' : (structs.map (·.name)).Nodup := (hperm.map (·.name)).nodup_iff.mp hdistinct
  have hhost (name : String) : StructBatch.hostName? { batch with structs := structs } start name =
      batch.hostName? start name := by
    rw [hostName?, hostName?, hperm.any_eq]
  have hlaysOut (name : String) (layout : StructLayout) :
      (StructBatch.resolver { batch with structs := structs } start).LaysOut name layout ↔
        (batch.resolver start).LaysOut name layout := by
    refine Resolver.laysOut_congr rfl (fun name => ?_) fun _ => rfl
    ext decl
    rw [Resolver.declared?_eq_some_iff hdistinct', Resolver.declared?_eq_some_iff hdistinct]
    exact and_congr_left fun _ => hperm.mem_iff.symm
  funext decl
  refine congrArg (fun f => (batch.mapping.get? decl.name).map f) (funext fun entry => ?_)
  refine congrArg (Session.Request.mk (batch.key decl entry)) (toOption_eq_of_ok_iff fun rendering => ?_)
  rw [(Steady.init _ start).map_build_eq_ok_iff, (Steady.init batch start).map_build_eq_ok_iff]
  simp only [hlaysOut, body_congr hhost]

theorem consistent_requests (hdistinct : (batch.structs.map (·.name)).Nodup) :
    Session.Consistent (batch.structs.map (batch.request start)) := by
  have hmade : ∀ request : Session.Request, some request ∈ batch.structs.map (batch.request start) →
      ∃ decl ∈ batch.structs, ∃ entry, batch.request start decl = some request ∧
        request.key = batch.key decl entry := by
    intro request hmem
    obtain ⟨decl, hdecl, hrequest⟩ := List.mem_map.mp hmem
    obtain ⟨entry, -, rfl⟩ := Option.map_eq_some_iff.mp hrequest
    exact ⟨decl, hdecl, entry, hrequest, rfl⟩
  constructor
  · intro request request' hmem hmem' hkey
    obtain ⟨decl, hdecl, entry, hrequest, hown⟩ := hmade request hmem
    obtain ⟨decl', hdecl', entry', hrequest', hown'⟩ := hmade request' hmem'
    rw [hown, hown'] at hkey
    have hname : decl.name = decl'.name := congrArg DeclKey.name hkey
    rw [List.inj_on_of_nodup_map hdistinct hdecl hdecl' hname, hrequest', Option.some.injEq] at hrequest
    exact hrequest.symm
  · intro request hmem rendering hrendering
    obtain ⟨decl, -, hrequest⟩ := List.mem_map.mp hmem
    obtain ⟨entry, -, rfl⟩ := Option.map_eq_some_iff.mp hrequest
    obtain ⟨layout, body, -, -, rfl⟩ :=
      (Steady.init batch start).map_build_eq_ok_iff.mp (eq_ok_of_toOption_eq_some hrendering)
    exact ⟨false, proper_written⟩

/-- **Structs can be rendered in any order**: when their names differ, a batch goes through in one order
exactly when it does in another, and what the two leave behind is the same. -/
theorem render_perm_structs (s : Session) (batch : StructBatch) (structs : List StructDecl)
    (hdistinct : (batch.structs.map (·.name)).Nodup) (hperm : batch.structs.Perm structs) :
    ((∃ module, (batch.render s).2 = .ok module) ↔
      ∃ module, (StructBatch.render { batch with structs := structs } s).2 = .ok module) ∧
    ((∃ module, (batch.render s).2 = .ok module) →
      (batch.render s).1.Alike (StructBatch.render { batch with structs := structs } s).1) := by
  refine Session.sameOutcome_of_perm (hperm.map (batch.request s)) (consistent_requests hdistinct)
    (batch.answerAll_request s) ?_
  rw [← request_eq_of_perm hdistinct hperm]
  exact StructBatch.answerAll_request { batch with structs := structs } s

/-- The structs of a batch that refer to each other, rendered from the last to the first. -/
theorem render_perm_structs_scenes :
    Session.Reachable {} (Session.Sample.shapes.render {}).1 ∧
    (Session.Sample.scenes.structs.map (·.name)).Nodup ∧
    (∃ module, (Session.Sample.scenes.render (Session.Sample.shapes.render {}).1).2 = .ok module) ∧
    (Session.Sample.scenes.render (Session.Sample.shapes.render {}).1).1.Alike
      (StructBatch.render { Session.Sample.scenes with structs := Session.Sample.scenes.structs.reverse }
        (Session.Sample.shapes.render {}).1).1 := by
  have hdistinct : (Session.Sample.scenes.structs.map (·.name)).Nodup := by decide +kernel
  have hok : (Session.Sample.scenes.render (Session.Sample.shapes.render {}).1).2.toOption.isSome := by
    decide +kernel
  have hmodule := exists_of_isSome_toOption hok
  obtain ⟨-, halike⟩ := render_perm_structs (Session.Sample.shapes.render {}).1 Session.Sample.scenes
    Session.Sample.scenes.structs.reverse hdistinct (List.reverse_perm _).symm
  exact ⟨.structs _ .new, hdistinct, hmodule, halike hmodule⟩

end StructBatch

/-! ### Functions -/

namespace FunctionBatch

variable {batch : FunctionBatch} {s start t : Session} {decl : FunctionDecl} {key : DeclKey}
  {rendering : Rendering} {functions : List FunctionDecl}

/-- What a function asks a session for, which is what it renders to at the beginning of its batch. -/
def request (batch : FunctionBatch) (start : Session) (decl : FunctionDecl) : Session.Request where
  key := batch.key decl
  rendering? := (batch.build start decl).toOption

/-- A function renders from the configuration and the proxies of a session. -/
theorem build_congr (hconfig : s.config = t.config) (hproxies : s.proxies = t.proxies) :
    batch.build s decl = batch.build t decl := by
  have hplan := FunctionDecl.plan_congr hconfig (fun name => congrArg (Table.get? · name) hproxies) decl
    (batch.isOverloaded decl)
  simp only [build, hplan, hconfig]

theorem proxies_of_commit {replaceable : Bool} (hbuild : batch.build start decl = .ok rendering)
    (hcommit : s.commit key rendering replaceable = .ok t) : t.config = s.config ∧ t.proxies = s.proxies := by
  obtain ⟨plan, -, rfl⟩ := build_eq_ok_iff.mp hbuild
  obtain ⟨rfl, -, -⟩ := Session.commit_eq_ok_iff.mp hcommit
  exact ⟨rfl, rfl⟩

theorem proxies_of_step (hok : batch.step s decl = .ok (rendering, t)) :
    t.config = s.config ∧ t.proxies = s.proxies := by
  obtain ⟨-, rfl⟩ | ⟨-, hbuild, hcommit⟩ := step_eq_ok_iff.mp hok
  · exact ⟨rfl, rfl⟩
  · exact proxies_of_commit hbuild hcommit

/-- Where no operator takes over, a function is rendered like the request that it makes is answered. -/
theorem answer_request_eq_some_iff (hreject : start.config.operatorOverride = .reject)
    (hsame : s.config = start.config ∧ s.proxies = start.proxies) :
    s.answer (some (batch.request start decl)) = some t ↔
      ∃ rendering s', batch.step s decl = .ok (rendering, s') ∧ s' = t := by
  have hkeeps : ¬(decl.operator.isSome = true ∧ s.config.operatorOverride = .lastWins) := by
    rw [hsame.1, hreject]
    simp
  simp only [Session.answer_eq_some_iff, step_eq_ok_iff, request, build_congr hsame.1 hsame.2,
    Session.commit_eq_ok_iff_admits hkeeps]
  constructor
  · rintro (⟨⟨held, hheld⟩, rfl⟩ | ⟨hmiss, rendering, hrendering, hadmits, rfl⟩)
    · exact ⟨held, _, .inl ⟨hheld, rfl⟩, rfl⟩
    · exact ⟨rendering, _, .inr ⟨hmiss, eq_ok_of_toOption_eq_some hrendering, hadmits, rfl⟩, rfl⟩
  · rintro ⟨rendering, _, ⟨hheld, rfl⟩ | ⟨hmiss, hbuild, hadmits, rfl⟩, rfl⟩
    · exact .inl ⟨⟨rendering, hheld⟩, rfl⟩
    · exact .inr ⟨hmiss, rendering, by rw [hbuild]; rfl, hadmits, rfl⟩

theorem answerAll_request (batch : FunctionBatch) (hreject : start.config.operatorOverride = .reject) :
    (batch.functions.map fun decl => some (batch.request start decl)).foldlM Session.answer start =
      (batch.render start).2.toOption.map fun _ => (batch.render start).1 := by
  refine Session.renderEach_eq_answerAll (P := fun s => s.config = start.config ∧ s.proxies = start.proxies)
    (fun s => s) ⟨rfl, rfl⟩ ?_ fun decl s t hsame => answer_request_eq_some_iff hreject hsame
  intro decl s rendering t hsame hok
  obtain ⟨hconfig, hproxies⟩ := proxies_of_step hok
  exact ⟨hconfig.trans hsame.1, hproxies.trans hsame.2⟩

theorem request_eq_of_perm (hperm : batch.functions.Perm functions) :
    FunctionBatch.request { batch with functions := functions } start = batch.request start := by
  funext decl
  have hoverloaded : FunctionBatch.isOverloaded { batch with functions := functions } decl =
      batch.isOverloaded decl := by
    rw [isOverloaded, isOverloaded, hperm.countP_eq]
  simp only [request, key, build, hoverloaded]
  rfl

/-- **Functions can be rendered in any order where no operator takes over**: when two declarations of a batch
have one key only if they are equal, the batch goes through in one order exactly when it does in another, and
what the two leave behind is the same. -/
theorem render_perm_functions (s : Session) (batch : FunctionBatch) (functions : List FunctionDecl)
    (hreject : s.config.operatorOverride = .reject)
    (hkeys : ∀ decl ∈ batch.functions, ∀ decl' ∈ batch.functions, batch.key decl = batch.key decl' →
      decl = decl')
    (hperm : batch.functions.Perm functions) :
    ((∃ module, (batch.render s).2 = .ok module) ↔
      ∃ module, (FunctionBatch.render { batch with functions := functions } s).2 = .ok module) ∧
    ((∃ module, (batch.render s).2 = .ok module) →
      (batch.render s).1.Alike (FunctionBatch.render { batch with functions := functions } s).1) := by
  have hconsistent : Session.Consistent (batch.functions.map fun decl => some (batch.request s decl)) := by
    constructor
    · intro request request' hmem hmem' hkey
      obtain ⟨decl, hdecl, ⟨⟩⟩ := List.mem_map.mp hmem
      obtain ⟨decl', hdecl', ⟨⟩⟩ := List.mem_map.mp hmem'
      rw [hkeys decl hdecl decl' hdecl' hkey]
    · intro request hmem rendering hrendering
      obtain ⟨decl, -, ⟨⟩⟩ := List.mem_map.mp hmem
      exact ⟨_, proper_of_build (eq_ok_of_toOption_eq_some hrendering)⟩
  refine Session.sameOutcome_of_perm (hperm.map fun decl => some (batch.request s decl)) hconsistent
    (batch.answerAll_request hreject) ?_
  rw [← request_eq_of_perm hperm]
  exact FunctionBatch.answerAll_request { batch with functions := functions } hreject

namespace Sample

def norm (operand : CType) : FunctionDecl :=
  { name := "norm", returnType := .ofPrimitive (.floating .f32), params := [⟨some "v", operand⟩] }

def measures : FunctionBatch where
  functions := [norm (.named "Vec2"), norm (.ofPrimitive (.floating .f32))] ++
    (Session.Sample.sum (.named "Vec2")).functions ++ [norm (.named "Vec2")]
  header := "vec.h"

end Sample

theorem render_perm_functions_measures :
    Session.Reachable {} (Session.Sample.vectors.render {}).1 ∧
    (∃ module, (Sample.measures.render (Session.Sample.vectors.render {}).1).2 = .ok module) ∧
    (Sample.measures.render (Session.Sample.vectors.render {}).1).1.Alike
      (FunctionBatch.render { Sample.measures with functions := Sample.measures.functions.reverse }
        (Session.Sample.vectors.render {}).1).1 := by
  have hok : (Sample.measures.render (Session.Sample.vectors.render {}).1).2.toOption.isSome := by
    decide +kernel
  have hmodule := exists_of_isSome_toOption hok
  obtain ⟨-, halike⟩ := render_perm_functions (Session.Sample.vectors.render {}).1 Sample.measures
    Sample.measures.functions.reverse (by decide +kernel) (by decide +kernel) (List.reverse_perm _).symm
  exact ⟨.structs _ .new, hmodule, halike hmodule⟩

end FunctionBatch

end HostBinding
