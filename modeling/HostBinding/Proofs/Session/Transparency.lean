import Mathlib.Data.Sum.Basic
import HostBinding.Proofs.FunctionBinding.Pointee
import HostBinding.Proofs.Session.Origin

/-!
# When a remembered rendering is what would be rendered now

A key is meant to hold every text that a rendering depends on, but a rendering also depends on what the
session knew when it was made: on the proxies behind pointers and on the layouts of other structs. What is
remembered is what would be rendered now exactly when the drafts of then and now are the same. For a
function whose types have not changed this means that no struct behind one of its pointers has got a proxy
in between.
-/

namespace HostBinding

open Text

namespace FunctionDecl

/-- The declaration with empty names in place of missing ones. -/
def named (decl : FunctionDecl) : FunctionDecl :=
  { decl with params := decl.params.map fun param => { param with name := some (param.name.getD "") } }

theorem planParams_named (decl : FunctionDecl) (session : Session) (planned : List ParamPlan)
    (params : List ParamDecl) :
    decl.named.planParams session planned
      (params.map fun param => { param with name := some (param.name.getD "") }) =
    decl.planParams session planned params := by
  induction params generalizing planned with
  | nil => rfl
  | cons param rest ih =>
    have hparam : decl.named.planParam session planned { param with name := some (param.name.getD "") } =
        decl.planParam session planned param := by
      simp only [planParam, paramIdent_getD param.name]
      rfl
    simp only [List.map_cons, planParams, hparam, ih]

theorem plan_named_eq_ok_iff {decl : FunctionDecl} {session : Session} {overloaded : Bool}
    {plan : FunctionPlan} :
    decl.named.plan session overloaded = .ok plan ↔ decl.plan session overloaded = .ok plan := by
  have harity : decl.named.checkArity = decl.checkArity := by
    simp only [checkArity, named, List.length_map]
  have hmangled : decl.named.mangledName = decl.mangledName := by
    simp only [mangledName, named, List.map_map, Function.comp_def]
    rfl
  have hname : decl.named.proxyName overloaded = decl.proxyName overloaded := by
    simp only [proxyName, hmangled]
    rfl
  have hparams : decl.named.planParams session [] decl.named.params = decl.planParams session [] decl.params :=
    planParams_named decl session [] decl.params
  rw [plan_eq_ok_iff, plan_eq_ok_iff, harity, hmangled, hname, hparams]
  rfl

theorem plan_eq_ok_iff_of_types_eq {decl decl' : FunctionDecl} {session : Session} {overloaded : Bool}
    {plan : FunctionPlan} (hname : decl.name = decl'.name) (hoperator : decl.operator = decl'.operator)
    (hnames : decl.params.map (·.name.getD "") = decl'.params.map (·.name.getD ""))
    (htypes : decl.params.map (·.type) = decl'.params.map (·.type))
    (hret : decl.returnType = decl'.returnType) :
    decl.plan session overloaded = .ok plan ↔ decl'.plan session overloaded = .ok plan := by
  have hnamed : decl.named = decl'.named := by
    simp only [named, hname, hret, hoperator, FunctionDecl.mk.injEq, true_and, and_true]
    exact FunctionPlan.map_eq_of_map_eq hnames htypes fun param param' hn ht => by rw [hn, ht]
  rw [← plan_named_eq_ok_iff, hnamed, plan_named_eq_ok_iff]

end FunctionDecl

/-! ### Drafts of calls -/

/-- The draft of a struct in the state of a call, when it can be rendered there. -/
def StructBatch.draft? (batch : StructBatch) (state : Session × Resolver) (decl : StructDecl)
    (entry : TypeMapping) : Option StructBinding.Draft :=
  match state.2.resolve decl.name with
  | (.error _, _) => none
  | (.ok layout, _) =>
    (batch.body state.1 decl entry.model layout).toOption.map (StructBinding.draft decl layout)

def FunctionBatch.draft? (batch : FunctionBatch) (session : Session) (decl : FunctionDecl) :
    Option FunctionPlan.Draft :=
  (decl.plan session (batch.isOverloaded decl)).toOption.map (·.draft session.config.shimQualifiers)

def Call.draft? : Call → Option (StructBinding.Draft ⊕ FunctionPlan.Draft)
  | struct batch state decl entry => (batch.draft? state decl entry).map .inl
  | function batch session decl => (batch.draft? session decl).map .inr

namespace StructBatch

variable {batch batch' : StructBatch} {state state' : Session × Resolver} {decl decl' : StructDecl}
  {entry entry' : TypeMapping} {held : Rendering}

theorem map_build_eq_ok_iff :
    (batch.build state decl entry).map Prod.fst = .ok held ↔
      ∃ layout body, (state.2.resolve decl.name).1 = .ok layout ∧
        batch.body state.1 decl entry.model layout = .ok body ∧ held = written decl entry layout body := by
  rw [map_eq_ok_iff]
  constructor
  · intro hparts
    obtain ⟨⟨rendering, resolver⟩, hbuild, rfl⟩ := hparts
    obtain ⟨layout, body, hresolve, hbody, hwritten⟩ := build_eq_ok_iff.mp hbuild
    exact ⟨layout, body, by rw [hresolve], hbody, hwritten⟩
  · intro hparts
    obtain ⟨layout, body, hresolve, hbody, rfl⟩ := hparts
    exact ⟨_, build_eq_ok_iff.mpr ⟨layout, body, Prod.ext hresolve rfl, hbody, rfl⟩, rfl⟩

theorem draft?_eq_some_iff {draft : StructBinding.Draft} :
    batch.draft? state decl entry = some draft ↔
      ∃ layout body, (state.2.resolve decl.name).1 = .ok layout ∧
        batch.body state.1 decl entry.model layout = .ok body ∧
        draft = StructBinding.draft decl layout body := by
  cases hresolve : state.2.resolve decl.name with
  | mk result resolver =>
    cases result with
    | error cause => simp [draft?, hresolve]
    | ok layout =>
      cases hbody : batch.body state.1 decl entry.model layout <;>
        simp [draft?, hresolve, hbody, Except.toOption, eq_comm (a := draft)]

theorem build_eq_ok_iff_draft?_eq
    (hnames : ∀ name proxy, state.1.proxy? name = some proxy → Within isWordChar proxy.hostName)
    (hnames' : ∀ name proxy, state'.1.proxy? name = some proxy → Within isWordChar proxy.hostName)
    (hkey : batch'.key decl' entry' = batch.key decl entry)
    (hheld : (batch'.build state' decl' entry').map Prod.fst = .ok held) :
    (batch.build state decl entry).map Prod.fst = .ok held ↔
      batch.draft? state decl entry = batch'.draft? state' decl' entry' := by
  obtain ⟨layout', body', hresolve', hbody', rfl⟩ := map_build_eq_ok_iff.mp hheld
  have hdraft' := draft?_eq_some_iff.mpr ⟨layout', body', hresolve', hbody', rfl⟩
  have hsame := sameKey_of_key_eq hkey.symm
  rw [hdraft', map_build_eq_ok_iff, draft?_eq_some_iff]
  constructor
  · intro hparts
    obtain ⟨layout, body, hresolve, hbody, hwritten⟩ := hparts
    refine ⟨layout, body, hresolve, hbody, Eq.symm ?_⟩
    exact (written_eq_iff hsame (fits_of_body hnames hbody) (fits_of_body hnames' hbody')).mp hwritten.symm
  · intro hparts
    obtain ⟨layout, body, hresolve, hbody, hdraft⟩ := hparts
    refine ⟨layout, body, hresolve, hbody, Eq.symm ?_⟩
    exact (written_eq_iff hsame (fits_of_body hnames hbody) (fits_of_body hnames' hbody')).mpr hdraft.symm

end StructBatch

namespace FunctionBatch

variable {batch batch' : FunctionBatch} {session session' : Session} {decl decl' : FunctionDecl}
  {held : Rendering}

theorem draft?_eq_some_iff {draft : FunctionPlan.Draft} :
    batch.draft? session decl = some draft ↔
      ∃ plan, decl.plan session (batch.isOverloaded decl) = .ok plan ∧
        draft = plan.draft session.config.shimQualifiers := by
  cases hplan : decl.plan session (batch.isOverloaded decl) <;>
    simp [draft?, hplan, Except.toOption, eq_comm (a := draft)]

theorem build_eq_ok_iff_draft?_eq
    (hnames : ∀ name proxy, session.proxy? name = some proxy → Within isWordChar proxy.hostName)
    (hnames' : ∀ name proxy, session'.proxy? name = some proxy → Within isWordChar proxy.hostName)
    (hconfig : session'.config = session.config) (hkey : batch'.key decl' = batch.key decl)
    (hheld : batch'.build session' decl' = .ok held) :
    batch.build session decl = .ok held ↔ batch.draft? session decl = batch'.draft? session' decl' := by
  obtain ⟨plan', hplan', rfl⟩ := build_eq_ok_iff.mp hheld
  rw [draft?_eq_some_iff.mpr ⟨plan', hplan', rfl⟩, build_eq_ok_iff, draft?_eq_some_iff, hconfig]
  refine exists_congr fun plan => and_congr_right fun hplan => ?_
  have hsame := sameKey_of_key_eq hkey hplan' hplan
  exact rendering_eq_iff (of_key_eq hkey).1 hsame (FunctionDecl.readable_of_plan hnames' hplan')
    (FunctionDecl.readable_of_plan hnames hplan)

/-- Between two sessions of which the later one has more proxies, the draft of a function changes exactly
when a struct behind one of its pointers is called differently. -/
theorem draft?_eq_iff_samePointees (hconfig : session'.config = session.config)
    (hmore : ∀ name proxy, session'.proxy? name = some proxy → session.proxy? name = some proxy)
    (hkey : batch'.key decl' = batch.key decl)
    (htypes : decl'.params.map (·.type) = decl.params.map (·.type))
    (hret : decl'.returnType = decl.returnType) (hheld : batch'.build session' decl' = .ok held) :
    batch.draft? session decl = batch'.draft? session' decl' ↔
      SamePointees session.hostName? session'.hostName? decl.pointees := by
  obtain ⟨plan', hplan', -⟩ := build_eq_ok_iff.mp hheld
  obtain ⟨-, hname, -, hnames, -, hoperator, hoverloaded⟩ := of_key_eq hkey
  have hthen : decl.plan session' (batch.isOverloaded decl) = .ok plan' := by
    rw [← FunctionDecl.plan_eq_ok_iff_of_types_eq hname hoperator hnames htypes hret, ← hoverloaded]
    exact hplan'
  obtain ⟨plan, hplan, hiff⟩ := FunctionDecl.plan_mono hconfig hmore hthen
  rw [draft?_eq_some_iff.mpr ⟨plan', hplan', rfl⟩, draft?_eq_some_iff, ← hiff session.config.shimQualifiers,
    hconfig]
  constructor
  · intro hparts
    obtain ⟨now, hnow, hdraft⟩ := hparts
    cases Except.ok.inj (hnow.symm.trans hplan)
    exact hdraft.symm
  · exact fun hdraft => ⟨plan, hplan, hdraft.symm⟩

end FunctionBatch

/-! ### What a session remembers and what it would render -/

/-- **What a session remembers for a call was made by an earlier call with the same key, and it is what the
call would render to now exactly when the drafts of the two calls are equal.** For a function whose types
are the same as then, they are equal exactly when the structs behind its pointers are called the same. -/
theorem Call.Occurs.held_iff_sameDraft {config : Config} {call : Call} {held : Rendering}
    (hcall : call.Occurs config) (hheld : call.session.renderings.get? call.key = some held) :
    (∃ origin : Call, origin.Made config call.session call.key held) ∧
    ∀ origin : Call, origin.Made config call.session call.key held →
      (call.build = .ok held ↔ call.draft? = origin.draft?) ∧
      ∀ batch session decl batch' session' decl', call = .function batch session decl →
        origin = .function batch' session' decl' →
        decl'.params.map (·.type) = decl.params.map (·.type) → decl'.returnType = decl.returnType →
        (call.build = .ok held ↔ SamePointees session.hostName? session'.hostName? decl.pointees) := by
  refine ⟨hcall.traced.origin call.key held hheld, fun origin hmade => ?_⟩
  have hnow := hcall.traced
  have hthen := hmade.occurs.traced
  have hconfig : origin.session.config = call.session.config := hthen.configured.trans hnow.configured.symm
  have hdraft : call.build = .ok held ↔ call.draft? = origin.draft? := by
    have hkind := congrArg DeclKey.kind hmade.key
    cases call with
    | struct batch state decl entry =>
      cases origin with
      | function => cases hkind
      | struct batch' state' decl' entry' =>
        refine (StructBatch.build_eq_ok_iff_draft?_eq hnow.hostName hthen.hostName hmade.key
          hmade.build).trans ?_
        exact (Option.map_injective Sum.inl_injective).eq_iff.symm
    | function batch session decl =>
      cases origin with
      | struct => cases hkind
      | function batch' session' decl' =>
        refine (FunctionBatch.build_eq_ok_iff_draft?_eq hnow.hostName hthen.hostName hconfig hmade.key
          hmade.build).trans ?_
        exact (Option.map_injective Sum.inr_injective).eq_iff.symm
  refine ⟨hdraft, ?_⟩
  rintro batch session decl batch' session' decl' rfl rfl htypes hret
  rw [hdraft]
  refine (Option.map_injective Sum.inr_injective).eq_iff.trans ?_
  exact FunctionBatch.draft?_eq_iff_samePointees hconfig hmade.proxies hmade.key htypes hret hmade.build

/-! ### A pointer to a struct that gets its proxy late -/

namespace Sample

def takesPointer : FunctionDecl :=
  { name := "f", returnType := .void, params := [⟨some "p", .pointer (.named "Foo") false⟩] }

def pointerUsers : FunctionBatch where
  functions := [takesPointer]
  header := "h.h"

def pointerTargets : StructBatch where
  structs := [{ name := "Foo", fields := [⟨"x", .ofPrimitive (.integral .i32)⟩] }]
  mapping := Table.ofList [("Foo", { header := "h.h" })]

def early : Call :=
  .function pointerUsers (pointerUsers.stateAfter {} []) takesPointer

def late : Call :=
  .function pointerUsers
    (pointerUsers.stateAfter (pointerTargets.render (pointerUsers.render {}).1).1 []) takesPointer

theorem early_occurs : early.Occurs {} :=
  .function pointerUsers [] takesPointer [] .new rfl

theorem late_occurs : late.Occurs {} :=
  .function pointerUsers [] takesPointer [] (.structs _ (.functions _ .new)) rfl

def erasedRendering : Rendering :=
  early.build.toOption.getD default

theorem early_made : early.Made {} late.session late.key erasedRendering where
  occurs := early_occurs
  key := rfl
  build := by decide +kernel
  proxies _ _ h := by cases h

end Sample

/-- The late call is answered with the early rendering, in which the target of the pointer is erased. -/
theorem Call.held_ne_build_late :
    Sample.late.Occurs {} ∧
    ∃ held, Sample.late.session.renderings.get? Sample.late.key = some held ∧
      Sample.late.build ≠ .ok held :=
  ⟨Sample.late_occurs, Sample.erasedRendering, by decide +kernel, by decide +kernel⟩

theorem Call.held_iff_sameDraft_late :
    Sample.late.session.renderings.get? Sample.late.key = some Sample.erasedRendering ∧
    (Sample.late.build = .ok Sample.erasedRendering ↔ Sample.late.draft? = Sample.early.draft?) ∧
    (Sample.late.build = .ok Sample.erasedRendering ↔
      SamePointees Sample.late.session.hostName? Sample.early.session.hostName? ["Foo"]) := by
  have hheld : Sample.late.session.renderings.get? Sample.late.key = some Sample.erasedRendering := by
    decide +kernel
  obtain ⟨-, hiff⟩ := Call.Occurs.held_iff_sameDraft Sample.late_occurs hheld
  obtain ⟨hdraft, hpointees⟩ := hiff Sample.early Sample.early_made
  exact ⟨hheld, hdraft, hpointees _ _ _ _ _ _ rfl rfl rfl rfl⟩

end HostBinding
