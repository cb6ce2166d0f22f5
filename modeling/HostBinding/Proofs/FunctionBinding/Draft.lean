import HostBinding.Proofs.FunctionBinding.Alike

/-!
# Functions with one key

The key of a function fixes the names and spellings of its plan. What it leaves open is the draft, so of two
functions with one key the texts are equal exactly when the drafts are.
-/

namespace HostBinding

open Text

namespace FunctionBatch

open FunctionPlan

variable {batch batch' : FunctionBatch} {config : Config} {plan plan' : FunctionPlan}

/-- **Two functions with one key have the same texts exactly when their drafts are the same.** -/
theorem rendering_eq_iff (hheader : batch.header = batch'.header) (hkey : FunctionPlan.SameKey plan plan')
    (hplan : plan.Readable) (hplan' : plan'.Readable) :
    batch.rendering config plan = batch'.rendering config plan' ↔
      plan.draft config.shimQualifiers = plan'.draft config.shimQualifiers := by
  constructor
  · intro h
    have howned := congrArg Rendering.owned h
    rw [owned_rendering, owned_rendering, ← hkey.operator, ← hheader] at howned
    have hshown : plan.proxyName = plan'.proxyName ∧
        plan.proxyText batch.header = plan'.proxyText batch.header ∧ plan.shimName = plan'.shimName ∧
        plan.shimText config.shimQualifiers = plan'.shimText config.shimQualifiers := by
      cases hop : plan.operator <;> rw [hop] at howned <;> simp at howned <;> simp [howned]
    obtain ⟨hname, htext, hshim, hnative⟩ := hshown
    obtain ⟨hsafety, hparams, hret⟩ := proxyText_inj hplan hplan' hkey hshim hname htext
    rw [draft, draft, Draft.mk.injEq]
    exact ⟨hshim, hname, hnative, hsafety, hparams, hret⟩
  · intro h
    have halike := Alike.of_draft_eq hkey h
    have hshim : plan.shimText config.shimQualifiers = plan'.shimText config.shimQualifiers :=
      congrArg Draft.shim h
    have himpl : ∀ operator, plan.operator = some operator →
        plan.implText operator = plan'.implText operator := by
      refine fun operator hoperator => halike.implText_eq fun hequal => ?_
      subst hequal
      rw [hplan.truthTest hoperator, hplan'.truthTest (hkey.operator ▸ hoperator), halike.hostSpell_eq]
    simp only [rendering, halike.importLines_eq, halike.proxyName, halike.shimName, hshim, hheader,
      halike.proxyText_eq, halike.implHead_eq, ← hkey.operator]
    cases hop : plan.operator with
    | none => rfl
    | some operator => simp [himpl operator hop]

end FunctionBatch

namespace FunctionDecl

open FunctionPlan

variable {decl decl' : FunctionDecl} {session session' : Session} {overloaded overloaded' : Bool}
  {plan plan' : FunctionPlan}

theorem within_hostName? (hnames : ∀ name proxy, session.proxy? name = some proxy →
      Within isWordChar proxy.hostName) (name hostName : String)
    (h : session.hostName? name = some hostName) : Within isTypeChar hostName := by
  obtain ⟨proxy, hproxy, rfl⟩ := Option.map_eq_some_iff.mp h
  exact (hnames name proxy hproxy).mono fun _ => isTypeChar_of_isWordChar

/-- A truth value is the one result of a comparison that is stored as `bool`. -/
theorem truthTest_of_isComparison {value : CType} {host : HostType}
    (hvalue : value.host? session.hostName? = some host) (hcomparison : isComparison value = true)
    (hret : plan.ret.types? = some (value, host)) :
    plan.truthTest = if plan.ret.host?.map HostType.spell = some "bool" then "" else " != 0" := by
  cases value with
  | primitive kind spelling =>
    cases hvalue
    have hbool : kind = .bool ↔ kind.hostName = "bool" := by
      cases kind with
      | bool => decide
      | integral kind => cases kind <;> decide
      | floating kind => cases kind <;> decide
    simp [truthTest, ReturnPlan.value?, ReturnPlan.host?, hret, CType.asPrimitive?, CType.stripReference,
      HostType.spell, hbool]
  | _ => simp [isComparison] at hcomparison

theorem readable_of_plan (hnames : ∀ name proxy, session.proxy? name = some proxy →
      Within isWordChar proxy.hostName) (hplan : decl.plan session overloaded = .ok plan) :
    plan.Readable := by
  obtain ⟨-, hparams, hret, hoperator, -, hop, -, -⟩ := plan_eq_ok_iff.mp hplan
  have hhost {type : CType} {host : HostType} (h : type.host? session.hostName? = some host) :
      Within isTypeChar host.spell :=
    CType.within_spell_of_host? (within_hostName? hnames) h
  have hplanned : List.Forall₂ (fun (_ : ParamDecl) (param : ParamPlan) =>
      Within isWordChar param.ident ∧ Within isTypeChar param.host.spell) decl.params plan.params := by
    refine forall₂_of_planParams (fun planned param paramPlan hparam => ?_) .nil hparams
    obtain ⟨value, mode, host, -, hvalue, rfl⟩ := planParam_eq_ok_iff.mp hparam
    exact ⟨within_paramIdent _ _ _, hhost hvalue⟩
  constructor
  case idents => exact forall_mem_of_forall₂ hplanned fun _ _ h => h.1
  case hosts =>
    intro host hmem
    rcases List.mem_append.mp hmem with hmem | hmem
    · obtain ⟨param, hparam, rfl⟩ := List.mem_map.mp hmem
      exact forall_mem_of_forall₂ hplanned (fun _ _ h => h.2) param hparam
    · obtain ⟨-, hvoid⟩ | ⟨-, host', hvalue, hform⟩ := planReturn_eq_ok hret
      · simp [hvoid, ReturnPlan.host?, ReturnPlan.types?] at hmem
      · have hsame : host = host' := by
          rw [hform] at hmem
          split at hmem <;> simpa [ReturnPlan.host?, ReturnPlan.types?] using hmem
        exact hsame ▸ hhost hvalue
  case truthTest =>
    intro hequal
    have hcheck := (checkOperator_eq_ok_iff.mp (hoperator .equal (hop ▸ hequal))).2.2 rfl
    obtain ⟨-, hvoid⟩ | ⟨-, host, hvalue, hform⟩ := planReturn_eq_ok hret
    · simp [hvoid, ReturnPlan.value?, ReturnPlan.types?] at hcheck
    · have htypes : plan.ret.types? = some (decl.returnType.stripReference, host) := by
        rw [hform]
        split <;> rfl
      refine truthTest_of_isComparison hvalue ?_ htypes
      simpa [ReturnPlan.value?, htypes] using hcheck

theorem named_of_planParams {planned planned' plans plans' : List ParamPlan}
    {params params' : List ParamDecl}
    (hplanned : List.Forall₂ (fun param param' : ParamPlan =>
      param.ident = param'.ident ∧ param.native.spell = param'.native.spell) planned planned')
    (hnames : params.map (·.name.getD "") = params'.map (·.name.getD ""))
    (htypes : params.map (·.type.spell) = params'.map (·.type.spell))
    (h : decl.planParams session planned params = .ok plans)
    (h' : decl'.planParams session' planned' params' = .ok plans') :
    List.Forall₂ (fun param param' : ParamPlan =>
      param.ident = param'.ident ∧ param.native.spell = param'.native.spell) plans plans' := by
  induction params generalizing planned planned' params' with
  | nil =>
    cases params' with
    | nil =>
      cases h
      cases h'
      exact hplanned
    | cons param' rest' => simp at hnames
  | cons param rest ih =>
    cases params' with
    | nil => simp at hnames
    | cons param' rest' =>
      rw [List.map_cons, List.map_cons, List.cons.injEq] at hnames htypes
      obtain ⟨next, hnext, hrest⟩ := planParams_cons_eq_ok_iff.mp h
      obtain ⟨next', hnext', hrest'⟩ := planParams_cons_eq_ok_iff.mp h'
      refine ih (List.rel_append hplanned (.cons ?_ .nil)) hnames.2 htypes.2 hrest hrest'
      obtain ⟨value, mode, host, -, -, rfl⟩ := planParam_eq_ok_iff.mp hnext
      obtain ⟨value', mode', host', -, -, rfl⟩ := planParam_eq_ok_iff.mp hnext'
      have htaken : planned.map (·.ident) = planned'.map (·.ident) :=
        map_eq_map_of_forall₂ hplanned fun _ _ hparam => hparam.1
      refine ⟨?_, htypes.1⟩
      rw [paramIdent_getD, paramIdent_getD param'.name, hnames.1, htaken, hplanned.length_eq]

end FunctionDecl

namespace FunctionBatch

variable {batch batch' : FunctionBatch} {decl decl' : FunctionDecl} {session session' : Session}
  {plan plan' : FunctionPlan}

theorem operator_inj {operator operator' : Option Operator}
    (h : (operator.map (·.mnemonic)).getD "" = (operator'.map (·.mnemonic)).getD "") :
    operator = operator' := by
  have hnonempty (o : Operator) : o.mnemonic ≠ "" :=
    (show ∀ o ∈ Operator.all, o.mnemonic ≠ "" by decide) o o.mem_all
  cases operator <;> cases operator' <;> simp at h
  · rfl
  · exact absurd h (hnonempty _)
  · exact absurd h (hnonempty _)
  · rw [Operator.mnemonic_injective h]

theorem of_key_eq (h : batch.key decl = batch'.key decl') :
    batch.header = batch'.header ∧ decl.name = decl'.name ∧
    decl.returnType.spell = decl'.returnType.spell ∧
    decl.params.map (·.name.getD "") = decl'.params.map (·.name.getD "") ∧
    decl.params.map (·.type.spell) = decl'.params.map (·.type.spell) ∧
    decl.operator = decl'.operator ∧ batch.isOverloaded decl = batch'.isOverloaded decl' := by
  simp only [key, DeclKey.mk.injEq, true_and, List.cons_append, List.nil_append,
    List.cons.injEq] at h
  obtain ⟨hname, hheader, -, -, hret, hparts⟩ := h
  obtain ⟨hparams, htail⟩ := List.append_inj' hparts rfl
  simp only [List.cons.injEq, and_true] at htail
  have hpairs := StructBatch.forall₂_of_flatMap_pair_eq hparams
  have hnames := map_eq_map_of_forall₂ hpairs fun _ _ h => h.1
  have htypes := map_eq_map_of_forall₂ hpairs fun _ _ h => h.2
  refine ⟨hheader, hname, hret, hnames, htypes, operator_inj htail.1, ?_⟩
  have htag := htail.2
  cases hover : batch.isOverloaded decl <;> cases hover' : batch'.isOverloaded decl' <;>
    simp [hover, hover'] at htag ⊢

theorem sameKey_of_key_eq (hkey : batch.key decl = batch'.key decl')
    (hplan : decl.plan session (batch.isOverloaded decl) = .ok plan)
    (hplan' : decl'.plan session' (batch'.isOverloaded decl') = .ok plan') :
    FunctionPlan.SameKey plan plan' := by
  obtain ⟨-, hname, -, hnames, htypes, hoperator, -⟩ := of_key_eq hkey
  obtain ⟨-, hparams, -, -, hnative, hop, -, -⟩ := FunctionDecl.plan_eq_ok_iff.mp hplan
  obtain ⟨-, hparams', -, -, hnative', hop', -, -⟩ := FunctionDecl.plan_eq_ok_iff.mp hplan'
  constructor
  · rw [hnative, hnative', hname]
  · rw [hop, hop', hoperator]
  · exact FunctionDecl.named_of_planParams .nil hnames htypes hparams hparams'

end FunctionBatch

end HostBinding
