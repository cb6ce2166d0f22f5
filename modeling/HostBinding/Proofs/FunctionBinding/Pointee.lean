import HostBinding.Proofs.FunctionBinding.Draft

/-!
# What registering more proxies changes

A pointer to a struct is erased until the struct gets a proxy. Nothing else in a plan depends on proxies
that are still missing: values that need a proxy have one already, and registered proxies stay as they are.
So when a function is planned once more in a session with more proxies, only the structs that stand
directly behind a pointer can make a difference.
-/

namespace HostBinding

/-- The structs that the type names directly behind a pointer. -/
def CType.pointees : CType → List String
  | .pointer (.named name) _ => [name]
  | .pointer target _ => target.pointees
  | .array element _ => element.pointees
  | _ => []

/-- The structs that a function names directly behind a pointer, among the values that it passes. -/
def FunctionDecl.pointees (decl : FunctionDecl) : List String :=
  (decl.params.flatMap fun param => (param.type.passed?.map (·.1.pointees)).getD []) ++
    if decl.returnType.isVoid || decl.isAssign then [] else decl.returnType.stripReference.pointees

/-- Two ways to name proxies say the same about the targets of pointers. -/
def SamePointees (f g : String → Option String) (names : List String) : Prop :=
  ∀ name ∈ names, (f name).getD HostType.erasedName = (g name).getD HostType.erasedName

variable {f g : String → Option String}

/-- With more proxies a type is stored by the same host type, up to the targets of its pointers. -/
theorem CType.host?_mono (hmore : ∀ name hostName, f name = some hostName → g name = some hostName)
    {type : CType} {host : HostType} (h : type.host? f = some host) :
    ∃ host', type.host? g = some host' ∧ (host'.spell = host.spell ↔ SamePointees g f type.pointees) := by
  have hnone (t : CType) (ht : t.pointees = []) : SamePointees g f t.pointees := by
    simp [SamePointees, ht]
  induction type generalizing host with
  | void => simp [CType.host?] at h
  | reference => simp [CType.host?] at h
  | primitive kind spelling => exact ⟨_, rfl, by cases h; simpa using hnone _ rfl⟩
  | named name =>
    obtain ⟨hostName, hname, rfl⟩ := Option.map_eq_some_iff.mp h
    exact ⟨_, by rw [CType.host?, hmore name hostName hname]; rfl, by simpa using hnone _ rfl⟩
  | array element length ih =>
    obtain ⟨inner, hinner, rfl⟩ := Option.map_eq_some_iff.mp h
    obtain ⟨inner', hinner', hiff⟩ := ih hinner
    refine ⟨.array inner' length, by rw [CType.host?, hinner']; rfl, ?_⟩
    rw [CType.pointees, ← hiff]
    simp [HostType.spell, String.append_left_inj, String.append_right_inj, String.append_assoc]
  | pointer target isConst ih =>
    have hmark (a b : HostType) :
        (HostType.pointer a isConst).spell = (HostType.pointer b isConst).spell ↔ a.spell = b.spell := by
      cases isConst <;> simp [HostType.spell]
    have hdeep (h : (target.host? f).map (HostType.pointer · isConst) = some host) :
        ∃ host', (target.host? g).map (HostType.pointer · isConst) = some host' ∧
          (host'.spell = host.spell ↔ SamePointees g f target.pointees) := by
      obtain ⟨inner, hinner, rfl⟩ := Option.map_eq_some_iff.mp h
      obtain ⟨inner', hinner', hiff⟩ := ih hinner
      exact ⟨.pointer inner' isConst, by rw [hinner']; rfl, (hmark _ _).trans hiff⟩
    cases target with
    | void => exact ⟨_, rfl, by cases h; simpa using hnone _ rfl⟩
    | named name =>
      cases h
      refine ⟨_, rfl, (hmark _ _).trans ?_⟩
      have hspell (p : Option String) :
          (p.elim HostType.erased HostType.proxy).spell = p.getD HostType.erasedName := by
        cases p <;> rfl
      simp [hspell, SamePointees, CType.pointees]
    | reference => simp [CType.host?] at h
    | primitive => exact hdeep h
    | pointer => exact hdeep h
    | array => exact hdeep h

def ParamPlan.eraseHost (param : ParamPlan) : ParamPlan :=
  { param with host := .erased }

def ReturnPlan.eraseHost : ReturnPlan → ReturnPlan
  | .void => .void
  | .outParam value _ => .outParam value .erased
  | .byValue value _ => .byValue value .erased

def FunctionPlan.eraseHosts (plan : FunctionPlan) : FunctionPlan :=
  { plan with params := plan.params.map (·.eraseHost), ret := plan.ret.eraseHost }

namespace FunctionPlan

variable {plan plan' : FunctionPlan}

theorem shimText_eraseHosts (plan : FunctionPlan) (qualifiers : String) :
    plan.eraseHosts.shimText qualifiers = plan.shimText qualifiers := by
  have hparams : plan.eraseHosts.shimParams = plan.shimParams := by
    cases hret : plan.ret <;>
      simp only [shimParams, eraseHosts, hret, ReturnPlan.eraseHost, List.map_map, Function.comp_def] <;> rfl
  have hcall : plan.eraseHosts.nativeCall = plan.nativeCall := by
    simp only [nativeCall, eraseHosts, List.map_map, Function.comp_def]
    rfl
  simp only [shimText, hparams, hcall]
  cases hret : plan.ret <;> simp only [eraseHosts, hret, ReturnPlan.eraseHost]

theorem isUnsafe_eraseHosts (plan : FunctionPlan) : plan.eraseHosts.isUnsafe = plan.isUnsafe := by
  have hret : plan.eraseHosts.ret.value? = plan.ret.value? := by
    cases hret : plan.ret <;> simp only [eraseHosts, hret] <;> rfl
  rw [isUnsafe, isUnsafe, hret, eraseHosts, List.any_map]
  rfl

theorem map_eq_of_map_eq {α β γ δ : Type} {xs ys : List α} {f : α → β} {g : α → γ} {h : α → δ}
    (hf : xs.map f = ys.map f) (hg : xs.map g = ys.map g)
    (hfg : ∀ x y, f x = f y → g x = g y → h x = h y) : xs.map h = ys.map h := by
  induction xs generalizing ys with
  | nil => cases ys <;> simp_all
  | cons x xs ih =>
    cases ys with
    | nil => simp at hf
    | cons y ys =>
      rw [List.map_cons, List.map_cons, List.cons.injEq] at hf hg ⊢
      exact ⟨hfg x y hf.1 hg.1, ih hf.2 hg.2⟩

theorem draft_eq_iff_of_eraseHosts_eq {qualifiers : String} (h : plan'.eraseHosts = plan.eraseHosts) :
    plan'.draft qualifiers = plan.draft qualifiers ↔
      (plan'.params.map (·.host.spell) = plan.params.map (·.host.spell) ∧
        plan'.ret.host?.map HostType.spell = plan.ret.host?.map HostType.spell) := by
  have hshim : plan'.shimText qualifiers = plan.shimText qualifiers := by
    rw [← shimText_eraseHosts, h, shimText_eraseHosts]
  have hsafety : plan'.isUnsafe = plan.isUnsafe := by
    rw [← isUnsafe_eraseHosts, h, isUnsafe_eraseHosts]
  have hparams : plan'.params.map (·.eraseHost) = plan.params.map (·.eraseHost) :=
    congrArg FunctionPlan.params h
  have hret : plan'.ret.eraseHost = plan.ret.eraseHost := congrArg FunctionPlan.ret h
  have hnames : plan'.shimName = plan.shimName ∧ plan'.proxyName = plan.proxyName := by
    have hshimName : plan'.eraseHosts.shimName = plan.eraseHosts.shimName := by rw [h]
    have hproxyName : plan'.eraseHosts.proxyName = plan.eraseHosts.proxyName := by rw [h]
    exact ⟨hshimName, hproxyName⟩
  simp only [draft, Draft.mk.injEq, hshim, hsafety, hnames, true_and]
  refine and_congr ⟨fun hwritten => ?_, fun hspells => ?_⟩ ⟨fun hwritten => ?_, fun hspells => ?_⟩
  · simpa [Function.comp_def] using congrArg (List.map fun pair => pair.2.spell) hwritten
  · apply map_eq_of_map_eq hparams hspells
    intro param param' herased hspell
    have hmode : param.eraseHost.mode = param'.eraseHost.mode := by rw [herased]
    exact Prod.ext hmode (congrArg HostType.proxy hspell)
  · rw [← host?_asWritten, hwritten, host?_asWritten]
  · cases hplan : plan.ret <;> cases hplan' : plan'.ret <;>
      simp_all [ReturnPlan.eraseHost, ReturnPlan.asWritten, ReturnPlan.host?, ReturnPlan.types?,
        HostType.asWritten]

end FunctionPlan

namespace FunctionDecl

variable {decl : FunctionDecl} {s t : Session} {overloaded : Bool} {plan : FunctionPlan}

/-- One parameter planned in two sessions, of which the second one has more proxies. -/
def Replanned (s t : Session) (param param' : ParamPlan) : Prop :=
  param'.eraseHost = param.eraseHost ∧
    (param'.host.spell = param.host.spell ↔
      SamePointees t.hostName? s.hostName? param.value.pointees)

theorem hostName?_mono (hmore : ∀ name proxy, s.proxy? name = some proxy → t.proxy? name = some proxy)
    (name hostName : String) (h : s.hostName? name = some hostName) :
    t.hostName? name = some hostName := by
  obtain ⟨proxy, hproxy, rfl⟩ := Option.map_eq_some_iff.mp h
  rw [Session.hostName?, hmore name proxy hproxy]
  rfl

theorem planParam_mono (hmore : ∀ name proxy, s.proxy? name = some proxy → t.proxy? name = some proxy)
    {planned planned' : List ParamPlan} {param : ParamDecl} {paramPlan : ParamPlan}
    (hplanned : List.Forall₂ (Replanned s t) planned planned')
    (h : decl.planParam s planned param = .ok paramPlan) :
    ∃ paramPlan', decl.planParam t planned' param = .ok paramPlan' ∧ Replanned s t paramPlan paramPlan' := by
  obtain ⟨value, mode, host, hpassed, hhost, rfl⟩ := planParam_eq_ok_iff.mp h
  obtain ⟨host', hhost', hspell⟩ := CType.host?_mono (hostName?_mono hmore) hhost
  have hidents : planned.map (·.ident) = planned'.map (·.ident) := by
    apply map_eq_map_of_forall₂ hplanned
    intro p p' hp
    have hident : p'.eraseHost.ident = p.eraseHost.ident := congrArg ParamPlan.ident hp.1
    exact hident.symm
  have hempty : planned'.isEmpty = planned.isEmpty := by
    cases hplanned <;> rfl
  refine ⟨_, planParam_eq_ok_iff.mpr ⟨value, mode, host', hpassed, hhost', rfl⟩, ?_, hspell⟩
  simp only [ParamPlan.eraseHost, hidents, hempty, hplanned.length_eq]

theorem planParams_mono (hmore : ∀ name proxy, s.proxy? name = some proxy → t.proxy? name = some proxy)
    {planned planned' plans : List ParamPlan} {params : List ParamDecl}
    (hplanned : List.Forall₂ (Replanned s t) planned planned')
    (h : decl.planParams s planned params = .ok plans) :
    ∃ plans', decl.planParams t planned' params = .ok plans' ∧
      List.Forall₂ (Replanned s t) plans plans' := by
  induction params generalizing planned planned' with
  | nil =>
    cases h
    exact ⟨planned', rfl, hplanned⟩
  | cons param rest ih =>
    obtain ⟨next, hnext, hrest⟩ := planParams_cons_eq_ok_iff.mp h
    obtain ⟨next', hnext', hreplanned⟩ := planParam_mono hmore hplanned hnext
    obtain ⟨plans', hplans', hall⟩ := ih (List.rel_append hplanned (.cons hreplanned .nil)) hrest
    exact ⟨plans', planParams_cons_eq_ok_iff.mpr ⟨next', hnext', hplans'⟩, hall⟩

theorem returnsByValue_mono (hconfig : s.config = t.config)
    (hmore : ∀ name proxy, s.proxy? name = some proxy → t.proxy? name = some proxy)
    {value : CType} {host : HostType} (h : value.host? s.hostName? = some host) :
    returnsByValue t value = returnsByValue s value := by
  have hsize : directSize? t value = directSize? s value := by
    cases value with
    | named name =>
      obtain ⟨hostName, hname, -⟩ := Option.map_eq_some_iff.mp h
      obtain ⟨proxy, hproxy, -⟩ := Option.map_eq_some_iff.mp hname
      rw [directSize?, directSize?, hproxy, hmore name proxy hproxy]
    | pointer => rw [directSize?, directSize?, hconfig]
    | _ => rfl
  rw [returnsByValue, returnsByValue, hsize, hconfig]

theorem planReturn_mono (hconfig : s.config = t.config)
    (hmore : ∀ name proxy, s.proxy? name = some proxy → t.proxy? name = some proxy) {ret : ReturnPlan}
    (h : decl.planReturn s = .ok ret) :
    ∃ ret', decl.planReturn t = .ok ret' ∧ ret'.eraseHost = ret.eraseHost ∧
      (ret'.host?.map HostType.spell = ret.host?.map HostType.spell ↔
        SamePointees t.hostName? s.hostName?
          (if decl.returnType.isVoid || decl.isAssign then []
            else decl.returnType.stripReference.pointees)) := by
  obtain ⟨hvoid, rfl⟩ | ⟨hvalue, host, hhost, rfl⟩ := planReturn_eq_ok h
  · exact ⟨.void, by simp [planReturn, hvoid], rfl, by simp [hvoid, SamePointees]⟩
  · obtain ⟨host', hhost', hspell⟩ := CType.host?_mono (hostName?_mono hmore) hhost
    have hform := returnsByValue_mono hconfig hmore hhost
    refine ⟨_, by simp only [planReturn, hvalue, hhost']; rfl, ?_, ?_⟩
    · rw [hform]
      split <;> rfl
    · rw [hform]
      simp only [hvalue, Bool.false_eq_true, if_false, ← hspell]
      split <;> simp [ReturnPlan.host?, ReturnPlan.types?]

theorem samePointees_append {f g : String → Option String} {names names' : List String} :
    SamePointees f g (names ++ names') ↔ SamePointees f g names ∧ SamePointees f g names' :=
  List.forall_mem_append

theorem spells_eq_iff_of_replanned {params params' : List ParamPlan}
    (h : List.Forall₂ (Replanned s t) params params') :
    params'.map (·.host.spell) = params.map (·.host.spell) ↔
      SamePointees t.hostName? s.hostName? (params.flatMap (·.value.pointees)) := by
  induction h with
  | nil => simp [SamePointees]
  | cons hparam _ ih =>
    rw [List.map_cons, List.map_cons, List.cons.injEq, List.flatMap_cons, samePointees_append, hparam.2, ih]

theorem pointees_eq_of_plan (h : decl.plan s overloaded = .ok plan) :
    decl.pointees = plan.params.flatMap (·.value.pointees) ++
      if decl.returnType.isVoid || decl.isAssign then [] else decl.returnType.stripReference.pointees := by
  obtain ⟨-, hparams, -⟩ := plan_eq_ok_iff.mp h
  have hpassed : List.Forall₂ (fun (param : ParamDecl) (planned : ParamPlan) =>
      (param.type.passed?.map (·.1.pointees)).getD [] = planned.value.pointees) decl.params plan.params := by
    refine forall₂_of_planParams (fun planned param paramPlan hparam => ?_) .nil hparams
    obtain ⟨value, mode, host, hpassed, -, rfl⟩ := planParam_eq_ok_iff.mp hparam
    rw [hpassed]
    rfl
  have hflat : (decl.params.map fun param => (param.type.passed?.map (·.1.pointees)).getD []) =
      plan.params.map (·.value.pointees) :=
    map_eq_map_of_forall₂ hpassed fun _ _ heq => heq
  rw [pointees, List.flatMap_def, List.flatMap_def, hflat]

theorem isProxyOperand_mono (hmore : ∀ name proxy, s.proxy? name = some proxy → t.proxy? name = some proxy)
    {param param' : ParamPlan} (hvalue : param.value = param'.value)
    (h : isProxyOperand s param = true) : isProxyOperand t param' = true := by
  simp only [isProxyOperand, ← hvalue] at h ⊢
  split at h
  · rename_i name hname
    obtain ⟨proxy, hproxy⟩ := Option.isSome_iff_exists.mp h
    simp [hmore name proxy hproxy]
  · cases h

theorem value?_eraseHost (ret : ReturnPlan) : ret.eraseHost.value? = ret.value? := by
  cases ret <;> rfl

/-- **With more proxies a function that had a plan has one still, and its draft is the same exactly when the
structs behind its pointers are called the same.** -/
theorem plan_mono (hconfig : s.config = t.config)
    (hmore : ∀ name proxy, s.proxy? name = some proxy → t.proxy? name = some proxy)
    (h : decl.plan s overloaded = .ok plan) :
    ∃ plan', decl.plan t overloaded = .ok plan' ∧ ∀ qualifiers,
      (plan'.draft qualifiers = plan.draft qualifiers ↔
        SamePointees t.hostName? s.hostName? decl.pointees) := by
  obtain ⟨harity, hparams, hret, hoperator, hnative, hop, hshim, hname⟩ := plan_eq_ok_iff.mp h
  obtain ⟨params', hparams', hreplanned⟩ := planParams_mono hmore .nil hparams
  obtain ⟨ret', hret', herased, hreturned⟩ := planReturn_mono hconfig hmore hret
  have hall : params'.map (·.eraseHost) = plan.params.map (·.eraseHost) :=
    (map_eq_map_of_forall₂ hreplanned fun _ _ hp => hp.1.symm).symm
  have hvalues : params'.map (·.value) = plan.params.map (·.value) := by
    have hmapped := congrArg (List.map (·.value)) hall
    rwa [List.map_map, List.map_map] at hmapped
  have hcheck : ∀ operator, decl.operator = some operator →
      decl.checkOperator t operator params' ret' = .ok () := by
    intro operator hsome
    obtain ⟨hpointers, hproxy, hequal⟩ := checkOperator_eq_ok_iff.mp (hoperator operator hsome)
    refine checkOperator_eq_ok_iff.mpr ⟨?_, ?_, ?_⟩
    · intro param' hmem
      have hvalue : param'.value ∈ plan.params.map (·.value) := hvalues ▸ List.mem_map.mpr ⟨param', hmem, rfl⟩
      obtain ⟨param, hparam, heq⟩ := List.mem_map.mp hvalue
      exact heq ▸ hpointers param hparam
    · obtain ⟨param, hparam, hholds⟩ := List.any_eq_true.mp hproxy
      have hvalue : param.value ∈ params'.map (·.value) := hvalues ▸ List.mem_map.mpr ⟨param, hparam, rfl⟩
      obtain ⟨param', hmem, heq⟩ := List.mem_map.mp hvalue
      exact List.any_eq_true.mpr ⟨param', hmem, isProxyOperand_mono hmore heq.symm hholds⟩
    · intro hsame
      have hvalue : ret'.value? = plan.ret.value? := by
        rw [← value?_eraseHost, herased, value?_eraseHost]
      exact hvalue ▸ hequal hsame
  refine ⟨{ plan with params := params', ret := ret' }, plan_eq_ok_iff.mpr
    ⟨harity, hparams', hret', hcheck, hnative, hop, hconfig ▸ hshim, hname⟩, fun qualifiers => ?_⟩
  have hsame :
      ({ plan with params := params', ret := ret' } : FunctionPlan).eraseHosts = plan.eraseHosts := by
    simp only [FunctionPlan.eraseHosts, hall, herased]
  rw [FunctionPlan.draft_eq_iff_of_eraseHosts_eq hsame, pointees_eq_of_plan h, samePointees_append,
    ← spells_eq_iff_of_replanned hreplanned, ← hreturned]

end FunctionDecl

end HostBinding
