import HostBinding.Proofs.FunctionBinding.Readback

/-!
# Plans that are written alike

Everything that is written about a function comes from the names, the hand-over and the host types of its
plan. Plans that agree in these are written alike, whatever the native types of their values are.
-/

namespace HostBinding.FunctionPlan

variable {plan plan' : FunctionPlan}

/-- Two plans with one key and one draft. -/
structure Alike (plan plan' : FunctionPlan) : Prop extends SameKey plan plan' where
  shimName : plan.shimName = plan'.shimName
  proxyName : plan.proxyName = plan'.proxyName
  isUnsafe : plan.isUnsafe = plan'.isUnsafe
  written : List.Forall₂ (fun param param' : ParamPlan => param.ident = param'.ident ∧
    param.native.spell = param'.native.spell ∧ param.mode = param'.mode ∧
    param.host.spell = param'.host.spell) plan.params plan'.params
  ret : plan.ret.asWritten = plan'.ret.asWritten

theorem written_of_map_eq {params params' : List ParamPlan}
    (hnamed : List.Forall₂ (fun param param' : ParamPlan =>
      param.ident = param'.ident ∧ param.native.spell = param'.native.spell) params params')
    (h : (params.map fun param => (param.mode, param.host.asWritten)) =
      params'.map fun param => (param.mode, param.host.asWritten)) :
    List.Forall₂ (fun param param' : ParamPlan => param.ident = param'.ident ∧
      param.native.spell = param'.native.spell ∧ param.mode = param'.mode ∧
      param.host.spell = param'.host.spell) params params' := by
  induction hnamed with
  | nil => exact .nil
  | cons hparam _ ih =>
    rw [List.map_cons, List.map_cons, List.cons.injEq, Prod.mk.injEq] at h
    exact .cons ⟨hparam.1, hparam.2, h.1.1, HostType.proxy.inj h.1.2⟩ (ih h.2)

theorem host?_asWritten (ret : ReturnPlan) :
    ret.asWritten.host?.map HostType.spell = ret.host?.map HostType.spell := by
  cases ret <;> rfl

theorem Alike.map_eq {α : Type} (h : Alike plan plan') (f : ParamPlan → α)
    (hf : ∀ param param' : ParamPlan, param.ident = param'.ident →
      param.native.spell = param'.native.spell → param.mode = param'.mode →
      param.host.spell = param'.host.spell → f param = f param') :
    plan.params.map f = plan'.params.map f :=
  map_eq_map_of_forall₂ h.written fun _ _ hparam => hf _ _ hparam.1 hparam.2.1 hparam.2.2.1 hparam.2.2.2

theorem Alike.hostSpell_eq (h : Alike plan plan') :
    plan.ret.host?.map HostType.spell = plan'.ret.host?.map HostType.spell := by
  rw [← host?_asWritten, h.ret, host?_asWritten]

theorem Alike.ret_cases (h : Alike plan plan') :
    plan.ret = .void ∧ plan'.ret = .void ∨
    (∃ value value' host host', plan.ret = .outParam value host ∧ plan'.ret = .outParam value' host' ∧
      host.spell = host'.spell) ∨
    ∃ value value' host host', plan.ret = .byValue value host ∧ plan'.ret = .byValue value' host' ∧
      host.spell = host'.spell := by
  have hret := h.ret
  cases hplan : plan.ret <;> cases hplan' : plan'.ret <;>
    simp only [hplan, hplan', ReturnPlan.asWritten, HostType.asWritten, reduceCtorEq,
      ReturnPlan.outParam.injEq, ReturnPlan.byValue.injEq, HostType.proxy.injEq, true_and] at hret
  · exact .inl ⟨rfl, rfl⟩
  · exact .inr (.inl ⟨_, _, _, _, rfl, rfl, hret⟩)
  · exact .inr (.inr ⟨_, _, _, _, rfl, rfl, hret⟩)

theorem Alike.externLines_eq (h : Alike plan plan') : plan.externLines = plan'.externLines := by
  have hparams : plan.params.map externParam = plan'.params.map externParam := by
    apply h.map_eq externParam
    intro param param' hident _ hmode hhost
    simp only [externParam, externType, hident, hmode, hhost]
  rcases h.ret_cases with ⟨hret, hret'⟩ | ⟨_, _, _, _, hret, hret', hhost⟩ |
      ⟨_, _, _, _, hret, hret', hhost⟩
  · simp only [externLines, externParams, externResult, h.shimName, hparams, hret, hret']
  · simp only [externLines, externParams, externResult, h.shimName, hparams, hret, hret', hhost]
  · simp only [externLines, externParams, externResult, arrow, h.shimName, hparams, hret, hret', hhost]

theorem Alike.proxyBody_eq (h : Alike plan plan') : plan.proxyBody = plan'.proxyBody := by
  have harguments : plan.params.map callArgument = plan'.params.map callArgument := by
    apply h.map_eq callArgument
    intro param param' hident _ hmode _
    simp only [callArgument, hident, hmode]
  rcases h.ret_cases with ⟨hret, hret'⟩ | ⟨_, _, _, _, hret, hret', hhost⟩ |
      ⟨_, _, _, _, hret, hret', hhost⟩
  · simp only [proxyBody, callArguments, h.shimName, harguments, hret, hret']
  · simp only [proxyBody, callArguments, h.shimName, harguments, hret, hret', hhost]
  · simp only [proxyBody, callArguments, h.shimName, harguments, hret, hret']

theorem Alike.arrow_eq (h : Alike plan plan') : arrow plan.ret.host? = arrow plan'.ret.host? := by
  rcases h.ret_cases with ⟨hret, hret'⟩ | ⟨_, _, _, _, hret, hret', hhost⟩ |
      ⟨_, _, _, _, hret, hret', hhost⟩
  · rw [hret, hret']
  · rw [hret, hret']
    exact congrArg (" -> " ++ ·) hhost
  · rw [hret, hret']
    exact congrArg (" -> " ++ ·) hhost

theorem Alike.proxyText_eq (h : Alike plan plan') (header : String) :
    plan.proxyText header = plan'.proxyText header := by
  have hdocs : plan.proxyDocs header = plan'.proxyDocs header := by
    have hnatives := h.map_eq (·.native.spell) fun _ _ _ hnative _ _ => hnative
    simp only [proxyDocs, hnatives, h.nativeName, h.isUnsafe]
  have hhead : plan.proxyHead = plan'.proxyHead := by
    have hparams : plan.params.map proxyParam = plan'.params.map proxyParam := by
      apply h.map_eq proxyParam
      intro param param' hident _ hmode hhost
      simp only [proxyParam, hident, hmode, hhost]
    simp only [proxyHead, hparams, h.isUnsafe, h.proxyName, h.arrow_eq]
  simp only [proxyText, h.externLines_eq, hdocs, hhead, h.proxyBody_eq]

/-! ### Operators that are implemented alike -/

theorem Alike.param_eq {α : Type} (h : Alike plan plan') (f : ParamPlan → α)
    (hf : ∀ param param' : ParamPlan, param.ident = param'.ident →
      param.native.spell = param'.native.spell → param.mode = param'.mode →
      param.host.spell = param'.host.spell → f param = f param') (position : Nat) :
    plan.params[position]?.map f = plan'.params[position]?.map f := by
  rw [← List.getElem?_map, ← List.getElem?_map, h.map_eq f hf]

theorem Alike.operandHost_eq (h : Alike plan plan') (position : Nat) :
    plan.operandHost position = plan'.operandHost position := by
  rw [operandHost, operandHost, h.param_eq (·.host.spell) fun _ _ _ _ _ hhost => hhost]

theorem Alike.implHead_eq (h : Alike plan plan') (operator : Operator) :
    plan.implHead operator = plan'.implHead operator := by
  have hright := h.param_eq (·.host.spell) (fun _ _ _ _ _ hhost => hhost) 1
  simp only [implHead, h.operandHost_eq]
  cases hplan : plan.params[1]? <;> cases hplan' : plan'.params[1]? <;>
    simp_all

def operandsOfModes (modes : List PassMode) (sources : List String) : List (List String × String) :=
  (modes.zip sources).zipIdx.map fun item => operandCopy item.1.1 item.1.2 item.2

theorem operandCopies_eq_of_modes (plan : FunctionPlan) (sources : List String) :
    plan.operandCopies sources =
      ((operandsOfModes (plan.params.map (·.mode)) sources).flatMap Prod.fst,
        (operandsOfModes (plan.params.map (·.mode)) sources).map Prod.snd) := by
  simp [operandCopies, operandsOfModes, List.zip_map_left, List.zipIdx_map, Function.comp_def]

theorem Alike.operandCopies_eq (h : Alike plan plan') (sources : List String) :
    plan.operandCopies sources = plan'.operandCopies sources := by
  have hmodes := h.map_eq (·.mode) fun _ _ _ _ hmode _ => hmode
  rw [operandCopies_eq_of_modes, operandCopies_eq_of_modes, hmodes]

theorem Alike.assignCopies_eq (h : Alike plan plan') : plan.assignCopies = plan'.assignCopies := by
  have hright := h.param_eq (·.mode) (fun _ _ _ _ hmode _ => hmode) 1
  simp only [assignCopies]
  cases hplan : plan.params[1]? <;> cases hplan' : plan'.params[1]? <;>
    simp_all

theorem Alike.implText_eq (h : Alike plan plan') {operator : Operator}
    (htruth : operator = .equal → plan.truthTest = plan'.truthTest) :
    plan.implText operator = plan'.implText operator := by
  have houtput : plan.ret.host?.elim "()" HostType.spell = plan'.ret.host?.elim "()" HostType.spell := by
    have hhost := h.hostSpell_eq
    cases hplan : plan.ret.host? <;> cases hplan' : plan'.ret.host? <;> simp_all
  cases operator <;>
    simp only [implText, h.implHead_eq, h.operandHost_eq, h.operandCopies_eq, h.assignCopies_eq, houtput,
      h.proxyName, htruth]

theorem Alike.importLines_eq (h : Alike plan plan') :
    FunctionBatch.importLines plan = FunctionBatch.importLines plan' := by
  have hhosts : plan.hosts.any (·.mentionsErased) = plan'.hosts.any (·.mentionsErased) := by
    have hspells : plan.hosts.map HostType.spell = plan'.hosts.map HostType.spell := by
      have hparams := h.map_eq (·.host.spell) fun _ _ _ _ _ hhost => hhost
      have hret := congrArg Option.toList h.hostSpell_eq
      rw [Option.toList_map, Option.toList_map] at hret
      rw [hosts, hosts, List.map_append, List.map_append, List.map_map, List.map_map, hret]
      exact congrArg (· ++ _) hparams
    have hany := congrArg (List.any · fun spelled => (HostType.proxy spelled).mentionsErased) hspells
    rwa [List.any_map, List.any_map] at hany
  rcases h.ret_cases with ⟨hret, hret'⟩ | ⟨_, _, _, _, hret, hret', hhost⟩ |
      ⟨_, _, _, _, hret, hret', hhost⟩ <;>
    simp only [FunctionBatch.importLines, hret, hret', hhosts, h.operator]

theorem Alike.of_draft_eq {qualifiers : String} (hkey : SameKey plan plan')
    (h : plan.draft qualifiers = plan'.draft qualifiers) : Alike plan plan' := by
  simp only [draft, Draft.mk.injEq] at h
  obtain ⟨hshim, hproxy, -, hsafety, hparams, hret⟩ := h
  exact { hkey with
    shimName := hshim, proxyName := hproxy, isUnsafe := hsafety, ret := hret
    written := written_of_map_eq hkey.params hparams }

end HostBinding.FunctionPlan

