import Mathlib.Data.Option.Basic
import HostBinding.FunctionBinding.Plan
import HostBinding.Proofs.Prelude
import HostBinding.Proofs.Text.HostNames

/-!
# When a function has a plan

A plan exists exactly when the number of operands fits, every parameter and the return value can be
stored, and an operator's operands suit its trait. Later modules take plans apart only through this.
-/

namespace HostBinding.FunctionDecl

open Text

variable {decl : FunctionDecl} {session : Session} {overloaded : Bool} {plan : FunctionPlan}

theorem plan_eq_ok_iff :
    decl.plan session overloaded = .ok plan ↔
      decl.checkArity = .ok () ∧
      decl.planParams session [] decl.params = .ok plan.params ∧
      decl.planReturn session = .ok plan.ret ∧
      (∀ operator, decl.operator = some operator →
        decl.checkOperator session operator plan.params plan.ret = .ok ()) ∧
      plan.nativeName = decl.name ∧ plan.operator = decl.operator ∧
      plan.shimName = session.config.shimStart ++ decl.mangledName ∧
      plan.proxyName = decl.proxyName overloaded := by
  obtain ⟨nativeName, operator, params, ret, shimName, proxyName⟩ := plan
  simp only [FunctionDecl.plan, bind_eq_ok_iff]
  constructor
  · intro hparts
    obtain ⟨⟨⟩, harity, params', hparams, ret', hret, hrest⟩ := hparts
    cases hop : decl.operator with
    | none =>
      rw [hop] at hrest
      cases hrest
      exact ⟨harity, hparams, hret, by simp, rfl, rfl, rfl, rfl⟩
    | some op =>
      rw [hop] at hrest
      obtain ⟨⟨⟩, hcheck, heq⟩ := bind_eq_ok_iff.mp hrest
      cases heq
      refine ⟨harity, hparams, hret, ?_, rfl, rfl, rfl, rfl⟩
      rintro _ ⟨⟩
      exact hcheck
  · intro hparts
    obtain ⟨harity, hparams, hret, hcheck, rfl, rfl, rfl, rfl⟩ := hparts
    refine ⟨(), harity, params, hparams, ret, hret, ?_⟩
    cases hop : decl.operator with
    | none => rfl
    | some op => exact bind_eq_ok_iff.mpr ⟨(), hcheck op hop, rfl⟩

theorem planParam_eq_ok_iff {planned : List ParamPlan} {param : ParamDecl} {paramPlan : ParamPlan} :
    decl.planParam session planned param = .ok paramPlan ↔
      ∃ value mode host, param.type.passed? = some (value, mode) ∧
        value.host? session.hostName? = some host ∧
        paramPlan = { ident := paramIdent param.name planned.length (planned.map (·.ident))
                      native := param.type
                      value := value
                      host := host
                      mode := if decl.isAssign && planned.isEmpty then .mutable else mode } := by
  cases hpassed : param.type.passed? with
  | none => simp [planParam, hpassed]
  | some passed =>
    obtain ⟨value, mode⟩ := passed
    cases hhost : value.host? session.hostName? with
    | none =>
      simp only [planParam, hpassed, hhost, reduceCtorEq, Option.some.injEq, Prod.mk.injEq, false_iff]
      intro hparts
      obtain ⟨_, _, _, ⟨rfl, rfl⟩, hsome, -⟩ := hparts
      simp [hhost] at hsome
    | some host =>
      simp only [planParam, hpassed, hhost, Except.ok.injEq, Option.some.injEq, Prod.mk.injEq]
      constructor
      · intro heq
        subst heq
        exact ⟨value, mode, host, ⟨rfl, rfl⟩, hhost, rfl⟩
      · intro hparts
        obtain ⟨_, _, _, ⟨rfl, rfl⟩, hsome, rfl⟩ := hparts
        rw [hhost, Option.some.injEq] at hsome
        rw [hsome]

theorem planParams_cons_eq_ok_iff {planned plans : List ParamPlan} {param : ParamDecl}
    {rest : List ParamDecl} :
    decl.planParams session planned (param :: rest) = .ok plans ↔
      ∃ paramPlan, decl.planParam session planned param = .ok paramPlan ∧
        decl.planParams session (planned ++ [paramPlan]) rest = .ok plans := by
  cases h : decl.planParam session planned param <;> simp [planParams, h]

theorem forall₂_of_planParams {R : ParamDecl → ParamPlan → Prop}
    (hR : ∀ planned param paramPlan, decl.planParam session planned param = .ok paramPlan →
      R param paramPlan)
    {planned plans : List ParamPlan} {before params : List ParamDecl}
    (hplanned : List.Forall₂ R before planned)
    (h : decl.planParams session planned params = .ok plans) :
    List.Forall₂ R (before ++ params) plans := by
  induction params generalizing planned before with
  | nil =>
    cases h
    simpa using hplanned
  | cons param rest ih =>
    obtain ⟨paramPlan, hparam, hrest⟩ := planParams_cons_eq_ok_iff.mp h
    have hnext := List.rel_append hplanned (.cons (hR _ _ _ hparam) .nil)
    simpa using ih hnext hrest

theorem planReturn_eq_ok {ret : ReturnPlan} (h : decl.planReturn session = .ok ret) :
    (decl.returnType.isVoid || decl.isAssign) = true ∧ ret = .void ∨
    (decl.returnType.isVoid || decl.isAssign) = false ∧ ∃ host,
      decl.returnType.stripReference.host? session.hostName? = some host ∧
      ret = if returnsByValue session decl.returnType.stripReference
        then .byValue decl.returnType.stripReference host
        else .outParam decl.returnType.stripReference host := by
  simp only [planReturn] at h
  split at h
  · rename_i hvoid
    exact .inl ⟨hvoid, (Except.ok.inj h).symm⟩
  · rename_i hvalue
    split at h
    · cases h
    · rename_i host hhost
      exact .inr ⟨by simpa using hvalue, host, hhost, (Except.ok.inj h).symm⟩

theorem checkOperator_eq_ok_iff {operator : Operator} {params : List ParamPlan} {ret : ReturnPlan} :
    decl.checkOperator session operator params ret = .ok () ↔
      (∀ param ∈ params, param.value.containsPointer = false) ∧
      params.any (isProxyOperand session) = true ∧
      (operator = .equal → ret.value?.any isComparison = true) := by
  cases hpointer : params.find? (·.value.containsPointer) with
  | some param =>
    have hmem := List.mem_of_find?_eq_some hpointer
    have hholds : param.value.containsPointer = true := by simpa using List.find?_some hpointer
    simp only [checkOperator, hpointer, reduceCtorEq, false_iff]
    intro hparts
    obtain ⟨hnone, -⟩ := hparts
    simp [hnone param hmem] at hholds
  | none =>
    have hnone : ∀ param ∈ params, param.value.containsPointer = false := by
      simpa using List.find?_eq_none.mp hpointer
    rw [and_iff_right hnone]
    cases hany : params.any (isProxyOperand session) <;>
      by_cases hequal : operator = .equal <;>
      cases hcomparison : ret.value?.any isComparison <;>
      simp [checkOperator, hpointer, hany, hequal, hcomparison]

/-- A plan depends on the session only through its configuration and its proxies. -/
theorem plan_congr {s t : Session} (hconfig : s.config = t.config)
    (hproxies : ∀ name, s.proxy? name = t.proxy? name) (decl : FunctionDecl) (overloaded : Bool) :
    decl.plan s overloaded = decl.plan t overloaded := by
  have hproxy : s.proxy? = t.proxy? := funext hproxies
  have hname : s.hostName? = t.hostName? := by
    funext name
    rw [Session.hostName?, Session.hostName?, hproxy]
  have hparams (planned : List ParamPlan) (params : List ParamDecl) :
      decl.planParams s planned params = decl.planParams t planned params := by
    induction params generalizing planned with
    | nil => rfl
    | cons param rest ih => simp only [planParams, planParam, hname, ih]
  have hdirect : directSize? s = directSize? t := by
    funext type
    cases type <;> simp only [directSize?, hconfig, hproxy]
  have hret : decl.planReturn s = decl.planReturn t := by
    simp only [planReturn, returnsByValue, hname, hdirect, hconfig]
    rfl
  have hoperand : isProxyOperand s = isProxyOperand t := by
    funext param
    simp only [isProxyOperand, hproxy]
  have hcheck (operator : Operator) (params : List ParamPlan) (ret : ReturnPlan) :
      decl.checkOperator s operator params ret = decl.checkOperator t operator params ret := by
    simp only [checkOperator, hoperand]
  simp only [plan, hparams, hret, hcheck, hconfig]

/-! ### Identifiers -/

theorem declaredIdent?_getD (declared : Option String) :
    declaredIdent? declared = declaredIdent? (some (declared.getD "")) := by
  cases declared with
  | none => decide
  | some name => rfl

theorem paramIdent_getD (declared : Option String) (position : Nat) (taken : List String) :
    paramIdent declared position taken = paramIdent (some (declared.getD "")) position taken := by
  rw [paramIdent, paramIdent, declaredIdent?_getD]

theorem within_declaredIdent? {declared : Option String} {ident : String}
    (h : declaredIdent? declared = some ident) : Within isWordChar ident := by
  simp only [declaredIdent?, Option.bind_eq_bind, Option.bind_eq_some_iff] at h
  obtain ⟨name, -, ⟨⟩, hname, ⟨⟩, hraw, heq⟩ := h
  cases heq
  have hwords : Within isWordChar name := by
    have hcheck := (Option.guard_eq_some' _).mp hname
    simp only [isIdentifier, Bool.and_eq_true, List.all_eq_true] at hcheck
    exact hcheck.1.2
  replace hraw := (Option.guard_eq_some' _).mp hraw
  rw [Bool.not_eq_true', ← Bool.not_eq_true, List.isPrefixOf_iff_prefix] at hraw
  revert hraw
  rw [escapeKeyword]
  split
  · exact fun _ => hwords.append (within_of_all (by decide))
  · split
    · intro hraw
      exact absurd ⟨name.toList, (String.toList_append).symm⟩ hraw
    · exact fun _ => hwords

theorem exists_freshIdent_eq (taken : List String) (stem : String) :
    ∃ count, freshIdent taken stem = stem ++ String.ofList (List.replicate count '_') := by
  rw [freshIdent]
  cases hfound : ((List.range (taken.length + 1)).map fun count =>
      stem ++ String.ofList (List.replicate count '_')).find? (!taken.contains ·) with
  | none => exact ⟨0, by simp⟩
  | some found =>
    obtain ⟨count, -, rfl⟩ := List.mem_map.mp (List.mem_of_find?_eq_some hfound)
    exact ⟨count, rfl⟩

theorem within_underscores (count : Nat) :
    Within isWordChar (String.ofList (List.replicate count '_')) := by
  intro c hc
  rw [String.toList_ofList] at hc
  rw [List.eq_of_mem_replicate hc]
  decide

theorem within_freshIdent (taken : List String) {stem : String} (hstem : Within isWordChar stem) :
    Within isWordChar (freshIdent taken stem) := by
  obtain ⟨count, heq⟩ := exists_freshIdent_eq taken stem
  exact heq ▸ hstem.append (within_underscores count)

theorem within_paramIdent (declared : Option String) (position : Nat) (taken : List String) :
    Within isWordChar (paramIdent declared position taken) := by
  have hnumbered : Within isWordChar ("arg" ++ toString position) :=
    Within.append (within_of_all (by decide))
      ((within_toString position).mono fun c hc => by simp [isWordChar, Char.isAlphanum, hc])
  rw [paramIdent]
  split
  · rename_i ident hident
    split
    · exact within_freshIdent taken hnumbered
    · exact within_declaredIdent? hident
  · exact within_freshIdent taken hnumbered

/-- A name that a parameter is declared with keeps clear of what the generated code needs for itself. -/
theorem declaredIdent?_sound {declared : Option String} {ident : String}
    (h : declaredIdent? declared = some ident) :
    startsIdentifier ident.toList = true ∧ ident ∉ reservedIdents := by
  simp only [declaredIdent?, Option.bind_eq_bind, Option.bind_eq_some_iff] at h
  obtain ⟨name, -, ⟨⟩, hname, ⟨⟩, hraw, heq⟩ := h
  cases heq
  have hcheck := (Option.guard_eq_some' _).mp hname
  simp only [isIdentifier, Bool.and_eq_true, Bool.not_eq_true', List.contains_eq_mem,
    decide_eq_false_iff_not] at hcheck
  have hpaths : ∀ path ∈ pathKeywords, path ++ "_" ∉ reservedIdents := by decide
  replace hraw := (Option.guard_eq_some' _).mp hraw
  rw [Bool.not_eq_true', ← Bool.not_eq_true, List.isPrefixOf_iff_prefix] at hraw
  revert hraw
  rw [escapeKeyword]
  split
  · rename_i hpath
    intro _
    rw [String.toList_append]
    exact ⟨startsIdentifier_append hcheck.1.1 _, hpaths name (by simpa using hpath)⟩
  · split
    · exact fun hraw => absurd ⟨name.toList, String.toList_append.symm⟩ hraw
    · exact fun _ => ⟨hcheck.1.1, hcheck.2⟩

theorem freshIdent_sound (position : Nat) (taken : List String) :
    startsIdentifier (freshIdent taken ("arg" ++ toString position)).toList = true ∧
      freshIdent taken ("arg" ++ toString position) ∉ reservedIdents := by
  obtain ⟨count, heq⟩ := exists_freshIdent_eq taken ("arg" ++ toString position)
  have hfirst : (freshIdent taken ("arg" ++ toString position)).toList.head? = some 'a' := by
    rw [heq]
    simp
  have hreserved : ∀ ident ∈ reservedIdents, ident.toList.head? ≠ some 'a' := by decide
  refine ⟨?_, fun hmem => hreserved _ hmem hfirst⟩
  rw [heq]
  simp only [String.toList_append]
  rfl

/-- The identifier of a parameter is one on both sides, and is none that they use for themselves. -/
theorem paramIdent_sound (declared : Option String) (position : Nat) (taken : List String) :
    isIdentifier (paramIdent declared position taken).toList = true ∧
      paramIdent declared position taken ∉ reservedIdents := by
  have hsound : startsIdentifier (paramIdent declared position taken).toList = true ∧
      paramIdent declared position taken ∉ reservedIdents := by
    rw [paramIdent]
    split
    · rename_i ident hident
      split
      · exact freshIdent_sound position taken
      · exact declaredIdent?_sound hident
    · exact freshIdent_sound position taken
  refine ⟨?_, hsound.2⟩
  rw [isIdentifier, hsound.1, Bool.true_and, List.all_eq_true]
  exact within_paramIdent declared position taken

end HostBinding.FunctionDecl
