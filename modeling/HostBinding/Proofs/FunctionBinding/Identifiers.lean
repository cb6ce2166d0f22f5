import Mathlib.Data.List.Perm.Subperm
import HostBinding.Proofs.FunctionBinding.Registration

/-!
# The names in a generated function

The names that parameters are declared with are free text and may repeat. Planning goes from the left and looks at
the names given before, so that the names of one function differ is an invariant of the parameters planned so far. A
numbered name is lengthened until it is free. One more lengthening is tried than names are taken, and no two of
them are equal.
-/

namespace HostBinding.FunctionDecl

open Text

variable {decl : FunctionDecl} {session : Session} {overloaded : Bool} {plan : FunctionPlan}

/-! ### Free names -/

theorem lengthening_injective (stem : String) :
    Function.Injective fun count => stem ++ String.ofList (List.replicate count '_') := by
  intro count count' h
  have hlists := String.ofList_injective ((String.append_right_inj stem).mp h)
  simpa using congrArg List.length hlists

/-- More lengthenings are tried than names are taken. -/
theorem exists_free_lengthening (taken : List String) (stem : String) :
    ∃ name ∈ (List.range (taken.length + 1)).map fun count => stem ++ String.ofList (List.replicate count '_'),
      name ∉ taken := by
  by_contra! htaken
  have hdistinct := List.nodup_range (n := taken.length + 1) |>.map (lengthening_injective stem)
  have hlength := (hdistinct.subperm htaken).length_le
  rw [List.length_map, List.length_range] at hlength
  omega

theorem freshIdent_notMem (taken : List String) (stem : String) : freshIdent taken stem ∉ taken := by
  rw [freshIdent]
  cases hfound : ((List.range (taken.length + 1)).map fun count =>
      stem ++ String.ofList (List.replicate count '_')).find? (!taken.contains ·) with
  | none =>
    obtain ⟨name, hmem, hfree⟩ := exists_free_lengthening taken stem
    exact absurd (by simpa using List.find?_eq_none.mp hfound name hmem) hfree
  | some found => simpa using List.find?_some hfound

theorem paramIdent_notMem (declared : Option String) (position : Nat) (taken : List String) :
    paramIdent declared position taken ∉ taken := by
  rw [paramIdent]
  split
  · split
    · exact freshIdent_notMem taken _
    · rename_i hfree
      simpa using hfree
  · exact freshIdent_notMem taken _

/-- Parameters that have been given different names keep them while further ones are planned. -/
theorem nodup_idents_of_planParams {planned plans : List ParamPlan} {params : List ParamDecl}
    (hplanned : (planned.map (·.ident)).Nodup) (h : decl.planParams session planned params = .ok plans) :
    (plans.map (·.ident)).Nodup := by
  induction params generalizing planned with
  | nil =>
    cases h
    exact hplanned
  | cons param rest ih =>
    obtain ⟨paramPlan, hparam, hrest⟩ := planParams_cons_eq_ok_iff.mp h
    obtain ⟨value, mode, host, -, -, rfl⟩ := planParam_eq_ok_iff.mp hparam
    refine ih ?_ hrest
    rw [List.map_append, List.map_singleton]
    refine List.nodup_append'.mpr ⟨hplanned, List.nodup_singleton _, ?_⟩
    exact List.disjoint_singleton.mpr (paramIdent_notMem param.name planned.length _)

/-! ### Names of parameters -/

theorem isPlainName_of_declaredIdent? {declared : Option String} {ident : String}
    (h : declaredIdent? declared = some ident) : IsPlainName ident := by
  simp only [declaredIdent?, Option.bind_eq_bind, Option.bind_eq_some_iff] at h
  obtain ⟨name, -, ⟨⟩, hname, ⟨⟩, hraw, heq⟩ := h
  cases heq
  have hcheck := (Option.guard_eq_some' _).mp hname
  rw [Bool.and_eq_true] at hcheck
  replace hraw := (Option.guard_eq_some' _).mp hraw
  rw [Bool.not_eq_true', ← Bool.not_eq_true, List.isPrefixOf_iff_prefix] at hraw
  refine (isHostName_escapeKeyword hcheck.1).resolve_right ?_
  rintro ⟨raw, heq, -⟩
  exact hraw ⟨raw.toList, by rw [heq, String.toList_append]⟩

theorem isPlainName_freshIdent (position : Nat) (taken : List String) :
    IsPlainName (freshIdent taken ("arg" ++ toString position)) := by
  have hunlike : ∀ word ∈ "_" :: reservedWords, ¬ "arg".toList <+: word.toList := by decide
  obtain ⟨count, heq⟩ := exists_freshIdent_eq taken ("arg" ++ toString position)
  have harg : "arg".toList <+: (freshIdent taken ("arg" ++ toString position)).toList := by
    rw [heq, String.append_assoc, String.toList_append]
    exact List.prefix_append _ _
  have hnot : freshIdent taken ("arg" ++ toString position) ∉ "_" :: reservedWords :=
    fun hmem => hunlike _ hmem harg
  rw [List.mem_cons, not_or] at hnot
  refine ⟨?_, hnot.2, hnot.1⟩
  rw [heq, String.append_assoc]
  refine isIdentifier_append (by decide) (Within.append ?_ (within_underscores count))
  exact (within_toString position).mono fun c hc => by simp [isWordChar, Char.isAlphanum, hc]

theorem isPlainName_paramIdent (declared : Option String) (position : Nat) (taken : List String) :
    IsPlainName (paramIdent declared position taken) := by
  rw [paramIdent]
  split
  · rename_i ident hident
    split
    · exact isPlainName_freshIdent position taken
    · exact isPlainName_of_declaredIdent? hident
  · exact isPlainName_freshIdent position taken

/-! ### The name of the function -/

theorem isIdentifier_stem (decl : FunctionDecl) : isIdentifier decl.stem.toList = true := by
  cases hoperator : decl.operator with
  | none =>
    simp only [stem, hoperator]
    exact isIdentifier_sanitize decl.name
  | some operator =>
    refine isIdentifier_iff.mpr ⟨?_, decl.within_stem⟩
    simp [stem, hoperator, startsIdentifier]

/-- A reserved word has no underscore, and a mangled name has one behind its stem. -/
theorem isPlainName_mangledName (decl : FunctionDecl) : IsPlainName decl.mangledName := by
  have hreserved : ∀ word ∈ reservedWords, '_' ∉ word.toList := by decide
  have hstem := decl.isIdentifier_stem
  have hidentifier : isIdentifier decl.mangledName.toList = true :=
    isIdentifier_append (isIdentifier_append hstem (within_of_all (by decide))) (CType.within_mangleAll _)
  refine ⟨hidentifier, fun hmem => hreserved _ hmem (by simp [mangledName]), fun heq => ?_⟩
  have hlength := congrArg String.length heq
  have hnonempty : decl.stem.length ≠ 0 := fun hzero => by
    rw [String.length_eq_zero_iff.mp hzero] at hstem
    cases hstem
  have hone : "_".length = 1 := rfl
  rw [mangledName, String.length_append, String.length_append, hone] at hlength
  omega

theorem isHostName_proxyName (decl : FunctionDecl) (overloaded : Bool) :
    IsHostName (decl.proxyName overloaded) := by
  rw [proxyName]
  split
  · exact .inl decl.isPlainName_mangledName
  · exact isHostName_escapeKeyword decl.isIdentifier_stem

/-- **The parameters of a function have different names, each of which needs no mark and is none that the generated
code uses for itself, and the function has a name of the host language.** -/
theorem names_of_plan (hplan : decl.plan session overloaded = .ok plan) :
    (plan.params.map (·.ident)).Nodup ∧
    (∀ param ∈ plan.params, IsPlainName param.ident ∧ ¬ IsRawName param.ident ∧
      param.ident ≠ "retval" ∧ param.ident ≠ "__retval") ∧
    IsHostName plan.proxyName := by
  obtain ⟨-, hparams, -, -, -, -, -, hproxyName⟩ := plan_eq_ok_iff.mp hplan
  have hnone : (([] : List ParamPlan).map (·.ident)).Nodup := List.nodup_nil
  refine ⟨nodup_idents_of_planParams hnone hparams, ?_, hproxyName ▸ isHostName_proxyName decl overloaded⟩
  have hnames := forall₂_of_planParams (R := fun _ paramPlan => IsPlainName paramPlan.ident ∧
      paramPlan.ident ∉ reservedIdents)
    (fun planned param paramPlan hparam => by
      obtain ⟨value, mode, host, -, -, rfl⟩ := planParam_eq_ok_iff.mp hparam
      exact ⟨isPlainName_paramIdent _ _ _, (paramIdent_sound _ _ _).2⟩) .nil hparams
  refine forall_mem_of_forall₂ hnames fun param paramPlan hparam => ?_
  obtain ⟨hplain, hunused⟩ := hparam
  exact ⟨hplain, hplain.not_isRawName, by simpa [reservedIdents] using hunused⟩

namespace Sample

def unruly : FunctionDecl where
  name := "type"
  returnType := .void
  params := [none, some "", some "self", some "self_", some "type", some "arg6", some "größe", some "retval",
    some "_"].map fun name => ⟨name, .ofPrimitive (.integral .i32)⟩

def unrulyPlan : FunctionPlan :=
  (unruly.plan {} false).toOption.getD default

end Sample

theorem names_of_plan_unruly :
    Sample.unruly.plan {} false = .ok Sample.unrulyPlan ∧
    Sample.unrulyPlan.params.map (·.ident) =
      ["arg0", "arg1", "self_", "arg3", "arg4", "arg6", "arg6_", "arg7", "__"] ∧
    Sample.unrulyPlan.proxyName = "r#type" ∧
    (Sample.unrulyPlan.params.map (·.ident)).Nodup ∧
    (∀ param ∈ Sample.unrulyPlan.params, IsPlainName param.ident ∧ ¬ IsRawName param.ident ∧
      param.ident ≠ "retval" ∧ param.ident ≠ "__retval") ∧
    IsHostName Sample.unrulyPlan.proxyName := by
  have hplan : Sample.unruly.plan {} false = .ok Sample.unrulyPlan := by decide +kernel
  exact ⟨hplan, by decide +kernel, by decide +kernel, names_of_plan hplan⟩

end HostBinding.FunctionDecl
