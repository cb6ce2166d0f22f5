import HostBinding.Proofs.FunctionBinding.Boundary
import HostBinding.Proofs.FunctionBinding.Identifiers

/-!
# Shims that cannot call their function

A shim calls the native function by its name, inside a body where the parameters of the shim are in scope. What a
parameter is called is checked against the parameters before it and against the words that the generated code
uses, and not against the function. So the call means a parameter as soon as one has the name of the function, and
that happens in three ways: the name is that of the output parameter, it is declared, or it is made from a position.
-/

namespace HostBinding

open Text

namespace FunctionPlan

/-- A parameter of the shim hides the function that the body calls. -/
def Shadowed (plan : FunctionPlan) : Prop :=
  plan.nativeName ∈ plan.crossings.map (·.ident)
deriving Decidable

theorem nativeCall_of_plain {plan : FunctionPlan} (hplain : plan.operator = none) :
    ∃ arguments, plan.nativeCall = plan.nativeName ++ "(" ++ arguments ++ ")" := by
  simp only [nativeCall, hplain]
  exact ⟨_, rfl⟩

theorem shadowed_iff (plan : FunctionPlan) :
    plan.Shadowed ↔ (plan.nativeName = "retval" ∧ ∃ value host, plan.ret = .outParam value host) ∨
      plan.nativeName ∈ plan.params.map (·.ident) := by
  have hplanned : (plan.params.map crossing).map (·.ident) = plan.params.map (·.ident) := by
    rw [List.map_map]
    rfl
  rw [Shadowed, crossings, List.map_append, List.mem_append, hplanned]
  cases plan.ret <;> simp [resultCrossing]

end FunctionPlan

namespace FunctionDecl

variable {decl : FunctionDecl} {session : Session} {overloaded : Bool} {plan : FunctionPlan}
  {params before : List ParamDecl} {param : ParamDecl} {name : String}

/-! ### Numbered names -/

/-- The name that is made from a position, lengthened. -/
def numbered (position count : Nat) : String :=
  "arg" ++ toString position ++ String.ofList (List.replicate count '_')

theorem numbered_inj {position position' count count' : Nat}
    (h : numbered position count = numbered position' count') : position = position' ∧ count = count' := by
  -- One more underscore ends the digits where there is none.
  have houtside (n : Nat) : StartsOutside Char.isDigit (String.ofList (List.replicate n '_') ++ "_") :=
    ⟨'_', List.replicate n '_', by simp [← List.replicate_succ', List.replicate_succ], by decide⟩
  have hlonger := congrArg (· ++ "_") h
  simp only [numbered, String.append_assoc, String.append_right_inj] at hlonger
  obtain ⟨rfl, -⟩ := cut_toString (houtside count) (houtside count') hlonger
  exact ⟨rfl, lengthening_injective ("arg" ++ toString position) h⟩

/-- Lengthening stops at the first name that is free. -/
theorem freshIdent_least (taken : List String) (position : Nat) :
    ∃ count, freshIdent taken ("arg" ++ toString position) = numbered position count ∧
      ∀ fewer < count, numbered position fewer ∈ taken := by
  rw [freshIdent, List.find?_map]
  cases hfound : (List.range (taken.length + 1)).find? ((!taken.contains ·) ∘ fun count =>
      "arg" ++ toString position ++ String.ofList (List.replicate count '_')) with
  | none => exact ⟨0, by simp [numbered], by simp⟩
  | some count =>
    obtain ⟨-, -, hbefore⟩ := List.find?_range_eq_some.mp hfound
    exact ⟨count, rfl, fun fewer hfewer => by simpa [numbered] using hbefore fewer hfewer⟩

/-! ### The names that are given -/

/-- The names of parameters, given from the left. -/
def givenNames (params : List ParamDecl) : List String :=
  params.foldl (fun taken param => taken ++ [paramIdent param.name taken.length taken]) []

theorem length_givenNames (params : List ParamDecl) : (givenNames params).length = params.length := by
  induction params using List.reverseRecOn with
  | nil => rfl
  | append_singleton before param ih => simpa [givenNames] using ih

theorem givenNames_concat (before : List ParamDecl) (param : ParamDecl) :
    givenNames (before ++ [param]) =
      givenNames before ++ [paramIdent param.name before.length (givenNames before)] := by
  rw [← length_givenNames before, givenNames, List.foldl_append]
  rfl

theorem idents_of_planParams {planned plans : List ParamPlan}
    (hplanned : planned.map (·.ident) = givenNames before)
    (h : decl.planParams session planned params = .ok plans) :
    plans.map (·.ident) = givenNames (before ++ params) := by
  induction params generalizing planned before with
  | nil =>
    cases h
    simpa using hplanned
  | cons param rest ih =>
    obtain ⟨paramPlan, hparam, hrest⟩ := planParams_cons_eq_ok_iff.mp h
    obtain ⟨value, mode, host, -, -, rfl⟩ := planParam_eq_ok_iff.mp hparam
    have hlength : planned.length = before.length := by
      simpa [length_givenNames] using congrArg List.length hplanned
    rw [List.append_cons]
    refine ih ?_ hrest
    rw [List.map_append, List.map_singleton, hplanned, hlength, givenNames_concat]

/-- A parameter in the list declares the name. -/
def Declares (params : List ParamDecl) (name : String) : Prop :=
  ∃ param ∈ params, declaredIdent? param.name = some name

/-- Behind those before it a parameter has no declared name to keep. -/
def Nameless (before : List ParamDecl) (param : ParamDecl) : Prop :=
  ∀ ident, declaredIdent? param.name = some ident → ident ∈ givenNames before

/-- The name is made from the position of a nameless parameter, and lengthened past those that are declared before
it. -/
def Numbers (params : List ParamDecl) (name : String) : Prop :=
  ∃ before param after count, params = before ++ param :: after ∧ Nameless before param ∧
    name = numbered before.length count ∧ ∀ fewer < count, Declares before (numbered before.length fewer)

theorem paramIdent_of_nameless (h : Nameless before param) :
    paramIdent param.name before.length (givenNames before) =
      freshIdent (givenNames before) ("arg" ++ toString before.length) := by
  rw [paramIdent]
  split
  · rename_i ident hident
    rw [if_pos (by simpa using h ident hident)]
  · rfl

theorem paramIdent_of_not_nameless (h : ¬ Nameless before param) :
    declaredIdent? param.name = some (paramIdent param.name before.length (givenNames before)) := by
  simp only [Nameless, not_forall] at h
  obtain ⟨ident, hident, hfree⟩ := h
  rw [paramIdent, hident]
  simp [hfree]

theorem declares_concat :
    Declares (before ++ [param]) name ↔ Declares before name ∨ declaredIdent? param.name = some name := by
  simp [Declares, or_and_right, exists_or]

theorem numbers_concat :
    Numbers (before ++ [param]) name ↔ Numbers before name ∨ Nameless before param ∧ ∃ count,
      name = numbered before.length count ∧ ∀ fewer < count, Declares before (numbered before.length fewer) := by
  constructor
  · intro h
    obtain ⟨earlier, nameless, after, count, heq, hparts⟩ := h
    rcases List.eq_nil_or_concat after with rfl | ⟨others, last, rfl⟩
    · obtain ⟨rfl, hlast⟩ := List.append_inj' heq rfl
      cases hlast
      exact .inr ⟨hparts.1, count, hparts.2⟩
    · rw [List.concat_eq_append, ← List.cons_append, ← List.append_assoc] at heq
      obtain ⟨rfl, -⟩ := List.append_inj' heq rfl
      exact .inl ⟨earlier, nameless, others, count, rfl, hparts⟩
  · rintro (⟨earlier, nameless, after, count, rfl, hparts⟩ | ⟨hnameless, count, hparts⟩)
    · exact ⟨earlier, nameless, after ++ [param], count, by simp, hparts⟩
    · exact ⟨before, param, [], count, rfl, hnameless, hparts⟩

/-- No position is numbered twice, so a number that is taken in advance is declared. -/
theorem declares_of_taken (hgiven : ∀ name, name ∈ givenNames before ↔ Declares before name ∨ Numbers before name)
    {count : Nat} (h : numbered before.length count ∈ givenNames before) :
    Declares before (numbered before.length count) := by
  refine ((hgiven _).mp h).resolve_right fun hnumbers => ?_
  obtain ⟨earlier, param, after, count', heq, -, hname, -⟩ := hnumbers
  have hlength := congrArg List.length heq
  rw [List.length_append, List.length_cons, (numbered_inj hname).1] at hlength
  omega

/-- A number whose shorter forms are taken is taken too, or it is the one that a nameless parameter gets. -/
theorem taken_or_eq_freshIdent {taken : List String} {position count : Nat}
    (hfewer : ∀ fewer < count, numbered position fewer ∈ taken) :
    numbered position count ∈ taken ∨
      numbered position count = freshIdent taken ("arg" ++ toString position) := by
  obtain ⟨least, hfresh, htaken⟩ := freshIdent_least taken position
  have hfree := freshIdent_notMem taken ("arg" ++ toString position)
  rcases Nat.lt_trichotomy count least with hless | rfl | hmore
  · exact .inl (htaken count hless)
  · exact .inr hfresh.symm
  · exact absurd (hfresh ▸ hfewer least hmore) hfree

theorem mem_givenNames (params : List ParamDecl) :
    ∀ name, name ∈ givenNames params ↔ Declares params name ∨ Numbers params name := by
  induction params using List.reverseRecOn with
  | nil => simp [givenNames, Declares, Numbers]
  | append_singleton before param ih =>
    intro name
    rw [givenNames_concat, List.mem_append, List.mem_singleton, declares_concat, numbers_concat, ih]
    by_cases hnameless : Nameless before param
    · rw [paramIdent_of_nameless hnameless]
      constructor
      · rintro ((hdeclares | hnumbers) | rfl)
        · exact .inl (.inl hdeclares)
        · exact .inr (.inl hnumbers)
        · obtain ⟨count, hfresh, htaken⟩ := freshIdent_least (givenNames before) before.length
          exact .inr (.inr ⟨hnameless, count, hfresh,
            fun fewer hfewer => declares_of_taken ih (htaken fewer hfewer)⟩)
      · rintro ((hdeclares | hident) | hnumbers | ⟨-, count, rfl, hfewer⟩)
        · exact .inl (.inl hdeclares)
        · exact .inl ((ih name).mp (hnameless name hident))
        · exact .inl (.inr hnumbers)
        · exact (taken_or_eq_freshIdent fun fewer hless => (ih _).mpr (.inl (hfewer fewer hless))).imp_left (ih _).mp
    · rw [paramIdent_of_not_nameless hnameless, Option.some.injEq, eq_comm (a := name)]
      tauto

/-- **The shim of a plain function calls it by its name, and a parameter hides that name in just three ways**: the
function is called like the output parameter that it is given, a parameter is declared with the name, or a parameter
without a name of its own gets it for its position. -/
theorem shadowed_iff_of_plan (hplan : decl.plan session overloaded = .ok plan) (hplain : decl.operator = none) :
    (∃ arguments, plan.nativeCall = decl.name ++ "(" ++ arguments ++ ")") ∧
    plan.shimParams = plan.crossings.map (·.nativeParam) ∧
    (plan.Shadowed ↔
      (decl.name = "retval" ∧ ∃ value host, plan.ret = .outParam value host) ∨
      Declares decl.params decl.name ∨ Numbers decl.params decl.name) := by
  obtain ⟨-, hparams, -, -, hname, hoperator, -, -⟩ := plan_eq_ok_iff.mp hplan
  have hnone : ([] : List ParamPlan).map (·.ident) = givenNames [] := rfl
  have hidents : plan.params.map (·.ident) = givenNames decl.params := idents_of_planParams hnone hparams
  refine ⟨hname ▸ FunctionPlan.nativeCall_of_plain (hoperator.trans hplain), plan.shimParams_eq, ?_⟩
  rw [plan.shadowed_iff, hidents, mem_givenNames, hname]

namespace Sample

def second : FunctionDecl where
  name := "arg1_"
  returnType := .void
  params := [⟨some "arg1", .ofPrimitive (.integral .i32)⟩, ⟨none, .ofPrimitive (.integral .i32)⟩]

def secondPlan : FunctionPlan :=
  (second.plan {} false).toOption.getD default

def gain : FunctionDecl where
  name := "gain"
  returnType := .void
  params := [⟨some "gain", .ofPrimitive (.floating .f32)⟩]

def gainPlan : FunctionPlan :=
  (gain.plan {} false).toOption.getD default

end Sample

theorem shadowed_iff_of_plan_second :
    Sample.second.plan {} false = .ok Sample.secondPlan ∧ Sample.second.operator = none ∧
    Sample.secondPlan.shimParams = ["int32_t arg1", "int32_t arg1_"] ∧
    (∃ arguments, Sample.secondPlan.nativeCall = "arg1_(" ++ arguments ++ ")") ∧
    (Sample.secondPlan.Shadowed ↔
      ("arg1_" = "retval" ∧ ∃ value host, Sample.secondPlan.ret = .outParam value host) ∨
      Declares Sample.second.params "arg1_" ∨ Numbers Sample.second.params "arg1_") := by
  have hplan : Sample.second.plan {} false = .ok Sample.secondPlan := by decide +kernel
  have hplain : Sample.second.operator = none := by decide +kernel
  obtain ⟨hcall, -, hshadowed⟩ := shadowed_iff_of_plan hplan hplain
  exact ⟨hplan, hplain, by decide +kernel, hcall, hshadowed⟩

theorem shadowed_gain :
    Sample.gain.plan {} false = .ok Sample.gainPlan ∧ Sample.gain.operator = none ∧
    Sample.gainPlan.Shadowed ∧
    Sample.gainPlan.shimText "" =
      "extern \"C\" void __bind_shim_gain_f32(float gain) \x7b\n    gain(gain);\n\x7d\n" := by
  decide +kernel

end FunctionDecl

end HostBinding
