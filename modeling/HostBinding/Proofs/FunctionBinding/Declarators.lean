import HostBinding.Proofs.FunctionBinding.Boundary
import HostBinding.Proofs.FunctionBinding.Simple

/-!
# Bounds in the declarations of a shim

A native declaration writes the bounds of an array behind the name that it declares, a spelling writes them behind
the type. A shim writes a spelling and then a name, which declares what is meant as long as the spelling holds no
bounds. Bounds are dropped in one place only: an array that is a parameter decays to a pointer to its element.
-/

namespace HostBinding

open Text

namespace CType

/-- Whether the type is an array or is made from one in any way. -/
def holdsArray (t : CType) : Bool :=
  t.layers.any (·.isArray)

/-- The type without the bound that a parameter of the type loses. -/
def decayed : CType → CType
  | .array element _ => element
  | t => t

variable {t : CType}

theorem holdsArray_stripReference (t : CType) : t.stripReference.holdsArray = t.holdsArray := by
  cases t <;> rfl

theorem leaf_stripReference (t : CType) : t.stripReference.leaf = t.leaf := by
  cases t <;> rfl

theorem leaf_of_passed? {value : CType} {mode : PassMode} (h : t.passed? = some (value, mode)) :
    value.leaf = t.leaf := by
  cases t with
  | void => cases h
  | reference target isConst => cases isConst <;> cases h <;> rfl
  | _ => cases h; rfl

/-- A value holds an array exactly when its declared type does behind the bound that decays. -/
theorem holdsArray_of_passed? {value : CType} {mode : PassMode} (h : t.passed? = some (value, mode)) :
    value.holdsArray = t.decayed.holdsArray := by
  cases t with
  | void => cases h
  | reference target isConst => cases isConst <;> cases h <;> rfl
  | _ => cases h; rfl

theorem bracket_mem_spell_iff (hleaf : t.leaf.WellFormedLeaf) :
    '[' ∈ t.spell.toList ↔ t.holdsArray = true := by
  constructor
  · intro hmem
    by_contra hnone
    rw [Bool.not_eq_true, holdsArray, List.any_eq_false] at hnone
    exact bracket_not_mem hleaf (fun u hu => by simpa using hnone u hu) hmem
  · intro hholds
    induction t with
    | pointer target isConst ih =>
      rw [spell_pointer, List.mem_append, mem_qualified (by decide) (by decide)]
      exact .inl (ih hleaf hholds)
    | reference target isConst ih =>
      rw [spell_reference, List.mem_append, mem_qualified (by decide) (by decide)]
      exact .inl (ih hleaf hholds)
    | array element length ih =>
      rw [spell_toList, lengths, boundChars_cons]
      simp
    | _ => cases hholds

end CType

namespace FunctionPlan

/-- The types of the values that cross the boundary. -/
def values (plan : FunctionPlan) : List CType :=
  plan.ret.value?.toList ++ plan.params.map (·.value)

/-- Nothing that the shim declares has a bound in front of its name. -/
structure BoundFree (plan : FunctionPlan) : Prop where
  params : ∀ crossing ∈ plan.crossings, '[' ∉ crossing.native.toList
  result : '[' ∉ plan.shimResult.toList

variable {plan : FunctionPlan}

theorem bracket_mem_shimType_iff (param : ParamPlan) :
    '[' ∈ (shimType param).toList ↔ '[' ∈ param.value.spell.toList := by
  cases hmode : param.mode <;> simp [shimType, hmode]

/-- A shim declares every value that crosses, one as its result or for it, the others as parameters. -/
theorem boundFree_iff :
    plan.BoundFree ↔ ∀ value ∈ plan.values, '[' ∉ value.spell.toList := by
  have hparams : (∀ c ∈ plan.params.map crossing, '[' ∉ c.native.toList) ↔
      ∀ value ∈ plan.params.map (·.value), '[' ∉ value.spell.toList := by
    simp only [List.forall_mem_map, crossing, bracket_mem_shimType_iff]
  have hparts : plan.BoundFree ↔ (∀ c ∈ plan.crossings, '[' ∉ c.native.toList) ∧ '[' ∉ plan.shimResult.toList :=
    ⟨fun h => ⟨h.params, h.result⟩, fun h => ⟨h.1, h.2⟩⟩
  rw [hparts, values, List.forall_mem_append, ← hparams]
  cases hret : plan.ret with
  | void => simp [crossings, shimResult, hret, ReturnPlan.value?, ReturnPlan.types?]
  | outParam value host =>
    simp [crossings, shimResult, hret, ReturnPlan.value?, ReturnPlan.types?, resultCrossing]
  | byValue value host =>
    simp [crossings, shimResult, hret, ReturnPlan.value?, ReturnPlan.types?, and_comm]

end FunctionPlan

namespace FunctionDecl

open FunctionPlan

variable {decl : FunctionDecl} {session : Session} {overloaded : Bool} {plan : FunctionPlan}

/-- The declared types hold no arrays but parameters that decay. The result of an assignment is dropped. -/
structure ArrayFree (decl : FunctionDecl) : Prop where
  params : ∀ param ∈ decl.params, param.type.decayed.holdsArray = false
  result : decl.isAssign = false → decl.returnType.holdsArray = false

theorem value?_of_planReturn {ret : ReturnPlan} (h : decl.planReturn session = .ok ret) :
    ret.value? = if decl.returnType.isVoid || decl.isAssign then none else some decl.returnType.stripReference := by
  obtain ⟨hdropped, rfl⟩ | ⟨hkept, host, -, rfl⟩ := planReturn_eq_ok h
  · rw [if_pos hdropped]
    rfl
  · rw [if_neg (Bool.eq_false_iff.mp hkept)]
    split <;> rfl

theorem passed?_of_plan (hplan : decl.plan session overloaded = .ok plan) :
    List.Forall₂ (fun (param : ParamDecl) (paramPlan : ParamPlan) =>
      ∃ mode, param.type.passed? = some (paramPlan.value, mode)) decl.params plan.params := by
  obtain ⟨-, hparams, -⟩ := plan_eq_ok_iff.mp hplan
  refine forall₂_of_planParams (fun planned param paramPlan hparam => ?_) .nil hparams
  obtain ⟨value, mode, host, hpassed, -, rfl⟩ := planParam_eq_ok_iff.mp hparam
  exact ⟨mode, hpassed⟩

theorem exists_leaf_eq_of_mem_values (hplan : decl.plan session overloaded = .ok plan) {value : CType}
    (hmem : value ∈ plan.values) : ∃ type ∈ decl.types, value.leaf = type.leaf := by
  obtain ⟨-, -, hret, -⟩ := plan_eq_ok_iff.mp hplan
  rw [values, value?_of_planReturn hret, List.mem_append] at hmem
  rcases hmem with hresult | hparam
  · split at hresult
    · cases hresult
    · rw [Option.toList_some, List.mem_singleton] at hresult
      exact ⟨decl.returnType, List.mem_cons_self, hresult ▸ CType.leaf_stripReference _⟩
  · have hleaves : decl.params.map (·.type.leaf) = plan.params.map (·.value.leaf) :=
      map_eq_map_of_forall₂ (passed?_of_plan hplan) fun param paramPlan hpassed =>
        hpassed.elim fun mode hmode => (CType.leaf_of_passed? hmode).symm
    obtain ⟨paramPlan, hplanned, rfl⟩ := List.mem_map.mp hparam
    have hleaf := List.mem_map_of_mem (f := (·.value.leaf)) hplanned
    rw [← hleaves] at hleaf
    obtain ⟨param, hdeclared, heq⟩ := List.mem_map.mp hleaf
    exact ⟨param.type, List.mem_cons_of_mem _ (List.mem_map_of_mem hdeclared), heq.symm⟩

/-- The values of a plan hold no arrays exactly when the declared types hold none that do not decay. -/
theorem values_iff_arrayFree (hplan : decl.plan session overloaded = .ok plan) :
    (∀ value ∈ plan.values, value.holdsArray = false) ↔ decl.ArrayFree := by
  obtain ⟨-, -, hret, -⟩ := plan_eq_ok_iff.mp hplan
  have hparams : (∀ value ∈ plan.params.map (·.value), value.holdsArray = false) ↔
      ∀ param ∈ decl.params, param.type.decayed.holdsArray = false := by
    have hmap : decl.params.map (·.type.decayed.holdsArray) = plan.params.map (·.value.holdsArray) :=
      map_eq_map_of_forall₂ (passed?_of_plan hplan) fun param paramPlan hpassed =>
        hpassed.elim fun mode hmode => (CType.holdsArray_of_passed? hmode).symm
    have hall : (∀ held ∈ decl.params.map (·.type.decayed.holdsArray), held = false) ↔
        ∀ held ∈ plan.params.map (·.value.holdsArray), held = false := by
      rw [hmap]
    simpa only [List.forall_mem_map] using hall.symm
  have hresult : (∀ value ∈ plan.ret.value?.toList, value.holdsArray = false) ↔
      (decl.isAssign = false → decl.returnType.holdsArray = false) := by
    rw [value?_of_planReturn hret]
    cases hvoid : decl.returnType.isVoid <;> cases hassign : decl.isAssign
    case false.false => simp [CType.holdsArray_stripReference]
    case true.false =>
      have heq : decl.returnType = .void := by
        cases hreturn : decl.returnType <;> simp_all [CType.isVoid]
      simp [heq, CType.holdsArray, CType.layers, CType.inside, CType.isArray]
    all_goals simp
  rw [values, List.forall_mem_append, hresult, hparams]
  exact ⟨fun h => ⟨h.2, h.1⟩, fun h => ⟨h.result, h.params⟩⟩

/-- **The shim of a function writes a bound in front of a name exactly when a value that it passes or returns holds
an array, which is when the function declares one that does not decay.** -/
theorem boundFree_iff_of_plan (hplan : decl.plan session overloaded = .ok plan)
    (hleaves : ∀ type ∈ decl.types, type.leaf.WellFormedLeaf) :
    (∀ qualifiers, Shows (plan.shimText qualifiers) (plan.shimResult ++ " " ++ plan.shimName ++ "(" ++
      (if plan.crossings.isEmpty then "void" else ", ".intercalate (plan.crossings.map (·.nativeParam))) ++
      ")")) ∧
    (plan.BoundFree ↔ ∀ value ∈ plan.values, value.holdsArray = false) ∧
    ((∀ value ∈ plan.values, value.holdsArray = false) ↔ decl.ArrayFree) := by
  refine ⟨fun qualifiers => ?_, ?_, values_iff_arrayFree hplan⟩
  · simpa only [shimParams_eq, List.isEmpty_map] using shows_shimText plan qualifiers
  · refine boundFree_iff.trans (forall₂_congr fun value hmem => ?_)
    obtain ⟨type, hdeclared, hleaf⟩ := exists_leaf_eq_of_mem_values hplan hmem
    rw [CType.bracket_mem_spell_iff (hleaf ▸ hleaves type hdeclared), Bool.not_eq_true]

namespace Sample

def float : CType :=
  .ofPrimitive (.floating .f32)

def scale : FunctionDecl where
  name := "scale"
  returnType := .pointer float false
  params := [⟨some "v", .array float 4⟩, ⟨some "by", .reference float true⟩]

def cells : CType :=
  .reference (.array (.primitive (.integral .i32) "int") 3) false

def reset : FunctionDecl where
  name := "reset"
  returnType := .void
  params := [⟨some "p", cells⟩]

def scalePlan : FunctionPlan :=
  (scale.plan {} false).toOption.getD default

def resetPlan : FunctionPlan :=
  (reset.plan {} false).toOption.getD default

end Sample

theorem boundFree_iff_of_plan_scale :
    Sample.scale.plan {} false = .ok Sample.scalePlan ∧
    (∀ type ∈ Sample.scale.types, type.leaf.WellFormedLeaf) ∧
    Sample.scale.ArrayFree ∧ Sample.scalePlan.BoundFree := by
  have hplan : Sample.scale.plan {} false = .ok Sample.scalePlan := by decide +kernel
  have hleaves : ∀ type ∈ Sample.scale.types, type.leaf.WellFormedLeaf := by decide +kernel
  have hfree : Sample.scale.ArrayFree := ⟨by decide, by decide⟩
  obtain ⟨-, hbounds, hvalues⟩ := boundFree_iff_of_plan hplan hleaves
  exact ⟨hplan, hleaves, hfree, hbounds.mpr (hvalues.mpr hfree)⟩

/-- A reference to an array is accepted, and its bound stands in front of the name. -/
theorem not_boundFree_reset :
    CType.ofSpelling "int[3] &" = .ok Sample.cells ∧
    Sample.reset.plan {} false = .ok Sample.resetPlan ∧
    ¬ (∀ value ∈ Sample.resetPlan.values, value.holdsArray = false) ∧
    ¬ Sample.resetPlan.BoundFree ∧
    Sample.resetPlan.shimText "" = unlines
      ["extern \"C\" void __bind_shim_reset_ref_arr3_i32(int[3] *p) \x7b",
        "    reset(*p);",
        "\x7d"] := by
  have hread : CType.ofSpelling "int[3] &" = .ok Sample.cells := by decide +kernel
  have hholds : ¬ ∀ c ∈ Sample.resetPlan.crossings, '[' ∉ c.native.toList := by decide +kernel
  exact ⟨hread, by decide +kernel, by decide +kernel, fun hfree => hholds hfree.params, by decide +kernel⟩

end FunctionDecl

end HostBinding
