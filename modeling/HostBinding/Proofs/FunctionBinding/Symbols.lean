import HostBinding.FunctionBinding.Render
import HostBinding.Proofs.CType.Pieces
import HostBinding.Proofs.FunctionBinding.Plan

/-!
# Symbols of functions

The symbol of a function is made from its stem and the types of its operands. The types can be read back from
their part of it, when the names of their structs can be told apart. What cannot be seen is where that part
begins: a stem that goes on with the words for the first operands of another function may hide them. So two
functions share a symbol exactly when their stems and operands are the same, or when one stem hides operands
of the other function. Functions with one stem are never confused.
-/

namespace HostBinding.FunctionDecl

open Text

def operands (decl : FunctionDecl) : List CType :=
  decl.params.map (·.type)

def structNames (decl : FunctionDecl) : List String :=
  decl.operands.filterMap CType.structName?

/-- The operands of two functions are the same, up to the spelling of primitives. -/
def SameOperands (decl decl' : FunctionDecl) : Prop :=
  decl.operands.map CType.canonical = decl'.operands.map CType.canonical

/-- A stem goes on, after that of another function, with what the symbol of that function says about its first
operands. -/
def Hides (decl' decl : FunctionDecl) : Prop :=
  ∃ hidden, decl'.stem = decl.stem ++ "_" ++ hidden ∧
    CType.mangleAll decl.operands = hidden ++ "_" ++ CType.mangleAll decl'.operands

variable {decl decl' : FunctionDecl} {session : Session} {overloaded overloaded' : Bool}
  {plan plan' : FunctionPlan} {a b c d : String}

/-- Where two texts are cut at an underscore, they are cut at the same one or one of them at a later one. -/
theorem append_underscore_eq_iff : a ++ "_" ++ b = c ++ "_" ++ d ↔
    a = c ∧ b = d ∨ (∃ e, c = a ++ "_" ++ e ∧ b = e ++ "_" ++ d) ∨ ∃ e, a = c ++ "_" ++ e ∧ d = e ++ "_" ++ b := by
  have hlater {a b c d : String} {more : List Char} (hmore : c.toList = a.toList ++ more)
      (hrest : '_' :: b.toList = more ++ '_' :: d.toList) :
      a = c ∧ b = d ∨ ∃ e, c = a ++ "_" ++ e ∧ b = e ++ "_" ++ d := by
    cases more with
    | nil =>
      rw [List.append_nil] at hmore
      rw [List.nil_append, List.cons.injEq] at hrest
      exact .inl ⟨String.toList_injective hmore.symm, String.toList_injective hrest.2⟩
    | cons first rest =>
      rw [List.cons_append, List.cons.injEq] at hrest
      obtain ⟨rfl, hrest⟩ := hrest
      refine .inr ⟨String.ofList rest, ?_, ?_⟩ <;> apply String.toList_injective
      · simp [hmore]
      · simp [hrest]
  constructor
  · intro h
    have hlist : a.toList ++ '_' :: b.toList = c.toList ++ '_' :: d.toList := by
      simpa using congrArg String.toList h
    rcases List.append_eq_append_iff.mp hlist with ⟨more, hmore, hrest⟩ | ⟨more, hmore, hrest⟩
    · exact (hlater hmore hrest).imp_right .inl
    · rcases hlater hmore hrest with ⟨rfl, rfl⟩ | hlonger
      · exact .inl ⟨rfl, rfl⟩
      · exact .inr (.inr hlonger)
  · rintro (⟨rfl, rfl⟩ | ⟨e, rfl, rfl⟩ | ⟨e, rfl, rfl⟩) <;> simp only [String.append_assoc]

theorem ne_void_of_plan (hplan : decl.plan session overloaded = .ok plan) : ∀ type ∈ decl.operands, type ≠ .void := by
  obtain ⟨-, hparams, -⟩ := plan_eq_ok_iff.mp hplan
  have hpassed := forall₂_of_planParams (R := fun param _ => param.type ≠ .void)
    (fun planned param paramPlan hparam hvoid => by
      obtain ⟨value, mode, host, hpassed, -⟩ := planParam_eq_ok_iff.mp hparam
      rw [hvoid] at hpassed
      cases hpassed) .nil hparams
  intro type hmem
  obtain ⟨param, hparam, rfl⟩ := List.mem_map.mp hmem
  obtain ⟨index, hindex, rfl⟩ := List.getElem_of_mem hparam
  exact hpassed.get hindex (hpassed.length_eq ▸ hindex)

theorem operands_of_plan (hplan : decl.plan session overloaded = .ok plan) {names : List String}
    (hnames : decl.structNames ⊆ names) :
    ∀ type ∈ decl.operands, type ≠ .void ∧ ∀ name ∈ type.structName?, name ∈ names := fun type hmem =>
  ⟨ne_void_of_plan hplan type hmem, fun _ hname => hnames (List.mem_filterMap.mpr ⟨type, hmem, hname⟩)⟩

/-- Two functions have one mangled name when their stems and operands are the same, or when one stem hides operands
of the other function. -/
theorem mangledName_eq_iff {session' : Session} (hplan : decl.plan session overloaded = .ok plan)
    (hplan' : decl'.plan session' overloaded' = .ok plan')
    (hnames : CType.Separable (decl.structNames ++ decl'.structNames)) :
    decl.mangledName = decl'.mangledName ↔
      decl.stem = decl'.stem ∧ decl.SameOperands decl' ∨ decl'.Hides decl ∨ decl.Hides decl' := by
  have hoperands : CType.mangleAll decl.operands = CType.mangleAll decl'.operands ↔ decl.SameOperands decl' :=
    hnames.mangleAll_eq_iff (operands_of_plan hplan (List.subset_append_left _ _))
      (operands_of_plan hplan' (List.subset_append_right _ _))
  rw [mangledName, mangledName, append_underscore_eq_iff, ← hoperands]
  rfl

theorem operator_eq_of_stem_eq {operator operator' : Operator} (hoperator : decl.operator = some operator)
    (hoperator' : decl'.operator = some operator') (hstem : decl.stem = decl'.stem) : operator = operator' := by
  rw [stem, stem, hoperator, hoperator'] at hstem
  exact Operator.mnemonic_injective ((String.append_right_inj _).mp hstem)

/-- **When two functions share a symbol**: exactly when their stems and their operands are the same, or when one
stem hides operands of the other function. Functions with one stem share a symbol only when their operands are
the same, and operators with one stem are the same operator. -/
theorem shimName_eq_iff (hplan : decl.plan session overloaded = .ok plan)
    (hplan' : decl'.plan session overloaded' = .ok plan')
    (hnames : CType.Separable (decl.structNames ++ decl'.structNames)) :
    (plan.shimName = plan'.shimName ↔
      decl.stem = decl'.stem ∧ decl.SameOperands decl' ∨ decl'.Hides decl ∨ decl.Hides decl') ∧
    (decl.stem = decl'.stem → (plan.shimName = plan'.shimName ↔ decl.SameOperands decl')) ∧
    (decl.stem = decl'.stem → ∀ operator operator', decl.operator = some operator →
      decl'.operator = some operator' → operator = operator') := by
  obtain ⟨-, -, -, -, -, -, hname, -⟩ := plan_eq_ok_iff.mp hplan
  obtain ⟨-, -, -, -, -, -, hname', -⟩ := plan_eq_ok_iff.mp hplan'
  have hiff : plan.shimName = plan'.shimName ↔
      decl.stem = decl'.stem ∧ decl.SameOperands decl' ∨ decl'.Hides decl ∨ decl.Hides decl' := by
    rw [hname, hname', String.append_right_inj]
    exact mangledName_eq_iff hplan hplan' hnames
  have hlonger (text more : String) : text ≠ text ++ "_" ++ more := by
    intro h
    have hlength := congrArg String.length h
    simp only [String.length_append, show "_".length = 1 from rfl] at hlength
    omega
  refine ⟨hiff, fun hstem => ?_, fun hstem _ _ hoperator hoperator' =>
    operator_eq_of_stem_eq hoperator hoperator' hstem⟩
  rw [hiff]
  constructor
  · rintro (⟨-, hsame⟩ | ⟨hidden, hhides, -⟩ | ⟨hidden, hhides, -⟩)
    · exact hsame
    · exact absurd (hstem.trans hhides) (hlonger _ _)
    · exact absurd (hstem.symm.trans hhides) (hlonger _ _)
  · exact fun hsame => .inl ⟨hstem, hsame⟩

/-! ### Overloads with scoped names, and two functions that share a symbol -/

namespace Sample

def geometry : StructBatch where
  structs := [{ name := "Vec", fields := [⟨"x", .ofPrimitive (.floating .f32)⟩] },
    { name := "geo::Vec", fields := [⟨"x", .ofPrimitive (.floating .f64)⟩] }]
  mapping := Table.ofList [("Vec", { header := "geo.h" }), ("geo::Vec", { header := "geo.h" })]

def blend (first second : CType) : FunctionDecl :=
  { name := "geo::blend", returnType := .void, params := [⟨some "a", first⟩, ⟨some "b", second⟩] }

def blendScoped : FunctionDecl :=
  blend (.pointer (.named "geo::Vec") true) (.named "Vec")

def blendLengths : FunctionDecl :=
  blend (.reference (.named "geo::Vec") true) (.array (.primitive (.integral .i64) "long") 3)

def planned (decl : FunctionDecl) : FunctionPlan :=
  (decl.plan (geometry.render {}).1 true).toOption.getD default

def pair : FunctionDecl :=
  { name := "f", returnType := .void,
    params := [⟨some "a", .ofPrimitive (.integral .i32)⟩, ⟨some "b", .ofPrimitive (.integral .i32)⟩] }

def single : FunctionDecl :=
  { name := "f_i32", returnType := .void, params := [⟨some "a", .ofPrimitive (.integral .i32)⟩] }

end Sample

theorem shimName_eq_iff_scoped :
    CType.Separable (Sample.blendScoped.structNames ++ Sample.blendLengths.structNames) ∧
    (Sample.planned Sample.blendScoped).shimName = "__bind_shim_geo_blend_cptr_geo_Vec_Vec" ∧
    (Sample.planned Sample.blendLengths).shimName = "__bind_shim_geo_blend_cref_geo_Vec_arr3_i64" ∧
    ((Sample.planned Sample.blendScoped).shimName = (Sample.planned Sample.blendLengths).shimName ↔
      Sample.blendScoped.SameOperands Sample.blendLengths) := by
  have hnames : CType.Separable (Sample.blendScoped.structNames ++ Sample.blendLengths.structNames) :=
    ⟨by decide +kernel, by decide +kernel⟩
  have hscoped := eq_ok_of_isSome_toOption
    (show (Sample.blendScoped.plan (Sample.geometry.render {}).1 true).toOption.isSome by decide +kernel)
  have hlengths := eq_ok_of_isSome_toOption
    (show (Sample.blendLengths.plan (Sample.geometry.render {}).1 true).toOption.isSome by decide +kernel)
  have hiff := shimName_eq_iff hscoped hlengths hnames
  exact ⟨hnames, by decide +kernel, by decide +kernel, hiff.2.1 rfl⟩

/-- Two plain functions of different names and operands share a symbol, and cannot be rendered together. -/
theorem shimName_shared :
    Sample.pair.operator = none ∧ Sample.single.operator = none ∧ Sample.pair.name ≠ Sample.single.name ∧
    Sample.pair.operands.length ≠ Sample.single.operands.length ∧
    (∃ plan plan' : FunctionPlan, Sample.pair.plan {} false = .ok plan ∧ Sample.single.plan {} false = .ok plan' ∧
      plan.shimName = plan'.shimName) ∧
    (FunctionBatch.render { functions := [Sample.pair, Sample.single], header := "h.h" } {}).2 =
      .error (.nameCollision "__bind_shim_f_i32_i32" "f" "f_i32") := by
  refine ⟨rfl, rfl, by decide, by decide, ?_, by decide +kernel⟩
  have hpair := eq_ok_of_isSome_toOption (show (Sample.pair.plan {} false).toOption.isSome by decide +kernel)
  have hsingle := eq_ok_of_isSome_toOption (show (Sample.single.plan {} false).toOption.isSome by decide +kernel)
  exact ⟨_, _, hpair, hsingle, by decide +kernel⟩

end HostBinding.FunctionDecl
