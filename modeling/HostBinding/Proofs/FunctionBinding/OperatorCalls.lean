import HostBinding.Proofs.FunctionBinding.Registration
import HostBinding.Proofs.Session.Coherence

/-!
# Calling an operator's host function from its implementation

The implementation of an operator's trait calls the operator's host function with one argument for every operand,
and the call stands directly in a method that anyone may call. That is only allowed when the host function is not
an unsafe one. The operands of an accepted operator hold no pointers, but nothing is asked of what it returns.
-/

namespace HostBinding

namespace CType

theorem containsPointer_stripReference (type : CType) :
    type.stripReference.containsPointer = type.containsPointer := by
  cases type <;> rfl

theorem containsPointer_of_isVoid {type : CType} (h : type.isVoid = true) : type.containsPointer = false := by
  cases type <;> first | rfl | cases h

end CType

namespace FunctionPlan

variable {plan : FunctionPlan} {operator : Operator}

/-! ### The operands that the texts read -/

/-- An operand in the native expression: the value, or what the pointer that stands for it points to. -/
def nativeOperand (param : ParamPlan) : String :=
  match param.mode with
  | .direct => param.ident
  | .indirect | .mutable => "*" ++ param.ident

/-- Every operand that is read for the implementation or for the shim is a parameter of the plan. -/
inductive ReadsOperands (plan : FunctionPlan) (operator : Operator) : Prop where
  | unary (operand : ParamPlan) (params : plan.params = [operand])
      (head : plan.implHead operator =
        "impl " ++ (operator.hostTrait.name ++ (" for " ++ operand.host.spell)))
      (call : plan.nativeCall = operator.symbol ++ "(" ++ nativeOperand operand ++ ")")
  | binary (left right : ParamPlan) (params : plan.params = [left, right])
      (head : plan.implHead operator = "impl " ++ (operator.hostTrait.name ++
        ("<" ++ (right.host.spell ++ ("> for " ++ left.host.spell)))))
      (method : plan.operandHost 1 = right.host.spell)
      (call : plan.nativeCall =
        "(" ++ nativeOperand left ++ ") " ++ operator.symbol ++ " (" ++ nativeOperand right ++ ")")

theorem nativeCall_of_operator (hoperator : plan.operator = some operator) :
    plan.nativeCall =
      let arguments := plan.params.map nativeOperand
      if operator.isUnary then operator.symbol ++ "(" ++ arguments.getD 0 "" ++ ")"
      else "(" ++ arguments.getD 0 "" ++ ") " ++ operator.symbol ++ " (" ++ arguments.getD 1 "" ++ ")" := by
  rw [nativeCall, hoperator]
  rfl

theorem readsOperands (hoperator : plan.operator = some operator)
    (harity : plan.params.length = operator.arity) : plan.ReadsOperands operator := by
  have hunary : operator.isUnary = (plan.params.length == 1) := by rw [Operator.isUnary, harity]
  rcases exists_implHead_eq harity with ⟨operand, hparams, hhead⟩ | ⟨left, right, hparams, hhead⟩
  · refine .unary operand hparams hhead ?_
    simp [nativeCall_of_operator hoperator, hunary, hparams]
  · refine .binary left right hparams hhead (by simp [operandHost, hparams]) ?_
    simp [nativeCall_of_operator hoperator, hunary, hparams]

/-! ### The call in an implementation -/

def implOpening (plan : FunctionPlan) (operator : Operator) : List String :=
  let method := "    fn " ++ operator.hostTrait.method
  let output := "    type Output = " ++ (plan.ret.host?.elim "()" HostType.spell) ++ ";"
  match operator with
  | .equal => [method ++ "(&self, other: &" ++ plan.operandHost 1 ++ ") -> bool \x7b"]
  | .assign _ => [method ++ "(&mut self, rhs: " ++ plan.operandHost 1 ++ ") \x7b"]
  | .negate | .not | .complement => [output, "", method ++ "(self) -> Self::Output \x7b"]
  | .binary _ => [output, "", method ++ "(self, rhs: " ++ plan.operandHost 1 ++ ") -> Self::Output \x7b"]

def implOperands (plan : FunctionPlan) : Operator → List String × List String
  | .equal => plan.operandCopies ["*self", "*other"]
  | .assign _ => plan.assignCopies
  | .negate | .not | .complement => plan.operandCopies ["self"]
  | .binary _ => plan.operandCopies ["self", "rhs"]

def implEnding (plan : FunctionPlan) : Operator → String
  | .equal => plan.truthTest
  | .assign _ => ";"
  | _ => ""

/-- The call is a line of the method's own block. -/
theorem implText_eq (plan : FunctionPlan) (operator : Operator) :
    plan.implText operator = Text.unlines
      ([plan.implHead operator ++ " \x7b"] ++
        (plan.implOpening operator ++ (plan.implOperands operator).1 ++
          ["        " ++ (plan.proxyName ++ "(" ++ ", ".intercalate (plan.implOperands operator).2 ++ ")" ++
            plan.implEnding operator)]) ++
        ["    \x7d", "\x7d"]) := by
  cases operator <;> simp [implText, implOpening, implOperands, implEnding, String.append_assoc]

theorem length_operandCopies {sources : List String} (h : sources.length = plan.params.length) :
    (plan.operandCopies sources).2.length = plan.params.length := by
  simp [operandCopies, h]

theorem length_implOperands (harity : plan.params.length = operator.arity) :
    (plan.implOperands operator).2.length = plan.params.length := by
  cases operator with
  | assign op =>
    obtain ⟨left, right, hparams⟩ := List.length_eq_two.mp harity
    simp only [implOperands, assignCopies, hparams, List.getElem?_cons_succ, List.getElem?_cons_zero]
    split <;> rfl
  | _ => exact length_operandCopies harity.symm

/-! ### Whether the host function is an unsafe one -/

theorem isUnsafe_eq (hparams : ∀ param ∈ plan.params, param.value.containsPointer = false) :
    plan.isUnsafe = plan.ret.value?.any (·.containsPointer) := by
  have hnone : plan.params.any (·.value.containsPointer) = false := by simpa using hparams
  rw [isUnsafe, hnone, Bool.false_or]

theorem prefix_proxyHead_iff (plan : FunctionPlan) :
    "pub unsafe fn ".toList <+: plan.proxyHead.toList ↔ plan.isUnsafe = true := by
  cases h : plan.isUnsafe <;> simp [proxyHead, h]

end FunctionPlan

namespace FunctionDecl

variable {decl : FunctionDecl} {session : Session} {overloaded : Bool} {plan : FunctionPlan} {operator : Operator}
  {ret : ReturnPlan}

theorem containsPointer_of_planReturn (h : decl.planReturn session = .ok ret) :
    ret.value?.any (·.containsPointer) = (!decl.isAssign && decl.returnType.containsPointer) := by
  rcases planReturn_eq_ok h with ⟨hvoid, rfl⟩ | ⟨hvalue, host, -, rfl⟩
  · rw [Bool.or_eq_true] at hvoid
    rcases hvoid with hvoid | hassign
    · simp [ReturnPlan.value?, ReturnPlan.types?, CType.containsPointer_of_isVoid hvoid]
    · simp [ReturnPlan.value?, ReturnPlan.types?, hassign]
  · rw [Bool.or_eq_false_iff] at hvalue
    rw [hvalue.2, ← CType.containsPointer_stripReference decl.returnType]
    split <;> simp [ReturnPlan.value?, ReturnPlan.types?]

theorem containsPointer_of_isComparison {type : CType} (h : isComparison type = true) :
    type.containsPointer = false := by
  cases type <;> first | rfl | cases h

/-- How the implementation of an accepted operator calls the operator's host function. -/
structure OperatorCall (decl : FunctionDecl) (operator : Operator) (plan : FunctionPlan) : Prop where
  arity : plan.params.length = operator.arity
  operands : plan.ReadsOperands operator
  /-- The call is a line of the method's own block, so it is in no unsafe one. -/
  text : plan.implText operator = Text.unlines
    ([plan.implHead operator ++ " \x7b"] ++
      (plan.implOpening operator ++ (plan.implOperands operator).1 ++
        ["        " ++ (plan.proxyName ++ "(" ++ ", ".intercalate (plan.implOperands operator).2 ++ ")" ++
          plan.implEnding operator)]) ++
      ["    \x7d", "\x7d"])
  arguments : (plan.implOperands operator).2.length = plan.params.length
  qualifier : "pub unsafe fn ".toList <+: plan.proxyHead.toList ↔ plan.isUnsafe = true
  /-- Only a returned pointer makes the host function an unsafe one. -/
  isUnsafe : plan.isUnsafe = true ↔ operator.isAssign = false ∧ decl.returnType.containsPointer = true
  comparison : operator = .equal → plan.isUnsafe = false

/-- **When an operator's implementation may call its host function**: the operands that the texts read exist, the
call has one argument for each of them and stands outside any unsafe block, and the host function is safe to call
exactly when the operator is an assignment or returns no pointer. A comparison never returns one. -/
theorem operatorCall_of_plan (hplan : decl.plan session overloaded = .ok plan)
    (hoperator : decl.operator = some operator) : decl.OperatorCall operator plan := by
  obtain ⟨-, -, hret, hcheck, -, hsame, -⟩ := plan_eq_ok_iff.mp hplan
  obtain ⟨hvalues, -, hcomparison⟩ := checkOperator_eq_ok_iff.mp (hcheck operator hoperator)
  have harity := length_params_of_plan hplan hoperator
  have hresult := FunctionPlan.isUnsafe_eq hvalues
  constructor
  case arity => exact harity
  case operands => exact FunctionPlan.readsOperands (hsame.trans hoperator) harity
  case text => exact plan.implText_eq operator
  case arguments => exact FunctionPlan.length_implOperands harity
  case qualifier => exact plan.prefix_proxyHead_iff
  case isUnsafe =>
    rw [hresult, containsPointer_of_planReturn hret]
    simp [isAssign, hoperator]
  case comparison =>
    intro hequal
    have hcompared := hcomparison hequal
    rw [hresult]
    cases hvalue : plan.ret.value? with
    | none => rfl
    | some value =>
      rw [hvalue] at hcompared
      exact containsPointer_of_isComparison hcompared

namespace Sample

def plus (returnType : CType) : FunctionDecl where
  name := "operator+"
  returnType := returnType
  params := [⟨some "a", .named "Vec2"⟩, ⟨some "b", .reference (.named "Vec2") true⟩]
  operator := some (.binary .add)

def vectors : Session :=
  (Session.Sample.vectors.render {}).1

def floatPointer : CType :=
  .pointer (.ofPrimitive (.floating .f32)) false

def plusPlan (returnType : CType) : FunctionPlan :=
  ((plus returnType).plan vectors false).toOption.getD default

end Sample

theorem operatorCall_of_plan_plus :
    (Sample.plus (.named "Vec2")).plan Sample.vectors false = .ok (Sample.plusPlan (.named "Vec2")) ∧
    (Sample.plus (.named "Vec2")).OperatorCall (.binary .add) (Sample.plusPlan (.named "Vec2")) := by
  have hplan : (Sample.plus (.named "Vec2")).plan Sample.vectors false =
      .ok (Sample.plusPlan (.named "Vec2")) := by
    decide +kernel
  exact ⟨hplan, operatorCall_of_plan hplan rfl⟩

/-- A sum that returns a pointer is accepted, and its implementation calls an unsafe function. -/
theorem isUnsafe_plus_pointer :
    Sample.vectors.Reachable {} ∧
    (Sample.plus Sample.floatPointer).operator = some (.binary .add) ∧
    (Sample.plus Sample.floatPointer).plan Sample.vectors false = .ok (Sample.plusPlan Sample.floatPointer) ∧
    ¬ (Sample.plusPlan Sample.floatPointer).isUnsafe = false ∧
    (Sample.plusPlan Sample.floatPointer).proxyHead =
      "pub unsafe fn operator_add_Vec2_cref_Vec2(a: Vec2, b: Vec2) -> *mut f32 \x7b" ∧
    (Sample.plusPlan Sample.floatPointer).implText (.binary .add) = Text.unlines
      ["impl Add<Vec2> for Vec2 \x7b",
        "    type Output = *mut f32;",
        "",
        "    fn add(self, rhs: Vec2) -> Self::Output \x7b",
        "        operator_add_Vec2_cref_Vec2(self, rhs)",
        "    \x7d",
        "\x7d"] := by
  exact ⟨.structs _ .new, rfl, by decide +kernel, by decide +kernel, by decide +kernel, by decide +kernel⟩

end FunctionDecl

end HostBinding
