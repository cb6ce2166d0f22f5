import HostBinding.Layout.Basic
import HostBinding.Operator

/-!
# Why a declaration gets no binding

Each cause is a constructor, and its wording is in one place.
-/

namespace HostBinding

inductive OperandProblem where
  | voidParameter
  | noProxy
  | noReturnForm
  | notByValue
  | noProxyOperand
deriving DecidableEq, Repr, Inhabited

def OperandProblem.message : OperandProblem → String
  | .voidParameter => "void is not a parameter type"
  | .noProxy => "no struct proxy is registered for it"
  | .noReturnForm => "return type has no host representation"
  | .notByValue => "operator operands must be passable by value"
  | .noProxyOperand => "an operator needs at least one struct proxy operand"

inductive BindingError where
  | missingMapping (structName : String)
  | noLayout (structName : String) (cause : LayoutError)
  | unstorableField (structName fieldName : String) (type : CType)
  | operatorArity (function : String) (operator : Operator) (declared : Nat)
  | operand (function typeText : String) (problem : OperandProblem)
  | operatorReturn (function : String) (operator : Operator) (type : CType)
  /-- The name is generated for two declarations. -/
  | nameCollision (name existing incoming : String)
deriving DecidableEq, Repr, Inhabited

namespace BindingError

private def unsupportedField (structName fieldName typeText reason : String) : String :=
  "field '" ++ structName ++ "::" ++ fieldName ++ "' has unsupported type '" ++ typeText ++ "': " ++
    reason

def message : BindingError → String
  | .missingMapping structName => "struct '" ++ structName ++ "' has no entry in the type mapping"
  | .noLayout _ (.inField structName fieldName type reason) =>
    unsupportedField structName fieldName type.spell reason.message
  | .noLayout structName cause => unsupportedField structName "" structName cause.message
  | .unstorableField structName fieldName type =>
    unsupportedField structName fieldName type.spell "type has no host representation"
  | .operatorArity function operator declared =>
    "'" ++ function ++ "' is tagged " ++ operator.spell ++ " which takes " ++
      toString operator.arity ++ " operand(s), but declares " ++ toString declared
  | .operand function typeText problem =>
    "'" ++ function ++ "' uses '" ++ typeText ++ "' which has no proxy mapping: " ++ problem.message
  | .operatorReturn function operator type =>
    "'" ++ function ++ "' is tagged " ++ operator.spell ++ " but returns '" ++ type.spell ++ "'"
  | .nameCollision name existing incoming =>
    "'" ++ name ++ "' from '" ++ incoming ++ "' collides with the one emitted for '" ++ existing ++
      "'"

end BindingError

end HostBinding
