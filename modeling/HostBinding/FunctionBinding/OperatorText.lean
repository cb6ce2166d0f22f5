import HostBinding.FunctionBinding.Plan
import HostBinding.Text.Line

/-!
# Operator implementations

An operator's host function is reached through a host trait. The operands that the function takes by
mutable reference go through a local copy, except the left operand of an assignment, which is such a
reference already.
-/

namespace HostBinding.FunctionPlan

open Text

def operandHost (plan : FunctionPlan) (position : Nat) : String :=
  (plan.params[position]?.map (·.host.spell)).getD ""

def implHead (plan : FunctionPlan) (operator : Operator) : String :=
  let parameter := match plan.params[1]? with
    | some right => "<" ++ right.host.spell ++ ">"
    | none => ""
  "impl " ++ operator.hostTrait.name ++ parameter ++ " for " ++ plan.operandHost 0

def traitImport (operator : Operator) : String :=
  "use core::" ++ operator.hostTrait.path ++ ";"

/-- The copy that an operand needs, and the argument that stands for it. -/
def operandCopy (mode : PassMode) (source : String) (position : Nat) : List String × String :=
  if mode = .mutable then
    let copy := "operand" ++ toString position
    (["        let mut " ++ copy ++ " = " ++ source ++ ";"], "&mut " ++ copy)
  else ([], source)

def operandCopies (plan : FunctionPlan) (sources : List String) : List String × List String :=
  let operands := (plan.params.zip sources).zipIdx.map fun ((param, source), position) =>
    operandCopy param.mode source position
  (operands.flatMap Prod.fst, operands.map Prod.snd)

/-- The copies and arguments of an assignment: its left operand is passed on. -/
def assignCopies (plan : FunctionPlan) : List String × List String :=
  match plan.params[1]? with
  | none => ([], ["self"])
  | some right =>
    if right.mode = .mutable then
      (["        let mut operand1 = rhs;"], ["self", "&mut operand1"])
    else ([], ["self", "rhs"])

/-- How the result of a comparison becomes a truth value. -/
def truthTest (plan : FunctionPlan) : String :=
  if plan.ret.value?.any (·.asPrimitive? = some .bool) then "" else " != 0"

def implText (plan : FunctionPlan) (operator : Operator) : String :=
  let method := operator.hostTrait.method
  let right := plan.operandHost 1
  let call (arguments : List String) := plan.proxyName ++ "(" ++ ", ".intercalate arguments ++ ")"
  let output := "    type Output = " ++ (plan.ret.host?.elim "()" HostType.spell) ++ ";"
  let members := match operator with
    | .equal =>
      let (copies, arguments) := plan.operandCopies ["*self", "*other"]
      ["    fn " ++ method ++ "(&self, other: &" ++ right ++ ") -> bool \x7b"] ++ copies ++
        ["        " ++ call arguments ++ plan.truthTest]
    | .assign _ =>
      let (copies, arguments) := plan.assignCopies
      ["    fn " ++ method ++ "(&mut self, rhs: " ++ right ++ ") \x7b"] ++ copies ++
        ["        " ++ call arguments ++ ";"]
    | .negate | .not | .complement =>
      let (copies, arguments) := plan.operandCopies ["self"]
      [output, "", "    fn " ++ method ++ "(self) -> Self::Output \x7b"] ++ copies ++
        ["        " ++ call arguments]
    | .binary _ =>
      let (copies, arguments) := plan.operandCopies ["self", "rhs"]
      [output, "", "    fn " ++ method ++ "(self, rhs: " ++ right ++ ") -> Self::Output \x7b"] ++
        copies ++ ["        " ++ call arguments]
  unlines <| [plan.implHead operator ++ " \x7b"] ++ members ++ ["    \x7d", "\x7d"]

end HostBinding.FunctionPlan
