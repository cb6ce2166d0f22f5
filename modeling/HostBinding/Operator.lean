import HostBinding.Text.Blank

/-!
# Overloadable operators

The operators that a declaration may be tagged with. Ten binary operators have a compound assignment
form; symbol, mnemonic and trait of that form are those of the binary operator with an ending added.
-/

namespace HostBinding

inductive BinaryOperator where
  | add | sub | mul | div | rem | bitAnd | bitOr | bitXor | shl | shr
deriving DecidableEq, Repr, Inhabited

inductive Operator where
  | binary (op : BinaryOperator)
  | equal
  | negate
  | not
  | complement
  | assign (op : BinaryOperator)
deriving DecidableEq, Repr, Inhabited

namespace BinaryOperator

def all : List BinaryOperator :=
  [add, sub, mul, div, rem, bitAnd, bitOr, bitXor, shl, shr]

def symbol : BinaryOperator → String
  | add => "+" | sub => "-" | mul => "*" | div => "/" | rem => "%"
  | bitAnd => "&" | bitOr => "|" | bitXor => "^" | shl => "<<" | shr => ">>"

def mnemonic : BinaryOperator → String
  | add => "add" | sub => "sub" | mul => "mul" | div => "div" | rem => "rem"
  | bitAnd => "bitand" | bitOr => "bitor" | bitXor => "bitxor" | shl => "shl" | shr => "shr"

def tag : BinaryOperator → String
  | bitAnd => "bit-and" | bitOr => "bit-or" | bitXor => "bit-xor"
  | op => op.mnemonic

def traitName : BinaryOperator → String
  | add => "Add" | sub => "Sub" | mul => "Mul" | div => "Div" | rem => "Rem"
  | bitAnd => "BitAnd" | bitOr => "BitOr" | bitXor => "BitXor" | shl => "Shl" | shr => "Shr"

end BinaryOperator

structure OperatorTrait where
  path : String
  name : String
  method : String
deriving DecidableEq, Repr

namespace Operator

def all : List Operator :=
  BinaryOperator.all.map .binary ++ [.equal, .negate, .not, .complement] ++
    BinaryOperator.all.map .assign

def symbol : Operator → String
  | .binary op => op.symbol
  | .equal => "=="
  | .negate => "-"
  | .not => "!"
  | .complement => "~"
  | .assign op => op.symbol ++ "="

def mnemonic : Operator → String
  | .binary op => op.mnemonic
  | .equal => "eq"
  | .negate => "neg"
  | .not => "not"
  | .complement => "bitnot"
  | .assign op => op.mnemonic ++ "_assign"

def tag : Operator → String
  | .complement => "bit-not"
  | .binary op => op.tag
  | .assign op => op.tag ++ "-assign"
  | op => op.mnemonic

def ofTag? (tag : String) : Option Operator :=
  all.find? (·.tag == tag)

def arity : Operator → Nat
  | .negate | .not | .complement => 1
  | _ => 2

def isUnary (op : Operator) : Bool :=
  op.arity == 1

def isAssign : Operator → Bool
  | .assign _ => true
  | _ => false

/-- The two negations share a trait, so one type can implement only one of them. -/
def hostTrait : Operator → OperatorTrait
  | .binary op => ⟨"ops::" ++ op.traitName, op.traitName, op.mnemonic⟩
  | .equal => ⟨"cmp::PartialEq", "PartialEq", "eq"⟩
  | .negate => ⟨"ops::Neg", "Neg", "neg"⟩
  | .not | .complement => ⟨"ops::Not", "Not", "not"⟩
  | .assign op =>
    let name := op.traitName ++ "Assign"
    ⟨"ops::" ++ name, name, op.mnemonic ++ "_assign"⟩

def spell (op : Operator) : String :=
  "operator" ++ op.symbol

/-- The operator that a symbol and a number of operands name. The symbol may follow the keyword
`operator`, and blanks around either do not count. -/
def ofSymbol? (symbol : String) (arity : Nat) : Option Operator :=
  let text := Text.trim symbol.toList
  let keyword := "operator".toList
  let bare := if keyword.isPrefixOf text then Text.trim (text.drop keyword.length) else text
  all.find? fun op => op.symbol.toList == bare && op.arity == arity

theorem mem_all (op : Operator) : op ∈ all := by
  cases op with
  | binary op => cases op <;> decide
  | assign op => cases op <;> decide
  | _ => decide

theorem mnemonic_injective {op op' : Operator} (h : op.mnemonic = op'.mnemonic) : op = op' := by
  have hall : ∀ op ∈ all, ∀ op' ∈ all, op.mnemonic = op'.mnemonic → op = op' := by decide
  exact hall op op.mem_all op' op'.mem_all h

theorem hostTrait_eq_of_name_eq {op op' : Operator} (h : op.hostTrait.name = op'.hostTrait.name) :
    op.hostTrait = op'.hostTrait := by
  have hall : ∀ op ∈ all, ∀ op' ∈ all, op.hostTrait.name = op'.hostTrait.name → op.hostTrait = op'.hostTrait := by
    decide
  exact hall op op.mem_all op' op'.mem_all h

end Operator

end HostBinding
