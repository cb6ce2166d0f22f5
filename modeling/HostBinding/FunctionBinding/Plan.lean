import HostBinding.CType.Mangled
import HostBinding.Declaration
import HostBinding.HostType
import HostBinding.Session.Basic

/-!
# How a function crosses the boundary

A function is called through a shim: a native function with a C signature that the host declares as
well. A plan says, for every parameter and for the return value, which native value is meant, which host
type stores it, and how it is handed over. The texts of both sides are written from this one plan.
-/

namespace HostBinding

inductive PassMode where
  | direct
  /-- By a pointer that the shim only reads from; the host function takes the value. -/
  | indirect
  /-- By a pointer that the shim may write to; the host function takes a mutable reference. -/
  | mutable
deriving DecidableEq, Repr, Inhabited

structure ParamPlan where
  ident : String
  native : CType
  /-- The type of the value, seen through references and array decay. -/
  value : CType
  host : HostType
  mode : PassMode
deriving DecidableEq, Repr, Inhabited

inductive ReturnPlan where
  | void
  | outParam (value : CType) (host : HostType)
  | byValue (value : CType) (host : HostType)
deriving DecidableEq, Repr, Inhabited

namespace ReturnPlan

def types? : ReturnPlan → Option (CType × HostType)
  | .void => none
  | .outParam value host | .byValue value host => some (value, host)

def host? (ret : ReturnPlan) : Option HostType :=
  ret.types?.map Prod.snd

def value? (ret : ReturnPlan) : Option CType :=
  ret.types?.map Prod.fst

end ReturnPlan

structure FunctionPlan where
  nativeName : String
  operator : Option Operator
  params : List ParamPlan
  ret : ReturnPlan
  shimName : String
  proxyName : String
deriving DecidableEq, Repr, Inhabited

namespace FunctionPlan

def hosts (plan : FunctionPlan) : List HostType :=
  plan.params.map (·.host) ++ plan.ret.host?.toList

/-- Whether the host function hands pointers to native code or gets them from it. -/
def isUnsafe (plan : FunctionPlan) : Bool :=
  plan.params.any (·.value.containsPointer) || plan.ret.value?.any (·.containsPointer)

end FunctionPlan

/-- The value that a parameter of a declared type takes, and how it is passed. -/
def CType.passed? : CType → Option (CType × PassMode)
  | .void => none
  | .reference target true => some (target, .indirect)
  | .reference target false => some (target, .mutable)
  | .array element _ => some (.pointer element false, .direct)
  | .pointer target isConst => some (.pointer target isConst, .direct)
  | .primitive kind spelling =>
    some (.primitive kind spelling, if kind.isHalf then .indirect else .direct)
  | .named name => some (.named name, .indirect)

namespace FunctionDecl

/-- Names that shims and host functions use for themselves. -/
def reservedIdents : List String :=
  ["retval", "__retval"]

/-- The first of a name and its lengthenings by underscores that is not taken. One of them is free,
because fewer names are taken than are tried. -/
def freshIdent (taken : List String) (stem : String) : String :=
  let candidates := (List.range (taken.length + 1)).map fun count =>
    stem ++ String.ofList (List.replicate count '_')
  (candidates.find? (!taken.contains ·)).getD stem

/-- A declared parameter name as an identifier, when it can be one on both sides. -/
def declaredIdent? (declared : Option String) : Option String := do
  let name ← declared
  guard (Text.isIdentifier name.toList && !reservedIdents.contains name)
  let ident := Text.escapeKeyword name
  guard (!Text.rawMark.toList.isPrefixOf ident.toList)
  return ident

/-- The identifier of the parameter at a position: its declared name when that is usable and free, and a
numbered one otherwise. -/
def paramIdent (declared : Option String) (position : Nat) (taken : List String) : String :=
  match declaredIdent? declared with
  | some ident =>
    if taken.contains ident then freshIdent taken ("arg" ++ toString position) else ident
  | none => freshIdent taken ("arg" ++ toString position)

def isAssign (decl : FunctionDecl) : Bool :=
  decl.operator.any (·.isAssign)

/-- Plans one parameter. The left operand of an assignment is written to. -/
def planParam (decl : FunctionDecl) (session : Session) (planned : List ParamPlan)
    (param : ParamDecl) : Except BindingError ParamPlan :=
  match param.type.passed? with
  | none => .error (.operand decl.name param.type.spell .voidParameter)
  | some (value, mode) =>
    match value.host? session.hostName? with
    | none => .error (.operand decl.name param.type.spell .noProxy)
    | some host => .ok {
        ident := paramIdent param.name planned.length (planned.map (·.ident))
        native := param.type
        value := value
        host := host
        mode := if decl.isAssign && planned.isEmpty then .mutable else mode }

def planParams (decl : FunctionDecl) (session : Session) :
    List ParamPlan → List ParamDecl → Except BindingError (List ParamPlan)
  | planned, [] => .ok planned
  | planned, param :: rest =>
    match decl.planParam session planned param with
    | .error cause => .error cause
    | .ok plan => planParams decl session (planned ++ [plan]) rest

/-- The size of a value that a shim could return directly. Only proxies that have the native fields are
classified by both compilers alike. -/
def directSize? (session : Session) : CType → Option Nat
  | .primitive kind _ => if kind.isHalf then none else some kind.size
  | .pointer _ _ => some session.config.pointerWidth.toNat
  | .named name =>
    (session.proxy? name).bind fun proxy =>
      if proxy.model = .fieldwise then some proxy.size else none
  | _ => none

def returnsByValue (session : Session) (value : CType) : Bool :=
  match session.config.byValueReturnLimit, directSize? session value with
  | some limit, some size => size ≤ limit.toNat
  | _, _ => false

def planReturn (decl : FunctionDecl) (session : Session) : Except BindingError ReturnPlan :=
  if decl.returnType.isVoid || decl.isAssign then .ok .void
  else
    let value := decl.returnType.stripReference
    match value.host? session.hostName? with
    | none => .error (.operand decl.name decl.returnType.spell .noReturnForm)
    | some host =>
      .ok (if returnsByValue session value then .byValue value host else .outParam value host)

def isComparison : CType → Bool
  | .primitive kind _ => kind = .bool || kind.isIntegral
  | _ => false

def isProxyOperand (session : Session) (param : ParamPlan) : Bool :=
  match param.value with
  | .named name => (session.proxy? name).isSome
  | _ => false

/-- What an operator's implementation needs: operands without pointers, one of them a struct with a
proxy, and a truth value or an integer as the result of a comparison. -/
def checkOperator (decl : FunctionDecl) (session : Session) (operator : Operator)
    (params : List ParamPlan) (ret : ReturnPlan) : Except BindingError Unit :=
  match params.find? (·.value.containsPointer) with
  | some param => .error (.operand decl.name param.native.spell .notByValue)
  | none =>
    if !params.any (isProxyOperand session) then
      .error (.operand decl.name ((params.head?.map (·.native.spell)).getD "") .noProxyOperand)
    else if operator = .equal && !ret.value?.any isComparison then
      .error (.operatorReturn decl.name operator decl.returnType)
    else .ok ()

def checkArity (decl : FunctionDecl) : Except BindingError Unit :=
  match decl.operator with
  | some operator =>
    if decl.params.length = operator.arity then .ok ()
    else .error (.operatorArity decl.name operator decl.params.length)
  | none => .ok ()

def stem (decl : FunctionDecl) : String :=
  match decl.operator with
  | some operator => "operator_" ++ operator.mnemonic
  | none => Text.sanitize decl.name

def mangledName (decl : FunctionDecl) : String :=
  decl.stem ++ "_" ++ CType.mangleAll (decl.params.map (·.type))

/-- The name of the host function. Operators and overloaded functions are told apart by their parameter
types. -/
def proxyName (decl : FunctionDecl) (overloaded : Bool) : String :=
  if decl.operator.isSome || overloaded then decl.mangledName else Text.escapeKeyword decl.stem

def plan (decl : FunctionDecl) (session : Session) (overloaded : Bool) :
    Except BindingError FunctionPlan := do
  decl.checkArity
  let params ← decl.planParams session [] decl.params
  let ret ← decl.planReturn session
  match decl.operator with
  | some operator => decl.checkOperator session operator params ret
  | none => pure ()
  return {
    nativeName := decl.name
    operator := decl.operator
    params := params
    ret := ret
    shimName := session.config.shimStart ++ decl.mangledName
    proxyName := decl.proxyName overloaded }

end FunctionDecl

end HostBinding
