import HostBinding.FunctionBinding.OperatorText
import HostBinding.FunctionBinding.Text
import HostBinding.StructBinding.Render

/-!
# Rendering functions

A function becomes a host function and a shim, and an operator also an implementation of its trait. The
proxies of the structs that it names must be registered. Functions of one batch that share a name are
overloads of each other.
-/

namespace HostBinding

structure FunctionBatch where
  functions : List FunctionDecl
  header : String
  digest : Option String := none
deriving DecidableEq, Inhabited

namespace FunctionBatch

def storageImport : String :=
  "use core::mem::MaybeUninit;"

/-- Whether another plain function of the batch has the same name. -/
def isOverloaded (batch : FunctionBatch) (decl : FunctionDecl) : Bool :=
  decl.operator.isNone &&
    1 < batch.functions.countP fun other => other.operator.isNone && other.name = decl.name

/-- The key of a function: its header, its own declaration and whether it is overloaded. -/
def key (batch : FunctionBatch) (decl : FunctionDecl) : DeclKey where
  kind := .function
  name := decl.name
  parts := [batch.header, batch.digest.getD "", "function", decl.name, decl.returnType.spell] ++
    (decl.params.flatMap fun param => [param.name.getD "", param.type.spell]) ++
    [(decl.operator.map (·.mnemonic)).getD "",
      if batch.isOverloaded decl then "overloaded" else "unique"]

def importLines (plan : FunctionPlan) : List String :=
  let storage := match plan.ret with
    | .outParam _ _ => [storageImport]
    | _ => []
  let erased := if plan.hosts.any (·.mentionsErased) then [erasedImport] else []
  storage ++ erased ++ plan.operator.toList.map FunctionPlan.traitImport

def rendering (batch : FunctionBatch) (config : Config) (plan : FunctionPlan) : Rendering :=
  let implementations : List Fragment := plan.operator.toList.map fun operator =>
    { kind := .functionBinding, name := plan.implHead operator, text := plan.implText operator }
  { fragments := (importLines plan).map Fragment.ofImport ++
      [{ kind := .functionBinding, name := plan.proxyName, text := plan.proxyText batch.header }] ++
      implementations ++
      [{ kind := .shim, name := plan.shimName, text := plan.shimText config.shimQualifiers }]
    includes := [batch.header] }

def build (batch : FunctionBatch) (session : Session) (decl : FunctionDecl) :
    Except BindingError Rendering := do
  let plan ← decl.plan session (batch.isOverloaded decl)
  return batch.rendering session.config plan

/-- Renders one function. Operators may take over what an earlier operator was registered under. -/
def step (batch : FunctionBatch) (session : Session) (decl : FunctionDecl) :
    Except BindingError (Rendering × Session) :=
  let key := batch.key decl
  match session.renderings.get? key with
  | some held => .ok (held, session)
  | none => do
    let rendering ← batch.build session decl
    let session ← session.commit key rendering decl.operator.isSome
    return (rendering, session)

/-- Renders a batch into a session. The module holds what this batch renders to. -/
def render (batch : FunctionBatch) (session : Session) :
    Session × Except BindingError OutputModule :=
  Session.renderEach batch.step session session.emptyModule batch.functions

end FunctionBatch

end HostBinding
