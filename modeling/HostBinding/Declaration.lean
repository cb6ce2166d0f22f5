import HostBinding.CType.Basic
import HostBinding.Operator

/-!
# Declarations

What a native header declares, as far as bindings are generated from it: structs with their fields, and
functions, some of which implement an operator. The order of fields, parameters and declarations is
meaningful and is kept.
-/

namespace HostBinding

structure FieldDecl where
  name : String
  type : CType
deriving DecidableEq, Repr, Inhabited

structure StructDecl where
  name : String
  fields : List FieldDecl := []
  comment : Option String := none
deriving DecidableEq, Repr, Inhabited

structure ParamDecl where
  name : Option String := none
  type : CType
deriving DecidableEq, Repr, Inhabited

structure FunctionDecl where
  name : String
  returnType : CType
  params : List ParamDecl := []
  operator : Option Operator := none
deriving DecidableEq, Repr, Inhabited

/-- Everything declared in one header. -/
structure Declarations where
  header : String
  /-- A tag that is passed through untouched. -/
  targetArch : Option String := none
  headerDigest : Option String := none
  structs : List StructDecl := []
  functions : List FunctionDecl := []
deriving DecidableEq, Repr, Inhabited

def Declarations.structNamed? (decls : Declarations) (name : String) : Option StructDecl :=
  decls.structs.find? (·.name = name)

end HostBinding
