import HostBinding.Primitive

/-!
# C types

A native type is a chain: declarators (pointer, reference, array) around one leaf (void, a primitive, a
named struct). A primitive keeps the spelling of its declaration, because native code generated from
it has to name the very same type.
-/

namespace HostBinding

inductive CType where
  | void
  | primitive (kind : Primitive) (spelling : String)
  | named (name : String)
  | pointer (target : CType) (isConst : Bool)
  | reference (target : CType) (isConst : Bool)
  | array (element : CType) (length : UInt64)
deriving DecidableEq, Repr, Inhabited

namespace CType

def ofPrimitive (kind : Primitive) : CType :=
  .primitive kind kind.canonicalSpelling

def isVoid : CType → Bool
  | .void => true
  | _ => false

def stripReference : CType → CType
  | .reference target _ => target
  | type => type

/-- The struct that the type names, directly or through one reference. -/
def valueName? (type : CType) : Option String :=
  match type.stripReference with
  | .named name => some name
  | _ => none

/-- The primitive that the type is, directly or through one reference. -/
def asPrimitive? (type : CType) : Option Primitive :=
  match type.stripReference with
  | .primitive kind _ => some kind
  | _ => none

/-- Whether a value of the type holds a pointer; references are looked through. -/
def containsPointer : CType → Bool
  | .pointer _ _ => true
  | .array element _ => element.containsPointer
  | .reference target _ => target.containsPointer
  | _ => false

end CType

end HostBinding
