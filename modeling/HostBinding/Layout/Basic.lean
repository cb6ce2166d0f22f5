import HostBinding.CType.Spelling

/-!
# Sizes, alignments and offsets

Numbers are exact natural numbers. What bounds them is the largest object that the target can address,
and going beyond it is an error of its own rather than a number that wraps.
-/

namespace HostBinding

structure Extent where
  size : Nat
  alignment : Nat
deriving DecidableEq, Repr, Inhabited

structure FieldLayout extends Extent where
  name : String
  nativeType : String
  offset : Nat
deriving DecidableEq, Repr, Inhabited

structure StructLayout extends Extent where
  name : String
  fields : List FieldLayout
deriving DecidableEq, Repr, Inhabited

def StructLayout.field? (layout : StructLayout) (name : String) : Option FieldLayout :=
  layout.fields.find? (·.name = name)

inductive LayoutError where
  | unknownType (name : String)
  | recursive (name : String)
  | unsized (type : CType)
  /-- The object of this type or struct is too large. -/
  | overflow (what : String)
  /-- A field has no layout, for a reason that is no field error itself. -/
  | inField (structName fieldName : String) (type : CType) (reason : LayoutError)
deriving DecidableEq, Repr, Inhabited

def LayoutError.message : LayoutError → String
  | .unknownType name => "'" ++ name ++ "' is not a known struct"
  | .recursive name => "struct '" ++ name ++ "' contains itself by value"
  | .unsized type => "'" ++ type.spell ++ "' has no storage layout"
  | .overflow what => "'" ++ what ++ "' is larger than any object the target can address"
  | .inField structName fieldName type reason =>
    "field '" ++ structName ++ "::" ++ fieldName ++ "' of type '" ++ type.spell ++ "': " ++ reason.message

/-- The size in bytes of the largest object that the target can address. -/
def maxObjectSize : Nat :=
  0x7fffffffffffffff

/-- The least multiple of an alignment that is not below an offset. Alignments 0 and 1 ask for
nothing. -/
def alignUp (offset alignment : Nat) : Nat :=
  if alignment ≤ 1 then offset else (offset + alignment - 1) / alignment * alignment

def alignUp? (offset alignment : Nat) : Option Nat :=
  let aligned := alignUp offset alignment
  if aligned < UInt64.size then some aligned else none

/-- A size that an object can have, or the error that names the object. -/
def boundedSize (what : String) (size : Nat) : Except LayoutError Nat :=
  if size ≤ maxObjectSize then .ok size else .error (.overflow what)

end HostBinding
