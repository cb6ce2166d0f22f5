import HostBinding.Declaration
import HostBinding.Layout.Basic
import HostBinding.Table

/-!
# Laying out structs

Every field stands at the next offset that its alignment allows, a struct has the largest alignment of
its fields, and its size is rounded up to that; a struct without fields takes one byte. A field that is a
struct itself is laid out first. While that goes on the names of the structs around it are remembered:
meeting one of them again means that a struct contains itself, and since only declared structs are ever
remembered, and each once, the descent ends.
-/

namespace HostBinding

/-- The structs that can be laid out, and what is known about layouts so far. -/
structure Resolver where
  pointerWidth : Nat
  structs : List StructDecl
  /-- Structs laid out elsewhere. Inside other types they count before declared ones. -/
  known : Table String Extent := ∅
  memo : Table String StructLayout := ∅

namespace Resolver

/-- The declaration of a struct: of several with one name, the last. -/
def declared? (r : Resolver) (name : String) : Option StructDecl :=
  r.structs.reverse.find? (·.name = name)

def isDeclared (r : Resolver) (name : String) : Bool :=
  (r.declared? name).isSome

def addKnown (r : Resolver) (name : String) (extent : Extent) : Resolver :=
  { r with known := r.known.insert name extent }

/-- A computation that may fail and remembers the layouts it has found either way. -/
abbrev Memoized (α : Type) := ExceptT LayoutError (StateM (Table String StructLayout)) α

def typeExtent (pointerWidth : Nat) (namedExtent : String → Memoized Extent) :
    CType → Memoized Extent
  | .void => throw (.unsized .void)
  | .reference target isConst => throw (.unsized (.reference target isConst))
  | .primitive kind _ => pure ⟨kind.size, kind.size⟩
  | .pointer _ _ => pure ⟨pointerWidth, pointerWidth⟩
  | .named name => namedExtent name
  | .array element length => do
    let extent ← typeExtent pointerWidth namedExtent element
    match boundedSize (CType.array element length).spell (extent.size * length.toNat) with
    | .ok size => pure ⟨size, extent.alignment⟩
    | .error cause => throw cause

/-- The error of a field whose type has no layout. One that names a field already is kept. -/
def blame (structName : String) (field : FieldDecl) : LayoutError → LayoutError
  | .inField s f type reason => .inField s f type reason
  | cause => .inField structName field.name field.type cause

/-- A struct whose first fields have been placed. -/
structure Placement where
  stop : Nat := 0
  alignment : Nat := 1
  fields : List FieldLayout := []

def Placement.push (placed : Placement) (structName : String) (field : FieldDecl) (extent : Extent) :
    Except LayoutError Placement :=
  let offset := alignUp placed.stop extent.alignment
  if offset + extent.size ≤ maxObjectSize then
    .ok {
      stop := offset + extent.size
      alignment := max placed.alignment extent.alignment
      fields := placed.fields ++
        [{ toExtent := extent, name := field.name, nativeType := field.type.spell, offset := offset }] }
  else .error (.inField structName field.name field.type (.overflow structName))

def Placement.close (placed : Placement) (structName : String) : Except LayoutError StructLayout :=
  let size := if placed.fields.isEmpty then .ok 1
    else boundedSize structName (alignUp placed.stop placed.alignment)
  size.map fun size =>
    { size := size, alignment := placed.alignment, name := structName, fields := placed.fields }

/-- Lays out the fields of a struct in order, given the extent of each field's type. -/
def placeFields (extentOf : CType → Memoized Extent) (structName : String) :
    List FieldDecl → Placement → Memoized StructLayout
  | [], placed => liftExcept (placed.close structName)
  | field :: rest, placed => do
    let extent ← tryCatch (extentOf field.type) fun cause => throw (blame structName field cause)
    let placed ← liftExcept (placed.push structName field extent)
    placeFields extentOf structName rest placed
where
  liftExcept {α : Type} : Except LayoutError α → Memoized α
    | .ok value => pure value
    | .error cause => throw cause

/-- Names of declared structs that are not in progress: what is left for the descent. -/
def remaining (structs : List StructDecl) (inProgress : List String) : List String :=
  (structs.map StructDecl.name).filter (!inProgress.contains ·)

private theorem remaining_cons (structs : List StructDecl) (inProgress : List String) (name : String) :
    remaining structs (name :: inProgress) = (remaining structs inProgress).filter (· ≠ name) := by
  unfold remaining
  rw [List.filter_filter]
  congr 1
  funext k
  simp

theorem length_remaining_lt {structs : List StructDecl} {inProgress : List String} {name : String}
    (hdeclared : name ∈ structs.map StructDecl.name) (hfresh : name ∉ inProgress) :
    (remaining structs (name :: inProgress)).length < (remaining structs inProgress).length := by
  rw [remaining_cons, List.length_filter_lt_length_iff_exists]
  exact ⟨name, List.mem_filter.mpr ⟨hdeclared, by simpa using hfresh⟩, by simp⟩

theorem mem_of_declared? {r : Resolver} {name : String} {decl : StructDecl}
    (h : r.declared? name = some decl) : decl ∈ r.structs ∧ decl.name = name :=
  ⟨List.mem_reverse.mp (List.mem_of_find?_eq_some h), by simpa using List.find?_some h⟩

theorem mem_names_of_declared? {r : Resolver} {name : String} {decl : StructDecl}
    (h : r.declared? name = some decl) : name ∈ r.structs.map StructDecl.name :=
  List.mem_map.mpr ⟨decl, mem_of_declared? h⟩

/-- The extent of a named struct: that of a known one, or else of its layout. -/
def namedExtent (known : Table String Extent) (layoutOf : String → Memoized StructLayout)
    (name : String) : Memoized Extent :=
  match known.get? name with
  | some extent => pure extent
  | none => do
    let layout ← layoutOf name
    pure layout.toExtent

/-- Lays out a struct while the structs named in `inProgress` are being laid out around it. -/
def layoutWithin (r : Resolver) (inProgress : List String) (name : String) :
    Memoized StructLayout := do
  match (← get).get? name with
  | some layout => pure layout
  | none =>
    if _hfresh : name ∈ inProgress then throw (.recursive name)
    else match _hdecl : r.declared? name with
      | none => throw (.unknownType name)
      | some decl =>
        let extentOf := typeExtent r.pointerWidth
          (namedExtent r.known fun inner => r.layoutWithin (name :: inProgress) inner)
        let layout ← placeFields extentOf decl.name decl.fields {}
        modify (·.insert name layout)
        pure layout
termination_by (remaining r.structs inProgress).length
decreasing_by exact length_remaining_lt (mem_names_of_declared? _hdecl) _hfresh

/-- Runs a computation on the layouts found so far and keeps those that it finds. -/
def run {α : Type} (r : Resolver) (computation : Memoized α) : Except LayoutError α × Resolver :=
  let (result, memo) := computation.run.run r.memo
  (result, { r with memo := memo })

def resolve (r : Resolver) (name : String) : Except LayoutError StructLayout × Resolver :=
  r.run (r.layoutWithin [] name)

def extent (r : Resolver) (type : CType) : Except LayoutError Extent × Resolver :=
  r.run (typeExtent r.pointerWidth (namedExtent r.known (r.layoutWithin [])) type)

end Resolver

end HostBinding
