import HostBinding.CType.Spelling
import HostBinding.Declaration
import HostBinding.Document.Basic

/-!
# Serialized declarations

Types travel as their spelling, and records are written with all of their keys. What may be absent is read
as absent when its key is, but a required key has no stand-in.
-/

namespace HostBinding

open Document

namespace CType

def encode (type : CType) : Document :=
  .text type.spell

def decode (doc : Document) : Decoded CType := do
  let spelling ← doc.toText
  match ofSpelling spelling with
  | .ok type => .ok type
  | .error cause => .error (.spelling cause)

end CType

namespace Primitive

def encode : Primitive → Document
  | .bool => .text "bool"
  | .integral kind => .record [("integral", .text kind.name)]
  | .floating kind => .record [("floating-point", .text kind.name)]

def decode : Document → Decoded Primitive
  | .object [(.text "integral", kind)] => (kind.toTagged IntegerKind.ofName?).map .integral
  | .object [(.text "floating-point", kind)] => (kind.toTagged FloatKind.ofName?).map .floating
  | doc => doc.toTagged fun tag => if tag = "bool" then some .bool else none

end Primitive

namespace Operator

def encode (op : Operator) : Document :=
  .text op.tag

def decode (doc : Document) : Decoded Operator :=
  doc.toTagged ofTag?

end Operator

structure NamedTypeDraft where
  name : Option String := none
  type : Option CType := none

namespace FieldDecl

def encode (field : FieldDecl) : Document :=
  .record [("name", .text field.name), ("field-type", field.type.encode)]

def keys : List (Key NamedTypeDraft) :=
  [⟨"name", fun doc draft => return { draft with name := some (← doc.toText) }⟩,
    ⟨"field-type", fun doc draft => return { draft with type := some (← CType.decode doc) }⟩]

def decode (doc : Document) : Decoded FieldDecl := do
  let draft ← readRecord keys {} doc
  return { name := ← ofOption? draft.name, type := ← ofOption? draft.type }

end FieldDecl

namespace StructDecl

def encode (decl : StructDecl) : Document :=
  .record [("name", .text decl.name), ("fields", .list (decl.fields.map FieldDecl.encode)),
    ("comment", ofOption .text decl.comment)]

structure Draft where
  name : Option String := none
  fields : List FieldDecl := []
  comment : Option String := none

def keys : List (Key Draft) :=
  [⟨"name", fun doc draft => return { draft with name := some (← doc.toText) }⟩,
    ⟨"fields", fun doc draft => return { draft with fields := ← doc.toList FieldDecl.decode }⟩,
    ⟨"comment", fun doc draft => return { draft with comment := ← doc.toOption toText }⟩]

def decode (doc : Document) : Decoded StructDecl := do
  let draft ← readRecord keys {} doc
  return { name := ← ofOption? draft.name, fields := draft.fields, comment := draft.comment }

end StructDecl

namespace ParamDecl

def encode (param : ParamDecl) : Document :=
  .record [("name", ofOption .text param.name), ("param-type", param.type.encode)]

def keys : List (Key NamedTypeDraft) :=
  [⟨"name", fun doc draft => return { draft with name := ← doc.toOption toText }⟩,
    ⟨"param-type", fun doc draft => return { draft with type := some (← CType.decode doc) }⟩]

def decode (doc : Document) : Decoded ParamDecl := do
  let draft ← readRecord keys {} doc
  return { name := draft.name, type := ← ofOption? draft.type }

end ParamDecl

namespace FunctionDecl

def encode (decl : FunctionDecl) : Document :=
  .record [("name", .text decl.name), ("return-type", decl.returnType.encode),
    ("params", .list (decl.params.map ParamDecl.encode)),
    ("operator", ofOption Operator.encode decl.operator)]

structure Draft where
  name : Option String := none
  returnType : Option CType := none
  params : List ParamDecl := []
  operator : Option Operator := none

def keys : List (Key Draft) :=
  [⟨"name", fun doc draft => return { draft with name := some (← doc.toText) }⟩,
    ⟨"return-type", fun doc draft => return { draft with returnType := some (← CType.decode doc) }⟩,
    ⟨"params", fun doc draft => return { draft with params := ← doc.toList ParamDecl.decode }⟩,
    ⟨"operator", fun doc draft => return { draft with operator := ← doc.toOption Operator.decode }⟩]

def decode (doc : Document) : Decoded FunctionDecl := do
  let draft ← readRecord keys {} doc
  return {
    name := ← ofOption? draft.name
    returnType := ← ofOption? draft.returnType
    params := draft.params
    operator := draft.operator }

end FunctionDecl

namespace Declarations

def encode (decls : Declarations) : Document :=
  .record [("header", .text decls.header), ("target-arch", ofOption .text decls.targetArch),
    ("header-digest", ofOption .text decls.headerDigest),
    ("structs", .list (decls.structs.map StructDecl.encode)),
    ("functions", .list (decls.functions.map FunctionDecl.encode))]

structure Draft where
  header : Option String := none
  targetArch : Option String := none
  headerDigest : Option String := none
  structs : List StructDecl := []
  functions : List FunctionDecl := []

def keys : List (Key Draft) :=
  [⟨"header", fun doc draft => return { draft with header := some (← doc.toText) }⟩,
    ⟨"target-arch", fun doc draft => return { draft with targetArch := ← doc.toOption toText }⟩,
    ⟨"header-digest", fun doc draft => return { draft with headerDigest := ← doc.toOption toText }⟩,
    ⟨"structs", fun doc draft => return { draft with structs := ← doc.toList StructDecl.decode }⟩,
    ⟨"functions", fun doc draft =>
      return { draft with functions := ← doc.toList FunctionDecl.decode }⟩]

def decode (doc : Document) : Decoded Declarations := do
  let draft ← readRecord keys {} doc
  return {
    header := ← ofOption? draft.header
    targetArch := draft.targetArch
    headerDigest := draft.headerDigest
    structs := draft.structs
    functions := draft.functions }

end Declarations

end HostBinding
