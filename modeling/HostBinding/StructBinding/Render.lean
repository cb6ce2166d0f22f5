import HostBinding.Layout.Resolver
import HostBinding.Session.Basic
import HostBinding.StructBinding.Text

/-!
# Rendering structs

A batch of structs shares one resolver, which knows the proxies that the session had when the batch
began. A struct whose key the session holds is answered from there. Any other is laid out, its fields get
host types, and the result is committed.
-/

namespace HostBinding

def erasedImport : String :=
  "use core::ffi::" ++ HostType.erasedName ++ ";"

structure StructBatch where
  structs : List StructDecl
  mapping : Mapping
  digest : Option String := none
deriving DecidableEq, Inhabited

namespace StructBatch

open StructBinding

/-- The key of a struct: its header, its own declaration and its mapping entry. -/
def key (batch : StructBatch) (decl : StructDecl) (entry : TypeMapping) : DeclKey where
  kind := .struct
  name := decl.name
  parts := [entry.header, batch.digest.getD "", "struct", decl.name] ++
    (decl.fields.flatMap fun field => [field.name, field.type.spell]) ++
    [decl.comment.getD "", entry.hostNameFor decl.name, entry.model.tag]

/-- The proxy name of a struct: that of a registered proxy, or else the name that the mapping or the batch
itself will give to it. -/
def hostName? (batch : StructBatch) (session : Session) (name : String) : Option String :=
  session.hostName? name <|>
    (batch.mapping.get? name).map (fun entry => Text.sanitize (entry.hostNameFor name)) <|>
    if batch.structs.any (·.name = name) then some (Text.sanitize name) else none

def proxyField (batch : StructBatch) (session : Session) (structName : String) (field : FieldDecl)
    (offset : Nat) : Except BindingError ProxyField :=
  match field.type.host? (batch.hostName? session) with
  | none => .error (.unstorableField structName field.name field.type)
  | some type => .ok {
      nativeName := field.name
      ident := Text.escapeKeyword field.name
      type := type
      offset := offset }

def proxyFields (batch : StructBatch) (session : Session) (decl : StructDecl)
    (layout : StructLayout) : Except BindingError (List ProxyField) :=
  (decl.fields.zip layout.fields).mapM fun (field, fieldLayout) =>
    batch.proxyField session decl.name field fieldLayout.offset

def body (batch : StructBatch) (session : Session) (decl : StructDecl) (model : ProxyModel)
    (layout : StructLayout) : Except BindingError ProxyBody :=
  match model with
  | .bytes => .ok .bytes
  | .fieldwise => (batch.proxyFields session decl layout).map .fieldwise

def importLines : ProxyBody → List String
  | .bytes => []
  | .fieldwise fields => if fields.any (·.type.mentionsErased) then [erasedImport] else []

def describe (decl : StructDecl) (entry : TypeMapping) (layout : StructLayout) : ProxyText where
  nativeName := decl.name
  hostName := Text.sanitize (entry.hostNameFor decl.name)
  header := entry.header
  comment := decl.comment
  layout := layout

def written (decl : StructDecl) (entry : TypeMapping) (layout : StructLayout) (body : ProxyBody) :
    Rendering :=
  let text := describe decl entry layout
  { fragments := (importLines body).map Fragment.ofImport ++
      [{ kind := .structBinding, name := text.hostName, text := text.write body },
        { kind := .shim, name := "static_assert " ++ decl.name,
          text := nativeAssertions decl.name layout }]
    includes := [entry.header]
    proxy := some {
      toExtent := layout.toExtent
      nativeName := decl.name
      hostName := text.hostName
      model := entry.model } }

def rendering (batch : StructBatch) (session : Session) (decl : StructDecl) (entry : TypeMapping)
    (layout : StructLayout) : Except BindingError Rendering :=
  (batch.body session decl entry.model layout).map (written decl entry layout)

def build (batch : StructBatch) (state : Session × Resolver) (decl : StructDecl)
    (entry : TypeMapping) : Except BindingError (Rendering × Resolver) :=
  match state.2.resolve decl.name with
  | (.error cause, _) => .error (.noLayout decl.name cause)
  | (.ok layout, resolver) => do
    let rendering ← batch.rendering state.1 decl entry layout
    return (rendering, resolver)

/-- Renders one struct, with what is known about layouts carried along. -/
def step (batch : StructBatch) (state : Session × Resolver) (decl : StructDecl) :
    Except BindingError (Rendering × Session × Resolver) :=
  match batch.mapping.get? decl.name with
  | none => .error (.missingMapping decl.name)
  | some entry =>
    let key := batch.key decl entry
    match state.1.renderings.get? key with
    | some held => .ok (held, state)
    | none => do
      let (rendering, resolver) ← batch.build state decl entry
      let session ← state.1.commit key rendering false
      return (rendering, session, resolver)

def resolver (batch : StructBatch) (session : Session) : Resolver where
  pointerWidth := session.config.pointerWidth.toNat
  structs := batch.structs
  known := session.proxies.mapValues (·.toExtent)

/-- Renders a batch into a session. The module holds what this batch renders to. -/
def render (batch : StructBatch) (session : Session) :
    Session × Except BindingError OutputModule :=
  let (state, result) :=
    Session.renderEach batch.step (session, batch.resolver session) session.emptyModule
      batch.structs
  (state.1, result)

end StructBatch

end HostBinding
