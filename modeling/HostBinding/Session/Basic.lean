import HostBinding.BindingError
import HostBinding.Config
import HostBinding.Mapping
import HostBinding.OutputModule
import HostBinding.Session.Key

/-!
# Sessions

A session is everything that has been rendered for one module: the renderings by declaration, the
fragments with the declaration that each belongs to, the registered proxies, and the headers. A
declaration enters it as a whole or not at all. Where a declaration may take over fragments of another
one, the other's rendering is no longer what the session holds, so it is forgotten.
-/

namespace HostBinding

structure Proxy extends Extent where
  nativeName : String
  hostName : String
  model : ProxyModel
deriving DecidableEq, Repr, Inhabited

structure Rendering where
  fragments : List Fragment
  includes : List String
  proxy : Option Proxy := none
deriving DecidableEq, Repr, Inhabited

structure Stored where
  owner : DeclKey
  text : String
deriving DecidableEq, Repr, Inhabited

structure Session where
  config : Config := {}
  renderings : Table DeclKey Rendering := ∅
  fragments : Table FragmentId Stored := ∅
  proxies : Table String Proxy := ∅
  includes : List String := []
deriving DecidableEq, Inhabited

namespace Session

def reset (s : Session) : Session :=
  { config := s.config }

def proxy? (s : Session) (nativeName : String) : Option Proxy :=
  s.proxies.get? nativeName

def hostName? (s : Session) (nativeName : String) : Option String :=
  (s.proxy? nativeName).map (·.hostName)

def hasRendered (s : Session) (kind : DeclKind) (name : String) : Bool :=
  s.renderings.keys.any fun key => key.kind = kind ∧ key.name = name

def fragment? (s : Session) (id : FragmentId) : Option Fragment :=
  (s.fragments.get? id).map fun stored => { toFragmentId := id, text := stored.text }

/-- The stored fragments, in the order in which their names were first used. -/
def fragmentList (s : Session) : List Fragment :=
  s.fragments.entries.map fun entry => { toFragmentId := entry.1, text := entry.2.text }

/-- A module that holds only the opening of every generated module. -/
def emptyModule (s : Session) : OutputModule :=
  let allowances := "#![allow(non_camel_case_types, non_snake_case, non_upper_case_globals, " ++
    "dead_code, unused_imports, clippy::all)]"
  { shimSourceIdent := s.config.shimSourceIdent
    added := [{ kind := .opening, name := "prefix", text := banner ++ "\n" ++ allowances ++ "\n" }] }

/-- Everything that has been rendered, as one module. -/
def assemble (s : Session) : OutputModule :=
  s.includes.foldl OutputModule.addInclude (s.emptyModule.extend s.fragmentList)

def fragmentCollision? (s : Session) (key : DeclKey) (rendering : Rendering) :
    Option BindingError :=
  rendering.fragments.findSome? fun fragment =>
    if fragment.kind = .importLine then none
    else (s.fragments.get? fragment.toFragmentId).bind fun stored =>
      if stored.owner = key then none
      else some (.nameCollision fragment.name stored.owner.name key.name)

def proxyCollision? (s : Session) (rendering : Rendering) : Option BindingError :=
  rendering.proxy.bind fun proxy =>
    (s.proxies.get? proxy.nativeName).bind fun existing =>
      if existing = proxy then none
      else some (.nameCollision proxy.nativeName existing.hostName proxy.hostName)

/-- Stores a fragment for a declaration. An import line that is there already stays as it is. -/
def storeFragment (key : DeclKey) (stored : Table FragmentId Stored) (fragment : Fragment) :
    Table FragmentId Stored :=
  if fragment.kind = .importLine ∧ stored.contains fragment.toFragmentId then stored
  else stored.insert fragment.toFragmentId ⟨key, fragment.text⟩

/-- Whether a rendering takes over a fragment of another declaration. -/
def displaces (s : Session) (key : DeclKey) (rendering : Rendering) (owner : DeclKey) : Bool :=
  owner ≠ key && rendering.fragments.any fun fragment =>
    fragment.kind ≠ .importLine &&
      (s.fragments.get? fragment.toFragmentId).any (·.owner = owner)

def addHeader (headers : List String) (header : String) : List String :=
  if header ∈ headers then headers else headers ++ [header]

def accept (s : Session) (key : DeclKey) (rendering : Rendering) : Session :=
  let kept := s.renderings.filter fun owner _ => !s.displaces key rendering owner
  { config := s.config
    renderings := kept.insert key rendering
    fragments := rendering.fragments.foldl (storeFragment key) s.fragments
    proxies := rendering.proxy.elim s.proxies fun proxy => s.proxies.insert proxy.nativeName proxy
    includes := rendering.includes.foldl addHeader s.includes }

/-- Enters a rendering into the session. `replaceable` renderings may take over fragments of other
declarations when the configuration lets the last one win. -/
def commit (s : Session) (key : DeclKey) (rendering : Rendering) (replaceable : Bool) :
    Except BindingError Session :=
  let mayReplace := replaceable && s.config.operatorOverride = .lastWins
  match (if mayReplace then none else s.fragmentCollision? key rendering) <|>
      s.proxyCollision? rendering with
  | some cause => .error cause
  | none => .ok (s.accept key rendering)

/-- Renders declarations in order and collects what they render to, until one fails. What was committed
before that stays. -/
def renderEach {σ δ : Type} (step : σ → δ → Except BindingError (Rendering × σ)) :
    σ → OutputModule → List δ → σ × Except BindingError OutputModule
  | state, collected, [] => (state, .ok collected)
  | state, collected, decl :: rest =>
    match step state decl with
    | .error cause => (state, .error cause)
    | .ok (rendering, state) =>
      let collected := rendering.includes.foldl OutputModule.addInclude collected
      renderEach step state (collected.extend rendering.fragments) rest

end Session

end HostBinding
