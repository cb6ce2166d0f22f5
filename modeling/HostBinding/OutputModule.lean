import HostBinding.Fragment
import HostBinding.Text.RawString

/-!
# Generated modules

A module collects fragments and the headers that its shims include. Fragments are kept in the order in
which they came, and what is written is their stable partition by kind, so the order in which fragments
of different kinds come in has no effect on the output. An import line is kept once.
-/

namespace HostBinding

def banner : String :=
  "// Generated by bind-gen. Do not edit."

/-- Which of the shared segments are written; bindings always are. -/
structure Segments where
  opening : Bool := true
  imports : Bool := true
  shims : Bool := true
deriving DecidableEq, Repr, Inhabited

def Segments.bindingsOnly : Segments :=
  ⟨false, false, false⟩

def Segments.includes (segments : Segments) : FragmentKind → Bool
  | .opening => segments.opening
  | .importLine => segments.imports
  | .structBinding | .functionBinding => true
  | .shim => segments.shims

structure OutputModule where
  shimSourceIdent : String
  added : List Fragment := []
  includes : List String := []
deriving DecidableEq, Repr, Inhabited

namespace OutputModule

def ofKind (m : OutputModule) (kind : FragmentKind) : List Fragment :=
  m.added.filter (·.kind = kind)

/-- Adds a fragment, unless it is an import line that the module has. -/
def push (m : OutputModule) (fragment : Fragment) : OutputModule :=
  if fragment.kind = .importLine ∧ m.added.any (·.toFragmentId = fragment.toFragmentId) then m
  else { m with added := m.added ++ [fragment] }

def extend (m : OutputModule) (fragments : List Fragment) : OutputModule :=
  fragments.foldl push m

def addInclude (m : OutputModule) (header : String) : OutputModule :=
  if header ∈ m.includes then m else { m with includes := m.includes ++ [header] }

def fragments (m : OutputModule) : List Fragment :=
  FragmentKind.all.flatMap m.ofKind

def isEmpty (m : OutputModule) : Bool :=
  m.added.all (·.kind = .opening)

/-- The text of one section. Import lines follow one another, other fragments are set apart by an empty
line. -/
def sectionText (m : OutputModule) (kind : FragmentKind) : String :=
  let separator := if kind = .importLine then "" else "\n"
  separator.intercalate ((m.ofKind kind).map (·.text))

/-- The native source of all shims, after the headers that they include. -/
def shimSource (m : OutputModule) : String :=
  let includeLines := m.includes.map fun header => "#include \"" ++ header ++ "\"\n"
  let shims := m.sectionText .shim
  banner ++ "\n#include <cstddef>\n#include <cstdint>\n" ++ String.join includeLines ++
    if shims.isEmpty then "" else "\n" ++ shims

def shimConstant (m : OutputModule) : String :=
  "/// Native shim source; compile it and link the object with this module.\npub const " ++
    m.shimSourceIdent ++ ": &str = " ++ Text.rawString m.shimSource ++ ";\n"

/-- The text of the chosen segments, each set apart by an empty line. -/
def text (m : OutputModule) (segments : Segments) : String :=
  let kinds := FragmentKind.all.filter fun kind =>
    segments.includes kind && !(m.ofKind kind).isEmpty
  "\n".intercalate <| kinds.map fun kind =>
    if kind = .shim then m.shimConstant else m.sectionText kind

end OutputModule

end HostBinding
