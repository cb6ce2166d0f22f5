/-!
# Fragments

Generated text comes in named units, each of one kind. The kinds are ordered: in a module all units of
one kind stand before those of the next, so a function binding can name any proxy type.
-/

namespace HostBinding

inductive FragmentKind where
  | opening
  | importLine
  | structBinding
  | functionBinding
  | shim
deriving DecidableEq, Repr, Inhabited

namespace FragmentKind

def all : List FragmentKind :=
  [opening, importLine, structBinding, functionBinding, shim]

def tag : FragmentKind → String
  | opening => "prefix"
  | importLine => "import"
  | structBinding => "struct_binding"
  | functionBinding => "function_binding"
  | shim => "shim"

def ofTag? (tag : String) : Option FragmentKind :=
  all.find? (·.tag == tag)

end FragmentKind

/-- What tells a fragment from every other one. -/
structure FragmentId where
  kind : FragmentKind
  /-- The name of a proxy or shim, the head of an implementation, or an import line. -/
  name : String
deriving DecidableEq, Repr, Inhabited

/-- A named unit of generated text. Shims are native text, all other kinds host text. -/
structure Fragment extends FragmentId where
  text : String
deriving DecidableEq, Repr, Inhabited

def Fragment.ofImport (line : String) : Fragment :=
  { kind := .importLine, name := line, text := line ++ "\n" }

end HostBinding
