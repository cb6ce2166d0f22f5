import HostBinding.Text.Blank

/-!
# File paths as text

A path is kept as it was written, because generated files quote it. Joining puts a separator between the
parts only where there is none, and a path that starts at the root replaces the one it is joined to.
-/

namespace HostBinding.Path

def isAbsolute (path : String) : Bool :=
  path.toList.head? = some '/'

def join (base path : String) : String :=
  if isAbsolute path then path
  else if base.isEmpty || base.toList.getLast? = some '/' then base ++ path
  else base ++ "/" ++ path

def parts (path : String) : List String :=
  (Text.fields (· == '/') path.toList).map String.ofList

def names (path : String) : List String :=
  (parts path).filter fun part => part ≠ "" && part ≠ "."

def ofLocation (location : List String) : String :=
  "/" ++ "/".intercalate location

end HostBinding.Path
