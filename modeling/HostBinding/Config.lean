/-!
# Configuration

What can be chosen about generated bindings, with the defaults that hold when a choice is left out.
-/

namespace HostBinding

/-- What happens when an operator implementation is registered twice for the same operand types. -/
inductive OverridePolicy where
  | reject
  | lastWins
deriving DecidableEq, Repr, Inhabited

namespace OverridePolicy

def all : List OverridePolicy :=
  [reject, lastWins]

def tag : OverridePolicy → String
  | reject => "reject"
  | lastWins => "last-wins"

def ofTag? (tag : String) : Option OverridePolicy :=
  all.find? (·.tag == tag)

end OverridePolicy

structure Config where
  shimStart : String := "__bind_shim_"
  /-- Qualifiers between the linkage and the return type of a shim. -/
  shimQualifiers : String := ""
  /-- The name of the host constant that holds the shim source. -/
  shimSourceIdent : String := "SHIM_SOURCE"
  /-- The largest size in bytes of a value that a shim returns directly; without a limit every value goes
  through an output parameter. -/
  byValueReturnLimit : Option UInt64 := none
  operatorOverride : OverridePolicy := .reject
  /-- Size and alignment of a pointer in bytes. -/
  pointerWidth : UInt64 := 8
deriving DecidableEq, Repr, Inhabited

end HostBinding
