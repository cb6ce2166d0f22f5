import HostBinding.CType.Basic
import HostBinding.Text.Identifier

/-!
# Mangled types

A mangled type is a text that can stand inside an identifier: the markers of the declarators from the
outside in, then the leaf, joined by underscores.
-/

namespace HostBinding.CType

def mangle : CType → String
  | .void => "void"
  | .primitive kind _ => kind.mangled
  | .named name => Text.sanitize name
  | .pointer target true => "cptr_" ++ target.mangle
  | .pointer target false => "ptr_" ++ target.mangle
  | .reference target true => "cref_" ++ target.mangle
  | .reference target false => "ref_" ++ target.mangle
  | .array element length => "arr" ++ toString length.toNat ++ "_" ++ element.mangle

/-- The part of a symbol that stands for a list of parameter types; the empty list is `void`. -/
def mangleAll : List CType → String
  | [] => "void"
  | types => "_".intercalate (types.map mangle)

end HostBinding.CType
