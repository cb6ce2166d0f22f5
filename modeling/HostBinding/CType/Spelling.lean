import HostBinding.CType.Basic

/-!
# The canonical spelling of a type

Bounds of arrays stand after everything else, outermost first, so the printer carries them along until
it reaches a type that is no array. Constness stands to the left of a plain target but to the right of
a target that is a pointer: `const float *` against `float * const *`.
-/

namespace HostBinding.CType

def boundText (length : UInt64) : String :=
  "[" ++ toString length.toNat ++ "]"

/-- The spelling of a target under a declarator, given the target's own spelling. -/
def qualify (isConst : Bool) (target : CType) (text declarator : String) : String :=
  match isConst, target with
  | false, _ => text ++ " " ++ declarator
  | true, .pointer _ _ => text ++ " const " ++ declarator
  | true, _ => "const " ++ text ++ " " ++ declarator

/-- The spelling of a type followed by the bounds of the arrays around it. -/
def spellWithin (bounds : String) : CType → String
  | .void => "void" ++ bounds
  | .primitive _ spelling => spelling ++ bounds
  | .named name => name ++ bounds
  | .pointer target isConst => qualify isConst target (spellWithin "" target) "*" ++ bounds
  | .reference target isConst => qualify isConst target (spellWithin "" target) "&" ++ bounds
  | .array element length => spellWithin (bounds ++ boundText length) element

def spell (type : CType) : String :=
  spellWithin "" type

end HostBinding.CType
