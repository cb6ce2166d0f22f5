import HostBinding.Yaml.Cursor

/-!
# Gaps in scalars

A gap between two words of a scalar is a run of spacing and breaks. Without a break it stands for itself.
One line feed folds to a space, of more of them the first one is lost, and so is all spacing around
breaks.
-/

namespace HostBinding.Yaml

def foldGap (gap : List Char) : List Char :=
  match gap.filter isBreak with
  | [] => gap
  | ['\n'] => [' ']
  | '\n' :: more => more
  | breaks => breaks

end HostBinding.Yaml
