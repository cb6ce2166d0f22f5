import HostBinding.Yaml.Scalar.Gap

/-!
# Plain scalars

A plain scalar is a run of words that ends at a comment, at the colon after a key, at a bracket or comma
inside of brackets, and at a line that is not indented enough.
-/

namespace HostBinding.Yaml

/-- Characters that end a word of a plain scalar inside of brackets. -/
def flowIndicators : List Char :=
  [',', '[', ']', '{', '}']

/-- The next word of a plain scalar. There is none where a colon touches a bracket. -/
def plainWord? (inFlow : Bool) : List Char → Option (List Char)
  | [] => some []
  | c :: rest =>
    if isGap c || c = ':' && atGap rest || inFlow && flowIndicators.contains c then some []
    else if inFlow && c = ':' && rest.head?.any ('?' :: flowIndicators).contains then none
    else (plainWord? inFlow rest).map (c :: ·)

/-- Whether a tab stands within the indentation of a line that starts in a gap. -/
def tabIndents (indent : Nat) (gap : List Char) : Bool :=
  ((Text.fields isBreak gap).drop 1).any fun line => (line.take indent).contains '\t'

structure PlainScalar where
  value : List Char := []
  brokeOff : Bool := false
  stop : Cursor
deriving Repr, Inhabited

/-- Reads the words of a plain scalar after `value` and a gap. -/
def plainWords (inFlow : Bool) (indent : Nat) (value gap : List Char) (start : Cursor) :
    Option PlainScalar := do
  let ended : PlainScalar := { value := value, brokeOff := gap.any isBreak, stop := start }
  if start.column = 0 && startsWithSeparator start.rest || start.rest.head? = some '#' then
    return ended
  let word ← plainWord? inFlow start.rest
  if _h : 0 < word.length ∧ 0 < start.rest.length then
    let value := value ++ foldGap gap ++ word
    let after := start.advance word.length
    let gap := after.rest.takeWhile isGap
    if tabIndents indent gap then failure
    let stop := after.advance gap.length
    if gap.isEmpty || !inFlow && stop.column < indent then
      return { value := value, brokeOff := gap.any isBreak, stop := stop }
    plainWords inFlow indent value gap stop
  else return ended
termination_by start.rest.length
decreasing_by
  simp only [Cursor.rest_advance, List.length_drop]
  omega

/-- Reads a plain scalar. Outside of brackets its lines are indented by `indent` at least. -/
def readPlain (inFlow : Bool) (indent : Nat) (start : Cursor) : Option PlainScalar :=
  plainWords inFlow indent [] [] start

end HostBinding.Yaml
