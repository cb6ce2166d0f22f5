import HostBinding.Text.Numeral
import HostBinding.Yaml.Scalar.Gap

/-!
# Quoted scalars

Between single quotes only the quote is written in a way of its own, twice. Between double quotes a
backslash starts an escape, and a backslash at the end of a line joins the line to the next one.
-/

namespace HostBinding.Yaml

/-- Whether the line after a gap separates documents, which no quoted scalar may hold. -/
def cutOff (gap rest : List Char) : Bool :=
  gap.getLast?.all isBreak && startsWithSeparator rest

def readSingleQuoted (text : List Char) : Option (List Char × List Char) :=
  match text with
  | [] => none
  | '\'' :: '\'' :: rest => do
    let (value, rest) ← readSingleQuoted rest
    return ('\'' :: value, rest)
  | '\'' :: rest => some ([], rest)
  | c :: rest => do
    if isGap c then
      let gap := c :: rest.takeWhile isGap
      let after := rest.dropWhile isGap
      if cutOff gap after then failure
      let (value, rest) ← readSingleQuoted after
      return (foldGap gap ++ value, rest)
    else
      let (value, rest) ← readSingleQuoted rest
      return (c :: value, rest)
termination_by text.length
decreasing_by
  all_goals grind [Text.length_dropWhile_le]

def simpleEscapes : List (Char × Char) :=
  [('0', '\x00'), ('a', '\x07'), ('b', '\x08'), ('t', '\t'), ('\t', '\t'), ('n', '\n'), ('v', '\x0b'),
    ('f', '\x0c'), ('r', '\r'), ('e', '\x1b'), (' ', ' '), ('"', '"'), ('/', '/'), ('\\', '\\'),
    ('N', '\u0085'), ('_', '\u00a0'), ('L', '\u2028'), ('P', '\u2029')]

/-- The escapes that give a code point, and how many digits they have. -/
def codeEscapes : List (Char × Nat) :=
  [('x', 2), ('u', 4), ('U', 8)]

/-- The character that an escape after a backslash stands for, and the length of the escape. -/
def readEscape? : List Char → Option (Char × Nat)
  | [] => none
  | c :: rest =>
    match simpleEscapes.lookup c with
    | some value => some (value, 1)
    | none => do
      let width ← codeEscapes.lookup c
      let code ← Text.readDigits? 16 (rest.take width)
      if rest.length < width || !code.isValidChar then failure
      return (Char.ofNat code, width + 1)

/-- The value of a double-quoted scalar after its opening quote, and what follows its closing quote. Behind
a backslash a break joins the lines around it. -/
def readDoubleQuoted (text : List Char) : Option (List Char × List Char) :=
  match text with
  | [] => none
  | '"' :: rest => some ([], rest)
  | '\\' :: rest => do
    if rest.head?.any isBreak then
      let gap := (rest.drop 1).takeWhile isGap
      let after := (rest.drop 1).dropWhile isGap
      if cutOff gap after then failure
      let (value, rest) ← readDoubleQuoted after
      return (gap.filter isBreak ++ value, rest)
    else
      let (c, width) ← readEscape? rest
      let (value, rest) ← readDoubleQuoted (rest.drop width)
      return (c :: value, rest)
  | c :: rest => do
    if isGap c then
      let gap := c :: rest.takeWhile isGap
      let after := rest.dropWhile isGap
      if cutOff gap after then failure
      let (value, rest) ← readDoubleQuoted after
      return (foldGap gap ++ value, rest)
    else
      let (value, rest) ← readDoubleQuoted rest
      return (c :: value, rest)
termination_by text.length
decreasing_by
  all_goals grind [Text.length_dropWhile_le]

end HostBinding.Yaml
