import HostBinding.Document.Basic
import HostBinding.Yaml.Cursor

/-!
# Documents as YAML blocks

A text is written plainly where no reader takes it for anything else, and in the simplest quotes that can hold
it elsewhere. A text of several lines is a block of its own. The items of a list stand at the column of the
key that the list belongs to.
-/

namespace HostBinding.Yaml

/-! ### Texts that would be read as something else -/

/-- Words that some readers take for a truth value, for nothing, or for no number, in any letter case. -/
def readerWords : List String :=
  ["true", "false", "yes", "no", "on", "off", "y", "n", "null", "nil", "~", "nan"]

def startsNumber (c : Char) : Bool :=
  c.isDigit || ['-', '+', '.'].contains c

/-- Whether a reader might take a text for something other than a text if it were written plainly. -/
def isAmbiguous (text : List Char) : Bool :=
  text.head?.all startsNumber || readerWords.contains (String.ofList (text.map Char.toLower))

/-! ### Styles -/

def isPrintable (c : Char) : Bool :=
  isAllowed c && ¬['\t', '\r', '\u0085', '\ufeff'].contains c

/-- Whether a plain text could not start with a character, whatever follows. -/
def isLeadingIndicator (c : Char) : Bool :=
  ['#', ',', '[', ']', '\x7b', '\x7d', '&', '*', '!', '|', '>', '\'', '"', '%', '@', '\x60'].contains c

/-- Whether a text has a colon before a gap, or a number sign after one. -/
def hasInnerIndicator : List Char → Bool
  | [] => false
  | c :: rest =>
    c = ':' && atGap rest || isGap c && rest.head? = some '#' || hasInnerIndicator rest

def hasLeadingIndicator : List Char → Bool
  | [] => false
  | c :: rest => isLeadingIndicator c || c = '?' && atGap rest

def hasPair (p q : Char → Bool) (text : List Char) : Bool :=
  (text.zip text.tail).any fun (c, d) => p c && q d

inductive ScalarStyle where
  | plain | singleQuoted | doubleQuoted | literal
deriving DecidableEq, Repr, Inhabited

def allowsPlain (text : List Char) : Bool :=
  !text.any isBreak && text.head? ≠ some ' ' && text.getLast? ≠ some ' ' &&
    !hasLeadingIndicator text && !hasInnerIndicator text

def ScalarStyle.of (text : String) : ScalarStyle :=
  let chars := text.toList
  if !chars.all isPrintable || hasPair (· = ' ') isBreak chars then .doubleQuoted
  else if chars.contains '\n' then
    if chars.getLast? = some ' ' then .doubleQuoted else .literal
  else if !isAmbiguous chars && allowsPlain chars then .plain
  else if hasPair isBreak (· = ' ') chars then .doubleQuoted
  else .singleQuoted

/-! ### Texts -/

def spaces (count : Nat) : List Char :=
  List.replicate count ' '

def indentLines (indent : Nat) (lineStarts : Bool) : List Char → List Char
  | [] => []
  | c :: rest =>
    if isBreak c then c :: indentLines indent true rest
    else (if lineStarts then spaces indent else []) ++ c :: indentLines indent false rest

/-- The hints after the indicator of a literal block: its indentation, where the text starts with spacing, and
which breaks at its end count. -/
def literalHints (text : List Char) : List Char :=
  let indentHint := if text.head?.any fun c => c = ' ' || isBreak c then ['2'] else []
  let chompHint := match text.reverse with
    | [] => ['-']
    | last :: before =>
      if !isBreak last then ['-'] else if before.head?.all isBreak then ['+'] else []
  indentHint ++ chompHint

def escapeLetters : List (Char × Char) :=
  [('\x00', '0'), ('\x07', 'a'), ('\x08', 'b'), ('\t', 't'), ('\n', 'n'), ('\x0b', 'v'), ('\x0c', 'f'),
    ('\r', 'r'), ('\x1b', 'e'), ('"', '"'), ('\\', '\\'), ('\u0085', 'N'), ('\u2028', 'L'),
    ('\u2029', 'P')]

def hexDigits (width value : Nat) : List Char :=
  let digits := (Nat.toDigits 16 value).map Char.toUpper
  List.replicate (width - digits.length) '0' ++ digits

def escapeChar (c : Char) : List Char :=
  match escapeLetters.lookup c with
  | some letter => ['\\', letter]
  | none =>
    if isPrintable c then [c]
    else if c.toNat ≤ 0xFF then '\\' :: 'x' :: hexDigits 2 c.toNat
    else if c.toNat ≤ 0xFFFF then '\\' :: 'u' :: hexDigits 4 c.toNat
    else '\\' :: 'U' :: hexDigits 8 c.toNat

def scalarText (indent : Nat) (text : String) : List Char :=
  let chars := text.toList
  match ScalarStyle.of text with
  | .plain => chars
  | .singleQuoted =>
    let quoted := (chars.flatMap fun c => if c = '\'' then [c, c] else [c]) ++ ['\'']
    '\'' :: indentLines indent false quoted
  | .doubleQuoted => '"' :: chars.flatMap escapeChar ++ ['"']
  | .literal => '|' :: literalHints chars ++ '\n' :: indentLines indent true chars

def printScalar (indent : Nat) : Document → String
  | .bool true => "true"
  | .bool false => "false"
  | .integer value => toString value
  | .decimal spelling => spelling
  | .text value | .plain value => String.ofList (scalarText indent value)
  | .null | .list _ | .row _ | .object _ => "null"

def lineStart (indent : Nat) : String :=
  String.ofList ('\n' :: spaces indent)

/-- Ends the last line of a text. A literal block may have ended it already, with whichever break. -/
def endLine (text : String) : String :=
  if text.toList.getLast?.any isBreak then text else text ++ "\n"

def stack (indent : Nat) : List String → String
  | [] => ""
  | [part] => part
  | part :: rest => endLine part ++ String.ofList (spaces indent) ++ stack indent rest

mutual

/-- The text of a document that starts at column `indent`. -/
def print (indent : Nat) : Document → String
  | .list [] | .row [] => "[]"
  | .list items | .row items => stack indent (printItems indent items)
  | .object [] => "\x7b\x7d"
  | .object entries => stack indent (printEntries indent entries)
  | scalar => printScalar indent scalar

def printValue (indent : Nat) : Document → String
  | .list (item :: items) | .row (item :: items) =>
    lineStart indent ++ stack indent (printItems indent (item :: items))
  | .object (entry :: entries) =>
    lineStart (indent + 2) ++ stack (indent + 2) (printEntries (indent + 2) (entry :: entries))
  | value => " " ++ print (indent + 2) value

def printItems (indent : Nat) : List Document → List String
  | [] => []
  | item :: rest => ("- " ++ print (indent + 2) item) :: printItems indent rest

def printEntries (indent : Nat) : List (Document × Document) → List String
  | [] => []
  | (key, value) :: rest =>
    (print indent key ++ ":" ++ printValue indent value) :: printEntries indent rest

end

end HostBinding.Yaml

def HostBinding.Document.toYaml (document : Document) : String :=
  Yaml.endLine (Yaml.print 0 document)
