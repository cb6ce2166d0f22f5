import HostBinding.Document.Basic
import HostBinding.Yaml.Scalar.Block
import HostBinding.Yaml.Scalar.Plain
import HostBinding.Yaml.Scalar.Quoted

/-!
# Tokens

Indentation becomes tokens that open and close blocks. A key shows itself only by the colon after it, so
where one may start is remembered, and the colon puts the key's token there, and the token that opens a block if
this is its first key. Where a line of a block can hold nothing but a key, a missing colon is an error.
-/

namespace HostBinding.Yaml

inductive Token where
  | documentStart
  | documentEnd
  | blockList
  | blockObject
  | blockEnd
  | flowList
  | flowListEnd
  | flowObject
  | flowObjectEnd
  | separator
  | item
  | key
  | value
  | scalar (content : Document)
deriving Repr, Inhabited

structure KeyStart where
  position : Nat
  line : Nat
  column : Nat
  offset : Nat
  /-- Whether nothing but a key can start there. -/
  required : Bool
deriving DecidableEq, Repr, Inhabited

/-- The most bytes from the start of a key to its colon. -/
def keyLimit : Nat :=
  1024

def KeyStart.reaches (start : KeyStart) (cursor : Cursor) : Bool :=
  start.line = cursor.line && cursor.offset ≤ start.offset + keyLimit

structure Lexer where
  cursor : Cursor
  tokens : Array Token := #[]
  /-- The columns of the open blocks, innermost first. -/
  blocks : List Nat := []
  keyStart : Option KeyStart := none
  /-- The key starts outside of each open bracket, innermost first. -/
  outer : List (Option KeyStart) := []
  keyAllowed : Bool := true
deriving Repr, Inhabited

namespace Lexer

def inFlow (l : Lexer) : Bool :=
  !l.outer.isEmpty

/-- The least indentation of a line that continues a scalar. -/
def indent (l : Lexer) : Nat :=
  l.blocks.head?.elim 0 (· + 1)

def push (l : Lexer) (token : Token) : Lexer :=
  { l with tokens := l.tokens.push token }

def pushIndicator (l : Lexer) (token : Token) (length : Nat) : Lexer :=
  { l.push token with cursor := l.cursor.advance length }

/-- Opens a block at a column, unless one is open there. Brackets hold no blocks. -/
def openBlock (l : Lexer) (token : Token) (column position : Nat) : Lexer :=
  if !l.inFlow && l.blocks.head?.all (· < column) then
    { l with tokens := l.tokens.insertIdxIfInBounds position token, blocks := column :: l.blocks }
  else l

def closeBlocks (l : Lexer) (p : Nat → Bool) : Lexer :=
  if l.inFlow then l
  else
    { l with
      tokens := l.tokens ++ Array.replicate (l.blocks.takeWhile p).length .blockEnd
      blocks := l.blocks.dropWhile p }

/-- Gives up the key that may have started, unless it was required. -/
def dropKey (l : Lexer) : Option Lexer :=
  if l.keyStart.any (·.required) then none else some { l with keyStart := none }

def markKey (l : Lexer) : Option Lexer := do
  if l.keyAllowed then
    let l ← l.dropKey
    return { l with keyStart := some {
      position := l.tokens.size
      line := l.cursor.line
      column := l.cursor.column
      offset := l.cursor.offset
      required := !l.inFlow && l.blocks.head? = some l.cursor.column } }
  else return l

/-- Passes blanks, comments and breaks. Outside of brackets a tab is no blank where a key may start, and
a key may start after a break. -/
def skipBlanks (l : Lexer) : Lexer :=
  let start :=
    if l.cursor.column = 0 && l.cursor.rest.head? = some '\ufeff' then l.cursor.next else l.cursor
  let blanks := start.skipWhile fun c => c = ' ' || c = '\t' && (l.inFlow || !l.keyAllowed)
  let stop := if blanks.rest.head? = some '#' then blanks.skipWhile (!isBreak ·) else blanks
  if _hbreak : stop.rest.head?.any isBreak then
    skipBlanks { l with cursor := stop.next, keyAllowed := !l.inFlow || l.keyAllowed }
  else { l with cursor := stop }
termination_by l.cursor.rest.length
decreasing_by
  have hstart : start.rest.length ≤ l.cursor.rest.length := by
    unfold start
    split
    · exact l.cursor.length_next_le
    · exact Nat.le_refl _
  have hblanks : blanks.rest.length ≤ start.rest.length := start.length_skipWhile_le _
  have hstop : stop.rest.length ≤ blanks.rest.length := by
    unfold stop
    split
    · exact blanks.length_skipWhile_le _
    · exact Nat.le_refl _
  have hnext : stop.next.rest.length < stop.rest.length := by
    refine Cursor.length_next_lt fun hempty => ?_
    simp [hempty] at _hbreak
  show stop.next.rest.length < l.cursor.rest.length
  omega

def lexSeparator (l : Lexer) (token : Token) : Option Lexer := do
  let l ← (l.closeBlocks fun _ => true).dropKey
  return { l.pushIndicator token 3 with keyAllowed := false }

def lexOpening (l : Lexer) (token : Token) : Option Lexer := do
  let l ← l.markKey
  return { l.pushIndicator token 1 with
    keyStart := none, outer := l.keyStart :: l.outer, keyAllowed := true }

def lexClosing (l : Lexer) (token : Token) : Option Lexer := do
  let l ← l.dropKey
  return { l.pushIndicator token 1 with
    keyStart := l.outer.head?.getD l.keyStart, outer := l.outer.tail, keyAllowed := false }

def lexComma (l : Lexer) : Option Lexer := do
  let l ← l.dropKey
  return { l.pushIndicator .separator 1 with keyAllowed := true }

/-- A place where an indicator starts an entry of a block, which is opened if need be. -/
def openEntry (l : Lexer) (token : Token) : Option Lexer :=
  if l.inFlow then some l
  else if l.keyAllowed then some (l.openBlock token l.cursor.column l.tokens.size)
  else none

def lexItem (l : Lexer) : Option Lexer := do
  let l ← (← l.openEntry .blockList).dropKey
  return { l.pushIndicator .item 1 with keyAllowed := true }

def lexKey (l : Lexer) : Option Lexer := do
  let l ← (← l.openEntry .blockObject).dropKey
  return { l.pushIndicator .key 1 with keyAllowed := !l.inFlow }

/-- A colon ends the key that has started in reach. Without one it belongs to a key that has a token of its
own. -/
def lexColon (l : Lexer) : Option Lexer := do
  match l.keyStart.filter (·.reaches l.cursor) with
  | some start =>
    let l := { l with
      tokens := l.tokens.insertIdxIfInBounds start.position .key
      keyStart := none
      keyAllowed := false }
    return (l.openBlock .blockObject start.column start.position).pushIndicator .value 1
  | none =>
    let l ← (← l.dropKey).openEntry .blockObject
    return { l.pushIndicator .value 1 with keyAllowed := !l.inFlow }

def lexPlain (l : Lexer) : Option Lexer := do
  let l ← l.markKey
  let plain ← readPlain l.inFlow l.indent l.cursor
  return { l.push (.scalar (.plain (String.ofList plain.value))) with
    cursor := plain.stop, keyAllowed := plain.brokeOff }

def lexQuoted (l : Lexer) (read : List Char → Option (List Char × List Char)) : Option Lexer := do
  let l ← l.markKey
  let (value, rest) ← read (l.cursor.rest.drop 1)
  return { l.push (.scalar (.text (String.ofList value))) with
    cursor := l.cursor.advanceTo rest, keyAllowed := false }

def lexBlock (l : Lexer) (folded : Bool) : Option Lexer := do
  if l.inFlow then failure
  let l ← l.dropKey
  let (value, rest) ← readBlock folded l.indent (l.cursor.rest.drop 1)
  return { l.push (.scalar (.text (String.ofList value))) with
    cursor := l.cursor.advanceTo rest, keyAllowed := true }

/-- Characters that start no token. Some would start what is not supported: directives, tags, anchors and
aliases. -/
def reserved : List Char :=
  ['%', '!', '&', '*', '@', '\x60', '#']

def lexFrom (l : Lexer) (c : Char) (rest : List Char) : Option Lexer :=
  match c with
  | '[' => l.lexOpening .flowList
  | '{' => l.lexOpening .flowObject
  | ']' => l.lexClosing .flowListEnd
  | '}' => l.lexClosing .flowObjectEnd
  | ',' => l.lexComma
  | '\'' => l.lexQuoted readSingleQuoted
  | '"' => l.lexQuoted readDoubleQuoted
  | '|' => l.lexBlock false
  | '>' => l.lexBlock true
  | '-' => if atGap rest then l.lexItem else l.lexPlain
  | '?' => if l.inFlow || atGap rest then l.lexKey else l.lexPlain
  | ':' => if l.inFlow || atGap rest then l.lexColon else l.lexPlain
  | _ => if isGap c || reserved.contains c then none else l.lexPlain

def lexNext (l : Lexer) : Option Lexer :=
  match l.cursor.rest with
  | [] => none
  | c :: rest =>
    if l.cursor.column = 0 && startsWithMark '-' (c :: rest) then l.lexSeparator .documentStart
    else if l.cursor.column = 0 && startsWithMark '.' (c :: rest) then l.lexSeparator .documentEnd
    else l.lexFrom c rest

/-- Reads the remaining tokens. Each one is made of characters of its own, so the text gets shorter. -/
def run (l : Lexer) : Option (Array Token) := do
  let l' := l.skipBlanks
  if l'.cursor.rest.isEmpty then
    return (← (l'.closeBlocks fun _ => true).dropKey).tokens
  else
    let next ← (l'.closeBlocks (l'.cursor.column < ·)).lexNext
    if _h : next.cursor.rest.length < l.cursor.rest.length then next.run else failure
termination_by l.cursor.rest.length

end Lexer

def tokens? (text : String) : Option (List Token) := do
  if !text.toList.all isAllowed then failure
  let tokens ← Lexer.run { cursor := { rest := unifyBreaks text.toList } }
  return tokens.toList

end HostBinding.Yaml
