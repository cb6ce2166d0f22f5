import HostBinding.Text.Blank

/-!
# Places in a YAML text

Before a text is read, every line ending that is not a line separator of its own is written as a line
feed. A break is then one character, and a column is the number of characters since the last break. Bytes are
counted too, as the length of a key is limited in bytes.
-/

namespace HostBinding.Yaml

/-- First and last code points of the runs of characters that a YAML text may hold. -/
def allowedRanges : List (Nat × Nat) :=
  [(0x09, 0x0A), (0x0D, 0x0D), (0x20, 0x7E), (0x85, 0x85), (0xA0, 0xD7FF), (0xE000, 0xFFFD),
    (0x10000, 0x10FFFF)]

def isAllowed (c : Char) : Bool :=
  allowedRanges.any fun range => range.1 ≤ c.toNat && c.toNat ≤ range.2

def isSpacing (c : Char) : Bool :=
  c = ' ' || c = '\t'

def isBreak (c : Char) : Bool :=
  c = '\n' || c = '\u2028' || c = '\u2029'

def isGap (c : Char) : Bool :=
  isSpacing c || isBreak c

/-- Writes carriage returns, with or without a line feed, and next-line characters as line feeds. -/
def unifyBreaks : List Char → List Char
  | [] => []
  | '\r' :: '\n' :: rest => '\n' :: unifyBreaks rest
  | c :: rest => (if c = '\r' || c = '\u0085' then '\n' else c) :: unifyBreaks rest

/-- Whether a word cannot go on: a gap or nothing follows. -/
def atGap (text : List Char) : Bool :=
  text.head?.all isGap

def startsWithMark (mark : Char) : List Char → Bool
  | a :: b :: c :: rest => a = mark && b = mark && c = mark && atGap rest
  | _ => false

def startsWithSeparator (line : List Char) : Bool :=
  startsWithMark '-' line || startsWithMark '.' line

/-- The rest of a text and where it starts. -/
structure Cursor where
  rest : List Char
  line : Nat := 0
  column : Nat := 0
  /-- The number of bytes since the last break. -/
  offset : Nat := 0
deriving DecidableEq, Repr, Inhabited

namespace Cursor

def next (cursor : Cursor) : Cursor :=
  match cursor.rest with
  | [] => cursor
  | c :: rest =>
    if isBreak c then { rest := rest, line := cursor.line + 1 }
    else { cursor with
      rest := rest, column := cursor.column + 1, offset := cursor.offset + c.utf8Size }

def advance (cursor : Cursor) : Nat → Cursor
  | 0 => cursor
  | count + 1 => cursor.next.advance count

/-- The place at which only `rest` is left, of which the text at the cursor has to end. -/
def advanceTo (cursor : Cursor) (rest : List Char) : Cursor :=
  cursor.advance (cursor.rest.length - rest.length)

theorem rest_next (cursor : Cursor) : cursor.next.rest = cursor.rest.drop 1 := by
  unfold next
  split
  · simp_all
  · split <;> simp_all

theorem rest_advance (cursor : Cursor) (count : Nat) :
    (cursor.advance count).rest = cursor.rest.drop count := by
  induction count generalizing cursor with
  | zero => simp [advance]
  | succ count ih => rw [advance, ih, rest_next, List.drop_drop, Nat.add_comm]

def skipWhile (cursor : Cursor) (p : Char → Bool) : Cursor :=
  cursor.advance (cursor.rest.takeWhile p).length

theorem length_next_le (cursor : Cursor) : cursor.next.rest.length ≤ cursor.rest.length := by
  simp [rest_next]

theorem length_skipWhile_le (cursor : Cursor) (p : Char → Bool) :
    (cursor.skipWhile p).rest.length ≤ cursor.rest.length := by
  simp [skipWhile, rest_advance]

theorem length_next_lt {cursor : Cursor} (h : cursor.rest ≠ []) :
    cursor.next.rest.length < cursor.rest.length := by
  have := List.length_pos_iff.mpr h
  simp only [rest_next, List.length_drop]
  omega

end Cursor

end HostBinding.Yaml
