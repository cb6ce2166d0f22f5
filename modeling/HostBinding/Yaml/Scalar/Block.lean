import HostBinding.Yaml.Cursor

/-!
# Block scalars

A block scalar is a header and indented lines. Its lines are kept or folded; a break folds only between two
lines that do not start with spacing. What becomes of the breaks at its end is up to the header.
-/

namespace HostBinding.Yaml

inductive Chomping where
  | strip
  /-- The break of the last line is kept. -/
  | clip
  | keep
deriving DecidableEq, Repr, Inhabited

def Chomping.ofIndicator? : Char → Option Chomping
  | '-' => some .strip
  | '+' => some .keep
  | _ => none

structure BlockHeader where
  chomping : Option Chomping := none
  indent : Option Nat := none
deriving DecidableEq, Repr, Inhabited

/-- Reads the marks after the indicator of a block scalar, each kind at most once, and gives what follows.
No indentation is zero. -/
def readBlockHeader? (header : BlockHeader) : List Char → Option (BlockHeader × List Char)
  | [] => some (header, [])
  | c :: rest =>
    match Chomping.ofIndicator? c with
    | some chomping =>
      if header.chomping.isSome then some (header, c :: rest)
      else readBlockHeader? { header with chomping := chomping } rest
    | none =>
      if header.indent.isSome || !c.isDigit then some (header, c :: rest)
      else if c = '0' then none
      else readBlockHeader? { header with indent := c.toNat - '0'.toNat } rest

/-- What follows the first line of a block scalar, which holds nothing more than a comment. -/
def afterHeaderLine? (text : List Char) : Option (List Char) :=
  let rest := text.dropWhile isSpacing
  let rest := if rest.head? = some '#' then rest.dropWhile (!isBreak ·) else rest
  match rest with
  | [] => some []
  | c :: rest => if isBreak c then some rest else none

structure EmptyLines where
  breaks : List Char
  /-- The widest indentation of a line that was looked at. -/
  widest : Nat
  column : Nat
  rest : List Char
deriving DecidableEq, Repr, Inhabited

/-- Passes empty lines. An indentation is made of spaces, and only the first `limit` of them count. -/
def passEmptyLines (limit : Option Nat) (text : List Char) : Option EmptyLines :=
  let spaces := (text.takeWhile (· = ' ')).length
  let column := limit.elim spaces (min spaces)
  match _h : text.drop column with
  | [] => some { breaks := [], widest := column, column := column, rest := [] }
  | c :: rest =>
    if isBreak c then
      (passEmptyLines limit rest).map fun lines =>
        { lines with breaks := c :: lines.breaks, widest := max column lines.widest }
    else if c = '\t' && limit ≠ some column then none
    else some { breaks := [], widest := column, column := column, rest := c :: rest }
termination_by text.length
decreasing_by
  have := congrArg List.length _h
  simp only [List.length_drop, List.length_cons] at this
  omega

theorem length_passEmptyLines_le {limit : Option Nat} {text : List Char} {lines : EmptyLines}
    (h : passEmptyLines limit text = some lines) : lines.rest.length ≤ text.length := by
  fun_induction passEmptyLines limit text generalizing lines with
  | case1 =>
    simp only [Option.some.injEq] at h
    simp [← h]
  | case2 _ _ _ _ _ hdrop =>
    rename_i ih
    obtain ⟨inner, hinner, rfl⟩ := Option.map_eq_some_iff.mp h
    have := ih hinner
    have := congrArg List.length hdrop
    simp only [List.length_drop, List.length_cons] at this ⊢
    omega
  | case3 => simp at h
  | case4 _ _ _ _ _ hdrop =>
    simp only [Option.some.injEq] at h
    subst h
    have := congrArg List.length hdrop
    simp only [List.length_drop] at this ⊢
    omega

structure BlockLine where
  breaks : List Char
  content : List Char
  ending : Option Char
deriving DecidableEq, Repr, Inhabited

structure BlockLines where
  lines : List BlockLine
  breaks : List Char
  rest : List Char
deriving DecidableEq, Repr, Inhabited

/-- Reads the lines that are indented by `indent`, from where the first empty ones have been passed. -/
def readBlockLines (indent : Nat) (passed : EmptyLines) : Option BlockLines :=
  if _hmore : passed.column = indent ∧ 0 < passed.rest.length then
    let content := passed.rest.takeWhile (!isBreak ·)
    let after := passed.rest.dropWhile (!isBreak ·)
    match _hnext : passEmptyLines (some indent) (after.drop 1) with
    | none => none
    | some next =>
      (readBlockLines indent next).map fun following =>
        { following with lines := ⟨passed.breaks, content, after.head?⟩ :: following.lines }
  else some { lines := [], breaks := passed.breaks, rest := passed.rest }
termination_by passed.rest.length
decreasing_by
  have hnext := length_passEmptyLines_le _hnext
  have hafter : after.length ≤ passed.rest.length := Text.length_dropWhile_le _ _
  simp only [List.length_drop] at hnext
  omega

def BlockLine.foldsInto (line next : BlockLine) : Bool :=
  line.ending = some '\n' && !line.content.head?.any isSpacing && !next.content.head?.any isSpacing

/-- The text of lines that follow one another, and the break that ends the last one. -/
def joinLines (folded : Bool) : List BlockLine → List Char × Option Char
  | [] => ([], none)
  | [line] => (line.content, line.ending)
  | line :: next :: rest =>
    let between :=
      if folded && line.foldsInto next then if next.breaks.isEmpty then [' '] else next.breaks
      else line.ending.toList ++ next.breaks
    let (text, ending) := joinLines folded (next :: rest)
    (line.content ++ between ++ text, ending)

def BlockLines.value (block : BlockLines) (folded : Bool) (chomping : Chomping) : List Char :=
  let (text, ending) := joinLines folded block.lines
  let first := (block.lines.head?.map (·.breaks)).getD []
  let tail := match chomping with
    | .strip => []
    | .clip => ending.toList
    | .keep => ending.toList ++ block.breaks
  first ++ text ++ tail

/-- The value of a block scalar after its indicator, and what follows it. Inside of blocks that are indented
by less than `indent`, the first line that is not empty gives the indentation where the header does not. -/
def readBlock (folded : Bool) (indent : Nat) (text : List Char) : Option (List Char × List Char) := do
  let (header, rest) ← readBlockHeader? {} text
  let rest ← afterHeaderLine? rest
  let limit := header.indent.map (indent - 1 + ·)
  let passed ← passEmptyLines limit rest
  let block ← readBlockLines (limit.getD (max passed.widest (max indent 1))) passed
  return (block.value folded (header.chomping.getD .clip), block.rest)

end HostBinding.Yaml
