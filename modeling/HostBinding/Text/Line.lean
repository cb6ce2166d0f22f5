import HostBinding.Text.Blank

/-!
# Lines

A line ends at a line feed, and a carriage return just before the line feed belongs to the ending. A
text that ends in a line feed has no empty line after it, while a carriage return that no line feed
follows is part of its line.
-/

namespace HostBinding.Text

/-- A line without the carriage return that belongs to its ending. -/
def withoutReturn (line : List Char) : List Char :=
  if line.getLast? = some '\r' then line.dropLast else line

/-- The pieces of a text between its line feeds as lines. What stands behind the last line feed is a line only when it
is not empty. -/
def ended : List (List Char) → List (List Char)
  | [] => []
  | [last] => if last.isEmpty then [] else [last]
  | line :: rest => withoutReturn line :: ended rest

def lines (text : List Char) : List (List Char) :=
  ended (fields (· == '\n') text)

def unlines (contents : List String) : String :=
  String.join (contents.map (· ++ "\n"))

/-- Puts `width` spaces before every line that is not empty. -/
def indent (text : String) (width : Nat) : String :=
  let pad := List.replicate width ' '
  "\n".intercalate <| (lines text.toList).map fun line =>
    if line.isEmpty then "" else String.ofList (pad ++ line)

/-- The lines of a comment as lines of documentation. Each starts with three slashes, so no part of the
comment stands outside of it; trailing blanks are dropped. -/
def docLines (comment : String) : List String :=
  (lines comment.toList).map fun line =>
    let text := trimEnd line
    if text.isEmpty then "///" else "/// " ++ String.ofList text

end HostBinding.Text
