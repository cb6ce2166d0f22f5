import HostBinding.Document.Basic

/-!
# Documents as indented JSON

Every entry and every item of a list has a line of its own, indented by two spaces more than what
holds it.
-/

namespace HostBinding.Json

def shortEscapes : List (Char × Char) :=
  [('"', '"'), ('\\', '\\'), ('\x08', 'b'), ('\x0c', 'f'), ('\n', 'n'), ('\r', 'r'), ('\t', 't')]

/-- A character within quotes. Only the quote, the backslash and control characters are escaped. -/
def escapeChar (c : Char) : List Char :=
  match shortEscapes.lookup c with
  | some letter => ['\\', letter]
  | none =>
    if c.toNat < 0x20 then
      ['\\', 'u', '0', '0', Nat.digitChar (c.toNat / 16), Nat.digitChar (c.toNat % 16)]
    else [c]

def quote (text : String) : String :=
  String.ofList ('"' :: text.toList.flatMap escapeChar ++ ['"'])

def lineStart (depth : Nat) : String :=
  "\n" ++ String.ofList (List.replicate (2 * depth) ' ')

def bracket (opening closing : String) (depth : Nat) : List String → String
  | [] => opening ++ closing
  | parts =>
    opening ++ lineStart (depth + 1) ++ ("," ++ lineStart (depth + 1)).intercalate parts ++
      lineStart depth ++ closing

mutual

/-- The text of a document whose first line is indented by `depth` steps. -/
def print (depth : Nat) : Document → String
  | .null => "null"
  | .bool true => "true"
  | .bool false => "false"
  | .integer value => toString value
  | .decimal spelling => spelling
  | .text value | .plain value => quote value
  | .list items | .row items => bracket "[" "]" depth (printItems (depth + 1) items)
  | .object entries => bracket "\x7b" "\x7d" depth (printEntries (depth + 1) entries)

def printItems (depth : Nat) : List Document → List String
  | [] => []
  | item :: rest => print depth item :: printItems depth rest

def printEntries (depth : Nat) : List (Document × Document) → List String
  | [] => []
  | (key, value) :: rest =>
    (print depth key ++ ": " ++ print depth value) :: printEntries depth rest

end

end HostBinding.Json

def HostBinding.Document.toJson (document : Document) : String :=
  Json.print 0 document
