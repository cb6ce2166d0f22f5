/-!
# Blank characters and the fields between separators

C spellings and comments are Unicode text, so a blank is a character with the property `White_Space`,
not only an ASCII one. Every cut made here keeps or drops whole characters, which is why each result is
no longer than the text it was cut from; the readers that recurse on such a cut rest on that.
-/

namespace HostBinding.Text

/-- First and last code points of the runs of characters with the property `White_Space`. -/
def blankRanges : List (Nat × Nat) :=
  [(0x09, 0x0D), (0x20, 0x20), (0x85, 0x85), (0xA0, 0xA0), (0x1680, 0x1680), (0x2000, 0x200A),
    (0x2028, 0x2029), (0x202F, 0x202F), (0x205F, 0x205F), (0x3000, 0x3000)]

def isBlank (c : Char) : Bool :=
  blankRanges.any fun range => range.1 ≤ c.toNat && c.toNat ≤ range.2

def trimStart (text : List Char) : List Char :=
  text.dropWhile isBlank

def trimEnd (text : List Char) : List Char :=
  (text.reverse.dropWhile isBlank).reverse

def trim (text : List Char) : List Char :=
  trimEnd (trimStart text)

theorem length_dropWhile_le {α : Type} (p : α → Bool) (xs : List α) :
    (xs.dropWhile p).length ≤ xs.length :=
  (List.dropWhile_sublist p).length_le

theorem length_trimStart_le (text : List Char) : (trimStart text).length ≤ text.length :=
  length_dropWhile_le _ _

theorem length_trimEnd_le (text : List Char) : (trimEnd text).length ≤ text.length := by
  simpa [trimEnd] using length_dropWhile_le isBlank text.reverse

theorem length_trim_le (text : List Char) : (trim text).length ≤ text.length :=
  Nat.le_trans (length_trimEnd_le _) (length_trimStart_le _)

/-- The pieces of a list between the elements that satisfy `p`: one more than there are such elements. -/
def fields {α : Type} (p : α → Bool) : List α → List (List α)
  | [] => [[]]
  | x :: rest =>
    match p x, fields p rest with
    | true, pieces => [] :: pieces
    | false, piece :: pieces => (x :: piece) :: pieces
    | false, [] => [[x]]

/-- The maximal runs of characters that are not blank, in order. -/
def words (text : List Char) : List (List Char) :=
  (fields isBlank text).filter (!·.isEmpty)

/-- The pieces of a text between occurrences of `::`, found from the left. -/
def scopes : List Char → List (List Char)
  | [] => [[]]
  | ':' :: ':' :: rest => [] :: scopes rest
  | c :: rest =>
    match scopes rest with
    | piece :: pieces => (c :: piece) :: pieces
    | [] => [[c]]

end HostBinding.Text
