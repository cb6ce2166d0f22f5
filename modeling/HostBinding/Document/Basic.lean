import HostBinding.CType.Parser
import HostBinding.Table

/-!
# Documents

A document is the tree that a serialized value is read from. Its scalars are typed where the notation
types them. A plain scalar, which is written without quotes in a notation that types nothing, is whatever its
reader asks for: a text, a number, or nothing at all. Notations also differ in whether a record may be written as
the bare list of its values; where it may, every list is a row.
-/

namespace HostBinding

inductive Document where
  | null
  | bool (value : Bool)
  | integer (value : Int)
  /-- A number that is no integer, by its spelling. -/
  | decimal (spelling : String)
  | text (value : String)
  | plain (value : String)
  | list (items : List Document)
  /-- A list that may also be a record without its keys. -/
  | row (items : List Document)
  | object (entries : List (Document × Document))
deriving Repr, Inhabited

inductive DecodeError where
  | form
  | spelling (cause : SpellingError)
deriving DecidableEq, Repr, Inhabited

abbrev Decoded (α : Type) := Except DecodeError α

namespace Document

def record (entries : List (String × Document)) : Document :=
  .object (entries.map fun entry => (.text entry.1, entry.2))

def ofOption {α : Type} (encode : α → Document) : Option α → Document
  | none => .null
  | some value => encode value

def ofWord64 (value : UInt64) : Document :=
  .integer value.toNat

def plainNulls : List String :=
  ["", "null", "Null", "NULL", "~"]

def isAbsent : Document → Bool
  | .null => true
  | .plain value => plainNulls.contains value
  | _ => false

def ofOption? {α : Type} : Option α → Decoded α
  | some value => .ok value
  | none => .error .form

def toText : Document → Decoded String
  | .text value | .plain value => .ok value
  | _ => .error .form

def toOption {α : Type} (read : Document → Decoded α) (doc : Document) : Decoded (Option α) :=
  if doc.isAbsent then .ok none else (read doc).map some

/-- Reads a list. An empty plain scalar is an empty list. -/
def toList {α : Type} (read : Document → Decoded α) : Document → Decoded (List α)
  | .list items | .row items => items.mapM read
  | .plain "" => .ok []
  | _ => .error .form

/-- Reads one of several named values. A name may also be the only key of an object without a value. -/
def toTagged {α : Type} (ofTag? : String → Option α) : Document → Decoded α
  | .text tag | .plain tag => ofOption? (ofTag? tag)
  | .object [(.text tag, .null)] => ofOption? (ofTag? tag)
  | _ => .error .form

/-- The bases that a mark at the start of a plain number selects. -/
def baseMarks : List (List Char × Nat) :=
  [(['0', 'x'], 16), (['0', 'o'], 8), (['0', 'b'], 2)]

/-- The digits of a plain number whose mark selects a base other than ten. -/
def readMarked? (digits : List Char) : Option UInt64 :=
  baseMarks.findSome? fun (mark, base) =>
    if mark.isPrefixOf digits then
      (Text.readDigits? base (digits.drop mark.length)).bind Text.word64?
    else none

/-- Reads a plain scalar as an unsigned number. A decimal one with a needless leading zero is no
number. -/
def plainWord64? (value : String) : Option UInt64 :=
  let digits := Text.dropPlus value.toList
  match readMarked? digits with
  | some word => some word
  | none =>
    if 1 < digits.length && digits.head? = some '0' then none
    else (Text.readDigits? 10 digits).bind Text.word64?

def toWord64 : Document → Decoded UInt64
  | .integer (.ofNat value) => ofOption? (Text.word64? value)
  | .plain value => ofOption? (plainWord64? value)
  | _ => .error .form

/-- One key of a record: how its value is entered into a draft of the record. -/
structure Key (δ : Type) where
  name : String
  enter : Document → δ → Decoded δ

/-- Enters the entries of an object in order. Keys that the record does not have are skipped, and no key may
be given twice. -/
def readEntries {δ : Type} (keys : List (Key δ)) :
    List String → List (Document × Document) → δ → Decoded δ
  | _, [], draft => .ok draft
  | seen, (name, value) :: rest, draft => do
    let name ← name.toText
    match keys.find? (·.name = name) with
    | none => readEntries keys seen rest draft
    | some key =>
      if seen.contains name then .error .form
      else
        let draft ← key.enter value draft
        readEntries keys (name :: seen) rest draft

/-- Enters the items of a row under the keys of a record, in the order of the keys. -/
def readItems {δ : Type} : List (Key δ) → List Document → δ → Decoded δ
  | _, [], draft => .ok draft
  | [], _ :: _, _ => .error .form
  | key :: keys, item :: items, draft => do
    let draft ← key.enter item draft
    readItems keys items draft

/-- Reads a record into a draft, from an object or from a row. An empty plain scalar is a record without
entries. -/
def readRecord {δ : Type} (keys : List (Key δ)) (draft : δ) : Document → Decoded δ
  | .object entries => readEntries keys [] entries draft
  | .row items => readItems keys items draft
  | .plain "" => .ok draft
  | _ => .error .form

/-- Reads a table. Of several entries with one key the first gives the position and the last the
value. -/
def toTable {α : Type} (read : Document → Decoded α) : Document → Decoded (Table String α)
  | .object entries => do
    let pairs ← entries.mapM fun (name, value) => do
      let name ← name.toText
      let value ← read value
      return (name, value)
    return Table.ofList pairs
  | .plain "" => .ok ∅
  | _ => .error .form

end Document

end HostBinding
