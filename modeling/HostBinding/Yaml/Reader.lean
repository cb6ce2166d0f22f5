import HostBinding.Yaml.Token

/-!
# Documents from tokens

Each function reads from the front of the tokens and gives what it has read with the tokens that are left. How
many those are at most is part of the result, and is what the recursion rests on. Where a key or value is
left out, it is the empty plain scalar.
-/

namespace HostBinding.Yaml

structure Parsed (α : Type) (bound : Nat) where
  result : α
  rest : List Token
  within : rest.length ≤ bound

namespace Parsed

variable {α β : Type} {bound : Nat}

/-- Changes what has been read, under a larger bound. -/
def map {larger : Nat} (f : α → β) (h : bound ≤ larger) (parsed : Parsed α bound) :
    Parsed β larger :=
  ⟨f parsed.result, parsed.rest, Nat.le_trans parsed.within h⟩

end Parsed

def nothing : Document :=
  .plain ""

/-! ### Tokens before which a part may be left out -/

def endsItem : Token → Bool
  | .item | .blockEnd => true
  | _ => false

def endsEntryPart : Token → Bool
  | .key | .value | .blockEnd => true
  | _ => false

def endsLooseItem (token : Token) : Bool :=
  endsItem token || endsEntryPart token

def endsFlowItem : Token → Bool
  | .separator | .flowListEnd => true
  | _ => false

def endsFlowEntry : Token → Bool
  | .separator | .flowObjectEnd => true
  | _ => false

/-- Whether a key inside of brackets is left out, where `stops` ends the entry. -/
def endsFlowKey (stops : Token → Bool) : Token → Bool
  | .value => true
  | token => stops token

mutual

/-- Reads a node. `block` allows blocks, and `loose` a list whose items are not indented below its
key. -/
def readNode (block loose : Bool) (tokens : List Token) :
    Option (Parsed Document (tokens.length - 1)) :=
  match tokens with
  | .scalar content :: rest => some ⟨content, rest, Nat.le_refl _⟩
  | .flowList :: rest => (readFlowItems rest).map (·.map .list (Nat.le_refl _))
  | .flowObject :: rest => (readFlowEntries rest).map (·.map .object (Nat.le_refl _))
  | .blockList :: rest =>
    if block then (readItems rest).map (·.map .list (Nat.le_refl _)) else none
  | .blockObject :: rest =>
    if block then (readEntries rest).map (·.map .object (Nat.le_refl _)) else none
  | .item :: rest =>
    if loose then do
      let item ← readPart true false endsLooseItem rest
      have := item.within
      let items ← readLooseItems item.rest
      return items.map (.list <| item.result :: ·) item.within
    else none
  | _ => none
termination_by (tokens.length, 0)

def readPart (block loose : Bool) (stops : Token → Bool) (tokens : List Token) :
    Option (Parsed Document tokens.length) :=
  if tokens.head?.any stops then some ⟨nothing, tokens, Nat.le_refl _⟩
  else (readNode block loose tokens).map (·.map id (Nat.sub_le _ _))
termination_by (tokens.length, 1)

def readItems (tokens : List Token) : Option (Parsed (List Document) tokens.length) :=
  match tokens with
  | .blockEnd :: rest => some ⟨[], rest, Nat.le_succ _⟩
  | .item :: rest => do
    let item ← readPart true false endsItem rest
    have := item.within
    let items ← readItems item.rest
    return items.map (item.result :: ·) (Nat.le_succ_of_le item.within)
  | _ => none
termination_by (tokens.length, 0)

/-- Reads the items of a list that is not a block of its own, up to what is no item. -/
def readLooseItems (tokens : List Token) : Option (Parsed (List Document) tokens.length) :=
  match tokens with
  | .item :: rest => do
    let item ← readPart true false endsLooseItem rest
    have := item.within
    let items ← readLooseItems item.rest
    return items.map (item.result :: ·) (Nat.le_succ_of_le item.within)
  | tokens => some ⟨[], tokens, Nat.le_refl _⟩
termination_by (tokens.length, 0)

def readValue (block : Bool) (stops : Token → Bool) (tokens : List Token) :
    Option (Parsed Document tokens.length) :=
  match tokens with
  | .value :: rest => (readPart block block stops rest).map (·.map id (Nat.le_succ _))
  | tokens => some ⟨nothing, tokens, Nat.le_refl _⟩
termination_by (tokens.length, 0)

def readEntries (tokens : List Token) :
    Option (Parsed (List (Document × Document)) tokens.length) :=
  match tokens with
  | .blockEnd :: rest => some ⟨[], rest, Nat.le_succ _⟩
  | .key :: rest => do
    let key ← readPart true true endsEntryPart rest
    have := key.within
    let value ← readValue true endsEntryPart key.rest
    have := value.within
    let entries ← readEntries value.rest
    return entries.map ((key.result, value.result) :: ·)
      (Nat.le_succ_of_le (Nat.le_trans value.within key.within))
  | _ => none
termination_by (tokens.length, 0)

def readFlowItems (tokens : List Token) : Option (Parsed (List Document) tokens.length) :=
  match tokens with
  | .flowListEnd :: rest => some ⟨[], rest, Nat.le_succ _⟩
  | first :: tail => do
    let item ← readFlowItem first tail
    have := item.within
    match _h : item.rest with
    | .flowListEnd :: rest => return ⟨[item.result], rest, by grind⟩
    | .separator :: rest =>
      have : rest.length < tail.length := by grind
      let items ← readFlowItems rest
      return items.map (item.result :: ·) (Nat.le_succ_of_le (Nat.le_of_lt this))
    | _ => failure
  | [] => none
termination_by (tokens.length, 2)

/-- Reads an item of a list in brackets. An entry is an object of its own; where its key is left out, the
token in its place is passed over. -/
def readFlowItem (first : Token) (rest : List Token) : Option (Parsed Document rest.length) :=
  match first with
  | .key => do
    let key ← readPart false false (endsFlowKey endsFlowItem) rest
    have := key.within
    let passedOver := if rest.head?.any (endsFlowKey endsFlowItem) then 1 else 0
    let value ← readValue false endsFlowItem (key.rest.drop passedOver)
    return value.map (fun value => .object [(key.result, value)])
      (Nat.le_trans (List.drop_sublist passedOver key.rest).length_le key.within)
  | _ => (readNode false false (first :: rest)).map (·.map id (Nat.le_refl _))
termination_by (rest.length + 1, 1)

def readFlowEntries (tokens : List Token) :
    Option (Parsed (List (Document × Document)) tokens.length) :=
  match tokens with
  | .flowObjectEnd :: rest => some ⟨[], rest, Nat.le_succ _⟩
  | first :: tail => do
    let entry ← readFlowEntry first tail
    have := entry.within
    match _h : entry.rest with
    | .flowObjectEnd :: rest => return ⟨[entry.result], rest, by grind⟩
    | .separator :: rest =>
      have : rest.length < tail.length := by grind
      let entries ← readFlowEntries rest
      return entries.map (entry.result :: ·) (Nat.le_succ_of_le (Nat.le_of_lt this))
    | _ => failure
  | [] => none
termination_by (tokens.length, 2)

/-- Reads an entry of an object in braces. A key may stand without a value. -/
def readFlowEntry (first : Token) (rest : List Token) :
    Option (Parsed (Document × Document) rest.length) :=
  match first with
  | .key => do
    let key ← readPart false false (endsFlowKey endsFlowEntry) rest
    have := key.within
    let value ← readValue false endsFlowEntry key.rest
    return value.map (fun value => (key.result, value)) this
  | _ => (readNode false false (first :: rest)).map (·.map (·, nothing) (Nat.le_refl _))
termination_by (rest.length + 1, 1)

end

def isDocumentEnd : Token → Bool
  | .documentEnd => true
  | _ => false

def endsDocument : Token → Bool
  | .documentStart | .documentEnd => true
  | _ => false

/-- The document that tokens write. Nothing but ends of it may follow. -/
def readDocument (tokens : List Token) : Option Document := do
  let content (tokens : List Token) : Option (Document × List Token) :=
    (readNode true false tokens).map fun parsed => (parsed.result, parsed.rest)
  let (document, rest) ← match tokens with
    | [] => some (nothing, [])
    | .documentStart :: rest =>
      if rest.head?.all endsDocument then some (nothing, rest) else content rest
    | tokens => content tokens
  if rest.all isDocumentEnd then return document else failure

end HostBinding.Yaml

def HostBinding.Document.ofYaml? (text : String) : Option Document :=
  (Yaml.tokens? text).bind Yaml.readDocument
