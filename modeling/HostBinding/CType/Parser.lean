import HostBinding.CType.Basic
import HostBinding.Text.Blank
import HostBinding.Text.Numeral
import HostBinding.Text.Identifier

/-!
# Reading a type from its spelling

A spelling is read from the right: its last characters tell the outermost declarator, and what stands
before them spells the type that the declarator applies to. `outermost` makes that one cut, and every
cut leaves a shorter text, so reading ends.
-/

namespace HostBinding

/-- Why a spelling names no type. Each cause but the first carries the text that was refused. -/
inductive SpellingError where
  | empty
  | rvalueReference (text : String)
  | arrayBound (text : String)
  | unsupported (text : String)
deriving DecidableEq, Repr, Inhabited

def SpellingError.message : SpellingError → String
  | .empty => "empty type spelling"
  | .rvalueReference text => "rvalue references are not supported: '" ++ text ++ "'"
  | .arrayBound text => "invalid array bound in '" ++ text ++ "'"
  | .unsupported text => "unsupported type spelling '" ++ text ++ "'"

namespace CType

open Text

inductive Declarator where
  | pointer (isConst : Bool)
  | reference (isConst : Bool)
  /-- Array bounds, outermost first. -/
  | bounds (lengths : List UInt64)
deriving DecidableEq, Repr

def Declarator.apply (target : CType) : Declarator → CType
  | .pointer isConst => .pointer target isConst
  | .reference isConst => .reference target isConst
  | .bounds lengths => lengths.foldr (fun length element => .array element length) target

inductive Outermost where
  | leaf (type : CType)
  | derived (declarator : Declarator) (target : List Char)
deriving DecidableEq, Repr

def constWord : List Char :=
  ['c', 'o', 'n', 's', 't']

/-- Words that qualify a type or introduce its name and do not change what a leaf means. -/
def qualifierWords : List (List Char) :=
  [constWord, ['v', 'o', 'l', 'a', 't', 'i', 'l', 'e'], ['s', 't', 'r', 'u', 'c', 't'],
    ['c', 'l', 'a', 's', 's']]

/-- Whether a keyword that follows this text stands apart from it. -/
def separatesKeyword (text : List Char) : Bool :=
  text.getLast?.any fun c => isBlank c || c == '*' || c == '&'

private theorem length_take_lt_of_isSuffixOf {text word : List Char} (hword : word ≠ [])
    (h : word.isSuffixOf text = true) :
    (text.take (text.length - word.length)).length < text.length := by
  have hle := (List.isSuffixOf_iff_suffix.mp h).length_le
  have hpos := List.length_pos_iff.mpr hword
  rw [List.length_take]
  omega

/-- Drops the trailing blanks of a spelling and every keyword `const` that ends it. -/
def dropTrailingConst (text : List Char) : List Char :=
  let body := trimEnd text
  let rest := body.take (body.length - constWord.length)
  if constWord.isSuffixOf body && separatesKeyword rest then dropTrailingConst rest else body
termination_by text.length
decreasing_by
  rename_i h
  exact Nat.lt_of_lt_of_le
    (length_take_lt_of_isSuffixOf (by decide) (Bool.and_eq_true_iff.mp h).1)
    (length_trimEnd_le text)

theorem length_dropTrailingConst_le (text : List Char) :
    (dropTrailingConst text).length ≤ text.length := by
  fun_induction dropTrailingConst text with
  | case1 text body rest _ ih =>
    have hrest : rest.length ≤ body.length := List.length_take_le' _ _
    exact Nat.le_trans ih (Nat.le_trans hrest (length_trimEnd_le text))
  | case2 text => exact length_trimEnd_le text

/-- Splits the `const` of this level off the target of a pointer or reference. A trailing one always
belongs to this level; a leading one only when no `*` in the target would claim it. -/
def splitConst (target : List Char) : Bool × List Char :=
  let text := trim target
  let stripped := dropTrailingConst text
  if stripped.length ≠ text.length then (true, stripped)
  else if !text.contains '*' && (constWord ++ [' ']).isPrefixOf text then
    (true, trimStart (text.drop (constWord.length + 1)))
  else (false, text)

theorem length_splitConst_le (target : List Char) :
    (splitConst target).2.length ≤ target.length := by
  have htrim := length_trim_le target
  simp only [splitConst]
  split
  · exact Nat.le_trans (length_dropTrailingConst_le _) htrim
  · split
    · exact Nat.le_trans (length_trimStart_le _)
        (Nat.le_trans (by rw [List.length_drop]; exact Nat.sub_le _ _) htrim)
    · exact htrim

/-- Reads an array bound: what stands between one `[` and the next. -/
def readBound? (piece : List Char) : Option UInt64 :=
  if piece.getLast? = some ']' then readWord64? (trim piece.dropLast) else none

def leaf? (text : List Char) : Option CType :=
  match (words text).filter (!qualifierWords.contains ·) with
  | [] => none
  | first :: rest =>
    let base := String.ofList ([' '].intercalate (first :: rest))
    if base = "void" then some .void
    else match Primitive.ofSpelling? base with
      | some kind => some (.primitive kind base)
      | none => if rest.isEmpty && isQualifiedIdentifier first then some (.named base) else none

/-- Cuts the outermost declarator off a spelling, or reads the leaf that the spelling is. -/
def outermost (spelling : List Char) : Except SpellingError Outermost :=
  let text := trim spelling
  if text = [] then .error .empty
  else if text.getLast? = some ']' then
    let bounds := text.dropWhile (· != '[')
    match (fields (· == '[') bounds.tail).mapM readBound? with
    | some lengths => .ok (.derived (.bounds lengths) (text.takeWhile (· != '[')))
    | none => .error (.arrayBound (String.ofList text))
  else
    let body := dropTrailingConst text
    if ['&', '&'].isSuffixOf body then .error (.rvalueReference (String.ofList text))
    else if body.getLast? = some '&' then
      let (isConst, target) := splitConst body.dropLast
      .ok (.derived (.reference isConst) target)
    else if body.getLast? = some '*' then
      let (isConst, target) := splitConst body.dropLast
      .ok (.derived (.pointer isConst) target)
    else match leaf? body with
      | some type => .ok (.leaf type)
      | none => .error (.unsupported (String.ofList text))

private theorem mapM_readBound?_nil : (fields (· == '[') []).mapM readBound? = none := by
  rfl

private theorem length_splitConst_dropLast_lt {text : List Char} {c : Char}
    (h : (dropTrailingConst text).getLast? = some c) :
    (splitConst (dropTrailingConst text).dropLast).2.length < text.length := by
  have hsplit := length_splitConst_le (dropTrailingConst text).dropLast
  have hdrop := length_dropTrailingConst_le text
  have hne : dropTrailingConst text ≠ [] := by
    intro hnil
    simp [hnil] at h
  have hpos := List.length_pos_iff.mpr hne
  rw [List.length_dropLast] at hsplit
  omega

theorem length_lt_of_outermost {spelling target : List Char} {declarator : Declarator}
    (h : outermost spelling = .ok (.derived declarator target)) :
    target.length < spelling.length := by
  refine Nat.lt_of_lt_of_le ?_ (length_trim_le spelling)
  simp only [outermost] at h
  split at h
  · simp at h
  · split at h
    · split at h
      · rename_i hbounds
        simp only [Except.ok.injEq, Outermost.derived.injEq] at h
        rw [← h.2]
        have hsplit := congrArg List.length
          (List.takeWhile_append_dropWhile (p := (· != '[')) (l := trim spelling))
        rw [List.length_append] at hsplit
        have hne : (trim spelling).dropWhile (· != '[') ≠ [] := by
          intro hnil
          rw [hnil, List.tail_nil, mapM_readBound?_nil] at hbounds
          simp at hbounds
        have hpos := List.length_pos_iff.mpr hne
        omega
      · simp at h
    · split at h
      · simp at h
      · split at h
        · rename_i hlast
          simp only [Except.ok.injEq, Outermost.derived.injEq] at h
          exact h.2 ▸ length_splitConst_dropLast_lt hlast
        · split at h
          · rename_i hlast
            simp only [Except.ok.injEq, Outermost.derived.injEq] at h
            exact h.2 ▸ length_splitConst_dropLast_lt hlast
          · split at h <;> simp at h

def ofChars (spelling : List Char) : Except SpellingError CType :=
  match _h : outermost spelling with
  | .error cause => .error cause
  | .ok (.leaf type) => .ok type
  | .ok (.derived declarator target) =>
    match ofChars target with
    | .error cause => .error cause
    | .ok type => .ok (declarator.apply type)
termination_by spelling.length
decreasing_by exact length_lt_of_outermost _h

def ofSpelling (spelling : String) : Except SpellingError CType :=
  ofChars spelling.toList

end CType

end HostBinding
