import HostBinding.CType.Mangled
import HostBinding.Proofs.Text.Cut

/-!
# Reading mangled types back

Everything in a mangled type is joined by underscores, and names may hold underscores too. So a mangled type is
a list of pieces: each declarator and each leaf but a struct is one piece, and a struct has as many as its name.
The pieces of a list of types determine the types, up to the spelling of primitives, when no name starts with a
piece that means something else and none starts like another one.
-/

namespace HostBinding

namespace Text

/-- What stands between the underscores of a text. -/
def pieces (text : String) : List (List Char) :=
  text.toList.splitOn '_'

theorem pieces_ne_nil (text : String) : pieces text ≠ [] :=
  List.splitOn_ne_nil _ _

theorem pieces_append (text text' : String) : pieces (text ++ "_" ++ text') = pieces text ++ pieces text' := by
  have hsplit : (text.toList ++ '_' :: text'.toList).splitOn '_' = pieces text ++ pieces text' :=
    List.splitOn_append_cons_self _ _
  rw [pieces, String.toList_append, String.toList_append, List.append_assoc]
  exact hsplit

theorem pieces_of_notMem {text : String} (h : '_' ∉ text.toList) : pieces text = [text.toList] :=
  List.splitOn_eq_singleton h

theorem pieces_intercalate {texts : List String} (h : texts ≠ []) :
    pieces ("_".intercalate texts) = texts.flatMap pieces := by
  induction texts with
  | nil => exact absurd rfl h
  | cons text rest ih =>
    cases rest with
    | nil => simp
    | cons second rest =>
      rw [String.intercalate_cons_cons, pieces_append, ih (List.cons_ne_nil _ _)]
      rfl

end Text

open Text

namespace CType

/-! ### Pieces that mean something -/

/-- What one piece of a mangled type stands for. -/
inductive Mark where
  | void
  | primitive (kind : Primitive)
  | pointer (isConst : Bool)
  | reference (isConst : Bool)
  | array (length : UInt64)
deriving DecidableEq

namespace Mark

def text : Mark → String
  | void => "void"
  | primitive kind => kind.mangled
  | pointer true => "cptr"
  | pointer false => "ptr"
  | reference true => "cref"
  | reference false => "ref"
  | array length => "arr" ++ toString length.toNat

def simple : List Mark :=
  [void, primitive .bool] ++ (IntegerKind.all.map fun kind => primitive (.integral kind)) ++
    (FloatKind.all.map fun kind => primitive (.floating kind)) ++
    [pointer true, pointer false, reference true, reference false]

def isText (piece : List Char) : Bool :=
  simple.any (·.text.toList = piece) ||
    ("arr".toList.isPrefixOf piece && !(piece.drop 3).isEmpty && (piece.drop 3).all Char.isDigit)

theorem mem_simple (mark : Mark) : mark ∈ simple ∨ ∃ length, mark = array length := by
  cases mark with
  | void => exact .inl (by decide)
  | primitive kind =>
    refine .inl ?_
    cases kind with
    | bool => decide
    | integral kind => cases kind <;> decide
    | floating kind => cases kind <;> decide
  | pointer isConst => cases isConst <;> exact .inl (by decide)
  | reference isConst => cases isConst <;> exact .inl (by decide)
  | array length => exact .inr ⟨length, rfl⟩

theorem isText_text (mark : Mark) : isText mark.text.toList = true := by
  rcases mem_simple mark with hsimple | ⟨length, rfl⟩
  · rw [isText, Bool.or_eq_true]
    exact .inl (List.any_eq_true.mpr ⟨mark, hsimple, by simp⟩)
  · have hdigits : (toString length.toNat).toList.all Char.isDigit = true :=
      List.all_eq_true.mpr (within_toString length.toNat)
    have hne : (toString length.toNat).toList.isEmpty = false := by
      rw [Nat.toString_eq_repr, Nat.toList_repr, List.isEmpty_eq_false_iff]
      exact Nat.toDigits_ne_nil
    have htext : (array length).text.toList = "arr".toList ++ (toString length.toNat).toList :=
      String.toList_append
    have hdrop : (array length).text.toList.drop 3 = (toString length.toNat).toList := by
      rw [htext]
      rfl
    rw [isText, Bool.or_eq_true, hdrop, hdigits, hne, htext]
    exact .inr (by simp)

theorem underscore_notMem_text (mark : Mark) : '_' ∉ mark.text.toList := by
  rcases mem_simple mark with hsimple | ⟨length, rfl⟩
  · have hnone : ∀ mark ∈ simple, '_' ∉ mark.text.toList := by decide
    exact hnone mark hsimple
  · rw [text, String.toList_append, List.mem_append, not_or]
    refine ⟨by decide, fun hmem => ?_⟩
    exact absurd (within_toString length.toNat '_' hmem) (by decide)

theorem text_injective {mark mark' : Mark} (h : mark.text = mark'.text) : mark = mark' := by
  have hsimple : ∀ mark ∈ simple, ∀ mark' ∈ simple, mark.text = mark'.text → mark = mark' := by decide
  have harray : ∀ mark ∈ simple, mark.text.toList.take 3 ≠ "arr".toList := by decide
  have htake (length : UInt64) : (array length).text.toList.take 3 = "arr".toList := by
    rw [text, String.toList_append]
    rfl
  rcases mem_simple mark with hmem | ⟨length, rfl⟩ <;> rcases mem_simple mark' with hmem' | ⟨length', rfl⟩
  · exact hsimple mark hmem mark' hmem' h
  · exact absurd (h ▸ htake length') (harray mark hmem)
  · exact absurd (h ▸ htake length) (harray mark' hmem')
  · have hlength := toString_nat_inj ((String.append_right_inj _).mp h)
    rw [UInt64.toNat_inj.mp hlength]

end Mark

/-! ### The pieces of a type -/

def mark? : CType → Option Mark
  | .void => some .void
  | .primitive kind _ => some (.primitive kind)
  | .named _ => none
  | .pointer _ isConst => some (.pointer isConst)
  | .reference _ isConst => some (.reference isConst)
  | .array _ length => some (.array length)

/-- The pieces after the first one, when that stands for something. -/
def lowerPieces : CType → List (List Char)
  | .void | .primitive _ _ | .named _ => []
  | .pointer target _ | .reference target _ => pieces target.mangle
  | .array element _ => pieces element.mangle

/-- The struct that a type is made from. -/
def structName? : CType → Option String
  | .void | .primitive _ _ => none
  | .named name => some name
  | .pointer target _ | .reference target _ => target.structName?
  | .array element _ => element.structName?

/-- A type with every primitive spelled in the same way. -/
def canonical : CType → CType
  | .void => .void
  | .primitive kind _ => .ofPrimitive kind
  | .named name => .named name
  | .pointer target isConst => .pointer target.canonical isConst
  | .reference target isConst => .reference target.canonical isConst
  | .array element length => .array element.canonical length

variable {t u : CType} {mark : Mark} {types types' : List CType} {names : List String}
  {after after' : List (List Char)}

@[simp]
theorem mangle_canonical (t : CType) : t.canonical.mangle = t.mangle := by
  induction t with
  | pointer target isConst ih => cases isConst <;> simp [canonical, mangle, ih]
  | reference target isConst ih => cases isConst <;> simp [canonical, mangle, ih]
  | array element length ih => simp [canonical, mangle, ih]
  | _ => rfl

theorem pieces_mark (mark : Mark) (text : String) :
    pieces (mark.text ++ "_" ++ text) = mark.text.toList :: pieces text := by
  rw [pieces_append, pieces_of_notMem mark.underscore_notMem_text, List.singleton_append]

theorem pieces_mangle (h : t.mark? = some mark) : pieces t.mangle = mark.text.toList :: t.lowerPieces := by
  cases t with
  | void =>
    cases h
    exact pieces_of_notMem (by decide)
  | primitive kind spelling =>
    cases h
    exact pieces_of_notMem (Mark.primitive kind).underscore_notMem_text
  | named name => cases h
  | pointer target isConst =>
    cases h
    cases isConst with
    | false =>
      rw [mangle, show "ptr_" = "ptr" ++ "_" by decide]
      exact pieces_mark (.pointer false) _
    | true =>
      rw [mangle, show "cptr_" = "cptr" ++ "_" by decide]
      exact pieces_mark (.pointer true) _
  | reference target isConst =>
    cases h
    cases isConst with
    | false =>
      rw [mangle, show "ref_" = "ref" ++ "_" by decide]
      exact pieces_mark (.reference false) _
    | true =>
      rw [mangle, show "cref_" = "cref" ++ "_" by decide]
      exact pieces_mark (.reference true) _
  | array element length =>
    cases h
    exact pieces_mark (.array length) _

theorem pieces_mangleAll (h : types ≠ []) : pieces (mangleAll types) = types.flatMap fun t => pieces t.mangle := by
  cases types with
  | nil => exact absurd rfl h
  | cons t rest =>
    rw [show mangleAll (t :: rest) = "_".intercalate ((t :: rest).map mangle) from rfl,
      pieces_intercalate (by simp), List.flatMap_map]

/-! ### Names that can be told apart -/

/-- Names of structs that can be told apart inside a symbol. -/
structure Separable (names : List String) : Prop where
  unmarked : ∀ name ∈ names, ∀ piece ∈ (pieces (sanitize name)).head?, Mark.isText piece = false
  apart : ∀ name ∈ names, ∀ name' ∈ names, pieces (sanitize name) <+: pieces (sanitize name') → name = name'

theorem Separable.ne_mark (hnames : Separable names) {name : String} (hname : name ∈ names) :
    mark.text.toList :: after ≠ pieces (sanitize name) ++ after' := by
  intro h
  obtain ⟨piece, rest, hpieces⟩ := List.exists_cons_of_ne_nil (pieces_ne_nil (sanitize name))
  rw [hpieces, List.cons_append, List.cons.injEq] at h
  have hunmarked := hnames.unmarked name hname piece (by rw [hpieces]; rfl)
  rw [← h.1, Mark.isText_text] at hunmarked
  cases hunmarked

theorem Separable.mark?_eq (hnames : Separable names) (hu : ∀ name ∈ u.structName?, name ∈ names)
    (h : mark.text.toList :: after = pieces u.mangle ++ after') :
    u.mark? = some mark ∧ after = u.lowerPieces ++ after' := by
  cases hmark : u.mark? with
  | none =>
    cases u with
    | named name => exact absurd h (hnames.ne_mark (hu name rfl))
    | _ => cases hmark
  | some mark' =>
    rw [pieces_mangle hmark, List.cons_append, List.cons.injEq] at h
    exact ⟨congrArg some (Mark.text_injective (String.toList_injective h.1)).symm, h.2⟩

/-- **A mangled type can be read back**, whatever stands after it. -/
theorem Separable.canonical_eq (hnames : Separable names) (ht : ∀ name ∈ t.structName?, name ∈ names)
    (hu : ∀ name ∈ u.structName?, name ∈ names) (h : pieces t.mangle ++ after = pieces u.mangle ++ after') :
    t.canonical = u.canonical ∧ after = after' := by
  induction t generalizing u with
  | void =>
    rw [pieces_mangle rfl, List.cons_append] at h
    obtain ⟨hmark, hafter⟩ := hnames.mark?_eq hu h
    cases u with
    | void => exact ⟨rfl, hafter⟩
    | _ => cases hmark
  | primitive kind spelling =>
    rw [pieces_mangle rfl, List.cons_append] at h
    obtain ⟨hmark, hafter⟩ := hnames.mark?_eq hu h
    cases u with
    | primitive kind' spelling' =>
      cases hmark
      exact ⟨rfl, hafter⟩
    | _ => cases hmark
  | named name =>
    cases hmark : u.mark? with
    | some mark =>
      rw [pieces_mangle hmark, List.cons_append] at h
      exact absurd h.symm (hnames.ne_mark (ht name rfl))
    | none =>
      cases u with
      | named name' =>
        have hsame : name = name' := by
          rcases List.append_eq_append_iff.mp h with ⟨more, hmore, -⟩ | ⟨more, hmore, -⟩
          · exact hnames.apart name (ht name rfl) name' (hu name' rfl) ⟨more, hmore.symm⟩
          · exact (hnames.apart name' (hu name' rfl) name (ht name rfl) ⟨more, hmore.symm⟩).symm
        subst hsame
        exact ⟨rfl, List.append_cancel_left h⟩
      | _ => cases hmark
  | pointer target isConst ih =>
    rw [pieces_mangle rfl, List.cons_append] at h
    obtain ⟨hmark, hafter⟩ := hnames.mark?_eq hu h
    cases u with
    | pointer target' isConst' =>
      cases hmark
      obtain ⟨htarget, hrest⟩ := ih (u := target') ht hu hafter
      exact ⟨by rw [canonical, canonical, htarget], hrest⟩
    | _ => cases hmark
  | reference target isConst ih =>
    rw [pieces_mangle rfl, List.cons_append] at h
    obtain ⟨hmark, hafter⟩ := hnames.mark?_eq hu h
    cases u with
    | reference target' isConst' =>
      cases hmark
      obtain ⟨htarget, hrest⟩ := ih (u := target') ht hu hafter
      exact ⟨by rw [canonical, canonical, htarget], hrest⟩
    | _ => cases hmark
  | array element length ih =>
    rw [pieces_mangle rfl, List.cons_append] at h
    obtain ⟨hmark, hafter⟩ := hnames.mark?_eq hu h
    cases u with
    | array element' length' =>
      cases hmark
      obtain ⟨helement, hrest⟩ := ih (u := element') ht hu hafter
      exact ⟨by rw [canonical, canonical, helement], hrest⟩
    | _ => cases hmark

theorem Separable.map_canonical_eq (hnames : Separable names)
    (ht : ∀ t ∈ types, ∀ name ∈ t.structName?, name ∈ names)
    (hu : ∀ u ∈ types', ∀ name ∈ u.structName?, name ∈ names)
    (h : (types.flatMap fun t => pieces t.mangle) = types'.flatMap fun u => pieces u.mangle) :
    types.map canonical = types'.map canonical := by
  induction types generalizing types' with
  | nil =>
    cases types' with
    | nil => rfl
    | cons u rest' => exact absurd (List.append_eq_nil_iff.mp h.symm).1 (pieces_ne_nil _)
  | cons t rest ih =>
    cases types' with
    | nil => exact absurd (List.append_eq_nil_iff.mp h).1 (pieces_ne_nil _)
    | cons u rest' =>
      obtain ⟨ht, hrest⟩ := List.forall_mem_cons.mp ht
      obtain ⟨hu, hrest'⟩ := List.forall_mem_cons.mp hu
      obtain ⟨hfirst, hafter⟩ := hnames.canonical_eq ht hu h
      rw [List.map_cons, List.map_cons, hfirst, ih hrest hrest' hafter]

/-- **The part of a symbol that stands for parameter types determines them** up to the spelling of primitives. An
empty list is written like one of `void`, which is no parameter type. -/
theorem Separable.mangleAll_eq_iff (hnames : Separable names)
    (ht : ∀ t ∈ types, t ≠ .void ∧ ∀ name ∈ t.structName?, name ∈ names)
    (hu : ∀ u ∈ types', u ≠ .void ∧ ∀ name ∈ u.structName?, name ∈ names) :
    mangleAll types = mangleAll types' ↔ types.map canonical = types'.map canonical := by
  have hcanonical (list : List CType) : mangleAll (list.map canonical) = mangleAll list := by
    cases list with
    | nil => rfl
    | cons t rest =>
      have hmangle : ((t :: rest).map canonical).map mangle = (t :: rest).map mangle := by
        rw [List.map_map]
        exact List.map_congr_left fun u _ => mangle_canonical u
      exact congrArg ("_".intercalate ·) hmangle
  -- an empty list reads like a single void
  have hempty {list : List CType} (hlist : ∀ t ∈ list, t ≠ .void ∧ ∀ name ∈ t.structName?, name ∈ names)
      (h : mangleAll [] = mangleAll list) : list = [] := by
    cases list with
    | nil => rfl
    | cons t rest =>
      have hpieces : ([CType.void].flatMap fun t => pieces t.mangle) =
          (t :: rest).flatMap fun t => pieces t.mangle := by
        rw [← pieces_mangleAll (List.cons_ne_nil t rest), ← h]
        rfl
      have hvoid := hnames.map_canonical_eq (by simp [structName?]) (fun t hmem => (hlist t hmem).2) hpieces
      have hfirst := (List.cons.inj hvoid).1
      cases t with
      | void => exact absurd rfl (hlist _ List.mem_cons_self).1
      | _ => cases hfirst
  constructor
  · intro h
    by_cases htypes : types = []
    · subst htypes
      rw [hempty hu h]
    by_cases htypes' : types' = []
    · subst htypes'
      rw [hempty ht h.symm]
    refine hnames.map_canonical_eq (fun t hmem => (ht t hmem).2) (fun u hmem => (hu u hmem).2) ?_
    rw [← pieces_mangleAll htypes, h, pieces_mangleAll htypes']
  · intro h
    rw [← hcanonical types, h, hcanonical]

end CType

end HostBinding
