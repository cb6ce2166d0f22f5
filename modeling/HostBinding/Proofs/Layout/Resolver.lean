import HostBinding.Layout.Resolver
import HostBinding.Proofs.StructBinding.HostLayout

/-!
# What a resolver has found

A resolver remembers layouts while it descends, so what it knows changes from one field to the next. It only
ever grows, though: a layout once found stays, and a struct that is being laid out is never entered by the
descent into its fields. So after a successful descent every remembered layout is the placement of the
declared fields at the extents that are known then.
-/

namespace HostBinding

def Extent.array? (length : UInt64) (extent : Extent) : Option Extent :=
  if extent.size * length.toNat ≤ maxObjectSize then some (extent.array length.toNat) else none

namespace Resolver

variable {α β : Type} {memo memo' memo'' : Table String StructLayout}

/-- A computation succeeds and changes the layouts found so far from `memo` to `memo'`. -/
def Runs (computation : Memoized α) (memo memo' : Table String StructLayout) (a : α) : Prop :=
  computation.run.run memo = (.ok a, memo')

theorem runs_pure {a b : α} : Runs (pure a) memo memo' b ↔ b = a ∧ memo' = memo := by
  constructor
  · intro h
    cases h
    exact ⟨rfl, rfl⟩
  · intro hparts
    obtain ⟨rfl, rfl⟩ := hparts
    rfl

theorem runs_throw {cause : LayoutError} {a : α} : ¬ Runs (throw cause) memo memo' a := by
  intro h
  cases h

theorem runs_bind {x : Memoized α} {f : α → Memoized β} {b : β} :
    Runs (x >>= f) memo memo'' b ↔ ∃ a memo', Runs x memo memo' a ∧ Runs (f a) memo' memo'' b := by
  simp only [Runs, run_bind]
  cases hx : x.run.run memo with
  | mk result memo' =>
    cases result with
    | error cause =>
      constructor
      · intro h
        cases h
      · intro hparts
        obtain ⟨_, _, heq, -⟩ := hparts
        cases heq
    | ok a =>
      constructor
      · exact fun h => ⟨a, memo', rfl, h⟩
      · intro hparts
        obtain ⟨_, _, heq, h⟩ := hparts
        cases heq
        exact h

theorem run_tryCatch (x : Memoized α) (f : LayoutError → LayoutError) :
    (tryCatch x fun cause => throw (f cause)).run.run memo = (x.run.run memo).map (·.mapError f) id := by
  rw [ExceptT.run_tryCatch, StateT.run_bind]
  obtain ⟨⟨result, found⟩, hx⟩ : ∃ outcome, x.run.run memo = outcome := ⟨_, rfl⟩
  rw [hx]
  cases result <;> rfl

theorem runs_tryCatch {x : Memoized α} {f : LayoutError → LayoutError} {a : α} :
    Runs (tryCatch x fun cause => throw (f cause)) memo memo' a ↔ Runs x memo memo' a := by
  rw [Runs, run_tryCatch, Runs]
  obtain ⟨⟨result, found⟩, hx⟩ : ∃ outcome, x.run.run memo = outcome := ⟨_, rfl⟩
  rw [hx]
  cases result with
  | ok a => exact Iff.rfl
  | error cause => constructor <;> (intro h; cases h)

theorem runs_get {found : Table String StructLayout} :
    Runs get memo memo' found ↔ found = memo ∧ memo' = memo := by
  constructor
  · intro h
    cases h
    exact ⟨rfl, rfl⟩
  · intro hparts
    obtain ⟨rfl, rfl⟩ := hparts
    rfl

theorem runs_modify {f : Table String StructLayout → Table String StructLayout} {u : PUnit} :
    Runs (modify f) memo memo' u ↔ memo' = f memo := by
  constructor
  · intro h
    cases h
    rfl
  · intro heq
    subst heq
    rfl

theorem runs_liftExcept {x : Except LayoutError α} {a : α} :
    Runs (placeFields.liftExcept x) memo memo' a ↔ x = .ok a ∧ memo' = memo := by
  cases x with
  | error cause => exact ⟨fun h => absurd h runs_throw, fun h => by cases h.1⟩
  | ok value =>
    rw [placeFields.liftExcept, runs_pure, Except.ok.injEq, eq_comm (a := a)]

/-! ### One step of a descent -/

variable {r : Resolver} {inProgress : List String} {name structName : String} {extent : Extent}
  {layout : StructLayout} {placed : Placement}

theorem runs_typeExtent_array {named : String → Memoized Extent} {element : CType} {length : UInt64} :
    Runs (typeExtent r.pointerWidth named (.array element length)) memo memo' extent ↔
      ∃ inner, Runs (typeExtent r.pointerWidth named element) memo memo' inner ∧
        inner.array? length = some extent := by
  rw [typeExtent, runs_bind]
  constructor
  · intro hparts
    obtain ⟨inner, found, hinner, hrest⟩ := hparts
    refine ⟨inner, ?_⟩
    rw [boundedSize] at hrest
    split at hrest
    · rename_i size hsize
      split at hsize
      · rename_i hbound
        cases hsize
        obtain ⟨rfl, rfl⟩ := runs_pure.mp hrest
        exact ⟨hinner, if_pos hbound⟩
      · cases hsize
    · exact absurd hrest runs_throw
  · intro hparts
    obtain ⟨inner, hinner, hextent⟩ := hparts
    obtain ⟨hbound, heq⟩ := Option.ite_none_right_eq_some.mp hextent
    cases heq
    refine ⟨inner, memo', hinner, ?_⟩
    simp only [boundedSize, if_pos hbound]
    exact runs_pure.mpr ⟨rfl, rfl⟩

theorem runs_placeFields_cons {extentOf : CType → Memoized Extent} {field : FieldDecl}
    {rest : List FieldDecl} :
    Runs (placeFields extentOf structName (field :: rest) placed) memo memo' layout ↔
      ∃ extent found next, Runs (extentOf field.type) memo found extent ∧
        placed.push structName field extent = .ok next ∧
        Runs (placeFields extentOf structName rest next) found memo' layout := by
  rw [placeFields, runs_bind]
  simp only [runs_tryCatch, runs_bind, runs_liftExcept]
  constructor
  · intro hparts
    obtain ⟨extent, found, hextent, next, _, ⟨hpush, rfl⟩, hrest⟩ := hparts
    exact ⟨extent, _, next, hextent, hpush, hrest⟩
  · intro hparts
    obtain ⟨extent, found, next, hextent, hpush, hrest⟩ := hparts
    exact ⟨extent, found, hextent, next, found, ⟨hpush, rfl⟩, hrest⟩

theorem runs_namedExtent {layoutOf : String → Memoized StructLayout} :
    Runs (namedExtent r.known layoutOf name) memo memo' extent ↔
      r.known.get? name = some extent ∧ memo' = memo ∨
      r.known.get? name = none ∧ ∃ layout, Runs (layoutOf name) memo memo' layout ∧
        layout.toExtent = extent := by
  rw [namedExtent]
  cases hknown : r.known.get? name with
  | some known => simp [runs_pure, eq_comm (a := extent)]
  | none =>
    simp only [runs_bind, runs_pure, reduceCtorEq, false_and, false_or, true_and]
    constructor
    · intro hparts
      obtain ⟨layout, found, hlayout, rfl, rfl⟩ := hparts
      exact ⟨layout, hlayout, rfl⟩
    · intro hparts
      obtain ⟨layout, hlayout, rfl⟩ := hparts
      exact ⟨layout, memo', hlayout, rfl, rfl⟩

/-- A descent looks the struct up and otherwise goes into its fields, unless it is in progress or not declared. -/
theorem layoutWithin_eq (r : Resolver) (inProgress : List String) (name : String) :
    r.layoutWithin inProgress name = (do
      match (← get).get? name with
      | some layout => pure layout
      | none =>
        if name ∈ inProgress then throw (.recursive name)
        else match r.declared? name with
          | none => throw (.unknownType name)
          | some decl =>
            let layout ← placeFields (typeExtent r.pointerWidth
              (namedExtent r.known (r.layoutWithin (name :: inProgress)))) decl.name decl.fields {}
            modify (·.insert name layout)
            pure layout) := by
  rw [layoutWithin]
  refine congrArg (get >>= ·) (funext fun memo => ?_)
  cases memo.get? name with
  | some layout => rfl
  | none =>
    by_cases hfresh : name ∈ inProgress
    · simp only [hfresh, dite_true, if_true]
    · simp only [hfresh, dite_false, if_false]
      split <;> rename_i hdecl <;> rw [hdecl]

theorem runs_layoutWithin :
    Runs (r.layoutWithin inProgress name) memo memo' layout ↔
      memo.get? name = some layout ∧ memo' = memo ∨
      memo.get? name = none ∧ name ∉ inProgress ∧ ∃ decl found, r.declared? name = some decl ∧
        Runs (placeFields (typeExtent r.pointerWidth
          (namedExtent r.known fun inner => r.layoutWithin (name :: inProgress) inner))
          decl.name decl.fields {}) memo found layout ∧ memo' = found.insert name layout := by
  rw [layoutWithin_eq, runs_bind]
  simp only [runs_get, exists_and_left, and_assoc, exists_eq_left]
  cases hmemo : memo.get? name with
  | some held => simp [runs_pure, eq_comm (a := layout)]
  | none =>
    by_cases hfresh : name ∈ inProgress
    · simp [hfresh, runs_throw]
    · simp only [hfresh, if_false, reduceCtorEq, false_and, false_or, not_false_eq_true, true_and]
      cases hdecl : r.declared? name with
      | none => simp [runs_throw]
      | some decl =>
        simp only [runs_bind, runs_modify, runs_pure, Option.some.injEq]
        constructor
        · intro hparts
          obtain ⟨_, found, hplace, _, _, rfl, rfl, rfl⟩ := hparts
          exact ⟨decl, rfl, found, hplace, rfl⟩
        · intro hparts
          obtain ⟨_, rfl, found, hplace, rfl⟩ := hparts
          exact ⟨layout, found, hplace, ⟨⟩, _, rfl, rfl, rfl⟩

theorem run_namedExtent_of_unknown {layoutOf : String → Memoized StructLayout} (hunknown : r.known.get? name = none) :
    (namedExtent r.known layoutOf name).run.run memo =
      ((layoutOf name).run.run memo).map (·.map (·.toExtent)) id := by
  rw [namedExtent, hunknown]
  dsimp only
  rw [run_bind]
  split <;> rename_i hlayout <;> rw [hlayout] <;> rfl

/-- The extent of an array by that of its element. -/
def arrayResult (element : CType) (length : UInt64) (result : Except LayoutError Extent) :
    Except LayoutError Extent :=
  result.bind fun extent =>
    (boundedSize (CType.array element length).spell (extent.size * length.toNat)).map (⟨·, extent.alignment⟩)

theorem run_typeExtent_array {named : String → Memoized Extent} {element : CType} {length : UInt64} :
    (typeExtent r.pointerWidth named (.array element length)).run.run memo =
      ((typeExtent r.pointerWidth named element).run.run memo).map (arrayResult element length) id := by
  rw [typeExtent, run_bind]
  split <;> rename_i extent found helement <;> rw [helement]
  · dsimp only [Prod.map, arrayResult, Except.bind]
    split <;> rename_i hsize <;> rw [hsize] <;> rfl
  · rfl

theorem run_placeFields_nil {extentOf : CType → Memoized Extent} :
    (placeFields extentOf structName [] placed).run.run memo = (placed.close structName, memo) := by
  rw [placeFields]
  cases placed.close structName <;> rfl

theorem run_placeFields_cons {extentOf : CType → Memoized Extent} {field : FieldDecl} {rest : List FieldDecl} :
    (placeFields extentOf structName (field :: rest) placed).run.run memo =
      let (result, found) := (extentOf field.type).run.run memo
      match (result.mapError (blame structName field)).bind (placed.push structName field) with
      | .ok next => (placeFields extentOf structName rest next).run.run found
      | .error cause => (.error cause, found) := by
  rw [placeFields, run_bind, run_tryCatch]
  obtain ⟨⟨result, found⟩, hrun⟩ : ∃ outcome, (extentOf field.type).run.run memo = outcome := ⟨_, rfl⟩
  rw [hrun]
  cases result with
  | error cause => rfl
  | ok extent =>
    dsimp only [Prod.map, Except.mapError, Except.bind, id]
    rw [run_bind]
    cases placed.push structName field extent <;> rfl

/-- What a finished layout adds to the layouts found so far. A failure adds nothing. -/
def remember (name : String) (result : Except LayoutError StructLayout) (memo : Table String StructLayout) :
    Table String StructLayout :=
  match result with
  | .ok layout => memo.insert name layout
  | .error _ => memo

/-- A descent into a struct that is not found yet is one into its fields. -/
theorem run_layoutWithin_of_absent (habsent : memo.get? name = none) :
    (r.layoutWithin inProgress name).run.run memo =
      if name ∈ inProgress then (.error (.recursive name), memo)
      else match r.declared? name with
        | none => (.error (.unknownType name), memo)
        | some decl =>
          let (result, found) := (placeFields (typeExtent r.pointerWidth (namedExtent r.known
            (r.layoutWithin (name :: inProgress)))) decl.name decl.fields {}).run.run memo
          (result, remember name result found) := by
  have hread : (get : Memoized (Table String StructLayout)).run.run memo = (.ok memo, memo) := rfl
  rw [layoutWithin_eq, run_bind, hread]
  simp only [habsent]
  by_cases hfresh : name ∈ inProgress
  · rw [if_pos hfresh, if_pos hfresh]
    rfl
  · rw [if_neg hfresh, if_neg hfresh]
    cases r.declared? name with
    | none => rfl
    | some decl =>
      dsimp only
      rw [run_bind]
      split <;> rename_i hplace <;> rw [hplace] <;> rfl

theorem run_layoutWithin_of_held {layout : StructLayout} (hheld : memo.get? name = some layout) :
    (r.layoutWithin inProgress name).run.run memo = (.ok layout, memo) :=
  runs_layoutWithin.mpr (.inl ⟨hheld, rfl⟩)

theorem resolve_eq_ok_iff {r' : Resolver} :
    r.resolve name = (.ok layout, r') ↔
      ∃ memo', r' = { r with memo := memo' } ∧ Runs (r.layoutWithin [] name) r.memo memo' layout := by
  obtain ⟨⟨result, found⟩, hruns⟩ : ∃ outcome, (r.layoutWithin [] name).run.run r.memo = outcome :=
    ⟨_, rfl⟩
  simp only [resolve, run, Runs, hruns, Prod.mk.injEq, eq_comm (b := r')]
  constructor
  · intro hparts
    obtain ⟨rfl, rfl⟩ := hparts
    exact ⟨found, rfl, rfl⟩
  · intro hparts
    obtain ⟨memo', rfl, heq⟩ := hparts
    cases heq
    exact ⟨rfl, rfl⟩

theorem exists_declared? {decl : StructDecl} (hmem : decl ∈ r.structs) :
    ∃ last, r.declared? decl.name = some last := by
  rw [← Option.isSome_iff_exists, declared?, List.find?_isSome]
  exact ⟨decl, List.mem_reverse.mpr hmem, by simp⟩

/-! ### Extents that are known -/

/-- The extent of a type as far as it is known already. -/
def extentIn (r : Resolver) (memo : Table String StructLayout) : CType → Option Extent
  | .void | .reference _ _ => none
  | .primitive kind _ => some ⟨kind.size, kind.size⟩
  | .pointer _ _ => some ⟨r.pointerWidth, r.pointerWidth⟩
  | .named name => (r.known.get? name).or ((memo.get? name).map (·.toExtent))
  | .array element length => (r.extentIn memo element).map (·.array length.toNat)

/-- A layout is the placement of the declared fields at the extents that are known. -/
def Placed (r : Resolver) (memo : Table String StructLayout) (name : String) (layout : StructLayout) : Prop :=
  ∃ decl extents, r.declared? name = some decl ∧
    List.Forall₂ (fun (field : FieldDecl) extent => r.extentIn memo field.type = some extent)
      decl.fields extents ∧
    layout.toExtent = (reprC 1 (if extents = [] then [⟨1, 1⟩] else extents)).toExtent ∧
    layout.fields.map (·.offset) = (reprC 1 extents).offsets ∧
    layout.fields.map (·.name) = decl.fields.map (·.name)

theorem extentIn_mono (hkeeps : ∀ name layout, memo.get? name = some layout → memo'.get? name = some layout)
    {type : CType} {extent : Extent} (h : r.extentIn memo type = some extent) :
    r.extentIn memo' type = some extent := by
  induction type generalizing extent with
  | named name =>
    rw [extentIn, Option.or_eq_some_iff] at h ⊢
    rcases h with hknown | ⟨hknown, hfound⟩
    · exact .inl hknown
    · obtain ⟨layout, hlayout, rfl⟩ := Option.map_eq_some_iff.mp hfound
      exact .inr ⟨hknown, by rw [hkeeps name layout hlayout]; rfl⟩
  | array element length ih =>
    obtain ⟨inner, hinner, rfl⟩ := Option.map_eq_some_iff.mp h
    rw [extentIn, ih hinner]
    rfl
  | _ => exact h

theorem Placed.mono (hkeeps : ∀ name layout, memo.get? name = some layout → memo'.get? name = some layout)
    {name : String} {layout : StructLayout} (h : r.Placed memo name layout) : r.Placed memo' name layout := by
  obtain ⟨decl, extents, hdecl, hextents, hrest⟩ := h
  exact ⟨decl, extents, hdecl, hextents.imp fun _ _ => extentIn_mono hkeeps, hrest⟩

/-- What a successful computation may do to the layouts found so far while some structs are in progress. -/
structure Finds (r : Resolver) (inProgress : List String) (memo memo' : Table String StructLayout) :
    Prop where
  keeps : ∀ name layout, memo.get? name = some layout → memo'.get? name = some layout
  untouched : ∀ name ∈ inProgress, memo'.get? name = memo.get? name
  placed : ∀ name layout, memo'.get? name = some layout →
    memo.get? name = some layout ∨ r.Placed memo' name layout

theorem Finds.refl (r : Resolver) (inProgress : List String) (memo : Table String StructLayout) :
    r.Finds inProgress memo memo :=
  ⟨fun _ _ h => h, fun _ _ => rfl, fun _ _ h => .inl h⟩

theorem Finds.trans (h : r.Finds inProgress memo memo') (h' : r.Finds inProgress memo' memo'') :
    r.Finds inProgress memo memo'' := by
  constructor
  case keeps => exact fun name layout hold => h'.keeps name layout (h.keeps name layout hold)
  case untouched => exact fun name hmem => (h'.untouched name hmem).trans (h.untouched name hmem)
  case placed =>
    intro name layout hnew
    rcases h'.placed name layout hnew with hmiddle | hplaced
    · exact (h.placed name layout hmiddle).imp_right (Placed.mono h'.keeps)
    · exact .inr hplaced

/-! ### Descents that succeed -/

theorem finds_of_typeExtent {named : String → Memoized Extent}
    (hnamed : ∀ name memo memo' extent, Runs (named name) memo memo' extent →
      r.Finds inProgress memo memo' ∧ r.extentIn memo' (.named name) = some extent)
    {type : CType} {extent : Extent} (h : Runs (typeExtent r.pointerWidth named type) memo memo' extent) :
    r.Finds inProgress memo memo' ∧ r.extentIn memo' type = some extent := by
  induction type generalizing memo' extent with
  | void => exact absurd h runs_throw
  | reference => exact absurd h runs_throw
  | primitive kind spelling =>
    obtain ⟨rfl, rfl⟩ := runs_pure.mp h
    exact ⟨.refl r inProgress _, rfl⟩
  | pointer target isConst =>
    obtain ⟨rfl, rfl⟩ := runs_pure.mp h
    exact ⟨.refl r inProgress _, rfl⟩
  | named name => exact hnamed name memo memo' extent h
  | array element length ih =>
    obtain ⟨inner, hinner, hextent⟩ := runs_typeExtent_array.mp h
    obtain ⟨hfinds, hknown⟩ := ih hinner
    obtain ⟨-, heq⟩ := Option.ite_none_right_eq_some.mp hextent
    exact ⟨hfinds, by rw [extentIn, hknown]; exact heq⟩

theorem Placement.push_eq_ok {placed next : Placement} {structName : String} {field : FieldDecl}
    {extent : Extent} (h : placed.push structName field extent = .ok next) :
    next.stop = padTo placed.stop extent.alignment + extent.size ∧
    next.alignment = max placed.alignment extent.alignment ∧
    next.fields.map (·.offset) = placed.fields.map (·.offset) ++ [padTo placed.stop extent.alignment] ∧
    next.fields.map (·.name) = placed.fields.map (·.name) ++ [field.name] := by
  simp only [Placement.push] at h
  split at h
  · cases h
    simp [padTo_eq_alignUp]
  · cases h

theorem close_eq_ok_iff :
    placed.close structName = .ok layout ↔
      (if placed.fields = [] then 1 else padTo placed.stop placed.alignment) ≤ maxObjectSize ∧
      layout = ⟨⟨if placed.fields = [] then 1 else padTo placed.stop placed.alignment, placed.alignment⟩,
        structName, placed.fields⟩ := by
  simp only [Placement.close, boundedSize, List.isEmpty_iff, ← padTo_eq_alignUp]
  by_cases hempty : placed.fields = []
  · simp [hempty, Except.map, maxObjectSize, eq_comm]
  · by_cases hbound : padTo placed.stop placed.alignment ≤ maxObjectSize
    · simp [hempty, hbound, Except.map, eq_comm]
    · simp [hempty, hbound, Except.map]

/-- A layout goes on from the fields placed so far by members of given extents and names. -/
structure Completes (placed : Placement) (extents : List Extent) (names : List String) (layout : StructLayout) :
    Prop where
  alignment : layout.alignment = (placeMembers placed.stop placed.alignment extents).2.1
  size : layout.size = if layout.fields = [] then 1 else
    padTo (placeMembers placed.stop placed.alignment extents).1
      (placeMembers placed.stop placed.alignment extents).2.1
  offsets : layout.fields.map (·.offset) = placed.fields.map (·.offset) ++
    (placeMembers placed.stop placed.alignment extents).2.2
  names : layout.fields.map (·.name) = placed.fields.map (·.name) ++ names

theorem completes_of_close (h : placed.close structName = .ok layout) : Completes placed [] [] layout := by
  obtain ⟨-, rfl⟩ := close_eq_ok_iff.mp h
  exact ⟨rfl, rfl, (List.append_nil _).symm, (List.append_nil _).symm⟩

theorem Completes.push {next : Placement} {field : FieldDecl} {extent : Extent} {extents : List Extent}
    {names : List String} (hpush : placed.push structName field extent = .ok next)
    (h : Completes next extents names layout) :
    Completes placed (extent :: extents) (field.name :: names) layout := by
  obtain ⟨hstop, hmax, hoffsets, hnames⟩ := Placement.push_eq_ok hpush
  constructor
  case alignment => simpa only [placeMembers, ← hstop, ← hmax] using h.alignment
  case size => simpa only [placeMembers, ← hstop, ← hmax] using h.size
  case offsets =>
    simp only [placeMembers, ← hstop, ← hmax]
    rw [h.offsets, hoffsets, List.append_assoc, List.singleton_append]
  case names => rw [h.names, hnames, List.append_assoc, List.singleton_append]

theorem finds_of_placeFields {extentOf : CType → Memoized Extent}
    (hextentOf : ∀ type memo memo' extent, Runs (extentOf type) memo memo' extent →
      r.Finds inProgress memo memo' ∧ r.extentIn memo' type = some extent)
    {structName : String} {fields : List FieldDecl} {placed : Placement} {layout : StructLayout}
    (h : Runs (placeFields extentOf structName fields placed) memo memo' layout) :
    r.Finds inProgress memo memo' ∧ ∃ extents,
      List.Forall₂ (fun (field : FieldDecl) extent => r.extentIn memo' field.type = some extent)
        fields extents ∧
      Completes placed extents (fields.map (·.name)) layout := by
  induction fields generalizing memo placed with
  | nil =>
    obtain ⟨hclose, rfl⟩ := runs_liftExcept.mp h
    exact ⟨.refl r inProgress _, [], .nil, completes_of_close hclose⟩
  | cons field rest ih =>
    obtain ⟨extent, found, next, hextent, hpush, htail⟩ := runs_placeFields_cons.mp h
    obtain ⟨hfinds, hknown⟩ := hextentOf _ _ _ _ hextent
    obtain ⟨hrest, extents, hextents, hcompletes⟩ := ih htail
    exact ⟨hfinds.trans hrest, extent :: extents, .cons (extentIn_mono hrest.keeps hknown) hextents,
      hcompletes.push hpush⟩

theorem finds_of_namedExtent {layoutOf : String → Memoized StructLayout} {name : String} {extent : Extent}
    (hlayoutOf : ∀ memo memo' layout, Runs (layoutOf name) memo memo' layout →
      r.Finds inProgress memo memo' ∧ memo'.get? name = some layout)
    (h : Runs (namedExtent r.known layoutOf name) memo memo' extent) :
    r.Finds inProgress memo memo' ∧ r.extentIn memo' (.named name) = some extent := by
  obtain ⟨hknown, rfl⟩ | ⟨hknown, layout, hlayout, rfl⟩ := runs_namedExtent.mp h
  · exact ⟨.refl r inProgress _, by rw [extentIn, hknown]; rfl⟩
  · obtain ⟨hfinds, hfound⟩ := hlayoutOf _ _ _ hlayout
    exact ⟨hfinds, by rw [extentIn, hknown, hfound]; rfl⟩

theorem Finds.insert {name : String} {layout : StructLayout} (h : r.Finds (name :: inProgress) memo memo')
    (hfresh : name ∉ inProgress) (hnew : memo.get? name = none) (hplaced : r.Placed memo' name layout) :
    r.Finds inProgress memo (memo'.insert name layout) := by
  have habsent : memo'.get? name = none := (h.untouched name List.mem_cons_self).trans hnew
  have hkeeps : ∀ n l, memo'.get? n = some l → (memo'.insert name layout).get? n = some l := by
    intro n l hn
    rw [Table.get?_insert, if_neg]
    · exact hn
    · intro heq
      subst heq
      rw [habsent] at hn
      cases hn
  constructor
  case keeps => exact fun n l hn => hkeeps n l (h.keeps n l hn)
  case untouched =>
    intro n hn
    have hne : n ≠ name := fun heq => hfresh (heq ▸ hn)
    rw [Table.get?_insert, if_neg hne]
    exact h.untouched n (List.mem_cons_of_mem _ hn)
  case placed =>
    intro n l hn
    rw [Table.get?_insert] at hn
    split at hn
    · rename_i heq
      subst heq
      cases hn
      exact .inr (hplaced.mono hkeeps)
    · exact (h.placed n l hn).imp_right (Placed.mono hkeeps)

theorem length_placeMembers (stop alignment : Nat) (extents : List Extent) :
    (placeMembers stop alignment extents).2.2.length = extents.length := by
  induction extents generalizing stop alignment with
  | nil => rfl
  | cons extent rest ih => simp [placeMembers, ih]

/-- A layout of members alone is that of a host type with these members. A struct without fields is as large as
one byte. -/
theorem Completes.eq_reprC {extents : List Extent} {names : List String} {layout : StructLayout}
    (h : Completes {} extents names layout) :
    layout.toExtent = (reprC 1 (if extents = [] then [⟨1, 1⟩] else extents)).toExtent ∧
    layout.fields.map (·.offset) = (reprC 1 extents).offsets ∧ layout.fields.map (·.name) = names := by
  obtain ⟨halignment, hsize, hoffsets, hnames⟩ := h
  obtain ⟨⟨size, alignment⟩, name, fields⟩ := layout
  have hlength := congrArg List.length hoffsets
  simp only [List.map_nil, List.length_map, List.nil_append, length_placeMembers] at hlength
  have hempty : fields = [] ↔ extents = [] := by
    rw [← List.length_eq_zero_iff, hlength, List.length_eq_zero_iff]
  refine ⟨?_, by simpa [reprC] using hoffsets, hnames⟩
  simp only [hempty] at hsize halignment ⊢
  by_cases hextents : extents = []
  · subst hextents
    simp_all [reprC, placeMembers, padTo_one]
  · simp_all [reprC]

/-- **A successful descent remembers the layout of the struct, and everything new that it remembers is placed
at the extents that are known after it.** -/
theorem finds_of_layoutWithin {name : String} {layout : StructLayout}
    (h : Runs (r.layoutWithin inProgress name) memo memo' layout) :
    r.Finds inProgress memo memo' ∧ memo'.get? name = some layout := by
  -- on the number of declared structs that are not in progress
  induction hcount : (remaining r.structs inProgress).length using Nat.strongRecOn
    generalizing inProgress name memo memo' layout with
  | _ count ih =>
  subst hcount
  obtain ⟨hheld, rfl⟩ | ⟨hmemo, hfresh, decl, found, hdecl, hplace, rfl⟩ := runs_layoutWithin.mp h
  · exact ⟨.refl r inProgress _, hheld⟩
  · have hdescent := length_remaining_lt (mem_names_of_declared? hdecl) hfresh
    have hnamed : ∀ inner memo memo' extent,
        Runs (namedExtent r.known (fun inner => r.layoutWithin (name :: inProgress) inner) inner)
          memo memo' extent →
        r.Finds (name :: inProgress) memo memo' ∧ r.extentIn memo' (.named inner) = some extent :=
      fun inner memo memo' extent => finds_of_namedExtent fun _ _ _ hlayout => ih _ hdescent hlayout rfl
    obtain ⟨hfinds, extents, hextents, hcompletes⟩ :=
      finds_of_placeFields (fun type _ _ _ => finds_of_typeExtent hnamed) hplace
    obtain ⟨hextent, hoffsets, hnames⟩ := hcompletes.eq_reprC
    exact ⟨hfinds.insert hfresh hmemo ⟨decl, extents, hdecl, hextents, hextent, hoffsets, hnames⟩,
      by rw [Table.get?_insert, if_pos rfl]⟩

theorem extentIn_withMemo (found : Table String StructLayout) (type : CType) :
    ({ r with memo := found } : Resolver).extentIn memo type = r.extentIn memo type := by
  induction type with
  | array element length ih => rw [extentIn, extentIn, ih]
  | _ => rfl

theorem placed_withMemo (found : Table String StructLayout) {name : String} {layout : StructLayout} :
    ({ r with memo := found } : Resolver).Placed memo name layout ↔ r.Placed memo name layout := by
  simp only [Placed, extentIn_withMemo]
  exact Iff.rfl

theorem finds_of_resolve {r' : Resolver} {name : String} {layout : StructLayout}
    (h : r.resolve name = (.ok layout, r')) :
    ∃ memo', r' = { r with memo := memo' } ∧ r.Finds [] r.memo memo' ∧ memo'.get? name = some layout := by
  obtain ⟨memo', rfl, hruns⟩ := resolve_eq_ok_iff.mp h
  exact ⟨memo', rfl, finds_of_layoutWithin hruns⟩

end Resolver

end HostBinding
