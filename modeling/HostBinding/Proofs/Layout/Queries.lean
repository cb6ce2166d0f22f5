import HostBinding.Proofs.Layout.Depth

/-!
# Resolvers that have been asked

A resolver can be asked for layouts and extents any number of times, and a question that fails leaves behind
the layouts that were found on the way. These are right too, so what a resolver answers never depends on what
it was asked before: an answer is the one that some depth gives.
-/

namespace HostBinding

namespace Resolver

/-- A resolver is another one that has been asked some questions. -/
inductive Asked (start : Resolver) : Resolver → Prop where
  | nothing : Asked start start
  | resolve {r : Resolver} (h : Asked start r) (name : String) : Asked start (r.resolve name).2
  | extent {r : Resolver} (h : Asked start r) (type : CType) : Asked start (r.extent type).2

/-- A computation adds nothing wrong to what is remembered, not even when it fails. -/
def KeepsRight {α : Type} (r : Resolver) (computation : Memoized α) : Prop :=
  ∀ memo, r.Remembers memo → r.Remembers (computation.run.run memo).2

variable {α β : Type} {r start : Resolver} {memo : Table String StructLayout} {inProgress : List String}
  {name structName : String} {type : CType} {extent : Extent} {layout : StructLayout}

/-! ### Failures on the way -/

theorem keepsRight_pure (a : α) : r.KeepsRight (pure a : Memoized α) :=
  fun _ hmemo => hmemo

theorem keepsRight_throw (cause : LayoutError) : r.KeepsRight (throw cause : Memoized α) :=
  fun _ hmemo => hmemo

theorem KeepsRight.bind {x : Memoized α} {f : α → Memoized β} (hx : r.KeepsRight x)
    (hf : ∀ a, r.KeepsRight (f a)) : r.KeepsRight (x >>= f) := by
  intro memo hmemo
  have hfirst := hx memo hmemo
  rw [run_bind]
  obtain ⟨⟨result, found⟩, hrun⟩ : ∃ outcome, x.run.run memo = outcome := ⟨_, rfl⟩
  rw [hrun] at hfirst ⊢
  cases result with
  | error cause => exact hfirst
  | ok a => exact hf a found hfirst

theorem KeepsRight.tryCatch {x : Memoized α} (hx : r.KeepsRight x) (f : LayoutError → LayoutError) :
    r.KeepsRight (tryCatch x fun cause => throw (f cause)) := by
  intro memo hmemo
  rw [run_tryCatch]
  exact hx memo hmemo

theorem keepsRight_liftExcept (x : Except LayoutError α) : r.KeepsRight (placeFields.liftExcept x) := by
  cases x with
  | error cause => exact keepsRight_throw cause
  | ok a => exact keepsRight_pure a

theorem keepsRight_typeExtent {named : String → Memoized Extent} (hnamed : ∀ name, r.KeepsRight (named name))
    (type : CType) : r.KeepsRight (typeExtent r.pointerWidth named type) := by
  induction type with
  | void => exact keepsRight_throw _
  | reference => exact keepsRight_throw _
  | primitive => exact keepsRight_pure _
  | pointer => exact keepsRight_pure _
  | named name => exact hnamed name
  | array element length ih =>
    refine ih.bind fun extent => ?_
    split
    · exact keepsRight_pure _
    · exact keepsRight_throw _

theorem keepsRight_placeFields {extentOf : CType → Memoized Extent} (structName : String)
    (hextentOf : ∀ type, r.KeepsRight (extentOf type)) (fields : List FieldDecl) (placed : Placement) :
    r.KeepsRight (placeFields extentOf structName fields placed) := by
  induction fields generalizing placed with
  | nil => exact keepsRight_liftExcept _
  | cons field rest ih =>
    refine ((hextentOf field.type).tryCatch _).bind fun extent => ?_
    exact (keepsRight_liftExcept _).bind ih

theorem keepsRight_namedExtent {layoutOf : String → Memoized StructLayout}
    (hlayoutOf : ∀ name, r.KeepsRight (layoutOf name)) (name : String) :
    r.KeepsRight (namedExtent r.known layoutOf name) := by
  rw [namedExtent]
  split
  · exact keepsRight_pure _
  · exact (hlayoutOf name).bind fun layout => keepsRight_pure _

theorem keepsRight_layoutWithin (r : Resolver) (inProgress : List String) (name : String) :
    r.KeepsRight (r.layoutWithin inProgress name) := by
  -- on the number of declared structs that are not in progress
  induction hcount : (remaining r.structs inProgress).length using Nat.strongRecOn
    generalizing inProgress name with
  | _ count ih =>
  subst hcount
  intro memo hmemo
  obtain ⟨⟨result, found⟩, hrun⟩ : ∃ outcome, (r.layoutWithin inProgress name).run.run memo = outcome :=
    ⟨_, rfl⟩
  rw [hrun]
  cases result with
  | ok layout => exact (laysOut_of_runs hmemo hrun).1
  | error cause =>
    cases hheld : memo.get? name with
    | some held =>
      rw [run_layoutWithin_of_held hheld] at hrun
      cases hrun
    | none =>
      rw [run_layoutWithin_of_absent hheld] at hrun
      split at hrun
      · cases hrun
        exact hmemo
      · rename_i hfresh
        cases hdecl : r.declared? name with
        | none =>
          rw [hdecl] at hrun
          cases hrun
          exact hmemo
        | some decl =>
          have hdescent := length_remaining_lt (mem_names_of_declared? hdecl) hfresh
          have hinside (inner : String) : r.KeepsRight (r.layoutWithin (name :: inProgress) inner) :=
            ih _ hdescent _ inner rfl
          have hplace := keepsRight_placeFields decl.name (keepsRight_typeExtent (keepsRight_namedExtent hinside))
            decl.fields {} memo hmemo
          rw [hdecl] at hrun
          dsimp only at hrun
          generalize hfields : (placeFields _ decl.name decl.fields {}).run.run memo = outcome at hrun hplace
          obtain ⟨result, after⟩ := outcome
          cases hrun
          exact hplace

/-! ### Answers -/

theorem remembers_empty (r : Resolver) : r.Remembers ∅ := by
  intro name layout hheld
  rw [Table.get?_empty] at hheld
  cases hheld

theorem Asked.exists_memo (h : start.Asked r) (hfresh : start.memo = ∅) :
    ∃ memo, r = { start with memo := memo } ∧ start.Remembers memo := by
  induction h with
  | nothing => exact ⟨∅, by rw [← hfresh], remembers_empty start⟩
  | resolve h name ih =>
    obtain ⟨memo, rfl, hmemo⟩ := ih
    have hkeeps := keepsRight_layoutWithin { start with memo := memo } [] name memo
      (remembers_withMemo.mpr hmemo)
    exact ⟨_, rfl, remembers_withMemo.mp hkeeps⟩
  | extent h type ih =>
    obtain ⟨memo, rfl, hmemo⟩ := ih
    have hkeeps := keepsRight_typeExtent (r := { start with memo := memo })
      (keepsRight_namedExtent (keepsRight_layoutWithin _ [])) type memo (remembers_withMemo.mpr hmemo)
    exact ⟨_, rfl, remembers_withMemo.mp hkeeps⟩

theorem resolve_fst_eq_ok_iff (hmemo : r.Remembers r.memo) :
    (r.resolve name).1 = .ok layout ↔ r.LaysOut name layout := by
  constructor
  · intro h
    have hresolve : r.resolve name = (.ok layout, (r.resolve name).2) := Prod.ext h rfl
    exact (laysOut_of_resolve hmemo hresolve).1
  · intro h
    obtain ⟨memo, hresolve, -⟩ := resolve_of_laysOut hmemo h
    rw [hresolve]

theorem extent_fst_eq_ok_iff (hmemo : r.Remembers r.memo) :
    (r.extent type).1 = .ok extent ↔ ∃ depth, r.extentAt? depth type = some extent := by
  have hruns : (r.extent type).1 = .ok extent ↔
      ∃ memo, Runs (typeExtent r.pointerWidth (namedExtent r.known (r.layoutWithin [])) type)
        r.memo memo extent := by
    constructor
    · exact fun h => ⟨_, Prod.ext h rfl⟩
    · intro hruns
      obtain ⟨memo, hruns⟩ := hruns
      exact congrArg Prod.fst hruns
  rw [hruns]
  constructor
  · intro hruns
    obtain ⟨memo, hruns⟩ := hruns
    exact (extentAt?_of_runs (namedAt?_of_runs fun _ _ _ _ => laysOut_of_runs) hmemo hruns).2
  · intro hdepth
    obtain ⟨depth, hdepth⟩ := hdepth
    obtain ⟨memo, hruns, -⟩ := runs_of_extentAt?
      (runs_of_namedAt? fun _ _ _ => runs_of_layoutAt? (List.forall_mem_nil _)) hmemo hdepth
    exact ⟨memo, hruns⟩

end Resolver

end HostBinding
