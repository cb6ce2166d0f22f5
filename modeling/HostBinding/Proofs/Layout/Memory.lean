import HostBinding.Proofs.Layout.Nesting

/-!
# What a resolver remembers

A resolver keeps the layouts that it finds, also those found on the way to a failure, so each question leaves it
with more than it had. None of that can be seen in its answers: as long as what is remembered is right, a descent
answers the same from any memory, and a cycle is reported where the descent at hand meets it and not where an
earlier one did.
-/

namespace HostBinding

namespace Resolver

variable {α β : Type} {r : Resolver} {memo : Table String StructLayout} {inProgress : List String}
  {name structName : String} {type : CType} {layout : StructLayout}

/-- What a computation answers does not depend on what is remembered, as long as that is right. -/
def AnswersAlike (r : Resolver) (computation : Memoized α) : Prop :=
  ∀ memo memo', r.Remembers memo → r.Remembers memo' →
    (computation.run.run memo).1 = (computation.run.run memo').1

/-! ### Computations that read the memory only through others -/

theorem answersAlike_pure (a : α) : r.AnswersAlike (pure a : Memoized α) :=
  fun _ _ _ _ => rfl

theorem answersAlike_throw (cause : LayoutError) : r.AnswersAlike (throw cause : Memoized α) :=
  fun _ _ _ _ => rfl

theorem AnswersAlike.bind {x : Memoized α} {f : α → Memoized β} (hx : r.AnswersAlike x) (hkeeps : r.KeepsRight x)
    (hf : ∀ a, r.AnswersAlike (f a)) : r.AnswersAlike (x >>= f) := by
  intro memo memo' hmemo hmemo'
  have hanswer := hx memo memo' hmemo hmemo'
  have hfound := hkeeps memo hmemo
  have hfound' := hkeeps memo' hmemo'
  rw [run_bind, run_bind]
  obtain ⟨⟨result, found⟩, hrun⟩ : ∃ outcome, x.run.run memo = outcome := ⟨_, rfl⟩
  obtain ⟨⟨result', found'⟩, hrun'⟩ : ∃ outcome, x.run.run memo' = outcome := ⟨_, rfl⟩
  rw [hrun] at hanswer hfound ⊢
  rw [hrun'] at hanswer hfound' ⊢
  obtain rfl : result = result' := hanswer
  cases result with
  | error cause => rfl
  | ok a => exact hf a found found' hfound hfound'

theorem AnswersAlike.tryCatch {x : Memoized α} (hx : r.AnswersAlike x) (f : LayoutError → LayoutError) :
    r.AnswersAlike (tryCatch x fun cause => throw (f cause)) := by
  intro memo memo' hmemo hmemo'
  rw [run_tryCatch, run_tryCatch]
  exact congrArg (·.mapError f) (hx memo memo' hmemo hmemo')

theorem answersAlike_liftExcept (x : Except LayoutError α) : r.AnswersAlike (placeFields.liftExcept x) := by
  cases x with
  | error cause => exact answersAlike_throw cause
  | ok a => exact answersAlike_pure a

theorem answersAlike_namedExtent {layoutOf : String → Memoized StructLayout}
    (hlayoutOf : r.known.get? name = none → r.AnswersAlike (layoutOf name))
    (hkeeps : ∀ inner, r.KeepsRight (layoutOf inner)) : r.AnswersAlike (namedExtent r.known layoutOf name) := by
  rw [namedExtent]
  cases hknown : r.known.get? name with
  | some extent => exact answersAlike_pure extent
  | none => exact (hlayoutOf hknown).bind (hkeeps name) fun layout => answersAlike_pure layout.toExtent

theorem answersAlike_typeExtent {named : String → Memoized Extent}
    (hnamed : ∀ inner, type.element = .named inner → r.AnswersAlike (named inner))
    (hkeeps : ∀ inner, r.KeepsRight (named inner)) : r.AnswersAlike (typeExtent r.pointerWidth named type) := by
  induction type with
  | void => exact answersAlike_throw _
  | reference => exact answersAlike_throw _
  | primitive => exact answersAlike_pure _
  | pointer => exact answersAlike_pure _
  | named inner => exact hnamed inner rfl
  | array element length ih =>
    refine (ih hnamed).bind (keepsRight_typeExtent hkeeps element) fun extent => ?_
    split
    · exact answersAlike_pure _
    · exact answersAlike_throw _

theorem answersAlike_placeFields {extentOf : CType → Memoized Extent} {fields : List FieldDecl}
    (hextentOf : ∀ field ∈ fields, r.AnswersAlike (extentOf field.type))
    (hkeeps : ∀ type, r.KeepsRight (extentOf type)) (placed : Placement) :
    r.AnswersAlike (placeFields extentOf structName fields placed) := by
  induction fields generalizing placed with
  | nil => exact answersAlike_liftExcept _
  | cons field rest ih =>
    obtain ⟨hfirst, hrest⟩ := List.forall_mem_cons.mp hextentOf
    refine (hfirst.tryCatch _).bind ((hkeeps field.type).tryCatch _) fun extent => ?_
    exact (answersAlike_liftExcept _).bind (keepsRight_liftExcept _) (ih hrest)

/-! ### Descents -/

/-- **A descent answers the same from any right memory.** -/
theorem answersAlike_layoutWithin (haround : r.Around inProgress name) :
    r.AnswersAlike (r.layoutWithin inProgress name) := by
  -- on the number of declared structs that are not in progress
  induction hcount : (remaining r.structs inProgress).length using Nat.strongRecOn
    generalizing inProgress name with
  | _ count ih =>
  subst hcount
  intro memo memo' hmemo hmemo'
  by_cases hlayout : ∃ layout, r.LaysOut name layout
  · -- a layout is found from both memories, remembered or not
    obtain ⟨layout, hlayout⟩ := hlayout
    obtain ⟨_, hruns, -⟩ := runs_of_laysOut haround hmemo hlayout
    obtain ⟨_, hruns', -⟩ := runs_of_laysOut haround hmemo' hlayout
    rw [hruns, hruns']
  · have habsent {memo : Table String StructLayout} (hmemo : r.Remembers memo) : memo.get? name = none :=
      Option.eq_none_iff_forall_ne_some.mpr fun layout hheld => hlayout ⟨layout, hmemo name layout hheld⟩
    rw [run_layoutWithin_of_absent (habsent hmemo), run_layoutWithin_of_absent (habsent hmemo')]
    split
    · rfl
    · rename_i hfresh
      split
      · rfl
      · rename_i decl hdecl
        have hdescent := length_remaining_lt (mem_names_of_declared? hdecl) hfresh
        have hkeeps := keepsRight_namedExtent (r := r) (keepsRight_layoutWithin r (name :: inProgress))
        refine answersAlike_placeFields (fun field hmem => answersAlike_typeExtent (fun inner hinner => ?_) hkeeps)
          (keepsRight_typeExtent hkeeps) {} memo memo' hmemo hmemo'
        refine answersAlike_namedExtent (fun hunknown => ?_) (keepsRight_layoutWithin r (name :: inProgress))
        exact ih _ hdescent (haround.inside ⟨hunknown, decl, hdecl, field, hmem, hinner⟩) rfl

/-- What a resolver remembers at the start is no part of its descents. -/
theorem layoutWithin_withMemo (held : Table String StructLayout) (inProgress : List String) (name : String) :
    ({ r with memo := held } : Resolver).layoutWithin inProgress name = r.layoutWithin inProgress name := by
  induction hcount : (remaining r.structs inProgress).length using Nat.strongRecOn
    generalizing inProgress name with
  | _ count ih =>
  subst hcount
  rw [layoutWithin_eq, layoutWithin_eq]
  refine congrArg (get >>= ·) (funext fun memo => ?_)
  have hdeclared : ({ r with memo := held } : Resolver).declared? name = r.declared? name := rfl
  rw [hdeclared]
  split
  · rfl
  · split
    · rfl
    · rename_i hfresh
      cases hdecl : r.declared? name with
      | none => rfl
      | some decl =>
        have hdescent := length_remaining_lt (mem_names_of_declared? hdecl) hfresh
        dsimp only
        rw [funext fun inner => ih _ hdescent (name :: inProgress) inner rfl]

/-! ### Questions in any order -/

inductive Query where
  | layout (name : String)
  | extent (type : CType)
  | declared (name : String)

inductive Answer where
  | layout (result : Except LayoutError StructLayout)
  | extent (result : Except LayoutError Extent)
  | declared (result : Bool)

def ask (r : Resolver) : Query → Answer × Resolver
  | .layout name => (r.resolve name).map .layout id
  | .extent type => (r.extent type).map .extent id
  | .declared name => (.declared (r.isDeclared name), r)

/-- Answers questions in order, each with what the ones before it have left behind. -/
def askAll (r : Resolver) : List Query → List Answer
  | [] => []
  | query :: rest => (r.ask query).1 :: (r.ask query).2.askAll rest

theorem Asked.ask {start : Resolver} (h : start.Asked r) (query : Query) : start.Asked (r.ask query).2 := by
  cases query with
  | layout name => exact h.resolve name
  | extent type => exact h.extent type
  | declared name => exact h

/-- The questions that a resolver has been asked do not show in its answers. -/
theorem Asked.ask_fst_eq {start : Resolver} (h : start.Asked r) (hfresh : start.memo = ∅) (query : Query) :
    (r.ask query).1 = (start.ask query).1 := by
  obtain ⟨memo, rfl, hmemo⟩ := h.exists_memo hfresh
  have hempty : start.Remembers start.memo := hfresh ▸ remembers_empty start
  cases query with
  | layout name =>
    refine congrArg Answer.layout ?_
    change ((layoutWithin { start with memo := memo } [] name).run.run memo).1 =
      ((start.layoutWithin [] name).run.run start.memo).1
    rw [layoutWithin_withMemo]
    exact answersAlike_layoutWithin (around_nil start name) memo start.memo hmemo hempty
  | extent type =>
    refine congrArg Answer.extent ?_
    change ((typeExtent start.pointerWidth (namedExtent start.known
        (layoutWithin { start with memo := memo } [])) type).run.run memo).1 =
      ((typeExtent start.pointerWidth (namedExtent start.known (start.layoutWithin [])) type).run.run start.memo).1
    rw [funext (layoutWithin_withMemo memo [])]
    have hkeeps := keepsRight_layoutWithin start []
    exact answersAlike_typeExtent (fun name _ => answersAlike_namedExtent
      (fun _ => answersAlike_layoutWithin (around_nil start name)) hkeeps) (keepsRight_namedExtent hkeeps)
      memo start.memo hmemo hempty
  | declared name => rfl

theorem Asked.askAll_eq {start : Resolver} (h : start.Asked r) (hfresh : start.memo = ∅) (queries : List Query) :
    r.askAll queries = queries.map fun query => (start.ask query).1 := by
  induction queries generalizing r with
  | nil => rfl
  | cons query rest ih => rw [askAll, h.ask_fst_eq hfresh query, ih (h.ask query), List.map_cons]

/-- **The memory of a resolver is transparent.** Of any questions asked in any order, those that fail among them,
each is answered as a resolver with the same structs would answer it that is asked nothing else. -/
theorem askAll_eq_map (pointerWidth : Nat) (structs : List StructDecl) (known : Table String Extent)
    (queries : List Query) :
    askAll { pointerWidth, structs, known } queries =
      queries.map fun query => (ask { pointerWidth, structs, known } query).1 :=
  Asked.askAll_eq .nothing rfl queries

end Resolver

end HostBinding
