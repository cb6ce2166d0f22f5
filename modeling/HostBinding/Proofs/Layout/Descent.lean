import Mathlib.Data.List.Dedup
import Mathlib.Data.List.Perm.Subperm
import HostBinding.Proofs.Layout.Memory

/-!
# Descents step by step

The three functions that lay out structs call each other: a struct calls for its fields, a field for its type, and
a type for a struct again. This module runs them one step at a time, with the calls that wait kept on a stack of
frames and the names of the structs in progress kept beside it in a list of its own, which is extended when the
fields of a struct are entered and cut when they are done. The list is then seen to be nothing but the structs among
the frames, whatever happened in between, and a call is seen to return to the frames that it was made from.
-/

namespace HostBinding

namespace Resolver

inductive Call where
  | resolve (name : String)
  | typeExtent (type : CType)
  | placeFields (structName : String) (fields : List FieldDecl) (placed : Placement)

inductive Control where
  | call (call : Call)
  | answer (answer : Answer)

/-- What waits for an answer. -/
inductive Frame where
  | struct (name : String)
  | named
  | array (element : CType) (length : UInt64)
  | field (structName : String) (field : FieldDecl) (rest : List FieldDecl) (placed : Placement)

/-- A state of a descent: what it does next, what waits for that, innermost first, the structs in progress and the
layouts found so far. -/
structure Descent where
  control : Control
  frames : List Frame
  inProgress : List String
  memo : Table String StructLayout

def enter (r : Resolver) (frames : List Frame) (inProgress : List String) (memo : Table String StructLayout) :
    Call → Descent
  | .resolve name =>
    match memo.get? name with
    | some layout => ⟨.answer (.layout (.ok layout)), frames, inProgress, memo⟩
    | none =>
      if name ∈ inProgress then ⟨.answer (.layout (.error (.recursive name))), frames, inProgress, memo⟩
      else match r.declared? name with
        | none => ⟨.answer (.layout (.error (.unknownType name))), frames, inProgress, memo⟩
        | some decl =>
          ⟨.call (.placeFields decl.name decl.fields {}), .struct name :: frames, name :: inProgress, memo⟩
  | .typeExtent .void => ⟨.answer (.extent (.error (.unsized .void))), frames, inProgress, memo⟩
  | .typeExtent (.reference target isConst) =>
    ⟨.answer (.extent (.error (.unsized (.reference target isConst)))), frames, inProgress, memo⟩
  | .typeExtent (.primitive kind _) => ⟨.answer (.extent (.ok ⟨kind.size, kind.size⟩)), frames, inProgress, memo⟩
  | .typeExtent (.pointer _ _) =>
    ⟨.answer (.extent (.ok ⟨r.pointerWidth, r.pointerWidth⟩)), frames, inProgress, memo⟩
  | .typeExtent (.named name) =>
    match r.known.get? name with
    | some extent => ⟨.answer (.extent (.ok extent)), frames, inProgress, memo⟩
    | none => ⟨.call (.resolve name), .named :: frames, inProgress, memo⟩
  | .typeExtent (.array element length) =>
    ⟨.call (.typeExtent element), .array element length :: frames, inProgress, memo⟩
  | .placeFields structName [] placed => ⟨.answer (.layout (placed.close structName)), frames, inProgress, memo⟩
  | .placeFields structName (field :: rest) placed =>
    ⟨.call (.typeExtent field.type), .field structName field rest placed :: frames, inProgress, memo⟩

def resume (frames : List Frame) (inProgress : List String) (memo : Table String StructLayout) :
    Frame → Answer → Option Descent
  | .struct name, .layout result =>
    some ⟨.answer (.layout result), frames, inProgress.tail, remember name result memo⟩
  | .named, .layout result =>
    some ⟨.answer (.extent (result.map (·.toExtent))), frames, inProgress, memo⟩
  | .array element length, .extent result =>
    some ⟨.answer (.extent (arrayResult element length result)), frames, inProgress, memo⟩
  | .field structName field rest placed, .extent result =>
    match (result.mapError (blame structName field)).bind (placed.push structName field) with
    | .ok next => some ⟨.call (.placeFields structName rest next), frames, inProgress, memo⟩
    | .error cause => some ⟨.answer (.layout (.error cause)), frames, inProgress, memo⟩
  | _, _ => none

def step (r : Resolver) (d : Descent) : Option Descent :=
  match d.control, d.frames with
  | .call call, frames => some (r.enter frames d.inProgress d.memo call)
  | .answer _, [] => none
  | .answer answer, frame :: frames => resume frames d.inProgress d.memo frame answer

def Steps (r : Resolver) : Descent → Descent → Prop :=
  Relation.ReflTransGen fun d next => r.step d = some next

/-- What a call gives while some structs are in progress: its answer and the layouts found after it. -/
def Call.outcome (r : Resolver) (inProgress : List String) (memo : Table String StructLayout) :
    Call → Answer × Table String StructLayout
  | .resolve name => ((r.layoutWithin inProgress name).run.run memo).map .layout id
  | .typeExtent type =>
    ((Resolver.typeExtent r.pointerWidth (namedExtent r.known (r.layoutWithin inProgress)) type).run.run memo).map
      .extent id
  | .placeFields structName fields placed =>
    ((Resolver.placeFields (Resolver.typeExtent r.pointerWidth (namedExtent r.known (r.layoutWithin inProgress)))
      structName fields placed).run.run memo).map .layout id

variable {r : Resolver} {call : Call} {name structName : String} {inProgress : List String} {d next : Descent}
  {memo : Table String StructLayout}

/-! ### Calls return -/

/-- A call gives its outcome after finitely many steps, to the frames and with the structs in progress that it was
made with. -/
def Returns (r : Resolver) (inProgress : List String) (call : Call) : Prop :=
  ∀ frames memo, r.Steps ⟨.call call, frames, inProgress, memo⟩
    ⟨.answer (call.outcome r inProgress memo).1, frames, inProgress, (call.outcome r inProgress memo).2⟩

theorem returns_typeExtent (hresolve : ∀ name, r.Returns inProgress (.resolve name)) (type : CType) :
    r.Returns inProgress (.typeExtent type) := by
  intro frames memo
  induction type generalizing frames with
  | void => exact .single rfl
  | reference => exact .single rfl
  | primitive => exact .single rfl
  | pointer => exact .single rfl
  | named name =>
    cases hknown : r.known.get? name with
    | some extent =>
      have hrun : (Call.typeExtent (.named name)).outcome r inProgress memo = (.extent (.ok extent), memo) := by
        rw [Call.outcome, Resolver.typeExtent, namedExtent, hknown]
        rfl
      rw [hrun]
      exact .single (by simp only [step, enter, hknown])
    | none =>
      have hrun : (Call.typeExtent (.named name)).outcome r inProgress memo =
          ((r.layoutWithin inProgress name).run.run memo).map (.extent <| ·.map (·.toExtent)) id := by
        rw [Call.outcome, Resolver.typeExtent, run_namedExtent_of_unknown hknown]
        rfl
      rw [hrun]
      exact .head (by simp only [step, enter, hknown]) ((hresolve name (.named :: frames) memo).tail rfl)
  | array element length ih =>
    have hrun : (Call.typeExtent (.array element length)).outcome r inProgress memo =
        ((Resolver.typeExtent r.pointerWidth (namedExtent r.known (r.layoutWithin inProgress)) element).run.run
          memo).map (.extent <| arrayResult element length ·) id := by
      rw [Call.outcome, run_typeExtent_array]
      rfl
    rw [hrun]
    exact .head rfl ((ih (.array element length :: frames)).tail rfl)

theorem returns_placeFields (htype : ∀ type, r.Returns inProgress (.typeExtent type)) (structName : String)
    (fields : List FieldDecl) (placed : Placement) :
    r.Returns inProgress (.placeFields structName fields placed) := by
  intro frames memo
  induction fields generalizing memo placed with
  | nil =>
    have hrun : (Call.placeFields structName [] placed).outcome r inProgress memo =
        (.layout (placed.close structName), memo) := by
      rw [Call.outcome, run_placeFields_nil]
      rfl
    rw [hrun]
    exact .single rfl
  | cons field rest ih =>
    obtain ⟨⟨result, found⟩, htypeRun⟩ : ∃ outcome, (Resolver.typeExtent r.pointerWidth
        (namedExtent r.known (r.layoutWithin inProgress)) field.type).run.run memo = outcome := ⟨_, rfl⟩
    have hfirst := htype field.type (.field structName field rest placed :: frames) memo
    rw [Call.outcome, htypeRun] at hfirst
    have hbegin : r.Steps ⟨.call (.placeFields structName (field :: rest) placed), frames, inProgress, memo⟩
        ⟨.answer (.extent result), .field structName field rest placed :: frames, inProgress, found⟩ :=
      .head rfl hfirst
    rw [Call.outcome, run_placeFields_cons, htypeRun]
    dsimp only
    cases hpush : (result.mapError (blame structName field)).bind (placed.push structName field) with
    | ok next => exact hbegin.trans (.head (by simp [step, resume, hpush]) (ih next found))
    | error cause => exact hbegin.tail (by simp [step, resume, hpush])

theorem returns_resolve (name : String) : r.Returns inProgress (.resolve name) := by
  -- on the number of declared structs that are not in progress
  induction hcount : (remaining r.structs inProgress).length using Nat.strongRecOn
    generalizing inProgress name with
  | _ count ih =>
  subst hcount
  intro frames memo
  cases hheld : memo.get? name with
  | some layout =>
    rw [Call.outcome, run_layoutWithin_of_held hheld]
    exact .single (by simp [step, enter, hheld])
  | none =>
    rw [Call.outcome, run_layoutWithin_of_absent hheld]
    by_cases hfresh : name ∈ inProgress
    · rw [if_pos hfresh]
      exact .single (by simp [step, enter, hheld, hfresh])
    · rw [if_neg hfresh]
      cases hdecl : r.declared? name with
      | none => exact .single (by simp [step, enter, hheld, hfresh, hdecl])
      | some decl =>
        have hdescent := length_remaining_lt (mem_names_of_declared? hdecl) hfresh
        have hfields := returns_placeFields (returns_typeExtent fun inner => ih _ hdescent inner rfl) decl.name
          decl.fields {} (.struct name :: frames) memo
        exact .head (by simp [step, enter, hheld, hfresh, hdecl]) (hfields.tail rfl)

theorem returns (r : Resolver) (inProgress : List String) (call : Call) : r.Returns inProgress call := by
  cases call with
  | resolve name => exact returns_resolve name
  | typeExtent type => exact returns_typeExtent returns_resolve type
  | placeFields structName fields placed =>
    exact returns_placeFields (returns_typeExtent returns_resolve) structName fields placed

/-! ### Structs in progress -/

/-- The struct that a frame waits to finish. -/
def Frame.struct? : Frame → Option String
  | .struct name => some name
  | _ => none

/-- The structs in progress are those among the frames: declared ones, each once. -/
structure Descent.Tidy (r : Resolver) (d : Descent) : Prop where
  inProgress_eq : d.inProgress = d.frames.filterMap Frame.struct?
  nodup : d.inProgress.Nodup
  declared : ∀ name ∈ d.inProgress, r.isDeclared name = true

/-- What a step does to the structs in progress: nothing, or it begins one that is declared and not among them, or it
ends the innermost one. -/
inductive Moves (r : Resolver) (d next : Descent) : Prop where
  | stays (hinProgress : next.inProgress = d.inProgress)
    (hframes : next.frames.filterMap Frame.struct? = d.frames.filterMap Frame.struct?)
  | begins (name : String) (hfresh : name ∉ d.inProgress) (hdeclared : r.isDeclared name = true)
    (hinProgress : next.inProgress = name :: d.inProgress) (hframes : next.frames = .struct name :: d.frames)
  | ends (name : String) (hinProgress : next.inProgress = d.inProgress.tail)
    (hframes : d.frames = .struct name :: next.frames)

theorem moves_of_enter (r : Resolver) (frames : List Frame) (inProgress : List String)
    (memo : Table String StructLayout) (call : Call) :
    r.Moves ⟨.call call, frames, inProgress, memo⟩ (r.enter frames inProgress memo call) := by
  fun_cases enter r frames inProgress memo call with
  | case4 name hheld hfresh decl hdecl =>
    exact .begins name hfresh (by rw [isDeclared, hdecl]; rfl) rfl rfl
  | _ => exact .stays rfl rfl

theorem moves_of_resume {frames : List Frame} {frame : Frame} {answer : Answer} :
    resume frames inProgress memo frame answer = some next →
      r.Moves ⟨.answer answer, frame :: frames, inProgress, memo⟩ next := by
  fun_cases resume frames inProgress memo frame answer with
  | case1 name result =>
    intro h
    cases h
    exact .ends name rfl rfl
  | case6 =>
    intro h
    cases h
  | _ =>
    intro h
    cases h
    exact .stays rfl rfl

theorem moves_of_step (h : r.step d = some next) : r.Moves d next := by
  obtain ⟨control, frames, inProgress, memo⟩ := d
  cases control with
  | call call =>
    cases h
    exact moves_of_enter r frames inProgress memo call
  | answer answer =>
    cases frames with
    | nil => cases h
    | cons frame frames => exact moves_of_resume h

theorem Descent.Tidy.step (h : d.Tidy r) (hstep : r.step d = some next) : next.Tidy r := by
  cases moves_of_step hstep with
  | stays hinProgress hframes =>
    constructor
    case inProgress_eq => rw [hinProgress, hframes, h.inProgress_eq]
    case nodup => exact hinProgress ▸ h.nodup
    case declared => exact hinProgress ▸ h.declared
  | begins name hfresh hdeclared hinProgress hframes =>
    constructor
    case inProgress_eq =>
      rw [hinProgress, hframes, h.inProgress_eq]
      rfl
    case nodup => exact hinProgress ▸ List.nodup_cons.mpr ⟨hfresh, h.nodup⟩
    case declared => exact hinProgress ▸ List.forall_mem_cons.mpr ⟨hdeclared, h.declared⟩
  | ends name hinProgress hframes =>
    constructor
    case inProgress_eq =>
      rw [hinProgress, h.inProgress_eq, hframes]
      rfl
    case nodup => exact hinProgress ▸ h.nodup.tail
    case declared => exact hinProgress ▸ fun other hmem => h.declared other (List.mem_of_mem_tail hmem)

theorem Descent.Tidy.steps (h : d.Tidy r) (hsteps : r.Steps d next) : next.Tidy r := by
  induction hsteps with
  | refl => exact h
  | tail _ hstep ih => exact ih.step hstep

/-- A descent that can end cannot go on forever, because there is only one way to go on. -/
theorem acc_of_steps (hsteps : r.Steps d next) (hlast : r.step next = none) :
    Acc (fun next d => r.step d = some next) d := by
  induction hsteps using Relation.ReflTransGen.head_induction_on with
  | refl => exact ⟨_, fun after hstep => by rw [hlast] at hstep; cases hstep⟩
  | head hstep _ ih => exact ⟨_, fun after hafter => Option.some.inj (hstep.symm.trans hafter) ▸ ih⟩

def begin (r : Resolver) (call : Call) : Descent :=
  ⟨.call call, [], [], r.memo⟩

/-- **A descent ends, and no struct is ever in progress twice.** Whatever the structs declare, the calls that answer
a question end with the answer and the memory of the resolver. In every state on the way the structs in progress are
declared and different, so there are at most as many as there are declared names, every call that is made returns,
whether it succeeds or fails, and the structs in progress are the same whenever the same calls wait. -/
theorem descends (r : Resolver) :
    (∀ name, r.Steps (r.begin (.resolve name))
      ⟨.answer (.layout (r.resolve name).1), [], [], (r.resolve name).2.memo⟩) ∧
    (∀ type, r.Steps (r.begin (.typeExtent type))
      ⟨.answer (.extent (r.extent type).1), [], [], (r.extent type).2.memo⟩) ∧
    ∀ call, Acc (fun next d => r.step d = some next) (r.begin call) ∧ ∀ d, r.Steps (r.begin call) d →
      d.inProgress.Nodup ∧ (∀ name ∈ d.inProgress, r.isDeclared name = true) ∧
      d.inProgress.length ≤ (r.structs.map StructDecl.name).dedup.length ∧
      (∀ inner, d.control = .call inner → r.Steps d ⟨.answer (inner.outcome r d.inProgress d.memo).1, d.frames,
        d.inProgress, (inner.outcome r d.inProgress d.memo).2⟩) ∧
      ∀ d', r.Steps (r.begin call) d' → d'.frames = d.frames → d'.inProgress = d.inProgress := by
  refine ⟨fun name => returns r [] (.resolve name) [] r.memo, fun type => returns r [] (.typeExtent type) [] r.memo,
    fun call => ⟨acc_of_steps (returns r [] call [] r.memo) rfl, fun d hsteps => ?_⟩⟩
  have htidy : (r.begin call).Tidy r := ⟨rfl, List.nodup_nil, List.forall_mem_nil _⟩
  have hd := htidy.steps hsteps
  refine ⟨hd.nodup, hd.declared, ?_, fun inner hcall => ?_, fun d' hsteps' hframes => ?_⟩
  · refine (List.Nodup.subperm hd.nodup fun name hmem => List.mem_dedup.mpr ?_).length_le
    obtain ⟨decl, hdecl⟩ := Option.isSome_iff_exists.mp (hd.declared name hmem)
    exact mem_names_of_declared? hdecl
  · obtain ⟨control, frames, inProgress, memo⟩ := d
    obtain rfl : control = .call inner := hcall
    exact returns r inProgress inner frames memo
  · rw [(htidy.steps hsteps').inProgress_eq, hd.inProgress_eq, hframes]

end Resolver

end HostBinding
