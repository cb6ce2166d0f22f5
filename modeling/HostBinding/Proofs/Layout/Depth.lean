import HostBinding.Proofs.Layout.Resolver

/-!
# Layouts by depth

What a resolver answers does not depend on what it remembers or on the structs that are in progress. To state
that, layouts are found once more without either: by descending to a given depth, with no answer below it. A
resolver finds a layout exactly when some depth gives one, and it is the same layout. An answer at some depth
never needs a struct that has none, so a descent in progress does not get in its way.
-/

namespace HostBinding

namespace Resolver

/-- The extent of a type, given those of structs. -/
def extentBy? (pointerWidth : Nat) (named? : String → Option Extent) : CType → Option Extent
  | .void | .reference _ _ => none
  | .primitive kind _ => some ⟨kind.size, kind.size⟩
  | .pointer _ _ => some ⟨pointerWidth, pointerWidth⟩
  | .named name => named? name
  | .array element length => (extentBy? pointerWidth named? element).bind (Extent.array? length)

/-- The layout of a struct whose first fields have been placed, given the extents of types. -/
def placeBy? (extentOf? : CType → Option Extent) (structName : String) :
    List FieldDecl → Placement → Option StructLayout
  | [], placed => (placed.close structName).toOption
  | field :: rest, placed =>
    (extentOf? field.type).bind fun extent =>
      (placed.push structName field extent).toOption.bind (placeBy? extentOf? structName rest)

/-- The layout of a struct that a descent of at most the given depth finds. -/
def layoutAt? (r : Resolver) : Nat → String → Option StructLayout
  | 0, _ => none
  | depth + 1, name =>
    (r.declared? name).bind fun decl =>
      placeBy? (extentBy? r.pointerWidth fun inner =>
        (r.known.get? inner).or ((r.layoutAt? depth inner).map (·.toExtent))) decl.name decl.fields {}

/-- The extent of a struct that is known or found within a depth. -/
def namedAt? (r : Resolver) (depth : Nat) (name : String) : Option Extent :=
  (r.known.get? name).or ((r.layoutAt? depth name).map (·.toExtent))

def extentAt? (r : Resolver) (depth : Nat) : CType → Option Extent :=
  extentBy? r.pointerWidth (r.namedAt? depth)

theorem layoutAt?_succ (r : Resolver) (depth : Nat) (name : String) :
    r.layoutAt? (depth + 1) name =
      (r.declared? name).bind fun decl => placeBy? (r.extentAt? depth) decl.name decl.fields {} :=
  rfl

/-- A struct has a layout. -/
def LaysOut (r : Resolver) (name : String) (layout : StructLayout) : Prop :=
  ∃ depth, r.layoutAt? depth name = some layout

variable {r r' : Resolver} {named? named?' : String → Option Extent}
  {extentOf? extentOf?' : CType → Option Extent} {pointerWidth depth depth' : Nat}
  {name structName : String} {type : CType} {extent : Extent} {layout layout' : StructLayout}
  {fields fields' : List FieldDecl} {placed : Placement}

/-! ### More is known at a greater depth -/

theorem extentBy?_mono (hmore : ∀ name extent, named? name = some extent → named?' name = some extent)
    (h : extentBy? pointerWidth named? type = some extent) :
    extentBy? pointerWidth named?' type = some extent := by
  induction type generalizing extent with
  | named name => exact hmore name extent h
  | array element length ih =>
    obtain ⟨inner, hinner, hextent⟩ := Option.bind_eq_some_iff.mp h
    rw [extentBy?, ih hinner]
    exact hextent
  | _ => exact h

theorem placeBy?_mono
    (hmore : ∀ field ∈ fields, ∀ extent, extentOf? field.type = some extent →
      extentOf?' field.type = some extent)
    (h : placeBy? extentOf? structName fields placed = some layout) :
    placeBy? extentOf?' structName fields placed = some layout := by
  induction fields generalizing placed with
  | nil => exact h
  | cons field rest ih =>
    obtain ⟨extent, hextent, hafter⟩ := Option.bind_eq_some_iff.mp h
    obtain ⟨next, hnext, hrest⟩ := Option.bind_eq_some_iff.mp hafter
    rw [placeBy?, hmore field List.mem_cons_self extent hextent, Option.bind_some, hnext, Option.bind_some]
    exact ih (fun other hother => hmore other (List.mem_cons_of_mem _ hother)) hrest

theorem namedAt?_mono
    (hmore : ∀ layout, r.layoutAt? depth name = some layout → r.layoutAt? depth' name = some layout)
    (h : r.namedAt? depth name = some extent) : r.namedAt? depth' name = some extent := by
  rw [namedAt?, Option.or_eq_some_iff] at *
  refine h.imp_right fun ⟨hknown, hfound⟩ => ⟨hknown, ?_⟩
  obtain ⟨layout, hlayout, rfl⟩ := Option.map_eq_some_iff.mp hfound
  rw [hmore layout hlayout]
  rfl

theorem layoutAt?_succ_mono (h : r.layoutAt? depth name = some layout) :
    r.layoutAt? (depth + 1) name = some layout := by
  induction depth generalizing name layout with
  | zero => cases h
  | succ depth ih =>
    obtain ⟨decl, hdecl, hplace⟩ := Option.bind_eq_some_iff.mp h
    rw [layoutAt?_succ, hdecl]
    exact placeBy?_mono (fun field _ extent => extentBy?_mono fun _ _ => namedAt?_mono fun _ => ih) hplace

theorem layoutAt?_mono (hle : depth ≤ depth') (h : r.layoutAt? depth name = some layout) :
    r.layoutAt? depth' name = some layout := by
  induction hle with
  | refl => exact h
  | step _ ih => exact layoutAt?_succ_mono ih

theorem extentAt?_mono (hle : depth ≤ depth') (h : r.extentAt? depth type = some extent) :
    r.extentAt? depth' type = some extent :=
  extentBy?_mono (fun _ _ => namedAt?_mono fun _ => layoutAt?_mono hle) h

theorem LaysOut.unique (h : r.LaysOut name layout) (h' : r.LaysOut name layout') : layout = layout' := by
  obtain ⟨depth, h⟩ := h
  obtain ⟨depth', h'⟩ := h'
  have hmax := layoutAt?_mono (Nat.le_max_left depth depth') h
  rw [layoutAt?_mono (Nat.le_max_right depth depth') h'] at hmax
  exact (Option.some.inj hmax).symm

/-! ### What a resolver finds -/

/-- Everything that is remembered is a layout. -/
def Remembers (r : Resolver) (memo : Table String StructLayout) : Prop :=
  ∀ name layout, memo.get? name = some layout → r.LaysOut name layout

theorem Remembers.insert {memo : Table String StructLayout} (h : r.Remembers memo)
    (hlayout : r.LaysOut name layout) : r.Remembers (memo.insert name layout) := by
  intro other found hfound
  rw [Table.get?_insert] at hfound
  split at hfound
  · rename_i heq
    cases hfound
    exact heq ▸ hlayout
  · exact h other found hfound

variable {memo memo' : Table String StructLayout} {inProgress : List String}

/-! ### Finding what there is -/

theorem extentAt?_of_runs {named : String → Memoized Extent}
    (hnamed : ∀ name memo memo' extent, r.Remembers memo → Runs (named name) memo memo' extent →
      r.Remembers memo' ∧ ∃ depth, r.namedAt? depth name = some extent)
    (hmemo : r.Remembers memo) (h : Runs (typeExtent r.pointerWidth named type) memo memo' extent) :
    r.Remembers memo' ∧ ∃ depth, r.extentAt? depth type = some extent := by
  induction type generalizing extent with
  | void => exact absurd h runs_throw
  | reference => exact absurd h runs_throw
  | primitive kind spelling =>
    obtain ⟨rfl, rfl⟩ := runs_pure.mp h
    exact ⟨hmemo, 0, rfl⟩
  | pointer target isConst =>
    obtain ⟨rfl, rfl⟩ := runs_pure.mp h
    exact ⟨hmemo, 0, rfl⟩
  | named name => exact hnamed name memo memo' extent hmemo h
  | array element length ih =>
    obtain ⟨inner, hinner, hextent⟩ := runs_typeExtent_array.mp h
    obtain ⟨hmemo', depth, hdepth⟩ := ih hinner
    exact ⟨hmemo', depth, Option.bind_eq_some_iff.mpr ⟨inner, hdepth, hextent⟩⟩

theorem placeBy?_of_runs {extentOf : CType → Memoized Extent}
    (hextentOf : ∀ type memo memo' extent, r.Remembers memo → Runs (extentOf type) memo memo' extent →
      r.Remembers memo' ∧ ∃ depth, r.extentAt? depth type = some extent)
    (hmemo : r.Remembers memo) (h : Runs (placeFields extentOf structName fields placed) memo memo' layout) :
    r.Remembers memo' ∧ ∃ depth, placeBy? (r.extentAt? depth) structName fields placed = some layout := by
  induction fields generalizing memo placed with
  | nil =>
    obtain ⟨hclose, rfl⟩ := runs_liftExcept.mp h
    exact ⟨hmemo, 0, by rw [placeBy?, hclose]; rfl⟩
  | cons field rest ih =>
    obtain ⟨extent, found, next, hextent, hpush, hrest⟩ := runs_placeFields_cons.mp h
    obtain ⟨hfound, depth, hdepth⟩ := hextentOf _ _ _ _ hmemo hextent
    obtain ⟨hmemo', depth', hdepth'⟩ := ih hfound hrest
    refine ⟨hmemo', max depth depth', ?_⟩
    rw [placeBy?, extentAt?_mono (Nat.le_max_left _ _) hdepth, Option.bind_some, hpush]
    exact placeBy?_mono (fun _ _ _ => extentAt?_mono (Nat.le_max_right _ _)) hdepth'

theorem namedAt?_of_runs {layoutOf : String → Memoized StructLayout}
    (hlayoutOf : ∀ name memo memo' layout, r.Remembers memo → Runs (layoutOf name) memo memo' layout →
      r.Remembers memo' ∧ r.LaysOut name layout)
    (name : String) (memo memo' : Table String StructLayout) (extent : Extent) (hmemo : r.Remembers memo)
    (h : Runs (namedExtent r.known layoutOf name) memo memo' extent) :
    r.Remembers memo' ∧ ∃ depth, r.namedAt? depth name = some extent := by
  obtain ⟨hknown, rfl⟩ | ⟨hknown, layout, hlayout, rfl⟩ := runs_namedExtent.mp h
  · exact ⟨hmemo, 0, by rw [namedAt?, hknown]; rfl⟩
  · obtain ⟨hmemo', depth, hdepth⟩ := hlayoutOf _ _ _ _ hmemo hlayout
    exact ⟨hmemo', depth, by rw [namedAt?, hknown, hdepth]; rfl⟩

/-- What a descent finds, some depth gives. -/
theorem laysOut_of_runs (hmemo : r.Remembers memo)
    (h : Runs (r.layoutWithin inProgress name) memo memo' layout) :
    r.Remembers memo' ∧ r.LaysOut name layout := by
  -- on the number of declared structs that are not in progress
  induction hcount : (remaining r.structs inProgress).length using Nat.strongRecOn
    generalizing inProgress name memo memo' layout with
  | _ count ih =>
  subst hcount
  obtain ⟨hheld, rfl⟩ | ⟨-, hfresh, decl, found, hdecl, hplace, rfl⟩ := runs_layoutWithin.mp h
  · exact ⟨hmemo, hmemo name layout hheld⟩
  · have hdescent := length_remaining_lt (mem_names_of_declared? hdecl) hfresh
    have hnamed := @namedAt?_of_runs r (fun inner => r.layoutWithin (name :: inProgress) inner)
      fun inner _ _ _ hmemo hruns => ih _ hdescent hmemo hruns rfl
    obtain ⟨hfound, depth, hdepth⟩ :=
      placeBy?_of_runs (fun type _ _ _ hmemo => extentAt?_of_runs hnamed hmemo) hmemo hplace
    have hlayout : r.LaysOut name layout := ⟨depth + 1, by rw [layoutAt?_succ, hdecl]; exact hdepth⟩
    exact ⟨hfound.insert hlayout, hlayout⟩

/-! ### There being what is found -/

theorem runs_of_extentAt? {named : String → Memoized Extent}
    (hnamed : ∀ name memo extent, r.Remembers memo → r.namedAt? depth name = some extent →
      ∃ memo', Runs (named name) memo memo' extent ∧ r.Remembers memo')
    (hmemo : r.Remembers memo) (h : r.extentAt? depth type = some extent) :
    ∃ memo', Runs (typeExtent r.pointerWidth named type) memo memo' extent ∧ r.Remembers memo' := by
  induction type generalizing extent with
  | void => cases h
  | reference => cases h
  | primitive kind spelling => exact ⟨memo, runs_pure.mpr ⟨(Option.some.inj h).symm, rfl⟩, hmemo⟩
  | pointer target isConst => exact ⟨memo, runs_pure.mpr ⟨(Option.some.inj h).symm, rfl⟩, hmemo⟩
  | named name => exact hnamed name memo extent hmemo h
  | array element length ih =>
    obtain ⟨inner, hinner, hextent⟩ := Option.bind_eq_some_iff.mp h
    obtain ⟨memo', hruns, hmemo'⟩ := ih hinner
    exact ⟨memo', runs_typeExtent_array.mpr ⟨inner, hruns, hextent⟩, hmemo'⟩

theorem runs_of_placeBy? {extentOf : CType → Memoized Extent}
    (hextentOf : ∀ type memo extent, r.Remembers memo → r.extentAt? depth type = some extent →
      ∃ memo', Runs (extentOf type) memo memo' extent ∧ r.Remembers memo')
    (hmemo : r.Remembers memo) (h : placeBy? (r.extentAt? depth) structName fields placed = some layout) :
    ∃ memo', Runs (placeFields extentOf structName fields placed) memo memo' layout ∧
      r.Remembers memo' := by
  induction fields generalizing memo placed with
  | nil => exact ⟨memo, runs_liftExcept.mpr ⟨eq_ok_of_toOption_eq_some h, rfl⟩, hmemo⟩
  | cons field rest ih =>
    obtain ⟨extent, hextent, hafter⟩ := Option.bind_eq_some_iff.mp h
    obtain ⟨next, hnext, hrest⟩ := Option.bind_eq_some_iff.mp hafter
    obtain ⟨found, hruns, hfound⟩ := hextentOf _ _ _ hmemo hextent
    obtain ⟨memo', hplace, hmemo'⟩ := ih hfound hrest
    have hpush := eq_ok_of_toOption_eq_some hnext
    exact ⟨memo', runs_placeFields_cons.mpr ⟨extent, found, next, hruns, hpush, hplace⟩, hmemo'⟩

theorem runs_of_namedAt? {layoutOf : String → Memoized StructLayout}
    (hlayoutOf : ∀ name memo layout, r.Remembers memo → r.layoutAt? depth name = some layout →
      ∃ memo', Runs (layoutOf name) memo memo' layout ∧ r.Remembers memo')
    (name : String) (memo : Table String StructLayout) (extent : Extent) (hmemo : r.Remembers memo)
    (h : r.namedAt? depth name = some extent) :
    ∃ memo', Runs (namedExtent r.known layoutOf name) memo memo' extent ∧ r.Remembers memo' := by
  rcases Option.or_eq_some_iff.mp h with hknown | ⟨hunknown, hfound⟩
  · exact ⟨memo, runs_namedExtent.mpr (.inl ⟨hknown, rfl⟩), hmemo⟩
  · obtain ⟨layout, hlayout, rfl⟩ := Option.map_eq_some_iff.mp hfound
    obtain ⟨memo', hruns, hmemo'⟩ := hlayoutOf _ _ _ hmemo hlayout
    exact ⟨memo', runs_namedExtent.mpr (.inr ⟨hunknown, layout, hruns, rfl⟩), hmemo'⟩

/-- What some depth gives, a descent finds, unless a struct in progress has a layout at that depth too. -/
theorem runs_of_layoutAt? (hfree : ∀ outer ∈ inProgress, r.layoutAt? depth outer = none)
    (hmemo : r.Remembers memo) (h : r.layoutAt? depth name = some layout) :
    ∃ memo', Runs (r.layoutWithin inProgress name) memo memo' layout ∧ r.Remembers memo' := by
  induction depth generalizing inProgress name memo layout with
  | zero => cases h
  | succ depth ih =>
    have hfreeBelow : ∀ outer ∈ inProgress, r.layoutAt? depth outer = none := by
      intro outer hmem
      cases hfound : r.layoutAt? depth outer with
      | none => rfl
      | some found =>
        have hnone := hfree outer hmem
        rw [layoutAt?_succ_mono hfound] at hnone
        cases hnone
    cases hbelow : r.layoutAt? depth name with
    | some found =>
      -- a smaller depth is enough
      rw [layoutAt?_succ_mono hbelow, Option.some.injEq] at h
      exact ih hfreeBelow hmemo (h ▸ hbelow)
    | none =>
      have hfresh : name ∉ inProgress := by
        intro hmem
        rw [hfree name hmem] at h
        cases h
      cases hheld : memo.get? name with
      | some held =>
        have heq := (hmemo name held hheld).unique ⟨depth + 1, h⟩
        exact ⟨memo, runs_layoutWithin.mpr (.inl ⟨heq ▸ hheld, rfl⟩), hmemo⟩
      | none =>
        obtain ⟨decl, hdecl, hplace⟩ := Option.bind_eq_some_iff.mp h
        have hbelowAll : ∀ outer ∈ name :: inProgress, r.layoutAt? depth outer = none :=
          List.forall_mem_cons.mpr ⟨hbelow, hfreeBelow⟩
        have hnamed := @runs_of_namedAt? r depth (r.layoutWithin (name :: inProgress))
          fun inner _ _ hmemo hlayout => ih hbelowAll hmemo hlayout
        obtain ⟨found, hruns, hfound⟩ :=
          runs_of_placeBy? (fun type _ _ hmemo => runs_of_extentAt? hnamed hmemo) hmemo hplace
        exact ⟨_, runs_layoutWithin.mpr (.inr ⟨hheld, hfresh, decl, found, hdecl, hruns, rfl⟩),
          hfound.insert ⟨depth + 1, h⟩⟩

/-! ### Answers of a resolver -/

/-- Two resolvers with the same declarations lay out the same when they know the same. -/
theorem layoutAt?_congr (hwidth : r.pointerWidth = r'.pointerWidth)
    (hdeclared : ∀ name, r.declared? name = r'.declared? name)
    (hknown : ∀ name, r.known.get? name = r'.known.get? name) (depth : Nat) (name : String) :
    r.layoutAt? depth name = r'.layoutAt? depth name := by
  induction depth generalizing name with
  | zero => rfl
  | succ depth ih =>
    have hnamed : r.namedAt? depth = r'.namedAt? depth :=
      funext fun inner => by rw [namedAt?, namedAt?, hknown, ih]
    rw [layoutAt?_succ, layoutAt?_succ, extentAt?, extentAt?, hwidth, hnamed, hdeclared name]

theorem laysOut_congr (hwidth : r.pointerWidth = r'.pointerWidth)
    (hdeclared : ∀ name, r.declared? name = r'.declared? name)
    (hknown : ∀ name, r.known.get? name = r'.known.get? name) :
    r.LaysOut name layout ↔ r'.LaysOut name layout :=
  exists_congr fun depth => by rw [layoutAt?_congr hwidth hdeclared hknown depth name]

theorem laysOut_withMemo :
    ({ r with memo := memo } : Resolver).LaysOut name layout ↔ r.LaysOut name layout :=
  laysOut_congr rfl (fun _ => rfl) fun _ => rfl

theorem remembers_withMemo : ({ r with memo := memo } : Resolver).Remembers memo' ↔ r.Remembers memo' :=
  forall_congr' fun _ => forall_congr' fun _ => imp_congr_right fun _ => laysOut_withMemo

theorem laysOut_of_resolve (hmemo : r.Remembers r.memo) (h : r.resolve name = (.ok layout, r')) :
    r.LaysOut name layout ∧ ∃ memo, r' = { r with memo := memo } ∧ r.Remembers memo := by
  obtain ⟨found, rfl, hruns⟩ := resolve_eq_ok_iff.mp h
  obtain ⟨hfound, hlayout⟩ := laysOut_of_runs hmemo hruns
  exact ⟨hlayout, found, rfl, hfound⟩

theorem resolve_of_laysOut (hmemo : r.Remembers r.memo) (h : r.LaysOut name layout) :
    ∃ memo, r.resolve name = (.ok layout, { r with memo := memo }) ∧ r.Remembers memo := by
  obtain ⟨depth, hdepth⟩ := h
  obtain ⟨memo, hruns, hfound⟩ := runs_of_layoutAt? (List.forall_mem_nil _) hmemo hdepth
  exact ⟨memo, resolve_eq_ok_iff.mpr ⟨memo, rfl, hruns⟩, hfound⟩

/-- A resolver that declares what another one declares and knows, or lays out, what that one knows. -/
structure Covers (r' r : Resolver) : Prop where
  pointerWidth : r.pointerWidth = r'.pointerWidth
  declared : ∀ name decl, r.declared? name = some decl → r'.declared? name = some decl
  known : ∀ name extent, r.known.get? name = some extent → ∃ depth, r'.namedAt? depth name = some extent
  unknown : ∀ name, r.known.get? name = none → r'.known.get? name = none

theorem exists_extentAt?_of_covers (hcovers : r'.Covers r)
    (hnamed : ∀ name extent, r.namedAt? depth name = some extent →
      ∃ depth', r'.namedAt? depth' name = some extent)
    (h : r.extentAt? depth type = some extent) : ∃ depth', r'.extentAt? depth' type = some extent := by
  induction type generalizing extent with
  | void => cases h
  | reference => cases h
  | primitive kind spelling => exact ⟨0, h⟩
  | pointer target isConst =>
    rw [extentAt?, extentBy?, hcovers.pointerWidth] at h
    exact ⟨0, h⟩
  | named name => exact hnamed name extent h
  | array element length ih =>
    obtain ⟨inner, hinner, hextent⟩ := Option.bind_eq_some_iff.mp h
    obtain ⟨depth', hdepth'⟩ := ih hinner
    exact ⟨depth', Option.bind_eq_some_iff.mpr ⟨inner, hdepth', hextent⟩⟩

/-- The fields of a struct can be placed at one depth when each of their types has its extent at some. -/
theorem exists_placeBy?_of_extentAt?
    (hextent : ∀ type extent, extentOf? type = some extent → ∃ depth, r.extentAt? depth type = some extent)
    (h : placeBy? extentOf? structName fields placed = some layout) :
    ∃ depth, placeBy? (r.extentAt? depth) structName fields placed = some layout := by
  induction fields generalizing placed with
  | nil => exact ⟨0, h⟩
  | cons field rest ih =>
    obtain ⟨extent, hfield, hafter⟩ := Option.bind_eq_some_iff.mp h
    obtain ⟨next, hnext, hrest⟩ := Option.bind_eq_some_iff.mp hafter
    obtain ⟨depth, hdepth⟩ := hextent field.type extent hfield
    obtain ⟨depth', hdepth'⟩ := ih hrest
    refine ⟨max depth depth', ?_⟩
    rw [placeBy?, extentAt?_mono (Nat.le_max_left _ _) hdepth, Option.bind_some, hnext, Option.bind_some]
    exact placeBy?_mono (fun _ _ _ => extentAt?_mono (Nat.le_max_right _ _)) hdepth'

theorem LaysOut.of_covers (hcovers : r'.Covers r) (h : r.LaysOut name layout) : r'.LaysOut name layout := by
  obtain ⟨depth, h⟩ := h
  induction depth generalizing name layout with
  | zero => cases h
  | succ depth ih =>
    obtain ⟨decl, hdecl, hplace⟩ := Option.bind_eq_some_iff.mp h
    have hnamed (inner : String) (extent : Extent) (hextent : r.namedAt? depth inner = some extent) :
        ∃ depth', r'.namedAt? depth' inner = some extent := by
      rcases Option.or_eq_some_iff.mp hextent with hknown | ⟨hunknown, hfound⟩
      · exact hcovers.known inner extent hknown
      · obtain ⟨found, hlayout, rfl⟩ := Option.map_eq_some_iff.mp hfound
        obtain ⟨depth', hdepth'⟩ := ih hlayout
        exact ⟨depth', by rw [namedAt?, hcovers.unknown inner hunknown, hdepth']; rfl⟩
    obtain ⟨depth', hdepth'⟩ := exists_placeBy?_of_extentAt? (r := r')
      (fun _ _ => exists_extentAt?_of_covers hcovers hnamed) hplace
    exact ⟨depth' + 1, by rw [layoutAt?_succ, hcovers.declared name decl hdecl]; exact hdepth'⟩

theorem exists_extent_of_placeBy? (h : placeBy? extentOf? structName fields placed = some layout)
    {field : FieldDecl} (hmem : field ∈ fields) : ∃ extent, extentOf? field.type = some extent := by
  induction fields generalizing placed with
  | nil => cases hmem
  | cons first rest ih =>
    obtain ⟨extent, hextent, hafter⟩ := Option.bind_eq_some_iff.mp h
    obtain ⟨next, -, hrest⟩ := Option.bind_eq_some_iff.mp hafter
    rcases List.mem_cons.mp hmem with rfl | hlater
    · exact ⟨extent, hextent⟩
    · exact ih hrest hlater

theorem name_of_placeBy? (h : placeBy? extentOf? structName fields placed = some layout) :
    layout.name = structName := by
  induction fields generalizing placed with
  | nil =>
    obtain ⟨size, -, rfl⟩ := map_eq_ok_iff.mp (eq_ok_of_toOption_eq_some h)
    rfl
  | cons field rest ih =>
    obtain ⟨extent, -, hafter⟩ := Option.bind_eq_some_iff.mp h
    obtain ⟨next, -, hrest⟩ := Option.bind_eq_some_iff.mp hafter
    exact ih hrest

theorem LaysOut.exists_placeBy? (h : r.LaysOut name layout) : ∃ decl depth, r.declared? name = some decl ∧
    placeBy? (r.extentAt? depth) decl.name decl.fields {} = some layout := by
  obtain ⟨depth, h⟩ := h
  cases depth with
  | zero => cases h
  | succ depth =>
    obtain ⟨decl, hdecl, hplace⟩ := Option.bind_eq_some_iff.mp h
    exact ⟨decl, depth, hdecl, hplace⟩

theorem LaysOut.name_eq (h : r.LaysOut name layout) : layout.name = name := by
  obtain ⟨decl, depth, hdecl, hplace⟩ := h.exists_placeBy?
  rw [name_of_placeBy? hplace]
  exact (mem_of_declared? hdecl).2

end Resolver

end HostBinding
