import Mathlib.Data.List.Forall2

/-!
# Computations that may fail

When a chain of computations succeeds, each of its parts did. Everything that is known about a successful
plan, layout or rendering is taken apart with these facts.
-/

namespace HostBinding

variable {ε α β γ : Type}

theorem bind_eq_ok_iff {x : Except ε α} {f : α → Except ε β} {b : β} :
    (x >>= f) = .ok b ↔ ∃ a, x = .ok a ∧ f a = .ok b := by
  cases x with
  | error cause => simp [bind, Except.bind]
  | ok a => simp [bind, Except.bind]

theorem map_eq_ok_iff {x : Except ε α} {f : α → β} {b : β} :
    x.map f = .ok b ↔ ∃ a, x = .ok a ∧ f a = b := by
  cases x with
  | error cause => simp [Except.map]
  | ok a => simp [Except.map]

/-- Of two computations on a state the second goes on where the first has stopped, unless the first fails. -/
theorem run_bind {σ : Type} (x : ExceptT ε (StateM σ) α) (f : α → ExceptT ε (StateM σ) β) (s : σ) :
    (x >>= f).run.run s = match x.run.run s with
      | (.ok a, s') => (f a).run.run s'
      | (.error cause, s') => (.error cause, s') := by
  simp only [ExceptT.run_bind, StateT.run_bind]
  cases hx : x.run.run s with
  | mk result s' => cases result <;> rfl

theorem mapM_eq_ok_iff {f : α → Except ε β} {xs : List α} {ys : List β} :
    xs.mapM f = .ok ys ↔ List.Forall₂ (fun x y => f x = .ok y) xs ys := by
  induction xs generalizing ys with
  | nil => simp [pure, Except.pure, eq_comm]
  | cons x rest ih =>
    rw [List.mapM_cons, bind_eq_ok_iff, List.forall₂_cons_left_iff]
    simp only [bind_eq_ok_iff, ih]
    constructor
    · intro hparts
      obtain ⟨y, hy, ys', hys, heq⟩ := hparts
      cases heq
      exact ⟨y, ys', hy, hys, rfl⟩
    · intro hparts
      obtain ⟨y, ys', hy, hys, rfl⟩ := hparts
      exact ⟨y, hy, ys', hys, rfl⟩

theorem mapM_eq_some_iff {f : α → Option β} {xs : List α} {ys : List β} :
    xs.mapM f = some ys ↔ List.Forall₂ (fun x y => f x = some y) xs ys := by
  induction xs generalizing ys with
  | nil => simp [pure, eq_comm]
  | cons x rest ih =>
    rw [List.mapM_cons, List.forall₂_cons_left_iff]
    simp only [Option.bind_eq_bind, Option.bind_eq_some_iff, ih]
    constructor
    · intro hparts
      obtain ⟨y, hy, ys', hys, heq⟩ := hparts
      cases heq
      exact ⟨y, ys', hy, hys, rfl⟩
    · intro hparts
      obtain ⟨y, ys', hy, hys, rfl⟩ := hparts
      exact ⟨y, hy, ys', hys, rfl⟩

theorem map_eq_map_of_forall₂ {R : α → β → Prop} {f : α → γ} {g : β → γ} {xs : List α} {ys : List β}
    (h : List.Forall₂ R xs ys) (himp : ∀ x y, R x y → f x = g y) : xs.map f = ys.map g := by
  induction h with
  | nil => rfl
  | cons hfirst _ ih => rw [List.map_cons, List.map_cons, himp _ _ hfirst, ih]

theorem exists_of_isSome_toOption {x : Except ε α} (h : x.toOption.isSome) : ∃ a, x = .ok a := by
  cases x with
  | error cause => cases h
  | ok a => exact ⟨a, rfl⟩

theorem eq_ok_of_isSome_toOption [Inhabited α] {x : Except ε α} (h : x.toOption.isSome) :
    x = .ok (x.toOption.getD default) := by
  cases x with
  | error cause => cases h
  | ok a => rfl

theorem eq_ok_of_toOption_eq_some {x : Except ε α} {a : α} (h : x.toOption = some a) : x = .ok a := by
  cases x with
  | error cause => cases h
  | ok value => exact congrArg _ (Option.some.inj h)

theorem toOption_eq_of_ok_iff {x y : Except ε α} (h : ∀ a, x = .ok a ↔ y = .ok a) :
    x.toOption = y.toOption := by
  cases x with
  | ok a => rw [(h a).mp rfl]
  | error cause =>
    cases y with
    | error cause' => rfl
    | ok a => cases (h a).mpr rfl

theorem eq_of_forall₂ {R S : α → β → Prop} {xs : List α} {ys zs : List β} (h : List.Forall₂ R xs ys)
    (h' : List.Forall₂ S xs zs) (himp : ∀ x y z, R x y → S x z → y = z) : ys = zs := by
  induction h generalizing zs with
  | nil =>
    cases h'
    rfl
  | cons hfirst _ ih =>
    obtain ⟨z, zs, hfirst', hrest, rfl⟩ := List.forall₂_cons_left_iff.mp h'
    rw [himp _ _ _ hfirst hfirst', ih hrest]

theorem exists_of_forall₂_of_mem {R : α → β → Prop} {x : α} {xs : List α} {ys : List β}
    (h : List.Forall₂ R xs ys) (hmem : x ∈ xs) : ∃ y, R x y := by
  induction h with
  | nil => cases hmem
  | cons hfirst _ ih =>
    rcases List.mem_cons.mp hmem with rfl | hrest
    · exact ⟨_, hfirst⟩
    · exact ih hrest

theorem forall_mem_of_forall₂ {R : α → β → Prop} {P : β → Prop} {xs : List α} {ys : List β}
    (h : List.Forall₂ R xs ys) (himp : ∀ x y, R x y → P y) : ∀ y ∈ ys, P y := by
  induction h with
  | nil => simp
  | cons hfirst _ ih => exact List.forall_mem_cons.mpr ⟨himp _ _ hfirst, ih⟩

end HostBinding
