import HostBinding.Proofs.Session.Run

/-!
# A session holds what it remembers

A remembered rendering is answered from again, so what the session stores must still be that rendering: its
own fragments under its key, its import lines, its headers and its proxy. What makes this hold under
replacement is that a commit forgets every rendering that it takes a fragment from, and no other one loses
anything. Proxies stay unique for another reason: struct bindings are never taken over, so each proxy keeps
the struct binding that it was registered with.
-/

namespace HostBinding.Session

/-- A session stores everything that a rendering of `key` consists of. -/
structure Holds (s : Session) (key : DeclKey) (rendering : Rendering) : Prop where
  owned : ∀ fragment ∈ rendering.fragments, fragment.kind ≠ .importLine →
    s.fragments.get? fragment.toFragmentId = some ⟨key, fragment.text⟩
  imports : ∀ fragment ∈ rendering.fragments, fragment.kind = .importLine →
    ∃ owner, s.fragments.get? fragment.toFragmentId = some ⟨owner, fragment.text⟩
  includes : ∀ header ∈ rendering.includes, header ∈ s.includes
  proxy : ∀ proxy, rendering.proxy = some proxy → s.proxy? proxy.nativeName = some proxy

/-- A proxy's struct binding is stored, and belongs to a struct of the proxy's native name. -/
def Anchored (s : Session) (proxy : Proxy) : Prop :=
  ∃ owner text, owner.kind = .struct ∧ owner.name = proxy.nativeName ∧
    s.fragments.get? ⟨.structBinding, proxy.hostName⟩ = some ⟨owner, text⟩

structure Coherent (s : Session) : Prop where
  holds : ∀ key rendering, s.renderings.get? key = some rendering → s.Holds key rendering
  named : ∀ name proxy, s.proxy? name = some proxy → proxy.nativeName = name
  anchored : ∀ name proxy, s.proxy? name = some proxy → s.Anchored proxy
  importText : ∀ name held, s.fragments.get? ⟨.importLine, name⟩ = some held → held.text = name ++ "\n"

variable {s s' : Session} {key : DeclKey} {rendering : Rendering} {replaceable : Bool}

theorem coherent_of_empty (hrenderings : s.renderings = ∅) (hfragments : s.fragments = ∅)
    (hproxies : s.proxies = ∅) : s.Coherent where
  holds _ _ h := by simp [hrenderings, Table.get?_empty] at h
  named _ _ h := by simp [proxy?, hproxies, Table.get?_empty] at h
  anchored _ _ h := by simp [proxy?, hproxies, Table.get?_empty] at h
  importText _ _ h := by simp [hfragments, Table.get?_empty] at h

/-! ### What a commit leaves in place -/

theorem proxy?_of_commit {name : String} {proxy : Proxy}
    (hcommit : s.commit key rendering replaceable = .ok s') (hproxy : s.proxy? name = some proxy) :
    s'.proxy? name = some proxy := by
  obtain ⟨rfl, -, hfree⟩ := commit_eq_ok_iff.mp hcommit
  rw [proxy?, get?_proxies_accept]
  cases hown : rendering.proxy with
  | none => exact hproxy
  | some own =>
    by_cases hname : own.nativeName = name
    · subst hname
      have heq := proxyCollision?_eq_none.mp hfree own hown proxy hproxy
      simp [heq]
    · simpa [Option.filter, hname, proxy?] using hproxy

theorem get?_fragments_of_commit {id : FragmentId} {held : Stored}
    (hcommit : s.commit key rendering replaceable = .ok s') (hheld : s.fragments.get? id = some held)
    (hother : ∀ fragment ∈ rendering.owned, fragment.toFragmentId ≠ id) :
    s'.fragments.get? id = some held := by
  obtain ⟨rfl, -, -⟩ := commit_eq_ok_iff.mp hcommit
  by_cases hkind : id.kind = .importLine
  · exact get?_storeFragments_import hkind hheld
  · refine (get?_storeFragments_of_ne fun fragment hmem heq => ?_).trans hheld
    refine hother fragment (Rendering.mem_owned.mpr ⟨hmem, ?_⟩) heq
    rwa [← heq] at hkind

/-- A struct binding keeps its owner: only its own struct may write it again. -/
theorem anchored_of_commit {proxy : Proxy} (hproper : rendering.Proper key replaceable)
    (hcommit : s.commit key rendering replaceable = .ok s') (hproxy : s.Anchored proxy) :
    s'.Anchored proxy := by
  obtain ⟨owner, text, hkind, hname, hheld⟩ := hproxy
  by_cases hwrites : ∃ fragment ∈ rendering.owned,
      fragment.toFragmentId = ⟨.structBinding, proxy.hostName⟩
  · obtain ⟨fragment, howned, hid⟩ := hwrites
    obtain ⟨rfl, hfree, -⟩ := commit_eq_ok_iff.mp hcommit
    have hmem := Rendering.mem_owned.mp howned
    have hstruct := hproper.structBinding fragment hmem.1 (congrArg FragmentId.kind hid)
    have hown : owner = key :=
      fragmentCollision?_eq_none.mp (hfree (by simp [hstruct.2])) fragment howned _ (hid ▸ hheld)
    refine ⟨owner, fragment.text, hkind, hname, ?_⟩
    rw [hown, ← hid]
    exact get?_storeFragments_owned hmem.1 hmem.2 hproper.distinct
  · refine ⟨owner, text, hkind, hname, get?_fragments_of_commit hcommit hheld ?_⟩
    exact fun fragment howned hid => hwrites ⟨fragment, howned, hid⟩

/-- What is still remembered of other declarations after a commit has lost nothing by it. -/
theorem holds_of_commit {k : DeclKey} {held : Rendering} (hs : s.Coherent) (hne : k ≠ key)
    (hcommit : s.commit key rendering replaceable = .ok s')
    (hkept : s'.renderings.get? k = some held) : s'.Holds k held := by
  obtain ⟨hs', -, -⟩ := commit_eq_ok_iff.mp hcommit
  rw [hs', get?_renderings_accept_of_ne hne] at hkept
  have hheld := hs.holds k held hkept.1
  constructor
  · intro fragment hmem hkind
    refine get?_fragments_of_commit hcommit (hheld.owned fragment hmem hkind) fun other hother hid => ?_
    exact hkept.2 other hother _ (hid ▸ hheld.owned fragment hmem hkind) rfl
  · intro fragment hmem hkind
    obtain ⟨owner, hstored⟩ := hheld.imports fragment hmem hkind
    refine ⟨owner, get?_fragments_of_commit hcommit hstored fun other hother hid => ?_⟩
    exact (Rendering.mem_owned.mp hother).2 ((congrArg FragmentId.kind hid).trans hkind)
  · intro header hmem
    rw [hs', mem_includes_accept]
    exact .inl (hheld.includes header hmem)
  · exact fun proxy hproxy => proxy?_of_commit hcommit (hheld.proxy proxy hproxy)

theorem importText_of_commit (hs : s.Coherent) (hproper : rendering.Proper key replaceable)
    (hcommit : s.commit key rendering replaceable = .ok s') {name : String} {held : Stored}
    (hheld : s'.fragments.get? ⟨.importLine, name⟩ = some held) : held.text = name ++ "\n" := by
  obtain ⟨rfl, -, -⟩ := commit_eq_ok_iff.mp hcommit
  obtain hold | ⟨fragment, hmem, hid, rfl⟩ := get?_storeFragments_cases hheld
  · exact hs.importText name held hold
  · have himport := hproper.imports fragment hmem (congrArg FragmentId.kind hid)
    have hname : fragment.name = name := congrArg FragmentId.name hid
    rw [himport, ← hname]
    rfl

theorem holds_committed (hs : s.Coherent) (hproper : rendering.Proper key replaceable)
    (hcommit : s.commit key rendering replaceable = .ok s') : s'.Holds key rendering := by
  have himport : ∀ name held, s'.fragments.get? ⟨.importLine, name⟩ = some held →
      held.text = name ++ "\n" := fun _ _ => importText_of_commit hs hproper hcommit
  obtain ⟨rfl, -, -⟩ := commit_eq_ok_iff.mp hcommit
  constructor
  · exact fun fragment hmem hkind => get?_storeFragments_owned hmem hkind hproper.distinct
  · intro fragment hmem hkind
    obtain ⟨held, hheld⟩ := exists_get?_storeFragments key s.fragments hmem
    have hform := hproper.imports fragment hmem hkind
    have htext : held.text = fragment.text := by
      rw [hform] at hheld ⊢
      exact himport _ _ hheld
    exact ⟨held.owner, htext ▸ hheld⟩
  · exact fun header hmem => mem_includes_accept.mpr (.inr hmem)
  · intro proxy hproxy
    rw [proxy?, get?_proxies_accept, hproxy]
    simp

theorem Coherent.commit (hs : s.Coherent) (hproper : rendering.Proper key replaceable)
    (hcommit : s.commit key rendering replaceable = .ok s') : s'.Coherent := by
  have hcommitted := holds_committed hs hproper hcommit
  have hregistered : ∀ name proxy, s'.proxy? name = some proxy →
      rendering.proxy = some proxy ∧ proxy.nativeName = name ∨ s.proxy? name = some proxy := by
    intro name proxy hproxy
    obtain ⟨rfl, -, -⟩ := commit_eq_ok_iff.mp hcommit
    rw [proxy?, get?_proxies_accept, Option.or_eq_some_iff] at hproxy
    rcases hproxy with hown | ⟨-, hold⟩
    · simpa [Option.filter_eq_some_iff] using Or.inl hown
    · exact .inr hold
  constructor
  case holds =>
    intro k held hkept
    by_cases hkey : k = key
    · subst hkey
      have hheld : held = rendering := by
        obtain ⟨rfl, -, -⟩ := commit_eq_ok_iff.mp hcommit
        rw [get?_renderings_accept, if_pos rfl] at hkept
        exact (Option.some.inj hkept).symm
      exact hheld ▸ hcommitted
    · exact holds_of_commit hs hkey hcommit hkept
  case named =>
    intro name proxy hproxy
    rcases hregistered name proxy hproxy with ⟨-, hname⟩ | hold
    · exact hname
    · exact hs.named name proxy hold
  case anchored =>
    intro name proxy hproxy
    rcases hregistered name proxy hproxy with ⟨hown, -⟩ | hold
    · obtain ⟨hkind, hname, -, fragment, hmem, hid⟩ := hproper.proxy proxy hown
      refine ⟨key, fragment.text, hkind, hname, hid ▸ hcommitted.owned fragment hmem ?_⟩
      rw [show fragment.kind = .structBinding from congrArg FragmentId.kind hid]
      decide
    · exact anchored_of_commit hproper hcommit (hs.anchored name proxy hold)
  case importText => exact fun name held => importText_of_commit hs hproper hcommit

theorem Reachable.coherent {config : Config} (hs : Reachable config s) : s.Coherent :=
  hs.induction (coherent_of_empty rfl rfl rfl)
    (fun _ _ _ _ _ hs hproper _ hcommit => hs.commit hproper hcommit)
    fun _ _ => coherent_of_empty rfl rfl rfl

/-- Two proxies of one host name would share a struct binding, which has one owner. -/
theorem Coherent.nativeName_eq {name₁ name₂ : String} {proxy₁ proxy₂ : Proxy} (hs : s.Coherent)
    (h₁ : s.proxy? name₁ = some proxy₁) (h₂ : s.proxy? name₂ = some proxy₂)
    (hhost : proxy₁.hostName = proxy₂.hostName) : name₁ = name₂ := by
  obtain ⟨owner₁, text₁, -, hname₁, hheld₁⟩ := hs.anchored name₁ proxy₁ h₁
  obtain ⟨owner₂, text₂, -, hname₂, hheld₂⟩ := hs.anchored name₂ proxy₂ h₂
  rw [hhost, hheld₂, Option.some.injEq, Stored.mk.injEq] at hheld₁
  rw [← hs.named name₁ proxy₁ h₁, ← hs.named name₂ proxy₂ h₂, ← hname₁, ← hname₂, hheld₁.1]

/-- **Every reachable session holds what it remembers**: each remembered rendering is stored as it was
returned, each registered proxy has a struct binding of its own struct, and no two registered proxies share
a host name. -/
theorem Reachable.holds_and_anchored {config : Config} (hs : Reachable config s) :
    (∀ key rendering, s.renderings.get? key = some rendering → s.Holds key rendering) ∧
    (∀ name proxy, s.proxy? name = some proxy → proxy.nativeName = name ∧ s.Anchored proxy) ∧
    (∀ name₁ name₂ proxy₁ proxy₂, s.proxy? name₁ = some proxy₁ → s.proxy? name₂ = some proxy₂ →
      proxy₁.hostName = proxy₂.hostName → name₁ = name₂) := by
  have hcoherent := hs.coherent
  refine ⟨hcoherent.holds, fun name proxy h => ?_, fun _ _ _ _ h₁ h₂ => ?_⟩
  · exact ⟨hcoherent.named name proxy h, hcoherent.anchored name proxy h⟩
  · exact hcoherent.nativeName_eq h₁ h₂

/-! ### A run in which an operator is taken over and taken back -/

namespace Sample

def vectors : StructBatch where
  structs := [{ name := "Vec2", fields := [⟨"x", .ofPrimitive (.floating .f32)⟩,
    ⟨"y", .ofPrimitive (.floating .f32)⟩] }]
  mapping := Table.ofList [("Vec2", { header := "vec.h" })]

def sum (operand : CType) : FunctionBatch where
  functions := [{ name := "operator+", returnType := .named "Vec2",
                  params := [⟨some "a", operand⟩, ⟨some "b", operand⟩], operator := some (.binary .add) }]
  header := "vec.h"

def summed : Session :=
  ((sum (.named "Vec2")).render (vectors.render { config := { operatorOverride := .lastWins } }).1).1

def implementation : FragmentId :=
  ⟨.functionBinding, "impl Add<Vec2> for Vec2"⟩

def takenBack : Session :=
  let started : Session := { config := { operatorOverride := .lastWins } }
  let first := ((sum (.named "Vec2")).render (vectors.render started).1).1
  let second := ((sum (.reference (.named "Vec2") true)).render first).1
  ((sum (.named "Vec2")).render second).1

end Sample

theorem holds_and_anchored_takenBack :
    Reachable { operatorOverride := .lastWins } Sample.takenBack ∧
    Sample.takenBack.renderings.size = 2 ∧ Sample.takenBack.fragments.size = 9 ∧
    (∀ key rendering, Sample.takenBack.renderings.get? key = some rendering →
      Sample.takenBack.Holds key rendering) ∧
    (∀ name proxy, Sample.takenBack.proxy? name = some proxy →
      proxy.nativeName = name ∧ Sample.takenBack.Anchored proxy) := by
  have hreachable : Reachable { operatorOverride := .lastWins } Sample.takenBack :=
    .functions _ (.functions _ (.functions _ (.structs _ .new)))
  have hholds := hreachable.holds_and_anchored
  exact ⟨hreachable, by decide +kernel, by decide +kernel, hholds.1, hholds.2.1⟩

end HostBinding.Session
