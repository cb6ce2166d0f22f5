import HostBinding.Proofs.Session.InPlace

/-!
# The effect of a commit

A commit changes several parts of a session at once, and what it finds stored it treats in three ways. An import
line stays with the declaration that stored it first. A fragment of the declaration itself is written again. A
fragment of another declaration is taken over, where that is allowed, and the other declaration is forgotten.
`Refuses` lists what a commit fails for, and `Effect` states each part of the new session by the old one. The main
statement is that a commit fails for these reasons only and then leaves the session as it is, and that otherwise
there is one session that the rendering can lead to, which is the one that it leads to.
-/

namespace HostBinding.Session

/-- Why a rendering cannot enter a session: a fragment of its own belongs to another declaration and may not be
taken over, or another proxy is registered for its struct. -/
inductive Refuses (s : Session) (key : DeclKey) (rendering : Rendering) (replaceable : Bool) : Prop
  | fragment {fragment : Fragment} {stored : Stored} :
    ¬(replaceable = true ∧ s.config.operatorOverride = .lastWins) →
    fragment ∈ rendering.fragments → fragment.kind ≠ .importLine →
    s.fragments.get? fragment.toFragmentId = some stored → stored.owner ≠ key →
    Refuses s key rendering replaceable
  | proxy {proxy existing : Proxy} : rendering.proxy = some proxy →
    s.proxies.get? proxy.nativeName = some existing → existing ≠ proxy →
    Refuses s key rendering replaceable

/-- The other declarations that fragments of a rendering belonged to before. -/
def previousOwners (s : Session) (key : DeclKey) (rendering : Rendering) : List DeclKey :=
  ((rendering.owned.filterMap fun fragment => s.fragments.get? fragment.toFragmentId).map (·.owner)).filter
    (· ≠ key)

/-- What a session has become when a rendering has entered it. -/
structure Effect (s : Session) (key : DeclKey) (rendering : Rendering) (s' : Session) : Prop where
  config : s'.config = s.config
  /-- The names keep their places, and the new ones follow in the order of the rendering. -/
  ids : s'.fragments.keys = s.fragments.keys ++
    (rendering.fragments.map (·.toFragmentId)).filter (· ∉ s.fragments.keys)
  others : ∀ id stored, id ∉ rendering.owned.map (·.toFragmentId) → s.fragments.get? id = some stored →
    s'.fragments.get? id = some stored
  imports : ∀ id stored, id.kind = .importLine → s.fragments.get? id = some stored →
    s'.fragments.get? id = some stored
  owned : ∀ fragment ∈ rendering.owned,
    s'.fragments.get? fragment.toFragmentId = some ⟨key, fragment.text⟩
  added : ∀ fragment ∈ rendering.fragments, fragment.toFragmentId ∉ s.fragments.keys →
    s'.fragments.get? fragment.toFragmentId = some ⟨key, fragment.text⟩
  /-- A declaration that was remembered keeps its place among those that still are. -/
  renewed : key ∈ s.renderings.keys → s'.renderings.entries =
    (s.renderings.entries.filter (·.1 ∉ s.previousOwners key rendering)).map fun entry =>
      if entry.1 = key then (key, rendering) else entry
  remembered : key ∉ s.renderings.keys → s'.renderings.entries =
    s.renderings.entries.filter (·.1 ∉ s.previousOwners key rendering) ++ [(key, rendering)]
  proxies : s'.proxies.entries = s.proxies.entries ++
    (rendering.proxy.toList.filter (·.nativeName ∉ s.proxies.keys)).map fun proxy => (proxy.nativeName, proxy)
  registered : ∀ proxy, rendering.proxy = some proxy → s'.proxies.get? proxy.nativeName = some proxy
  includes : s'.includes = s.includes ++ (firstBy id rendering.includes).filter (· ∉ s.includes)

variable {s s' t : Session} {key : DeclKey} {rendering : Rendering} {replaceable : Bool}

/-! ### When a commit fails -/

theorem not_refuses_iff : ¬s.Refuses key rendering replaceable ↔
    (¬(replaceable = true ∧ s.config.operatorOverride = .lastWins) →
      s.fragmentCollision? key rendering = none) ∧ s.proxyCollision? rendering = none := by
  rw [fragmentCollision?_eq_none, proxyCollision?_eq_none]
  constructor
  · intro hfree
    refine ⟨fun hkeeps fragment howned stored hstored => ?_, fun proxy hproxy existing hexisting => ?_⟩
    · obtain ⟨hmem, hkind⟩ := Rendering.mem_owned.mp howned
      by_contra hother
      exact hfree (.fragment hkeeps hmem hkind hstored hother)
    · by_contra hother
      exact hfree (.proxy hproxy hexisting hother)
  · intro hfree hrefuses
    cases hrefuses with
    | fragment hkeeps hmem hkind hstored hother =>
      exact hother (hfree.1 hkeeps _ (Rendering.mem_owned.mpr ⟨hmem, hkind⟩) _ hstored)
    | proxy hproxy hexisting hother => exact hother (hfree.2 _ hproxy _ hexisting)

theorem commit_eq_ok_iff_not_refuses :
    s.commit key rendering replaceable = .ok s' ↔
      ¬s.Refuses key rendering replaceable ∧ s' = s.accept key rendering := by
  rw [commit_eq_ok_iff, not_refuses_iff, and_comm]

theorem exists_commit_eq_error_iff :
    (∃ cause, s.commit key rendering replaceable = .error cause) ↔ s.Refuses key rendering replaceable := by
  cases hcommit : s.commit key rendering replaceable with
  | ok s' => simpa using (commit_eq_ok_iff_not_refuses.mp hcommit).1
  | error cause =>
    refine iff_of_true ⟨cause, rfl⟩ ?_
    by_contra hfree
    rw [commit_eq_ok_iff_not_refuses.mpr ⟨hfree, rfl⟩] at hcommit
    cases hcommit

/-! ### The parts of the new session -/

theorem mem_previousOwners {owner : DeclKey} :
    owner ∈ s.previousOwners key rendering ↔ s.displaces key rendering owner = true := by
  rw [displaces_iff, previousOwners, List.mem_filter, and_comm, decide_eq_true_eq]
  refine and_congr_right fun _ => ?_
  simp only [List.mem_map, List.mem_filterMap]
  constructor
  · intro hmem
    obtain ⟨stored, ⟨fragment, howned, hstored⟩, howner⟩ := hmem
    exact ⟨fragment, howned, stored, hstored, howner⟩
  · intro htaken
    obtain ⟨fragment, howned, stored, hstored, howner⟩ := htaken
    exact ⟨stored, ⟨fragment, howned, hstored⟩, howner⟩

theorem entries_kept : (s.renderings.filter fun owner _ => !s.displaces key rendering owner).entries =
    s.renderings.entries.filter (·.1 ∉ s.previousOwners key rendering) := by
  refine List.filter_congr fun entry _ => ?_
  rw [Bool.eq_iff_iff, decide_eq_true_eq, mem_previousOwners, Bool.not_eq_true', Bool.not_eq_true]

theorem mem_keys_kept : key ∈ (s.renderings.filter fun owner _ => !s.displaces key rendering owner).keys ↔
    key ∈ s.renderings.keys := by
  have hself : s.displaces key rendering key = false := by simp [displaces]
  simp only [Table.mem_keys_iff_exists, Table.get?_filter, Option.filter_eq_some_iff, hself, Bool.not_false,
    and_true]

theorem keys_fragments_accept (hdistinct : (rendering.fragments.map (·.toFragmentId)).Nodup) :
    (s.accept key rendering).fragments.keys = s.fragments.keys ++
      (rendering.fragments.map (·.toFragmentId)).filter (· ∉ s.fragments.keys) := by
  have hstored : firstBy id s.fragments.keys = s.fragments.keys :=
    firstBy_eq_self (by rw [List.map_id]; exact s.fragments.nodup_keys)
  have hadded : firstBy id (rendering.fragments.map (·.toFragmentId)) =
      rendering.fragments.map (·.toFragmentId) :=
    firstBy_eq_self (by rwa [List.map_id])
  rw [accept, keys_storeFragments, firstBy_append, hstored, hadded, List.map_id]
  rfl

theorem get?_fragments_accept_of_notMem {id : FragmentId} {stored : Stored}
    (hother : id ∉ rendering.owned.map (·.toFragmentId)) (hstored : s.fragments.get? id = some stored) :
    (s.accept key rendering).fragments.get? id = some stored := by
  by_cases hkind : id.kind = .importLine
  -- The rendering may have an import line of this name, but it is not stored again.
  · exact get?_storeFragments_import hkind hstored
  · refine (get?_storeFragments_of_ne fun fragment hmem heq => hother ?_).trans hstored
    subst heq
    exact List.mem_map_of_mem (Rendering.mem_owned.mpr ⟨hmem, hkind⟩)

theorem entries_proxies_accept (hfree : s.proxyCollision? rendering = none) :
    (s.accept key rendering).proxies.entries = s.proxies.entries ++
      (rendering.proxy.toList.filter (·.nativeName ∉ s.proxies.keys)).map
        fun proxy => (proxy.nativeName, proxy) := by
  cases hproxy : rendering.proxy with
  | none => simp [accept, hproxy]
  | some proxy =>
    simp only [accept, hproxy, Option.elim_some, Option.toList_some]
    by_cases hmem : proxy.nativeName ∈ s.proxies.keys
    · obtain ⟨existing, hexisting⟩ := Table.mem_keys_iff_exists.mp hmem
      obtain rfl := proxyCollision?_eq_none.mp hfree proxy hproxy existing hexisting
      rw [Table.insert_eq_self hexisting, List.filter_cons_of_neg (by simpa using hmem)]
      simp
    · rw [Table.entries_insert_of_notMem hmem, List.filter_cons_of_pos (by simpa using hmem)]
      simp

theorem effect_accept (hdistinct : (rendering.fragments.map (·.toFragmentId)).Nodup)
    (hfree : s.proxyCollision? rendering = none) : s.Effect key rendering (s.accept key rendering) := by
  constructor
  case config => rfl
  case ids => exact keys_fragments_accept hdistinct
  case others => exact fun id stored => get?_fragments_accept_of_notMem
  case imports => exact fun id stored hkind => get?_storeFragments_import hkind
  case owned =>
    intro fragment howned
    obtain ⟨hmem, hkind⟩ := Rendering.mem_owned.mp howned
    exact get?_storeFragments_owned hmem hkind (hdistinct.sublist (List.filter_sublist.map _))
  case added => exact fun fragment hmem hnew => get?_storeFragments_new hmem hnew hdistinct
  case renewed =>
    intro hheld
    rw [accept, Table.entries_insert_of_mem (mem_keys_kept.mpr hheld), entries_kept]
  case remembered =>
    intro hmiss
    rw [accept, Table.entries_insert_of_notMem (mt mem_keys_kept.mp hmiss), entries_kept]
  case proxies => exact entries_proxies_accept hfree
  case registered =>
    intro proxy hproxy
    rw [get?_proxies_accept, hproxy]
    simp
  case includes => exact foldl_addHeader s.includes rendering.includes

/-! ### The whole new session -/

/-- A stored name is one of the rendering's own, one that was there before, or a new one. -/
theorem Effect.fragments_eq (h : s.Effect key rendering s') (h' : s.Effect key rendering t) :
    t.fragments = s'.fragments := by
  refine Table.ext_get? (h'.ids.trans h.ids.symm) fun id => ?_
  by_cases howned : id ∈ rendering.owned.map (·.toFragmentId)
  · obtain ⟨fragment, hmem, rfl⟩ := List.mem_map.mp howned
    rw [h'.owned fragment hmem, h.owned fragment hmem]
  by_cases hold : id ∈ s.fragments.keys
  · obtain ⟨stored, hstored⟩ := Table.mem_keys_iff_exists.mp hold
    rw [h'.others id stored howned hstored, h.others id stored howned hstored]
  by_cases hnew : id ∈ rendering.fragments.map (·.toFragmentId)
  · obtain ⟨fragment, hmem, rfl⟩ := List.mem_map.mp hnew
    rw [h'.added fragment hmem hold, h.added fragment hmem hold]
  · have hnone (u : Session) (hu : s.Effect key rendering u) : u.fragments.get? id = none := by
      rw [Table.get?_eq_none_iff, hu.ids, List.mem_append, List.mem_filter]
      exact fun hmem => hmem.elim hold fun hadded => hnew hadded.1
    rw [hnone t h', hnone s' h]

theorem Effect.unique (h : s.Effect key rendering s') (h' : s.Effect key rendering t) : t = s' := by
  have hrenderings : t.renderings.entries = s'.renderings.entries := by
    by_cases hheld : key ∈ s.renderings.keys
    · rw [h'.renewed hheld, h.renewed hheld]
    · rw [h'.remembered hheld, h.remembered hheld]
  have hfragments : t.fragments = s'.fragments := h.fragments_eq h'
  have hproxies : t.proxies.entries = s'.proxies.entries := h'.proxies.trans h.proxies.symm
  have hconfig : t.config = s'.config := h'.config.trans h.config.symm
  have hincludes : t.includes = s'.includes := h'.includes.trans h.includes.symm
  cases t
  cases s'
  rw [Session.mk.injEq]
  exact ⟨hconfig, Table.ext_entries hrenderings, hfragments, Table.ext_entries hproxies, hincludes⟩

/-- **What a commit does to a session**, for a rendering without two fragments of one kind and name. It fails exactly
when the session refuses the rendering, and when it has failed, also where it works in place, the session is what it
was. Otherwise it makes the one session that the effect of the rendering describes. -/
theorem commit_effect (s : Session) (key : DeclKey) (rendering : Rendering) (replaceable : Bool)
    (hdistinct : (rendering.fragments.map (·.toFragmentId)).Nodup) :
    ((∃ cause, s.commit key rendering replaceable = .error cause) ↔ s.Refuses key rendering replaceable) ∧
    (∀ cause, s.commit key rendering replaceable = .error cause →
      (commitInPlace key rendering replaceable).outcome s = (.error cause, s)) ∧
    (¬s.Refuses key rendering replaceable → ∃ s', s.commit key rendering replaceable = .ok s' ∧
      (commitInPlace key rendering replaceable).outcome s = (.ok ⟨⟩, s') ∧
      s.Effect key rendering s' ∧ ∀ t, s.Effect key rendering t → t = s') := by
  refine ⟨exists_commit_eq_error_iff, fun cause hcommit => ?_, fun hfree => ?_⟩
  · rw [outcome_commitInPlace, hcommit]
  · have hcommit : s.commit key rendering replaceable = .ok (s.accept key rendering) :=
      commit_eq_ok_iff_not_refuses.mpr ⟨hfree, rfl⟩
    have heffect : s.Effect key rendering (s.accept key rendering) :=
      effect_accept hdistinct (not_refuses_iff.mp hfree).2
    refine ⟨s.accept key rendering, hcommit, ?_, heffect, fun t => heffect.unique⟩
    rw [outcome_commitInPlace, hcommit]

/-! ### A rendering that takes fragments from two declarations -/

namespace Effect.Sample

def decl (name : String) : DeclKey where
  kind := .function
  name := name
  parts := ["ops.h"]

def bound (name text : String) : Fragment :=
  { kind := .functionBinding, name := name, text := text }

def addition : Fragment :=
  .ofImport "use core::ops::Add;"

def vector : Proxy where
  size := 8
  alignment := 4
  nativeName := "Vec2"
  hostName := "Vec2"
  model := .fieldwise

def earlier : List (DeclKey × Rendering) :=
  [(decl "plus", { fragments := [addition, bound "plus" "1", bound "impl" "1"], includes := ["a.h"] }),
    (decl "sum", { fragments := [addition, bound "sum" "1"], includes := ["b.h"], proxy := some vector }),
    (decl "scale", { fragments := [bound "scale" "1", bound "symbol" "1"], includes := ["a.h"] }),
    (decl "norm", { fragments := [bound "norm" "1"], includes := [] })]

def start : Session :=
  { config := { operatorOverride := .lastWins } }

def contested : Session :=
  (earlier.foldlM (fun (s : Session) entry => s.commit entry.1 entry.2 true) start).toOption.getD default

def again : Rendering where
  fragments := [addition, .ofImport "use core::ops::Mul;", bound "impl" "2", bound "sum" "2", bound "symbol" "2",
    bound "new" "2"]
  includes := ["c.h", "a.h"]
  proxy := some vector

end Effect.Sample

open Effect.Sample in
theorem commit_effect_contested :
    (again.fragments.map (·.toFragmentId)).Nodup ∧
    contested.Refuses (decl "sum") again false ∧
    (∃ cause, contested.commit (decl "sum") again false = .error cause ∧
      (commitInPlace (decl "sum") again false).outcome contested = (.error cause, contested)) ∧
    ¬contested.Refuses (decl "sum") again true ∧
    ∃ s', contested.commit (decl "sum") again true = .ok s' ∧
      (commitInPlace (decl "sum") again true).outcome contested = (.ok ⟨⟩, s') ∧
      contested.Effect (decl "sum") again s' ∧ (∀ t, contested.Effect (decl "sum") again t → t = s') ∧
      contested.renderings.keys = [decl "plus", decl "sum", decl "scale", decl "norm"] ∧
      s'.renderings.keys = [decl "sum", decl "norm"] ∧
      s'.fragments.get? addition.toFragmentId = some ⟨decl "plus", addition.text⟩ ∧
      s'.includes = ["a.h", "b.h", "c.h"] := by
  have hdistinct : (again.fragments.map (·.toFragmentId)).Nodup := by decide +kernel
  have hstored : contested.fragments.get? (bound "impl" "2").toFragmentId = some ⟨decl "plus", "1"⟩ := by
    decide +kernel
  have hrefuses : contested.Refuses (decl "sum") again false :=
    .fragment (fun hreplaces => Bool.false_ne_true hreplaces.1) (by decide) (by decide) hstored (by decide)
  have hfree : ¬contested.Refuses (decl "sum") again true :=
    not_refuses_iff.mpr ⟨fun hkeeps => absurd ⟨rfl, by decide +kernel⟩ hkeeps, by decide +kernel⟩
  obtain ⟨hfails, hunchanged, -⟩ := commit_effect contested (decl "sum") again false hdistinct
  obtain ⟨-, -, heffect⟩ := commit_effect contested (decl "sum") again true hdistinct
  obtain ⟨cause, hcause⟩ := hfails.mpr hrefuses
  obtain ⟨s', hcommit, hinPlace, hdescribed, hunique⟩ := heffect hfree
  obtain rfl := (commit_eq_ok_iff.mp hcommit).1
  exact ⟨hdistinct, hrefuses, ⟨cause, hcause, hunchanged cause hcause⟩, hfree, _, hcommit, hinPlace, hdescribed,
    hunique, by decide +kernel, by decide +kernel, by decide +kernel, by decide +kernel⟩

end HostBinding.Session
