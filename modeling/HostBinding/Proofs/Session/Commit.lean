import HostBinding.Proofs.FirstBy
import HostBinding.Session.Basic
import Mathlib.Data.List.Nodup
import Mathlib.Tactic.Common

/-!
# What a commit changes

Everything that later modules know about `Session.commit`: when it succeeds, and what each part of the
session holds afterwards. A fragment that is no import line belongs to the declaration that stored it last;
an import line belongs to nobody in particular and stays as it was first stored. Renderings are forgotten
exactly when one of their fragments is taken over.
-/

namespace HostBinding

/-- The fragments that belong to the declaration alone, which are all but the import lines. -/
def Rendering.owned (rendering : Rendering) : List Fragment :=
  rendering.fragments.filter (·.kind ≠ .importLine)

theorem Rendering.mem_owned {rendering : Rendering} {fragment : Fragment} :
    fragment ∈ rendering.owned ↔ fragment ∈ rendering.fragments ∧ fragment.kind ≠ .importLine := by
  simp [owned]

namespace Session

variable {key : DeclKey} {rendering : Rendering} {s s' : Session}

/-! ### Storing fragments -/

theorem get?_storeFragment_of_ne {stored : Table FragmentId Stored} {fragment : Fragment}
    {id : FragmentId} (hne : fragment.toFragmentId ≠ id) :
    (storeFragment key stored fragment).get? id = stored.get? id := by
  simp only [storeFragment]
  split
  · rfl
  · rw [Table.get?_insert, if_neg (Ne.symm hne)]

theorem get?_storeFragment_import {stored : Table FragmentId Stored} {fragment : Fragment}
    {id : FragmentId} {held : Stored} (hkind : id.kind = .importLine) (hheld : stored.get? id = some held) :
    (storeFragment key stored fragment).get? id = some held := by
  by_cases heq : fragment.toFragmentId = id
  · subst heq
    rw [storeFragment, if_pos ⟨hkind, by rw [Table.contains, hheld]; rfl⟩, hheld]
  · rw [get?_storeFragment_of_ne heq, hheld]

theorem get?_storeFragment_owned {stored : Table FragmentId Stored} {fragment : Fragment}
    (hkind : fragment.kind ≠ .importLine) :
    (storeFragment key stored fragment).get? fragment.toFragmentId = some ⟨key, fragment.text⟩ := by
  rw [storeFragment, if_neg fun h => hkind h.1, Table.get?_insert, if_pos rfl]

theorem get?_storeFragments_of_ne {fragments : List Fragment} {stored : Table FragmentId Stored}
    {id : FragmentId} (hne : ∀ fragment ∈ fragments, fragment.toFragmentId ≠ id) :
    (fragments.foldl (storeFragment key) stored).get? id = stored.get? id := by
  induction fragments generalizing stored with
  | nil => rfl
  | cons fragment rest ih =>
    rw [List.foldl_cons, ih fun f hf => hne f (List.mem_cons_of_mem _ hf),
      get?_storeFragment_of_ne (hne fragment List.mem_cons_self)]

theorem get?_storeFragments_import {fragments : List Fragment} {stored : Table FragmentId Stored}
    {id : FragmentId} {held : Stored} (hkind : id.kind = .importLine) (hheld : stored.get? id = some held) :
    (fragments.foldl (storeFragment key) stored).get? id = some held := by
  induction fragments generalizing stored with
  | nil => exact hheld
  | cons fragment rest ih => exact ih (get?_storeFragment_import hkind hheld)

/-- Of several fragments with one identity the last would count, so the identities have to differ. -/
theorem get?_storeFragments_owned {fragments : List Fragment} {stored : Table FragmentId Stored}
    {fragment : Fragment} (hmem : fragment ∈ fragments) (hkind : fragment.kind ≠ .importLine)
    (hdistinct : ((fragments.filter (·.kind ≠ .importLine)).map (·.toFragmentId)).Nodup) :
    (fragments.foldl (storeFragment key) stored).get? fragment.toFragmentId =
      some ⟨key, fragment.text⟩ := by
  induction fragments generalizing stored with
  | nil => simp at hmem
  | cons first rest ih =>
    rw [List.foldl_cons]
    rcases List.mem_cons.mp hmem with rfl | hrest
    · rw [List.filter_cons_of_pos (by simpa using hkind), List.map_cons, List.nodup_cons] at hdistinct
      rw [get?_storeFragments_of_ne, get?_storeFragment_owned hkind]
      intro other hother heq
      refine hdistinct.1 (List.mem_map.mpr ⟨other, List.mem_filter.mpr ⟨hother, ?_⟩, heq⟩)
      have hsame : other.kind = fragment.kind := congrArg FragmentId.kind heq
      simpa [hsame] using hkind
    · refine ih hrest (hdistinct.sublist ?_)
      exact ((List.sublist_cons_self first rest).filter _).map _

theorem keys_storeFragment {stored : Table FragmentId Stored} {fragment : Fragment} :
    (storeFragment key stored fragment).keys =
      if fragment.toFragmentId ∈ stored.keys then stored.keys else stored.keys ++ [fragment.toFragmentId] := by
  rw [storeFragment]
  by_cases hmem : fragment.toFragmentId ∈ stored.keys
  · rw [if_pos hmem]
    split
    · rfl
    · exact Table.keys_insert_of_mem hmem
  · have hnone : stored.get? fragment.toFragmentId = none := Table.get?_eq_none_iff.mpr hmem
    rw [if_neg hmem, if_neg (by simp [Table.contains, hnone]), Table.keys, Table.entries_insert_of_notMem hmem,
      List.map_append]
    rfl

theorem keys_storeFragments (key : DeclKey) (stored : Table FragmentId Stored) (fragments : List Fragment) :
    (fragments.foldl (storeFragment key) stored).keys =
      firstBy id (stored.keys ++ fragments.map (·.toFragmentId)) := by
  have hnodup (table : Table FragmentId Stored) : firstBy id table.keys = table.keys :=
    firstBy_eq_self (by rw [List.map_id]; exact table.nodup_keys)
  induction fragments generalizing stored with
  | nil => rw [List.foldl_nil, List.map_nil, List.append_nil, hnodup]
  | cons first rest ih =>
    have hfirst : (storeFragment key stored first).keys = firstBy id (stored.keys ++ [first.toFragmentId]) := by
      rw [firstBy_concat, hnodup, List.map_id, keys_storeFragment, id]
    rw [List.foldl_cons, ih, hfirst, firstBy_firstBy_append, List.append_assoc, List.singleton_append,
      List.map_cons]

theorem mem_keys_storeFragments {fragments : List Fragment} {stored : Table FragmentId Stored} {id : FragmentId} :
    id ∈ (fragments.foldl (storeFragment key) stored).keys ↔
      id ∈ stored.keys ∨ ∃ fragment ∈ fragments, fragment.toFragmentId = id := by
  rw [keys_storeFragments, mem_firstBy_id, List.mem_append, List.mem_map]

theorem exists_get?_storeFragments (key : DeclKey) (stored : Table FragmentId Stored)
    {fragments : List Fragment} {fragment : Fragment} (hmem : fragment ∈ fragments) :
    ∃ held, (fragments.foldl (storeFragment key) stored).get? fragment.toFragmentId = some held :=
  Table.mem_keys_iff_exists.mp (mem_keys_storeFragments.mpr (.inr ⟨fragment, hmem, rfl⟩))

theorem get?_storeFragments_cases {fragments : List Fragment} {stored : Table FragmentId Stored}
    {id : FragmentId} {held : Stored}
    (h : (fragments.foldl (storeFragment key) stored).get? id = some held) :
    stored.get? id = some held ∨
      ∃ fragment ∈ fragments, fragment.toFragmentId = id ∧ held = ⟨key, fragment.text⟩ := by
  induction fragments generalizing stored with
  | nil => exact .inl h
  | cons first rest ih =>
    rw [List.foldl_cons] at h
    rcases ih h with hfirst | ⟨fragment, hmem, heq⟩
    · by_cases heq : first.toFragmentId = id
      · rw [storeFragment] at hfirst
        split at hfirst
        · exact .inl hfirst
        · rw [Table.get?_insert, if_pos heq.symm, Option.some.injEq] at hfirst
          exact .inr ⟨first, List.mem_cons_self, heq, hfirst.symm⟩
      · exact .inl (by rwa [get?_storeFragment_of_ne heq] at hfirst)
    · exact .inr ⟨fragment, List.mem_cons_of_mem _ hmem, heq⟩

theorem get?_storeFragments_new {fragments : List Fragment} {stored : Table FragmentId Stored}
    {fragment : Fragment} (hmem : fragment ∈ fragments) (hnew : fragment.toFragmentId ∉ stored.keys)
    (hdistinct : (fragments.map (·.toFragmentId)).Nodup) :
    (fragments.foldl (storeFragment key) stored).get? fragment.toFragmentId = some ⟨key, fragment.text⟩ := by
  obtain ⟨held, hheld⟩ := exists_get?_storeFragments key stored hmem
  obtain hold | ⟨other, hother, hid, rfl⟩ := get?_storeFragments_cases hheld
  · exact absurd (Table.mem_keys_of_get? hold) hnew
  · rw [hheld, List.inj_on_of_nodup_map hdistinct hother hmem hid]

/-! ### The committed session -/

theorem fragmentCollision?_eq_none :
    s.fragmentCollision? key rendering = none ↔
      ∀ fragment ∈ rendering.owned, ∀ held,
        s.fragments.get? fragment.toFragmentId = some held → held.owner = key := by
  simp only [fragmentCollision?, List.findSome?_eq_none_iff, Rendering.mem_owned, and_imp]
  refine forall_congr' fun fragment => forall_congr' fun _ => ?_
  by_cases hkind : fragment.kind = .importLine
  · simp [hkind]
  · cases s.fragments.get? fragment.toFragmentId <;> simp [hkind]

theorem proxyCollision?_eq_none :
    s.proxyCollision? rendering = none ↔
      ∀ proxy, rendering.proxy = some proxy →
        ∀ existing, s.proxies.get? proxy.nativeName = some existing → existing = proxy := by
  simp only [proxyCollision?, Option.bind_eq_none_iff]
  refine forall_congr' fun proxy => forall_congr' fun _ => forall_congr' fun existing => ?_
  simp

theorem commit_eq_ok_iff {replaceable : Bool} :
    s.commit key rendering replaceable = .ok s' ↔
      s' = s.accept key rendering ∧
      (¬(replaceable = true ∧ s.config.operatorOverride = .lastWins) →
        s.fragmentCollision? key rendering = none) ∧
      s.proxyCollision? rendering = none := by
  by_cases hreplace : replaceable = true ∧ s.config.operatorOverride = .lastWins
  · obtain ⟨rfl, hpolicy⟩ := hreplace
    cases hproxy : s.proxyCollision? rendering <;>
      simp [commit, hpolicy, hproxy, eq_comm (a := s')]
  · have hmay : (replaceable && decide (s.config.operatorOverride = .lastWins)) = false := by
      simpa using hreplace
    cases hfragment : s.fragmentCollision? key rendering <;>
      cases hproxy : s.proxyCollision? rendering <;>
      simp [commit, hmay, hfragment, hproxy, hreplace, eq_comm (a := s')]

theorem get?_renderings_accept (k : DeclKey) :
    (s.accept key rendering).renderings.get? k =
      if k = key then some rendering
      else (s.renderings.get? k).filter fun _ => !s.displaces key rendering k := by
  simp only [accept, Table.get?_insert, Table.get?_filter]

theorem get?_proxies_accept (name : String) :
    (s.accept key rendering).proxies.get? name =
      (rendering.proxy.filter (·.nativeName = name)).or (s.proxies.get? name) := by
  cases hproxy : rendering.proxy with
  | none => simp [accept, hproxy]
  | some proxy =>
    by_cases hname : name = proxy.nativeName
    · simp [accept, hproxy, Table.get?_insert, hname, Option.filter]
    · simp [accept, hproxy, Table.get?_insert, hname, Option.filter, Ne.symm hname]

theorem foldl_addHeader (headers added : List String) :
    added.foldl addHeader headers = headers ++ (firstBy id added).filter (· ∉ headers) := by
  induction added generalizing headers with
  | nil => simp [firstBy]
  | cons first rest ih =>
    rw [List.foldl_cons, ih, addHeader, firstBy]
    by_cases hmem : first ∈ headers
    · rw [if_pos hmem, List.filter_cons_of_neg (by simpa using hmem), List.filter_filter]
      refine congrArg _ (List.filter_congr fun header _ => ?_)
      by_cases heq : header = first
      · simp [heq, hmem]
      · simp [heq]
    · rw [if_neg hmem, List.filter_cons_of_pos (by simpa using hmem), List.filter_filter, List.append_assoc,
        List.singleton_append]
      refine congrArg (headers ++ first :: ·) (List.filter_congr fun header _ => ?_)
      simp

theorem mem_foldl_addHeader {headers added : List String} {header : String} :
    header ∈ added.foldl addHeader headers ↔ header ∈ headers ∨ header ∈ added := by
  rw [foldl_addHeader, List.mem_append, List.mem_filter, mem_firstBy_id]
  by_cases hmem : header ∈ headers
  · simp [hmem]
  · simp [hmem]

theorem mem_includes_accept {header : String} :
    header ∈ (s.accept key rendering).includes ↔ header ∈ s.includes ∨ header ∈ rendering.includes :=
  mem_foldl_addHeader

theorem displaces_iff {owner : DeclKey} :
    s.displaces key rendering owner = true ↔
      owner ≠ key ∧ ∃ fragment ∈ rendering.owned, ∃ held,
        s.fragments.get? fragment.toFragmentId = some held ∧ held.owner = owner := by
  simp only [displaces, Bool.and_eq_true, List.any_eq_true, Rendering.mem_owned, Option.any_eq_true,
    decide_eq_true_eq, and_assoc]

/-- A rendering that stays is one that no fragment was taken from. -/
theorem get?_renderings_accept_of_ne {k : DeclKey} {held : Rendering} (hne : k ≠ key) :
    (s.accept key rendering).renderings.get? k = some held ↔
      s.renderings.get? k = some held ∧ ∀ fragment ∈ rendering.owned, ∀ stored,
        s.fragments.get? fragment.toFragmentId = some stored → stored.owner ≠ k := by
  rw [get?_renderings_accept, if_neg hne, Option.filter_eq_some_iff]
  apply and_congr_right
  intro _
  rw [Bool.not_eq_true', ← Bool.not_eq_true, displaces_iff]
  simp only [ne_eq, hne, not_false_eq_true, true_and, not_exists, not_and]

/-! ### Commits that take nothing over -/

/-- A rendering that can be added without taking anything over. -/
structure Admits (s : Session) (key : DeclKey) (rendering : Rendering) : Prop where
  fragments : ∀ fragment ∈ rendering.owned, ∀ held,
    s.fragments.get? fragment.toFragmentId = some held → held.owner = key
  proxy : ∀ proxy, rendering.proxy = some proxy →
    ∀ existing, s.proxies.get? proxy.nativeName = some existing → existing = proxy

theorem commit_eq_ok_iff_admits {replaceable : Bool}
    (hkeeps : ¬(replaceable = true ∧ s.config.operatorOverride = .lastWins)) :
    s.commit key rendering replaceable = .ok s' ↔ s.Admits key rendering ∧ s' = s.accept key rendering := by
  rw [commit_eq_ok_iff, imp_iff_right hkeeps, fragmentCollision?_eq_none, proxyCollision?_eq_none]
  exact ⟨fun ⟨hs', hfragments, hproxy⟩ => ⟨⟨hfragments, hproxy⟩, hs'⟩,
    fun ⟨hadmits, hs'⟩ => ⟨hs', hadmits.fragments, hadmits.proxy⟩⟩

theorem commit_false_eq_ok_iff :
    s.commit key rendering false = .ok s' ↔ s.Admits key rendering ∧ s' = s.accept key rendering :=
  commit_eq_ok_iff_admits fun h => Bool.false_ne_true h.1

/-- What is added without taking over leaves all other renderings where they are. -/
theorem Admits.get?_renderings_accept (h : s.Admits key rendering) (k : DeclKey) :
    (s.accept key rendering).renderings.get? k =
      if k = key then some rendering else s.renderings.get? k := by
  rw [Session.get?_renderings_accept]
  refine if_congr Iff.rfl rfl ?_
  have hkept : s.displaces key rendering k = false := by
    rw [← Bool.not_eq_true, displaces_iff]
    rintro ⟨hne, fragment, howned, held, hheld, rfl⟩
    exact hne (h.fragments fragment howned held hheld)
  cases s.renderings.get? k <;> simp [Option.filter, hkept]

theorem Admits.remembered (h : s.Admits key rendering) (hmiss : s.renderings.get? key = none) :
    (s.accept key rendering).renderings.get? key = some rendering ∧
    ∀ k held, s.renderings.get? k = some held → (s.accept key rendering).renderings.get? k = some held := by
  refine ⟨by rw [h.get?_renderings_accept, if_pos rfl], fun k held hheld => ?_⟩
  rw [h.get?_renderings_accept, if_neg, hheld]
  rintro rfl
  rw [hmiss] at hheld
  cases hheld

end Session

end HostBinding
