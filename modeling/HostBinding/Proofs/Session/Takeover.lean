import HostBinding.Proofs.FirstBy
import HostBinding.Proofs.Session.Coherence

/-!
# Taking over twice

Where the last declaration wins, one of a batch may take fragments from another one, which is then forgotten
and rendered again the next time. Still a second pass over the same declarations ends where the first one
did. A declaration writes all its fragments or holds them all already, so after a pass each of their names
belongs to the last declaration that has it, whatever was there before; and a declaration is remembered
exactly when it owns all its fragments. Both depend on the declarations alone.
-/

namespace HostBinding.Session

/-- A declaration that nothing stops: its key and what it renders to. -/
structure Entrant where
  key : DeclKey
  rendering : Rendering

/-- What an entrant stores under a name. -/
def Entrant.stored? (e : Entrant) (id : FragmentId) : Option Stored :=
  (e.rendering.owned.find? (·.toFragmentId = id)).map fun fragment => ⟨e.key, fragment.text⟩

def enter (s : Session) (e : Entrant) : Session :=
  if s.renderings.contains e.key then s else s.accept e.key e.rendering

/-- Entrants that are told apart by their keys and register no proxies. -/
structure Uniform (entrants : List Entrant) : Prop where
  agree : ∀ e ∈ entrants, ∀ e' ∈ entrants, e.key = e'.key → e = e'
  proper : ∀ e ∈ entrants, e.rendering.Proper e.key true
  proxy : ∀ e ∈ entrants, e.rendering.proxy = none

/-- A session that knows nothing of the entrants but what they render to. -/
structure Expects (s : Session) (entrants : List Entrant) : Prop where
  lastWins : s.config.operatorOverride = .lastWins
  coherent : s.Coherent
  held : ∀ e ∈ entrants, ∀ held, s.renderings.get? e.key = some held → held = e.rendering
  owned : ∀ e ∈ entrants, ∀ id stored, id.kind ≠ .importLine → s.fragments.get? id = some stored →
    stored.owner = e.key → ∃ fragment ∈ e.rendering.owned, fragment.toFragmentId = id

variable {s t : Session} {e e' : Entrant} {entrants done : List Entrant} {id : FragmentId} {k : DeclKey}

/-! ### What an entrant stores -/

theorem Entrant.stored?_of_mem (hdistinct : (e.rendering.owned.map (·.toFragmentId)).Nodup) {fragment : Fragment}
    (howned : fragment ∈ e.rendering.owned) :
    e.stored? fragment.toFragmentId = some ⟨e.key, fragment.text⟩ := by
  rw [Entrant.stored?, find?_key_eq hdistinct howned]
  rfl

theorem Entrant.stored?_eq_none_iff :
    e.stored? id = none ↔ ∀ fragment ∈ e.rendering.owned, fragment.toFragmentId ≠ id := by
  simp [Entrant.stored?, List.find?_eq_none]

theorem Entrant.owner_of_stored? {stored : Stored} (h : e.stored? id = some stored) : stored.owner = e.key := by
  obtain ⟨fragment, -, rfl⟩ := Option.map_eq_some_iff.mp h
  rfl

/-! ### One entrant -/

theorem commit_of_expects (hs : s.Expects entrants) (hproxy : e.rendering.proxy = none) :
    s.commit e.key e.rendering true = .ok (s.accept e.key e.rendering) := by
  refine commit_eq_ok_iff.mpr ⟨rfl, fun hkeeps => absurd ⟨rfl, hs.lastWins⟩ hkeeps, ?_⟩
  exact proxyCollision?_eq_none.mpr fun proxy hown => by simp [hproxy] at hown

theorem get?_fragments_enter (hentrants : Uniform entrants) (hs : s.Expects entrants) (hmem : e ∈ entrants)
    (hkind : id.kind ≠ .importLine) :
    (s.enter e).fragments.get? id = (e.stored? id).or (s.fragments.get? id) := by
  have hproper := hentrants.proper e hmem
  have hkept (hother : ∀ fragment ∈ e.rendering.owned, fragment.toFragmentId ≠ id) :
      (s.enter e).fragments.get? id = s.fragments.get? id := by
    rw [enter]
    split
    · rfl
    · refine get?_storeFragments_of_ne fun fragment hfragment heq => ?_
      exact hother fragment (Rendering.mem_owned.mpr ⟨hfragment, heq ▸ hkind⟩) heq
  by_cases hown : ∃ fragment ∈ e.rendering.owned, fragment.toFragmentId = id
  · obtain ⟨fragment, howned, rfl⟩ := hown
    rw [Entrant.stored?_of_mem hproper.distinct howned, Option.some_or, enter]
    obtain ⟨hfragment, -⟩ := Rendering.mem_owned.mp howned
    split
    · rename_i hheld
      obtain ⟨held, hheld⟩ := Option.isSome_iff_exists.mp hheld
      obtain rfl := hs.held e hmem held hheld
      exact (hs.coherent.holds e.key _ hheld).owned fragment hfragment hkind
    · exact get?_storeFragments_owned hfragment hkind hproper.distinct
  · have hother : ∀ fragment ∈ e.rendering.owned, fragment.toFragmentId ≠ id :=
      fun fragment howned heq => hown ⟨fragment, howned, heq⟩
    rw [hkept hother, Entrant.stored?_eq_none_iff.mpr hother, Option.none_or]

theorem get?_renderings_enter_self (hs : s.Expects entrants) (hmem : e ∈ entrants) :
    (s.enter e).renderings.get? e.key = some e.rendering := by
  rw [enter]
  split
  · rename_i hheld
    obtain ⟨held, hheld⟩ := Option.isSome_iff_exists.mp hheld
    rw [hheld, hs.held e hmem held hheld]
  · rw [get?_renderings_accept, if_pos rfl]

/-- What is remembered of others after an entrant had lost nothing to it. An entrant that is remembered
itself owns its fragments, so nobody has to lose any. -/
theorem get?_renderings_enter_of_ne (hs : s.Expects entrants) (hmem : e ∈ entrants) (hne : k ≠ e.key)
    {held : Rendering} :
    (s.enter e).renderings.get? k = some held ↔
      s.renderings.get? k = some held ∧ ∀ fragment ∈ e.rendering.owned, ∀ stored,
        s.fragments.get? fragment.toFragmentId = some stored → stored.owner ≠ k := by
  rw [enter]
  split
  · rename_i hheld
    obtain ⟨own, hown⟩ := Option.isSome_iff_exists.mp hheld
    obtain rfl := hs.held e hmem own hown
    refine (and_iff_left fun fragment howned stored hstored => ?_).symm
    obtain ⟨hfragment, hkind⟩ := Rendering.mem_owned.mp howned
    rw [(hs.coherent.holds e.key _ hown).owned fragment hfragment hkind, Option.some.injEq] at hstored
    exact hstored ▸ hne.symm
  · exact get?_renderings_accept_of_ne hne

theorem Expects.enter (hentrants : Uniform entrants) (hs : s.Expects entrants) (hmem : e ∈ entrants) :
    (s.enter e).Expects entrants := by
  constructor
  case lastWins =>
    rw [Session.enter]
    split
    · exact hs.lastWins
    · exact hs.lastWins
  case coherent =>
    rw [Session.enter]
    split
    · exact hs.coherent
    · exact hs.coherent.commit (hentrants.proper e hmem) (commit_of_expects hs (hentrants.proxy e hmem))
  case held =>
    intro e' hmem' held hheld
    by_cases hkey : e'.key = e.key
    · obtain rfl := hentrants.agree e' hmem' e hmem hkey
      rw [get?_renderings_enter_self hs hmem, Option.some.injEq] at hheld
      exact hheld.symm
    · exact hs.held e' hmem' held ((get?_renderings_enter_of_ne hs hmem hkey).mp hheld).1
  case owned =>
    intro e' hmem' id stored hkind hstored howner
    rw [get?_fragments_enter hentrants hs hmem hkind, Option.or_eq_some_iff] at hstored
    rcases hstored with hown | ⟨-, hold⟩
    · obtain rfl := hentrants.agree e' hmem' e hmem (howner.symm.trans (Entrant.owner_of_stored? hown))
      by_contra hnone
      rw [Entrant.stored?_eq_none_iff.mpr fun fragment howned heq => hnone ⟨fragment, howned, heq⟩] at hown
      cases hown
    · exact hs.owned e' hmem' id stored hkind hold howner

/-! ### A pass -/

def lastStored? (entrants : List Entrant) (id : FragmentId) : Option Stored :=
  entrants.reverse.findSome? (·.stored? id)

theorem lastStored?_concat : lastStored? (done ++ [e]) id = (e.stored? id).or (lastStored? done id) := by
  rw [lastStored?, List.reverse_append, List.reverse_singleton, List.singleton_append, List.findSome?_cons]
  cases e.stored? id <;> rfl

theorem Expects.pass (hentrants : Uniform entrants) (hs : s.Expects entrants) (hdone : done ⊆ entrants) :
    (done.foldl Session.enter s).Expects entrants := by
  induction done using List.reverseRecOn with
  | nil => exact hs
  | append_singleton done e ih =>
    rw [List.foldl_concat]
    exact (ih fun e' hmem => hdone (List.mem_append_left _ hmem)).enter hentrants (hdone (by simp))

theorem get?_fragments_pass (hentrants : Uniform entrants) (hs : s.Expects entrants) (hdone : done ⊆ entrants)
    (hkind : id.kind ≠ .importLine) :
    (done.foldl enter s).fragments.get? id = (lastStored? done id).or (s.fragments.get? id) := by
  induction done using List.reverseRecOn with
  | nil => rfl
  | append_singleton done e ih =>
    have hbefore : done ⊆ entrants := fun e' hmem => hdone (List.mem_append_left _ hmem)
    rw [List.foldl_concat, get?_fragments_enter hentrants (hs.pass hentrants hbefore) (hdone (by simp)) hkind,
      ih hbefore, lastStored?_concat, Option.or_assoc]

/-- **After a pass an entrant is remembered exactly when it owns all its fragments.** -/
theorem get?_renderings_pass_iff (hentrants : Uniform entrants) (hs : s.Expects entrants)
    (hdone : done ⊆ entrants) (hmem : e ∈ done) :
    (done.foldl enter s).renderings.get? e.key = some e.rendering ↔
      ∀ fragment ∈ e.rendering.owned,
        (done.foldl enter s).fragments.get? fragment.toFragmentId = some ⟨e.key, fragment.text⟩ := by
  constructor
  · intro hheld fragment howned
    obtain ⟨hfragment, hkind⟩ := Rendering.mem_owned.mp howned
    exact ((hs.pass hentrants hdone).coherent.holds e.key _ hheld).owned fragment hfragment hkind
  · induction done using List.reverseRecOn with
    | nil => cases hmem
    | append_singleton done last ih =>
      have hbefore : done ⊆ entrants := fun e' hmem => hdone (List.mem_append_left _ hmem)
      have hlast : last ∈ entrants := hdone (by simp)
      have hexpects := hs.pass hentrants hbefore
      rw [List.foldl_concat]
      intro howns
      by_cases hkey : e.key = last.key
      · obtain rfl := hentrants.agree e (hdone hmem) last hlast hkey
        exact get?_renderings_enter_self hexpects hlast
      have hmem : e ∈ done := by
        rcases List.mem_append.mp hmem with hdone | hsame
        · exact hdone
        · exact absurd (congrArg Entrant.key (List.mem_singleton.mp hsame)) hkey
      -- What the last entrant stores belongs to it, so it stores none of these fragments.
      have hapart : ∀ fragment ∈ e.rendering.owned, last.stored? fragment.toFragmentId = none := by
        intro fragment howned
        have hown := howns fragment howned
        rw [get?_fragments_enter hentrants hexpects hlast (Rendering.mem_owned.mp howned).2,
          Option.or_eq_some_iff] at hown
        rcases hown with htaken | ⟨hnone, -⟩
        · exact absurd (Entrant.owner_of_stored? htaken) hkey
        · exact hnone
      refine (get?_renderings_enter_of_ne hexpects hlast hkey).mpr ⟨ih hbefore hmem fun fragment howned => ?_, ?_⟩
      · have hown := howns fragment howned
        rwa [get?_fragments_enter hentrants hexpects hlast (Rendering.mem_owned.mp howned).2,
          hapart fragment howned, Option.none_or] at hown
      · intro fragment howned stored hstored howner
        obtain ⟨hfragment, hkind⟩ := Rendering.mem_owned.mp howned
        obtain ⟨own, hown, hid⟩ := hexpects.owned e (hdone (by simp [hmem])) _ stored hkind hstored howner
        exact Entrant.stored?_eq_none_iff.mp (hapart own hown) fragment howned hid.symm

/-! ### What is there already -/

/-- A session that stores all names and headers of an entrant, whoever owns them. -/
structure Contains (s : Session) (e : Entrant) : Prop where
  fragments : ∀ fragment ∈ e.rendering.fragments, fragment.toFragmentId ∈ s.fragments.keys
  includes : ∀ header ∈ e.rendering.includes, header ∈ s.includes

theorem keys_storeFragments_of_mem {key : DeclKey} {fragments : List Fragment} {stored : Table FragmentId Stored}
    (h : ∀ fragment ∈ fragments, fragment.toFragmentId ∈ stored.keys) :
    (fragments.foldl (storeFragment key) stored).keys = stored.keys := by
  rw [keys_storeFragments, firstBy_append_of_mem, firstBy_eq_self]
  · rw [List.map_id]
    exact stored.nodup_keys
  · simpa using h

theorem foldl_addHeader_of_mem {headers added : List String} (h : ∀ header ∈ added, header ∈ headers) :
    added.foldl addHeader headers = headers := by
  rw [foldl_addHeader, List.filter_eq_nil_iff.mpr, List.append_nil]
  intro header hmem
  simpa using h header (mem_firstBy_id.mp hmem)

theorem Contains.enter (h : s.Contains e) (e' : Entrant) : (s.enter e').Contains e := by
  rw [Session.enter]
  split
  · exact h
  · exact ⟨fun fragment hmem => mem_keys_storeFragments.mpr (.inl (h.fragments fragment hmem)),
      fun header hmem => mem_includes_accept.mpr (.inl (h.includes header hmem))⟩

theorem contains_enter_self (hs : s.Expects entrants) (hmem : e ∈ entrants) : (s.enter e).Contains e := by
  rw [enter]
  split
  · rename_i hheld
    obtain ⟨held, hheld⟩ := Option.isSome_iff_exists.mp hheld
    obtain rfl := hs.held e hmem held hheld
    have hholds := hs.coherent.holds e.key _ hheld
    refine ⟨fun fragment hfragment => ?_, hholds.includes⟩
    by_cases hkind : fragment.kind = .importLine
    · obtain ⟨owner, hstored⟩ := hholds.imports fragment hfragment hkind
      exact Table.mem_keys_of_get? hstored
    · exact Table.mem_keys_of_get? (hholds.owned fragment hfragment hkind)
  · exact ⟨fun fragment hfragment => mem_keys_storeFragments.mpr (.inr ⟨fragment, hfragment, rfl⟩),
      fun header hheader => mem_includes_accept.mpr (.inr hheader)⟩

theorem contains_pass (hentrants : Uniform entrants) (hs : s.Expects entrants) (hdone : done ⊆ entrants)
    (hmem : e ∈ done) : (done.foldl enter s).Contains e := by
  induction done using List.reverseRecOn with
  | nil => cases hmem
  | append_singleton done last ih =>
    have hbefore : done ⊆ entrants := fun e' hmem => hdone (List.mem_append_left _ hmem)
    rw [List.foldl_concat]
    rcases List.mem_append.mp hmem with hmem | hlast
    · exact (ih hbefore hmem).enter last
    · obtain rfl := List.mem_singleton.mp hlast
      exact contains_enter_self (hs.pass hentrants hbefore) (hdone (by simp))

/-- The parts of two sessions that an entrant does not change when everything that it needs is there. -/
structure SameFrame (s t : Session) : Prop where
  config : s.config = t.config
  proxies : s.proxies = t.proxies
  includes : s.includes = t.includes
  names : s.fragments.keys = t.fragments.keys
  imports : ∀ id : FragmentId, id.kind = .importLine → s.fragments.get? id = t.fragments.get? id

theorem Contains.sameFrame_enter (h : s.Contains e) (hproxy : e.rendering.proxy = none) :
    (s.enter e).SameFrame s := by
  rw [Session.enter]
  split
  · exact ⟨rfl, rfl, rfl, rfl, fun _ _ => rfl⟩
  · constructor
    case config => rfl
    case proxies => simp [accept, hproxy]
    case includes => exact foldl_addHeader_of_mem h.includes
    case names => exact keys_storeFragments_of_mem h.fragments
    case imports =>
      intro id hkind
      cases hheld : s.fragments.get? id with
      | some held => exact get?_storeFragments_import hkind hheld
      | none =>
        refine (get?_storeFragments_of_ne fun fragment hmem heq => ?_).trans hheld
        exact Table.get?_eq_none_iff.mp hheld (heq ▸ h.fragments fragment hmem)

theorem sameFrame_pass (hentrants : Uniform entrants) (hs : ∀ e ∈ entrants, s.Contains e)
    (hdone : done ⊆ entrants) :
    (done.foldl enter s).SameFrame s ∧ ∀ e ∈ entrants, (done.foldl enter s).Contains e := by
  induction done using List.reverseRecOn with
  | nil => exact ⟨⟨rfl, rfl, rfl, rfl, fun _ _ => rfl⟩, hs⟩
  | append_singleton done last ih =>
    obtain ⟨hframe, hcontains⟩ := ih fun e' hmem => hdone (List.mem_append_left _ hmem)
    have hlast : last ∈ entrants := hdone (by simp)
    have hstep := (hcontains last hlast).sameFrame_enter (hentrants.proxy last hlast)
    rw [List.foldl_concat]
    refine ⟨⟨hstep.config.trans hframe.config, hstep.proxies.trans hframe.proxies,
      hstep.includes.trans hframe.includes, hstep.names.trans hframe.names,
      fun id hkind => (hstep.imports id hkind).trans (hframe.imports id hkind)⟩, ?_⟩
    exact fun e hmem => (hcontains e hmem).enter last

/-! ### A second pass -/

/-- Sessions that differ at most in the order of what they remember. -/
structure Equivalent (s t : Session) : Prop where
  config : s.config = t.config
  fragments : s.fragments = t.fragments
  proxies : s.proxies = t.proxies
  includes : s.includes = t.includes
  renderings : ∀ key, s.renderings.get? key = t.renderings.get? key

theorem Equivalent.refl (s : Session) : s.Equivalent s :=
  ⟨rfl, rfl, rfl, rfl, fun _ => rfl⟩

theorem owner_of_lastStored? {stored : Stored} (h : lastStored? done id = some stored) :
    ∃ e ∈ done, stored.owner = e.key := by
  obtain ⟨e, hmem, hstored⟩ := List.exists_of_findSome?_eq_some h
  exact ⟨e, List.mem_reverse.mp hmem, Entrant.owner_of_stored? hstored⟩

theorem exists_lastStored? (hentrants : Uniform entrants) (hmem : e ∈ entrants) {fragment : Fragment}
    (howned : fragment ∈ e.rendering.owned) :
    ∃ stored, lastStored? entrants fragment.toFragmentId = some stored := by
  refine Option.isSome_iff_exists.mp (List.findSome?_isSome_iff.mpr ⟨e, List.mem_reverse.mpr hmem, ?_⟩)
  rw [Entrant.stored?_of_mem (hentrants.proper e hmem).distinct howned]
  rfl

/-- Nothing is taken from others once the entrants have taken it. -/
theorem get?_renderings_pass_of_other (hentrants : Uniform entrants) (hs : s.Expects entrants)
    (htaken : ∀ e ∈ entrants, ∀ fragment ∈ e.rendering.owned, ∀ stored,
      s.fragments.get? fragment.toFragmentId = some stored → ∃ e' ∈ entrants, stored.owner = e'.key)
    (hother : ∀ e ∈ entrants, k ≠ e.key) (hdone : done ⊆ entrants) :
    (done.foldl enter s).renderings.get? k = s.renderings.get? k := by
  induction done using List.reverseRecOn with
  | nil => rfl
  | append_singleton done last ih =>
    have hbefore : done ⊆ entrants := fun e' hmem => hdone (List.mem_append_left _ hmem)
    have hlast : last ∈ entrants := hdone (by simp)
    rw [List.foldl_concat, ← ih hbefore]
    ext held
    rw [get?_renderings_enter_of_ne (hs.pass hentrants hbefore) hlast (hother last hlast)]
    refine and_iff_left fun fragment howned stored hstored howner => ?_
    rw [get?_fragments_pass hentrants hs hbefore (Rendering.mem_owned.mp howned).2,
      Option.or_eq_some_iff] at hstored
    rcases hstored with hnew | ⟨-, hold⟩
    · obtain ⟨e', hmem', howner'⟩ := owner_of_lastStored? hnew
      exact hother e' (hbefore hmem') (howner.symm.trans howner')
    · obtain ⟨e', hmem', howner'⟩ := htaken last hlast fragment howned stored hold
      exact hother e' hmem' (howner.symm.trans howner')

/-- **A second pass changes nothing.** -/
theorem equivalent_pass_pass (hentrants : Uniform entrants) (hs : s.Expects entrants) :
    (entrants.foldl enter (entrants.foldl enter s)).Equivalent (entrants.foldl enter s) := by
  have hall : entrants ⊆ entrants := fun _ hmem => hmem
  have hfirst := hs.pass hentrants hall
  obtain ⟨hframe, -⟩ :=
    sameFrame_pass hentrants (fun e hmem => contains_pass hentrants hs hall hmem) hall
  have hfragments : (entrants.foldl enter (entrants.foldl enter s)).fragments =
      (entrants.foldl enter s).fragments := by
    refine Table.ext_get? hframe.names fun id => ?_
    by_cases hkind : id.kind = .importLine
    · exact hframe.imports id hkind
    · rw [get?_fragments_pass hentrants hfirst hall hkind, get?_fragments_pass hentrants hs hall hkind]
      cases lastStored? entrants id <;> rfl
  refine ⟨hframe.config, hfragments, hframe.proxies, hframe.includes, fun k => ?_⟩
  by_cases hentrant : ∃ e ∈ entrants, k = e.key
  · obtain ⟨e, hmem, rfl⟩ := hentrant
    have hiff := (get?_renderings_pass_iff hentrants hfirst hall hmem).trans
      (hfragments ▸ (get?_renderings_pass_iff hentrants hs hall hmem).symm)
    have hsecond := hfirst.pass hentrants hall
    ext held
    constructor
    · intro hheld
      obtain rfl := hsecond.held e hmem held hheld
      exact hiff.mp hheld
    · intro hheld
      obtain rfl := hfirst.held e hmem held hheld
      exact hiff.mpr hheld
  · refine get?_renderings_pass_of_other hentrants hfirst ?_ (fun e hmem heq => hentrant ⟨e, hmem, heq⟩) hall
    intro e hmem fragment howned stored hstored
    obtain ⟨last, hlast⟩ := exists_lastStored? hentrants hmem howned
    rw [get?_fragments_pass hentrants hs hall (Rendering.mem_owned.mp howned).2, hlast, Option.some_or,
      Option.some.injEq] at hstored
    exact hstored ▸ owner_of_lastStored? hlast

end HostBinding.Session
