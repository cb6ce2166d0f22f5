import HostBinding.Proofs.FirstBy
import HostBinding.Proofs.Session.Coherence

/-!
# The assembled module is what the returned modules hold together

A session keeps three copies of generated text: the fragments that it stores, the renderings that it answers
from, and the modules that it has returned. When nothing may be taken over, the stored fragments are always
the first occurrences in everything that was ever returned. A rendering that is answered from memory adds
nothing, since all of it is stored; a new one adds exactly its fragments, since none of those that are its
own has been stored before.
-/

namespace HostBinding

/-! ### What a module collects -/

namespace OutputModule

variable {m : OutputModule} {kind : FragmentKind}

theorem firstBy_ofKind_push (front : List Fragment) (m : OutputModule) (fragment : Fragment) :
    firstBy (·.toFragmentId) (front ++ (m.push fragment).ofKind kind) =
      firstBy (·.toFragmentId) (front ++ m.ofKind kind ++ [fragment].filter (·.kind = kind)) := by
  simp only [push]
  split
  · rename_i hdropped
    refine (firstBy_append_of_mem fun dropped hmem => ?_).symm
    obtain ⟨hmem, hkind⟩ := List.mem_filter.mp hmem
    obtain rfl := List.mem_singleton.mp hmem
    obtain ⟨held, hheld, hid⟩ := List.any_eq_true.mp hdropped.2
    have hsame : held.toFragmentId = dropped.toFragmentId := of_decide_eq_true hid
    have hheldKind : held.kind = dropped.kind := congrArg FragmentId.kind hsame
    rw [List.map_append, List.mem_append]
    refine .inr (List.mem_map.mpr ⟨held, List.mem_filter.mpr ⟨hheld, ?_⟩, hsame⟩)
    rwa [hheldKind]
  · rw [ofKind, ofKind, List.filter_append, List.append_assoc]

theorem firstBy_ofKind_extend (front : List Fragment) (m : OutputModule) (fragments : List Fragment) :
    firstBy (·.toFragmentId) (front ++ (m.extend fragments).ofKind kind) =
      firstBy (·.toFragmentId) (front ++ m.ofKind kind ++ fragments.filter (·.kind = kind)) := by
  induction fragments generalizing m with
  | nil => rw [List.filter_nil, List.append_nil]; rfl
  | cons fragment rest ih =>
    calc firstBy (·.toFragmentId) (front ++ ((m.push fragment).extend rest).ofKind kind)
        = firstBy (·.toFragmentId)
            (front ++ (m.push fragment).ofKind kind ++ rest.filter (·.kind = kind)) := ih _
      _ = firstBy (·.toFragmentId) (front ++ m.ofKind kind ++ [fragment].filter (·.kind = kind) ++
            rest.filter (·.kind = kind)) := firstBy_append_congr (firstBy_ofKind_push front m fragment)
      _ = _ := by
        rw [List.append_assoc _ _ (rest.filter _), ← List.filter_append, List.singleton_append]

theorem includes_extend (m : OutputModule) (fragments : List Fragment) :
    (m.extend fragments).includes = m.includes := by
  induction fragments generalizing m with
  | nil => rfl
  | cons fragment rest ih =>
    refine (ih (m.push fragment)).trans ?_
    simp only [push]
    split <;> rfl

theorem added_addIncludes (m : OutputModule) (headers : List String) :
    (headers.foldl addInclude m).added = m.added := by
  induction headers generalizing m with
  | nil => rfl
  | cons header rest ih =>
    refine (ih (m.addInclude header)).trans ?_
    simp only [addInclude]
    split <;> rfl

theorem includes_addIncludes (m : OutputModule) (headers : List String) :
    (headers.foldl addInclude m).includes = headers.foldl Session.addHeader m.includes := by
  induction headers generalizing m with
  | nil => rfl
  | cons header rest ih =>
    have hfirst : (m.addInclude header).includes = Session.addHeader m.includes header := by
      simp only [addInclude, Session.addHeader]
      split <;> rfl
    rw [List.foldl_cons, ih, hfirst, List.foldl_cons]

/-- Only import lines are dropped, and those only when they come again. -/
theorem added_extend_of_nodup {fragments : List Fragment}
    (h : (((m.added ++ fragments).filter (·.kind = .importLine)).map (·.toFragmentId)).Nodup) :
    (m.extend fragments).added = m.added ++ fragments := by
  induction fragments generalizing m with
  | nil => rw [List.append_nil]; rfl
  | cons fragment rest ih =>
    have hpushed : m.push fragment = { m with added := m.added ++ [fragment] } := by
      rw [push, if_neg]
      rintro ⟨hkind, hdropped⟩
      obtain ⟨held, hheld, hid⟩ := List.any_eq_true.mp hdropped
      have hsame : held.toFragmentId = fragment.toFragmentId := of_decide_eq_true hid
      have hheldKind : held.kind = .importLine := (congrArg FragmentId.kind hsame).trans hkind
      rw [List.filter_append, List.map_append, List.nodup_append] at h
      refine h.2.2 _ (List.mem_map_of_mem (List.mem_filter.mpr ⟨hheld, by simpa using hheldKind⟩)) _
        (List.mem_map_of_mem (List.mem_filter.mpr ⟨List.mem_cons_self, by simpa using hkind⟩)) hsame
    have hrest := ih (m := m.push fragment) (by simpa [hpushed] using h)
    rw [hpushed] at hrest
    rw [show m.extend (fragment :: rest) = (m.push fragment).extend rest from rfl, hpushed, hrest,
      List.append_assoc, List.singleton_append]

end OutputModule

namespace Session

theorem addHeader_eq (headers : List String) (header : String) :
    addHeader headers header = if id header ∈ headers.map id then headers else headers ++ [header] := by
  rw [List.map_id]
  rfl

theorem firstBy_append_addHeaders (front headers added : List String) :
    firstBy id (front ++ added.foldl addHeader headers) = firstBy id (front ++ headers ++ added) := by
  induction added generalizing headers with
  | nil => rw [List.foldl_nil, List.append_nil]
  | cons header rest ih =>
    rw [List.foldl_cons, ih, ← List.singleton_append (l := rest), ← List.append_assoc _ [header]]
    refine firstBy_append_congr ?_
    simp only [addHeader]
    split
    · rename_i hmem
      refine (firstBy_append_of_mem fun again hagain => ?_).symm
      rw [List.mem_singleton.mp hagain, List.map_id, List.mem_append]
      exact .inr hmem
    · rw [List.append_assoc]

/-- The modules hold what the fragments and headers are, up to repetitions. -/
structure Collects (modules : List OutputModule) (fragments : List Fragment) (headers : List String) :
    Prop where
  ofKind : ∀ kind, kind ≠ .opening →
    firstBy (·.toFragmentId) (modules.flatMap (·.ofKind kind)) =
      firstBy (·.toFragmentId) (fragments.filter (·.kind = kind))
  includes : firstBy id (modules.flatMap (·.includes)) = firstBy id headers

variable {modules : List OutputModule} {module collected : OutputModule} {fragments : List Fragment}
  {headers : List String} {rendering : Rendering} {s s' : Session} {key : DeclKey} {replaceable : Bool}

theorem Collects.emptyModule (h : Collects modules fragments headers) (s : Session) :
    Collects (modules ++ [s.emptyModule]) fragments headers where
  ofKind kind hkind := by
    have hnone : s.emptyModule.ofKind kind = [] := by
      simpa [OutputModule.ofKind, Session.emptyModule] using hkind.symm
    simpa [List.flatMap_append, hnone] using h.ofKind kind hkind
  includes := by simpa [List.flatMap_append, Session.emptyModule] using h.includes

theorem Collects.extend (h : Collects (modules ++ [collected]) fragments headers)
    (rendering : Rendering) :
    Collects
      (modules ++ [(rendering.includes.foldl OutputModule.addInclude collected).extend rendering.fragments])
      (fragments ++ rendering.fragments) (headers ++ rendering.includes) where
  ofKind kind hkind := by
    have hbefore := h.ofKind kind hkind
    simp only [List.flatMap_append, List.flatMap_singleton] at hbefore ⊢
    rw [OutputModule.firstBy_ofKind_extend, List.filter_append]
    refine firstBy_append_congr ?_
    rw [← hbefore, OutputModule.ofKind, OutputModule.added_addIncludes]
    rfl
  includes := by
    have hbefore := h.includes
    simp only [List.flatMap_append, List.flatMap_singleton] at hbefore ⊢
    rw [OutputModule.includes_extend, OutputModule.includes_addIncludes, firstBy_append_addHeaders]
    exact firstBy_append_congr hbefore

/-! ### What a session stores -/

def listed (stored : Table FragmentId Stored) : List Fragment :=
  stored.entries.map fun entry => { toFragmentId := entry.1, text := entry.2.text }

theorem fragmentList_eq_listed (s : Session) : s.fragmentList = listed s.fragments :=
  rfl

theorem map_toFragmentId_listed (stored : Table FragmentId Stored) :
    (listed stored).map (·.toFragmentId) = stored.keys := by
  rw [listed, List.map_map]
  rfl

theorem listed_storeFragment {stored : Table FragmentId Stored} {fragment : Fragment}
    (hnew : fragment.kind ≠ .importLine → stored.get? fragment.toFragmentId = none) :
    listed (storeFragment key stored fragment) =
      firstBy (·.toFragmentId) (listed stored ++ [fragment]) := by
  have hnodup : ((listed stored).map (·.toFragmentId)).Nodup :=
    map_toFragmentId_listed stored ▸ stored.nodup_keys
  rw [firstBy_concat, firstBy_eq_self hnodup, map_toFragmentId_listed]
  cases hheld : stored.get? fragment.toFragmentId with
  | some held =>
    have hkind : fragment.kind = .importLine := by
      by_contra hkind
      rw [hnew hkind] at hheld
      cases hheld
    rw [storeFragment, if_pos ⟨hkind, by rw [Table.contains, hheld]; rfl⟩, if_pos]
    exact Table.mem_keys_of_get? hheld
  | none =>
    have habsent : fragment.toFragmentId ∉ stored.keys := Table.get?_eq_none_iff.mp hheld
    rw [storeFragment, if_neg (by simp [Table.contains, hheld]), if_neg habsent, listed,
      Table.entries_insert_of_notMem habsent, List.map_append]
    rfl

theorem listed_storeFragments {stored : Table FragmentId Stored}
    (hnew : ∀ fragment ∈ fragments, fragment.kind ≠ .importLine →
      stored.get? fragment.toFragmentId = none)
    (hdistinct : ((fragments.filter (·.kind ≠ .importLine)).map (·.toFragmentId)).Nodup) :
    listed (fragments.foldl (storeFragment key) stored) =
      firstBy (·.toFragmentId) (listed stored ++ fragments) := by
  induction fragments generalizing stored with
  | nil =>
    have hnodup : ((listed stored).map (·.toFragmentId)).Nodup :=
      map_toFragmentId_listed stored ▸ stored.nodup_keys
    rw [List.foldl_nil, List.append_nil, firstBy_eq_self hnodup]
  | cons fragment rest ih =>
    have hrest : ((rest.filter (·.kind ≠ .importLine)).map (·.toFragmentId)).Nodup :=
      hdistinct.sublist (((List.sublist_cons_self fragment rest).filter _).map _)
    rw [List.foldl_cons, ih _ hrest, listed_storeFragment (hnew fragment List.mem_cons_self),
      firstBy_firstBy_append, List.append_assoc, List.singleton_append]
    -- What is stored first has another name than what is its own of the others.
    intro other hother hkind
    rw [get?_storeFragment_of_ne, hnew other (List.mem_cons_of_mem _ hother) hkind]
    intro hid
    have hfirst : fragment.kind ≠ .importLine := fun h =>
      hkind ((congrArg FragmentId.kind hid).symm.trans h)
    rw [List.filter_cons_of_pos (by simpa using hfirst), List.map_cons, List.nodup_cons] at hdistinct
    refine hdistinct.1 (List.mem_map.mpr ⟨other, List.mem_filter.mpr ⟨hother, ?_⟩, hid.symm⟩)
    simpa using hkind

/-- A session in which nothing may be taken over stores the first occurrences in what it has returned. -/
structure Mirrors (s : Session) (fragments : List Fragment) (headers : List String) : Prop where
  rejects : s.config.operatorOverride = .reject
  coherent : s.Coherent
  owned : ∀ id stored, s.fragments.get? id = some stored → id.kind ≠ .importLine →
    ∃ rendering, s.renderings.get? stored.owner = some rendering
  fragmentList : s.fragmentList = firstBy (·.toFragmentId) fragments
  includes : s.includes = firstBy id headers

theorem mirrors_of_empty {config : Config} (hreject : config.operatorOverride = .reject) :
    Mirrors { config := config } [] [] where
  rejects := hreject
  coherent := coherent_of_empty rfl rfl rfl
  owned _ _ h := by simp [Table.get?_empty] at h
  fragmentList := rfl
  includes := rfl

/-- What is answered from memory is stored already. -/
theorem Mirrors.remembered (h : s.Mirrors fragments headers)
    (hheld : s.renderings.get? key = some rendering) :
    s.Mirrors (fragments ++ rendering.fragments) (headers ++ rendering.includes) := by
  have hholds := h.coherent.holds key rendering hheld
  refine { h with fragmentList := ?_, includes := ?_ }
  · rw [firstBy_append_of_mem, h.fragmentList]
    intro fragment hmem
    rw [← mem_keys_firstBy, ← h.fragmentList, fragmentList_eq_listed, map_toFragmentId_listed]
    by_cases hkind : fragment.kind = .importLine
    · obtain ⟨owner, hstored⟩ := hholds.imports fragment hmem hkind
      exact Table.mem_keys_of_get? hstored
    · exact Table.mem_keys_of_get? (hholds.owned fragment hmem hkind)
  · rw [firstBy_append_of_mem, h.includes]
    intro header hmem
    rw [← mem_keys_firstBy, ← h.includes, List.map_id]
    exact hholds.includes header hmem

theorem Mirrors.commit (h : s.Mirrors fragments headers) (hproper : rendering.Proper key replaceable)
    (hmiss : s.renderings.get? key = none)
    (hcommit : s.commit key rendering replaceable = .ok s') :
    s'.Mirrors (fragments ++ rendering.fragments) (headers ++ rendering.includes) := by
  have hcoherent := h.coherent.commit hproper hcommit
  obtain ⟨rfl, hfree, -⟩ := commit_eq_ok_iff.mp hcommit
  have hcollides := fragmentCollision?_eq_none.mp (hfree (by simp [h.rejects]))
  have hnew : ∀ fragment ∈ rendering.fragments, fragment.kind ≠ .importLine →
      s.fragments.get? fragment.toFragmentId = none := by
    intro fragment hmem hkind
    by_contra hstored
    obtain ⟨stored, hstored⟩ := Option.ne_none_iff_exists'.mp hstored
    have howner := hcollides fragment (Rendering.mem_owned.mpr ⟨hmem, hkind⟩) stored hstored
    obtain ⟨held, hheld⟩ := h.owned _ stored hstored hkind
    rw [howner, hmiss] at hheld
    cases hheld
  constructor
  case rejects => exact h.rejects
  case coherent => exact hcoherent
  case owned =>
    intro id stored hstored hkind
    by_cases howner : stored.owner = key
    · exact ⟨rendering, by rw [get?_renderings_accept, if_pos howner]⟩
    · rcases get?_storeFragments_cases hstored with hold | ⟨fragment, -, -, rfl⟩
      · obtain ⟨held, hheld⟩ := h.owned id stored hold hkind
        refine ⟨held, (get?_renderings_accept_of_ne howner).mpr ⟨hheld, ?_⟩⟩
        intro fragment hmem taken htaken
        rw [Rendering.mem_owned] at hmem
        rw [hnew fragment hmem.1 hmem.2] at htaken
        cases htaken
      · exact absurd rfl howner
  case fragmentList =>
    rw [← firstBy_firstBy_append fragments, ← h.fragmentList]
    exact listed_storeFragments hnew hproper.distinct
  case includes =>
    change rendering.includes.foldl addHeader s.includes = _
    rw [h.includes, foldl_firstBy addHeader_eq]

theorem Mirrors.enters (h : s.Mirrors fragments headers) (henters : s.Enters key rendering replaceable s') :
    s'.Mirrors (fragments ++ rendering.fragments) (headers ++ rendering.includes) := by
  cases henters with
  | held hheld => exact h.remembered hheld
  | committed hmiss hproper _ hcommit => exact h.commit hproper hmiss hcommit

/-! ### A run -/

/-- When each declaration keeps the session the mirror of what was returned, so does a batch that succeeds. -/
theorem renderEach_mirrors {σ δ : Type} {step : σ → δ → Except BindingError (Rendering × σ)}
    (view : σ → Session)
    (hstep : ∀ state decl rendering state' fragments headers, (view state).Mirrors fragments headers →
      step state decl = .ok (rendering, state') →
      (view state').Mirrors (fragments ++ rendering.fragments) (headers ++ rendering.includes))
    {decls : List δ} {state : σ} (hstate : (view state).Mirrors fragments headers)
    (hcollected : Collects (modules ++ [collected]) fragments headers)
    (hok : (renderEach step state collected decls).2 = .ok module) :
    ∃ fragments headers, (view (renderEach step state collected decls).1).Mirrors fragments headers ∧
      Collects (modules ++ [module]) fragments headers := by
  induction decls generalizing state collected fragments headers with
  | nil =>
    cases hok
    exact ⟨fragments, headers, hstate, hcollected⟩
  | cons decl rest ih =>
    rw [renderEach] at hok ⊢
    split at hok
    · cases hok
    · rename_i rendering state' hrendered
      exact ih (hstep _ _ _ _ _ _ hstate hrendered) (hcollected.extend rendering) hok

/-- Runs of a new session in which every call succeeds, with the modules that the calls have returned. -/
inductive ModuleRun (config : Config) : List OutputModule → Session → Prop
  | new : ModuleRun config [] { config := config }
  | structs {modules : List OutputModule} {s : Session} {module : OutputModule} (batch : StructBatch) :
    ModuleRun config modules s → (batch.render s).2 = .ok module →
    ModuleRun config (modules ++ [module]) (batch.render s).1
  | functions {modules : List OutputModule} {s : Session} {module : OutputModule}
    (batch : FunctionBatch) : ModuleRun config modules s → (batch.render s).2 = .ok module →
    ModuleRun config (modules ++ [module]) (batch.render s).1

theorem ModuleRun.mirrors {config : Config} (hreject : config.operatorOverride = .reject)
    (hrun : ModuleRun config modules s) :
    ∃ fragments headers, s.Mirrors fragments headers ∧ Collects modules fragments headers := by
  induction hrun with
  | new => exact ⟨[], [], mirrors_of_empty hreject, ⟨fun _ _ => rfl, rfl⟩⟩
  | structs batch _ hok ih =>
    obtain ⟨fragments, headers, hs, hcollects⟩ := ih
    refine renderEach_mirrors Prod.fst ?_ hs (hcollects.emptyModule _) hok
    intro state decl rendering state' fragments headers hstate hrendered
    obtain ⟨key, -, henters⟩ := batch.entersBy _ _ _ _ hrendered
    exact hstate.enters henters
  | functions batch _ hok ih =>
    obtain ⟨fragments, headers, hs, hcollects⟩ := ih
    refine renderEach_mirrors id ?_ hs (hcollects.emptyModule _) hok
    intro state decl rendering state' fragments headers hstate hrendered
    obtain ⟨key, -, henters⟩ := batch.entersBy _ _ _ _ hrendered
    exact hstate.enters henters

theorem ofKind_assemble {kind : FragmentKind} (hkind : kind ≠ .opening) (s : Session) :
    s.assemble.ofKind kind = s.fragmentList.filter (·.kind = kind) := by
  have hnodup : ((s.fragmentList.filter (·.kind = .importLine)).map (·.toFragmentId)).Nodup := by
    refine List.Nodup.sublist (List.filter_sublist.map _) ?_
    rw [fragmentList_eq_listed, map_toFragmentId_listed]
    exact s.fragments.nodup_keys
  rw [OutputModule.ofKind, assemble, OutputModule.added_addIncludes,
    OutputModule.added_extend_of_nodup (by simpa [emptyModule] using hnodup), List.filter_append]
  simp [emptyModule, hkind.symm]

theorem includes_assemble (s : Session) (hnodup : s.includes.Nodup) :
    s.assemble.includes = s.includes := by
  rw [assemble, OutputModule.includes_addIncludes, OutputModule.includes_extend]
  have hfold := foldl_firstBy addHeader_eq [] s.includes
  have hself : firstBy id s.includes = s.includes := firstBy_eq_self (by rwa [List.map_id])
  exact hfold.trans hself

/-- **The assembled module is the first occurrences in the returned ones**, kind by kind and for the headers,
in every run in which nothing may be taken over and every call succeeds. -/
theorem ModuleRun.assemble_eq_firstBy {config : Config} (hreject : config.operatorOverride = .reject)
    (hrun : ModuleRun config modules s) :
    (∀ kind, kind ≠ .opening → s.assemble.ofKind kind =
      firstBy (·.toFragmentId) (modules.flatMap (·.ofKind kind))) ∧
    s.assemble.includes = firstBy id (modules.flatMap (·.includes)) := by
  obtain ⟨fragments, headers, hs, hcollects⟩ := hrun.mirrors hreject
  constructor
  · intro kind hkind
    rw [ofKind_assemble hkind, hs.fragmentList, hcollects.ofKind kind hkind]
    exact filter_firstBy (fun id : FragmentId => decide (id.kind = kind)) fragments
  · have hnodup : s.includes.Nodup := by
      rw [hs.includes, ← List.map_id (firstBy id headers)]
      exact nodup_firstBy id headers
    rw [includes_assemble s hnodup, hs.includes, hcollects.includes]

/-! ### A run in which two batches share a struct and an import line -/

namespace Sample

def marks : StructBatch where
  structs := [{ name := "Mark", fields := [⟨"owner", .pointer .void false⟩] }]
  mapping := Table.ofList [("Mark", { header := "mark.h" })]

def places : StructBatch where
  structs := [{ name := "Mark", fields := [⟨"owner", .pointer .void false⟩] },
    { name := "Place", fields := [⟨"at", .named "Mark"⟩, ⟨"data", .pointer .void true⟩] }]
  mapping := Table.ofList [("Mark", { header := "mark.h" }), ("Place", { header := "place.h" })]

def movers : FunctionBatch where
  functions := [{ name := "move", returnType := .named "Mark", params := [⟨some "p", .named "Mark"⟩] }]
  header := "mark.h"

def first : Session × Except BindingError OutputModule :=
  marks.render {}

def second : Session × Except BindingError OutputModule :=
  places.render first.1

def third : Session × Except BindingError OutputModule :=
  movers.render second.1

def fourth : Session × Except BindingError OutputModule :=
  movers.render third.1

def returned : List OutputModule :=
  [first, second, third, fourth].map (·.2.toOption.getD default)

end Sample

theorem assemble_eq_firstBy_repeated :
    ModuleRun {} Sample.returned Sample.fourth.1 ∧
    (∀ kind, kind ≠ .opening → Sample.fourth.1.assemble.ofKind kind =
      firstBy (·.toFragmentId) (Sample.returned.flatMap (·.ofKind kind))) ∧
    Sample.fourth.1.assemble.includes = firstBy id (Sample.returned.flatMap (·.includes)) := by
  have hfirst : Sample.first.2.toOption.isSome := by decide +kernel
  have hsecond : Sample.second.2.toOption.isSome := by decide +kernel
  have hthird : Sample.third.2.toOption.isSome := by decide +kernel
  have hfourth : Sample.fourth.2.toOption.isSome := by decide +kernel
  have hrun : ModuleRun {} Sample.returned Sample.fourth.1 :=
    .functions Sample.movers (.functions Sample.movers (.structs Sample.places (.structs Sample.marks .new
      (eq_ok_of_isSome_toOption hfirst)) (eq_ok_of_isSome_toOption hsecond))
      (eq_ok_of_isSome_toOption hthird)) (eq_ok_of_isSome_toOption hfourth)
  exact ⟨hrun, hrun.assemble_eq_firstBy rfl⟩

example : Sample.fourth.1.assemble.includes = ["mark.h", "place.h"] ∧
    (Sample.fourth.1.assemble.ofKind .structBinding).map (·.name) = ["Mark", "Place"] := by
  decide +kernel

end Session

end HostBinding
