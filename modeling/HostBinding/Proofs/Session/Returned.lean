import HostBinding.Proofs.Session.Collecting

/-!
# What a call returns and what the session holds

A declaration enters a session: it is remembered there, or what it renders to is committed. Either way its
fragments are stored afterwards, and all others are as before. So the session after a call is the session before
it, overwritten by the module that the call returns, where of several fragments with one name the last one counts.
There are several only when a declaration takes over what another one of the same call has stored: fragments that
belong to different declarations in the end have different names.
-/

namespace HostBinding

def OutputModule.last? (m : OutputModule) (id : FragmentId) : Option Fragment :=
  (m.ofKind id.kind).reverse.find? (·.toFragmentId = id)

/-- No two fragments of a module have the same kind and name. -/
def OutputModule.Distinct (m : OutputModule) : Prop :=
  (m.fragments.map (·.toFragmentId)).Nodup

/-- A session holds every fragment of a module, except for the opening. -/
def Session.Stores (s : Session) (m : OutputModule) : Prop :=
  ∀ fragment ∈ m.fragments, fragment.kind ≠ .opening → s.fragment? fragment.toFragmentId = some fragment

def Rendering.last? (renderings : List Rendering) (id : FragmentId) : Option Fragment :=
  (renderings.flatMap (·.fragments)).reverse.find? (·.toFragmentId = id)

namespace Session

variable {config : Config} {s s' t : Session} {key k : DeclKey} {rendering held : Rendering} {replaceable : Bool}
  {m : OutputModule} {renderings : List Rendering} {id : FragmentId}

/-! ### One declaration -/

structure Settled (s : Session) : Prop where
  coherent : s.Coherent
  regular : s.Regular

theorem Reachable.settled (hs : Reachable config s) : s.Settled :=
  ⟨hs.coherent, hs.regular⟩

theorem Enters.settled (h : s.Enters key rendering replaceable s') (hs : s.Settled) : s'.Settled := by
  refine ⟨?_, (h.regular hs.regular).2⟩
  cases h with
  | held => exact hs.coherent
  | committed _ hproper _ hcommit => exact hs.coherent.commit hproper hcommit

theorem Holds.fragment?_eq (h : s.Holds key rendering) {fragment : Fragment}
    (hmem : fragment ∈ rendering.fragments) : s.fragment? fragment.toFragmentId = some fragment := by
  by_cases hkind : fragment.kind = .importLine
  · obtain ⟨owner, hstored⟩ := h.imports fragment hmem hkind
    rw [fragment?, hstored]
    rfl
  · rw [fragment?, h.owned fragment hmem hkind]
    rfl

theorem Enters.fragment?_eq (h : s.Enters key rendering replaceable s') (hs : s.Settled) (id : FragmentId) :
    s'.fragment? id = (Rendering.last? [rendering] id).or (s.fragment? id) := by
  have hholds := (h.settled hs).coherent.holds key rendering h.remembered
  simp only [Rendering.last?, List.flatMap_singleton]
  cases hfound : rendering.fragments.reverse.find? (·.toFragmentId = id) with
  | some fragment =>
    have hmem := List.mem_reverse.mp (List.mem_of_find?_eq_some hfound)
    obtain rfl : fragment.toFragmentId = id := by simpa using List.find?_some hfound
    exact hholds.fragment?_eq hmem
  | none =>
    have hother : ∀ fragment ∈ rendering.fragments, fragment.toFragmentId ≠ id := by
      simpa [List.find?_eq_none] using hfound
    cases h with
    | held => rfl
    | committed _ _ _ hcommit =>
      obtain ⟨rfl, -, -⟩ := commit_eq_ok_iff.mp hcommit
      rw [fragment?, accept, get?_storeFragments_of_ne hother]
      rfl

/-! ### A batch -/

variable {σ δ : Type} {step : σ → δ → Except BindingError (Rendering × σ)} {view : σ → Session}
  {key? : δ → Option DeclKey} {mayReplace : δ → Bool} {state last : σ} {decls : List δ}

section

variable (hstep : EntersBy step view key? mayReplace) (h : Chain step state decls renderings last)
include hstep h

theorem Chain.settled (hstart : (view state).Settled) :
    (∀ rendering ∈ renderings, ∃ key, rendering.Regular key) ∧ (view last).Settled := by
  refine h.induction (P := fun state => (view state).Settled) ?_ hstart
  intro state decl rendering next hstate hok
  obtain ⟨key, -, henters⟩ := hstep _ _ _ _ hok
  exact ⟨⟨key, (henters.regular hstate.regular).1⟩, henters.settled hstate⟩

theorem Chain.fragment?_eq (hstart : (view state).Settled) (id : FragmentId) :
    (view last).fragment? id = (Rendering.last? renderings id).or ((view state).fragment? id) := by
  induction h with
  | nil => rfl
  | cons hok _ ih =>
    obtain ⟨key, -, henters⟩ := hstep _ _ _ _ hok
    rw [ih (henters.settled hstart), henters.fragment?_eq hstart, ← Option.or_assoc]
    simp only [Rendering.last?, List.flatMap_cons, List.flatMap_nil, List.append_nil, List.reverse_append,
      List.find?_append]

/-- What is remembered of other declarations than those of the batch was remembered before. -/
theorem Chain.of_remembered (hother : some k ∉ decls.map key?)
    (hheld : (view last).renderings.get? k = some held) : (view state).renderings.get? k = some held := by
  induction h with
  | nil => exact hheld
  | cons hok _ ih =>
    rw [List.map_cons, List.mem_cons, not_or] at hother
    obtain ⟨key, hkey, henters⟩ := hstep _ _ _ _ hok
    refine henters.of_remembered (fun heq => hother.1 ?_) (ih hother.2 hheld)
    rw [hkey, heq]

/-- Where nothing may be taken over, all declarations of the batch are remembered in the end. -/
theorem Chain.remembered_of_keeps
    (hkeeps : ∀ decl ∈ decls, ¬(mayReplace decl = true ∧ (view state).config.operatorOverride = .lastWins)) :
    (∀ decl ∈ decls, ∃ key, key? decl = some key ∧ (view last).renderings.contains key = true) ∧
      ∀ k held, (view state).renderings.get? k = some held → (view last).renderings.get? k = some held := by
  induction h with
  | nil => exact ⟨List.forall_mem_nil _, fun _ _ hheld => hheld⟩
  | cons hok _ ih =>
    obtain ⟨key, hkey, henters⟩ := hstep _ _ _ _ hok
    obtain ⟨hrest, hkept⟩ := ih fun decl hmem => henters.config_eq ▸ hkeeps decl (List.mem_cons_of_mem _ hmem)
    refine ⟨List.forall_mem_cons.mpr ⟨⟨key, hkey, ?_⟩, hrest⟩, fun k held hheld => hkept k held ?_⟩
    · rw [Table.contains, hkept key _ henters.remembered]
      rfl
    · exact henters.keeps (hkeeps _ List.mem_cons_self) hheld

theorem Chain.remembered (hkeys : (decls.map key?).Nodup)
    (hheld : ∀ decl ∈ decls, ∃ key, key? decl = some key ∧ (view last).renderings.contains key = true) :
    List.Forall₂ (fun key? rendering => ∃ key, key? = some key ∧ (view last).renderings.get? key = some rendering)
      (decls.map key?) renderings := by
  induction h with
  | nil => exact .nil
  | cons hok hrest ih =>
    rw [List.map_cons, List.nodup_cons] at hkeys
    refine .cons ?_ (ih hkeys.2 fun decl hmem => hheld decl (List.mem_cons_of_mem _ hmem))
    obtain ⟨key, hkey, hcontains⟩ := hheld _ List.mem_cons_self
    obtain ⟨key', hkey', henters⟩ := hstep _ _ _ _ hok
    obtain rfl : key = key' := Option.some.inj (hkey.symm.trans hkey')
    obtain ⟨held, hlast⟩ := Option.isSome_iff_exists.mp hcontains
    have hnext := hrest.of_remembered hstep (hkey ▸ hkeys.1) hlast
    rw [henters.remembered] at hnext
    exact ⟨key, hkey, hlast.trans hnext.symm⟩

end

theorem Settled.nodup_owned (hs : s.Settled) {keys : List (Option DeclKey)} (hkeys : keys.Nodup)
    (hheld : List.Forall₂ (fun key? rendering => ∃ key, key? = some key ∧ s.renderings.get? key = some rendering)
      keys renderings) :
    ((renderings.flatMap (·.owned)).map (·.toFragmentId)).Nodup := by
  induction hheld with
  | nil => exact List.nodup_nil
  | @cons key? rendering keys renderings hfirst hrest ih =>
    obtain ⟨key, rfl, hkey⟩ := hfirst
    rw [List.nodup_cons] at hkeys
    obtain ⟨_, hproper⟩ := (hs.regular key _ hkey).proper
    rw [List.flatMap_cons, List.map_append]
    refine List.nodup_append.mpr ⟨hproper.distinct, ih hkeys.2, ?_⟩
    rintro _ hown _ hother rfl
    obtain ⟨fragment, hmem, hid⟩ := List.mem_map.mp hown
    obtain ⟨fragment', hmem', hid'⟩ := List.mem_map.mp hother
    obtain ⟨rendering', hrendering', hmem'⟩ := List.mem_flatMap.mp hmem'
    obtain ⟨index, hindex, rfl⟩ := List.getElem_of_mem hrendering'
    obtain ⟨key', hkey', hheld'⟩ := hrest.get (hrest.length_eq ▸ hindex) hindex
    obtain ⟨hmem, hkind⟩ := Rendering.mem_owned.mp hmem
    obtain ⟨hmem', hkind'⟩ := Rendering.mem_owned.mp hmem'
    have hstored := (hs.coherent.holds key _ hkey).owned fragment hmem hkind
    have hstored' := (hs.coherent.holds key' _ hheld').owned fragment' hmem' hkind'
    rw [hid', ← hid, hstored, Option.some.injEq, Stored.mk.injEq] at hstored'
    refine hkeys.1 (List.mem_iff_get.mpr ⟨⟨index, hrest.length_eq ▸ hindex⟩, ?_⟩)
    rw [hkey', hstored'.1]

/-! ### The returned module -/

theorem find?_eq_of_unique {α : Type} {p : α → Bool} {xs ys : List α} {x : α}
    (hunique : ∀ a, a ∈ xs ∨ a ∈ ys → p a = true → a = x)
    (hiff : (∃ a ∈ xs, p a = true) ↔ ∃ a ∈ ys, p a = true) : xs.find? p = ys.find? p := by
  have hfound {zs : List α} (hzs : ∀ a ∈ zs, p a = true → a = x) (h : ∃ a ∈ zs, p a = true) :
      zs.find? p = some x := by
    obtain ⟨a, hfound⟩ := Option.isSome_iff_exists.mp (List.find?_isSome.mpr h)
    rw [hfound, hzs a (List.mem_of_find?_eq_some hfound) (List.find?_some hfound)]
  by_cases h : ∃ a ∈ xs, p a = true
  · rw [hfound (fun a ha => hunique a (.inl ha)) h, hfound (fun a ha => hunique a (.inr ha)) (hiff.mp h)]
  · have h' := mt hiff.mpr h
    push Not at h h'
    rw [List.find?_eq_none.mpr h, List.find?_eq_none.mpr h']

/-- Of import lines only the first is kept, but all with one name are the same. -/
theorem last?_of_gathers (h : m.Gathers t renderings)
    (hregular : ∀ rendering ∈ renderings, ∃ key, rendering.Regular key) (hkind : id.kind ≠ .opening) :
    m.last? id = Rendering.last? renderings id := by
  have hfilter (kind : FragmentKind) : (renderings.flatMap fun r => r.fragments.filter (·.kind = kind)) =
      (renderings.flatMap (·.fragments)).filter (·.kind = kind) := List.filter_flatMap.symm
  rw [OutputModule.last?, Rendering.last?]
  by_cases himport : id.kind = .importLine
  · rw [himport, h.imports, hfilter]
    refine find?_eq_of_unique (x := Fragment.ofImport id.name) ?_ ?_
    · intro fragment hmem hid
      have hid : fragment.toFragmentId = id := by simpa using hid
      have hmem : fragment ∈ renderings.flatMap (·.fragments) := by
        rcases hmem with hmem | hmem
        · exact List.mem_of_mem_filter (mem_of_mem_firstBy (List.mem_reverse.mp hmem))
        · exact List.mem_reverse.mp hmem
      obtain ⟨rendering, hrendering, hmem⟩ := List.mem_flatMap.mp hmem
      obtain ⟨key, -, _, hproper⟩ := hregular rendering hrendering
      have hform := hproper.imports fragment hmem ((congrArg FragmentId.kind hid).trans himport)
      rwa [← hid]
    · have hkeys (lines : List Fragment) :
          (∃ fragment ∈ firstBy (·.toFragmentId) lines, fragment.toFragmentId = id) ↔
            ∃ fragment ∈ lines, fragment.toFragmentId = id := by
        rw [← List.mem_map, ← List.mem_map, mem_keys_firstBy]
      simp only [List.mem_reverse, decide_eq_true_eq, hkeys, List.mem_filter]
      refine exists_congr fun fragment => ⟨fun hmem => ⟨hmem.1.1, hmem.2⟩, fun hmem => ⟨⟨hmem.1, ?_⟩, hmem.2⟩⟩
      rw [show fragment.kind = id.kind from congrArg FragmentId.kind hmem.2, himport]
  · rw [h.ofKind id.kind hkind himport, hfilter, ← List.filter_reverse, List.find?_filter]
    congr 1
    funext fragment
    refine decide_eq_decide.mpr ?_
    simp only [decide_eq_true_eq]
    exact and_iff_right_of_imp (congrArg FragmentId.kind)

theorem distinct_of_ofKind (h : ∀ kind, ((m.ofKind kind).map (·.toFragmentId)).Nodup) : m.Distinct := by
  rw [OutputModule.Distinct, OutputModule.fragments, List.map_flatMap, List.nodup_flatMap]
  refine ⟨fun kind _ => h kind, List.Pairwise.imp ?_ (show FragmentKind.all.Nodup by decide)⟩
  intro kind kind' hne id hmem hmem'
  obtain ⟨fragment, hfragment, rfl⟩ := List.mem_map.mp hmem
  obtain ⟨fragment', hfragment', hid⟩ := List.mem_map.mp hmem'
  have hkind : fragment.kind = kind := of_decide_eq_true (List.mem_filter.mp hfragment).2
  have hkind' : fragment'.kind = kind' := of_decide_eq_true (List.mem_filter.mp hfragment').2
  exact hne (hkind.symm.trans ((congrArg FragmentId.kind hid).symm.trans hkind'))

theorem distinct_of_gathers (h : m.Gathers t renderings)
    (howned : ((renderings.flatMap (·.owned)).map (·.toFragmentId)).Nodup) : m.Distinct := by
  refine distinct_of_ofKind fun kind => ?_
  by_cases hopening : kind = .opening
  · rw [hopening, h.opening]
    exact List.nodup_singleton _
  by_cases himport : kind = .importLine
  · rw [himport, h.imports]
    exact nodup_firstBy _ _
  · have hsublist : m.ofKind kind = (renderings.flatMap (·.owned)).filter (·.kind = kind) := by
      rw [h.ofKind kind hopening himport, List.filter_flatMap]
      refine List.flatMap_congr fun rendering _ => ?_
      rw [Rendering.owned, List.filter_filter]
      refine List.filter_congr fun fragment _ => ?_
      by_cases hkind : fragment.kind = kind <;> simp [hkind, himport]
    rw [hsublist]
    exact howned.sublist (List.filter_sublist.map _)

/-- After a call a session holds the last fragment of each name in the module, and everything else as before. -/
def OverwrittenBy (s : Session) (m : OutputModule) (s' : Session) : Prop :=
  ∀ id : FragmentId, id.kind ≠ .opening → s'.fragment? id = (m.last? id).or (s.fragment? id)

theorem OverwrittenBy.stores (h : s.OverwrittenBy m s') (hdistinct : m.Distinct) : s'.Stores m := by
  intro fragment hmem hkind
  obtain ⟨kind, hall, hmem⟩ := List.mem_flatMap.mp hmem
  obtain rfl : fragment.kind = kind := of_decide_eq_true (List.mem_filter.mp hmem).2
  rw [OutputModule.Distinct, OutputModule.fragments, List.map_flatMap, List.nodup_flatMap] at hdistinct
  have hnames : ((m.ofKind fragment.kind).reverse.map (·.toFragmentId)).Nodup := by
    rw [List.map_reverse, List.nodup_reverse]
    exact hdistinct.1 fragment.kind hall
  rw [h fragment.toFragmentId hkind, OutputModule.last?, find?_key_eq hnames (List.mem_reverse.mpr hmem)]
  rfl

section

variable (hstep : EntersBy step view key? mayReplace) (h : Chain step state decls renderings last)
  (hgathers : m.Gathers t renderings) (hstart : (view state).Settled)
include hstep h hgathers hstart

theorem Chain.overwrites : (view state).OverwrittenBy m (view last) := by
  intro id hkind
  rw [last?_of_gathers hgathers (h.settled hstep hstart).1 hkind]
  exact h.fragment?_eq hstep hstart id

theorem Chain.distinct (hkeys : (decls.map key?).Nodup)
    (hheld : ∀ decl ∈ decls, ∃ key, key? decl = some key ∧ (view last).renderings.contains key = true) :
    m.Distinct :=
  distinct_of_gathers hgathers ((h.settled hstep hstart).2.nodup_owned hkeys (h.remembered hstep hkeys hheld))

end

end Session

/-- **A call returns what the session holds**: in every reachable session a call leaves the session as it was, but
for the fragments of the module that it returns, the last one of each name. When no two declarations of a batch
have the same key and none is forgotten by the end of the call, no two fragments of the module have the same kind
and name, and the session holds all of them. Structs and plain functions are never forgotten, and operators only
where the last one wins. -/
theorem Session.Reachable.returned_stored {config : Config} {s : Session} (hs : s.Reachable config) :
    (∀ (batch : StructBatch) (module : OutputModule), (batch.render s).2 = .ok module →
      s.OverwrittenBy module (batch.render s).1 ∧
      ((batch.structs.map batch.key?).Nodup → module.Distinct ∧ (batch.render s).1.Stores module)) ∧
    ∀ (batch : FunctionBatch) (module : OutputModule), (batch.render s).2 = .ok module →
      s.OverwrittenBy module (batch.render s).1 ∧
      ((batch.functions.map batch.key).Nodup →
        (config.operatorOverride = .reject ∨ (∀ decl ∈ batch.functions, decl.operator = none) ∨
          ∀ decl ∈ batch.functions, (batch.render s).1.renderings.contains (batch.key decl) = true) →
        module.Distinct ∧ (batch.render s).1.Stores module) := by
  constructor
  · intro batch module hok
    obtain ⟨renderings, last, hchain, hlast, hgathers⟩ := StructBatch.exists_chain hs.regular hok
    have hover := hchain.overwrites batch.entersBy hgathers hs.settled
    rw [hlast] at hover
    refine ⟨hover, fun hkeys => ?_⟩
    have hheld := (hchain.remembered_of_keeps batch.entersBy fun _ _ h => Bool.false_ne_true h.1).1
    have hdistinct := hchain.distinct batch.entersBy hgathers hs.settled hkeys hheld
    exact ⟨hdistinct, hover.stores hdistinct⟩
  · intro batch module hok
    obtain ⟨renderings, hchain, hgathers⟩ := FunctionBatch.exists_chain hs.regular hok
    have hover := hchain.overwrites batch.entersBy hgathers hs.settled
    refine ⟨hover, fun hkeys hkept => ?_⟩
    have hheld : ∀ decl ∈ batch.functions, ∃ key, some (batch.key decl) = some key ∧
        (batch.render s).1.renderings.contains key = true := by
      rw [← or_assoc] at hkept
      rcases hkept with hkeeps | hkept
      · refine (hchain.remembered_of_keeps batch.entersBy fun decl hmem h => ?_).1
        rcases hkeeps with hreject | hplain
        · rw [hs.traced.configured, hreject] at h
          cases h.2
        · rw [hplain decl hmem] at h
          cases h.1
      · exact fun decl hmem => ⟨_, rfl, hkept decl hmem⟩
    have hkeys' : (batch.functions.map fun decl => some (batch.key decl)).Nodup := by
      simpa [List.map_map, Function.comp_def] using hkeys.map (Option.some_injective _)
    have hdistinct := hchain.distinct batch.entersBy hgathers hs.settled hkeys' hheld
    exact ⟨hdistinct, hover.stores hdistinct⟩

/-! ### A call that takes over from an earlier one, and a call that takes over from itself -/

namespace Session.Sample

def measured : FunctionBatch where
  functions := (sum (.reference (.named "Vec2") true)).functions ++
    [{ name := "operator-", returnType := .named "Vec2",
       params := [⟨some "a", .named "Vec2"⟩, ⟨some "b", .named "Vec2"⟩], operator := some (.binary .sub) },
     { name := "norm", returnType := .ofPrimitive (.floating .f32), params := [⟨some "v", .named "Vec2"⟩] }]
  header := "vec.h"

def rivals : FunctionBatch where
  functions := (sum (.named "Vec2")).functions ++ (sum (.reference (.named "Vec2") true)).functions
  header := "vec.h"

def moduleOf (render : Except BindingError OutputModule) : OutputModule :=
  render.toOption.getD default

end Session.Sample

theorem Session.Reachable.returned_stored_measured :
    Session.Sample.summed.Reachable { operatorOverride := .lastWins } ∧
    -- the implementation of the sum is taken over from the earlier call
    (Session.Sample.measured.render Session.Sample.summed).1.fragment? Session.Sample.implementation ≠
      Session.Sample.summed.fragment? Session.Sample.implementation ∧
    (Session.Sample.moduleOf (Session.Sample.measured.render Session.Sample.summed).2).fragments.length = 12 ∧
    (Session.Sample.moduleOf (Session.Sample.measured.render Session.Sample.summed).2).Distinct ∧
    (Session.Sample.measured.render Session.Sample.summed).1.Stores
      (Session.Sample.moduleOf (Session.Sample.measured.render Session.Sample.summed).2) ∧
    (Session.Sample.vectors.render {}).1.Stores
      (Session.Sample.moduleOf (Session.Sample.vectors.render {}).2) := by
  have hreachable : Session.Sample.summed.Reachable { operatorOverride := .lastWins } :=
    .functions _ (.structs _ .new)
  have hfunctions := (hreachable.returned_stored.2 Session.Sample.measured _
    (eq_ok_of_isSome_toOption (by decide +kernel))).2 (by decide +kernel) (.inr (.inr (by decide +kernel)))
  have hnew : Session.Reachable {} {} := .new
  have hstructs := (hnew.returned_stored.1 Session.Sample.vectors _
    (eq_ok_of_isSome_toOption (by decide +kernel))).2 (by decide +kernel)
  exact ⟨hreachable, by decide +kernel, by decide +kernel, hfunctions.1, hfunctions.2, hstructs.2⟩

/-- Where the last one wins, a module may implement one trait twice for one type, and the session keeps only the
second implementation. -/
theorem Session.Reachable.returned_rivals :
    (Session.Sample.vectors.render { config := { operatorOverride := .lastWins } }).1.Reachable
      { operatorOverride := .lastWins } ∧
    (Session.Sample.rivals.functions.map Session.Sample.rivals.key).Nodup ∧
    ∃ module s', Session.Sample.rivals.render
        (Session.Sample.vectors.render { config := { operatorOverride := .lastWins } }).1 = (s', .ok module) ∧
      ¬ module.Distinct ∧ ¬ s'.Stores module := by
  refine ⟨.structs _ .new, by decide +kernel, _, _,
    Prod.ext rfl (eq_ok_of_isSome_toOption (by decide +kernel)), ?_, ?_⟩
  · rw [OutputModule.Distinct]
    decide +kernel
  · rw [Session.Stores]
    decide +kernel

end HostBinding
