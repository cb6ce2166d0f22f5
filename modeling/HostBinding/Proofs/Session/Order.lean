import HostBinding.Proofs.Session.Run

/-!
# Declarations in any order

Where nothing is taken over, a declaration that is new to a session either collides with what is there or is
added to it, and two declarations with different keys collide with each other whichever comes first. So two
neighbours can change places: both orders succeed or neither does, and what they leave behind differs only
in the order of insertion and in who stored a common import line. From neighbours this goes on to every
permutation.
-/

namespace HostBinding.Session

/-- Sessions that hold the same, perhaps in another order, and perhaps with import lines that other
declarations stored first. -/
structure Alike (s t : Session) : Prop where
  config : s.config = t.config
  fragments : ∀ id, s.fragment? id = t.fragment? id
  owned : ∀ id : FragmentId, id.kind ≠ .importLine → s.fragments.get? id = t.fragments.get? id
  proxies : ∀ name, s.proxy? name = t.proxy? name
  renderings : ∀ key, s.renderings.get? key = t.renderings.get? key
  includes : ∀ header, header ∈ s.includes ↔ header ∈ t.includes

/-- A declaration as a session is asked for it: its key, and what it renders to when it does. -/
structure Request where
  key : DeclKey
  rendering? : Option Rendering

/-- Answers a request from what is held, or else adds the rendering when it collides with nothing. A
declaration that has no key makes no request, which is a failure too. -/
def answer (s : Session) (request? : Option Request) : Option Session :=
  request?.bind fun request =>
    if s.renderings.contains request.key then some s
    else request.rendering?.bind fun rendering => (s.commit request.key rendering false).toOption

variable {s s' t : Session} {key key' : DeclKey} {rendering rendering' : Rendering} {request : Request}
  {request? : Option Request} {requests requests' : List (Option Request)} {id : FragmentId}

theorem Alike.refl (s : Session) : s.Alike s :=
  ⟨rfl, fun _ => rfl, fun _ _ => rfl, fun _ => rfl, fun _ => rfl, fun _ => Iff.rfl⟩

theorem Alike.trans (h : s.Alike s') (h' : s'.Alike t) : s.Alike t where
  config := h.config.trans h'.config
  fragments id := (h.fragments id).trans (h'.fragments id)
  owned id hkind := (h.owned id hkind).trans (h'.owned id hkind)
  proxies name := (h.proxies name).trans (h'.proxies name)
  renderings key := (h.renderings key).trans (h'.renderings key)
  includes header := (h.includes header).trans (h'.includes header)

theorem fragment?_eq_iff : s.fragment? id = t.fragment? id ↔
    (s.fragments.get? id).map (·.text) = (t.fragments.get? id).map (·.text) := by
  simp only [fragment?]
  cases s.fragments.get? id <;> cases t.fragments.get? id <;> simp

/-! ### What a rendering collides with -/

theorem answer_eq_some_iff : s.answer (some request) = some t ↔
    (∃ held, s.renderings.get? request.key = some held) ∧ t = s ∨
    s.renderings.get? request.key = none ∧ ∃ rendering, request.rendering? = some rendering ∧
      s.Admits request.key rendering ∧ t = s.accept request.key rendering := by
  cases hheld : s.renderings.get? request.key with
  | some held => simp [answer, Table.contains, hheld, eq_comm (a := s)]
  | none =>
    simp only [answer, Option.bind_some, Table.contains, hheld, Option.isSome_none, Bool.false_eq_true, if_false,
      Option.bind_eq_some_iff, reduceCtorEq, exists_false, false_and, false_or, true_and]
    refine exists_congr fun rendering => and_congr_right fun _ => ?_
    rw [← commit_false_eq_ok_iff]
    exact ⟨eq_ok_of_toOption_eq_some, fun h => by rw [h]; rfl⟩

/-- Renderings of two declarations of which both can be added. -/
structure Apart (rendering rendering' : Rendering) : Prop where
  fragments : ∀ fragment ∈ rendering.owned, ∀ fragment' ∈ rendering'.owned,
    fragment.toFragmentId ≠ fragment'.toFragmentId
  proxy : ∀ proxy proxy', rendering.proxy = some proxy → rendering'.proxy = some proxy' →
    proxy.nativeName = proxy'.nativeName → proxy = proxy'

theorem Apart.symm (h : Apart rendering rendering') : Apart rendering' rendering where
  fragments fragment hmem fragment' hmem' := (h.fragments fragment' hmem' fragment hmem).symm
  proxy proxy proxy' hproxy hproxy' hname := (h.proxy proxy' proxy hproxy' hproxy hname.symm).symm

theorem get?_fragments_accept_of_ne (hne : ∀ fragment ∈ rendering.owned, fragment.toFragmentId ≠ id)
    (hkind : id.kind ≠ .importLine) :
    (s.accept key rendering).fragments.get? id = s.fragments.get? id := by
  refine get?_storeFragments_of_ne fun fragment hmem heq => ?_
  exact hne fragment (Rendering.mem_owned.mpr ⟨hmem, heq ▸ hkind⟩) heq

/-- After one rendering another one can be added when it could be before and the two are apart. -/
theorem admits_accept_iff (hne : key ≠ key') (hdistinct : (rendering.owned.map (·.toFragmentId)).Nodup)
    (h : s.Admits key rendering) :
    (s.accept key rendering).Admits key' rendering' ↔
      s.Admits key' rendering' ∧ Apart rendering rendering' := by
  have hstored : ∀ fragment ∈ rendering.owned,
      (s.accept key rendering).fragments.get? fragment.toFragmentId = some ⟨key, fragment.text⟩ :=
    fun fragment howned => get?_storeFragments_owned (Rendering.mem_owned.mp howned).1
      (Rendering.mem_owned.mp howned).2 hdistinct
  constructor
  · intro hafter
    have hapart : Apart rendering rendering' := by
      constructor
      · intro fragment howned fragment' howned' hid
        exact hne (hafter.fragments fragment' howned' _ (hid ▸ hstored fragment howned))
      · intro proxy proxy' hproxy hproxy' hname
        refine hafter.proxy proxy' hproxy' proxy ?_
        rw [get?_proxies_accept, hproxy]
        simp [Option.filter, hname]
    refine ⟨⟨fun fragment' howned' held hheld => ?_, fun proxy' hproxy' existing hexisting => ?_⟩, hapart⟩
    · refine hafter.fragments fragment' howned' held ?_
      rwa [get?_fragments_accept_of_ne (fun fragment howned => hapart.fragments fragment howned _ howned')
        (Rendering.mem_owned.mp howned').2]
    · refine hafter.proxy proxy' hproxy' existing ?_
      rw [get?_proxies_accept, Option.or_eq_some_iff]
      cases hown : rendering.proxy.filter (·.nativeName = proxy'.nativeName) with
      | none => exact .inr ⟨rfl, hexisting⟩
      | some proxy =>
        obtain ⟨hproxy, hname⟩ := Option.filter_eq_some_iff.mp hown
        rw [← of_decide_eq_true hname] at hexisting
        rw [h.proxy proxy hproxy existing hexisting]
        exact .inl rfl
  · rintro ⟨hbefore, hapart⟩
    constructor
    · intro fragment' howned' held hheld
      refine hbefore.fragments fragment' howned' held ?_
      rwa [get?_fragments_accept_of_ne (fun fragment howned => hapart.fragments fragment howned _ howned')
        (Rendering.mem_owned.mp howned').2] at hheld
    · intro proxy' hproxy' existing hexisting
      rw [get?_proxies_accept, Option.or_eq_some_iff] at hexisting
      rcases hexisting with hown | ⟨-, hold⟩
      · obtain ⟨hproxy, hname⟩ := Option.filter_eq_some_iff.mp hown
        exact hapart.proxy existing proxy' hproxy hproxy' (of_decide_eq_true hname)
      · exact hbefore.proxy proxy' hproxy' existing hold

/-! ### Sessions that hold the same -/

theorem map_get?_storeFragments {α : Type} {view : Stored → α} {stored stored' : Table FragmentId Stored}
    (key : DeclKey) (fragments : List Fragment) (h : (stored.get? id).map view = (stored'.get? id).map view) :
    ((fragments.foldl (storeFragment key) stored).get? id).map view =
      ((fragments.foldl (storeFragment key) stored').get? id).map view := by
  induction fragments generalizing stored stored' with
  | nil => exact h
  | cons first rest ih =>
    refine ih ?_
    by_cases hid : first.toFragmentId = id
    · subst hid
      have hboth : stored.contains first.toFragmentId = stored'.contains first.toFragmentId := by
        have hsome := congrArg Option.isSome h
        simpa [Table.contains] using hsome
      by_cases hkept : first.kind = .importLine ∧ stored.contains first.toFragmentId = true
      · rw [storeFragment, if_pos hkept, storeFragment, if_pos (hboth ▸ hkept), h]
      · rw [storeFragment, if_neg hkept, storeFragment, if_neg (hboth ▸ hkept), Table.get?_insert,
          Table.get?_insert, if_pos rfl, if_pos rfl]
    · rw [get?_storeFragment_of_ne hid, get?_storeFragment_of_ne hid, h]

theorem Alike.admits (h : s.Alike t) (hadmits : s.Admits key rendering) : t.Admits key rendering where
  fragments fragment howned held hheld := by
    rw [← h.owned _ (Rendering.mem_owned.mp howned).2] at hheld
    exact hadmits.fragments fragment howned held hheld
  proxy proxy hproxy existing hexisting :=
    hadmits.proxy proxy hproxy existing ((h.proxies proxy.nativeName).trans hexisting)

theorem Alike.accept (h : s.Alike t) (hadmits : s.Admits key rendering) :
    (s.accept key rendering).Alike (t.accept key rendering) := by
  constructor
  case config => exact h.config
  case fragments =>
    exact fun id => fragment?_eq_iff.mpr (map_get?_storeFragments key _ (fragment?_eq_iff.mp (h.fragments id)))
  case owned =>
    intro id hkind
    have hview := map_get?_storeFragments key rendering.fragments
      (congrArg (Option.map fun stored : Stored => stored) (h.owned id hkind))
    rw [Option.map_id_fun'] at hview
    exact hview
  case proxies =>
    intro name
    have hname : s.proxies.get? name = t.proxies.get? name := h.proxies name
    rw [proxy?, proxy?, get?_proxies_accept, get?_proxies_accept, hname]
  case renderings =>
    intro k
    rw [hadmits.get?_renderings_accept, (h.admits hadmits).get?_renderings_accept, h.renderings k]
  case includes =>
    intro header
    rw [mem_includes_accept, mem_includes_accept, h.includes]

theorem exists_answer_of_alike (h : s.Alike t) (hs' : s.answer request? = some s') :
    ∃ t', t.answer request? = some t' ∧ s'.Alike t' := by
  cases request? with
  | none => cases hs'
  | some request =>
    obtain ⟨⟨held, hheld⟩, rfl⟩ | ⟨hmiss, rendering, hrendering, hadmits, rfl⟩ := answer_eq_some_iff.mp hs'
    · exact ⟨t, answer_eq_some_iff.mpr (.inl ⟨⟨held, h.renderings _ ▸ hheld⟩, rfl⟩), h⟩
    · exact ⟨_, answer_eq_some_iff.mpr (.inr ⟨h.renderings _ ▸ hmiss, rendering, hrendering,
        h.admits hadmits, rfl⟩), h.accept hadmits⟩

theorem exists_answerAll_of_alike (h : s.Alike t) (hs' : requests.foldlM answer s = some s') :
    ∃ t', requests.foldlM answer t = some t' ∧ s'.Alike t' := by
  induction requests generalizing s t with
  | nil =>
    cases hs'
    exact ⟨t, rfl, h⟩
  | cons first rest ih =>
    rw [List.foldlM_cons] at hs'
    obtain ⟨s₁, hfirst, hrest⟩ := Option.bind_eq_some_iff.mp hs'
    obtain ⟨t₁, hfirst', h₁⟩ := exists_answer_of_alike h hfirst
    obtain ⟨t', hrest', h'⟩ := ih h₁ hrest
    exact ⟨t', by rw [List.foldlM_cons]; exact Option.bind_eq_some_iff.mpr ⟨t₁, hfirst', hrest'⟩, h'⟩

/-! ### Two neighbours -/

/-- The text of what is stored under a name: an import line has the text that its name gives it. -/
theorem text?_accept_import {replaceable : Bool} (hproper : rendering.Proper key replaceable)
    (hkind : id.kind = .importLine) :
    ((s.accept key rendering).fragments.get? id).map (·.text) =
      ((s.fragments.get? id).map (·.text)).or
        (if ∃ fragment ∈ rendering.fragments, fragment.toFragmentId = id then some (id.name ++ "\n")
          else none) := by
  cases hheld : s.fragments.get? id with
  | some held =>
    rw [accept, get?_storeFragments_import hkind hheld]
    rfl
  | none =>
    rw [Option.map_none, Option.none_or]
    split
    · rename_i hmem
      obtain ⟨fragment, hmem, rfl⟩ := hmem
      obtain ⟨held, hstored⟩ := exists_get?_storeFragments key s.fragments hmem
      rw [accept, hstored, Option.map_some]
      obtain hold | ⟨other, hother, hid, rfl⟩ := get?_storeFragments_cases hstored
      · rw [hheld] at hold
        cases hold
      · have hform := hproper.imports other hother ((congrArg FragmentId.kind hid).trans hkind)
        rw [hform, ← congrArg FragmentId.name hid]
        rfl
    · rename_i hnone
      rw [accept, get?_storeFragments_of_ne (fun fragment hmem heq => hnone ⟨fragment, hmem, heq⟩), hheld]
      rfl

theorem get?_fragments_accept_swap (happart : Apart rendering rendering')
    (hdistinct : (rendering.owned.map (·.toFragmentId)).Nodup) (hkind : id.kind ≠ .importLine)
    {fragment : Fragment} (howned : fragment ∈ rendering.owned) (hid : fragment.toFragmentId = id) :
    ((s.accept key rendering).accept key' rendering').fragments.get? id =
      ((s.accept key' rendering').accept key rendering).fragments.get? id := by
  subst hid
  obtain ⟨hmem, -⟩ := Rendering.mem_owned.mp howned
  rw [get?_fragments_accept_of_ne
    (fun fragment' howned' => (happart.fragments fragment howned fragment' howned').symm) hkind]
  exact (get?_storeFragments_owned hmem hkind hdistinct).trans
    (get?_storeFragments_owned hmem hkind hdistinct).symm

/-- **Two renderings that are apart can be added in either order.** -/
theorem alike_accept_swap {replaceable replaceable' : Bool} (hne : key ≠ key')
    (hproper : rendering.Proper key replaceable) (hproper' : rendering'.Proper key' replaceable')
    (hadmits : s.Admits key rendering) (hadmits' : s.Admits key' rendering')
    (hapart : Apart rendering rendering') :
    ((s.accept key rendering).accept key' rendering').Alike
      ((s.accept key' rendering').accept key rendering) := by
  have hafter := (admits_accept_iff hne hproper.distinct hadmits).mpr ⟨hadmits', hapart⟩
  have hafter' := (admits_accept_iff hne.symm hproper'.distinct hadmits').mpr ⟨hadmits, hapart.symm⟩
  have howned (id : FragmentId) (hkind : id.kind ≠ .importLine) :
      ((s.accept key rendering).accept key' rendering').fragments.get? id =
        ((s.accept key' rendering').accept key rendering).fragments.get? id := by
    by_cases hfirst : ∃ fragment ∈ rendering.owned, fragment.toFragmentId = id
    · obtain ⟨fragment, howned, hid⟩ := hfirst
      exact get?_fragments_accept_swap hapart hproper.distinct hkind howned hid
    by_cases hsecond : ∃ fragment ∈ rendering'.owned, fragment.toFragmentId = id
    · obtain ⟨fragment, howned, hid⟩ := hsecond
      exact (get?_fragments_accept_swap hapart.symm hproper'.distinct hkind howned hid).symm
    · have hother : ∀ fragment ∈ rendering.owned, fragment.toFragmentId ≠ id :=
        fun fragment hmem heq => hfirst ⟨fragment, hmem, heq⟩
      have hother' : ∀ fragment ∈ rendering'.owned, fragment.toFragmentId ≠ id :=
        fun fragment hmem heq => hsecond ⟨fragment, hmem, heq⟩
      rw [get?_fragments_accept_of_ne hother' hkind, get?_fragments_accept_of_ne hother hkind,
        get?_fragments_accept_of_ne hother hkind, get?_fragments_accept_of_ne hother' hkind]
  constructor
  case config => rfl
  case owned => exact howned
  case fragments =>
    intro id
    rw [fragment?_eq_iff]
    by_cases hkind : id.kind = .importLine
    · -- The text of an import line does not depend on who stores it.
      rw [text?_accept_import hproper' hkind, text?_accept_import hproper hkind,
        text?_accept_import hproper hkind, text?_accept_import hproper' hkind, Option.or_assoc,
        Option.or_assoc]
      congr 1
      split <;> split <;> rfl
    · rw [howned id hkind]
  case proxies =>
    intro name
    simp only [proxy?, get?_proxies_accept, ← Option.or_assoc]
    congr 1
    cases hown : rendering.proxy.filter (·.nativeName = name) with
    | none => rw [Option.or_none, Option.none_or]
    | some proxy =>
      cases hown' : rendering'.proxy.filter (·.nativeName = name) with
      | none => rfl
      | some proxy' =>
        obtain ⟨hproxy, hname⟩ := Option.filter_eq_some_iff.mp hown
        obtain ⟨hproxy', hname'⟩ := Option.filter_eq_some_iff.mp hown'
        have hsame := (of_decide_eq_true hname).trans (of_decide_eq_true hname').symm
        rw [hapart.proxy proxy proxy' hproxy hproxy' hsame]
  case renderings =>
    intro k
    rw [hafter.get?_renderings_accept, hadmits.get?_renderings_accept, hafter'.get?_renderings_accept,
      hadmits'.get?_renderings_accept]
    by_cases hk : k = key
    · subst hk
      rw [if_neg hne, if_pos rfl, if_pos rfl]
    · rw [if_neg hk, if_neg hk]
  case includes =>
    intro header
    simp only [mem_includes_accept]
    exact or_right_comm

/-- Requests that can be told apart by their keys, and whose renderings have the shape that a renderer gives
them. -/
structure Consistent (requests : List (Option Request)) : Prop where
  agree : ∀ request request' : Request, some request ∈ requests → some request' ∈ requests →
    request.key = request'.key → request = request'
  proper : ∀ request : Request, some request ∈ requests → ∀ rendering, request.rendering? = some rendering →
    ∃ replaceable, rendering.Proper request.key replaceable

theorem Consistent.subset (h : Consistent requests) (hsubset : requests' ⊆ requests) :
    Consistent requests' where
  agree request request' hmem hmem' := h.agree request request' (hsubset hmem) (hsubset hmem')
  proper request hmem := h.proper request (hsubset hmem)

theorem answer_swap {first second : Option Request} (h : Consistent [first, second])
    (hs' : [first, second].foldlM answer s = some s') :
    ∃ t', [second, first].foldlM answer s = some t' ∧ s'.Alike t' := by
  simp only [List.foldlM_cons, List.foldlM_nil, Option.bind_eq_bind, Option.bind_eq_some_iff, Option.pure_def,
    Option.some.injEq] at hs' ⊢
  obtain ⟨s₁, hfirst, _, hsecond, rfl⟩ := hs'
  cases first with
  | none => cases hfirst
  | some first =>
  cases second with
  | none => cases hsecond
  | some second =>
  by_cases hkey : first.key = second.key
  · obtain rfl := h.agree first second (by simp) (by simp) hkey
    exact ⟨_, ⟨s₁, hfirst, _, hsecond, rfl⟩, .refl _⟩
  obtain ⟨hheld, rfl⟩ | ⟨hmiss, rendering, hrendering, hadmits, rfl⟩ := answer_eq_some_iff.mp hfirst <;>
    obtain ⟨hheld', rfl⟩ | ⟨hmiss', rendering', hrendering', hadmits', rfl⟩ := answer_eq_some_iff.mp hsecond
  case inl.inl => exact ⟨_, ⟨_, hsecond, _, hfirst, rfl⟩, .refl _⟩
  case inl.inr =>
    refine ⟨_, ⟨_, hsecond, _, answer_eq_some_iff.mpr (.inl ⟨?_, rfl⟩), rfl⟩, .refl _⟩
    rwa [hadmits'.get?_renderings_accept, if_neg hkey]
  case inr.inl =>
    refine ⟨_, ⟨s, answer_eq_some_iff.mpr (.inl ⟨?_, rfl⟩), _, hfirst, rfl⟩, .refl _⟩
    rwa [hadmits.get?_renderings_accept, if_neg (Ne.symm hkey)] at hheld'
  case inr.inr =>
    obtain ⟨replaceable, hproper⟩ := h.proper first (by simp) rendering hrendering
    obtain ⟨replaceable', hproper'⟩ := h.proper second (by simp) rendering' hrendering'
    obtain ⟨hbefore, hapart⟩ := (admits_accept_iff hkey hproper.distinct hadmits).mp hadmits'
    rw [hadmits.get?_renderings_accept, if_neg (Ne.symm hkey)] at hmiss'
    refine ⟨_, ⟨_, answer_eq_some_iff.mpr (.inr ⟨hmiss', rendering', hrendering', hbefore, rfl⟩), _,
      answer_eq_some_iff.mpr (.inr ⟨?_, rendering, hrendering, ?_, rfl⟩), rfl⟩, ?_⟩
    · rwa [hbefore.get?_renderings_accept, if_neg hkey]
    · exact (admits_accept_iff (Ne.symm hkey) hproper'.distinct hbefore).mpr ⟨hadmits, hapart.symm⟩
    · exact alike_accept_swap hkey hproper hproper' hadmits hbefore hapart

/-! ### Every permutation -/

/-- **Requests can be made in any order**: when one order is answered, so is every other one, and the
sessions that they lead to hold the same. -/
theorem answerAll_perm (hperm : requests.Perm requests') (h : Consistent requests)
    (hs' : requests.foldlM answer s = some s') :
    ∃ t', requests'.foldlM answer s = some t' ∧ s'.Alike t' := by
  induction hperm generalizing s s' with
  | nil => exact ⟨s', hs', .refl s'⟩
  | cons first _ ih =>
    rw [List.foldlM_cons] at hs'
    obtain ⟨s₁, hfirst, hrest⟩ := Option.bind_eq_some_iff.mp hs'
    obtain ⟨t', hrest', halike⟩ := ih (h.subset (List.subset_cons_self _ _)) hrest
    exact ⟨t', by rw [List.foldlM_cons]; exact Option.bind_eq_some_iff.mpr ⟨s₁, hfirst, hrest'⟩, halike⟩
  | swap first second rest =>
    rw [show second :: first :: rest = [second, first] ++ rest from rfl, List.foldlM_append] at hs'
    obtain ⟨s₁, htwo, hrest⟩ := Option.bind_eq_some_iff.mp hs'
    obtain ⟨t₁, htwo', h₁⟩ := answer_swap (h.subset (by simp)) htwo
    obtain ⟨t', hrest', halike⟩ := exists_answerAll_of_alike h₁ hrest
    refine ⟨t', ?_, halike⟩
    rw [show first :: second :: rest = [first, second] ++ rest from rfl, List.foldlM_append]
    exact Option.bind_eq_some_iff.mpr ⟨t₁, htwo', hrest'⟩
  | trans hperm _ ih ih' =>
    obtain ⟨s₁, h₁, halike₁⟩ := ih h hs'
    obtain ⟨t', h', halike'⟩ := ih' (h.subset hperm.symm.subset) h₁
    exact ⟨t', h', halike₁.trans halike'⟩

/-! ### Batches as requests -/

/-- A batch whose declarations are answered like requests succeeds when all the requests are answered, and
leaves the session that they lead to. -/
theorem renderEach_eq_answerAll {σ δ : Type} {step : σ → δ → Except BindingError (Rendering × σ)}
    (view : σ → Session) {asked : δ → Option Request} {P : σ → Prop} {decls : List δ} {state : σ}
    {collected : OutputModule} (hstart : P state)
    (hnext : ∀ decl state rendering state', P state → step state decl = .ok (rendering, state') → P state')
    (hanswer : ∀ decl state t, P state → ((view state).answer (asked decl) = some t ↔
      ∃ rendering state', step state decl = .ok (rendering, state') ∧ view state' = t)) :
    (decls.map asked).foldlM answer (view state) =
      (renderEach step state collected decls).2.toOption.map fun _ =>
        view (renderEach step state collected decls).1 := by
  induction decls generalizing state collected with
  | nil => rfl
  | cons decl rest ih =>
    rw [List.map_cons, List.foldlM_cons, renderEach]
    cases hstep : step state decl with
    | error cause =>
      have hnone : (view state).answer (asked decl) = none := by
        refine Option.eq_none_iff_forall_ne_some.mpr fun t ht => ?_
        obtain ⟨rendering, state', hok, -⟩ := (hanswer decl state t hstart).mp ht
        rw [hstep] at hok
        cases hok
      rw [hnone]
      rfl
    | ok rendered =>
      rw [(hanswer decl state _ hstart).mpr ⟨_, _, hstep, rfl⟩]
      exact ih (hnext decl state _ _ hstart hstep)

/-- Two outcomes that come from the same requests in two orders: both are successes or neither is, and two
successes leave sessions that hold the same. -/
theorem sameOutcome_of_perm {x y : Session × Except BindingError OutputModule}
    (hperm : requests.Perm requests') (h : Consistent requests)
    (hx : requests.foldlM answer s = x.2.toOption.map fun _ => x.1)
    (hy : requests'.foldlM answer s = y.2.toOption.map fun _ => y.1) :
    ((∃ module, x.2 = .ok module) ↔ ∃ module, y.2 = .ok module) ∧
    ((∃ module, x.2 = .ok module) → x.1.Alike y.1) := by
  obtain ⟨t, result⟩ := x
  obtain ⟨t', result'⟩ := y
  cases result with
  | error cause =>
    refine ⟨iff_of_false (by simp) ?_, by simp⟩
    rintro ⟨module, rfl⟩
    obtain ⟨t'', hnone, -⟩ := answerAll_perm hperm.symm (h.subset hperm.symm.subset) hy
    rw [hx] at hnone
    cases hnone
  | ok module =>
    obtain ⟨t'', hother, halike⟩ := answerAll_perm hperm h hx
    rw [hy] at hother
    cases result' with
    | error cause => cases hother
    | ok module' =>
      cases hother
      exact ⟨iff_of_true ⟨module, rfl⟩ ⟨module', rfl⟩, fun _ => halike⟩

end HostBinding.Session
