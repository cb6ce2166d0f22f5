import HostBinding.Proofs.Session.BatchOrder
import HostBinding.Proofs.Session.Collecting

/-!
# Splitting a batch of structs

When a batch is rendered in two calls, the second part sees the structs of the first one as registered proxies,
where a single call lays them out again, and the first part no longer sees those of the second. Neither makes
a difference. A proxy has the extent of the layout that it was registered with, and a single call finds the
same layout. A struct of the other part is named by its mapping entry either way, which it has when the other
part goes through. So every step of the two calls is also a step of the single one.
-/

namespace HostBinding

/-! ### Modules put together -/

/-- A module that is put together from two others. It has their opening once, and of their import lines and
headers the first occurrences. -/
structure OutputModule.Joins (joined first second : OutputModule) : Prop where
  shimSourceIdent : joined.shimSourceIdent = first.shimSourceIdent ∧
    joined.shimSourceIdent = second.shimSourceIdent
  opening : joined.ofKind .opening = first.ofKind .opening ∧ joined.ofKind .opening = second.ofKind .opening
  imports : joined.ofKind .importLine =
    firstBy (·.toFragmentId) (first.ofKind .importLine ++ second.ofKind .importLine)
  ofKind : ∀ kind, kind ≠ .opening → kind ≠ .importLine →
    joined.ofKind kind = first.ofKind kind ++ second.ofKind kind
  includes : joined.includes = firstBy id (first.includes ++ second.includes)

theorem OutputModule.Gathers.joins {joined first second : OutputModule} {s t : Session}
    {renderings renderings' : List Rendering} (hconfig : s.config = t.config)
    (hjoined : joined.Gathers s (renderings ++ renderings')) (hfirst : first.Gathers s renderings)
    (hsecond : second.Gathers t renderings') : joined.Joins first second where
  shimSourceIdent := by
    rw [hjoined.shimSourceIdent, hfirst.shimSourceIdent, hsecond.shimSourceIdent, hconfig]
    exact ⟨rfl, rfl⟩
  opening := by
    rw [hjoined.opening, hfirst.opening, hsecond.opening, Session.emptyModule_eq hconfig]
    exact ⟨rfl, rfl⟩
  imports := by
    rw [hjoined.imports, hfirst.imports, hsecond.imports, List.flatMap_append, firstBy_firstBy_append,
      firstBy_append_firstBy]
  ofKind kind hopening himport := by
    rw [hjoined.ofKind kind hopening himport, hfirst.ofKind kind hopening himport,
      hsecond.ofKind kind hopening himport, List.flatMap_append]
  includes := by
    rw [hjoined.includes, hfirst.includes, hsecond.includes, List.flatMap_append, firstBy_firstBy_append,
      firstBy_append_firstBy]

namespace StructBatch

variable {batch batch' : StructBatch} {start start' : Session} {state state' next : Session × Resolver}
  {decl : StructDecl} {rendering : Rendering}

/-! ### A batch that can do what another one does -/

/-- A batch, at its beginning, finds every layout that another one finds, and uses the same names. -/
structure Widens (batch' : StructBatch) (start' : Session) (batch : StructBatch) (start : Session) : Prop where
  mapping : batch'.mapping = batch.mapping
  digest : batch'.digest = batch.digest
  covers : (batch'.resolver start').Covers (batch.resolver start)
  hostNames : ∀ name, batch.hostName? start name = batch'.hostName? start' name

theorem Widens.exists_step (hwidens : batch'.Widens start' batch start) (h : batch.Steady start state)
    (h' : batch'.Steady start' state') (hsession : state'.1 = state.1)
    (hok : batch.step state decl = .ok (rendering, next)) :
    ∃ next', batch'.step state' decl = .ok (rendering, next') ∧ next'.1 = next.1 := by
  obtain ⟨entry, hentry, hcases⟩ := step_eq_ok_iff.mp hok
  have hkey : batch'.key decl entry = batch.key decl entry := by rw [key, key, hwidens.digest]
  rw [← hkey, ← hsession] at hcases
  rw [← hwidens.mapping] at hentry
  rcases hcases with ⟨hheld, rfl⟩ | ⟨hmiss, hbuild, hcommit⟩
  · exact ⟨state', step_eq_ok_iff.mpr ⟨entry, hentry, .inl ⟨hheld, rfl⟩⟩, hsession⟩
  · obtain ⟨layout, body, hlayout, hbody, hwritten⟩ :=
      h.map_build_eq_ok_iff.mp (map_eq_ok_iff.mpr ⟨_, hbuild, rfl⟩)
    rw [body_congr hwidens.hostNames] at hbody
    obtain ⟨⟨_, resolver⟩, hbuild', rfl⟩ := map_eq_ok_iff.mp
      (h'.map_build_eq_ok_iff.mpr ⟨layout, body, hlayout.of_covers hwidens.covers, hbody, hwritten⟩)
    exact ⟨(next.1, resolver), step_eq_ok_iff.mpr ⟨entry, hentry, .inr ⟨hmiss, hbuild', hcommit⟩⟩, rfl⟩

theorem Widens.exists_chain (hwidens : batch'.Widens start' batch start) {structs : List StructDecl}
    {renderings : List Rendering} {last : Session × Resolver}
    (hchain : Session.Chain batch.step (start, batch.resolver start) structs renderings last)
    (h' : batch'.Steady start' state') (hsession : state'.1 = start) :
    ∃ last', Session.Chain batch'.step state' structs renderings last' ∧ last'.1 = last.1 ∧
      batch'.Steady start' last' := by
  obtain ⟨last', hchain', hlast, -, hsteady⟩ := hchain.simulate
    (R := fun state state' => state'.1 = state.1 ∧ batch.Steady start state ∧ batch'.Steady start' state')
    (fun decl _ state state' rendering next ⟨hsession, h, h'⟩ hok =>
      have ⟨next', hok', hnext⟩ := hwidens.exists_step h h' hsession hok
      ⟨next', hok', hnext, h.step hok, h'.step hok'⟩) ⟨hsession, .init batch start, h'⟩
  exact ⟨last', hchain', hlast, hsteady⟩

/-! ### The proxies between two calls -/

/-- The proxies that a batch has registered so far are of the layouts that it finds. -/
structure Registers (batch : StructBatch) (start : Session) (state : Session × Resolver) : Prop
    extends Steady batch start state where
  config : state.1.config = start.config
  kept : ∀ name proxy, start.proxy? name = some proxy → state.1.proxy? name = some proxy
  laidOut : ∀ name proxy, state.1.proxy? name = some proxy → start.proxy? name = some proxy ∨
    ∃ layout, (batch.resolver start).LaysOut name layout ∧ proxy.toExtent = layout.toExtent

theorem Registers.init (batch : StructBatch) (start : Session) :
    batch.Registers start (start, batch.resolver start) where
  toSteady := .init batch start
  config := rfl
  kept _ _ h := h
  laidOut _ _ h := .inl h

theorem Registers.step (h : batch.Registers start state)
    (hok : batch.step state decl = .ok (rendering, next)) : batch.Registers start next := by
  have hsteady := h.toSteady.step hok
  obtain ⟨entry, -, ⟨-, rfl⟩ | ⟨-, hbuild, hcommit⟩⟩ := step_eq_ok_iff.mp hok
  · exact h
  · obtain ⟨layout, body, hlayout, -, rfl⟩ :=
      h.map_build_eq_ok_iff.mp (map_eq_ok_iff.mpr ⟨_, hbuild, rfl⟩)
    refine ⟨hsteady, (config_of_step hok).trans h.config, ?_, ?_⟩
    · exact fun name proxy hold => Session.proxy?_of_commit hcommit (h.kept name proxy hold)
    · intro name proxy hproxy
      rw [(proxy?_of_commit hcommit name).1] at hproxy
      by_cases hname : name = decl.name
      · rw [if_pos hname, Option.some.injEq] at hproxy
        exact .inr ⟨layout, hname ▸ hlayout, hproxy ▸ rfl⟩
      · rw [if_neg hname] at hproxy
        exact h.laidOut name proxy hproxy

/-- Where every struct of a batch has a mapping entry, names come from proxies and the mapping alone. -/
theorem hostName?_eq_of_mapped (hmapped : ∀ decl ∈ batch.structs, ∃ entry, batch.mapping.get? decl.name = some entry)
    (s : Session) (name : String) :
    batch.hostName? s name = (s.hostName? name).or
      ((batch.mapping.get? name).map fun entry => Text.sanitize (entry.hostNameFor name)) := by
  rw [hostName?_eq_or]
  cases hentry : batch.mapping.get? name with
  | some entry => rfl
  | none =>
    have hundeclared : batch.structs.any (·.name = name) = false := by
      rw [List.any_eq_false]
      intro decl hmem hname
      obtain ⟨entry, hsome⟩ := hmapped decl hmem
      rw [of_decide_eq_true hname, hentry] at hsome
      cases hsome
    simp [hundeclared]

theorem mapped_of_chain {structs : List StructDecl} {renderings : List Rendering} {last : Session × Resolver}
    (hchain : Session.Chain batch.step state structs renderings last) :
    ∀ decl ∈ structs, ∃ entry, batch.mapping.get? decl.name = some entry := by
  intro decl hmem
  obtain ⟨before, rendering, after, hok⟩ := hchain.exists_step hmem
  obtain ⟨entry, hentry, -⟩ := step_eq_ok_iff.mp hok
  exact ⟨entry, hentry⟩

/-! ### Two calls and one -/

variable {s : Session} {mapping : Mapping} {digest : Option String} {structs structs' : List StructDecl}
  {last : Session × Resolver}

theorem widens_of_declared
    (hdistinct : ((structs ++ structs').map (·.name)).Nodup)
    (hmapped : ∀ decl ∈ structs, ∃ entry, mapping.get? decl.name = some entry)
    (hmapped' : ∀ decl ∈ structs', ∃ entry, mapping.get? decl.name = some entry) :
    Widens ⟨structs ++ structs', mapping, digest⟩ s ⟨structs, mapping, digest⟩ s where
  mapping := rfl
  digest := rfl
  hostNames name := by
    rw [hostName?_eq_of_mapped hmapped, hostName?_eq_of_mapped]
    exact fun decl hmem => (List.mem_append.mp hmem).elim (hmapped decl) (hmapped' decl)
  covers := by
    have hfirst : (structs.map (·.name)).Nodup :=
      hdistinct.sublist ((List.sublist_append_left structs structs').map _)
    refine ⟨rfl, fun name decl hdecl => ?_, fun name extent hknown => ⟨0, ?_⟩, fun name hunknown => hunknown⟩
    · rw [Resolver.declared?_eq_some_iff hfirst] at hdecl
      rw [Resolver.declared?_eq_some_iff hdistinct]
      exact ⟨List.mem_append_left _ hdecl.1, hdecl.2⟩
    · exact Option.or_eq_some_iff.mpr (.inl hknown)

/-- What the first call has registered, a single call lays out. -/
theorem widens_of_registered
    (hdistinct : ((structs ++ structs').map (·.name)).Nodup)
    (hmapped : ∀ decl ∈ structs, ∃ entry, mapping.get? decl.name = some entry)
    (hmapped' : ∀ decl ∈ structs', ∃ entry, mapping.get? decl.name = some entry)
    (hlast : Registers ⟨structs, mapping, digest⟩ s last) :
    Widens ⟨structs ++ structs', mapping, digest⟩ s ⟨structs', mapping, digest⟩ last.1 where
  mapping := rfl
  digest := rfl
  hostNames name := by
    have hsteady := hlast.hostNames name
    rw [hostName?_eq_of_mapped hmapped, hostName?_eq_of_mapped hmapped] at hsteady
    rw [hostName?_eq_of_mapped hmapped', hostName?_eq_of_mapped]
    · exact hsteady
    · exact fun decl hmem => (List.mem_append.mp hmem).elim (hmapped decl) (hmapped' decl)
  covers := by
    have hfirst : Widens ⟨structs ++ structs', mapping, digest⟩ s ⟨structs, mapping, digest⟩ s :=
      widens_of_declared hdistinct hmapped hmapped'
    have hsecond : (structs'.map (·.name)).Nodup :=
      hdistinct.sublist ((List.sublist_append_right structs structs').map _)
    constructor
    case pointerWidth => rw [resolver, resolver, hlast.config]
    case declared =>
      intro name decl hdecl
      rw [Resolver.declared?_eq_some_iff hsecond] at hdecl
      rw [Resolver.declared?_eq_some_iff hdistinct]
      exact ⟨List.mem_append_right _ hdecl.1, hdecl.2⟩
    case known =>
      intro name extent hknown
      rw [get?_known] at hknown
      obtain ⟨proxy, hproxy, rfl⟩ := Option.map_eq_some_iff.mp hknown
      cases hold : s.proxy? name with
      | some old =>
        have hsame := hlast.kept name old hold
        rw [hproxy, Option.some.injEq] at hsame
        exact ⟨0, by rw [Resolver.namedAt?, get?_known, hold, hsame]; rfl⟩
      | none =>
        rcases hlast.laidOut name proxy hproxy with hstart | ⟨layout, hlayout, hextent⟩
        · rw [hold] at hstart
          cases hstart
        · obtain ⟨depth, hdepth⟩ := hlayout.of_covers hfirst.covers
          exact ⟨depth, by rw [Resolver.namedAt?, get?_known, hold, hdepth, hextent]; rfl⟩
    case unknown =>
      intro name hunknown
      rw [get?_known, Option.map_eq_none_iff] at hunknown ⊢
      cases hold : s.proxy? name with
      | none => rfl
      | some old =>
        rw [hlast.kept name old hold] at hunknown
        cases hunknown

/-- **Splitting a batch of structs makes no difference**: when two calls go through, a single call for the
structs of both, whose names differ, goes through as well, leaves the same session and returns the two modules
put together. -/
theorem render_append_structs {config : Config} (s : Session) (hs : s.Reachable config) (mapping : Mapping)
    (digest : Option String) (structs structs' : List StructDecl) (first second : OutputModule)
    (hdistinct : ((structs ++ structs').map (·.name)).Nodup)
    (hfirst : (render ⟨structs, mapping, digest⟩ s).2 = .ok first)
    (hsecond : (render ⟨structs', mapping, digest⟩ (render ⟨structs, mapping, digest⟩ s).1).2 = .ok second) :
    ∃ joined : OutputModule, joined.Joins first second ∧
      render ⟨structs ++ structs', mapping, digest⟩ s =
        ((render ⟨structs', mapping, digest⟩ (render ⟨structs, mapping, digest⟩ s).1).1, .ok joined) := by
  have hreachable := Session.Reachable.structs ⟨structs, mapping, digest⟩ hs
  obtain ⟨renderings, middle, hchain, hmiddle, hgathers⟩ := exists_chain hs.regular hfirst
  obtain ⟨renderings', last, hchain', hlast, hgathers'⟩ := exists_chain hreachable.regular hsecond
  rw [← hmiddle] at hchain' hgathers'
  have hregisters : Registers ⟨structs, mapping, digest⟩ s middle :=
    (hchain.induction (Q := fun _ => True)
      (fun _ _ _ _ hstate hok => ⟨trivial, Registers.step hstate hok⟩) (.init _ s)).2
  have hmapped := mapped_of_chain hchain
  have hmapped' := mapped_of_chain hchain'
  obtain ⟨between, hjoint, hbetween, hsteady⟩ :=
    (widens_of_declared hdistinct hmapped hmapped').exists_chain hchain (.init _ s) rfl
  obtain ⟨final, hjoint', hfinal, -⟩ :=
    (widens_of_registered hdistinct hmapped hmapped' hregisters).exists_chain hchain' hsteady hbetween
  have hjoint := hjoint.append hjoint'
  obtain ⟨joined, hrender, hjoined⟩ := hjoint.exists_module (hjoint.plain (entersBy _) hs.regular)
  refine ⟨joined, hjoined.joins hregisters.config.symm hgathers hgathers', ?_⟩
  rw [render, ← hlast, ← hfinal]
  exact congrArg (fun rendered => (rendered.1.1, rendered.2)) hrender

/-! ### A batch whose two parts refer to each other -/

namespace Sample

def leaves : StructBatch where
  structs := [{ name := "Leaf", fields := [⟨"value", .ofPrimitive (.integral .i32)⟩,
    ⟨"owner", .pointer (.named "Branch") false⟩, ⟨"data", .pointer .void false⟩] }]
  mapping := Table.ofList [("Leaf", { header := "tree.h" }), ("Branch", { header := "tree.h" })]

def branches : StructBatch where
  structs := [{ name := "Branch", fields := [⟨"leaves", .array (.named "Leaf") 2⟩,
    ⟨"corner", .named "Vec"⟩, ⟨"data", .pointer .void true⟩] }]
  mapping := leaves.mapping

def started : Session :=
  (Session.Sample.shapes.render {}).1

end Sample

theorem render_append_structs_tree :
    Session.Reachable {} Sample.started ∧
    ((Sample.leaves.structs ++ Sample.branches.structs).map (·.name)).Nodup ∧
    ∃ first second joined : OutputModule,
      (Sample.leaves.render Sample.started).2 = .ok first ∧
      (Sample.branches.render (Sample.leaves.render Sample.started).1).2 = .ok second ∧
      (first.ofKind .importLine).length = 1 ∧ (second.ofKind .importLine).length = 1 ∧
      joined.Joins first second ∧
      render { Sample.leaves with structs := Sample.leaves.structs ++ Sample.branches.structs } Sample.started =
        ((Sample.branches.render (Sample.leaves.render Sample.started).1).1, .ok joined) := by
  have hreachable : Session.Reachable {} Sample.started := .structs _ .new
  have hdistinct : ((Sample.leaves.structs ++ Sample.branches.structs).map (·.name)).Nodup := by decide
  have hfirst := eq_ok_of_isSome_toOption
    (show (Sample.leaves.render Sample.started).2.toOption.isSome by decide +kernel)
  have hsecond := eq_ok_of_isSome_toOption
    (show (Sample.branches.render (Sample.leaves.render Sample.started).1).2.toOption.isSome by decide +kernel)
  obtain ⟨joined, hjoined, hrender⟩ := render_append_structs Sample.started hreachable Sample.leaves.mapping none
    Sample.leaves.structs Sample.branches.structs _ _ hdistinct hfirst hsecond
  exact ⟨hreachable, hdistinct, _, _, joined, hfirst, hsecond, by decide +kernel, by decide +kernel, hjoined,
    hrender⟩

end StructBatch

end HostBinding
