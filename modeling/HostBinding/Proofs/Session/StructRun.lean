import HostBinding.Proofs.FirstBy
import HostBinding.Proofs.HostType
import HostBinding.Proofs.StructBinding.Batch
import HostBinding.Proofs.StructBinding.Stated

/-!
# Stated layouts are the layouts of the emitted types

When only structs are rendered, every remembered struct was laid out by a resolver whose batch went through.
Its fields are then stored in host types of the extents that the resolver placed them at, so the host compiler
arrives at the numbers that the proxy states.
-/

namespace HostBinding

open StructBinding

theorem Resolver.declared?_eq {r : Resolver} {decl : StructDecl} (hdistinct : (r.structs.map (·.name)).Nodup)
    (hmem : decl ∈ r.structs) : r.declared? decl.name = some decl := by
  have hreversed : (r.structs.reverse.map (·.name)).Nodup := by
    rwa [List.map_reverse, List.nodup_reverse]
  exact find?_key_eq hreversed (List.mem_reverse.mpr hmem)

theorem Resolver.declared?_eq_some_iff {r : Resolver} {name : String} {decl : StructDecl}
    (hdistinct : (r.structs.map (·.name)).Nodup) :
    r.declared? name = some decl ↔ decl ∈ r.structs ∧ decl.name = name := by
  constructor
  · exact Resolver.mem_of_declared?
  · rintro ⟨hmem, rfl⟩
    exact Resolver.declared?_eq hdistinct hmem

namespace StructBatch

variable {batch : StructBatch} {start : Session} {state : Session × Resolver} {decl : StructDecl}
  {entry : TypeMapping} {layout : StructLayout} {body : ProxyBody} {extent : Extent} {extents : List Extent}
  {fields : List ProxyField}

theorem Progress.proxy_of_extentIn (h : Progress batch start batch.structs state) {name : String}
    (hextent : (batch.resolver start).extentIn state.2.memo (.named name) = some extent) :
    ∃ proxy, state.1.proxy? name = some proxy ∧ proxy.toExtent = extent := by
  rw [Resolver.extentIn, StructBatch.resolver, Table.get?_mapValues, Option.or_eq_some_iff] at hextent
  rcases hextent with hknown | ⟨hunknown, hfound⟩
  · obtain ⟨proxy, hproxy, rfl⟩ := Option.map_eq_some_iff.mp hknown
    exact ⟨proxy, h.kept name proxy hproxy, rfl⟩
  · obtain ⟨layout, hlayout, rfl⟩ := Option.map_eq_some_iff.mp hfound
    obtain ⟨decl, -, hdecl, -⟩ := h.placed name layout hlayout
    obtain ⟨hmem, hname⟩ := Resolver.mem_of_declared? hdecl
    obtain ⟨proxy, hproxy⟩ := h.registered decl hmem
    rw [hname] at hproxy
    refine ⟨proxy, hproxy, ?_⟩
    rcases h.laidOut name proxy hproxy with hold | ⟨layout', hlayout', hsame⟩
    · rw [Option.map_eq_none_iff] at hunknown
      rw [Session.proxy?, hunknown] at hold
      cases hold
    · rw [hlayout, Option.some.injEq] at hlayout'
      rw [hsame, hlayout']

/-- **The host type of a native type has the extent that the resolver gives to the native type.** -/
theorem Progress.extent?_eq (h : Progress batch start batch.structs state)
    (hwidth : start.config.pointerWidth = 8) {type : CType} {host : HostType}
    (hextent : (batch.resolver start).extentIn state.2.memo type = some extent)
    (hhost : type.host? (batch.hostName? start) = some host) :
    host.extent? state.1.hostExtent? = some extent := by
  induction type generalizing extent host with
  | void => cases hhost
  | reference => cases hhost
  | primitive kind spelling =>
    cases hhost
    cases hextent
    rw [HostType.extent?, lookup_hostPrimitives]
    rfl
  | named name =>
    obtain ⟨hostName, hname, rfl⟩ := Option.map_eq_some_iff.mp hhost
    obtain ⟨proxy, hproxy, rfl⟩ := h.proxy_of_extentIn hextent
    have hregistered : batch.hostName? start name = some proxy.hostName := by
      rw [← h.hostNames, hostName?_eq_or, Session.hostName?, hproxy]
      rfl
    rw [hregistered, Option.some.injEq] at hname
    rw [HostType.extent?, ← hname]
    exact h.coherent.hostExtent?_eq hproxy
  | pointer target isConst =>
    obtain ⟨target', rfl⟩ := CType.exists_pointer_of_host? hhost
    cases hextent
    rw [HostType.extent?, StructBatch.resolver, hwidth]
    rfl
  | array element length ih =>
    obtain ⟨inner, hinner, rfl⟩ := Option.map_eq_some_iff.mp hextent
    obtain ⟨elementHost, helement, rfl⟩ := Option.map_eq_some_iff.mp hhost
    rw [HostType.extent?, ih hinner helement]
    rfl

theorem made_of_proxyFields (hlength : layout.fields.length = decl.fields.length)
    (h : batch.proxyFields start decl layout = .ok fields) :
    fields.map (·.nativeName) = decl.fields.map (·.name) ∧
    fields.map (·.offset) = layout.fields.map (·.offset) ∧
    List.Forall₂ (fun (source : FieldDecl) (field : ProxyField) =>
      source.type.host? (batch.hostName? start) = some field.type) decl.fields fields := by
  have hmade := mapM_eq_ok_iff.mp h
  generalize decl.fields = sources at hlength hmade ⊢
  generalize layout.fields = placed at hlength hmade ⊢
  clear h
  induction sources generalizing placed fields with
  | nil =>
    obtain rfl : placed = [] := List.length_eq_zero_iff.mp hlength
    cases hmade
    exact ⟨rfl, rfl, .nil⟩
  | cons source rest ih =>
    cases placed with
    | nil => simp at hlength
    | cons first placed =>
      rw [List.zip_cons_cons] at hmade
      obtain ⟨field, fields, hfirst, hrest, rfl⟩ := List.forall₂_cons_left_iff.mp hmade
      obtain ⟨type, htype, rfl⟩ := proxyField_eq_ok_iff.mp hfirst
      obtain ⟨hnames, hoffsets, htypes⟩ := ih placed (by simpa using hlength) hrest
      exact ⟨by simp [hnames], by simp [hoffsets], .cons htype htypes⟩

theorem Progress.mapM_extent? (h : Progress batch start batch.structs state)
    (hwidth : start.config.pointerWidth = 8) {sources : List FieldDecl}
    (hextents : List.Forall₂ (fun (source : FieldDecl) extent =>
      (batch.resolver start).extentIn state.2.memo source.type = some extent) sources extents)
    (hhosts : List.Forall₂ (fun (source : FieldDecl) (field : ProxyField) =>
      source.type.host? (batch.hostName? start) = some field.type) sources fields) :
    fields.mapM (fun field : ProxyField => field.type.extent? state.1.hostExtent?) = some extents := by
  rw [mapM_eq_some_iff]
  induction hextents generalizing fields with
  | nil =>
    cases hhosts
    exact .nil
  | cons hextent _ ih =>
    obtain ⟨field, rest, hhost, hrest, rfl⟩ := List.forall₂_cons_left_iff.mp hhosts
    exact .cons (h.extent?_eq hwidth hextent hhost) (ih hrest)

/-- **What a batch commits is faithful once the batch has gone through.** -/
theorem Progress.faithful (h : Progress batch start batch.structs state)
    (hwidth : start.config.pointerWidth = 8) (hdistinct : (batch.structs.map (·.name)).Nodup)
    (hmem : decl ∈ batch.structs) (hfound : state.2.memo.get? decl.name = some layout)
    (hbody : batch.body start decl entry.model layout = .ok body) :
    Faithful state.1.hostExtent? (describe decl entry layout) body := by
  obtain ⟨decl', extents, hdecl, hextents, hextent, hoffsets, hnames⟩ := h.placed _ _ hfound
  rw [Resolver.declared?_eq (r := batch.resolver start) hdistinct hmem, Option.some.injEq] at hdecl
  subst hdecl
  cases hmodel : entry.model with
  | bytes =>
    rw [hmodel] at hbody
    cases hbody
    have hdvd := reprC_dvd Nat.one_pos (if extents = [] then [⟨1, 1⟩] else extents)
    have hsize := congrArg Extent.size hextent
    have halignment := congrArg Extent.alignment hextent
    constructor
    case extent =>
      refine congrArg some (reprC_bytes ?_ ?_)
      · exact halignment ▸ hdvd.1
      · exact hsize ▸ halignment ▸ hdvd.2
    case offsets => exact fun fields heq => by cases heq
    case native => exact fun fields heq => by cases heq
  | fieldwise =>
    rw [hmodel] at hbody
    obtain ⟨fields, hfields, rfl⟩ := map_eq_ok_iff.mp hbody
    have hlength : layout.fields.length = decl.fields.length := by
      simpa using congrArg List.length hnames
    obtain ⟨hnative, hstated, hhosts⟩ := made_of_proxyFields hlength hfields
    have hmembers := h.mapM_extent? hwidth hextents hhosts
    have hlayout : (describe decl entry layout).hostLayout? state.1.hostExtent? (.fieldwise fields) =
        some (reprC 1 (if extents = [] then [⟨1, 1⟩] else extents)) := by
      cases fields with
      | nil =>
        obtain rfl : [] = extents := by simpa using hmembers
        rfl
      | cons field rest =>
        have hnonempty : extents ≠ [] := by
          intro heq
          subst heq
          have hcount := (mapM_eq_some_iff.mp hmembers).length_eq
          simp at hcount
        rw [ProxyText.hostLayout?, ProxyText.members?, hmembers, if_neg hnonempty]
        · rfl
        · simp
    constructor
    case extent => rw [hlayout, Option.map_some, ← hextent]; rfl
    case offsets =>
      rintro _ ⟨⟩ hnonempty
      have hsome : extents ≠ [] := by
        intro heq
        subst heq
        exact hnonempty (by simpa using (mapM_eq_some_iff.mp hmembers).length_eq)
      rw [hlayout, if_neg hsome, Option.map_some, hstated, hoffsets]
    case native =>
      rintro _ ⟨⟩
      have hpairs := congrArg₂ List.zip (hnames.trans hnative.symm) hstated.symm
      simpa [List.zip_map', describe] using hpairs

theorem Progress.sound (hstart : start.Sound) (h : Progress batch start batch.structs state)
    (hwidth : start.config.pointerWidth = 8) (hdistinct : (batch.structs.map (·.name)).Nodup) :
    state.1.Sound := by
  constructor
  case coherent => exact h.coherent
  case held => exact h.held
  case faithful =>
    intro key rendering hheld
    rcases h.renderings key rendering hheld with
      hold | ⟨decl, entry, layout, body, hmem, rfl, rfl, hfound, hbody⟩
    · obtain ⟨decl, entry, layout, body, hkind, hname, rfl, hfaithful⟩ := hstart.faithful key rendering hold
      exact ⟨decl, entry, layout, body, hkind, hname, rfl,
        hfaithful.mono (h.coherent.hostExtent?_mono h.kept)⟩
    · exact ⟨decl, entry, layout, body, rfl, rfl, rfl, h.faithful hwidth hdistinct hmem hfound hbody⟩

end StructBatch

namespace Session

/-- The sessions that successful batches of structs make of a new one, with the structs rendered so far.
Within a batch names are distinct. -/
inductive StructRun (config : Config) : List StructDecl → Session → Prop
  | new : StructRun config [] { config := config }
  | render {done : List StructDecl} {s : Session} {module : OutputModule} (batch : StructBatch) :
    StructRun config done s → (batch.structs.map (·.name)).Nodup → (batch.render s).2 = .ok module →
    StructRun config (done ++ batch.structs) (batch.render s).1

variable {config : Config} {done : List StructDecl} {s : Session}

theorem sound_new : ({ config := config } : Session).Sound where
  coherent := coherent_of_empty rfl rfl rfl
  faithful _ _ h := by cases h
  held _ _ h := by cases h

theorem progress_of_render {batch : StructBatch} {module : OutputModule} (hs : s.Recorded)
    (hok : (batch.render s).2 = .ok module) :
    ∃ state : Session × Resolver, (batch.render s).1 = state.1 ∧ batch.Progress s batch.structs state :=
  StructBatch.render_induction (.init hs) (fun hmem hprogress hstep => hprogress.step hs hmem hstep) hok

theorem StructRun.sound (hwidth : config.pointerWidth = 8) (hs : StructRun config done s) :
    s.Sound ∧ s.config = config ∧ ∀ decl ∈ done, ∃ proxy, s.proxy? decl.name = some proxy := by
  induction hs with
  | new => exact ⟨sound_new, rfl, by simp⟩
  | render batch _ hdistinct hok ih =>
    obtain ⟨hsound, hconfig, hregistered⟩ := ih
    obtain ⟨state, hstate, hprogress⟩ := progress_of_render hsound.recorded hok
    rw [hstate]
    refine ⟨hprogress.sound hsound (hconfig ▸ hwidth) hdistinct, hprogress.config.trans hconfig, ?_⟩
    intro decl hmem
    rcases List.mem_append.mp hmem with hbefore | hbatch
    · obtain ⟨proxy, hproxy⟩ := hregistered decl hbefore
      exact ⟨proxy, hprogress.kept _ _ hproxy⟩
    · exact hprogress.registered decl hbatch

/-- **Host assertions always hold**: on a target with 64-bit pointers, every struct that a run of successful
batches has committed is remembered, and the emitted type of each is laid out by the host at the size, the
alignment and the offsets that the stored texts state on both sides. -/
theorem StructRun.laidOut_as_stated (hwidth : config.pointerWidth = 8) (hs : StructRun config done s) :
    (∀ decl ∈ done, ∃ key rendering proxy, key.name = decl.name ∧
      s.renderings.get? key = some rendering ∧ rendering.proxy = some proxy ∧
      s.proxy? decl.name = some proxy) ∧
    ∀ key rendering, s.renderings.get? key = some rendering → ∃ decl entry layout body host,
      key.kind = .struct ∧ key.name = decl.name ∧ rendering = StructBatch.written decl entry layout body ∧
      Faithful s.hostExtent? (StructBatch.describe decl entry layout) body ∧
      (StructBatch.describe decl entry layout).hostLayout? s.hostExtent? body = some host ∧
      s.StatesLayout key (StructBatch.describe decl entry layout) body host.toExtent host.offsets layout.offsets ∧
      ∀ fields, body = .fieldwise fields → layout.offsets = (fields.map (·.nativeName)).zip host.offsets := by
  obtain ⟨hsound, -, hregistered⟩ := hs.sound hwidth
  constructor
  · intro decl hmem
    obtain ⟨proxy, hproxy⟩ := hregistered decl hmem
    obtain ⟨key, rendering, hheld, hown⟩ := hsound.held decl.name proxy hproxy
    refine ⟨key, rendering, proxy, ?_, hheld, hown, hproxy⟩
    obtain ⟨other, entry, layout, body, -, hname, rfl, -⟩ := hsound.faithful key rendering hheld
    cases hown
    rw [hname]
    exact hsound.coherent.named decl.name _ hproxy
  · intro key rendering hheld
    obtain ⟨decl, entry, layout, body, hkind, hname, rfl, hfaithful⟩ := hsound.faithful key rendering hheld
    obtain ⟨host, hhost, -⟩ := Option.map_eq_some_iff.mp hfaithful.extent
    have hstates := (hsound.coherent.holds key _ hheld).statesLayout
    exact ⟨decl, entry, layout, body, host, hkind, hname, rfl, hfaithful, hhost, hfaithful.statesLayout hhost hstates⟩

/-! ### A run of two batches -/

namespace Sample

def shapes : StructBatch where
  structs := [
    { name := "Vec", fields := [⟨"x", .ofPrimitive (.floating .f32)⟩, ⟨"y", .ofPrimitive (.floating .f64)⟩] },
    { name := "Blob", fields := [⟨"tag", .ofPrimitive (.integral .u8)⟩,
      ⟨"count", .ofPrimitive (.integral .u16)⟩, ⟨"rest", .array (.ofPrimitive (.integral .u16)) 3⟩] }]
  mapping := Table.ofList [("Vec", { header := "s.h" }), ("Blob", { header := "s.h", model := .bytes })]

def scenes : StructBatch where
  structs := [
    { name := "Scene", fields := [⟨"flag", .ofPrimitive .bool⟩, ⟨"corners", .array (.named "Vec") 3⟩,
      ⟨"blobs", .array (.array (.named "Blob") 2) 2⟩, ⟨"mark", .named "Mark"⟩,
      ⟨"next", .pointer (.named "Scene") true⟩, ⟨"data", .pointer .void false⟩] },
    { name := "Mark", fields := [⟨"nothing", .named "Nothing"⟩, ⟨"id", .ofPrimitive (.integral .i32)⟩] },
    { name := "Nothing", fields := [] }]
  mapping := Table.ofList [("Scene", { header := "s.h" }), ("Mark", { header := "s.h" }),
    ("Nothing", { header := "s.h" })]

def drawn : Session :=
  (scenes.render (shapes.render {}).1).1

end Sample

theorem laidOut_as_stated_drawn :
    StructRun {} (Sample.shapes.structs ++ Sample.scenes.structs) Sample.drawn ∧
    Sample.drawn.renderings.size = 5 ∧ Sample.drawn.hostExtent? "Scene" = some ⟨120, 8⟩ ∧
    (Sample.drawn.fragments.get? ⟨.shim, "static_assert Scene"⟩).map (·.text) =
      some (Text.unlines (nativeAssertionLines "Scene" ⟨120, 8⟩
        [("flag", 0), ("corners", 8), ("blobs", 56), ("mark", 96), ("next", 104), ("data", 112)])) ∧
    ∀ key rendering, Sample.drawn.renderings.get? key = some rendering → ∃ decl entry layout body host,
      key.kind = .struct ∧ key.name = decl.name ∧ rendering = StructBatch.written decl entry layout body ∧
      Faithful Sample.drawn.hostExtent? (StructBatch.describe decl entry layout) body ∧
      (StructBatch.describe decl entry layout).hostLayout? Sample.drawn.hostExtent? body = some host ∧
      Sample.drawn.StatesLayout key (StructBatch.describe decl entry layout) body host.toExtent host.offsets
        layout.offsets ∧
      ∀ fields, body = .fieldwise fields → layout.offsets = (fields.map (·.nativeName)).zip host.offsets := by
  have hshapes : (Sample.shapes.render {}).2.toOption.isSome := by decide +kernel
  have hscenes : (Sample.scenes.render (Sample.shapes.render {}).1).2.toOption.isSome := by decide +kernel
  obtain ⟨_, hshapes⟩ := exists_of_isSome_toOption hshapes
  obtain ⟨_, hscenes⟩ := exists_of_isSome_toOption hscenes
  have hrun : StructRun {} (Sample.shapes.structs ++ Sample.scenes.structs) Sample.drawn :=
    .render Sample.scenes (.render Sample.shapes .new (by decide) hshapes) (by decide) hscenes
  exact ⟨hrun, by decide +kernel, by decide +kernel, by decide +kernel, (hrun.laidOut_as_stated rfl).2⟩

end Session

end HostBinding
