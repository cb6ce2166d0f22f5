import Mathlib.Logic.Relation
import HostBinding.Proofs.FunctionBinding.Plan
import HostBinding.Proofs.Session.Committed
import HostBinding.Proofs.StructBinding.Promises

/-!
# Structs that are returned directly

A shim that returns a struct directly leaves it to two compilers to put it where the other one looks for it. Both
go by the scalars that the struct is made of, at any depth, so its host type may not hide them in bytes or give
them another kind. The plan of a function looks at the proxy of the returned struct, and no further. What is
inside the proxy was decided when it was written, and can be read off the declarations that it was written from.
-/

namespace HostBinding

open StructBinding

/-! ### When a value is returned directly -/

namespace FunctionDecl

variable {decl : FunctionDecl} {session : Session} {overloaded : Bool} {plan : FunctionPlan} {value : CType}
  {host : HostType} {name : String}

theorem returnsByValue_eq_true_iff : returnsByValue session value = true ↔
    ∃ limit size, session.config.byValueReturnLimit = some limit ∧ directSize? session value = some size ∧
      size ≤ limit.toNat := by
  cases hlimit : session.config.byValueReturnLimit <;> cases hsize : directSize? session value <;>
    simp [returnsByValue, hlimit, hsize]

theorem directSize?_named_eq_some_iff {size : Nat} : directSize? session (.named name) = some size ↔
    ∃ proxy, session.proxy? name = some proxy ∧ proxy.model = .fieldwise ∧ proxy.size = size := by
  rw [directSize?, Option.bind_eq_some_iff]
  simp only [Option.ite_none_right_eq_some, Option.some.injEq]

theorem ret_eq_byValue_iff (hplan : decl.plan session overloaded = .ok plan) :
    plan.ret = .byValue value host ↔ decl.returnType.isVoid = false ∧ decl.isAssign = false ∧
      decl.returnType.stripReference = value ∧ value.host? session.hostName? = some host ∧
      returnsByValue session value = true := by
  obtain ⟨-, -, hret, -⟩ := plan_eq_ok_iff.mp hplan
  obtain ⟨hvoid, hform⟩ | ⟨hvalue, host', hhost, hform⟩ := planReturn_eq_ok hret
  · rw [hform, Bool.or_eq_true] at *
    constructor
    · rintro ⟨⟩
    · rintro ⟨hno, hno', -⟩
      rw [hno, hno'] at hvoid
      simp at hvoid
  · rw [Bool.or_eq_false_iff] at hvalue
    rw [hform]
    constructor
    · intro hdirect
      split at hdirect
      · rename_i hsmall
        cases hdirect
        exact ⟨hvalue.1, hvalue.2, rfl, hhost, hsmall⟩
      · cases hdirect
    · rintro ⟨-, -, rfl, hhost', hsmall⟩
      rw [if_pos hsmall, Option.some.inj (hhost.symm.trans hhost')]

/-- A struct is returned directly when it has a fieldwise proxy that is small enough. -/
theorem ret_eq_byValue_named_iff (hplan : decl.plan session overloaded = .ok plan) :
    plan.ret = .byValue (.named name) host ↔ decl.isAssign = false ∧
      decl.returnType.stripReference = .named name ∧ ∃ limit proxy, session.config.byValueReturnLimit = some limit ∧
        session.proxy? name = some proxy ∧ proxy.model = .fieldwise ∧ proxy.size ≤ limit.toNat ∧
        host = .proxy proxy.hostName := by
  rw [ret_eq_byValue_iff hplan, returnsByValue_eq_true_iff]
  simp only [directSize?_named_eq_some_iff]
  constructor
  · rintro ⟨-, hassign, hvalue, hhost, limit, size, hlimit, ⟨proxy, hproxy, hmodel, rfl⟩, hsmall⟩
    refine ⟨hassign, hvalue, limit, proxy, hlimit, hproxy, hmodel, hsmall, ?_⟩
    rw [CType.host?, Session.hostName?, hproxy] at hhost
    exact (Option.some.inj hhost).symm
  · rintro ⟨hassign, hvalue, limit, proxy, hlimit, hproxy, hmodel, hsmall, rfl⟩
    refine ⟨?_, hassign, hvalue, ?_, limit, _, hlimit, ⟨proxy, hproxy, hmodel, rfl⟩, hsmall⟩
    · cases htype : decl.returnType <;> simp_all [CType.isVoid, CType.stripReference]
    · rw [CType.host?, Session.hostName?, hproxy]
      rfl

theorem not_isHalf_of_ret_eq_byValue {kind : Primitive} {spelling : String}
    (hplan : decl.plan session overloaded = .ok plan) (hret : plan.ret = .byValue (.primitive kind spelling) host) :
    kind.isHalf = false := by
  obtain ⟨-, -, -, -, hsmall⟩ := (ret_eq_byValue_iff hplan).mp hret
  obtain ⟨-, size, -, hsize, -⟩ := returnsByValue_eq_true_iff.mp hsmall
  by_contra hhalf
  simp [directSize?, hhalf] at hsize

end FunctionDecl

/-! ### What a host struct was written from -/

/-- A struct that a batch has committed, with what it has found for it. -/
structure StructOrigin where
  start : Session
  batch : StructBatch
  decl : StructDecl
  entry : TypeMapping
  layout : StructLayout
  body : ProxyBody

namespace StructOrigin

/-- The declared fields that the host struct has. -/
def placed (origin : StructOrigin) : List FieldDecl :=
  StructBatch.placedFields origin.decl origin.layout

def rendering (origin : StructOrigin) : Rendering :=
  StructBatch.written origin.decl origin.entry origin.layout origin.body

def proxy (origin : StructOrigin) : Proxy :=
  StructBatch.proxyOf origin.decl origin.entry origin.layout

end StructOrigin

namespace Session

variable {config : Config} {past : List (Session × StructBatch)} {s : Session} {name outer inner : String}
  {proxy : Proxy} {origin : StructOrigin}

/-- The host struct of a name was written for a struct by one of the batches. -/
structure Binds (past : List (Session × StructBatch)) (name : String) (origin : StructOrigin) : Prop where
  past : (origin.start, origin.batch) ∈ past
  commits : ∃ before after,
    origin.batch.Commits origin.start before origin.decl after origin.entry origin.rendering
  laidOut : (origin.batch.resolver origin.start).LaysOut origin.decl.name origin.layout
  body : origin.batch.body origin.start origin.decl origin.entry.model origin.layout = .ok origin.body
  called : origin.proxy.hostName = name

theorem History.registered (hs : History config past s) (h : Binds past name origin) :
    s.proxy? origin.decl.name = some origin.proxy := by
  obtain ⟨before, after, hcommits⟩ := h.commits
  exact hs.proxy?_eq_some_iff.mpr
    ⟨origin.start, origin.batch, before, origin.decl, after, _, _, h.past, hcommits, rfl, rfl⟩

theorem History.exists_binds (hs : History config past s) (hproxy : s.proxy? name = some proxy) :
    ∃ origin, Binds past proxy.hostName origin ∧ origin.decl.name = name ∧ origin.proxy = proxy := by
  obtain ⟨start, batch, before, decl, after, entry, rendering, hmem, hcommits, hname, hown⟩ :=
    hs.proxy?_eq_some_iff.mp hproxy
  obtain ⟨layout, body, hlayout, hbody, rfl⟩ := hcommits.exists_written
  cases hown
  refine ⟨⟨start, batch, decl, entry, layout, body⟩, ?_, hname, rfl⟩
  exact ⟨hmem, ⟨before, after, hcommits⟩, hlayout, hbody, rfl⟩

/-! ### What is inside a host struct -/

/-- The host struct of a name stores another one by value, alone or in arrays. -/
def Embeds (past : List (Session × StructBatch)) (outer inner : String) : Prop :=
  ∃ origin, Binds past outer origin ∧ ∃ host ∈ origin.body.hosts, host.element = .proxy inner

/-- The host struct of a name holds nothing but the bytes of the native one. -/
def IsOpaque (s : Session) (name : String) : Prop :=
  ∃ native proxy, s.proxy? native = some proxy ∧ proxy.hostName = name ∧ proxy.model = .bytes

/-- The host struct of a name stores a half float, alone or in arrays, as an integer. -/
def StoresHalf (past : List (Session × StructBatch)) (name : String) : Prop :=
  ∃ origin, Binds past name origin ∧ ∃ host ∈ origin.body.hosts, host.element = .primitive (.floating .f16)

/-- Neither the host struct of a name nor any inside it hides the scalars of the native one. -/
def ShowsScalars (past : List (Session × StructBatch)) (s : Session) (outer : String) : Prop :=
  ∀ inner, Relation.ReflTransGen (Embeds past) outer inner → ¬ s.IsOpaque inner ∧ ¬ StoresHalf past inner

/-- A fieldwise struct has a field of a struct, alone or in arrays, and calls its proxy by a name. -/
def DeclaresInside (past : List (Session × StructBatch)) (outer inner : String) : Prop :=
  ∃ origin, Binds past outer origin ∧ origin.entry.model = .fieldwise ∧ ∃ field ∈ origin.placed,
    ∃ native, field.type.element = .named native ∧ origin.batch.hostName? origin.start native = some inner

/-- The structs that the host structs of a name and inside it were written from are all fieldwise, and declare no
half floats, alone or in arrays. -/
def DeclaresScalars (past : List (Session × StructBatch)) (outer : String) : Prop :=
  ∀ inner, Relation.ReflTransGen (DeclaresInside past) outer inner → ∀ origin, Binds past inner origin →
    origin.entry.model = .fieldwise ∧
    ∀ field ∈ origin.placed, ∀ spelling, field.type.element ≠ .primitive (.floating .f16) spelling

theorem embeds_iff : Embeds past outer inner ↔ DeclaresInside past outer inner :=
  exists_congr fun _ => and_congr_right fun hbinds =>
    StructBatch.exists_host_iff hbinds.body fun _ _ hhost => CType.element_eq_proxy_iff hhost

theorem storesHalf_iff : StoresHalf past name ↔ ∃ origin, Binds past name origin ∧
    origin.entry.model = .fieldwise ∧ ∃ field ∈ origin.placed, ∃ spelling,
      field.type.element = .primitive (.floating .f16) spelling :=
  exists_congr fun _ => and_congr_right fun hbinds =>
    StructBatch.exists_host_iff hbinds.body fun _ _ hhost => CType.element_eq_primitive_iff hhost

theorem History.isOpaque_iff (hs : History config past s) :
    s.IsOpaque name ↔ ∃ origin, Binds past name origin ∧ origin.entry.model = .bytes := by
  constructor
  · rintro ⟨native, proxy, hproxy, rfl, hmodel⟩
    obtain ⟨origin, hbinds, -, rfl⟩ := hs.exists_binds hproxy
    exact ⟨origin, hbinds, hmodel⟩
  · rintro ⟨origin, hbinds, hmodel⟩
    exact ⟨_, _, hs.registered hbinds, hbinds.called, hmodel⟩

/-- The scalars of a host struct are hidden exactly where the declarations that it was written from hide them. -/
theorem History.showsScalars_iff (hs : History config past s) :
    s.ShowsScalars past outer ↔ DeclaresScalars past outer := by
  have hinside : Embeds past = DeclaresInside past := funext₂ fun _ _ => propext embeds_iff
  rw [ShowsScalars, DeclaresScalars, hinside]
  refine forall₂_congr fun inner _ => ?_
  rw [hs.isOpaque_iff, storesHalf_iff]
  constructor
  · rintro ⟨hbytes, hhalf⟩ origin hbinds
    have hmodel : origin.entry.model = .fieldwise := by
      cases horigin : origin.entry.model with
      | fieldwise => rfl
      | bytes => exact absurd ⟨origin, hbinds, horigin⟩ hbytes
    exact ⟨hmodel, fun field hfield spelling helement =>
      hhalf ⟨origin, hbinds, hmodel, field, hfield, spelling, helement⟩⟩
  · intro hdeclared
    constructor
    · rintro ⟨origin, hbinds, hmodel⟩
      rw [(hdeclared origin hbinds).1] at hmodel
      cases hmodel
    · rintro ⟨origin, hbinds, -, field, hfield, spelling, helement⟩
      exact (hdeclared origin hbinds).2 field hfield spelling helement

/-- **When a struct is returned directly, and what this leaves to chance.** In every session that can be reached, a
function returns a struct directly exactly when the struct has a fieldwise proxy that is not larger than the limit;
half floats and opaque proxies are never returned so themselves. The proxy is a host struct that was written for
the struct. It and what it contains, by value and at any depth, are free of opaque proxies and of half floats
exactly when the declarations that they were written from are. -/
theorem History.ret_eq_byValue {decl : FunctionDecl} {overloaded : Bool} {plan : FunctionPlan}
    (hs : History config past s) (hplan : decl.plan s overloaded = .ok plan) :
    (∀ native host, plan.ret = .byValue (.named native) host ↔ decl.isAssign = false ∧
      decl.returnType.stripReference = .named native ∧ ∃ limit proxy, s.config.byValueReturnLimit = some limit ∧
        s.proxy? native = some proxy ∧ proxy.model = .fieldwise ∧ proxy.size ≤ limit.toNat ∧
        host = .proxy proxy.hostName) ∧
    (∀ kind spelling host, plan.ret = .byValue (.primitive kind spelling) host → kind.isHalf = false) ∧
    ∀ native host, plan.ret = .byValue (.named native) host → ∃ name origin, host = .proxy name ∧
      Binds past name origin ∧ origin.decl.name = native ∧ origin.entry.model = .fieldwise ∧
      (s.ShowsScalars past name ↔ DeclaresScalars past name) := by
  refine ⟨fun _ _ => FunctionDecl.ret_eq_byValue_named_iff hplan,
    fun _ _ _ => FunctionDecl.not_isHalf_of_ret_eq_byValue hplan, fun native host hret => ?_⟩
  obtain ⟨-, -, limit, proxy, -, hproxy, hmodel, -, rfl⟩ := (FunctionDecl.ret_eq_byValue_named_iff hplan).mp hret
  obtain ⟨origin, hbinds, hname, rfl⟩ := hs.exists_binds hproxy
  exact ⟨_, origin, rfl, hbinds, hname, hmodel, hs.showsScalars_iff⟩

/-! ### Structs that show their scalars, and structs that hide them -/

namespace Sample

def direct : Config where
  byValueReturnLimit := some 16

def making (name struct : String) : FunctionDecl where
  name := name
  returnType := .named struct

def makingPlan (s : Session) (name struct : String) : FunctionPlan :=
  ((making name struct).plan s false).toOption.getD default

def drawing : Session :=
  (shapes.render { config := direct }).1

def core : StructDecl where
  name := "Core"
  fields := [⟨"x", .ofPrimitive (.floating .f32)⟩]

def shell : StructDecl where
  name := "Shell"
  fields := [⟨"core", .named "Core"⟩]

def half : StructDecl where
  name := "Half"
  fields := [⟨"bits", .ofPrimitive (.floating .f16)⟩]

def hidden : StructBatch where
  structs := [shell, half, core]
  mapping := Table.ofList [("Core", { header := "s.h", model := .bytes }), ("Shell", { header := "s.h" }),
    ("Half", { header := "s.h" })]

def covered : Session :=
  (hidden.render { config := direct }).1

def shellOrigin : StructOrigin where
  start := { config := direct }
  batch := hidden
  decl := shell
  entry := { header := "s.h" }
  layout := {
    size := 4
    alignment := 4
    name := "Shell"
    fields := [{ size := 4, alignment := 4, name := "core", nativeType := "Core", offset := 0 }] }
  body := .fieldwise [{ nativeName := "core", ident := "core", type := .proxy "Core", offset := 0 }]

def halfOrigin : StructOrigin where
  start := { config := direct }
  batch := hidden
  decl := half
  entry := { header := "s.h" }
  layout := {
    size := 2
    alignment := 2
    name := "Half"
    fields := [{ size := 2, alignment := 2, name := "bits", nativeType := "_Float16", offset := 0 }] }
  body := .fieldwise [{ nativeName := "bits", ident := "bits", type := .primitive (.floating .f16), offset := 0 }]

end Sample

theorem binds_of_commits (hpast : (origin.start, origin.batch) ∈ past)
    (hcommits : ∃ before after rendering,
      origin.batch.Commits origin.start before origin.decl after origin.entry rendering)
    (hlayout : (origin.batch.resolver origin.start).LaysOut origin.decl.name origin.layout)
    (hbody : origin.batch.body origin.start origin.decl origin.entry.model origin.layout = .ok origin.body)
    (hcalled : origin.proxy.hostName = name) : Binds past name origin := by
  obtain ⟨before, after, rendering, hcommits⟩ := hcommits
  obtain rfl := hcommits.eq_written hlayout hbody
  exact ⟨hpast, ⟨before, after, hcommits⟩, hlayout, hbody, hcalled⟩

theorem Binds.mem_fields (h : Binds past name origin) :
    origin.decl ∈ origin.batch.structs ∧ origin.batch.mapping.get? origin.decl.name = some origin.entry ∧
      ∀ field ∈ origin.placed, field ∈ origin.decl.fields := by
  obtain ⟨before, after, hcommits⟩ := h.commits
  refine ⟨by simp [hcommits.split], hcommits.mapped, fun field hfield => ?_⟩
  obtain ⟨pair, hpair, rfl⟩ := List.mem_map.mp hfield
  exact (List.of_mem_zip hpair).1

/-- A struct of a float and a double shows them. -/
theorem ret_eq_byValue_vec :
    History Sample.direct [({ config := Sample.direct }, Sample.shapes)] Sample.drawing ∧
    (Sample.making "origin" "Vec").plan Sample.drawing false =
      .ok (Sample.makingPlan Sample.drawing "origin" "Vec") ∧
    (Sample.makingPlan Sample.drawing "origin" "Vec").ret = .byValue (.named "Vec") (.proxy "Vec") ∧
    Sample.drawing.ShowsScalars [({ config := Sample.direct }, Sample.shapes)] "Vec" := by
  have hs : History Sample.direct [({ config := Sample.direct }, Sample.shapes)] Sample.drawing :=
    .structs Sample.shapes .new
  have hplan : (Sample.making "origin" "Vec").plan Sample.drawing false =
      .ok (Sample.makingPlan Sample.drawing "origin" "Vec") := by decide +kernel
  have hret : (Sample.makingPlan Sample.drawing "origin" "Vec").ret =
      .byValue (.named "Vec") (.proxy "Vec") := by decide +kernel
  have hdeclared : ∀ decl ∈ Sample.shapes.structs, ∀ entry ∈ Sample.shapes.mapping.get? decl.name,
      Text.sanitize (entry.hostNameFor decl.name) = "Vec" → entry.model = .fieldwise ∧ ∀ field ∈ decl.fields,
        field.type = .ofPrimitive (.floating .f32) ∨ field.type = .ofPrimitive (.floating .f64) := by
    decide +kernel
  have hvec : ∀ origin, Binds [({ config := Sample.direct }, Sample.shapes)] "Vec" origin →
      origin.entry.model = .fieldwise ∧ ∀ field ∈ origin.placed,
        field.type = .ofPrimitive (.floating .f32) ∨ field.type = .ofPrimitive (.floating .f64) := by
    intro origin hbinds
    obtain ⟨hmem, hentry, hplaced⟩ := hbinds.mem_fields
    obtain ⟨-, hbatch⟩ := Prod.mk.inj (List.mem_singleton.mp hbinds.past)
    rw [hbatch] at hmem hentry
    obtain ⟨hmodel, hfields⟩ := hdeclared _ hmem _ hentry hbinds.called
    exact ⟨hmodel, fun field hfield => hfields field (hplaced field hfield)⟩
  have hnone : ∀ inner, ¬ DeclaresInside [({ config := Sample.direct }, Sample.shapes)] "Vec" inner := by
    rintro inner ⟨origin, hbinds, -, field, hfield, native, helement, -⟩
    rcases (hvec origin hbinds).2 field hfield with heq | heq <;> rw [heq] at helement <;> cases helement
  obtain ⟨-, -, hinside⟩ := hs.ret_eq_byValue hplan
  obtain ⟨name, origin, hhost, -, -, -, hshows⟩ := hinside _ _ hret
  cases hhost
  refine ⟨hs, hplan, hret, hshows.mpr fun inner hinner origin hbinds => ?_⟩
  obtain rfl | ⟨_, hstep, -⟩ := Relation.ReflTransGen.cases_head hinner
  · refine ⟨(hvec origin hbinds).1, fun field hfield spelling helement => ?_⟩
    rcases (hvec origin hbinds).2 field hfield with heq | heq <;> rw [heq] at helement <;> cases helement
  · exact absurd hstep (hnone _)

/-- A struct is returned directly although it contains an opaque one, and another one although it contains a half
float. -/
theorem not_showsScalars_covered :
    History Sample.direct [({ config := Sample.direct }, Sample.hidden)] Sample.covered ∧
    (Sample.making "make_shell" "Shell").plan Sample.covered false =
      .ok (Sample.makingPlan Sample.covered "make_shell" "Shell") ∧
    (Sample.makingPlan Sample.covered "make_shell" "Shell").ret = .byValue (.named "Shell") (.proxy "Shell") ∧
    ¬ Sample.covered.ShowsScalars [({ config := Sample.direct }, Sample.hidden)] "Shell" ∧
    (Sample.making "make_half" "Half").plan Sample.covered false =
      .ok (Sample.makingPlan Sample.covered "make_half" "Half") ∧
    (Sample.makingPlan Sample.covered "make_half" "Half").ret = .byValue (.named "Half") (.proxy "Half") ∧
    ¬ Sample.covered.ShowsScalars [({ config := Sample.direct }, Sample.hidden)] "Half" := by
  have hs : History Sample.direct [({ config := Sample.direct }, Sample.hidden)] Sample.covered :=
    .structs Sample.hidden .new
  have hshell : Binds [({ config := Sample.direct }, Sample.hidden)] "Shell" Sample.shellOrigin :=
    binds_of_commits (List.mem_singleton_self _) ⟨[], [Sample.half, Sample.core], StructBatch.exists_commits rfl
      (by decide +kernel) (by decide +kernel) (by decide +kernel) (by decide +kernel)⟩ ⟨2, by decide +kernel⟩
      (eq_ok_of_toOption_eq_some (by decide +kernel)) (by decide +kernel)
  have hhalf : Binds [({ config := Sample.direct }, Sample.hidden)] "Half" Sample.halfOrigin :=
    binds_of_commits (List.mem_singleton_self _) ⟨[Sample.shell], [Sample.core], StructBatch.exists_commits rfl
      (by decide +kernel) (by decide +kernel) (by decide +kernel) (by decide +kernel)⟩ ⟨1, by decide +kernel⟩
      (eq_ok_of_toOption_eq_some (by decide +kernel)) (by decide +kernel)
  have hcore : Sample.covered.proxy? "Core" = some
      { size := 4, alignment := 4, nativeName := "Core", hostName := "Core", model := .bytes } := by
    decide +kernel
  refine ⟨hs, by decide +kernel, by decide +kernel, fun hshows => ?_, by decide +kernel, by decide +kernel,
    fun hshows => ?_⟩
  · have hembeds : Embeds [({ config := Sample.direct }, Sample.hidden)] "Shell" "Core" :=
      ⟨_, hshell, _, List.mem_singleton_self _, rfl⟩
    exact (hshows "Core" (.single hembeds)).1 ⟨_, _, hcore, rfl, rfl⟩
  · exact (hshows "Half" .refl).2 ⟨_, hhalf, _, List.mem_singleton_self _, rfl⟩

end Session

end HostBinding
