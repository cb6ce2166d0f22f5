import HostBinding.FunctionBinding.Text
import HostBinding.Proofs.CType.RoundTrip
import HostBinding.Proofs.FunctionBinding.Plan

/-!
# Both sides of a shim declare the same parameters

A shim is declared twice, natively and for the host, and called once. The two declarations agree when they
have the same parameters in the same order, and the native type of each, read as a type again, is stored by
the very host type that the host declares. The native side is text whose meaning hangs on where its `const`
stands: behind the target, where it belongs to the pointer that is written next, whatever the target is.
-/

namespace HostBinding

open Text

namespace CType

variable {t : CType} {text text' : List Char}

/-! ### Reading a parameter's type -/

theorem Printable.ofChars_spell (h : t.Printable) (href : t.isReference = false) :
    ofChars t.spell.toList = .ok t :=
  h.ofChars_of_element href (h.ofChars_element href)

/-- The blank between a type and a name is not part of the type. -/
theorem Printable.ofSpelling_blank (h : t.Printable) (href : t.isReference = false) :
    ofSpelling (t.spell ++ " ") = .ok t := by
  have hsolid := (h.sealed href).solid
  rw [ofSpelling, String.toList_append]
  have hcut : outermost (t.spell.toList ++ [' ']) = outermost t.spell.toList := by
    simp only [outermost, hsolid.trim_append_blank, hsolid.trim_eq]
  exact (ofChars_congr hcut).trans (h.ofChars_spell href)

/-- A `const` behind the target belongs to the pointer after it. -/
theorem Printable.ofSpelling_constStar (h : t.Printable) (href : t.isReference = false) :
    ofSpelling (t.spell ++ " const *") = .ok (.pointer t true) := by
  have hsealed := h.sealed href
  have htext : (t.spell ++ " const *").toList = t.spell.toList ++ ' ' :: constWord ++ [' '] ++ ['*'] := by
    simp [constWord]
  have hsolid : Solid (t.spell.toList ++ ' ' :: constWord ++ [' '] ++ ['*']) := by
    simpa using hsealed.solid.append (' ' :: constWord ++ [' ']) (solid_singleton (c := '*') (by decide))
  have hcut := outermost_star hsolid
  rw [splitConst_east hsealed.solid hsealed.plain] at hcut
  rw [ofSpelling, htext]
  exact ofChars_derived hcut (h.ofChars_spell href)

/-- Without one the pointer is not `const`, even when the target starts with a `const` of its own. -/
theorem Printable.ofSpelling_star (h : t.Printable) (href : t.isReference = false) :
    ofSpelling (t.spell ++ " *") = .ok (.pointer t false) := by
  have hsealed := h.sealed href
  have htext : (t.spell ++ " *").toList = t.spell.toList ++ [' '] ++ ['*'] := by simp
  have hsolid : Solid (t.spell.toList ++ [' '] ++ ['*']) := by
    simpa using hsealed.solid.append [' '] (solid_singleton (c := '*') (by decide))
  have hcut := outermost_star hsolid
  rw [splitConst_plain hsealed.solid hsealed.plain hsealed.lead] at hcut
  rw [ofSpelling, htext]
  exact ofChars_derived hcut (h.ofChars_spell href)

/-! ### Values that are passed -/

/-- An array decays to a pointer to its element. -/
theorem Printable.decay {element : CType} {length : UInt64} (h : (CType.array element length).Printable) :
    (CType.pointer element false).Printable where
  leaf := h.leaf
  references := h.references
  arrays a ha := by
    rcases List.mem_cons.mp ha with rfl | hinside
    · exact fun harray => by cases harray
    · exact h.arrays a (List.mem_cons_of_mem _ hinside)
  consts u hu := by
    rcases List.mem_cons.mp hu with rfl | hinside
    · simp [hidesConst]
    · exact h.consts u (List.mem_cons_of_mem _ hinside)

theorem Printable.of_passed? {value : CType} {mode : PassMode} (h : t.Printable)
    (hpassed : t.passed? = some (value, mode)) : value.Printable ∧ value.isReference = false := by
  cases t with
  | void => cases hpassed
  | primitive => cases hpassed; exact ⟨h, rfl⟩
  | named => cases hpassed; exact ⟨h, rfl⟩
  | pointer => cases hpassed; exact ⟨h, rfl⟩
  | array => cases hpassed; exact ⟨h.decay, rfl⟩
  | reference target isConst =>
    have hmem : target ∈ (CType.reference target isConst).inside := List.mem_cons_self
    have hvalue : value = target := by cases isConst <;> cases hpassed <;> rfl
    exact hvalue ▸ ⟨h.of_mem_inside hmem, h.references target hmem⟩

theorem Printable.stripReference (h : t.Printable) :
    t.stripReference.Printable ∧ t.stripReference.isReference = false := by
  cases t with
  | reference target isConst =>
    have hmem : target ∈ (CType.reference target isConst).inside := List.mem_cons_self
    exact ⟨h.of_mem_inside hmem, h.references target hmem⟩
  | _ => exact ⟨h, rfl⟩

/-- A pointer to what can be stored is a pointer to what stores it. -/
theorem host?_pointer {proxyName? : String → Option String} {host : HostType}
    (h : t.host? proxyName? = some host) (isConst : Bool) :
    (CType.pointer t isConst).host? proxyName? = some (.pointer host isConst) := by
  cases t with
  | void => cases h
  | reference => cases h
  | named name =>
    obtain ⟨hostName, hname, rfl⟩ := Option.map_eq_some_iff.mp h
    rw [host?, hname]
    rfl
  | _ => exact congrArg (Option.map (HostType.pointer · isConst)) h

end CType

/-! ### Crossings -/

/-- The host type is the one that stores the type that the native text spells. -/
def Stores (proxyName? : String → Option String) (native host : String) : Prop :=
  ∃ type hostType, CType.ofSpelling native = .ok type ∧ type.host? proxyName? = some hostType ∧
    hostType.spell = host

/-- How the host function fills a parameter of the shim. -/
inductive Handover where
  | result
  | asIs
  | borrowed
deriving DecidableEq

/-- A parameter of a shim: the types that both sides declare it with, and what the host function passes. -/
structure Crossing where
  ident : String
  native : String
  host : String
  handover : Handover

namespace Crossing

def nativeParam (crossing : Crossing) : String :=
  crossing.native ++ crossing.ident

def hostParam (crossing : Crossing) : String :=
  crossing.ident ++ ": " ++ crossing.host

def argument (crossing : Crossing) : String :=
  match crossing.handover with
  | .result => "__retval.as_mut_ptr()"
  | .asIs => crossing.ident
  | .borrowed => "&" ++ crossing.ident

/-- The native text can be cut in one way only into a type and an identifier, and both sides declare the
identifier with the same type. -/
structure Sound (crossing : Crossing) (proxyName? : String → Option String) : Prop where
  ident : isIdentifier crossing.ident.toList = true
  apart : ∃ c, crossing.native.toList.getLast? = some c ∧ isWordChar c = false
  stores : Stores proxyName? crossing.native crossing.host

end Crossing

namespace FunctionPlan

def resultCrossing (value : CType) (host : HostType) : Crossing where
  ident := "retval"
  native := value.spell ++ " *"
  host := "*mut " ++ host.spell
  handover := .result

def crossing (param : ParamPlan) : Crossing where
  ident := param.ident
  native := shimType param
  host := externType param
  handover := if param.mode = .indirect then .borrowed else .asIs

def crossings (plan : FunctionPlan) : List Crossing :=
  let out := match plan.ret with
    | .outParam value host => [resultCrossing value host]
    | _ => []
  out ++ plan.params.map crossing

/-- The type that a shim is declared to return. -/
def shimResult (plan : FunctionPlan) : String :=
  match plan.ret with
  | .byValue value _ => value.spell
  | _ => "void"

variable {plan : FunctionPlan} {proxyName? : String → Option String}

/-! ### Where the texts show them -/

/-- The part stands somewhere in the text. -/
def Shows (text part : String) : Prop :=
  ∃ before after, text = before ++ part ++ after

theorem shows_unlines {lines : List String} {line part : String} (hmem : line ∈ lines)
    (h : Shows line part) : Shows (unlines lines) part := by
  obtain ⟨before, after, rfl⟩ := h
  obtain ⟨first, rest, rfl⟩ := List.append_of_mem hmem
  refine ⟨unlines first ++ before, after ++ "\n" ++ unlines rest, ?_⟩
  rw [unlines_append, unlines_cons]
  simp only [String.append_assoc]

theorem shows_shimText (plan : FunctionPlan) (qualifiers : String) :
    Shows (plan.shimText qualifiers) (plan.shimResult ++ " " ++ plan.shimName ++ "(" ++
      (if plan.shimParams.isEmpty then "void" else ", ".intercalate plan.shimParams) ++ ")") := by
  simp only [shimText]
  generalize (if (trim qualifiers.toList).isEmpty = true then "" else
    String.ofList (trim qualifiers.toList) ++ " ") = spaced
  refine shows_unlines List.mem_cons_self ⟨"extern \"C\" " ++ spaced, " \x7b", ?_⟩
  simp only [shimResult, String.append_assoc]
  rfl

theorem shows_proxyText {line part : String} (hline : line ∈ plan.externLines ++ plan.proxyBody)
    (h : Shows line part) (header : String) : Shows (plan.proxyText header) part := by
  refine shows_unlines ?_ h
  rcases List.mem_append.mp hline with hextern | hbody
  · simp only [List.mem_append, hextern, true_or]
  · simp only [List.mem_append, hbody, true_or, or_true]

theorem shows_externParams (plan : FunctionPlan) (header : String) :
    Shows (plan.proxyText header) ("fn " ++ plan.shimName ++ "(" ++ ", ".intercalate plan.externParams ++
      ")" ++ plan.externResult ++ ";") := by
  refine shows_proxyText (List.mem_append_left _ (List.mem_cons_of_mem _ List.mem_cons_self)) ?_ header
  refine ⟨"    ", "", ?_⟩
  simp only [String.append_assoc, String.append_empty]
  rfl

theorem shows_callArguments (plan : FunctionPlan) (header : String) :
    Shows (plan.proxyText header) (plan.shimName ++ "(" ++ ", ".intercalate plan.callArguments ++ ")") := by
  have hline : ∃ after, "    unsafe \x7b " ++
      (plan.shimName ++ "(" ++ ", ".intercalate plan.callArguments ++ ")") ++ after ∈ plan.proxyBody := by
    cases hret : plan.ret with
    | void => exact ⟨" \x7d;", by simp [proxyBody, hret]⟩
    | byValue value host => exact ⟨" \x7d", by simp [proxyBody, hret]⟩
    | outParam value host => exact ⟨" \x7d;", by simp [proxyBody, hret]⟩
  obtain ⟨after, hline⟩ := hline
  exact shows_proxyText (List.mem_append_right _ hline) ⟨_, _, rfl⟩ header

/-! ### One plan, three lists -/

theorem stores_of_planned {value : CType} {host : HostType} (hvalue : value.Printable)
    (href : value.isReference = false) (hhost : value.host? proxyName? = some host) :
    Stores proxyName? value.spell host.spell ∧ Stores proxyName? (value.spell ++ " ") host.spell ∧
    Stores proxyName? (value.spell ++ " const *") ("*const " ++ host.spell) ∧
    Stores proxyName? (value.spell ++ " *") ("*mut " ++ host.spell) := by
  refine ⟨⟨value, host, hvalue.ofChars_spell href, hhost, rfl⟩,
    ⟨value, host, hvalue.ofSpelling_blank href, hhost, rfl⟩, ?_, ?_⟩
  · exact ⟨_, _, hvalue.ofSpelling_constStar href, CType.host?_pointer hhost true, rfl⟩
  · exact ⟨_, _, hvalue.ofSpelling_star href, CType.host?_pointer hhost false, rfl⟩

theorem sound_crossing {param : ParamPlan} (hident : isIdentifier param.ident.toList = true)
    (hvalue : param.value.Printable) (href : param.value.isReference = false)
    (hhost : param.value.host? proxyName? = some param.host) :
    (crossing param).Sound proxyName? := by
  obtain ⟨-, hdirect, hindirect, hmutable⟩ := stores_of_planned hvalue href hhost
  constructor
  case ident => exact hident
  case apart =>
    cases hmode : param.mode
    case direct => exact ⟨' ', by simp [crossing, shimType, hmode], by decide⟩
    all_goals exact ⟨'*', by simp [crossing, shimType, hmode], by decide⟩
  case stores =>
    cases hmode : param.mode
    case direct => simpa only [crossing, shimType, externType, hmode] using hdirect
    case indirect => simpa only [crossing, shimType, externType, hmode] using hindirect
    case mutable => simpa only [crossing, shimType, externType, hmode] using hmutable

theorem sound_resultCrossing {value : CType} {host : HostType}
    (hstores : Stores proxyName? (value.spell ++ " *") ("*mut " ++ host.spell)) :
    (resultCrossing value host).Sound proxyName? where
  ident := show isIdentifier "retval".toList = true by decide
  apart := ⟨'*', by simp [resultCrossing], by decide⟩
  stores := hstores

/-- The parameters and the result of a shim, as the texts on both sides show them. -/
structure Agrees (plan : FunctionPlan) (proxyName? : String → Option String) : Prop where
  native : ∀ qualifiers, Shows (plan.shimText qualifiers) (plan.shimResult ++ " " ++ plan.shimName ++ "(" ++
    (if plan.crossings.isEmpty then "void" else
      ", ".intercalate (plan.crossings.map (·.nativeParam))) ++ ")")
  host : ∀ header, Shows (plan.proxyText header) ("fn " ++ plan.shimName ++ "(" ++
    ", ".intercalate (plan.crossings.map (·.hostParam)) ++ ")" ++ plan.externResult ++ ";")
  call : ∀ header, Shows (plan.proxyText header) (plan.shimName ++ "(" ++
    ", ".intercalate (plan.crossings.map (·.argument)) ++ ")")
  sound : ∀ crossing ∈ plan.crossings, crossing.Sound proxyName?
  /-- Only an output parameter is called so, and it comes first. -/
  result : ∀ position crossing, plan.crossings[position]? = some crossing →
    (crossing.ident = "retval" ↔ position = 0 ∧ ∃ value host, plan.ret = .outParam value host)
  returned : match plan.ret with
    | .byValue value host => plan.shimResult = value.spell ∧ plan.externResult = " -> " ++ host.spell ∧
        Stores proxyName? value.spell host.spell
    | _ => plan.shimResult = "void" ∧ plan.externResult = ""

theorem argument_crossing (param : ParamPlan) : (crossing param).argument = callArgument param := by
  cases hmode : param.mode <;> simp [crossing, Crossing.argument, callArgument, hmode]

theorem shimParams_eq (plan : FunctionPlan) : plan.shimParams = plan.crossings.map (·.nativeParam) := by
  rw [shimParams, crossings, List.map_append, List.map_map]
  congr 1
  cases plan.ret with
  | outParam value host => simp [resultCrossing, Crossing.nativeParam, String.append_assoc]
  | _ => rfl

theorem externParams_eq (plan : FunctionPlan) : plan.externParams = plan.crossings.map (·.hostParam) := by
  rw [externParams, crossings, List.map_append, List.map_map]
  congr 1
  cases plan.ret with
  | outParam value host => simp [resultCrossing, Crossing.hostParam, ← String.append_assoc]
  | _ => rfl

theorem callArguments_eq (plan : FunctionPlan) : plan.callArguments = plan.crossings.map (·.argument) := by
  rw [callArguments, crossings, List.map_append, List.map_map]
  congr 1
  · cases plan.ret <;> rfl
  · exact List.map_congr_left fun param _ => (argument_crossing param).symm

/-- When no parameter is called like the output parameter, only that one is. -/
theorem ident_eq_retval_iff (hnamed : ∀ param ∈ plan.params, param.ident ≠ "retval") {position : Nat}
    {c : Crossing} (hat : plan.crossings[position]? = some c) :
    c.ident = "retval" ↔ position = 0 ∧ ∃ value host, plan.ret = .outParam value host := by
  have hothers : ∀ c ∈ plan.params.map crossing, c.ident ≠ "retval" := List.forall_mem_map.mpr hnamed
  cases hret : plan.ret with
  | outParam value host =>
    simp only [crossings, hret, List.singleton_append] at hat
    cases position with
    | zero =>
      cases hat
      simp [resultCrossing]
    | succ position => simp [hothers c (List.mem_of_getElem? hat)]
  | _ =>
    simp only [crossings, hret, List.nil_append] at hat
    simp [hothers c (List.mem_of_getElem? hat)]

theorem returned_eq (plan : FunctionPlan) : match plan.ret with
    | .byValue value host => plan.shimResult = value.spell ∧ plan.externResult = " -> " ++ host.spell
    | _ => plan.shimResult = "void" ∧ plan.externResult = "" := by
  cases hret : plan.ret <;> simp [shimResult, externResult, arrow, hret]

end FunctionPlan

namespace FunctionDecl

open FunctionPlan

variable {decl : FunctionDecl} {session : Session} {overloaded : Bool} {plan : FunctionPlan}

theorem sound_of_planParam {planned : List ParamPlan} {param : ParamDecl} {paramPlan : ParamPlan}
    (htype : param.type.Printable) (h : decl.planParam session planned param = .ok paramPlan) :
    (crossing paramPlan).Sound session.hostName? ∧ paramPlan.ident ≠ "retval" := by
  obtain ⟨value, mode, host, hpassed, hhost, rfl⟩ := planParam_eq_ok_iff.mp h
  obtain ⟨hvalue, href⟩ := htype.of_passed? hpassed
  obtain ⟨hident, hfree⟩ := paramIdent_sound param.name planned.length (planned.map (·.ident))
  refine ⟨sound_crossing hident hvalue href hhost, fun heq => hfree ?_⟩
  rw [show paramIdent param.name planned.length (planned.map (·.ident)) = "retval" from heq]
  exact List.mem_cons_self

theorem sound_of_planParams (hparams : ∀ param ∈ decl.params, param.type.Printable)
    (h : decl.planParams session [] decl.params = .ok plan.params) :
    ∀ param ∈ plan.params, (crossing param).Sound session.hostName? ∧ param.ident ≠ "retval" := by
  have hplanned : List.Forall₂ (fun (param : ParamDecl) (paramPlan : ParamPlan) =>
      param.type.Printable → (crossing paramPlan).Sound session.hostName? ∧ paramPlan.ident ≠ "retval")
      decl.params plan.params :=
    forall₂_of_planParams (fun _ _ _ hparam htype => sound_of_planParam htype hparam) .nil h
  have hboth := (List.forall₂_and_left _ _).mpr ⟨hparams, hplanned⟩
  exact forall_mem_of_forall₂ hboth fun param paramPlan hpair => hpair.2 hpair.1

theorem stores_of_planReturn (hret : decl.returnType.Printable)
    (h : decl.planReturn session = .ok plan.ret) {value : CType} {host : HostType}
    (htypes : plan.ret.types? = some (value, host)) :
    Stores session.hostName? value.spell host.spell ∧
    Stores session.hostName? (value.spell ++ " *") ("*mut " ++ host.spell) := by
  obtain ⟨-, hvoid⟩ | ⟨-, stored, hstored, heq⟩ := planReturn_eq_ok h
  · rw [hvoid] at htypes
    cases htypes
  · have hpair : value = decl.returnType.stripReference ∧ host = stored := by
      rw [heq] at htypes
      split at htypes <;> cases htypes <;> exact ⟨rfl, rfl⟩
    obtain ⟨rfl, rfl⟩ := hpair
    obtain ⟨hvalue, href⟩ := hret.stripReference
    obtain ⟨hplain, -, -, hmutable⟩ := stores_of_planned hvalue href hstored
    exact ⟨hplain, hmutable⟩

/-- **The two declarations of a shim and the call of it agree**, whatever is planned for a function of
printable types. -/
theorem agrees_of_plan (hplan : decl.plan session overloaded = .ok plan)
    (hparams : ∀ param ∈ decl.params, param.type.Printable) (hret : decl.returnType.Printable) :
    plan.Agrees session.hostName? := by
  obtain ⟨-, hplanParams, hplanReturn, -⟩ := plan_eq_ok_iff.mp hplan
  have hsound := sound_of_planParams hparams hplanParams
  have hreturn := @stores_of_planReturn decl session plan hret hplanReturn
  constructor
  case native =>
    intro qualifiers
    simpa only [shimParams_eq, List.isEmpty_map] using shows_shimText plan qualifiers
  case host =>
    intro header
    exact externParams_eq plan ▸ shows_externParams plan header
  case call =>
    intro header
    exact callArguments_eq plan ▸ shows_callArguments plan header
  case sound =>
    cases hret : plan.ret with
    | outParam value host =>
      rw [hret] at hreturn
      simp only [crossings, hret, List.singleton_append, List.forall_mem_cons, List.forall_mem_map]
      exact ⟨sound_resultCrossing (hreturn rfl).2, fun param hmem => (hsound param hmem).1⟩
    | _ =>
      simp only [crossings, hret, List.nil_append, List.forall_mem_map]
      exact fun param hmem => (hsound param hmem).1
  case result => exact fun position crossing => ident_eq_retval_iff fun param hmem => (hsound param hmem).2
  case returned =>
    have htexts := returned_eq plan
    cases hret : plan.ret with
    | byValue value host =>
      rw [hret] at htexts hreturn
      exact ⟨htexts.1, htexts.2, (hreturn rfl).1⟩
    | _ =>
      rw [hret] at htexts
      exact htexts

namespace Sample

def registered : Session where
  proxies := Table.ofList [("Foo", {
    size := 8
    alignment := 4
    nativeName := "Foo"
    hostName := "FooProxy"
    model := .fieldwise })]

def mix : FunctionDecl where
  name := "mix"
  returnType := .reference (.named "Foo") true
  params := [⟨some "count", .primitive (.integral .u32) "unsigned int"⟩,
    ⟨some "retval", .named "Foo"⟩,
    ⟨some "type", .primitive (.floating .f16) "half"⟩,
    ⟨none, .reference (.pointer (.named "Foo") true) true⟩,
    ⟨some "rows", .reference (.array (.pointer (.named "Handle") true) 3) false⟩,
    ⟨some "cells", .array (.array (.primitive (.integral .i32) "int") 2) 4⟩]

def mixPlan : FunctionPlan :=
  (mix.plan registered false).toOption.getD default

end Sample

theorem agrees_of_plan_mix :
    Sample.mix.plan Sample.registered false = .ok Sample.mixPlan ∧
    (∀ param ∈ Sample.mix.params, param.type.Printable) ∧ Sample.mix.returnType.Printable ∧
    Sample.mixPlan.Agrees Sample.registered.hostName? := by
  have hplan : Sample.mix.plan Sample.registered false = .ok Sample.mixPlan := by decide +kernel
  have hparams : ∀ param ∈ Sample.mix.params, param.type.Printable := by decide +kernel
  have hret : Sample.mix.returnType.Printable := by decide +kernel
  exact ⟨hplan, hparams, hret, agrees_of_plan hplan hparams hret⟩

example : Sample.mixPlan.shimParams.zip Sample.mixPlan.externParams =
    [("Foo *retval", "retval: *mut FooProxy"), ("unsigned int count", "count: u32"),
      ("Foo const *arg1", "arg1: *const FooProxy"), ("half const *arg2", "arg2: *const u16"),
      ("const Foo * const *arg3", "arg3: *const *const FooProxy"),
      ("const Handle *[3] *rows", "rows: *mut [*const c_void; 3]"),
      ("int[2] * cells", "cells: *mut [i32; 2]")] := by
  decide +kernel

end FunctionDecl

end HostBinding
