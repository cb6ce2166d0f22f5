import HostBinding.Proofs.Session.Run
import HostBinding.Proofs.StructBinding.Draft

/-!
# Reading a function's texts back

The key of a function holds the spellings of its types, but neither the types nor the host types that store
their values. A draft is what the key leaves open: for every parameter and for the return value the host
type and the way it is handed over, the names that are made from the types, the native side, and whether
the host function is unsafe. All of it shows in the texts.
-/

namespace HostBinding

open Text

def ReturnPlan.asWritten : ReturnPlan → ReturnPlan
  | .void => .void
  | .outParam _ host => .outParam .void host.asWritten
  | .byValue _ host => .byValue .void host.asWritten

namespace FunctionPlan

structure Draft where
  shimName : String
  proxyName : String
  shim : String
  isUnsafe : Bool
  params : List (PassMode × HostType)
  ret : ReturnPlan
deriving DecidableEq

def draft (plan : FunctionPlan) (qualifiers : String) : Draft where
  shimName := plan.shimName
  proxyName := plan.proxyName
  shim := plan.shimText qualifiers
  isUnsafe := plan.isUnsafe
  params := plan.params.map fun param => (param.mode, param.host.asWritten)
  ret := plan.ret.asWritten

structure Readable (plan : FunctionPlan) : Prop where
  idents : ∀ param ∈ plan.params, Within isWordChar param.ident
  hosts : ∀ host ∈ plan.hosts, Within isTypeChar host.spell
  /-- The form of the test is seen from the host type of the result. -/
  truthTest : plan.operator = some .equal →
    plan.truthTest = if plan.ret.host?.map HostType.spell = some "bool" then "" else " != 0"

/-- What two plans of functions with one key have in common. -/
structure SameKey (plan plan' : FunctionPlan) : Prop where
  nativeName : plan.nativeName = plan'.nativeName
  operator : plan.operator = plan'.operator
  params : List.Forall₂ (fun param param' : ParamPlan =>
    param.ident = param'.ident ∧ param.native.spell = param'.native.spell) plan.params plan'.params

variable {plan plan' : FunctionPlan} {r s : String}

def isItemChar (c : Char) : Bool :=
  isTypeChar c || c == '&' || c == ':'

theorem isItemChar_of_isTypeChar {c : Char} (h : isTypeChar c = true) : isItemChar c = true := by
  simp [isItemChar, h]

theorem isItemChar_of_isWordChar {c : Char} (h : isWordChar c = true) : isItemChar c = true :=
  isItemChar_of_isTypeChar (isTypeChar_of_isWordChar h)

theorem ne_empty_of_typed (ident type : String) : ident ++ ": " ++ type ≠ "" := by
  intro h
  have hlength := congrArg (·.toList.length) h
  simp at hlength

theorem item_externParam {param : ParamPlan} (hident : Within isWordChar param.ident)
    (hhost : Within isTypeChar param.host.spell) :
    Within isItemChar (externParam param) ∧ externParam param ≠ "" := by
  have hspell : Within isItemChar param.host.spell := hhost.mono fun _ => isItemChar_of_isTypeChar
  refine ⟨?_, ne_empty_of_typed _ _⟩
  refine ((hident.mono fun _ => isItemChar_of_isWordChar).append (within_of_all (by decide))).append ?_
  rw [externType]
  split
  · exact hspell
  · exact Within.append (within_of_all (by decide)) hspell
  · exact Within.append (within_of_all (by decide)) hspell

theorem item_proxyParam {param : ParamPlan} (hident : Within isWordChar param.ident)
    (hhost : Within isTypeChar param.host.spell) :
    Within isItemChar (proxyParam param) ∧ proxyParam param ≠ "" := by
  have hspell : Within isItemChar param.host.spell := hhost.mono fun _ => isItemChar_of_isTypeChar
  have hname := hident.mono fun _ => isItemChar_of_isWordChar
  rw [proxyParam, String.append_assoc]
  refine ⟨?_, ne_empty_of_typed _ _⟩
  refine (hname.append (within_of_all (by decide))).append (Within.append ?_ hspell)
  split <;> exact within_of_all (by decide)

theorem hosts_of_param (hplan : plan.Readable) {param : ParamPlan} (hmem : param ∈ plan.params) :
    Within isTypeChar param.host.spell :=
  hplan.hosts _ (List.mem_append_left _ (List.mem_map.mpr ⟨param, hmem, rfl⟩))

theorem hosts_of_ret (hplan : plan.Readable) {host : HostType} (hret : plan.ret.host? = some host) :
    Within isTypeChar host.spell :=
  hplan.hosts _ (List.mem_append_right _ (by simp [hret]))

theorem items_externParams (hplan : plan.Readable) :
    ∀ item ∈ plan.externParams, Within isItemChar item ∧ item ≠ "" := by
  intro item hmem
  rw [externParams, List.mem_append] at hmem
  rcases hmem with hout | hparam
  · cases hret : plan.ret with
    | outParam value host =>
      rw [hret] at hout
      rw [List.mem_singleton.mp hout]
      have hhost := hosts_of_ret hplan (show plan.ret.host? = some host by rw [hret]; rfl)
      exact ⟨Within.append (within_of_all (by decide)) (hhost.mono fun _ => isItemChar_of_isTypeChar),
        fun h => absurd (congrArg (·.toList.length) h) (by simp)⟩
    | void =>
      rw [hret] at hout
      cases hout
    | byValue value host =>
      rw [hret] at hout
      cases hout
  · obtain ⟨param, hmem, rfl⟩ := List.mem_map.mp hparam
    exact item_externParam (hplan.idents param hmem) (hosts_of_param hplan hmem)

theorem items_proxyParams (hplan : plan.Readable) :
    ∀ item ∈ plan.params.map proxyParam, Within isItemChar item ∧ item ≠ "" := by
  intro item hmem
  obtain ⟨param, hparam, rfl⟩ := List.mem_map.mp hmem
  exact item_proxyParam (hplan.idents param hparam) (hosts_of_param hplan hparam)

theorem mutableMark_ne {x y : String} (hy : Within isTypeChar y) : "&mut " ++ x ≠ y := by
  intro heq
  subst heq
  have hmark : isTypeChar '&' = true := hy '&' (by simp)
  revert hmark
  decide

theorem param_inj {param param' : ParamPlan} (hident : param.ident = param'.ident)
    (hhost : Within isTypeChar param.host.spell) (hhost' : Within isTypeChar param'.host.spell)
    (hdeclared : externParam param = externParam param') (hproxy : proxyParam param = proxyParam param') :
    (param.mode, param.host.asWritten) = (param'.mode, param'.host.asWritten) := by
  have hspell : param.mode = param'.mode ∧ param.host.spell = param'.host.spell := by
    simp only [externParam, proxyParam, hident, String.append_assoc, String.append_right_inj] at hdeclared hproxy
    have hlonger (mark : String) (hmark : mark ≠ "") : param.host.spell ≠ mark ++ param.host.spell :=
      fun h => hmark ((String.append_left_inj _).mp (String.empty_append.trans h)).symm
    cases hmode : param.mode <;> cases hmode' : param'.mode <;>
      simp only [hmode, hmode', externType, if_true, if_false, reduceCtorEq, String.empty_append,
        String.append_right_inj] at hdeclared hproxy
    case direct.direct | indirect.indirect | mutable.mutable => exact ⟨rfl, hproxy⟩
    case direct.indirect =>
      rw [← hproxy] at hdeclared
      exact absurd hdeclared (hlonger _ (by decide))
    case indirect.direct =>
      rw [← hproxy] at hdeclared
      exact absurd hdeclared.symm (hlonger _ (by decide))
    case direct.mutable | indirect.mutable => exact absurd hproxy.symm (mutableMark_ne hhost)
    case mutable.direct | mutable.indirect => exact absurd hproxy (mutableMark_ne hhost')
  rw [hspell.1, HostType.asWritten, hspell.2, ← HostType.asWritten]

theorem params_inj {params params' : List ParamPlan}
    (hnamed : List.Forall₂ (fun param param' : ParamPlan =>
      param.ident = param'.ident ∧ param.native.spell = param'.native.spell) params params')
    (hhosts : ∀ param ∈ params, Within isTypeChar param.host.spell)
    (hhosts' : ∀ param ∈ params', Within isTypeChar param.host.spell)
    (hdeclared : params.map externParam = params'.map externParam)
    (hproxy : params.map proxyParam = params'.map proxyParam) :
    (params.map fun param => (param.mode, param.host.asWritten)) =
      params'.map fun param => (param.mode, param.host.asWritten) := by
  induction hnamed with
  | nil => rfl
  | @cons param param' rest rest' hparam _ ih =>
    rw [List.map_cons, List.map_cons, List.cons.injEq] at hdeclared hproxy
    rw [List.forall_mem_cons] at hhosts hhosts'
    rw [List.map_cons, List.map_cons, ih hhosts.2 hhosts'.2 hdeclared.2 hproxy.2,
      param_inj hparam.1 hhosts.1 hhosts'.1 hdeclared.1 hproxy.1]

theorem ret_inj (hplan : plan.Readable) (hplan' : plan'.Readable)
    (hlength : plan.params.length = plan'.params.length)
    (hparams : plan.externParams = plan'.externParams)
    (hresult : plan.externResult ++ (";" ++ ("\n" ++ r)) = plan'.externResult ++ (";" ++ ("\n" ++ s))) :
    plan.ret.asWritten = plan'.ret.asWritten ∧
      plan.params.map externParam = plan'.params.map externParam ∧ r = s := by
  have hcount := congrArg List.length hparams
  have hfirst := congrArg (·.toList.head?) hresult
  cases hret : plan.ret with
  | void =>
    cases hret' : plan'.ret with
    | void =>
      simp only [externParams, externResult, hret, hret', List.nil_append, String.append_right_inj]
        at hparams hresult
      exact ⟨rfl, hparams, hresult⟩
    | outParam value host => simp [externParams, hret, hret', hlength] at hcount
    | byValue value host => simp [externResult, arrow, hret, hret'] at hfirst
  | outParam value host =>
    cases hret' : plan'.ret with
    | void => simp [externParams, hret, hret', hlength] at hcount
    | outParam value' host' =>
      simp only [externParams, externResult, hret, hret', List.cons_append, List.nil_append,
        List.cons.injEq, String.append_right_inj] at hparams hresult
      refine ⟨?_, hparams.2, hresult⟩
      rw [ReturnPlan.asWritten, ReturnPlan.asWritten, HostType.asWritten, hparams.1, HostType.asWritten]
    | byValue value host => simp [externParams, hret, hret', hlength] at hcount
  | byValue value host =>
    cases hret' : plan'.ret with
    | void => simp [externResult, arrow, hret, hret'] at hfirst
    | outParam value host => simp [externParams, hret, hret', hlength] at hcount
    | byValue value' host' =>
      simp only [externParams, externResult, hret, hret', List.nil_append, arrow, String.append_assoc,
        String.append_right_inj] at hparams hresult
      have hsemicolon (h : HostType) (hh : Within isTypeChar h.spell) : Within isTypeChar (h.spell ++ ";") :=
        hh.append (within_of_all (by decide))
      have hbreak : StartsOutside isTypeChar "\n" := ⟨'\n', [], rfl, by decide⟩
      obtain ⟨hspell, hrest⟩ := cut
        (hsemicolon host (hosts_of_ret hplan (by rw [hret]; rfl)))
        (hsemicolon host' (hosts_of_ret hplan' (by rw [hret']; rfl)))
        (hbreak.append r) (hbreak.append s)
        (String.append_assoc.trans (hresult.trans String.append_assoc.symm))
      refine ⟨?_, hparams, (String.append_right_inj _).mp hrest⟩
      rw [ReturnPlan.asWritten, ReturnPlan.asWritten, HostType.asWritten,
        (String.append_left_inj _).mp hspell, HostType.asWritten]

/-- The host side shows everything that it is written from. -/
theorem proxyText_inj {header : String} (hplan : plan.Readable) (hplan' : plan'.Readable)
    (hkey : SameKey plan plan') (hshim : plan.shimName = plan'.shimName)
    (hname : plan.proxyName = plan'.proxyName) (h : plan.proxyText header = plan'.proxyText header) :
    plan.isUnsafe = plan'.isUnsafe ∧
    (plan.params.map fun param => (param.mode, param.host.asWritten)) =
      (plan'.params.map fun param => (param.mode, param.host.asWritten)) ∧
    plan.ret.asWritten = plan'.ret.asWritten := by
  simp only [proxyText, externLines, List.append_assoc, List.cons_append, List.nil_append,
    unlines_append, unlines_cons, hshim, String.append_assoc, String.append_right_inj] at h
  obtain ⟨hdeclared, h⟩ := cut_intercalate (by decide) (by decide) (items_externParams hplan)
    (items_externParams hplan') h
  obtain ⟨hret, hparams, h⟩ := ret_inj hplan hplan' hkey.params.length_eq hdeclared h
  have hnatives : plan.params.map (·.native.spell) = plan'.params.map (·.native.spell) :=
    map_eq_map_of_forall₂ hkey.params fun _ _ hparam => hparam.2
  simp only [proxyDocs, unlines_cons, hnatives, hkey.nativeName, String.append_assoc,
    String.append_right_inj] at h
  have hsafety : plan.isUnsafe = plan'.isUnsafe := by
    have hfirst := congrArg (·.toList.head?) h
    cases hu : plan.isUnsafe <;> cases hu' : plan'.isUnsafe <;>
      simp [hu, hu', unlines, proxyHead] at hfirst ⊢
  simp only [proxyHead, hsafety, hname, String.append_assoc, String.append_right_inj] at h
  obtain ⟨hproxy, -⟩ := cut_intercalate (by decide) (by decide) (items_proxyParams hplan)
    (items_proxyParams hplan') h
  exact ⟨hsafety, params_inj hkey.params (fun _ => hosts_of_param hplan)
    (fun _ => hosts_of_param hplan') hparams hproxy, hret⟩

end FunctionPlan

end HostBinding
