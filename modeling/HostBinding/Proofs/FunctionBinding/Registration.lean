import HostBinding.Proofs.FunctionBinding.Draft
import HostBinding.Proofs.FunctionBinding.Pointee
import HostBinding.Proofs.FunctionBinding.Symbols

/-!
# What an operator is registered under

An operator implements a host trait for the host types of its operands. The head of the implementation says no
more and no less than that, and no name of a function looks like it. Operators of one kind on the same operands are
registered under the same, also when more proxies have been added between them: operands hold no pointers, so all
the structs that they are made from had their proxies before.
-/

namespace HostBinding

open Text

/-- A host trait and the host types of the operands. -/
structure Registration where
  hostTrait : OperatorTrait
  operands : List String
deriving DecidableEq, Repr

def FunctionPlan.registration (plan : FunctionPlan) (operator : Operator) : Registration where
  hostTrait := operator.hostTrait
  operands := plan.params.map (·.host.spell)

/-! ### Heads of implementations -/

namespace FunctionPlan

variable {plan plan' : FunctionPlan} {operator operator' : Operator}

theorem exists_implHead_eq (harity : plan.params.length = operator.arity) :
    (∃ left, plan.params = [left] ∧
      plan.implHead operator = "impl " ++ (operator.hostTrait.name ++ (" for " ++ left.host.spell))) ∨
    ∃ left right, plan.params = [left, right] ∧
      plan.implHead operator = "impl " ++ (operator.hostTrait.name ++
        ("<" ++ (right.host.spell ++ ("> for " ++ left.host.spell)))) := by
  have hlength : plan.params.length = 1 ∨ plan.params.length = 2 := by
    rw [harity]
    cases operator <;> simp [Operator.arity]
  rcases hlength with hone | htwo
  · obtain ⟨left, hparams⟩ := List.length_eq_one_iff.mp hone
    refine .inl ⟨left, hparams, ?_⟩
    simp [implHead, operandHost, hparams, String.append_assoc]
  · obtain ⟨left, right, hparams⟩ := List.length_eq_two.mp htwo
    refine .inr ⟨left, right, hparams, ?_⟩
    simp [implHead, operandHost, hparams, String.append_assoc]

theorem within_traitName (operator : Operator) : Within isWordChar operator.hostTrait.name :=
  within_of_all ((show ∀ operator ∈ Operator.all, operator.hostTrait.name.toList.all isWordChar = true by decide)
    operator operator.mem_all)

/-- The head of an implementation can be read back. -/
theorem registration_eq_of_implHead_eq (harity : plan.params.length = operator.arity)
    (harity' : plan'.params.length = operator'.arity) (hplan : plan.Readable) (hplan' : plan'.Readable)
    (h : plan.implHead operator = plan'.implHead operator') :
    plan.registration operator = plan'.registration operator' := by
  have hfor (text : String) : StartsOutside isWordChar (" for " ++ text) :=
    StartsOutside.append ⟨' ', _, rfl, rfl⟩ text
  have hopen (text : String) : StartsOutside isWordChar ("<" ++ text) :=
    StartsOutside.append ⟨'<', _, rfl, rfl⟩ text
  have hclose (text : String) : StartsOutside isTypeChar ("> for " ++ text) :=
    StartsOutside.append ⟨'>', _, rfl, rfl⟩ text
  have hmixed (text text' : String) : " for " ++ text ≠ "<" ++ text' := fun heq =>
    absurd (congrArg (·.toList.head?) heq) (by simp)
  have htrait {rest rest' : String} (hrest : StartsOutside isWordChar rest) (hrest' : StartsOutside isWordChar rest')
      (heq : operator.hostTrait.name ++ rest = operator'.hostTrait.name ++ rest') :
      operator.hostTrait = operator'.hostTrait ∧ rest = rest' := by
    obtain ⟨hname, hsame⟩ := cut (within_traitName _) (within_traitName _) hrest hrest' heq
    exact ⟨Operator.hostTrait_eq_of_name_eq hname, hsame⟩
  rcases exists_implHead_eq harity with ⟨left, hparams, hhead⟩ | ⟨left, right, hparams, hhead⟩ <;>
    rcases exists_implHead_eq harity' with ⟨left', hparams', hhead'⟩ | ⟨left', right', hparams', hhead'⟩ <;>
    rw [hhead, hhead', String.append_right_inj] at h <;>
    rw [registration, registration, hparams, hparams']
  case inl.inl =>
    obtain ⟨htrait, hsame⟩ := htrait (hfor _) (hfor _) h
    rw [htrait, List.map_singleton, List.map_singleton, (String.append_right_inj _).mp hsame]
  case inl.inr =>
    exact absurd (htrait (hfor _) (hopen _) h).2 (hmixed _ _)
  case inr.inl =>
    exact absurd (htrait (hopen _) (hfor _) h).2.symm (hmixed _ _)
  case inr.inr =>
    obtain ⟨htrait, hsame⟩ := htrait (hopen _) (hopen _) h
    have hright := hosts_of_param hplan (hparams ▸ List.mem_cons_of_mem _ List.mem_cons_self)
    have hright' := hosts_of_param hplan' (hparams' ▸ List.mem_cons_of_mem _ List.mem_cons_self)
    obtain ⟨hright, hsame⟩ := cut hright hright' (hclose _) (hclose _) ((String.append_right_inj _).mp hsame)
    rw [String.append_right_inj] at hsame
    simp only [List.map_cons, List.map_nil, htrait, hright, hsame]

theorem blank_mem_implHead (plan : FunctionPlan) (operator : Operator) : ' ' ∈ (plan.implHead operator).toList := by
  simp [implHead]

end FunctionPlan

/-! ### Names of functions -/

namespace CType

theorem within_mangle (type : CType) : Within isWordChar type.mangle := by
  have hmark {mark : String} {target : CType} (hmark : mark.toList.all isWordChar = true)
      (htarget : Within isWordChar target.mangle) : Within isWordChar (mark ++ target.mangle) :=
    (within_of_all hmark).append htarget
  induction type with
  | void => exact within_of_all (by decide)
  | primitive kind spelling =>
    refine within_of_all ?_
    rw [mangle]
    cases kind with
    | bool => decide
    | integral kind => cases kind <;> decide
    | floating kind => cases kind <;> decide
  | named name => exact within_sanitize name
  | pointer target isConst ih => cases isConst <;> exact hmark (by decide) ih
  | reference target isConst ih => cases isConst <;> exact hmark (by decide) ih
  | array element length ih =>
    have hlength : Within isWordChar (toString length.toNat) :=
      (within_toString length.toNat).mono fun c hc => by simp [isWordChar, Char.isAlphanum, hc]
    exact ((Within.append (within_of_all (by decide)) hlength).append (within_of_all (by decide))).append ih

theorem within_mangleAll (types : List CType) : Within isWordChar (mangleAll types) := by
  have hjoined (texts : List String) (h : ∀ text ∈ texts, Within isWordChar text) :
      Within isWordChar ("_".intercalate texts) := by
    induction texts with
    | nil => exact within_of_all (by decide)
    | cons text rest ih =>
      have htext := h text List.mem_cons_self
      cases rest with
      | nil => simpa using htext
      | cons second rest =>
        rw [String.intercalate_cons_cons]
        exact (htext.append (within_of_all (by decide))).append (ih fun t ht => h t (List.mem_cons_of_mem _ ht))
  cases types with
  | nil => exact within_of_all (by decide)
  | cons type rest =>
    refine hjoined _ fun text hmem => ?_
    obtain ⟨other, -, rfl⟩ := List.mem_map.mp hmem
    exact within_mangle other

end CType

namespace FunctionDecl

variable {decl decl' : FunctionDecl} {session session' : Session} {overloaded overloaded' : Bool}
  {plan plan' : FunctionPlan} {operator : Operator}

theorem within_stem (decl : FunctionDecl) : Within isWordChar decl.stem := by
  rw [stem]
  split
  · rename_i operator _
    have hmnemonic : ∀ operator ∈ Operator.all, operator.mnemonic.toList.all isWordChar = true := by decide
    exact (within_of_all (by decide)).append (within_of_all (hmnemonic operator operator.mem_all))
  · exact within_sanitize decl.name

theorem within_mangledName (decl : FunctionDecl) : Within isWordChar decl.mangledName :=
  (decl.within_stem.append (within_of_all (by decide))).append (CType.within_mangleAll _)

theorem blank_notMem_proxyName (decl : FunctionDecl) (overloaded : Bool) :
    ' ' ∉ (decl.proxyName overloaded).toList := by
  have hwords {text : String} (h : Within isWordChar text) : ' ' ∉ text.toList := fun hmem =>
    absurd (h ' ' hmem) (by decide)
  rw [proxyName]
  split
  · exact hwords decl.within_mangledName
  · rw [escapeKeyword]
    split
    · exact hwords (decl.within_stem.append (within_of_all (by decide)))
    · split
      · rw [String.toList_append, List.mem_append, not_or]
        exact ⟨by decide, hwords decl.within_stem⟩
      · exact hwords decl.within_stem

theorem stem_eq_of_escapeKeyword_eq (hoperator : decl.operator = some operator) {name : String}
    (h : escapeKeyword name = decl.mangledName) : name = decl.mangledName := by
  have hfirst : decl.mangledName.toList.head? = some 'o' := by
    simp [mangledName, stem, hoperator]
  revert h
  rw [escapeKeyword]
  split
  · rename_i hpath
    intro h
    have hpaths : ∀ path ∈ pathKeywords, (path ++ "_").toList.head? ≠ some 'o' := by decide
    rw [← h] at hfirst
    exact absurd hfirst (hpaths name (by simpa using hpath))
  · split
    · intro h
      rw [← h] at hfirst
      simp [rawMark] at hfirst
    · exact fun h => h

/-! ### Registrations -/

theorem length_params_of_plan (hplan : decl.plan session overloaded = .ok plan)
    (hoperator : decl.operator = some operator) : plan.params.length = operator.arity := by
  obtain ⟨harity, hparams, -⟩ := plan_eq_ok_iff.mp hplan
  have hlength := (forall₂_of_planParams (R := fun _ _ => True) (fun _ _ _ _ => trivial) .nil hparams).length_eq
  rw [checkArity, hoperator] at harity
  rw [← hlength, List.nil_append]
  by_cases h : decl.params.length = operator.arity
  · exact h
  · simp [h] at harity

end FunctionDecl

namespace CType

/-- The host type of an operand, as it is written. -/
def operandSpell? (proxyName? : String → Option String) (type : CType) : Option String :=
  type.passed?.bind fun passed => (passed.1.host? proxyName?).map HostType.spell

theorem host?_canonical (proxyName? : String → Option String) (type : CType) :
    type.canonical.host? proxyName? = type.host? proxyName? := by
  induction type with
  | pointer target isConst ih => cases target <;> simp_all [canonical, host?, ofPrimitive]
  | array element length ih => rw [canonical, host?, host?, ih]
  | _ => rfl

theorem operandSpell?_canonical (proxyName? : String → Option String) (type : CType) :
    type.canonical.operandSpell? proxyName? = type.operandSpell? proxyName? := by
  cases type with
  | reference target isConst => cases isConst <;> simp [operandSpell?, canonical, passed?, host?_canonical]
  | pointer target isConst =>
    have h := host?_canonical proxyName? (.pointer target isConst)
    simp only [canonical] at h
    simp [operandSpell?, canonical, passed?, h]
  | array element length =>
    have h := host?_canonical proxyName? (.pointer element false)
    simp only [canonical] at h
    simp [operandSpell?, canonical, passed?, h]
  | _ => rfl

theorem pointees_eq_nil {type : CType} (h : type.containsPointer = false) : type.pointees = [] := by
  induction type with
  | pointer => simp [containsPointer] at h
  | array element length ih => exact ih h
  | _ => rfl

end CType

namespace FunctionDecl

variable {decl decl' : FunctionDecl} {session session' : Session} {overloaded overloaded' : Bool}
  {plan plan' : FunctionPlan} {operator : Operator}

/-- The host types of an operator's operands stay the same when proxies are added. -/
theorem operandSpell?_of_plan (hplan : decl.plan session overloaded = .ok plan)
    (hoperator : decl.operator = some operator)
    (hmore : ∀ name proxy, session.proxy? name = some proxy → session'.proxy? name = some proxy) :
    decl.operands.map (CType.operandSpell? session'.hostName?) =
      plan.params.map fun param => some param.host.spell := by
  obtain ⟨-, hparams, -, hcheck, -⟩ := plan_eq_ok_iff.mp hplan
  have hvalue := (checkOperator_eq_ok_iff.mp (hcheck operator hoperator)).1
  have hplanned := forall₂_of_planParams (R := fun param paramPlan => paramPlan.value.containsPointer = false →
      param.type.operandSpell? session'.hostName? = some paramPlan.host.spell)
    (fun planned param paramPlan hparam hplain => by
      obtain ⟨value, mode, host, hpassed, hhost, rfl⟩ := planParam_eq_ok_iff.mp hparam
      obtain ⟨host', hhost', hiff⟩ := CType.host?_mono (hostName?_mono hmore) hhost
      have hsame : host'.spell = host.spell := hiff.mpr (by simp [SamePointees, CType.pointees_eq_nil hplain])
      rw [CType.operandSpell?, hpassed, Option.bind_some, hhost', Option.map_some, hsame]) .nil hparams
  refine List.ext_getElem (by simpa [operands] using hplanned.length_eq) fun index hindex hindex' => ?_
  simp only [operands, List.map_map, List.length_map] at hindex hindex'
  simpa [operands] using hplanned.get hindex hindex' (hvalue _ (List.getElem_mem hindex'))

theorem registration_eq_of_sameOperands (hplan : decl.plan session overloaded = .ok plan)
    (hplan' : decl'.plan session' overloaded' = .ok plan') (hoperator : decl.operator = some operator)
    (hoperator' : decl'.operator = some operator)
    (hmore : ∀ name proxy, session.proxy? name = some proxy → session'.proxy? name = some proxy)
    (hsame : decl.SameOperands decl') : plan.registration operator = plan'.registration operator := by
  have hcanonical (decl : FunctionDecl) :
      (decl.operands.map CType.canonical).map (CType.operandSpell? session'.hostName?) =
        decl.operands.map (CType.operandSpell? session'.hostName?) := by
    rw [List.map_map]
    exact List.map_congr_left fun type _ => CType.operandSpell?_canonical _ type
  have hspells : (plan.params.map fun param => some param.host.spell) =
      plan'.params.map fun param => some param.host.spell := by
    rw [← operandSpell?_of_plan hplan hoperator hmore, ← operandSpell?_of_plan hplan' hoperator' fun _ _ h => h,
      ← hcanonical decl, ← hcanonical decl', hsame]
  rw [FunctionPlan.registration, FunctionPlan.registration, Registration.mk.injEq]
  refine ⟨rfl, List.map_injective_iff.mpr (Option.some_injective _) ?_⟩
  simpa [Function.comp_def] using hspells

end FunctionDecl

end HostBinding
