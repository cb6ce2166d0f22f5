import HostBinding.Proofs.FunctionBinding.Registration
import HostBinding.Proofs.Session.Origin

/-!
# What an operator takes over

Only an operator can take over a fragment of another declaration, and only where the last one wins. It writes three
fragments, and for each it is the name alone that decides. The head of an implementation says what the operator is
registered under, so the implementation replaces that of an operator with the same registration. The host function
and the shim are named by a symbol, which another declaration may have for another reason: a plain function whose
name goes on like the symbol of an operator, or an operator one of whose operands is a struct with such a name.
-/

namespace HostBinding

namespace Call

def registration? : Call → Option Registration
  | struct _ _ _ _ => none
  | function batch session decl => decl.operator.bind fun operator =>
    (decl.plan session (batch.isOverloaded decl)).toOption.map (·.registration operator)

/-- A call for a declaration that has the symbol of an operator, or a host function that is named so. -/
def SharesSymbol (config : Config) (decl : FunctionDecl) : Call → Prop
  | struct _ _ other _ => "static_assert " ++ other.name = config.shimStart ++ decl.mangledName
  | function batch _ other => other.mangledName = decl.mangledName ∨
    other.operator = none ∧ batch.isOverloaded other = false ∧ other.stem = decl.mangledName

/-- A call for an operator whose symbol can be told from that of another one: the names of their structs are
separable, and neither stem hides operands of the other. -/
def ToldApart (decl : FunctionDecl) : Call → Prop
  | struct _ _ _ _ => False
  | function _ _ other => other.operator.isSome = true ∧
    CType.Separable (other.structNames ++ decl.structNames) ∧ ¬other.Hides decl ∧ ¬decl.Hides other

variable {config : Config} {s s' : Session} {id : FragmentId} {stored : Stored} {origin : Call}
  {batch batch' : FunctionBatch} {decl decl' : FunctionDecl} {plan plan' : FunctionPlan} {operator operator' : Operator}
  {overloaded overloaded' : Bool} {rendering : Rendering} {fragment : Fragment}

theorem registration?_eq (hplan : decl.plan s (batch.isOverloaded decl) = .ok plan)
    (hoperator : decl.operator = some operator) :
    (function batch s decl).registration? = some (plan.registration operator) := by
  rw [registration?, hoperator, Option.bind_some, hplan]
  rfl

/-! ### The names that a call writes -/

theorem name_of_function (hplan : decl.plan s overloaded = .ok plan)
    (hmem : fragment ∈ (batch.rendering config plan).owned) :
    fragment.toFragmentId = ⟨.functionBinding, decl.proxyName overloaded⟩ ∨
    (∃ operator, decl.operator = some operator ∧
      fragment.toFragmentId = ⟨.functionBinding, plan.implHead operator⟩) ∨
    fragment.toFragmentId = ⟨.shim, s.config.shimStart ++ decl.mangledName⟩ := by
  obtain ⟨-, -, -, -, -, hoperator, hshimName, hproxyName⟩ := FunctionDecl.plan_eq_ok_iff.mp hplan
  rw [FunctionBatch.owned_rendering, hoperator] at hmem
  simp only [List.cons_append, List.mem_cons, List.mem_append, List.mem_map, Option.mem_toList, List.not_mem_nil,
    or_false] at hmem
  rcases hmem with rfl | ⟨operator, hop, rfl⟩ | rfl
  · exact .inl (by rw [hproxyName])
  · exact .inr (.inl ⟨operator, hop, rfl⟩)
  · exact .inr (.inr (by rw [hshimName]))

theorem Wrote.name (h : origin.Wrote config s id stored) :
    (∃ batch state decl entry, origin = struct batch state decl entry ∧
      (id.kind = .structBinding ∨ id = ⟨.shim, "static_assert " ++ decl.name⟩)) ∨
    ∃ batch session decl plan, origin = function batch session decl ∧
      decl.plan session (batch.isOverloaded decl) = .ok plan ∧
      (id = ⟨.functionBinding, decl.proxyName (batch.isOverloaded decl)⟩ ∨
        (∃ operator, decl.operator = some operator ∧ id = ⟨.functionBinding, plan.implHead operator⟩) ∨
        id = ⟨.shim, config.shimStart ++ decl.mangledName⟩) := by
  obtain ⟨rendering, hbuild, howned⟩ := h.built
  have hconfig := h.occurs.traced.configured
  cases origin with
  | struct batch state decl entry =>
    obtain ⟨⟨_, resolver⟩, hstruct, rfl⟩ := map_eq_ok_iff.mp hbuild
    obtain ⟨layout, body, -, -, rfl⟩ := StructBatch.build_eq_ok_iff.mp hstruct
    refine .inl ⟨batch, state, decl, entry, rfl, (StructBatch.binding_or_shim_of_mem_owned howned).imp_left ?_⟩
    exact fun ⟨hbinding, _⟩ => congrArg FragmentId.kind hbinding
  | function batch session decl =>
    obtain ⟨plan, hplan, rfl⟩ := FunctionBatch.build_eq_ok_iff.mp hbuild
    refine .inr ⟨batch, session, decl, plan, rfl, hplan, ?_⟩
    rw [← hconfig]
    exact name_of_function hplan howned

/-! ### What is taken over -/

theorem Wrote.registration_of_implHead (h : origin.Wrote config s id stored)
    (hnames : ∀ name proxy, s.proxy? name = some proxy → Text.Within Text.isWordChar proxy.hostName)
    (hplan : decl.plan s overloaded = .ok plan) (hoperator : decl.operator = some operator)
    (hid : id = ⟨.functionBinding, plan.implHead operator⟩) :
    origin.registration? = some (plan.registration operator) := by
  subst hid
  rcases h.name with ⟨_, _, _, _, -, hname⟩ | ⟨batch', session, decl', plan', rfl, hplan', hname⟩
  · simp at hname
  · rcases hname with hproxy | ⟨operator', hoperator', himpl⟩ | hshim
    · have hname : plan.implHead operator = _ := congrArg FragmentId.name hproxy
      have hblank := plan.blank_mem_implHead operator
      rw [hname] at hblank
      exact absurd hblank (decl'.blank_notMem_proxyName _)
    · have hname : plan.implHead operator = plan'.implHead operator' := congrArg FragmentId.name himpl
      have hreadable := FunctionDecl.readable_of_plan hnames hplan
      have hreadable' := FunctionDecl.readable_of_plan h.occurs.traced.hostName hplan'
      rw [registration?_eq hplan' hoperator', FunctionPlan.registration_eq_of_implHead_eq
        (FunctionDecl.length_params_of_plan hplan hoperator) (FunctionDecl.length_params_of_plan hplan' hoperator')
        hreadable hreadable' hname]
    · cases hshim

theorem Wrote.sharesSymbol (h : origin.Wrote config s id stored) (hoperator : decl.operator = some operator)
    (hid : id = ⟨.functionBinding, decl.mangledName⟩ ∨ id = ⟨.shim, config.shimStart ++ decl.mangledName⟩) :
    origin.SharesSymbol config decl := by
  rcases h.name with ⟨_, _, decl', _, rfl, hname⟩ | ⟨batch', session, decl', plan', rfl, hplan', hname⟩
  · rcases hid with rfl | rfl
    · simp at hname
    · exact (by simpa using hname : config.shimStart ++ decl.mangledName = "static_assert " ++ decl'.name).symm
  · rcases hname with hproxy | ⟨operator', -, himpl⟩ | hshim
    · rcases hid with rfl | rfl
      · have hname : decl.mangledName = decl'.proxyName (batch'.isOverloaded decl') := congrArg FragmentId.name hproxy
        rw [FunctionDecl.proxyName] at hname
        split at hname
        · exact .inl hname.symm
        · rename_i hplain
          simp only [Bool.or_eq_true, not_or, Bool.not_eq_true, Option.isSome_eq_false_iff, Option.isNone_iff_eq_none]
            at hplain
          exact .inr ⟨hplain.1, hplain.2, FunctionDecl.stem_eq_of_escapeKeyword_eq hoperator hname.symm⟩
      · cases hproxy
    · rcases hid with rfl | rfl
      · have hname : decl.mangledName = plan'.implHead operator' := congrArg FragmentId.name himpl
        have hblank := plan'.blank_mem_implHead operator'
        rw [← hname] at hblank
        exact absurd (decl.within_mangledName ' ' hblank) (by decide)
      · cases himpl
    · rcases hid with rfl | rfl
      · cases hshim
      · have hname : config.shimStart ++ decl.mangledName = config.shimStart ++ decl'.mangledName :=
          congrArg FragmentId.name hshim
        exact .inl ((String.append_right_inj _).mp hname).symm

/-- Operators that share a symbol and can be told apart are registered under the same. -/
theorem Wrote.registration_of_sharesSymbol (h : origin.Wrote config s id stored)
    (hplan : decl.plan s overloaded = .ok plan) (hoperator : decl.operator = some operator)
    (hshares : origin.SharesSymbol config decl) (happart : origin.ToldApart decl) :
    origin.registration? = some (plan.registration operator) := by
  cases origin with
  | struct => exact happart.elim
  | function batch' session decl' =>
    obtain ⟨hsome, hnames, hhides, hhides'⟩ := happart
    obtain ⟨operator', hoperator'⟩ := Option.isSome_iff_exists.mp hsome
    obtain ⟨_, hbuild, -⟩ := h.built
    obtain ⟨plan', hplan', -⟩ := FunctionBatch.build_eq_ok_iff.mp hbuild
    rcases hshares with hshares | ⟨hnone, -⟩
    · obtain ⟨hstem, hsame⟩ := ((FunctionDecl.mangledName_eq_iff hplan' hplan hnames).mp hshares).resolve_right
        fun hor => hor.elim hhides' hhides
      obtain rfl := FunctionDecl.operator_eq_of_stem_eq hoperator' hoperator hstem
      rw [registration?_eq hplan' hoperator',
        FunctionDecl.registration_eq_of_sameOperands hplan' hplan hoperator' hoperator h.proxies hsame]
    · rw [hoperator'] at hnone
      cases hnone

end Call

/-- **What a function takes over**: a fragment of another declaration changes only where the last one wins, and only
when an operator is rendered that writes a fragment of that name. Its implementation replaces that of an operator
with the same registration. Its host function and shim replace those of a declaration with the same symbol, which
has the same registration too when it is an operator whose symbol can be told apart. -/
theorem Call.Occurs.takenOver {config : Config} {batch : FunctionBatch} {s s' : Session} {decl : FunctionDecl}
    {rendering : Rendering} {id : FragmentId} {stored : Stored}
    (hcall : (Call.function batch s decl).Occurs config) (hok : batch.step s decl = .ok (rendering, s'))
    (hstored : s.fragments.get? id = some stored) (hother : stored.owner ≠ batch.key decl)
    (hchanged : s'.fragments.get? id ≠ some stored) :
    config.operatorOverride = .lastWins ∧ ∃ operator plan, decl.operator = some operator ∧
      decl.plan s (batch.isOverloaded decl) = .ok plan ∧
      id ∈ [⟨.functionBinding, plan.implHead operator⟩, ⟨.functionBinding, plan.proxyName⟩,
        ⟨.shim, plan.shimName⟩] ∧
      (∃ origin : Call, origin.Wrote config s id stored) ∧
      ∀ origin : Call, origin.Wrote config s id stored →
        (id = ⟨.functionBinding, plan.implHead operator⟩ ∨ origin.ToldApart decl →
          origin.registration? = some (plan.registration operator)) ∧
        (id ≠ ⟨.functionBinding, plan.implHead operator⟩ → origin.SharesSymbol config decl) := by
  have htraced := hcall.traced
  have hconfig : s.config = config := htraced.configured
  obtain ⟨-, rfl⟩ | ⟨-, hbuild, hcommit⟩ := FunctionBatch.step_eq_ok_iff.mp hok
  · exact absurd hstored hchanged
  have hwrites : ∃ fragment ∈ rendering.owned, fragment.toFragmentId = id := by
    by_contra hnone
    exact hchanged (Session.get?_fragments_of_commit hcommit hstored fun fragment howned hid =>
      hnone ⟨fragment, howned, hid⟩)
  obtain ⟨fragment, howned, hid⟩ := hwrites
  have hreplaces : decl.operator.isSome = true ∧ s.config.operatorOverride = .lastWins := by
    by_contra hkeeps
    obtain ⟨hadmits, -⟩ := (Session.commit_eq_ok_iff_admits hkeeps).mp hcommit
    exact hother (hadmits.fragments fragment howned stored (hid ▸ hstored))
  obtain ⟨operator, hoperator⟩ := Option.isSome_iff_exists.mp hreplaces.1
  obtain ⟨plan, hplan, rfl⟩ := FunctionBatch.build_eq_ok_iff.mp hbuild
  obtain ⟨-, -, -, -, -, -, hshimName, hproxyName⟩ := FunctionDecl.plan_eq_ok_iff.mp hplan
  have hmangled : decl.proxyName (batch.isOverloaded decl) = decl.mangledName := by
    simp [FunctionDecl.proxyName, hoperator]
  have hname : id = ⟨.functionBinding, plan.implHead operator⟩ ∨ id = ⟨.functionBinding, decl.mangledName⟩ ∨
      id = ⟨.shim, config.shimStart ++ decl.mangledName⟩ := by
    rw [← hid, ← hconfig]
    rcases Call.name_of_function hplan howned with hproxy | ⟨operator', hoperator', himpl⟩ | hshim
    · exact .inr (.inl (hmangled ▸ hproxy))
    · obtain rfl := Option.some.inj (hoperator.symm.trans hoperator')
      exact .inl himpl
    · exact .inr (.inr hshim)
  have hkind : id.kind ≠ .importLine := hid ▸ (Rendering.mem_owned.mp howned).2
  rw [hconfig] at hreplaces
  refine ⟨hreplaces.2, operator, plan, hoperator, hplan, ?_, hcall.sourced id stored hstored hkind, ?_⟩
  · rw [hproxyName, hshimName, hmangled, hconfig]
    simpa using hname
  · intro origin hwrote
    have hshares (hne : id ≠ ⟨.functionBinding, plan.implHead operator⟩) : origin.SharesSymbol config decl :=
      hwrote.sharesSymbol hoperator (hname.resolve_left hne)
    refine ⟨fun hcase => ?_, hshares⟩
    by_cases himpl : id = ⟨.functionBinding, plan.implHead operator⟩
    · exact hwrote.registration_of_implHead htraced.hostName hplan hoperator himpl
    · exact hwrote.registration_of_sharesSymbol hplan hoperator (hshares himpl) (hcase.resolve_left himpl)

/-! ### A sum that takes over another one, and a sum that takes over a plain function -/

namespace Call.Sample

open Session.Sample

def constSum : FunctionBatch :=
  sum (.reference (.named "Vec2") true)

def plainSum : FunctionBatch where
  functions := [{ name := "operator_add", returnType := .named "Vec2",
                  params := [⟨some "a", .named "Vec2"⟩, ⟨some "b", .named "Vec2"⟩] }]
  header := "vec.h"

def plainSummed : Session :=
  (plainSum.render (vectors.render { config := { operatorOverride := .lastWins } }).1).1

def firstOf (batch : FunctionBatch) : FunctionDecl :=
  batch.functions.headD default

def after (batch : FunctionBatch) (s : Session) : Session :=
  ((batch.step s (firstOf batch)).toOption.getD default).2

def symbol : FragmentId :=
  ⟨.shim, "__bind_shim_operator_add_Vec2_Vec2"⟩

def stored (s : Session) (id : FragmentId) : Stored :=
  (s.fragments.get? id).getD default

end Call.Sample

open Call.Sample Session.Sample in
theorem Call.Occurs.takenOver_constSum :
    (Call.function constSum summed (firstOf constSum)).Occurs { operatorOverride := .lastWins } ∧
    summed.fragments.get? implementation = some (stored summed implementation) ∧
    (after constSum summed).fragments.get? implementation ≠ some (stored summed implementation) ∧
    (∃ origin : Call,
      origin.Wrote { operatorOverride := .lastWins } summed implementation (stored summed implementation)) ∧
    ∀ origin : Call,
      origin.Wrote { operatorOverride := .lastWins } summed implementation (stored summed implementation) →
        origin.registration? = some ⟨⟨"ops::Add", "Add", "add"⟩, ["Vec2", "Vec2"]⟩ := by
  have hcall : (Call.function constSum summed (firstOf constSum)).Occurs { operatorOverride := .lastWins } :=
    .function constSum [] _ [] (.functions _ (.structs _ .new)) rfl
  have hstored : summed.fragments.get? implementation = some (stored summed implementation) := by decide +kernel
  have hchanged : (after constSum summed).fragments.get? implementation ≠ some (stored summed implementation) := by
    decide +kernel
  have hregistration : (Call.function constSum summed (firstOf constSum)).registration? =
      some ⟨⟨"ops::Add", "Add", "add"⟩, ["Vec2", "Vec2"]⟩ := by decide +kernel
  obtain ⟨-, operator, plan, hoperator, hplan, -, hexists, horigin⟩ := hcall.takenOver
    (eq_ok_of_isSome_toOption (by decide +kernel)) hstored (by decide +kernel) hchanged
  rw [Call.registration?_eq hplan hoperator, Option.some.injEq] at hregistration
  obtain rfl : Operator.binary .add = operator := Option.some.inj hoperator
  have himpl : ((firstOf constSum).plan summed false).toOption.map (·.implHead (.binary .add)) =
      some "impl Add<Vec2> for Vec2" := by decide +kernel
  rw [show (firstOf constSum).plan summed false = .ok plan from hplan] at himpl
  replace himpl : plan.implHead (.binary .add) = "impl Add<Vec2> for Vec2" := Option.some.inj himpl
  refine ⟨hcall, hstored, hchanged, hexists, fun origin hwrote => ?_⟩
  rw [(horigin origin hwrote).1 (.inl (by rw [himpl]; rfl)), hregistration]

open Call.Sample Session.Sample in
/-- A sum takes over the shim of a plain function, which is no operator at all. -/
theorem Call.Occurs.takenOver_plainSum :
    (Call.function (sum (.named "Vec2")) plainSummed (firstOf (sum (.named "Vec2")))).Occurs
      { operatorOverride := .lastWins } ∧
    ((sum (.named "Vec2")).step plainSummed (firstOf (sum (.named "Vec2")))).toOption.isSome = true ∧
    plainSummed.fragments.get? symbol = some (stored plainSummed symbol) ∧
    (stored plainSummed symbol).owner = plainSum.key (firstOf plainSum) ∧
    (firstOf plainSum).operator = none ∧
    (after (sum (.named "Vec2")) plainSummed).fragments.get? symbol ≠ some (stored plainSummed symbol) :=
  ⟨.function (sum (.named "Vec2")) [] _ [] (.functions _ (.structs _ .new)) rfl, by decide +kernel,
    by decide +kernel, by decide +kernel, rfl, by decide +kernel⟩

end HostBinding
