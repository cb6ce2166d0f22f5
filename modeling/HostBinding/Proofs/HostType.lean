import HostBinding.HostType
import HostBinding.Proofs.CType.Pieces
import HostBinding.Proofs.CType.RoundTrip

/-!
# What a host type names

A host type is made from one type by pointers and arrays, and so is the native type that it stores. When the
native one is made from a struct, the host type is made from the proxy that the struct has, or from the erased
type. Nothing else brings a name into a host type. The arrays on the outside are the same on both sides, and so
is what they are arrays of.
-/

namespace HostBinding

namespace HostType

def proxyName? : HostType → Option String
  | .primitive _ | .erased => none
  | .proxy name => some name
  | .pointer target _ => target.proxyName?
  | .array element _ => element.proxyName?

/-- What the arrays on the outside of a host type are made of. -/
def element : HostType → HostType
  | .array inner _ => inner.element
  | type => type

def isErased : HostType → Bool
  | .primitive _ | .proxy _ => false
  | .erased => true
  | .pointer target _ => target.isErased
  | .array element _ => element.isErased

theorem mentionsErased_of_isErased {type : HostType} (h : type.isErased = true) : type.mentionsErased = true := by
  rw [mentionsErased_iff]
  induction type with
  | primitive | proxy => cases h
  | erased => exact List.infix_rfl
  | pointer target isConst ih =>
    refine (ih h).trans ?_
    cases isConst <;> simp only [spell, String.toList_append]
    · exact (List.suffix_append _ _).isInfix
    · exact (List.suffix_append _ _).isInfix
  | array element length ih =>
    refine (ih h).trans ?_
    simp only [spell, String.toList_append, List.append_assoc]
    exact (List.prefix_append _ _).isInfix.trans (List.suffix_append _ _).isInfix

end HostType

theorem CType.proxyName?_of_host? {proxyOf? : String → Option String} {type : CType} {host : HostType}
    (h : type.host? proxyOf? = some host) : host.proxyName? = type.structName?.bind proxyOf? := by
  induction type generalizing host with
  | void | reference => cases h
  | primitive kind spelling =>
    cases h
    rfl
  | named name =>
    obtain ⟨hostName, hname, rfl⟩ := Option.map_eq_some_iff.mp h
    exact hname.symm
  | array element length ih =>
    obtain ⟨inner, hinner, rfl⟩ := Option.map_eq_some_iff.mp h
    have hsame := ih hinner
    exact hsame
  | pointer target isConst ih =>
    have hdeep (h : (target.host? proxyOf?).map (HostType.pointer · isConst) = some host) :
        host.proxyName? = target.structName?.bind proxyOf? := by
      obtain ⟨inner, hinner, rfl⟩ := Option.map_eq_some_iff.mp h
      have hsame := ih hinner
      exact hsame
    cases target with
    | void =>
      cases h
      rfl
    | named name =>
      cases h
      cases hname : proxyOf? name <;> simp [HostType.proxyName?, structName?, hname]
    | reference => cases h
    | primitive => exact hdeep h
    | pointer => exact hdeep h
    | array => exact hdeep h

namespace CType

variable {proxyOf? : String → Option String} {type : CType} {host : HostType} {hostName : String} {kind : Primitive}

theorem exists_pointer_of_host? {isConst : Bool} (h : (pointer type isConst).host? proxyOf? = some host) :
    ∃ target, host = .pointer target isConst := by
  cases type <;> simp only [host?, Option.some.injEq, Option.map_eq_some_iff] at h
  case void | named => exact ⟨_, h.symm⟩
  all_goals
    obtain ⟨target, -, rfl⟩ := h
    exact ⟨target, rfl⟩

theorem host?_element (h : type.host? proxyOf? = some host) :
    type.element.host? proxyOf? = some host.element := by
  induction type generalizing host with
  | void | reference => cases h
  | primitive kind spelling =>
    cases h
    rfl
  | named name =>
    obtain ⟨hostName, -, rfl⟩ := Option.map_eq_some_iff.mp h
    exact h
  | array inner length ih =>
    obtain ⟨innerHost, hinner, rfl⟩ := Option.map_eq_some_iff.mp h
    have hsame := ih hinner
    exact hsame
  | pointer target isConst =>
    obtain ⟨target', rfl⟩ := exists_pointer_of_host? h
    exact h

theorem element_eq_proxy_iff (h : type.host? proxyOf? = some host) :
    host.element = .proxy hostName ↔ ∃ name, type.element = .named name ∧ proxyOf? name = some hostName := by
  have helement := host?_element h
  constructor
  · intro heq
    rw [heq] at helement
    cases htype : type.element with
    | named name =>
      rw [htype] at helement
      obtain ⟨hostName', hname, hsame⟩ := Option.map_eq_some_iff.mp helement
      cases hsame
      exact ⟨name, rfl, hname⟩
    | pointer target isConst =>
      rw [htype] at helement
      obtain ⟨_, hpointer⟩ := exists_pointer_of_host? helement
      cases hpointer
    | _ => simp [htype, host?] at helement
  · rintro ⟨name, htype, hname⟩
    rw [htype, host?, hname] at helement
    exact (Option.some.inj helement).symm

theorem element_eq_primitive_iff (h : type.host? proxyOf? = some host) :
    host.element = .primitive kind ↔ ∃ spelling, type.element = .primitive kind spelling := by
  have helement := host?_element h
  constructor
  · intro heq
    rw [heq] at helement
    cases htype : type.element with
    | primitive kind' spelling =>
      rw [htype] at helement
      cases helement
      exact ⟨spelling, rfl⟩
    | pointer target isConst =>
      rw [htype] at helement
      obtain ⟨_, hpointer⟩ := exists_pointer_of_host? helement
      cases hpointer
    | _ => simp [htype, host?] at helement
  · rintro ⟨spelling, htype⟩
    rw [htype, host?] at helement
    exact (Option.some.inj helement).symm

end CType

end HostBinding
