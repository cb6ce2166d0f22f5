import HostBinding.CType.Basic

/-!
# Host types

The host types that can store a native value. Named structs are stored by their proxy. A struct without
a proxy cannot be stored, but a pointer to one can: its target is then erased.
-/

namespace HostBinding

inductive HostType where
  | primitive (kind : Primitive)
  | proxy (name : String)
  /-- The target of a pointer to storage that the host knows nothing about. -/
  | erased
  | pointer (target : HostType) (isConst : Bool)
  | array (element : HostType) (length : UInt64)
deriving DecidableEq, Repr, Inhabited

namespace HostType

def erasedName : String :=
  "c_void"

def spell : HostType → String
  | .primitive kind => kind.hostName
  | .proxy name => name
  | .erased => erasedName
  | .pointer target true => "*const " ++ target.spell
  | .pointer target false => "*mut " ++ target.spell
  | .array element length => "[" ++ element.spell ++ "; " ++ toString length.toNat ++ "]"

private def occursIn (pattern : List Char) : List Char → Bool
  | [] => pattern.isEmpty
  | c :: rest => pattern.isPrefixOf (c :: rest) || occursIn pattern rest

/-- Whether the name of the erased type occurs anywhere in the spelling, also as part of another
name. -/
def mentionsErased (type : HostType) : Bool :=
  occursIn erasedName.toList type.spell.toList

private theorem occursIn_iff {pattern text : List Char} : occursIn pattern text = true ↔ pattern <:+: text := by
  induction text with
  | nil => simp [occursIn]
  | cons c rest ih => rw [occursIn, Bool.or_eq_true, List.isPrefixOf_iff_prefix, ih, List.infix_cons_iff]

theorem mentionsErased_iff {type : HostType} :
    type.mentionsErased = true ↔ erasedName.toList <:+: type.spell.toList :=
  occursIn_iff

end HostType

/-- The host type that stores values of a native type, given the proxy names of structs. There is none
for void, for references and for structs without a proxy. -/
def CType.host? (proxyName? : String → Option String) : CType → Option HostType
  | .void | .reference _ _ => none
  | .primitive kind _ => some (.primitive kind)
  | .named name => (proxyName? name).map .proxy
  | .pointer target isConst =>
    match target with
    | .void => some (.pointer .erased isConst)
    | .named name => some (.pointer ((proxyName? name).elim .erased .proxy) isConst)
    | _ => (host? proxyName? target).map (.pointer · isConst)
  | .array element length => (host? proxyName? element).map (.array · length)

end HostBinding
