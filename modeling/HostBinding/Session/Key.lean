import HostBinding.Sha256

/-!
# Declaration keys

A session looks up a rendering by its key. A key holds the texts of a declaration and of what is configured for it, the
header among them. It does not hold what the session has registered by then, although host types are made from that too.
The fingerprint is a digest of the texts, each preceded by its length, so that no two lists of texts have the same
bytes.
-/

namespace HostBinding

inductive DeclKind where
  | struct
  | function
deriving DecidableEq, Repr, Inhabited

def DeclKind.tag : DeclKind → String
  | struct => "struct"
  | function => "function"

def DeclKind.ofTag? (tag : String) : Option DeclKind :=
  [struct, function].find? (·.tag == tag)

structure DeclKey where
  kind : DeclKind
  name : String
  /-- The texts of the declaration and of what is configured for it. -/
  parts : List String
deriving DecidableEq, Repr, Inhabited

namespace DeclKey

/-- The bytes of a text after their number, which is a 64-bit word. -/
def partBytes (text : String) : List UInt8 :=
  let bytes := Bytes.ofText text
  Bytes.littleEndian 8 bytes.length ++ bytes

/-- What the fingerprint of a list of texts is the digest of. -/
def fingerprintBytes (parts : List String) : List UInt8 :=
  parts.flatMap partBytes

def fingerprint (key : DeclKey) : String :=
  Sha256.hexDigest (fingerprintBytes key.parts)

/-- A key as it is shown: the declaration and the first twelve digits of its fingerprint. -/
def spell (key : DeclKey) : String :=
  key.kind.tag ++ " " ++ key.name ++ "@" ++ String.ofList (key.fingerprint.toList.take 12)

end DeclKey

end HostBinding
