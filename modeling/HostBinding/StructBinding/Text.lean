import HostBinding.HostType
import HostBinding.Layout.Basic
import HostBinding.Text.Line

/-!
# The text of a struct proxy

A proxy states its layout three times: as a host type, as host assertions that the host compiler checks,
and as native assertions that the native compiler checks. All three are written from one layout. The
comment of a struct only ever becomes documentation lines of its own.
-/

namespace HostBinding.StructBinding

open Text

structure ProxyField where
  nativeName : String
  /-- The native name, in a form that the host language does not reserve. -/
  ident : String
  type : HostType
  offset : Nat
deriving DecidableEq, Repr, Inhabited

inductive ProxyBody where
  | bytes
  | fieldwise (fields : List ProxyField)
deriving DecidableEq, Repr, Inhabited

structure ProxyText where
  nativeName : String
  hostName : String
  header : String
  comment : Option String
  layout : StructLayout
deriving DecidableEq, Repr, Inhabited

namespace ProxyText

/-- The documentation: what the proxy stands for, then the comment. -/
def docs (p : ProxyText) (what : String) : List String :=
  ("/// " ++ what ++ " for native `" ++ p.nativeName ++ "` (`" ++ p.header ++ "`).") ::
    match p.comment with
    | none => []
    | some comment => "///" :: docLines comment

def assertions (p : ProxyText) (fields : List ProxyField) : List String :=
  ["const _: () = \x7b",
    "    assert!(core::mem::size_of::<" ++ p.hostName ++ ">() == " ++ toString p.layout.size ++ ");",
    "    assert!(core::mem::align_of::<" ++ p.hostName ++ ">() == " ++
      toString p.layout.alignment ++ ");"] ++
  (fields.map fun field =>
    "    assert!(core::mem::offset_of!(" ++ p.hostName ++ ", " ++ field.ident ++ ") == " ++
      toString field.offset ++ ");") ++
  ["\x7d;"]

def typed (field : ProxyField) : String :=
  field.ident ++ ": " ++ field.type.spell

def memberLine (field : ProxyField) : String :=
  "    pub " ++ typed field ++ ","

def offsetEntry (field : ProxyField) : String :=
  "(\"" ++ field.nativeName ++ "\", " ++ toString field.offset ++ ")"

/-- The proxy that has the native fields. A struct without fields gets one byte. -/
def fieldwise (p : ProxyText) (fields : List ProxyField) : String :=
  let members := if fields.isEmpty then ["    _reserved: u8,"]
    else fields.map memberLine
  let values := if fields.isEmpty then "_reserved: 0" else ", ".intercalate (fields.map (·.ident))
  unlines <| p.docs "Proxy" ++
    ["#[repr(C)]", "#[derive(Clone, Copy, Debug)]", "pub struct " ++ p.hostName ++ " \x7b"] ++
    members ++
    ["\x7d", "", "impl " ++ p.hostName ++ " \x7b",
      "    /// Native field offsets, in declaration order.",
      "    pub const FIELD_OFFSETS: [(&'static str, usize); " ++ toString fields.length ++ "] = [" ++
        ", ".intercalate (fields.map offsetEntry) ++ "];",
      "",
      "    pub const fn new(" ++ ", ".intercalate (fields.map typed) ++ ") -> Self \x7b",
      "        Self \x7b " ++ values ++ " \x7d",
      "    \x7d", "\x7d", ""] ++
    p.assertions fields

def bytes (p : ProxyText) : String :=
  let block := "[u8; " ++ toString p.layout.size ++ "]"
  unlines <| p.docs "Opaque proxy" ++
    ["#[repr(C, align(" ++ toString p.layout.alignment ++ "))]", "#[derive(Clone, Copy, Debug)]",
      "pub struct " ++ p.hostName ++ " \x7b", "    bytes: " ++ block ++ ",", "\x7d", "",
      "impl " ++ p.hostName ++ " \x7b",
      "    pub const fn from_bytes(bytes: " ++ block ++ ") -> Self \x7b",
      "        Self \x7b bytes \x7d", "    \x7d", "",
      "    pub const fn to_bytes(self) -> " ++ block ++ " \x7b",
      "        self.bytes", "    \x7d", "\x7d", ""] ++
    p.assertions []

def write (p : ProxyText) : ProxyBody → String
  | .bytes => p.bytes
  | .fieldwise fields => p.fieldwise fields

end ProxyText

def nativeAssertions (nativeName : String) (layout : StructLayout) : String :=
  let assertion (measured what : String) (value : Nat) :=
    "static_assert(" ++ measured ++ " == " ++ toString value ++ ", \"" ++ what ++
      " differs from the generated proxy\");"
  unlines <|
    [assertion ("sizeof(" ++ nativeName ++ ")") (nativeName ++ ": size") layout.size,
      assertion ("alignof(" ++ nativeName ++ ")") (nativeName ++ ": alignment") layout.alignment] ++
    layout.fields.map fun field =>
      assertion ("offsetof(" ++ nativeName ++ ", " ++ field.name ++ ")")
        (nativeName ++ "::" ++ field.name ++ ": offset") field.offset

end HostBinding.StructBinding
