import HostBinding.Path
import HostBinding.Table
import HostBinding.Text.Identifier

/-!
# The type mapping

Which structs get a host proxy, under what name, and in which form. The mapping keeps the order in which
its entries were given.
-/

namespace HostBinding

inductive ProxyModel where
  | fieldwise
  /-- The proxy is a block of bytes of the native size and alignment. -/
  | bytes
deriving DecidableEq, Repr, Inhabited

namespace ProxyModel

def all : List ProxyModel :=
  [fieldwise, bytes]

def tag : ProxyModel → String
  | fieldwise => "struct"
  | bytes => "opaque"

def ofTag? (tag : String) : Option ProxyModel :=
  all.find? (·.tag == tag)

end ProxyModel

structure TypeMapping where
  /-- The proxy's name, when it is not to be made from the native name. -/
  hostName : Option String := none
  model : ProxyModel := .fieldwise
  header : String
deriving DecidableEq, Repr, Inhabited

/-- The proxy's name for a native struct: its own, or the native name with scopes flattened. -/
def TypeMapping.hostNameFor (mapping : TypeMapping) (nativeName : String) : String :=
  mapping.hostName.getD (Text.flattenScopes nativeName)

abbrev Mapping := Table String TypeMapping

/-- Makes the headers that are relative paths paths below a base directory. -/
def Mapping.rebaseHeaders (mapping : Mapping) (base : String) : Mapping :=
  mapping.mapValues fun entry => { entry with header := Path.join base entry.header }

end HostBinding
