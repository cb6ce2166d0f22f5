import HostBinding.Job.Failure
import HostBinding.Platform
import HostBinding.Serialized.Config
import HostBinding.Serialized.Declaration
import HostBinding.Serialized.Mapping
import HostBinding.Sha256
import HostBinding.Yaml.Reader

/-!
# Loading input files

Headers are named relative to the file that names them, and become absolute when it is loaded. A header
that can be read and whose digest is not given has the digest of its bytes.
-/

namespace HostBinding.Job

variable {m : Type → Type} [Monad m] [Platform m] {α : Type}

def readDocument (role : FileRole) (path : String) : Job m Document := do
  let bytes ← attempt (.read role path) .file (← Platform.read path)
  match String.fromUTF8? bytes with
  | none => throw ⟨.read role path, .file .invalidText⟩
  | some text =>
    match Document.ofYaml? text with
    | none => throw ⟨.parse role path, .form⟩
    | some document => pure document

def load (role : FileRole) (path : String) (decode : Document → Decoded α) : Job m α := do
  let document ← readDocument role path
  attempt (.parse role path) (fun _ => .form) (decode document)

/-- What the relative paths in a file that has been read are relative to. -/
def baseOf (path : String) : Job m String := do
  match ← Platform.directoryOf path with
  | .ok directory => pure directory
  | .error _ => pure "."

def digestOf? (path : String) : Job m (Option String) := do
  match ← Platform.read path with
  | .ok bytes => return some (Sha256.hexDigest bytes.toList)
  | .error _ => return none

def loadDeclarations (path : String) : Job m Declarations := do
  let decls ← load .declarations path Declarations.decode
  let header := Path.join (← baseOf path) decls.header
  let digest ← match decls.headerDigest with
    | some digest => pure (some digest)
    | none => digestOf? header
  return { decls with header := header, headerDigest := digest }

def loadMapping (path : String) : Job m Mapping := do
  let mapping ← load .mapping path Mapping.decode
  return mapping.rebaseHeaders (← baseOf path)

/-- Loads a configuration. Without a file everything has its default. -/
def loadConfig : Option String → Job m Config
  | none => pure {}
  | some path => load .config path Config.decode

end HostBinding.Job
