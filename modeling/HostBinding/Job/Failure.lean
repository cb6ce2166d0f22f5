import HostBinding.BindingError
import HostBinding.FileStore

/-!
# Why a job fails

A failure is what was being done and what went wrong with it.
-/

namespace HostBinding

inductive FileRole where
  | declarations
  | mapping
  | config
deriving DecidableEq, Repr, Inhabited

def FileRole.name : FileRole → String
  | .declarations => "declarations"
  | .mapping => "mapping"
  | .config => "config"

inductive Activity where
  | read (role : FileRole) (path : String)
  | parse (role : FileRole) (path : String)
  | renderStructs (path : String)
  | renderFunctions (path : String)
  | layOut (structName path : String)
  | makeDirectory (path : String)
  | write (path : String)
deriving DecidableEq, Repr, Inhabited

def Activity.failed : Activity → String
  | .read role path => "Failed to read " ++ role.name ++ " file " ++ path
  | .parse role path => "Failed to parse " ++ role.name ++ " file " ++ path
  | .renderStructs path => "Failed to render structs from " ++ path
  | .renderFunctions path => "Failed to render functions from " ++ path
  | .layOut structName path => "Failed to lay out '" ++ structName ++ "' from " ++ path
  | .makeDirectory path => "Failed to create output directory " ++ path
  | .write path => "Failed to write " ++ path

inductive JobCause where
  | file (cause : FileError)
  /-- The file does not hold a document of the form asked for. -/
  | form
  | binding (cause : BindingError)
  | layout (cause : LayoutError)
deriving DecidableEq, Repr, Inhabited

def JobCause.message : JobCause → String
  | .file cause => cause.message
  | .form => "the file does not have the form that is asked for"
  | .binding cause => cause.message
  | .layout cause => cause.message

structure JobFailure where
  activity : Activity
  cause : JobCause
deriving DecidableEq, Repr, Inhabited

def JobFailure.report (failure : JobFailure) : String :=
  "Error: " ++ failure.activity.failed ++ "\n\nCaused by:\n    " ++ failure.cause.message

abbrev Job (m : Type → Type) (α : Type) :=
  ExceptT JobFailure m α

namespace Job

variable {m : Type → Type} [Monad m] {α ε : Type}

/-- The result of an activity, whose errors have causes of one kind. -/
def attempt (activity : Activity) (cause : ε → JobCause) (result : Except ε α) : Job m α :=
  match result with
  | .ok value => pure value
  | .error error => throw ⟨activity, cause error⟩

end Job

end HostBinding
