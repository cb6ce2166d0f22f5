import HostBinding.FileStore

/-!
# Where jobs run

Jobs reach files and their reader only through the operations of a platform. In memory these are functions
on a workspace, so that a job is a pure function; a program runs the same job on the files of its
machine.
-/

namespace HostBinding

class Platform (m : Type → Type) where
  read : String → m (Except FileError ByteArray)
  write : String → ByteArray → m (Except FileError Unit)
  makeDirectories : String → m (Except FileError Unit)
  /-- The absolute path of the directory that a file is in, if the file is there. -/
  directoryOf : String → m (Except FileError String)
  printLine : String → m Unit

instance {m : Type → Type} {ε : Type} [Monad m] [Platform m] : Platform (ExceptT ε m) where
  read path := liftM (Platform.read path : m _)
  write path bytes := liftM (Platform.write path bytes : m _)
  makeDirectories path := liftM (Platform.makeDirectories path : m _)
  directoryOf path := liftM (Platform.directoryOf path : m _)
  printLine line := liftM (Platform.printLine line : m _)

structure Workspace where
  store : FileStore := {}
  printed : List String := []
deriving Inhabited

namespace Workspace

def transcript (workspace : Workspace) : String :=
  String.join (workspace.printed.map (· ++ "\n"))

def update (change : FileStore → Except FileError FileStore) :
    StateM Workspace (Except FileError Unit) := do
  match change (← get).store with
  | .error cause => return .error cause
  | .ok store =>
    modify fun workspace => { workspace with store := store }
    return .ok ()

instance : Platform (StateM Workspace) where
  read path := return (← get).store.read path
  write path bytes := update (·.write path bytes)
  makeDirectories path := update (·.makeDirectories path)
  directoryOf path := return (← get).store.directoryOf path
  printLine line := modify fun workspace =>
    { workspace with printed := workspace.printed ++ [line] }

end Workspace

end HostBinding
