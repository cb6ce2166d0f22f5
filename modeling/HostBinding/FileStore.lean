import HostBinding.Path
import HostBinding.Table

/-!
# Stores of files

A file store is a set of places, each a directory or a file with its bytes. A place is named by the parts of its
path from the root. A path is followed part by part from where it starts, and each part but the last has to
lead to a directory.
-/

namespace HostBinding

inductive FileError where
  | notFound
  | notADirectory
  | isADirectory
  | alreadyExists
  | invalidName
  | invalidPath
  | invalidText
  | other
deriving DecidableEq, Repr, Inhabited

def FileError.message : FileError → String
  | .notFound => "no such file or directory"
  | .notADirectory => "not a directory"
  | .isADirectory => "is a directory"
  | .alreadyExists => "file exists"
  | .invalidName => "file name too long"
  | .invalidPath => "the path has a null character"
  | .invalidText => "the file is not valid UTF-8"
  | .other => "the file system failed"

inductive FileNode where
  | directory
  | file (bytes : ByteArray)
deriving Inhabited

abbrev Location := List String

structure FileStore where
  nodes : Table Location FileNode := ∅
  /-- Where a path starts that does not start at the root. -/
  start : Location := []
deriving Inhabited

namespace FileStore

def nameLimit : Nat :=
  255

def pathLimit : Nat :=
  4095

def checkPath (path : String) : Except FileError Unit :=
  if path.toList.contains '\x00' then .error .invalidPath
  else if pathLimit < path.utf8ByteSize then .error .invalidName
  else .ok ()

/-- What is at a place. The root is always a directory. -/
def node? (store : FileStore) (place : Location) : Option FileNode :=
  if place.isEmpty then some .directory else store.nodes.get? place

def isDirectory (store : FileStore) (place : Location) : Bool :=
  match store.node? place with
  | some .directory => true
  | _ => false

def step (place : Location) (part : String) : Location :=
  if part = "" || part = "." then place
  else if part = ".." then place.dropLast
  else place ++ [part]

/-- The place that the parts of a path lead to. Nothing has to be there. -/
def follow (store : FileStore) : Location → List String → Except FileError Location
  | place, [] => .ok place
  | place, part :: rest =>
    match store.node? place with
    | none => .error .notFound
    | some (.file _) => .error .notADirectory
    | some .directory =>
      if nameLimit < part.utf8ByteSize then .error .invalidName
      else store.follow (step place part) rest

def startOf (store : FileStore) (path : String) : Location :=
  if Path.isAbsolute path then [] else store.start

def locate (store : FileStore) (path : String) : Except FileError Location :=
  if path.isEmpty then .error .notFound
  else do
    checkPath path
    store.follow (store.startOf path) (Path.parts path)

def read (store : FileStore) (path : String) : Except FileError ByteArray := do
  match store.node? (← store.locate path) with
  | none => .error .notFound
  | some .directory => .error .isADirectory
  | some (.file bytes) => .ok bytes

/-- Writes a file into a directory that exists. What the file held is lost. -/
def write (store : FileStore) (path : String) (bytes : ByteArray) : Except FileError FileStore := do
  let place ← store.locate path
  if store.isDirectory place then .error .isADirectory
  else return { store with nodes := store.nodes.insert place (.file bytes) }

def withoutTrailing (parts : List String) : List String :=
  (parts.reverse.dropWhile (· = "")).reverse

def makeDirectory (store : FileStore) (start : Location) (parts : List String) :
    Except FileError FileStore := do
  let parts := withoutTrailing parts
  let place ← store.follow start parts
  if (store.node? place).isSome || [some ".", some ".."].contains parts.getLast? then
    .error .alreadyExists
  else return { store with nodes := store.nodes.insert place .directory }

/-- Makes the last directory on a path, unless it is there. -/
def ensureDirectory (store : FileStore) (start : Location) (parts : List String) :
    Except FileError FileStore :=
  match store.makeDirectory start parts with
  | .ok store => .ok store
  | .error cause =>
    match store.follow start parts with
    | .ok place => if store.isDirectory place then .ok store else .error cause
    | .error _ => .error cause

/-- Makes the missing directories on a path, whose names are given from the last to the first. -/
def ensureParents (store : FileStore) (start : Location) : List String → Except FileError FileStore
  | [] => .ok store
  | name :: before =>
    match store.ensureDirectory start (name :: before).reverse with
    | .error .notFound => do
      let store ← store.ensureParents start before
      store.ensureDirectory start (name :: before).reverse
    | result => result

def makeDirectories (store : FileStore) (path : String) : Except FileError FileStore :=
  let start := store.startOf path
  if path.isEmpty then .ok store
  else do
    checkPath path
    match store.ensureDirectory start (Path.parts path) with
    | .error .notFound => do
      let store ← store.ensureParents start (Path.names path).dropLast.reverse
      store.ensureDirectory start (Path.parts path)
    | result => result

def directoryOf (store : FileStore) (path : String) : Except FileError String := do
  let place ← store.locate path
  return Path.ofLocation place.dropLast

end FileStore

end HostBinding
