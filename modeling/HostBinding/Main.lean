import HostBinding.CommandLine

/-!
# The program

Runs a command on the files of the machine. What cannot be done is said on the error output.
-/

namespace HostBinding

def FileError.ofMachine : IO.Error → FileError
  | .noFileOrDirectory .. => .notFound
  | .inappropriateType .. => .notADirectory
  | .alreadyExists .. => .alreadyExists
  | _ => .other

def fileResult {α : Type} (operation : IO α) : IO (Except FileError α) := do
  try
    return .ok (← operation)
  catch cause =>
    return .error (FileError.ofMachine cause)

def Path.parent (path : String) : String :=
  let before := path.toList.reverse.dropWhile (· ≠ '/')
  if before.isEmpty then "." else String.ofList before.reverse

instance : Platform IO where
  read path := fileResult (IO.FS.readBinFile path)
  write path bytes := fileResult (IO.FS.writeBinFile path bytes)
  makeDirectories path := fileResult (IO.FS.createDirAll path)
  directoryOf path := fileResult do
    return (← IO.FS.realPath (Path.parent path)).toString
  printLine line := IO.println line

def usage : String :=
  "usage: bind-gen render -d FILE... -m FILE [-c FILE] [-o DIR] [--module NAME] [-v]\n" ++
    "       bind-gen layout -d FILE... -m FILE [--format json|yaml]"

end HostBinding

open HostBinding

def main (arguments : List String) : IO UInt32 := do
  let ending ← runProgram (m := IO) arguments
  match ending with
  | .done => pure ()
  | .failed failure => IO.eprintln failure.report
  | .misused => IO.eprintln usage
  return ending.exitStatus.toUInt32
