import HostBinding.Job.Layout
import HostBinding.Job.Render
import HostBinding.Json.Printer
import HostBinding.Serialized.Layout
import HostBinding.Yaml.Printer

/-!
# The command line

An option is given by its long name, or by one letter if it has one. Its value follows in the same
argument or is the next argument, unless that looks like an option. Letters of options without values can share
an argument. There are no arguments that belong to no option, and only some options can be repeated.
-/

namespace HostBinding

inductive OptionKind where
  | flag
  | path
  | text
deriving DecidableEq, Repr, Inhabited

structure OptionSpec where
  long : String
  short : Option Char := none
  kind : OptionKind
  repeatable : Bool := false
deriving DecidableEq, Repr, Inhabited

abbrev GivenOption := String × String

/-- The options of one argument, and the last one's name if its value is still to come. -/
structure ReadArgument where
  given : List GivenOption := []
  pending : Option String := none
deriving DecidableEq, Repr, Inhabited

namespace ReadArgument

/-- Reads the letters of options. What follows the letter of an option with a value is its value. -/
def ofLetters? (specs : List OptionSpec) : List Char → Option ReadArgument
  | [] => some {}
  | letter :: rest => do
    let spec ← specs.find? (·.short = some letter)
    if spec.kind = .flag then
      let following ← ofLetters? specs rest
      return { following with given := (spec.long, "") :: following.given }
    else
      match rest with
      | [] => return { pending := spec.long }
      | '=' :: value => return { given := [(spec.long, String.ofList value)] }
      | value => return { given := [(spec.long, String.ofList value)] }

def ofLongName? (specs : List OptionSpec) (text : List Char) : Option ReadArgument := do
  let name := String.ofList (text.takeWhile (· ≠ '='))
  let spec ← specs.find? (·.long = name)
  match text.dropWhile (· ≠ '='), spec.kind with
  | [], .flag => return { given := [(name, "")] }
  | [], _ => return { pending := name }
  | _ :: _, .flag => failure
  | _ :: value, _ => return { given := [(name, String.ofList value)] }

def ofArgument? (specs : List OptionSpec) (argument : String) : Option ReadArgument :=
  match argument.toList with
  | '-' :: '-' :: name => ofLongName? specs name
  | '-' :: letter :: letters => ofLetters? specs (letter :: letters)
  | _ => none

end ReadArgument

def isValueArgument (argument : String) : Bool :=
  argument = "-" || argument.toList.head? ≠ some '-'

/-- Reads arguments as options. Two dashes may end them. -/
def readOptions? (specs : List OptionSpec) : List String → Option (List GivenOption)
  | [] => some []
  | ["--"] => some []
  | argument :: rest => do
    let read ← ReadArgument.ofArgument? specs argument
    match read.pending, rest with
    | none, rest => return read.given ++ (← readOptions? specs rest)
    | some name, value :: rest =>
      if isValueArgument value then
        return read.given ++ (name, value) :: (← readOptions? specs rest)
      else failure
    | some _, [] => failure

def areValid (specs : List OptionSpec) (given : List GivenOption) : Bool :=
  specs.all fun spec =>
    let values := given.filterMap fun (name, value) => if name = spec.long then some value else none
    (spec.repeatable || values.length ≤ 1) && (spec.kind ≠ .path || values.all (· ≠ ""))

inductive ReportFormat where
  | json
  | yaml
deriving DecidableEq, Repr, Inhabited

namespace ReportFormat

def ofName? : String → Option ReportFormat
  | "json" => some .json
  | "yaml" => some .yaml
  | _ => none

def print : ReportFormat → Document → String
  | .json, document => document.toJson
  | .yaml, document => document.toYaml

end ReportFormat

inductive Command where
  | render (request : RenderRequest)
  | layout (declFiles : List String) (mappingFile : String) (format : ReportFormat)
deriving DecidableEq, Repr, Inhabited

namespace Command

def declsOption : OptionSpec where
  long := "decls"
  short := 'd'
  kind := .path
  repeatable := true

def mappingOption : OptionSpec where
  long := "mapping"
  short := 'm'
  kind := .path

def renderOptions : List OptionSpec :=
  [declsOption, mappingOption, { long := "config", short := 'c', kind := .path },
    { long := "output", short := 'o', kind := .path }, { long := "module", kind := .text },
    { long := "verbose", short := 'v', kind := .flag }]

def layoutOptions : List OptionSpec :=
  [declsOption, mappingOption, { long := "format", kind := .text }]

/-- The values of the required options: the files with declarations and the mapping. -/
def inputs? (given : List GivenOption) : Option (List String × String) := do
  let declFiles := given.filterMap fun (name, value) => if name = "decls" then some value else none
  if declFiles.isEmpty then failure
  return (declFiles, ← given.lookup "mapping")

def readRender? (arguments : List String) : Option Command := do
  let given ← (readOptions? renderOptions arguments).filter (areValid renderOptions)
  let (declFiles, mappingFile) ← inputs? given
  return .render {
    declFiles := declFiles
    mappingFile := mappingFile
    configFile := given.lookup "config"
    outputDir := (given.lookup "output").getD "generated"
    moduleName := (given.lookup "module").getD "bindings"
    verbose := (given.lookup "verbose").isSome }

def readLayout? (arguments : List String) : Option Command := do
  let given ← (readOptions? layoutOptions arguments).filter (areValid layoutOptions)
  let (declFiles, mappingFile) ← inputs? given
  return .layout declFiles mappingFile (← ReportFormat.ofName? ((given.lookup "format").getD "json"))

def ofArguments? : List String → Option Command
  | "render" :: arguments => readRender? arguments
  | "layout" :: arguments => readLayout? arguments
  | _ => none

variable {m : Type → Type} [Monad m] [Platform m]

def run : Command → Job m Unit
  | .render request => discard (Job.render request)
  | .layout declFiles mappingFile format => do
    let reports ← Job.reportLayouts declFiles mappingFile ({} : Config).pointerWidth.toNat
    Platform.printLine (format.print (.list (reports.map LayoutReport.encode)))

end Command

inductive Ending where
  | done
  | failed (failure : JobFailure)
  | misused
deriving DecidableEq, Repr, Inhabited

def Ending.exitStatus : Ending → UInt8
  | .done => 0
  | .failed _ => 1
  | .misused => 2

def runProgram {m : Type → Type} [Monad m] [Platform m] (arguments : List String) : m Ending := do
  match Command.ofArguments? arguments with
  | none => return .misused
  | some command =>
    match ← command.run.run with
    | .ok () => return .done
    | .error failure => return .failed failure

end HostBinding
