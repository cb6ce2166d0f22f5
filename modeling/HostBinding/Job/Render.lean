import HostBinding.FunctionBinding.Render
import HostBinding.Job.Load

/-!
# The render job

All structs of all files are rendered before any function, so a function may use the proxies of
every file. What is written is the host module and the native source of its shims.
-/

namespace HostBinding

def Declarations.structBatch (decls : Declarations) (mapping : Mapping) : StructBatch where
  structs := decls.structs
  mapping := mapping
  digest := decls.headerDigest

def Declarations.functionBatch (decls : Declarations) : FunctionBatch where
  functions := decls.functions
  header := decls.header
  digest := decls.headerDigest

namespace Session

def afterBatch : Session × Except BindingError OutputModule → Except BindingError Session
  | (session, .ok _) => .ok session
  | (_, .error cause) => .error cause

def renderStructs (mapping : Mapping) (session : Session) (decls : Declarations) :
    Except BindingError Session :=
  afterBatch ((decls.structBatch mapping).render session)

def renderFunctions (session : Session) (decls : Declarations) : Except BindingError Session :=
  afterBatch (decls.functionBatch.render session)

end Session

structure RenderRequest where
  declFiles : List String
  mappingFile : String
  configFile : Option String := none
  outputDir : String
  moduleName : String
  verbose : Bool := false
deriving DecidableEq, Repr, Inhabited

structure RenderedFiles where
  modulePath : String
  shimPath : String
deriving DecidableEq, Repr, Inhabited

namespace RenderRequest

def announcement (request : RenderRequest) : List String :=
  ["bind-gen - Binding Renderer", "===========================", "", "[~] Configuration:",
    "  Mapping: " ++ request.mappingFile, "  Output directory: " ++ request.outputDir,
    "  Module: " ++ request.moduleName,
    "  Declaration files: " ++ toString request.declFiles.length] ++
    request.declFiles.map ("    - " ++ ·) ++ [""]

def outputs (request : RenderRequest) : RenderedFiles where
  modulePath := Path.join request.outputDir (request.moduleName ++ ".rs")
  shimPath := Path.join request.outputDir (request.moduleName ++ "_shim.cpp")

end RenderRequest

namespace Job

variable {m : Type → Type} [Monad m] [Platform m]

def tell (verbose : Bool) (lines : List String) : Job m Unit := do
  if verbose then lines.forM fun line => Platform.printLine line

def renderStructs (verbose : Bool) (mapping : Mapping) (session : Session)
    (input : String × Declarations) : Job m Session := do
  let (path, decls) := input
  tell verbose ["[~] Rendering " ++ toString decls.structs.length ++ " struct(s) from " ++ path]
  attempt (.renderStructs path) .binding (session.renderStructs mapping decls)

def renderFunctions (verbose : Bool) (session : Session) (input : String × Declarations) :
    Job m Session := do
  let (path, decls) := input
  tell verbose
    ["[~] Rendering " ++ toString decls.functions.length ++ " function(s) from " ++ path]
  attempt (.renderFunctions path) .binding (session.renderFunctions decls)

def writeText (path text : String) : Job m Unit := do
  attempt (.write path) .file (← Platform.write path text.toUTF8)

def writeModule (request : RenderRequest) (content : OutputModule) : Job m RenderedFiles := do
  attempt (.makeDirectory request.outputDir) .file
    (← Platform.makeDirectories request.outputDir)
  writeText request.outputs.modulePath (content.text {})
  writeText request.outputs.shimPath content.shimSource
  return request.outputs

def render (request : RenderRequest) : Job m RenderedFiles := do
  tell request.verbose request.announcement
  let config ← loadConfig request.configFile
  let mapping ← loadMapping request.mappingFile
  let inputs ← request.declFiles.mapM fun path => do return (path, ← loadDeclarations path)
  let session ← inputs.foldlM (renderStructs request.verbose mapping) { config := config }
  let session ← inputs.foldlM (renderFunctions request.verbose) session
  let files ← writeModule request session.assemble
  tell request.verbose
    ["[✓] Generated " ++ files.modulePath, "[✓] Generated " ++ files.shimPath]
  return files

end Job

end HostBinding
