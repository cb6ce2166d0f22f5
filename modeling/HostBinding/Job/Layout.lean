import HostBinding.Job.Load
import HostBinding.Layout.Report

/-!
# The layout job

Reports on every struct of some files, in order.
-/

namespace HostBinding.Job

variable {m : Type → Type} [Monad m] [Platform m]

/-- Adds the reports on the structs of one file to those of earlier files. -/
def reportFile (mapping : Mapping) (pointerWidth : Nat) (earlier : List LayoutReport)
    (path : String) : Job m (List LayoutReport) := do
  let decls ← loadDeclarations path
  match LayoutReport.extend mapping pointerWidth earlier decls with
  | .error (structName, cause) => throw ⟨.layOut structName path, .layout cause⟩
  | .ok reports => return reports

def reportLayouts (declFiles : List String) (mappingFile : String) (pointerWidth : Nat) :
    Job m (List LayoutReport) := do
  let mapping ← loadMapping mappingFile
  declFiles.foldlM (reportFile mapping pointerWidth) []

end HostBinding.Job
