import HostBinding.Layout.Resolver
import HostBinding.Mapping

/-!
# Reports on layouts

A report is the layout of a struct, and its proxy when the struct is mapped. Sets of declarations are
reported on in order, and a set may use the structs of earlier ones.
-/

namespace HostBinding

structure LayoutReport where
  layout : StructLayout
  mapped : Option TypeMapping
deriving DecidableEq, Repr, Inhabited

namespace LayoutReport

def hostName? (report : LayoutReport) : Option String :=
  report.mapped.map (·.hostNameFor report.layout.name)

def model? (report : LayoutReport) : Option ProxyModel :=
  report.mapped.map (·.model)

/-- Reports on structs in order, up to the first one without a layout, which is named by the error. -/
def collect (mapping : Mapping) :
    Resolver → List StructDecl → Except (String × LayoutError) (List LayoutReport)
  | _, [] => .ok []
  | resolver, decl :: rest =>
    match resolver.resolve decl.name with
    | (.error cause, _) => .error (decl.name, cause)
    | (.ok layout, resolver) => do
      let reports ← collect mapping resolver rest
      return { layout := layout, mapped := mapping.get? decl.name } :: reports

def extend (mapping : Mapping) (pointerWidth : Nat) (earlier : List LayoutReport)
    (decls : Declarations) : Except (String × LayoutError) (List LayoutReport) := do
  let resolver : Resolver := { pointerWidth := pointerWidth, structs := decls.structs }
  let resolver := earlier.foldl (fun resolver report =>
    resolver.addKnown report.layout.name report.layout.toExtent) resolver
  return earlier ++ (← collect mapping resolver decls.structs)

end LayoutReport

end HostBinding
