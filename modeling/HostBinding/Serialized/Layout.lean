import HostBinding.Document.Basic
import HostBinding.Layout.Report

/-!
# Serialized layouts

A layout is only written, never read back.
-/

namespace HostBinding

def FieldLayout.encode (field : FieldLayout) : Document :=
  .record [("name", .text field.name), ("native-type", .text field.nativeType),
    ("offset", .integer field.offset), ("size", .integer field.size),
    ("alignment", .integer field.alignment)]

/-- The entries of a serialized layout, after which a report has entries of its own. -/
def StructLayout.encodeEntries (layout : StructLayout) : List (String × Document) :=
  [("name", .text layout.name), ("size", .integer layout.size),
    ("alignment", .integer layout.alignment),
    ("fields", .list (layout.fields.map FieldLayout.encode))]

def StructLayout.encode (layout : StructLayout) : Document :=
  .record layout.encodeEntries

/-- A report is the layout with the proxy's name and form, when there is a proxy. -/
def LayoutReport.encode (report : LayoutReport) : Document :=
  .record (report.layout.encodeEntries ++
    report.hostName?.toList.map (fun name => ("host-name", .text name)) ++
    report.model?.toList.map (fun model => ("model", .text model.tag)))

end HostBinding
