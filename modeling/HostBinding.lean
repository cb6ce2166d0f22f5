import HostBinding.Text.Line
import HostBinding.Serialized.Config
import HostBinding.Serialized.Declaration
import HostBinding.Serialized.Layout
import HostBinding.Serialized.Mapping
import HostBinding.CType.Mangled
import HostBinding.FunctionBinding.Render
import HostBinding.StructBinding.Render
import HostBinding.Yaml.Reader
import HostBinding.Yaml.Printer
import HostBinding.Json.Printer
import HostBinding.Job.Layout
import HostBinding.Job.Render
import HostBinding.CommandLine
import HostBinding.Main
import HostBinding.Proofs.Session.Commit
import HostBinding.Proofs.FunctionBinding.Plan
import HostBinding.Proofs.Session.Run
import HostBinding.Proofs.Session.Coherence
import HostBinding.Proofs.Session.Origin
import HostBinding.Proofs.StructBinding.Draft
import HostBinding.Proofs.FunctionBinding.Draft
import HostBinding.Proofs.FunctionBinding.Pointee
import HostBinding.Proofs.Session.Transparency
import HostBinding.Proofs.StructBinding.HostLayout
import HostBinding.Proofs.Layout.Resolver
import HostBinding.Proofs.Session.StructRun
import HostBinding.Proofs.CType.Outermost
import HostBinding.Proofs.CType.Leaf
import HostBinding.Proofs.CType.RoundTrip
import HostBinding.Proofs.CType.Readable
import HostBinding.Proofs.CType.Reread
import HostBinding.Proofs.FirstBy
import HostBinding.Proofs.Session.Assembly
import HostBinding.Proofs.FunctionBinding.Boundary
import HostBinding.Proofs.Layout.Depth
import HostBinding.Proofs.Layout.Spelling
import HostBinding.Proofs.Layout.Report
import HostBinding.Proofs.StructBinding.Layouts
import HostBinding.Proofs.Session.Agreement
import HostBinding.Proofs.Session.InPlace
import HostBinding.Proofs.Session.Order
import HostBinding.Proofs.Session.BatchOrder
import HostBinding.Proofs.Session.Takeover
import HostBinding.Proofs.FunctionBinding.Simple
import HostBinding.Proofs.Session.Repetition
import HostBinding.Proofs.Session.Collecting
import HostBinding.Proofs.StructBinding.Splitting
import HostBinding.Proofs.CType.Pieces
import HostBinding.Proofs.FunctionBinding.Symbols
import HostBinding.Proofs.Session.Returned
import HostBinding.Proofs.FunctionBinding.Registration
import HostBinding.Proofs.Session.Replacement
import HostBinding.Proofs.CType.Range
import HostBinding.Proofs.Layout.Words
import HostBinding.Proofs.Layout.Nesting
import HostBinding.Proofs.Session.Names
import HostBinding.Proofs.HostType
import HostBinding.Proofs.StructBinding.Promises
import HostBinding.Proofs.Session.Defined
import HostBinding.Proofs.Layout.Memory
import HostBinding.Proofs.Layout.Existence
import HostBinding.Proofs.Layout.Descent
import HostBinding.Proofs.Layout.Culprit
import HostBinding.Proofs.Text.Words
import HostBinding.Proofs.CType.Const
import HostBinding.Proofs.FunctionBinding.OperatorCalls
import HostBinding.Proofs.Text.Respaced
import HostBinding.Proofs.CType.Leading
import HostBinding.Proofs.CType.Respaced
import HostBinding.Proofs.FunctionBinding.Identifiers
import HostBinding.Proofs.FunctionBinding.Declarators
import HostBinding.Proofs.Layout.Declared
import HostBinding.Proofs.Session.Redeclared
import HostBinding.Proofs.Session.ByValue
import HostBinding.Proofs.Text.RawString
import HostBinding.Proofs.Text.NativeNames
import HostBinding.Proofs.FunctionBinding.Callee
import HostBinding.Proofs.StructBinding.Identifiers
import HostBinding.Proofs.OutputModule.Sections
import HostBinding.Proofs.CType.WordNames
import HostBinding.Proofs.Session.Fingerprint
import HostBinding.Proofs.Serialized.RoundTrip
import HostBinding.Proofs.Text.Lines
import HostBinding.Proofs.StructBinding.Comments
import HostBinding.Proofs.Session.Effect
