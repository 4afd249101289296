import Semindex.Relational.Table
import Semindex.Text
import Semindex.IndexDb.Transparent
import Semindex.IndexDb.Replace
import Semindex.IndexDb.Identity
import Semindex.IndexDb.Commute
import Semindex.IndexDb.Store
import Semindex.Database.Pagination
import Semindex.Lsp.Exact
import Semindex.Lsp.Position
import Semindex.IndexDb.Covered
import Semindex.Mcp.Recursive
import Semindex.Mcp.Cursors
import Semindex.Mcp.DirectCalls
import Semindex.Mcp.DirectPages
import Semindex.Source.Candidates
import Semindex.IndexDb.Directory
import Semindex.Parser.Columns
import Semindex.Parser.CallEdges
import Semindex.Parser.LocalFlag
import Semindex.Parser.OneIdentity
import Semindex.Parser.PointsTo
import Semindex.Source.Lines
import Semindex.Lsp.Transport
import Semindex.CommandDb.Export
import Semindex.IndexDb.OpenWriter
import Semindex.Lsp.Lifecycle
import Semindex.Mcp.AnsweredOnce
import Semindex.Support.PerfTrace
import Semindex.Lsp.Shadowing
import Semindex.Cmdline.Dissect
import Semindex.Tools.CompilerCommand
import Semindex.Lsp.Uri
import Semindex.Lsp.Diagnostics
import Semindex.Lsp.RoundTrip
import Semindex.Parser.AsmAttribution
import Semindex.Source.Drift
import Semindex.Parser.TemplateMembers
import Semindex.IndexDb.Output
import Semindex.IndexDb.OutputSource
import Semindex.Lsp.Mirror
import Semindex.Lsp.CallHierarchy
import Semindex.Cmdline.JsonOutput
import Semindex.Update.Saved
import Semindex.Lsp.Indexer
import Semindex.Lsp.Duality
import Semindex.Mcp.Workspace
import Semindex.Tools.Cc
import Semindex.Tools.ServerEnvironment
