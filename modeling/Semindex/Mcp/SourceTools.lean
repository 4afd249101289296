import Semindex.Lsp.Indexer
import Semindex.Mcp.SymbolTools
import Semindex.Source.Drift

/-! The tools of the MCP server that look at the workspace, the list of the variants, and
`McpToolService::call`. What a call sees of the machine is a parameter; the control of a
request may change while a file is indexed. -/
namespace Semindex.Database
open Semindex.Relational Semindex.IndexDb

structure DbVariant where
  name : Text
  repositoryRoot : Option Text
  gitCommit : Option Text
  deriving DecidableEq

def variantRows (db : Db) : List DbVariant :=
  orderBy DbVariant.name (db.variants.rows.map (fun row => ⟨row.1,row.2.repositoryRoot,row.2.gitCommit⟩))

def semindexDbListVariants {σ : Type} (db : Db) (callback : Callback σ DbVariant) (data : σ) : σ × Int :=
  emitCounted callback 0 0 (variantRows db) data

end Semindex.Database

namespace Semindex.Mcp.Tools
open Semindex.Support Semindex.Relational Semindex.IndexDb Semindex.Database Semindex.Json Semindex.Source Semindex.Update
open Semindex.Mcp.Requests (Members Control McpToolResult stoppedResult unknownResult databaseResult)
open Semindex.Mcp.Cursors
open Semindex.CommandDb (CString CommandFile)
open Semindex.Source.Drift (SemindexSourceStatus SemindexSourceOrigin SemindexSourceRequest SemindexSourceResult GitBlob)
open Semindex.Lsp (Turn)

section Variants
variable (lib : JsonLibrary) (db : Db) (configured : Text) (control : Control)

structure VariantRecord where
  name : Text
  repositoryRoot : Text
  gitCommit : Text
  deriving DecidableEq

def variantRecord (variant : DbVariant) : VariantRecord :=
  ⟨variant.name,variant.repositoryRoot.getD [],variant.gitCommit.getD []⟩

def collectVariant (selected after : Text) (limit : Nat) : Callback (Collector VariantRecord) DbVariant :=
  fun collector variant =>
    if control.stopped then ({collector with stopped := true},1)
    else if after ≠ [] && variant.name ≤ after then (collector,0)
    else if selected ≠ [] && selected ≠ variant.name then (collector,0)
    else
      let variants := collector.records ++ [variantRecord variant]
      ({collector with records := variants},if limit < variants.length then 1 else 0)

def variantObject (variant : VariantRecord) : Json :=
  .object (("name".toList,.string variant.name) ::
    ((if variant.repositoryRoot = [] then [] else [("repositoryRoot".toList,.string variant.repositoryRoot)]) ++
      if variant.gitCommit = [] then [] else [("gitCommit".toList,.string variant.gitCommit)]))

-- all the arguments are optional
def listVariants (arguments : Option Members) : McpToolResult :=
  let members := arguments.getD []
  match parseLimit (integerArgument lib members "limit") with
  | none => refused "Invalid limit"
  | some limit =>
    let list (after : Text) : McpToolResult :=
      answer control (semindexDbListVariants db (collectVariant control configured after limit) ⟨[],false⟩)
        (fun variants => pageResult "variants" variantObject VariantRecord.name variants limit)
    match cursorArgument members with
    | .missing => list []
    | .text value => list value
    | .other => refused "Invalid cursor"

end Variants

section Workspace

/-- What a call of `stat` finds. -/
inductive Stated where
  | failed | missing
  | found (st : Stat)

/-- A file of the working tree during a read: at the first `stat`, once it is open, and at the second `stat`. -/
structure WorkingFile where
  before : Stated
  content : Option (List Byte)
  after : Stated

/-- What the tools see of the machine. -/
structure Machine where
  cwd : Canonical
  weaklyCanonical : Pathname → Option Pathname
  file : Pathname → WorkingFile
  gitBlob : Text → Text → Text → GitBlob

def isWithin (path root : Pathname) : Bool :=
  let relative := path.lexicallyRelative root
  !relative.isEmpty && !relative.rooted && relative.names.head? ≠ some Pathname.dotdot

variable (machine : Machine) (workspace : Canonical)

def allowedPath (arguments : Option Members) : Option Pathname :=
  match arguments.bind (getString · "path") with
  | none => none
  | some value =>
    if value = [] then none
    else
      let path := Pathname.ofText value
      let path := if path.rooted then path else workspace.path.append path
      match machine.weaklyCanonical path with
      | none => none
      | some resolved => if isWithin resolved workspace.path then some resolved else none

section Read
variable (db : Db) (resolver : SourceResolver) (request : SemindexSourceRequest)

-- the same reader as in `Drift`, with what its calls find
def readWorkingTree : Option SemindexSourceResult :=
  if !Drift.validRequest request then none
  else match db.files.lookup (request.variant,request.path) with
    | none => some {}
    | some metadata =>
      let prepared := Drift.prepared resolver request
      let drifted : SemindexSourceResult := {prepared with status := .drifted, drifted := true}
      let file := machine.file prepared.physicalPath
      match file.before with
      | .failed => none
      | .missing => some {prepared with status := .missing, drifted := true}
      | .found st =>
        if !metadataMatches metadata st then some drifted
        else match file.content.bind (fun content => readRange content request.range),file.after with
          | some taken,.found st =>
            if metadataMatches metadata st then
              some {prepared with
                status := .current, origin := .workingTree, lines := taken.lines, byteLimitHit := taken.byteLimitHit}
            else some drifted
          | _,_ => none

def readSource : Option SemindexSourceResult :=
  Drift.readSource db machine.gitBlob request (readWorkingTree machine db resolver request)

end Read

-- the first of the spellings that the index knows; `none` is an error, and that there is none at all
def firstSource (read : Text → Option SemindexSourceResult) : List Text → Option (Option Text × SemindexSourceResult)
  | [] => none
  | candidate::rest =>
    match read candidate with
    | none => none
    | some source =>
      if source.status ≠ .notIndexed then some (some candidate,source)
      else if rest = [] then some (none,source)
      else firstSource read rest

def DEFAULT_CONTEXT_LINES : Nat := 20
def MAX_CONTEXT_LINES : Nat := 200
def DEFAULT_CONTEXT_BYTES : Nat := 16*1024
def MAX_CONTEXT_BYTES : Nat := 64*1024

def sourceStatusName : SemindexSourceStatus → Text
  | .current => "current".toList
  | .notIndexed => "not-indexed".toList
  | .missing => "missing".toList
  | .drifted => "drifted".toList

def sourceOriginName : SemindexSourceOrigin → Text
  | .none => "none".toList
  | .workingTree => "working-tree".toList
  | .gitCommit => "git-commit".toList

variable (lib : JsonLibrary) (configured : Text) (control : Control)

-- a bound of the context; what is not an integer is not looked at
def boundArgument (members : Members) (name : String) (default : Nat) (largest : Int) (message : String) : Except String Nat :=
  match getInteger lib members name with
  | none => .ok default
  | some value => if value < 1 ∨ largest < value then .error message else .ok value.toNat

def contextRange (members : Members) (includeSource : Bool) : Except String LineRequest := do
  let firstLine ← boundArgument lib members "firstLine" 1 UINT_MAX "Invalid first line"
  if includeSource then
    let lineCount ← boundArgument lib members "lineCount" DEFAULT_CONTEXT_LINES MAX_CONTEXT_LINES "Invalid line count"
    let byteLimit ← boundArgument lib members "byteLimit" DEFAULT_CONTEXT_BYTES MAX_CONTEXT_BYTES "Invalid byte limit"
    return ⟨firstLine,lineCount,byteLimit⟩
  else return ⟨firstLine,1,1⟩

def sourceMembers (variant : Text) (path : Pathname) (found : Option Text × SemindexSourceResult) (includeSource : Bool) :
    Members :=
  [("variant".toList,.string variant),
    ("path".toList,.string (found.1.getD path.text)),
    ("status".toList,.string (sourceStatusName found.2.status)),
    ("origin".toList,.string (sourceOriginName found.2.origin)),
    ("drifted".toList,.boolean found.2.drifted)] ++
    if includeSource then
      [("firstLine".toList,number found.2.firstLine),
        ("lines".toList,.array (found.2.lines.map (text lib))),
        ("byteLimitHit".toList,.boolean found.2.byteLimitHit)]
    else []

/-- The path and the variant that a tool of the workspace is for. -/
def sourceArguments (arguments : Option Members) (variantRequired : Bool) : Option (Members × Pathname × Text) :=
  match arguments,allowedPath machine workspace arguments with
  | some members,some path =>
    match selectedVariant (variantArgument members) configured with
    | none => none
    | some selected => if variantRequired && selected = [] then none else some (members,path,selected)
  | _,_ => none

-- the members of the answer, or what is answered instead
def sourceRequest (db : Db) (arguments : Option Members) (includeSource : Bool) : Except McpToolResult Members :=
  match sourceArguments machine workspace configured arguments true with
  | none => .error (refused "Invalid source path or variant")
  | some (members,path,selected) =>
    match contextRange lib members includeSource with
    | .error message => .error (refused message)
    | .ok range =>
      if control.stopped then .error (stoppedResult control)
      else
        let resolver : SourceResolver := ⟨workspace.path⟩
        let read (candidate : Text) := readSource machine db resolver ⟨selected,candidate,range⟩
        match firstSource read (databasePaths resolver machine.cwd.text path.text) with
        | none => .error ⟨.databaseError,.object [],"Source lookup failed".toList⟩
        | some found => .ok (sourceMembers lib selected path found includeSource)

def readSourceContext (db : Db) (arguments : Option Members) : McpToolResult :=
  match sourceRequest machine workspace lib configured control db arguments true with
  | .error result => result
  | .ok members => ⟨.success,.object members,[]⟩

def symbolAt (db : Db) (arguments : Option Members) : McpToolResult :=
  match sourceArguments machine workspace configured arguments false with
  | none => refused "Invalid source path or variant"
  | some (members,path,selected) =>
    match getInteger lib members "line",getInteger lib members "column" with
    | some line,some column =>
      if line < 1 ∨ column < 1 ∨ UINT_MAX < line ∨ UINT_MAX < column then refused "Invalid source position"
      else if control.stopped then stoppedResult control
      else
        match recordsAt db ⟨workspace.path⟩ machine.cwd.text ⟨path.text,selected,line.toNat,column.toNat⟩ with
        | none => ⟨.databaseError,.object [],"Database query failed".toList⟩
        | some records => ⟨.success,recordsResult lib records MAX_LIMIT,[]⟩
    | _,_ => refused "Invalid source position"

end Workspace

section Calls
variable (lib : JsonLibrary) (db : Db) (configured : Text) (control : Control) (direction : CallDirection)

def callArguments (members : Members) : CallArguments where
  symbol := getString members "symbol"
  usrId := getString members "usrId"
  variant := variantArgument members
  limit := integerArgument lib members "limit"
  depth := integerArgument lib members "depth"
  nodeLimit := integerArgument lib members "nodeLimit"
  cursor := false

def graphRecordObject (record : GraphRecord) : Json :=
  match recordObject record.record with
  | .object members => .object (members ++ [("depth".toList,number record.depth)])
  | other => other

def graphObject (result : GraphResult) : Json :=
  .object [
    ("records".toList,.array (result.records.map graphRecordObject)),
    ("truncated".toList,.boolean result.truncated),
    ("nodeLimitHit".toList,.boolean result.nodeLimitHit),
    ("cyclesDetected".toList,.boolean result.cyclesDetected)]

def directCalls (request : GraphRequest) (cursor : Text) : McpToolResult :=
  if control.stopped then stoppedResult control
  else
    let done := semindexDbQueryCalls db (graphQuery direction request.root)
      (collectCallRecord (serializeCursor lib) request.limit cursor) ⟨[],cursor = []⟩
    if done.2 < 0 then ⟨.databaseError,.object [],"Database query failed".toList⟩
    else if !done.1.afterSeen then refused "Cursor does not match this query"
    else ⟨.success,recordsResult lib done.1.records request.limit,[]⟩

def callRecords (arguments : Option Members) : McpToolResult :=
  match arguments with
  | none => refused "Arguments are required"
  | some members =>
    match graphRequest (callArguments lib members) configured with
    | none => refused "Invalid function identity"
    | some request =>
      if 1 < request.depth then
        if (Json.get members "cursor").isSome then refused "Recursive call queries do not accept a cursor"
        else if control.stopped then stoppedResult control
        else match Mcp.callRecords db direction request with
          | some (.success,state) => ⟨.success,graphObject (state.result request),[]⟩
          | _ => ⟨.databaseError,.object [],"Database query failed".toList⟩
      else match cursorArgument members with
        | .missing => directCalls lib db control direction request []
        | .text value => directCalls lib db control direction request value
        | .other => refused "Invalid cursor"

end Calls

/-- `McpToolService`: its options. -/
structure McpToolService where
  workspace : Canonical
  variant : Text
  includeLocal : Bool
  allowReindex : Bool

/-- What a call leaves behind. -/
structure Called where
  result : McpToolResult
  symbols : Connection Shared
  commands : Option CommandFile

namespace McpToolService
variable (service : McpToolService) (machine : Machine) (lib : JsonLibrary)

def updater : Updater := ⟨CString.ofText service.workspace.text,.empty,false,service.includeLocal⟩

section Tools
variable (turn : Turn) (control : Control) (db : Db) (arguments : Option Members)

def indexStatus : McpToolResult :=
  match sourceArguments machine service.workspace service.variant arguments true with
  | none => refused "Invalid source path or variant"
  | some (_,path,selected) =>
    match sourceRequest machine service.workspace lib service.variant control db arguments false with
    | .error result => result
    | .ok members =>
      let available := commandAvailable turn.out turn.unreadable turn.looked (CString.ofText path.text) (CString.ofText selected)
      if available < 0 then ⟨.databaseError,.object [],"Compiler command lookup failed".toList⟩
      else ⟨.success,.object (members ++ [("compilerCommandAvailable".toList,.boolean (available = 0))]),[]⟩

-- the tools that only read
def query (name : Text) : McpToolResult :=
  if name = "search_symbols".toList then searchSymbols lib db service.variant control arguments
  else if name = "symbol_at".toList then symbolAt machine service.workspace lib service.variant control db arguments
  else if name = "find_definitions".toList then relatedRecords lib db service.variant control .definition arguments
  else if name = "find_references".toList then relatedRecords lib db service.variant control .reference arguments
  else if name = "find_declared_types".toList then declaredTypes lib db service.variant control arguments
  else if name = "find_function_signature".toList then functionSignature lib db service.variant control arguments
  else if name = "find_callers".toList then callRecords lib db service.variant control .callers arguments
  else if name = "find_callees".toList then callRecords lib db service.variant control .callees arguments
  else if name = "read_source_context".toList then
    readSourceContext machine service.workspace lib service.variant control db arguments
  else if name = "list_variants".toList then listVariants lib db service.variant control arguments
  else if name = "index_status".toList then service.indexStatus machine lib turn control db arguments
  else unknownResult

end Tools

section Reindex

def diagnosticSeverityName : Lsp.Diagnostics.Severity → Text
  | .note => "note".toList
  | .warning => "warning".toList
  | .error => "error".toList

def updateStatusName : UpdateStatus → Text
  | .clean => "clean".toList
  | .incomplete => "partial".toList
  | .failed => "failed".toList

def diagnosticObject (diagnostic : Lsp.Diagnostics.Diagnostic) : Json :=
  .object [
    ("severity".toList,.string (diagnosticSeverityName diagnostic.severity)),
    ("message".toList,.string diagnostic.message),
    ("path".toList,text lib diagnostic.file),
    ("line".toList,number diagnostic.line),
    ("column".toList,number diagnostic.column)]

def updateObject (variant : Text) (path : Pathname) (update : UpdateResult) : Json :=
  .object ([
    ("variant".toList,.string variant),
    ("path".toList,.string path.text),
    ("status".toList,.string (updateStatusName update.status)),
    ("compilerCommandAvailable".toList,.boolean update.commandAvailable),
    ("diagnostics".toList,.array (update.diagnostics.map (diagnosticObject lib))),
    ("diagnosticsTruncated".toList,.boolean update.diagnosticsTruncated)] ++
    if update.error = [] then [] else [("error".toList,text lib update.error)])

def updateRequest (path : Pathname) (selected : Text) (control : Control) : UpdateRequest :=
  ⟨CString.ofText path.text,CString.ofText selected,100,true,control.stopped⟩

variable (blake3 : List UInt8 → Fingerprint) (turn : Turn) (control : Nat → Control) (arguments : Option Members)

-- nothing is stored
def left (result : McpToolResult) : Called := ⟨result,.new turn.shared,turn.commands⟩

def updated (path : Pathname) (selected : Text) : Updated :=
  service.updater.update turn.out (updateRequest path selected (control 2)) turn.env blake3 turn.unreadable turn.looked
    turn.shared turn.commands

def reindexFile : Called :=
  match sourceArguments machine service.workspace service.variant arguments true with
  | none => left turn (refused "Invalid source path or variant")
  | some (_,path,selected) =>
    if (control 1).stopped then left turn (stoppedResult (control 1))
    else
      let done := service.updated blake3 turn control path selected
      ⟨if (control 3).stopped then stoppedResult (control 3) else ⟨.success,updateObject lib selected path done.result,[]⟩,
        done.symbols,done.commands⟩

/-- A call of a tool; the database is `none` where it does not open. The control is looked at once and again. -/
def call (opened : Option Db) (name : Text) : Called :=
  if (control 0).stopped then left turn (stoppedResult (control 0))
  else if name = "reindex_file".toList then
    if service.allowReindex then service.reindexFile machine lib blake3 turn control arguments
    else left turn unknownResult
  else match opened with
    | none => left turn databaseResult
    | some db =>
      if (control 1).stopped then left turn (stoppedResult (control 1))
      else left turn (service.query machine lib turn (control 2) db arguments name)

end Reindex
end McpToolService
end Semindex.Mcp.Tools
