import Semindex.Support.Path
import Semindex.Support.Repository
import Semindex.Database.Rows

/-! `SemindexSourceResolver` and what asks it for the database's spellings of a
source: `recordsAt` and the lookups of `read_source_context` and `index_status`.
The lines themselves are those of the physical path or of the blob at the path
in the commit. -/
namespace Semindex.Source
open Semindex.Relational Semindex.IndexDb Semindex.Database

def normalize (path : Text) : Pathname := (Pathname.ofText path).lexicallyNormal

def resolveAgainst (directory : Pathname) (path : Text) : Pathname :=
  if (Pathname.ofText path).rooted then normalize path
  else (directory.append (Pathname.ofText path)).lexicallyNormal

structure SourceResolver where
  root : Pathname

def setWorkspaceRoot (path : Text) : Option SourceResolver :=
  if (Pathname.ofText path).rooted then some ⟨normalize path⟩ else none

section Resolver
variable (resolver : SourceResolver)

def resolve (path : Text) : Pathname := resolveAgainst resolver.root path

-- `!relative.empty() && *relative.begin() != ".."`
def inside (relative : Pathname) : Bool := !relative.isEmpty && relative.names.head? ≠ some Pathname.dotdot

def databasePaths (cwd path : Text) : List Text :=
  let normalized := normalize path
  if !normalized.rooted then []
  else
    let relative := normalized.lexicallyRelative resolver.root
    let result := normalized.text :: if inside relative then [relative.text] else []
    let cwdRelative := normalized.lexicallyRelative (Pathname.ofText cwd)
    let distinct := cwdRelative ≠ relative || result.length = 1
    if inside cwdRelative && distinct then result ++ [cwdRelative.text] else result

/-- The path of a source in the commit of a variant with this repository root. -/
def commitPath (path : Text) (root : Pathname) : Option Text :=
  let source := Pathname.ofText path
  let relative := (if source.rooted then source.lexicallyRelative root else source).lexicallyNormal
  if relative.isEmpty || relative.rooted || relative.names.head? = some Pathname.dotdot then none
  else some relative.text

-- the path `open_source` of the search output opens, by the variant's root or the hint
def openSource (root hint : Option Text) (path : Text) : Text :=
  if path.head? = some '/' then path
  else
    match root,hint with
    | none,none => path
    | some base,_ => base ++ '/' :: path
    | none,some base => base ++ '/' :: path

end Resolver

section Lookup
variable (db : Db) (resolver : SourceResolver) (cwd : Text)

-- records without an id are one only where file, context and locality agree too
def recordKey (record : DbRecord) : Identity × Option (Text × Text × Bool) :=
  (⟨record.variant,record.symbol,record.usrId,record.kind⟩,
    if record.usrId = 0 then some (record.path,record.context,record.isLocal) else none)

def collectRecord : Callback (List DbRecord) DbRecord := fun records record =>
  (if recordKey record ∈ records.map recordKey then records else records ++ [record],0)

structure PositionQuery where
  path : Text
  variant : Text
  line : Nat
  column : Nat

def lookAt (query : PositionQuery) : List Text → List DbRecord → Option (List DbRecord)
  | [],records => some records
  | path::paths,records =>
    let variant := if query.variant = [] then none else some query.variant
    let (records,ret) := semindexDbFindAt db path variant query.line query.column collectRecord records
    if ret < 0 then none
    else if records ≠ [] then some records
    else lookAt query paths records

/-- `recordsAt` for a file without an overlay; `none` is -1. -/
def recordsAt (query : PositionQuery) : Option (List DbRecord) :=
  if query.path = [] || query.line = 0 || query.column = 0 then none
  else lookAt db query (databasePaths resolver cwd query.path) []

inductive SourceStatus where
  | current | missing | drifted
  deriving DecidableEq

structure SourceResult where
  indexedPath : Text
  metadata : FileRow
  physicalPath : Pathname
  status : SourceStatus
  deriving DecidableEq

def metadataMatches (metadata : FileRow) (st : Stat) : Bool :=
  metadata.mtimeNs = st.mtimeNs && metadata.size = st.size

-- `none` is NotIndexed; the file does not change during the call
def readWorkingTree (fs : FileSystem) (variant path : Text) : Option SourceResult :=
  (db.files.lookup (variant,path)).map (fun metadata =>
    let physical := resolve resolver path
    ⟨path,metadata,physical,
      match fs.stat physical.text with
      | none => .missing
      | some st => if metadataMatches metadata st then .current else .drifted⟩)

def sourceRequest (fs : FileSystem) (variant path : Text) : Option SourceResult :=
  (databasePaths resolver cwd path).findSome? (readWorkingTree db resolver fs variant)

end Lookup
end Semindex.Source
