import Semindex.Support.Layers
import Semindex.Source.Resolver
import Semindex.Lsp.Server
import Semindex.Lsp.Source

/-! `LspOverlay`, and the answers of the language server that ask it before the
database. A record of an answer carries the layer it comes from: the overlay is
the upper one. A URI stands for the path it encodes. -/
namespace Semindex.Lsp
open Semindex.Relational Semindex.IndexDb Semindex.Database Semindex.Source Semindex.Layers

section Overlay

-- the overlay's own copy of the writer's function
def qualifiedName (owner name : Text) : Text :=
  if owner = [] then name
  else
    let separator := if "::".toList <:+: owner then "::".toList else ".".toList
    owner ++ separator ++ name

-- built by itself, and the name that the writer stores
theorem qualifiedName_stored (owner name : Text) : qualifiedName owner name = IndexDb.qualifiedName owner name := by
  unfold qualifiedName IndexDb.qualifiedName
  dsimp only
  split_ifs <;> rfl

/-- `LspOverlay::Record`. -/
structure OverlayRecord where
  symbol : Text
  context : Text
  record : RecordType
  kind : Nat
  action : Nat
  mode : Nat
  line : Nat
  column : Nat
  usrId : Id
  contextUsrId : Id
  isLocal : Bool
  deriving DecidableEq

def symbolEntry (symbol : Symbol) : OverlayRecord where
  symbol := Lsp.qualifiedName symbol.owner symbol.name
  context := symbol.context
  record := if symbol.definition then .definition else .declaration
  kind := symbol.kind.code
  action := symbol.definition.toNat
  mode := 0
  line := symbol.line
  column := symbol.column
  usrId := symbol.usrId
  contextUsrId := 0
  isLocal := symbol.isLocal

def useEntry (u : Use) : OverlayRecord where
  symbol := Lsp.qualifiedName u.owner u.name
  context := u.context
  record := .reference
  kind := u.symbolKind.code
  action := u.kind.code
  mode := u.mode
  line := u.line
  column := u.column
  usrId := u.usrId
  contextUsrId := u.contextUsrId
  isLocal := u.isLocal

structure LspOverlay where
  indices : Table Text (List OverlayRecord)

def overlayKey (path : Text) : Text := (normalize path).text

-- the items of the index in the main file, by their names in the directory of the command
def mainEntries (path directory : Text) (index : Index) : List OverlayRecord :=
  let main := Pathname.ofText (overlayKey path)
  let inMain (file : Text) : Bool := resolveAgainst (Pathname.ofText directory) file = main
  (index.symbols.filter (fun symbol => inMain symbol.file)).map symbolEntry ++
    (index.uses.filter (fun u => inMain u.file)).map useEntry

def matchesFilter (record : RecordType) (filter : RecordFilter) : Bool :=
  match filter with
  | .all => true
  | .symbol => record ≠ .reference
  | .declaration => record = .declaration
  | .definition => record = .definition
  | .reference => record = .reference

def matchesOptions (record : DbRecord) (options : QueryOptions) : Bool :=
  options.symbol.all (fun symbol => record.symbol = symbol) &&
  options.path.all (fun path => normalize record.path = normalize path) &&
  options.context.all (fun context => record.context = context) &&
  options.mode.all (fun mode => record.mode = mode) &&
  options.usrId.all (fun usrId => record.usrId = usrId) &&
  options.kind.all (fun kind => record.kind = kind) &&
  options.isLocal.all (fun isLocal => record.isLocal = isLocal) &&
  matchesFilter record.record options.record

def OverlayRecord.view (stored : OverlayRecord) (path variant : Text) : DbRecord where
  variant := variant
  path := path
  symbol := stored.symbol
  context := stored.context
  record := stored.record
  kind := stored.kind
  action := stored.action
  mode := stored.mode
  line := stored.line
  column := stored.column
  usrId := stored.usrId
  contextUsrId := stored.contextUsrId
  isLocal := stored.isLocal

namespace LspOverlay
variable {σ : Type} (overlay : LspOverlay)

def replace (path directory : Text) (index : Index) : LspOverlay :=
  ⟨overlay.indices.insert (overlayKey path) (mainEntries path directory index)⟩

def erase (path : Text) : LspOverlay := ⟨overlay.indices.erase (overlayKey path)⟩

def entry (path : Text) : Option (List OverlayRecord) := overlay.indices.lookup (overlayKey path)

def contains (path : Text) : Bool := (overlay.entry path).isSome

def emitRecord (stored : OverlayRecord) (path variant : Text) (options : Option QueryOptions) (line column : Nat)
    (callback : Callback σ DbRecord) (data : σ) : σ × Int :=
  let record := stored.view path variant
  if options.any (fun options => !matchesOptions record options) then (data,0)
  else if line ≠ 0 && (record.line ≠ line || !coversPosition column record) then (data,0)
  else callback data record

def emitEntry (path variant : Text) (options : Option QueryOptions) (line column : Nat)
    (callback : Callback σ DbRecord) : List OverlayRecord → σ → σ × Int
  | [],data => (data,0)
  | stored::records,data =>
    let (data,ret) := emitRecord stored path variant options line column callback data
    if ret ≠ 0 then (data,ret) else emitEntry path variant options line column callback records data

def findAt (path : Text) (variant : Option Text) (line column : Nat) (callback : Callback σ DbRecord) (data : σ) :
    σ × Int :=
  match overlay.entry path with
  | none => (data,0)
  | some records =>
    if line = 0 || column = 0 then (data,-1)
    else emitEntry (overlayKey path) (variant.getD []) none line column callback records data

def query (path : Text) (variant : Option Text) (options : QueryOptions) (callback : Callback σ DbRecord)
    (data : σ) : σ × Int :=
  match overlay.entry path with
  | none => (data,0)
  | some records => emitEntry (overlayKey path) (variant.getD []) (some options) 0 0 callback records data

end LspOverlay
end Overlay

/-- `LspSourceMapper`: the workspace, and the lines of the physical files. -/
structure LspSourceMapper where
  resolver : SourceResolver
  cwd : Text
  lines : Text → List Bytes

/-- A text position; the path is what its URI decodes to, if that is an absolute one. -/
structure TextPosition where
  filePath : Option Text
  line : Nat
  character : Nat

structure LocationCollector where
  locations : List (Layered DbRecord)
  excludedUri : Option Text
  records : Nat

structure HighlightCollector where
  highlights : List (Slot DbRecord)
  excludedUri : Option Text

structure LspServer where
  database : Db
  overlay : LspOverlay
  sources : LspSourceMapper
  variant : Text

section Sources
variable (sources : LspSourceMapper)

def LspSourceMapper.uri (path : Text) : Text := (resolve sources.resolver path).text

def LspSourceMapper.databasePaths (path : Text) : List Text := Source.databasePaths sources.resolver sources.cwd path

def LspSourceMapper.byteColumn (position : TextPosition) : Option Nat := do
  let path ← position.filePath
  let text ← (sources.lines (resolve sources.resolver path).text)[position.line]?
  let offset ← byteOffset position.character text
  some (offset + 1)

-- the key of a location
def place (record : DbRecord) : Text × Nat × Nat := (record.path,record.line,record.column)

def collectLocation (layer : Layer) : Callback LocationCollector DbRecord := fun collector record =>
  if collector.excludedUri = some (sources.uri record.path) then (collector,0)
  else
    ({ collector with
        records := collector.records + 1
        locations := if place record ∈ collector.locations.map (fun known => place known.item) then
          collector.locations else collector.locations ++ [⟨layer,record⟩] },0)

def highlightKind (record : DbRecord) : Nat :=
  if record.record ≠ .reference then 1
  else if record.action = UseKind.read.code then 2
  else if record.action = UseKind.write.code then 3
  else 1

-- the range of a highlight is that of its first record, and the kind that of its best
def collectHighlight (layer : Layer) : Callback HighlightCollector DbRecord := fun collector record =>
  if collector.excludedUri = some (sources.uri record.path) then (collector,0)
  else if place record ∈ collector.highlights.map (fun known => place known.first.item) then
    ({ collector with
        highlights := collector.highlights.map (fun known =>
          if place known.first.item = place record ∧ highlightKind known.best.item < highlightKind record then
            {known with best := ⟨layer,record⟩}
          else known) },0)
  else ({collector with highlights := collector.highlights ++ [⟨⟨layer,record⟩,⟨layer,record⟩⟩]},0)

end Sources

local instance : LawfulBEq (Identity × Option (Text × Text × Bool)) := inferInstance

def collectRecord (layer : Layer) : Callback (List (Layered DbRecord)) DbRecord := fun records record =>
  (if recordKey record ∈ records.map (fun known => recordKey known.item) then records
    else records ++ [⟨layer,record⟩],0)

namespace LspServer
variable (server : LspServer)

def lookAt (query : PositionQuery) : List Text → List (Layered DbRecord) → Option (List (Layered DbRecord))
  | [],records => some records
  | path::paths,records =>
    let variant := if query.variant = [] then none else some query.variant
    let overlaid := server.overlay.contains path
    let (records,ret) := if overlaid then
      server.overlay.findAt path variant query.line query.column (collectRecord .upper) records else (records,0)
    if ret < 0 then none
    else if overlaid && records ≠ [] then some records
    else
      let (records,ret) := semindexDbFindAt server.database path variant query.line query.column
        (collectRecord .lower) records
      if ret < 0 then none
      else if records ≠ [] then some records
      else lookAt query paths records

def recordsAt (query : PositionQuery) : Option (List (Layered DbRecord)) :=
  if query.path = [] || query.line = 0 || query.column = 0 then none
  else server.lookAt query (server.sources.databasePaths query.path) []

def symbolsAt (position : TextPosition) : Option (List (Layered DbRecord)) :=
  match server.sources.byteColumn position,position.filePath with
  | some column,some path => server.recordsAt ⟨path,server.variant,position.line + 1,column⟩
  | _,_ => some []

def querySymbol (cursor : DbRecord) (filter : RecordFilter) (collector : LocationCollector) :
    LocationCollector × Int :=
  let options := querySymbolOptions cursor filter
  let collector := {collector with excludedUri := none}
  let before := collector.records
  let (collector,ret) := if server.overlay.contains cursor.path then
    server.overlay.query cursor.path (some cursor.variant) options (collectLocation server.sources .upper) collector
    else (collector,0)
  if ret < 0 then (collector,-1)
  else
    let collector := if collector.records ≠ before then
      {collector with excludedUri := some (server.sources.uri cursor.path)} else collector
    let (collector,ret) := if cursor.isLocal then
      queryPaths server.database options (collectLocation server.sources .lower)
        (server.sources.databasePaths (server.sources.uri cursor.path)) collector
      else semindexDbQuery server.database options (collectLocation server.sources .lower) collector
    ({collector with excludedUri := none},ret)

def definitionOf : List DbRecord → LocationCollector → Option LocationCollector
  | [],collector => some collector
  | cursor::cursors,collector =>
    let before := collector.records
    let (collector,ret) := server.querySymbol cursor .definition collector
    if ret < 0 then none
    else if collector.records = before then
      let (collector,ret) := server.querySymbol cursor .declaration collector
      if ret < 0 then none else definitionOf cursors collector
    else definitionOf cursors collector

def querySymbols (filter : RecordFilter) : List DbRecord → LocationCollector → Option LocationCollector
  | [],collector => some collector
  | cursor::cursors,collector =>
    let (collector,ret) := server.querySymbol cursor filter collector
    if ret < 0 then none else querySymbols filter cursors collector

def highlightsOf (position : TextPosition) : List DbRecord → HighlightCollector → Option HighlightCollector
  | [],collector => some collector
  | cursor::cursors,collector =>
    let options := {highlightOptions cursor with path := some cursor.path}
    let collector := {collector with excludedUri := none}
    let before := collector.highlights.length
    let (collector,ret) := if server.overlay.contains cursor.path then
      server.overlay.query cursor.path (some cursor.variant) options (collectHighlight server.sources .upper) collector
      else (collector,0)
    if ret < 0 then none
    else
      let collector := if collector.highlights.length ≠ before then
        {collector with excludedUri := some (server.sources.uri cursor.path)} else collector
      let (collector,ret) := queryPaths server.database options (collectHighlight server.sources .lower)
        (position.filePath.elim [] server.sources.databasePaths) collector
      if ret < 0 then none else highlightsOf position cursors {collector with excludedUri := none}

/-- The locations of the reply, or none for an error. -/
def definition (position : TextPosition) : Option (List (Layered DbRecord)) := do
  let cursors ← server.symbolsAt position
  let collector ← server.definitionOf (cursors.map Layered.item) ⟨[],none,0⟩
  some collector.locations

def references (position : TextPosition) (includeDeclaration : Bool) : Option (List (Layered DbRecord)) := do
  let cursors ← server.symbolsAt position
  let collector ← server.querySymbols .reference (cursors.map Layered.item) ⟨[],none,0⟩
  let collector ← if includeDeclaration then server.querySymbols .symbol (cursors.map Layered.item) collector
    else some collector
  some collector.locations

def documentHighlight (position : TextPosition) : Option (List (Slot DbRecord)) := do
  let cursors ← server.symbolsAt position
  let collector ← server.highlightsOf position (cursors.map Layered.item) ⟨[],none⟩
  some collector.highlights

end LspServer
end Semindex.Lsp
