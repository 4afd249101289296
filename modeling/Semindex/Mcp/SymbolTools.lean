import Semindex.IndexDb.Output
import Semindex.Mcp.Cursors

/-! The tools of the MCP server that answer with the records or the types of a symbol,
page by page: the checks of their arguments, the query, and the page as JSON with the
cursor of the next one. The control of a request does not change during a call. -/
namespace Semindex.Mcp.Tools
open Semindex.Relational Semindex.IndexDb Semindex.Database Semindex.Json
open Semindex.Mcp.Requests (Members Control McpToolResult stoppedResult)
open Semindex.Mcp.Cursors

section Arguments
variable (lib : JsonLibrary) (members : Members)

def integerArgument (name : String) : Argument :=
  match getInteger lib members name with
  | some value => .integer value
  | none => if (Json.get members name).isSome then .other else .missing

def variantArgument : Option (Option Text) :=
  match Json.get members "variant" with
  | none => none
  | some (.string value) => some (some value)
  | some _ => some none

def cursorArgument : CursorArgument :=
  match Json.get members "cursor" with
  | none => .missing
  | some (.string value) => .text value
  | some _ => .other

-- what is left of a string that is handed over as a pointer
def cString (text : Text) : Text := text.takeWhile (fun c => c ≠ Char.ofNat 0)

def parseKind (value : Text) : Option Nat :=
  (Output.symbolKindNames.find? (fun entry => entry.2 = cString value)).map (fun entry => entry.1.code)

def fromBytes (bytes : List UInt8) : Text := cString ((decodeUtf8 bytes).getD [])

def recordTypeOf (record : Int) : RecordType :=
  if record = 0 then .declaration else if record = 1 then .definition else .reference

def cursorFrom (place : RecordPlace) : Cursor where
  variant := fromBytes place.variant
  path := fromBytes place.path
  symbol := fromBytes place.symbol
  record := recordTypeOf place.record
  kind := place.kind.toNat
  action := place.action.toNat
  mode := place.mode.toNat
  line := place.line.toNat
  column := place.column.toNat

def typeCursorFrom (place : TypePlace) : SymbolTypeCursor where
  declaredType := fromBytes place.declaredType
  canonicalType := fromBytes place.canonicalType
  typeSymbol := fromBytes place.typeSymbol
  typeKind := place.typeKind
  typeUsrId := place.typeUsrId
  path := fromBytes place.path

def functionTypeCursorFrom (place : FunctionTypePlace) : FunctionTypeCursor where
  position := place.position
  declaredType := fromBytes place.declaredType
  canonicalType := fromBytes place.canonicalType
  typeSymbol := fromBytes place.typeSymbol
  typeKind := place.typeKind
  typeUsrId := place.typeUsrId
  path := fromBytes place.path

-- the position to continue from, as the parser of its kind of cursor reads it
def afterArgument {γ : Type} (parse : Text → Option γ) : Except String (Option γ) :=
  match cursorArgument members with
  | .missing => .ok none
  | .text value =>
    match parse value with
    | some place => .ok (some place)
    | none => .error "Invalid cursor"
  | .other => .error "Invalid cursor"

def recordAfter (value : Text) : Option Cursor := (parseCursor lib value).map cursorFrom
def typeAfter (value : Text) : Option SymbolTypeCursor := (parseTypeCursor lib value).map typeCursorFrom
def functionTypeAfter (value : Text) : Option FunctionTypeCursor :=
  (parseFunctionTypeCursor lib value).map functionTypeCursorFrom

def kindArgument : Except String (Option Nat) :=
  match Json.get members "kind" with
  | none => .ok none
  | some (.string value) =>
    match parseKind value with
    | some kind => .ok (some kind)
    | none => .error "Invalid symbol kind"
  | some _ => .error "Invalid symbol kind"

end Arguments

section Objects
variable (lib : JsonLibrary)

def recordName : RecordType → Text
  | .declaration => "declaration".toList
  | .definition => "definition".toList
  | .reference => "reference".toList

def actionName (record : DbRecord) : Text :=
  if record.record ≠ .reference then "none".toList
  else match record.action with
    | 0 => "read".toList
    | 1 => "write".toList
    | 2 => "address".toList
    | 3 => "call".toList
    | _ => "unknown".toList

def modeChar (mode bit : Nat) : Char :=
  if mode.testBit bit && mode.testBit (bit+1) then 'm'
  else if mode.testBit bit then 'r'
  else if mode.testBit (bit+1) then 'w'
  else '-'

def modeName (mode : Nat) : Text := [modeChar mode 0,modeChar mode 2,modeChar mode 4]

def kindName (kind : Int) : Text := if kind < 0 then "unknown".toList else Output.semindexSymbolKindName kind.toNat

def recordObject (record : DbRecord) : Json :=
  .object ([
    ("variant".toList,.string record.variant),
    ("path".toList,.string record.path),
    ("line".toList,number record.line),
    ("column".toList,number record.column),
    ("symbol".toList,.string record.symbol),
    ("kind".toList,.string (kindName record.kind)),
    ("record".toList,.string (recordName record.record)),
    ("action".toList,.string (actionName record)),
    ("mode".toList,.string (modeName record.mode)),
    ("context".toList,.string record.context),
    ("local".toList,.boolean record.isLocal)] ++
    (if record.usrId = 0 then [] else [("usrId".toList,.string (idString record.usrId))]) ++
    if record.contextUsrId = 0 then [] else [("contextUsrId".toList,.string (idString record.contextUsrId))])

def typeIdentity (variant symbol : Text) (kind : Int) (usrId : Id) : Text × Json :=
  ("typeIdentity".toList,.object [
    ("variant".toList,.string variant),
    ("symbol".toList,.string symbol),
    ("kind".toList,.string (kindName kind)),
    ("usrId".toList,.string (idString usrId))])

def symbolTypeObject (type : DbSymbolType) : Json :=
  .object ([
    ("variant".toList,.string type.variant),
    ("path".toList,.string type.path),
    ("symbol".toList,.string type.symbol),
    ("kind".toList,.string (kindName type.kind)),
    ("usrId".toList,.string (idString type.usrId)),
    ("declaredType".toList,.string type.declaredType),
    ("canonicalType".toList,.string type.canonicalType)] ++
    if type.hasTypeIdentity then [typeIdentity type.variant type.typeSymbol type.typeKind type.typeUsrId] else [])

def functionTypeObject (type : DbFunctionType) : Json :=
  .object ([
    ("variant".toList,.string type.variant),
    ("path".toList,.string type.path),
    ("symbol".toList,.string type.symbol),
    ("usrId".toList,.string (idString type.usrId)),
    ("position".toList,number type.position),
    ("name".toList,.string type.name),
    ("declaredType".toList,.string type.declaredType),
    ("canonicalType".toList,.string type.canonicalType),
    ("variadic".toList,.boolean type.variadic)] ++
    if type.hasTypeIdentity then [typeIdentity type.variant type.typeSymbol type.typeKind type.typeUsrId] else [])

def typePlace (type : SymbolTypeCursor) : TypePlace where
  declaredType := utf8 type.declaredType
  canonicalType := utf8 type.canonicalType
  typeSymbol := utf8 type.typeSymbol
  typeKind := type.typeKind
  typeUsrId := type.typeUsrId
  path := utf8 type.path

def functionTypePlace (type : FunctionTypeCursor) : FunctionTypePlace where
  position := type.position
  declaredType := utf8 type.declaredType
  canonicalType := utf8 type.canonicalType
  typeSymbol := utf8 type.typeSymbol
  typeKind := type.typeKind
  typeUsrId := type.typeUsrId
  path := utf8 type.path

def recordKey (record : DbRecord) : Text := Cursors.recordCursor lib (placeOf (cursorOf record))
def typeKey (type : DbSymbolType) : Text := typeCursor lib (typePlace (symbolTypeCursorOf type))
def functionTypeKey (type : DbFunctionType) : Text := functionTypeCursor lib (functionTypePlace (functionTypeCursorOf type))

-- one more than the limit was asked for, to see whether there are more
def pageResult {ρ : Type} (name : String) (form : ρ → Json) (key : ρ → Text) (records : List ρ) (limit : Nat) : Json :=
  let more : Bool := limit < records.length
  let records : List ρ := records.take limit
  .object ([(name.toList,.array (records.map form)),("truncated".toList,.boolean more)] ++
    if more then (records.getLast?.map (fun last => ("nextCursor".toList,Json.string (key last)))).toList else [])

def recordsResult (records : List DbRecord) (limit : Nat) : Json :=
  pageResult "records" recordObject (recordKey lib) records limit

def symbolTypesResult (records : List DbSymbolType) (limit : Nat) : Json :=
  pageResult "types" symbolTypeObject (typeKey lib) records limit

def functionTypesResult (records : List DbFunctionType) (limit : Nat) : Json :=
  pageResult "types" functionTypeObject (functionTypeKey lib) records limit

end Objects

section Tools
variable (lib : JsonLibrary) (db : Db) (configured : Text) (control : Control)

structure Collector (ρ : Type) where
  records : List ρ
  stopped : Bool

def collectRecord (limit : Nat) : Callback (Collector DbRecord) DbRecord := fun collector record =>
  if control.stopped then ({collector with stopped := true},1)
  else
    let records := collector.records ++ [record]
    ({collector with records},if limit < records.length then 1 else 0)

def collectType {ρ : Type} : Callback (Collector ρ) ρ := fun collector type =>
  if control.stopped then ({collector with stopped := true},1)
  else ({collector with records := collector.records ++ [type]},0)

def collectSymbolType : Callback (Collector DbSymbolType) DbSymbolType := collectType control
def collectFunctionType : Callback (Collector DbFunctionType) DbFunctionType := collectType control

def refused (message : String) : McpToolResult := ⟨.invalidParams,.object [],message.toList⟩

-- how each of the tools ends, behind its query
def answer {ρ : Type} (done : Collector ρ × Int) (result : List ρ → Json) : McpToolResult :=
  if done.1.stopped || control.stopped then stoppedResult control
  else if done.2 < 0 then ⟨.databaseError,.object [],"Database query failed".toList⟩
  else ⟨.success,result done.1.records,[]⟩

inductive RecordQuery where
  | symbols (query : QueryOptions)
  | identity (query : IdentityQuery)

def RecordQuery.run {σ : Type} : RecordQuery → Callback σ DbRecord → σ → σ × Int
  | .symbols query => semindexDbQuery db query
  | .identity query => semindexDbQueryIdentity db query

section Checks
variable (members : Members)

def searchQuery : Except String (Nat × RecordQuery) :=
  match getString members "pattern",selectedVariant (variantArgument members) configured,
    parseLimit (integerArgument lib members "limit") with
  | some pattern,some selected,some limit =>
    if pattern = [] then .error "Invalid search arguments"
    else do
      let after ← afterArgument members (recordAfter lib)
      let kind ← kindArgument members
      return (limit,.symbols {
        symbol := some (cString pattern)
        variant := if selected = [] then none else some (cString selected)
        after := after
        limit := limit+1
        kind := kind})
  | _,_,_ => .error "Invalid search arguments"

def relatedQuery (filter : RecordFilter) : Except String (Nat × RecordQuery) :=
  match getString members "symbol",selectedVariant (variantArgument members) configured,
    parseLimit (integerArgument lib members "limit") with
  | some symbol,some selected,some limit =>
    if symbol = [] || selected = [] then .error "Invalid symbol identity"
    else do
      let after ← afterArgument members (recordAfter lib)
      match getString members "usrId" with
      | some value =>
        match parseId value,(getString members "kind").bind parseKind with
        | some id,some kind =>
          if id = 0 then .error "Invalid stable identity"
          else return (limit,.identity ⟨⟨cString selected,cString symbol,id,kind⟩,after,limit+1,filter⟩)
        | _,_ => .error "Invalid stable identity"
      | none =>
        return (limit,.symbols {
          symbol := some (cString symbol)
          variant := some (cString selected)
          after := after
          limit := limit+1
          record := filter
          context := (getString members "context").map cString
          isLocal := getBoolean members "local"})
  | _,_,_ => .error "Invalid symbol identity"

def declaredTypesQuery : Except String (Nat × SymbolTypeQuery) :=
  match getString members "symbol",getString members "usrId",getString members "kind",
    selectedVariant (variantArgument members) configured with
  | some symbol,some idValue,some kindValue,some selected =>
    if symbol = [] || selected = [] then .error "Invalid symbol identity"
    else match parseLimit (integerArgument lib members "limit") with
      | none => .error "Invalid limit"
      | some limit =>
        match parseId idValue,parseKind kindValue with
        | some id,some kind =>
          if id = 0 then .error "Invalid symbol identity"
          else do
            let after ← afterArgument members (typeAfter lib)
            return (limit,⟨⟨cString selected,cString symbol,id,kind⟩,after,limit+1⟩)
        | _,_ => .error "Invalid symbol identity"
  | _,_,_,_ => .error "Invalid symbol identity"

def functionSignatureQuery : Except String (Nat × FunctionTypeQuery) :=
  match getString members "symbol",getString members "usrId",selectedVariant (variantArgument members) configured with
  | some symbol,some idValue,some selected =>
    if symbol = [] || selected = [] then .error "Invalid function identity"
    else match parseLimit (integerArgument lib members "limit") with
      | none => .error "Invalid limit"
      | some limit =>
        match parseId idValue with
        | some id =>
          if id = 0 then .error "Invalid function identity"
          else do
            let after ← afterArgument members (functionTypeAfter lib)
            return (limit,⟨⟨cString selected,cString symbol,id,SymbolKind.function.code⟩,after,limit+1⟩)
        | none => .error "Invalid function identity"
  | _,_,_ => .error "Invalid function identity"

end Checks

-- a tool that first checks its arguments
def checked {κ : Type} (arguments : Option Members) (check : Members → Except String κ) (rest : κ → McpToolResult) :
    McpToolResult :=
  match arguments with
  | none => refused "Arguments are required"
  | some members =>
    match check members with
    | .error message => refused message
    | .ok query => rest query

def answerRecords (query : Nat × RecordQuery) : McpToolResult :=
  answer control (query.2.run db (collectRecord control query.1) ⟨[],false⟩) (fun records => recordsResult lib records query.1)

def searchSymbols (arguments : Option Members) : McpToolResult :=
  checked arguments (searchQuery lib configured) (answerRecords lib db control)

def relatedRecords (filter : RecordFilter) (arguments : Option Members) : McpToolResult :=
  checked arguments (fun members => relatedQuery lib configured members filter) (answerRecords lib db control)

def declaredTypes (arguments : Option Members) : McpToolResult :=
  checked arguments (declaredTypesQuery lib configured) (fun query =>
    answer control (semindexDbQuerySymbolTypes db query.2 (collectSymbolType control) ⟨[],false⟩)
      (fun records => symbolTypesResult lib records query.1))

def functionSignature (arguments : Option Members) : McpToolResult :=
  checked arguments (functionSignatureQuery lib configured) (fun query =>
    answer control (semindexDbQueryFunctionTypes db query.2 (collectFunctionType control) ⟨[],false⟩)
      (fun records => functionTypesResult lib records query.1))

end Tools
end Semindex.Mcp.Tools
