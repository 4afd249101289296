import Semindex.Relational.Glob
import Semindex.Relational.Paging
import Semindex.IndexDb.Reachable
import Mathlib.Data.Prod.Lex

/-! The queries of `semindex_database.h` over the shared tables. A result row is a
row of a table joined with its file; `select` gives the rows of the SQL text in
its order, and the functions below it hand them to the callback. -/
namespace Semindex.Database
open Semindex.Relational Semindex.IndexDb

inductive RecordType where
  | declaration | definition | reference
  deriving DecidableEq

-- `enum semindex_db_record_type`
def RecordType.code : RecordType → Nat
  | .declaration => 0
  | .definition => 1
  | .reference => 2

inductive RecordFilter where
  | all | symbol | declaration | definition | reference
  deriving DecidableEq

structure Cursor where
  variant : Text
  path : Text
  symbol : Text
  record : RecordType
  kind : Nat
  action : Nat
  mode : Nat
  line : Nat
  column : Nat
  deriving DecidableEq

structure QueryOptions where
  symbol : Option Text := none
  path : Option Text := none
  variant : Option Text := none
  context : Option Text := none
  after : Option Cursor := none
  limit : Nat := 0
  record : RecordFilter := .all
  mode : Option Nat := none
  usrId : Option Id := none
  kind : Option Nat := none
  isLocal : Option Bool := none

structure DbRecord where
  variant : Text
  path : Text
  symbol : Text
  context : Text
  record : RecordType
  kind : Nat
  action : Nat
  mode : Nat
  line : Nat
  column : Nat
  usrId : Id
  contextUsrId : Id
  isLocal : Bool
  deriving DecidableEq

structure Identity where
  variant : Text
  symbol : Text
  usrId : Id
  kind : Nat
  deriving DecidableEq

structure IdentityQuery where
  identity : Identity
  after : Option Cursor := none
  limit : Nat := 0
  record : RecordFilter := .all

inductive CallDirection where
  | callers | callees
  deriving DecidableEq

structure CallOptions where
  function : Text
  variant : Option Text
  usrId : Id
  direction : CallDirection

structure DbSymbolType where
  variant : Text
  path : Text
  symbol : Text
  declaredType : Text
  canonicalType : Text
  typeSymbol : Text
  kind : Nat
  typeKind : Int
  usrId : Id
  typeUsrId : Id
  hasTypeIdentity : Bool
  deriving DecidableEq

structure SymbolTypeCursor where
  declaredType : Text
  canonicalType : Text
  typeSymbol : Text
  typeKind : Int
  typeUsrId : Id
  path : Text
  deriving DecidableEq

structure SymbolTypeQuery where
  identity : Identity
  after : Option SymbolTypeCursor := none
  limit : Nat := 0

structure DbFunctionType where
  variant : Text
  path : Text
  symbol : Text
  name : Text
  declaredType : Text
  canonicalType : Text
  typeSymbol : Text
  position : Int
  typeKind : Int
  usrId : Id
  typeUsrId : Id
  variadic : Bool
  hasTypeIdentity : Bool
  deriving DecidableEq

structure FunctionTypeCursor where
  position : Int
  declaredType : Text
  canonicalType : Text
  typeSymbol : Text
  typeKind : Int
  typeUsrId : Id
  path : Text
  deriving DecidableEq

structure FunctionTypeQuery where
  identity : Identity
  after : Option FunctionTypeCursor := none
  limit : Nat := 0

section Join

structure Joined (κ ν : Type) where
  variant : Text
  path : Text
  key : κ
  value : ν
  deriving DecidableEq

-- `FROM .. JOIN files ON files.id = file_id`
def joinFiles {κ ν : Type} (files : Files) (t : Table (Nat × κ) ν) : List (Joined κ ν) :=
  t.entries.flatMap (fun row => (files.entries.filter (fun file => file.2.id = row.1.1)).map
    (fun file => ⟨file.1.1,file.1.2,row.1.2,row.2⟩))

end Join

abbrev RecordRow := Joined RecordKey RecordValue
abbrev SymbolTypeRow := Joined SymbolTypeKey Unit
abbrev FunctionTypeRow := Joined FunctionTypeKey FunctionTypeValue

def joinedRecords (db : Db) : List RecordRow := joinFiles db.files db.records
def joinedSymbolTypes (db : Db) : List SymbolTypeRow := joinFiles db.files db.symbolTypes
def joinedFunctionTypes (db : Db) : List FunctionTypeRow := joinFiles db.files db.functionTypes

def patternUsesGlob (pattern : Text) : Bool := pattern.any (fun c => "*?[]".toList.contains c)

-- the operator is `GLOB` or `=`, depending on the pattern
def matchesPattern (pattern value : Text) : Bool :=
  if patternUsesGlob pattern then glob pattern value else value = pattern

def recordType (record action : Nat) : RecordType :=
  if record = 1 then .reference else if action ≠ 0 then .definition else .declaration

def storedRecordType : RecordType → Nat
  | .declaration | .definition => 0
  | .reference => 1

def validCursor (cursor : Cursor) : Bool :=
  if cursor.variant = [] || cursor.path = [] || cursor.symbol = [] || cursor.line = 0 || cursor.column = 0 then
    false
  else if cursor.record = .declaration && cursor.action ≠ 0 then false
  else if cursor.record = .definition && cursor.action = 0 then false
  else true

-- `last` is the text from the last separator on, and `rest` the text from `p` on
def scanLeaf : Option Text → Text → Option Text
  | last,[] => last
  | last,c::rest =>
    let last := if c = '.' then some (c::rest) else last
    let last := if c = ':' && rest.head? = some ':' && last.all (fun text => (c::rest).length ≤ text.length) then
      some rest else last
    scanLeaf last rest

def qualifiedLeaf (symbol : Text) : Text :=
  match scanLeaf none symbol with
  | none => symbol
  | some last => last.tail

def dbRecord (row : RecordRow) : DbRecord where
  variant := row.variant
  path := row.path
  symbol := row.key.symbol
  context := row.value.context
  record := recordType row.key.record row.key.action
  kind := row.key.kind
  action := row.key.action
  mode := row.key.mode
  line := row.key.line
  column := row.key.column
  usrId := row.value.usrId.getD 0
  contextUsrId := row.value.contextUsrId.getD 0
  isLocal := row.value.isLocal

-- the callback's state after the call, and its result: nonzero stops the query
abbrev Callback (σ ρ : Type) := σ → ρ → σ × Int

section Emit
variable {σ : Type}

def coversPosition (positionColumn : Nat) (record : DbRecord) : Bool :=
  !(positionColumn < record.column ||
    byteLength (qualifiedLeaf record.symbol) ≤ positionColumn - record.column)

def emitRecords (callback : Callback σ DbRecord) (positionColumn : Nat) : List RecordRow → σ → σ × Int
  | [],data => (data,0)
  | row::rows,data =>
    let record := dbRecord row
    if positionColumn ≠ 0 && !coversPosition positionColumn record then
      emitRecords callback positionColumn rows data
    else
      let (data,ret) := callback data record
      if ret ≠ 0 then (data,ret) else emitRecords callback positionColumn rows data

-- the loop of the type queries, which count their rows themselves
def emitCounted {ρ : Type} (callback : Callback σ ρ) (limit : Nat) : Nat → List ρ → σ → σ × Int
  | _,[],data => (data,0)
  | count,row::rows,data =>
    if limit = 0 || count < limit then
      let (data,ret) := callback data row
      if ret ≠ 0 then (data,ret) else emitCounted callback limit (count+1) rows data
    else (data,0)

end Emit

section Query

abbrev RecordOrder := Text ×ₗ Text ×ₗ Nat ×ₗ Nat ×ₗ Text ×ₗ Nat ×ₗ Nat ×ₗ Nat ×ₗ Nat

def recordOrder (row : RecordRow) : RecordOrder :=
  toLex (row.variant,toLex (row.path,toLex (row.key.line,toLex (row.key.column,toLex (row.key.symbol,
    toLex (row.key.record,toLex (row.key.action,toLex (row.key.kind,row.key.mode))))))))

def Cursor.place (cursor : Cursor) : RecordOrder :=
  toLex (cursor.variant,toLex (cursor.path,toLex (cursor.line,toLex (cursor.column,toLex (cursor.symbol,
    toLex (storedRecordType cursor.record,toLex (cursor.action,toLex (cursor.kind,cursor.mode))))))))

def RecordFilter.admits (filter : RecordFilter) (key : RecordKey) : Bool :=
  match filter with
  | .all => true
  | .symbol => key.record = 0
  | .declaration => key.record = 0 && key.action = 0
  | .definition => key.record = 0 && key.action ≠ 0
  | .reference => key.record = 1

def admitsMode (mode : Nat) (key : RecordKey) : Bool :=
  if mode = 0 then key.record = 1 && key.mode = 0 else key.record = 1 && key.mode &&& mode ≠ 0

-- the conditions that are never patterns
def QueryOptions.selectsOther (opts : QueryOptions) (row : RecordRow) : Bool :=
  opts.context.all (fun context => row.value.context = context) &&
  opts.record.admits row.key &&
  opts.mode.all (fun mode => admitsMode mode row.key) &&
  opts.kind.all (fun kind => row.key.kind = kind) &&
  opts.usrId.all (fun usrId => row.value.usrId = some usrId) &&
  opts.isLocal.all (fun isLocal => row.value.isLocal = isLocal)

-- the `WHERE` clause without the cursor, by the comparison of the first three columns
def QueryOptions.selectsBy (compare : Text → Text → Bool) (opts : QueryOptions) (row : RecordRow) : Bool :=
  opts.symbol.all (fun symbol => compare symbol row.key.symbol) &&
  opts.path.all (fun path => compare path row.path) &&
  opts.variant.all (fun variant => compare variant row.variant) &&
  opts.selectsOther row

def QueryOptions.selects (opts : QueryOptions) (row : RecordRow) : Bool := opts.selectsBy matchesPattern row

def QueryOptions.select (opts : QueryOptions) (db : Db) : List RecordRow :=
  limited opts.limit (orderBy recordOrder ((joinedRecords db).filter (fun row =>
    opts.selects row && opts.after.all (fun cursor => cursor.place < recordOrder row))))

def LLONG_MAX : Nat := 2^63-1

variable {σ : Type} (db : Db)

def semindexDbQuery (opts : QueryOptions) (callback : Callback σ DbRecord) (data : σ) : σ × Int :=
  if LLONG_MAX < opts.limit then (data,-1)
  else if opts.after.any (fun cursor => !validCursor cursor) then (data,-1)
  else emitRecords callback 0 (opts.select db) data

def IdentityQuery.options (query : IdentityQuery) : QueryOptions :=
  { symbol := some query.identity.symbol, variant := some query.identity.variant, after := query.after,
    limit := query.limit, record := query.record, usrId := some query.identity.usrId,
    kind := some query.identity.kind }

def semindexDbQueryIdentity (query : IdentityQuery) (callback : Callback σ DbRecord) (data : σ) : σ × Int :=
  if query.identity.variant = [] || query.identity.symbol = [] || query.identity.usrId = 0 then (data,-1)
  else if SymbolKind.template.code < query.identity.kind then (data,-1)
  else semindexDbQuery db query.options callback data

end Query

section Types

abbrev SymbolTypeOrder := Text ×ₗ Text ×ₗ Text ×ₗ Int ×ₗ Int ×ₗ Text

def symbolTypeOrder (row : SymbolTypeRow) : SymbolTypeOrder :=
  toLex (row.key.declaredType,toLex (row.key.canonicalType,toLex (row.key.typeSymbol,
    toLex (row.key.typeKind,toLex (row.key.typeUsrId.toInt,row.path)))))

def SymbolTypeCursor.place (cursor : SymbolTypeCursor) : SymbolTypeOrder :=
  toLex (cursor.declaredType,toLex (cursor.canonicalType,toLex (cursor.typeSymbol,
    toLex (cursor.typeKind,toLex (cursor.typeUsrId.toInt,cursor.path)))))

def dbSymbolType (row : SymbolTypeRow) : DbSymbolType where
  variant := row.variant
  path := row.path
  symbol := row.key.symbol
  declaredType := row.key.declaredType
  canonicalType := row.key.canonicalType
  typeSymbol := row.key.typeSymbol
  kind := row.key.kind
  typeKind := row.key.typeKind
  usrId := row.key.usrId
  typeUsrId := row.key.typeUsrId
  hasTypeIdentity := row.key.typeUsrId ≠ 0

def Identity.selectsTypes (identity : Identity) (row : SymbolTypeRow) : Bool :=
  row.key.symbol = identity.symbol && row.key.kind = identity.kind && row.key.usrId = identity.usrId &&
    row.variant = identity.variant

def SymbolTypeQuery.select (query : SymbolTypeQuery) (db : Db) : List SymbolTypeRow :=
  orderBy symbolTypeOrder ((joinedSymbolTypes db).filter (fun row =>
    query.identity.selectsTypes row && query.after.all (fun cursor => cursor.place < symbolTypeOrder row)))

abbrev FunctionTypeOrder := Int ×ₗ Text ×ₗ Text ×ₗ Text ×ₗ Int ×ₗ Int ×ₗ Text

def functionTypeOrder (row : FunctionTypeRow) : FunctionTypeOrder :=
  toLex (row.key.position,toLex (row.key.declaredType,toLex (row.key.canonicalType,toLex (row.key.typeSymbol,
    toLex (row.key.typeKind,toLex (row.key.typeUsrId.toInt,row.path))))))

def FunctionTypeCursor.place (cursor : FunctionTypeCursor) : FunctionTypeOrder :=
  toLex (cursor.position,toLex (cursor.declaredType,toLex (cursor.canonicalType,toLex (cursor.typeSymbol,
    toLex (cursor.typeKind,toLex (cursor.typeUsrId.toInt,cursor.path))))))

def dbFunctionType (row : FunctionTypeRow) : DbFunctionType where
  variant := row.variant
  path := row.path
  symbol := row.key.symbol
  name := row.value.name
  declaredType := row.key.declaredType
  canonicalType := row.key.canonicalType
  typeSymbol := row.key.typeSymbol
  position := row.key.position
  typeKind := row.key.typeKind
  usrId := row.key.usrId
  typeUsrId := row.key.typeUsrId
  variadic := row.value.variadic
  hasTypeIdentity := row.key.typeUsrId ≠ 0

-- the kind is not a column of `function_types`
def Identity.selectsSignatures (identity : Identity) (row : FunctionTypeRow) : Bool :=
  row.key.symbol = identity.symbol && row.key.usrId = identity.usrId && row.variant = identity.variant

def FunctionTypeQuery.select (query : FunctionTypeQuery) (db : Db) : List FunctionTypeRow :=
  orderBy functionTypeOrder ((joinedFunctionTypes db).filter (fun row =>
    query.identity.selectsSignatures row && query.after.all (fun cursor => cursor.place < functionTypeOrder row)))

variable {σ : Type} (db : Db)

def semindexDbQuerySymbolTypes (query : SymbolTypeQuery) (callback : Callback σ DbSymbolType) (data : σ) :
    σ × Int :=
  if query.identity.variant = [] then (data,-1)
  else if query.identity.symbol = [] || query.identity.usrId = 0 then (data,-1)
  else if SymbolKind.template.code < query.identity.kind then (data,-1)
  else emitCounted callback query.limit 0 ((query.select db).map dbSymbolType) data

def semindexDbQueryFunctionTypes (query : FunctionTypeQuery) (callback : Callback σ DbFunctionType) (data : σ) :
    σ × Int :=
  if query.identity.variant = [] || query.identity.symbol = [] then (data,-1)
  else if query.identity.usrId = 0 || query.identity.kind ≠ SymbolKind.function.code then (data,-1)
  else emitCounted callback query.limit 0 ((query.select db).map dbFunctionType) data

end Types

section Calls

def CallOptions.selects (opts : CallOptions) (row : RecordRow) : Bool :=
  (match opts.direction with
    | .callers => row.key.symbol = opts.function && row.value.usrId = some opts.usrId
    | .callees => row.value.context = opts.function && row.value.contextUsrId = some opts.usrId) &&
  opts.variant.all (fun variant => row.variant = variant) &&
  row.key.record = 1 && row.key.action = 3 && row.key.kind = 7

-- the queries of one variant leave the variant out of the order
def callOrder (direction : CallDirection) (row : RecordRow) : Text ×ₗ Text ×ₗ Text ×ₗ Nat ×ₗ Nat :=
  toLex (row.variant,toLex ((match direction with | .callers => row.value.context | .callees => row.key.symbol),
    toLex (row.path,toLex (row.key.line,row.key.column))))

def CallOptions.select (opts : CallOptions) (db : Db) : List RecordRow :=
  orderBy (callOrder opts.direction) ((joinedRecords db).filter opts.selects)

variable {σ : Type} (db : Db)

def semindexDbQueryCalls (opts : CallOptions) (callback : Callback σ DbRecord) (data : σ) : σ × Int :=
  if opts.function = [] then (data,-1) else emitRecords callback 0 (opts.select db) data

def selectAt (path : Text) (variant : Option Text) (line column : Nat) : List RecordRow :=
  orderBy (fun row : RecordRow => toLex (OrderDual.toDual row.key.column,row.key.record))
    ((joinedRecords db).filter (fun row => row.path = path && variant.all (fun variant => row.variant = variant) &&
      row.key.line = line && row.key.column ≤ column))

def semindexDbFindAt (path : Text) (variant : Option Text) (line column : Nat) (callback : Callback σ DbRecord)
    (data : σ) : σ × Int :=
  if path = [] || line = 0 || column = 0 then (data,-1)
  else emitRecords callback column (selectAt db path variant line column) data

end Calls

end Semindex.Database
