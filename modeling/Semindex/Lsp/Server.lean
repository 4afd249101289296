import Semindex.Database.Rows

/-! The database queries of `querySymbol` and `documentHighlight`, for a document
without an overlay. The paths are those under which the database may know the
document. -/
namespace Semindex.Lsp
open Semindex.Relational Semindex.IndexDb Semindex.Database

section Queries
variable {σ : Type} (db : Db)

def querySymbolOptions (cursor : DbRecord) (filter : RecordFilter) : QueryOptions :=
  { symbol := some cursor.symbol, variant := some cursor.variant,
    context := if cursor.isLocal then some cursor.context else none, record := filter,
    kind := some cursor.kind, isLocal := some cursor.isLocal }

def highlightOptions (cursor : DbRecord) : QueryOptions :=
  { symbol := some cursor.symbol, variant := some cursor.variant,
    context := if cursor.isLocal then some cursor.context else none, isLocal := some cursor.isLocal }

-- `for (const auto &path : paths)`
def queryPaths (opts : QueryOptions) (callback : Callback σ DbRecord) : List Text → σ → σ × Int
  | [],data => (data,0)
  | path::paths,data =>
    let (data,ret) := semindexDbQuery db {opts with path := some path} callback data
    if ret < 0 then (data,-1) else queryPaths opts callback paths data

def querySymbol (paths : List Text) (cursor : DbRecord) (filter : RecordFilter) (callback : Callback σ DbRecord)
    (data : σ) : σ × Int :=
  if cursor.isLocal then queryPaths db (querySymbolOptions cursor filter) callback paths data
  else semindexDbQuery db (querySymbolOptions cursor filter) callback data

def documentHighlight (paths : List Text) (cursor : DbRecord) (callback : Callback σ DbRecord) (data : σ) : σ × Int :=
  queryPaths db (highlightOptions cursor) callback paths data

end Queries

section Collect
variable {σ : Type} {db : Db} {callback : Callback σ DbRecord} (steady : ∀ data record, (callback data record).2 = 0)
  (opts : QueryOptions)

-- the records of the query under each path
def pathRows (db : Db) (opts : QueryOptions) (paths : List Text) : List DbRecord :=
  paths.flatMap (fun path => (QueryOptions.select {opts with path := some path} db).map dbRecord)

include steady

theorem query_steady (unlimited : opts.limit = 0) (fresh : opts.after = none) (data : σ) :
    semindexDbQuery db opts callback data =
      (((opts.select db).map dbRecord).foldl (fun data record => (callback data record).1) data,0) := by
  rw [semindexDbQuery]
  simp [unlimited,fresh,emitRecords_steady steady]

theorem queryPaths_steady (unlimited : opts.limit = 0) (fresh : opts.after = none) (paths : List Text) (data : σ) :
    queryPaths db opts callback paths data =
      ((pathRows db opts paths).foldl (fun data record => (callback data record).1) data,0) := by
  induction paths generalizing data with
  | nil => rfl
  | cons path paths ih =>
    rw [queryPaths,query_steady steady {opts with path := some path} unlimited fresh]
    simp [ih,pathRows]

omit steady in
theorem queryPaths_collect (unlimited : opts.limit = 0) (fresh : opts.after = none)
    (paths : List Text) (data : List DbRecord) : queryPaths db opts collect paths data =
      (data ++ paths.flatMap (fun path => (QueryOptions.select {opts with path := some path} db).map dbRecord),0) := by
  rw [queryPaths_steady (fun _ _ => rfl) opts unlimited fresh,collect_fold]
  rfl

end Collect
end Semindex.Lsp
