import Semindex.IndexDb.Staging

/-! `merge_staging`: the cache is checked again, then twelve statements and the
variant row bring the staged rows into the shared tables. -/
namespace Semindex.IndexDb
open Semindex.Relational

-- `id INTEGER PRIMARY KEY`: SQLite allocates one more than the largest id
def nextId (files : Table (Text × Text) FileRow) : Nat :=
  (files.entries.map (fun e => e.2.id)).foldr max 0 + 1

def insertFileRow (variant : Text) (files : Table (Text × Text) FileRow)
    (e : Sigma fun _ : Text => StagingFile) : Table (Text × Text) FileRow :=
  if (files.lookup (variant,e.1)).isSome then files
  else files.insert (variant,e.1) ⟨nextId files,e.2.mtimeNs,e.2.size⟩

def filesInsert (variant : Text) (st : Staging) (db : Db) : Db :=
  {db with files := st.files.entries.foldl (insertFileRow variant) db.files}

def superseded (row : FileRow) (staged : StagingFile) : Bool :=
  staged.isMain || row.mtimeNs ≠ staged.mtimeNs || row.size ≠ staged.size

-- the `file_id IN (SELECT ..)` of the five delete statements
def supersededId (variant : Text) (st : Staging) (files : Table (Text × Text) FileRow) (id : Nat) : Bool :=
  files.entries.any (fun f => f.2.id = id && f.1.1 = variant &&
    ((st.files.lookup f.1.2).map (superseded f.2)).getD false)

def deleteRows {κ ν : Type} (gone : Nat → Bool) (t : Table (Nat × κ) ν) : Table (Nat × κ) ν :=
  Table.restrict t (fun k _ => !gone k.1)

def recordsDelete (variant : Text) (st : Staging) (db : Db) : Db :=
  {db with records := deleteRows (supersededId variant st db.files) db.records}

def symbolTypesDelete (variant : Text) (st : Staging) (db : Db) : Db :=
  {db with symbolTypes := deleteRows (supersededId variant st db.files) db.symbolTypes}

def functionTypesDelete (variant : Text) (st : Staging) (db : Db) : Db :=
  {db with functionTypes := deleteRows (supersededId variant st db.files) db.functionTypes}

def symbolPropertiesDelete (variant : Text) (st : Staging) (db : Db) : Db :=
  {db with symbolProperties := deleteRows (supersededId variant st db.files) db.symbolProperties}

def fingerprintsDelete (variant : Text) (st : Staging) (db : Db) : Db :=
  {db with fileFingerprints := deleteRows (supersededId variant st db.files) db.fileFingerprints}

def updateFileRow (variant : Text) (st : Staging) (key : Text × Text) (row : FileRow) : FileRow :=
  match st.files.lookup key.2 with
  | some staged => if key.1 = variant then {row with mtimeNs := staged.mtimeNs, size := staged.size} else row
  | none => row

def filesUpdate (variant : Text) (st : Staging) (db : Db) : Db :=
  {db with files := Table.modify db.files (updateFileRow variant st)}

-- `JOIN files ON files.path = staging.path AND files.variant = ..`
def filedRows {κ ν : Type} (variant : Text) (files : Table (Text × Text) FileRow)
    (rows : List ((Text × κ) × ν)) : List ((Nat × κ) × ν) :=
  rows.filterMap (fun e => (files.lookup (variant,e.1.1)).map (fun file => ((file.id,e.1.2),e.2)))

def insertFiled {κ ν : Type} [DecidableEq κ] [Conflict ν] (variant : Text)
    (files : Table (Text × Text) FileRow) (rows : List ((Text × κ) × ν)) (t : Table (Nat × κ) ν) :
    Table (Nat × κ) ν :=
  Table.insertRows t (filedRows variant files rows)

def recordsInsert (variant : Text) (st : Staging) (db : Db) : Db :=
  {db with records := insertFiled variant db.files (Table.rows st.records) db.records}

def symbolTypesInsert (variant : Text) (st : Staging) (db : Db) : Db :=
  {db with symbolTypes := insertFiled variant db.files (Table.rows st.symbolTypes) db.symbolTypes}

def functionTypesInsert (variant : Text) (st : Staging) (db : Db) : Db :=
  {db with functionTypes := insertFiled variant db.files (Table.rows st.functionTypes) db.functionTypes}

def symbolPropertiesInsert (variant : Text) (st : Staging) (db : Db) : Db :=
  { db with
    symbolProperties := insertFiled variant db.files (Table.rows st.symbolProperties) db.symbolProperties }

def stagedFingerprints (st : Staging) : List ((Text × Fingerprint) × Unit) :=
  st.files.entries.filterMap (fun e => e.2.fingerprint.map (fun fingerprint => ((e.1,fingerprint),())))

def fingerprintsInsert (variant : Text) (st : Staging) (db : Db) : Db :=
  {db with fileFingerprints := insertFiled variant db.files (stagedFingerprints st) db.fileFingerprints}

def mergeStatements (variant : Text) (st : Staging) : List (Db → Db) :=
  [filesInsert variant st,recordsDelete variant st,symbolTypesDelete variant st,
    functionTypesDelete variant st,symbolPropertiesDelete variant st,fingerprintsDelete variant st,
    filesUpdate variant st,recordsInsert variant st,symbolTypesInsert variant st,
    functionTypesInsert variant st,symbolPropertiesInsert variant st,fingerprintsInsert variant st]

def coalesce (new old : Option Text) : Option Text := if new.isSome then new else old

def upsertVariant (gitCommit repositoryRoot : Option Text) : Option VariantRow → VariantRow
  | none => ⟨gitCommit,repositoryRoot⟩
  | some row =>
    if (gitCommit.isSome && row.gitCommit ≠ gitCommit) ||
        (repositoryRoot.isSome && row.repositoryRoot ≠ repositoryRoot) then
      ⟨coalesce gitCommit row.gitCommit,coalesce repositoryRoot row.repositoryRoot⟩
    else row

def storeVariantMetadata (variant : Text) (repositoryRoot gitCommit : Option Text) (db : Db) : Db :=
  let row := upsertVariant gitCommit repositoryRoot (db.variants.lookup variant)
  {db with variants := db.variants.insert variant row}

def cachedFilesValid (db : Db) (variant : Text) (st : Staging) : Bool :=
  !st.files.entries.any (fun e => e.2.cached && !cacheHit db variant e.1 e.2)

def mergeTables (request : StoreRequest) (st : Staging) (db : Db) : Db :=
  storeVariantMetadata request.variant request.repositoryRoot request.gitCommit
    ((mergeStatements request.variant st).foldl (fun db statement => statement db) db)

/-- The transaction of `merge_staging`; `none` is the stale result, which leaves the tables alone. -/
def mergeStaging (request : StoreRequest) (st : Staging) (db : Db) : Option Db :=
  if cachedFilesValid db request.variant st then some (mergeTables request st db) else none

section Store
variable (blake3 : List UInt8 → Fingerprint) (job : Job)

def Job.noneCached : List Bool := List.replicate (job.fingerprints blake3).length false

def Job.stageRecords (cached : List Bool) (st : Staging) : Staging :=
  IndexDb.stageRecords (job.paths blake3) job.request.includeLocal cached job.request.index st

/-- The first staging, over the shared tables as they are when it runs. -/
def Job.stage (db : Db) : Option Staging :=
  (stageFiles blake3 job db).map (fun (files,cached) =>
    job.stageRecords blake3 cached {Staging.empty with files})

/-- The retry after a stale merge: everything is staged on top of what is staged already. -/
def Job.restage (st : Staging) : Staging :=
  job.stageRecords blake3 (job.noneCached blake3)
    {st with files := Table.modify st.files (fun _ row => {row with cached := false})}

/-- The staging of a writer that never marks a file cached. -/
def Job.stageAll : Staging :=
  job.stageRecords blake3 (job.noneCached blake3) {Staging.empty with files := job.stagedFiles blake3}

end Store
end Semindex.IndexDb
