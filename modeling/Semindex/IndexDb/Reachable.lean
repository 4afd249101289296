import Semindex.IndexDb.StagedRows

/-! Database states. A store is a staging, fresh or retried, over any shared
tables and a merge into the present ones, so that other writers may have
committed in between; the reachable states are those such stores lead to. The
invariant of the cache is that a stored fingerprint accounts for the rows of
every file that has it. -/
namespace Semindex.IndexDb
open Semindex.Relational

inductive Job.StagedBy (blake3 : List UInt8 → Fingerprint) (job : Job) : Staging → Prop where
  | fresh (db : Db) (st : Staging) (staged : job.stage blake3 db = some st) : StagedBy blake3 job st
  | retried (db : Db) (st : Staging) (staged : job.stage blake3 db = some st) :
      StagedBy blake3 job (job.restage blake3 st)

def Job.Stores (blake3 : List UInt8 → Fingerprint) (job : Job) (db after : Db) : Prop :=
  ∃ st, job.StagedBy blake3 st ∧ mergeStaging job.request st db = some after

/-- The states that stores of the given jobs lead to from the empty database. -/
inductive Reachable (blake3 : List UInt8 → Fingerprint) (jobs : Job → Prop) : Db → Prop where
  | empty : Reachable blake3 jobs .empty
  | store (db after : Db) (job : Job) (reached : Reachable blake3 jobs db) (member : jobs job)
      (stored : job.Stores blake3 db after) : Reachable blake3 jobs after

structure StagedRows where
  records : List ((Text × RecordKey) × RecordValue)
  symbolTypes : List ((Text × SymbolTypeKey) × Unit)
  functionTypes : List ((Text × FunctionTypeKey) × FunctionTypeValue)
  symbolProperties : List ((Text × PropertyKey) × Properties)

def itemRows (paths : StoredPaths) (items : List Item) : StagedRows where
  records := items.flatMap (recordRows paths)
  symbolTypes := items.flatMap (symbolTypeRows paths)
  functionTypes := items.flatMap (functionTypeRows paths)
  symbolProperties := items.flatMap (propertyRows paths)

structure StagedRows.Within (a b : StagedRows) : Prop where
  records : a.records ⊆ b.records
  symbolTypes : a.symbolTypes ⊆ b.symbolTypes
  functionTypes : a.functionTypes ⊆ b.functionTypes
  symbolProperties : a.symbolProperties ⊆ b.symbolProperties

/-- Inserting the rows into the file's tables again would change nothing. -/
structure FileContent.Accounts (content : FileContent) (rows : StagedRows) : Prop where
  records : ∀ row ∈ rows.records, Absorbs (content.records row.1.2) row.2
  symbolTypes : ∀ row ∈ rows.symbolTypes, Absorbs (content.symbolTypes row.1.2) row.2
  functionTypes : ∀ row ∈ rows.functionTypes, Absorbs (content.functionTypes row.1.2) row.2
  symbolProperties : ∀ row ∈ rows.symbolProperties, Absorbs (content.symbolProperties row.1.2) row.2

theorem FileContent.Accounts.within {content : FileContent} {a b : StagedRows} (accounts : content.Accounts b)
    (within : a.Within b) : content.Accounts a :=
  ⟨fun row member => accounts.records row (within.records member),
    fun row member => accounts.symbolTypes row (within.symbolTypes member),
    fun row member => accounts.functionTypes row (within.functionTypes member),
    fun row member => accounts.symbolProperties row (within.symbolProperties member)⟩

theorem FileContent.Accounts.overlay {content : FileContent} {rows : StagedRows}
    (accounts : content.Accounts rows) (new : FileContent) : (content.overlay new).Accounts rows :=
  ⟨fun row member => (accounts.records row member).merge_right _,
    fun row member => (accounts.symbolTypes row member).merge_right _,
    fun row member => (accounts.functionTypes row member).merge_right _,
    fun row member => (accounts.symbolProperties row member).merge_right _⟩

section Store
variable (blake3 : List UInt8 → Fingerprint) (job : Job)

def Job.fileRows (i : Nat) : StagedRows :=
  itemRows (job.paths blake3) (job.passing.filter (fun item => item.fileIndex = i))

def Job.pathRows (path : Text) : StagedRows :=
  itemRows (job.paths blake3) (job.passing.filter (fun item => job.storedPath blake3 item.fileIndex = path))

/-- The row a store of the job stages for a file of the shared tables. -/
def Job.row (f : Text × Text) : Option StagingFile :=
  if f.1 = job.request.variant then (job.stagedFiles blake3).lookup f.2 else none

def FingerprintFaithful (jobs : Job → Prop) : Prop :=
  ∀ a b, jobs a → jobs b → a.request.variant = b.request.variant →
    ∀ i j first second path, a.Counted blake3 i first path → b.Counted blake3 j second path →
      first.data = second.data → (a.fileRows blake3 i).Within (b.fileRows blake3 j)

def Db.Accounted (jobs : Job → Prop) (db : Db) : Prop :=
  ∀ f data, (db.content f).fingerprints data = some () →
    ∀ job, jobs job → job.request.variant = f.1 →
      ∀ i fingerprint, job.Counted blake3 i fingerprint f.2 → fingerprint.data = data →
        (db.content f).Accounts (job.fileRows blake3 i)

variable {blake3 job}

theorem stagedBy_produces {st : Staging} (staged : job.StagedBy blake3 st) :
    ∃ skip again, job.Produces blake3 skip again st := by
  cases staged with
  | fresh db _ staged => exact ⟨_,_,stage_produces staged⟩
  | retried db st staged => exact ⟨_,_,restage_produces (stage_produces staged)⟩

theorem Job.row_some {f : Text × Text} {row : StagingFile} :
    job.row blake3 f = some row ↔
      f.1 = job.request.variant ∧ (job.stagedFiles blake3).lookup f.2 = some row := by
  unfold Job.row
  split <;> simp_all

theorem mergeStaging_some {request : StoreRequest} {st : Staging} {db after : Db} :
    mergeStaging request st db = some after ↔
      cachedFilesValid db request.variant st = true ∧ mergeTables request st db = after := by
  unfold mergeStaging
  split <;> simp_all

theorem produces_row {skip : Nat → Bool} {again : Bool} {st : Staging}
    (produces : job.Produces blake3 skip again st) (f : Text × Text) :
    ∃ mark : Text → StagingFile → Bool, stagedRow job.request.variant st f =
      (job.row blake3 f).map (fun row => {row with cached := mark f.2 row}) := by
  obtain ⟨mark,files⟩ := produces.files
  refine ⟨mark,?_⟩
  unfold stagedRow Job.row
  split
  · rw [files,Table.lookup_modify]
  · rfl

/-- What the tables hold about each file once a staging is merged. -/
theorem content_merged {skip : Nat → Bool} {again : Bool} {st : Staging} {db after : Db}
    (produces : job.Produces blake3 skip again st) (consistent : db.Consistent)
    (merged : mergeStaging job.request st db = some after) (f : Text × Text) :
    after.content f = match job.row blake3 f with
      | some row => (db.content f).mergeFile row (job.content blake3 skip again f.2)
      | none => db.content f := by
  obtain ⟨_,rfl⟩ := mergeStaging_some.mp merged
  rw [content_mergeTables _ _ _ consistent produces.covered,Db.merged]
  obtain ⟨mark,same⟩ := produces_row produces f
  rw [same]
  cases job.row blake3 f with
  | none => rfl
  | some row =>
    rw [Option.map_some,produces.content]
    rfl

-- the stored record is the one that was there, or one of the index
theorem stored_record {skip : Nat → Bool} {again : Bool} {st : Staging} {db after : Db}
    (produces : job.Produces blake3 skip again st) (consistent : db.Consistent)
    (merged : mergeStaging job.request st db = some after) {f : Text × Text} {row : StagingFile}
    (entry : job.row blake3 f = some row) {k : RecordKey} {v : RecordValue}
    (found : (after.content f).records k = some v) :
    ((db.content f).retained row).records k = some v ∨
      (((db.content f).retained row).records k = none ∧
        ((f.2,k),v) ∈ job.passing.flatMap (recordRows (job.paths blake3))) := by
  rw [content_merged produces consistent merged,entry] at found
  change merge (((db.content f).retained row).records k) _ = some v at found
  cases old : ((db.content f).retained row).records k with
  | some w =>
    rw [old,merge_some (fun _ _ => rfl)] at found
    exact .inl found
  | none =>
    rw [old,none_merge] at found
    obtain ⟨item,passing,inside⟩ := mem_rows (gather_mem (fun _ _ => rfl) found)
    exact .inr ⟨rfl,List.mem_flatMap.mpr ⟨item,passing,inside⟩⟩

theorem stores_stat {db after : Db} (stored : job.Stores blake3 db after) {f : Text × Text} {row : StagingFile}
    (entry : job.row blake3 f = some row) : (after.content f).stat = some row.stat := by
  obtain ⟨st,staged,merged⟩ := stored
  obtain ⟨skip,again,produces⟩ := stagedBy_produces staged
  obtain ⟨mark,same⟩ := produces_row produces f
  obtain ⟨_,rfl⟩ := mergeStaging_some.mp merged
  have stat := @mergedFiles_stat job.request.variant st db.files f
  rw [same,entry] at stat
  exact stat

/-- The skipped files of a merge that was not stale are in the tables, unchanged and with the
fingerprint of the staged items. -/
theorem skipped_hit {skip : Nat → Bool} {st : Staging} {db after : Db}
    (produces : job.Produces blake3 skip false st) (merged : mergeStaging job.request st db = some after)
    {i : Nat} (skipped : skip i = true) :
    ∃ fingerprint row, job.Counted blake3 i fingerprint (job.storedPath blake3 i) ∧
      job.row blake3 (job.request.variant,job.storedPath blake3 i) = some row ∧ row.isMain = false ∧
      (db.content (job.request.variant,job.storedPath blake3 i)).stat = some row.stat ∧
      (db.content (job.request.variant,job.storedPath blake3 i)).fingerprints fingerprint.data = some () := by
  obtain ⟨fingerprint,path,row,counted,found,included,offered,flag⟩ := produces.skipped i skipped
  obtain rfl := counted.path_eq
  refine ⟨fingerprint,row,counted,Job.row_some.mpr ⟨rfl,found⟩,included,?_⟩
  obtain ⟨valid,_⟩ := mergeStaging_some.mp merged
  have hit : cacheHit db job.request.variant (job.storedPath blake3 i) {row with cached := true} = true := by
    by_contra miss
    unfold cachedFilesValid at valid
    rw [Bool.not_eq_true',List.any_eq_false] at valid
    have here := valid ⟨job.storedPath blake3 i,{row with cached := true}⟩ (AList.mem_lookup_iff.mp (flag rfl))
    simp [miss] at here
  unfold cacheHit at hit
  simp only [offered] at hit
  cases known : db.files.lookup (job.request.variant,job.storedPath blake3 i) with
  | none => simp [known] at hit
  | some file =>
    simp only [known,Bool.and_eq_true,decide_eq_true_eq] at hit
    obtain ⟨⟨⟩,present⟩ := Option.isSome_iff_exists.mp hit.2
    exact ⟨by simp [Db.content,known,FileRow.stat,StagingFile.stat,hit.1.1,hit.1.2],
      by simpa [Db.content,rowsOf,known] using present⟩

theorem retained_of_stat {old : FileContent} {row : StagingFile} (included : row.isMain = false)
    (same : old.stat = some row.stat) : old.retained row = old := by
  simp [FileContent.retained,included,same]

private theorem cell_absorbs {κ ν : Type} [DecidableEq κ] [Conflict ν] {rows : Item → List ((Text × κ) × ν)}
    {skip : Nat → Bool} {again : Bool} {path : Text} (old : κ → Option ν)
    (located : Located (job.paths blake3) rows)
    (skipped : ∀ i, again = false → skip i = true → job.storedPath blake3 i = path →
      ∀ row ∈ (job.passing.filter (fun item => item.fileIndex = i)).flatMap rows, Absorbs (old row.1.2) row.2) :
    ∀ row ∈ (job.passing.filter (fun item => job.storedPath blake3 item.fileIndex = path)).flatMap rows,
      Absorbs (merge (old row.1.2) (gather (job.rows skip again rows) (path,row.1.2))) row.2 := by
  intro row member
  obtain ⟨item,selected,inside⟩ := List.mem_flatMap.mp member
  obtain ⟨passing,here⟩ := List.mem_filter.mp selected
  have at_path : row.1.1 = path := (located_path located passing inside).trans (by simpa using here)
  have key : (path,row.1.2) = row.1 := by rw [← at_path]
  rw [key]
  by_cases left_out : again = false ∧ skip item.fileIndex = true
  · apply Absorbs.merge_right
    apply skipped item.fileIndex left_out.1 left_out.2 (by simpa using here)
    exact List.mem_flatMap.mpr ⟨item,List.mem_filter.mpr ⟨passing,by simp⟩,inside⟩
  · apply Absorbs.merge_left
    apply absorbs_gather
    cases again with
    | true => exact List.mem_append.mpr (.inr (List.mem_flatMap.mpr ⟨item,passing,inside⟩))
    | false =>
      rw [rows_once]
      exact List.mem_flatMap.mpr ⟨item,List.mem_filter.mpr ⟨passing,by simpa using left_out⟩,inside⟩

theorem skipped_accounts {skip : Nat → Bool} {again : Bool} {st : Staging} {db after : Db} {jobs : Job → Prop}
    (produces : job.Produces blake3 skip again st) (merged : mergeStaging job.request st db = some after)
    (accounted : db.Accounted blake3 jobs) (member : jobs job) {f : Text × Text} {row : StagingFile}
    (staged : job.row blake3 f = some row) (i : Nat) (once : again = false) (skipped : skip i = true)
    (here : job.storedPath blake3 i = f.2) :
    ((db.content f).retained row).Accounts (job.fileRows blake3 i) := by
  obtain ⟨variant,path⟩ := f
  obtain rfl : variant = job.request.variant := (Job.row_some.mp staged).1
  subst once here
  obtain ⟨fingerprint,cached,counted,same,included,stat,known⟩ := skipped_hit produces merged skipped
  cases Option.some.inj (same.symm.trans staged)
  rw [retained_of_stat included stat]
  exact accounted _ _ known job member rfl i fingerprint counted rfl

/-- After a merge the tables account for all rows of the index, staged or skipped. -/
theorem merge_accounts {skip : Nat → Bool} {again : Bool} {st : Staging} {db after : Db} {jobs : Job → Prop}
    (produces : job.Produces blake3 skip again st) (consistent : db.Consistent)
    (merged : mergeStaging job.request st db = some after) (accounted : db.Accounted blake3 jobs)
    (member : jobs job) {f : Text × Text} {row : StagingFile} (staged : job.row blake3 f = some row) :
    (after.content f).Accounts (job.pathRows blake3 f.2) := by
  have skipped := skipped_accounts produces merged accounted member staged
  rw [content_merged produces consistent merged,staged]
  exact ⟨cell_absorbs _ (recordRows_located _) (fun i once flag here => (skipped i once flag here).records),
    cell_absorbs _ (symbolTypeRows_located _) (fun i once flag here => (skipped i once flag here).symbolTypes),
    cell_absorbs _ (functionTypeRows_located _) (fun i once flag here => (skipped i once flag here).functionTypes),
    cell_absorbs _ (propertyRows_located _) (fun i once flag here => (skipped i once flag here).symbolProperties)⟩

private theorem flatMap_filter_subset {ι α : Type} (items : List ι) (rows : ι → List α) {p q : ι → Bool}
    (implies : ∀ item ∈ items, p item = true → q item = true) :
    (items.filter p).flatMap rows ⊆ (items.filter q).flatMap rows := by
  intro row member
  obtain ⟨item,selected,inside⟩ := List.mem_flatMap.mp member
  obtain ⟨present,chosen⟩ := List.mem_filter.mp selected
  exact List.mem_flatMap.mpr ⟨item,List.mem_filter.mpr ⟨present,implies item present chosen⟩,inside⟩

theorem fileRows_within {i : Nat} {path : Text} (here : job.storedPath blake3 i = path) :
    (job.fileRows blake3 i).Within (job.pathRows blake3 path) := by
  have implies : ∀ item ∈ job.passing, decide (item.fileIndex = i) = true →
      decide (job.storedPath blake3 item.fileIndex = path) = true := by
    intro item _ same
    rw [decide_eq_true_eq] at same
    simp [same,here]
  exact ⟨flatMap_filter_subset _ _ implies,flatMap_filter_subset _ _ implies,
    flatMap_filter_subset _ _ implies,flatMap_filter_subset _ _ implies⟩

theorem retained_fingerprint {old : FileContent} {row : StagingFile} {data : Fingerprint}
    (known : (old.retained row).fingerprints data = some ()) : old.retained row = old := by
  unfold FileContent.retained at *
  split at known
  · simp [FileContent.blank] at known
  · rename_i stays
    rw [if_neg stays]

theorem stores_consistent {db after : Db} (stored : job.Stores blake3 db after) (consistent : db.Consistent) :
    after.Consistent := by
  obtain ⟨st,_,merged⟩ := stored
  obtain ⟨_,rfl⟩ := mergeStaging_some.mp merged
  exact mergeTables_consistent _ _ _ consistent

/-- A stored fingerprint keeps accounting for its files over any merge. -/
theorem stores_accounted {db after : Db} {jobs : Job → Prop} (faithful : FingerprintFaithful blake3 jobs)
    (member : jobs job) (stored : job.Stores blake3 db after) (consistent : db.Consistent)
    (accounted : db.Accounted blake3 jobs) : after.Accounted blake3 jobs := by
  obtain ⟨st,staged,merged⟩ := stored
  obtain ⟨skip,again,produces⟩ := stagedBy_produces staged
  intro f data known other allowed variant i fingerprint counted same
  have content := content_merged produces consistent merged f
  cases entry : job.row blake3 f with
  | none =>
    simp only [entry] at content
    rw [content] at known ⊢
    exact accounted f data known other allowed variant i fingerprint counted same
  | some row =>
    obtain ⟨here,found⟩ := Job.row_some.mp entry
    by_cases offered : row.fingerprint = some data
    · have included := stagedFiles_fingerprint found offered
      obtain ⟨j,own,mine,_,_,staged_data⟩ := stagedFiles_included found included
      have equal : fingerprint.data = own.data := same.trans (Option.some.inj (offered.symm.trans staged_data))
      have rows := faithful other job allowed member (variant.trans here) i j fingerprint own f.2 counted mine equal
      have everything := merge_accounts produces consistent merged accounted member entry
      exact (everything.within (fileRows_within mine.path_eq)).within rows
    · simp only [entry] at content
      rw [content] at known ⊢
      change merge (((db.content f).retained row).fingerprints data) (Job.content _ _ _ _ _ |>.fingerprints data) = _
        at known
      have absent : (job.content blake3 skip again f.2).fingerprints data = none := by
        simp [Job.content,found,offered]
      rw [absent,merge_none] at known
      have kept := retained_fingerprint known
      rw [kept] at known
      change FileContent.Accounts (FileContent.overlay (FileContent.retained _ row) _) _
      rw [kept]
      exact (accounted f data known other allowed variant i fingerprint counted same).overlay _

end Store

theorem empty_accounted (blake3 : List UInt8 → Fingerprint) (jobs : Job → Prop) : Db.empty.Accounted blake3 jobs := by
  intro f data known
  simp [Db.content,Db.empty,rowsOf] at known

section Alone
variable (blake3 : List UInt8 → Fingerprint) (job : Job)

/-- A store with no other writer between its staging and its merge. -/
def Job.store (db : Db) : Option Db :=
  (job.stage blake3 db).bind (fun st => mergeStaging job.request st db)

def storeAll (jobs : List Job) : Option Db := jobs.foldlM (fun db job => job.store blake3 db) Db.empty

variable {blake3 job}

theorem store_fresh {db after : Db} (stored : job.store blake3 db = some after) :
    ∃ st, job.stage blake3 db = some st ∧ mergeStaging job.request st db = some after :=
  Option.bind_eq_some_iff.mp stored

theorem stores_of_store {db after : Db} (stored : job.store blake3 db = some after) :
    job.Stores blake3 db after := by
  obtain ⟨st,staged,merged⟩ := store_fresh stored
  exact ⟨st,.fresh db st staged,merged⟩

/-- Alone, a store is never stale: it finds the hits it staged with. -/
theorem store_total (db : Db) : ∃ after, job.store blake3 db = some after := by
  have staged : ∃ st, job.stage blake3 db = some st := by
    rw [Job.stage,stageFiles_eq]
    exact ⟨_,rfl⟩
  obtain ⟨st,staged⟩ := staged
  have files : st.files = job.markedFiles blake3 db := by
    rw [Job.stage,stageFiles_eq,Option.map_some,Option.some.injEq] at staged
    rw [← staged]
    change (job.stageRecords blake3 _ {Staging.empty with files := job.markedFiles blake3 db}).files = _
    rw [Job.stageRecords,stageRecords_rows]
  have valid : cachedFilesValid db job.request.variant st = true := by
    unfold cachedFilesValid
    rw [Bool.not_eq_true',List.any_eq_false]
    intro e member
    rw [files] at member
    have found : (job.markedFiles blake3 db).lookup e.1 = some e.2 := AList.mem_lookup_iff.mpr member
    rw [lookup_markedFiles] at found
    obtain ⟨row,plain,changed⟩ := Option.map_eq_some_iff.mp found
    split at changed
    · rename_i hit
      have again : cacheHit db job.request.variant e.1 {row with cached := true} = true := by
        simp only [Bool.and_eq_true] at hit
        exact hit.2
      rw [← changed,again]
      simp
    · rw [← changed,(stagedFiles_row plain).1]
      simp
  exact ⟨_,Option.bind_eq_some_iff.mpr ⟨st,staged,mergeStaging_some.mpr ⟨valid,rfl⟩⟩⟩

end Alone

section Run
variable {blake3 : List UInt8 → Fingerprint} {jobs : Job → Prop} {db : Db}

theorem reachable_storeAll (history : List Job) (member : ∀ job ∈ history, jobs job)
    (stored : storeAll blake3 history = some db) : Reachable blake3 jobs db := by
  induction history using List.reverseRecOn generalizing db with
  | nil =>
    cases Option.some.inj stored
    exact .empty
  | append_singleton history job ih =>
    rw [storeAll,List.foldlM_append] at stored
    obtain ⟨before,earlier,last⟩ := Option.bind_eq_some_iff.mp stored
    have final : job.store blake3 before = some db := by simpa using last
    exact .store before db job (ih (fun other inside => member other (by simp [inside])) earlier)
      (member job (by simp)) (stores_of_store final)

theorem Reachable.consistent (reached : Reachable blake3 jobs db) : db.Consistent := by
  induction reached with
  | empty => exact empty_consistent
  | store db after job _ _ stored ih => exact stores_consistent stored ih

/-- Every stored record is one that some store of its variant staged for its path. -/
theorem Reachable.record_staged (reached : Reachable blake3 jobs db) {f : Text × Text} {k : RecordKey}
    {v : RecordValue} (found : (db.content f).records k = some v) :
    ∃ job, jobs job ∧ f.1 = job.request.variant ∧
      ((f.2,k),v) ∈ job.passing.flatMap (recordRows (job.paths blake3)) := by
  induction reached with
  | empty => simp [Db.content,Db.empty,rowsOf] at found
  | store db after job reached member stored ih =>
    obtain ⟨st,staged,merged⟩ := stored
    obtain ⟨skip,again,produces⟩ := stagedBy_produces staged
    cases entry : job.row blake3 f with
    | none =>
      rw [content_merged produces reached.consistent merged,entry] at found
      exact ih found
    | some row =>
      rcases stored_record produces reached.consistent merged entry found with kept | ⟨_,own⟩
      · unfold FileContent.retained at kept
        split at kept
        · simp [FileContent.blank] at kept
        · exact ih kept
      · exact ⟨job,member,(Job.row_some.mp entry).1,own⟩

-- the keys of a table are those that stores have staged, whatever the conflict clause makes of the other columns
theorem Reachable.key_staged {κ ν : Type} [DecidableEq κ] [Conflict ν] (column : FileContent → κ → Option ν)
    (rows : StoredPaths → Item → List ((Text × κ) × ν)) (blank : ∀ k, column .blank k = none)
    (empty : ∀ f k, column (Db.empty.content f) k = none)
    (overlay : ∀ old new k, column (FileContent.overlay old new) k = merge (column old k) (column new k))
    (own : ∀ (job : Job) skip again path k,
      column (job.content blake3 skip again path) k = gather (job.rows skip again (rows (job.paths blake3))) (path,k))
    (reached : Reachable blake3 jobs db) {f : Text × Text} {k : κ} (found : column (db.content f) k ≠ none) :
    ∃ job : Job, ∃ item ∈ job.passing, ∃ row ∈ rows (job.paths blake3) item, row.1 = (f.2,k) := by
  induction reached with
  | empty => exact absurd (empty f k) found
  | store db after job reached member stored ih =>
    obtain ⟨st,staged,merged⟩ := stored
    obtain ⟨skip,again,produces⟩ := stagedBy_produces staged
    rw [content_merged produces reached.consistent merged] at found
    split at found
    · rw [FileContent.mergeFile,overlay,ne_eq,merge_eq_none,not_and_or] at found
      rcases found with kept | new
      · apply ih
        unfold FileContent.retained at kept
        split at kept
        · exact absurd (blank k) kept
        · exact kept
      · rw [own,gather_eq_none,not_forall] at new
        obtain ⟨row,present⟩ := new
        obtain ⟨listed,same⟩ := Classical.not_imp.mp present
        obtain ⟨item,passing,inside⟩ := mem_rows listed
        exact ⟨job,item,passing,row,inside,not_not.mp same⟩
    · exact ih found

/-- In every reachable state the stored fingerprints account for the files that have them. -/
theorem Reachable.accounted (reached : Reachable blake3 jobs db) (faithful : FingerprintFaithful blake3 jobs) :
    db.Accounted blake3 jobs := by
  induction reached with
  | empty => exact empty_accounted blake3 jobs
  | store db after job reached member stored ih =>
    exact stores_accounted faithful member stored reached.consistent ih

end Run

section Samples

instance (a b : StagedRows) : Decidable (a.Within b) :=
  decidable_of_iff (a.records ⊆ b.records ∧ a.symbolTypes ⊆ b.symbolTypes ∧
      a.functionTypes ⊆ b.functionTypes ∧ a.symbolProperties ⊆ b.symbolProperties)
    ⟨fun h => ⟨h.1,h.2.1,h.2.2.1,h.2.2.2⟩,
      fun h => ⟨h.records,h.symbolTypes,h.functionTypes,h.symbolProperties⟩⟩

-- for a finite set of jobs the assumption on fingerprints is a finite check
theorem faithful_of_check (blake3 : List UInt8 → Fingerprint) (jobs : List Job)
    (checked : ∀ a ∈ jobs, ∀ b ∈ jobs, a.request.variant = b.request.variant →
      ∀ i < (a.fingerprints blake3).length, ∀ j < (b.fingerprints blake3).length,
        a.storedPath blake3 i = b.storedPath blake3 j →
        (a.fingerprints blake3)[i]?.map FileFingerprint.data = (b.fingerprints blake3)[j]?.map FileFingerprint.data →
        (a.fileRows blake3 i).Within (b.fileRows blake3 j)) :
    FingerprintFaithful blake3 (· ∈ jobs) := by
  intro a b memberA memberB variant i j first second path countedA countedB same
  apply checked a memberA b memberB variant i (List.getElem?_eq_some_iff.mp countedA.listed).1 j
    (List.getElem?_eq_some_iff.mp countedB.listed).1 (countedA.path_eq.trans countedB.path_eq.symm)
  rw [countedA.listed,countedB.listed,Option.map_some,Option.map_some,same]

theorem FingerprintFaithful.mono {blake3 : List UInt8 → Fingerprint} {fewer jobs : Job → Prop}
    (faithful : FingerprintFaithful blake3 jobs) (within : ∀ job, fewer job → jobs job) :
    FingerprintFaithful blake3 fewer :=
  fun a b memberA memberB => faithful a b (within a memberA) (within b memberB)

def foldHash (bytes : List UInt8) : Fingerprint :=
  bytes.foldl (fun h b => h*257 + BitVec.ofNat 256 (b.toNat + 1)) 1

def tableFs (entries : List (Text × Text × Stat)) : FileSystem where
  realpath name := (entries.lookup name).map Prod.fst
  stat name := (entries.lookup name).map Prod.snd
  lstat name := (entries.lookup name).map Prod.snd

-- a call in the file at `fileIndex`
def sampleUse (name context : String) (fileIndex line : Nat) : Use where
  kind := .call
  symbolKind := .function
  mode := 0
  name := name.toList
  owner := []
  usr := []
  context := context.toList
  contextUsr := []
  usrId := 0
  contextUsrId := 0
  file := []
  fileIndex := fileIndex
  line := line
  column := 1
  isLocal := false

def sampleJob (fs : FileSystem) (main : String) (index : Index) : Job where
  fs := fs
  request := ⟨index,some main.toList,"v".toList,some "/r".toList,none,false⟩

def headerFs (mtimeNs : Int) : FileSystem := tableFs [
  ("a.c".toList,"/r/a.c".toList,⟨1,1,10,5,false⟩),("b.c".toList,"/r/b.c".toList,⟨1,2,10,5,false⟩),
  ("./h.h".toList,"/r/h.h".toList,⟨1,3,mtimeNs,5,false⟩)]

-- calls of `foo` at one place of a header, one in each of the given functions
def headerJob (main : String) (mtimeNs : Int) (contexts : List String) : Job :=
  sampleJob (headerFs mtimeNs) main
    ⟨["./h.h".toList],[],contexts.map (fun context => sampleUse "foo" context 0 1),[],
      by decide,by simp [sampleUse],by decide⟩

def headerFile : Text × Text := ("v".toList,"h.h".toList)

def callKey : RecordKey := (useRecord ⟨none,[]⟩ (sampleUse "foo" "f" 0 1)).1.2

end Samples
end Semindex.IndexDb
