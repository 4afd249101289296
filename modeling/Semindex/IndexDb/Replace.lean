import Semindex.IndexDb.Reachable

/-! What one store does to the files it stages: the main file is replaced, other
unchanged files grow, everything else stays. A changed file loses its old rows
only where the index has an item to stage for it, and an item keeps its caller
and identity only where no other row holds its primary key. -/
namespace Semindex.IndexDb
open Semindex.Relational

section Cells
variable {blake3 : List UInt8 → Fingerprint} {job : Job}

-- the rows of a path none of whose positions is skipped do not depend on the cache
theorem gather_unskipped {κ ν : Type} [DecidableEq κ] [Conflict ν] {rows : Item → List ((Text × κ) × ν)}
    (located : Located (job.paths blake3) rows) {skip : Nat → Bool} {again : Bool} {path : Text}
    (unskipped : ∀ i, skip i = true → job.storedPath blake3 i ≠ path) (k : κ) :
    gather (job.rows skip again rows) (path,k) = gather (job.passing.flatMap rows) (path,k) := by
  have once : gather (job.rows skip false rows) (path,k) = gather (job.passing.flatMap rows) (path,k) := by
    have same := merge_gather_filter none job.passing rows (fun item => !skip item.fileIndex) (path,k) (by
      intro item passing left_out row inside here
      have at_path := located_path located passing inside
      rw [here] at at_path
      exact absurd at_path.symm (unskipped item.fileIndex (by simpa using left_out)))
    rw [rows_once]
    simpa using same
  cases again with
  | false => exact once
  | true => rw [rows_again,gather_append,once,merge_self]

theorem gather_unstaged {κ ν : Type} [DecidableEq κ] [Conflict ν] {rows : Item → List ((Text × κ) × ν)}
    (located : Located (job.paths blake3) rows) {path : Text}
    (unstaged : (job.stagedFiles blake3).lookup path = none) (k : κ) :
    gather (job.passing.flatMap rows) (path,k) = none := by
  by_contra present
  have staged := @rows_staged _ _ _ _ _ _ _ located (fun _ => false) false _ _ (by rw [rows_all]; exact present)
  rw [unstaged] at staged
  contradiction

/-- The first store has each row that is the first of its primary key, and no others. -/
theorem first_store_records {db : Db} (stored : job.store blake3 .empty = some db) (f : Text × Text) (k : RecordKey) :
    (db.content f).records k = if f.1 = job.request.variant then
      ((job.passing.flatMap (recordRows (job.paths blake3))).find? (fun row => row.1 = (f.2,k))).map Prod.snd else none := by
  obtain ⟨st,staged,merged⟩ := store_fresh stored
  have produces := stage_produces staged
  have blank : Db.empty.content f = .blank := rfl
  have unskipped : ∀ i, isCached (job.cachedFlags blake3 .empty) i = true → job.storedPath blake3 i ≠ f.2 := by
    intro i skipped
    obtain ⟨_,row,_,_,_,stat,_⟩ := skipped_hit produces merged skipped
    cases stat
  rw [content_merged produces empty_consistent merged f]
  cases entry : job.row blake3 f with
  | none =>
    dsimp only
    rw [blank]
    split
    · rename_i variant
      have unstaged : (job.stagedFiles blake3).lookup f.2 = none := by
        unfold Job.row at entry
        rwa [if_pos variant] at entry
      rw [← gather_find (fun _ _ => rfl),gather_unstaged (recordRows_located _) unstaged]
      rfl
    · rfl
  | some row =>
    obtain ⟨variant,_⟩ := Job.row_some.mp entry
    rw [if_pos variant,← gather_find (fun _ _ => rfl),← gather_unskipped (recordRows_located _) unskipped]
    dsimp only
    rw [blank,FileContent.mergeFile,FileContent.retained]
    split
    · rfl
    · rfl

theorem mem_once {α : Type} {skip : Nat → Bool} {again : Bool} {rows : Item → List α} {row : α}
    (member : row ∈ job.rows skip again rows) : row ∈ job.passing.flatMap rows := by
  obtain ⟨item,passing,inside⟩ := mem_rows member
  exact List.mem_flatMap.mpr ⟨item,passing,inside⟩

end Cells

section Main
variable (blake3 : List UInt8 → Fingerprint) (job : Job)

/-- The rows the index yields for a path, whatever the cache says. -/
def Job.yields (path : Text) : FileContent := job.content blake3 (fun _ => false) false path

variable {blake3 job}

end Main

section Changed
variable (blake3 : List UInt8 → Fingerprint) (job : Job)

/-- No row of an earlier store is left in the five tables of the path: each row is one the index
yields, and no property bit or fingerprint comes from anywhere else. -/
structure FileContent.YieldedBy (content : FileContent) (path : Text) : Prop where
  records : ∀ k v, content.records k = some v → ((path,k),v) ∈ job.passing.flatMap (recordRows (job.paths blake3))
  symbolTypes : ∀ k v, content.symbolTypes k = some v →
    ((path,k),v) ∈ job.passing.flatMap (symbolTypeRows (job.paths blake3))
  functionTypes : ∀ k v, content.functionTypes k = some v →
    ((path,k),v) ∈ job.passing.flatMap (functionTypeRows (job.paths blake3))
  symbolProperties : ∀ k, content.symbolProperties k = (job.yields blake3 path).symbolProperties k
  fingerprints : ∀ data, content.fingerprints data = some () →
    (job.yields blake3 path).fingerprints data = some ()

/-- Nothing is stored about the file but its `files` row. -/
structure FileContent.Bare (content : FileContent) : Prop where
  records : ∀ k, content.records k = none
  symbolTypes : ∀ k, content.symbolTypes k = none
  functionTypes : ∀ k, content.functionTypes k = none
  symbolProperties : ∀ k, content.symbolProperties k = none
  fingerprints : ∀ k, content.fingerprints k = none

-- the modification time and size `stage_files` reads for a name of the file list
def Job.currentStat (i : Nat) (name : Text) : Int × Int :=
  (((job.statOf (some i) name).map Stat.mtimeNs).getD 0,((job.statOf (some i) name).map Stat.size).getD 0)

/-- Every name under which the file list has the path shows another time or size than `files` has. -/
def Job.Changed (db : Db) (path : Text) : Prop :=
  ∀ i name, job.request.index.files[i]? = some name → job.storedPath blake3 i = path →
    (db.content (job.request.variant,path)).stat ≠ some (job.currentStat i name)

/-- The path is the main file's, or the index has an item for it that passes the local filter. -/
def Job.Restages (path : Text) : Prop :=
  (job.paths blake3).mainFile = some path ∨ ∃ item ∈ job.passing, job.storedPath blake3 item.fileIndex = path

variable {blake3 job}

theorem restages_staged {path : Text} :
    job.Restages blake3 path ↔ ((job.stagedFiles blake3).lookup path).isSome := by
  constructor
  · intro restages
    rcases restages with main | ⟨item,passing,rfl⟩
    · obtain ⟨row,found,_⟩ := stagedFiles_main main
      rw [found]
      rfl
    · obtain ⟨fingerprint,counted⟩ := @passing_counted blake3 _ _ passing
      exact stagedFiles_counted counted
  · intro present
    obtain ⟨row,found⟩ := Option.isSome_iff_exists.mp present
    obtain ⟨_,⟨main,_⟩ | ⟨_,i,fingerprint,counted,_⟩⟩ := stagedFiles_row found
    · exact .inl main
    · have items := counted.counted
      rw [rebuildFingerprints_count blake3 _ _ _ _ counted.listed,← Nat.pos_iff_ne_zero,List.countP_pos_iff] at items
      obtain ⟨item,listed,here⟩ := items
      simp only [Bool.and_eq_true,decide_eq_true_eq] at here
      refine .inr ⟨item,List.mem_filter.mpr ⟨listed,here.2⟩,?_⟩
      rw [here.1]
      exact counted.path_eq

theorem changed_retained {db : Db} {path : Text} {row : StagingFile} (changed : job.Changed blake3 db path)
    (found : (job.stagedFiles blake3).lookup path = some row) :
    (db.content (job.request.variant,path)).retained row = .blank := by
  unfold FileContent.retained
  obtain ⟨_,⟨_,main,_⟩ | ⟨_,i,fingerprint,counted,rfl⟩⟩ := stagedFiles_row found
  · simp [main]
  · have differs := changed i fingerprint.file
      (rebuildFingerprints_file blake3 _ _ _ _ counted.listed) counted.path_eq
    have differs : (db.content (job.request.variant,path)).stat ≠ some (job.stagedFile i fingerprint).stat := differs
    simp [differs]

private theorem changed_unskipped {skip : Nat → Bool} {st : Staging} {db after : Db} {path : Text}
    {row : StagingFile} (produces : job.Produces blake3 skip false st)
    (merged : mergeStaging job.request st db = some after) (changed : job.Changed blake3 db path)
    (found : (job.stagedFiles blake3).lookup path = some row) (i : Nat) (skipped : skip i = true) :
    job.storedPath blake3 i ≠ path := by
  intro here
  subst here
  obtain ⟨fingerprint,mine,_,entry,included,stat,_⟩ := skipped_hit produces merged skipped
  cases Option.some.inj (found.symm.trans (Job.row_some.mp entry).2)
  have kept := retained_of_stat included stat
  rw [changed_retained changed found] at kept
  rw [← kept] at stat
  contradiction

private theorem property_rows_again (skip : Nat → Bool) (path : Text) (k : PropertyKey) :
    gather (job.rows skip true (propertyRows (job.paths blake3))) (path,k) =
      gather (job.passing.flatMap (propertyRows (job.paths blake3))) (path,k) := by
  rw [rows_again,gather_append,rows_once]
  apply gather_selected_first
  intro a _ b _ _ _ x _ y _ _ _
  exact congrArg some (congrArg Properties.mk (BitVec.or_comm _ _))

theorem staged_yielded {skip : Nat → Bool} {again : Bool} {st : Staging} {db after : Db} {path : Text}
    {row : StagingFile} (produces : job.Produces blake3 skip again st)
    (merged : mergeStaging job.request st db = some after) (changed : job.Changed blake3 db path)
    (found : (job.stagedFiles blake3).lookup path = some row) :
    (job.content blake3 skip again path).YieldedBy blake3 job path where
  records k v cell := mem_once (gather_mem (fun _ _ => rfl) cell)
  symbolTypes k v cell := mem_once (gather_mem (fun _ _ => rfl) cell)
  functionTypes k v cell := mem_once (gather_mem (fun _ _ => rfl) cell)
  symbolProperties k := by
    simp only [Job.yields,Job.content,rows_all]
    cases again with
    | false => exact gather_unskipped (propertyRows_located _) (changed_unskipped produces merged changed found) k
    | true => exact property_rows_again skip path k
  fingerprints data cell := cell

private theorem unstaged_yields {path : Text} (unstaged : (job.stagedFiles blake3).lookup path = none) :
    (job.yields blake3 path).Bare := by
  constructor <;> intro k <;> simp only [Job.yields,Job.content,rows_all]
  · exact gather_unstaged (recordRows_located _) unstaged k
  · exact gather_unstaged (symbolTypeRows_located _) unstaged k
  · exact gather_unstaged (functionTypeRows_located _) unstaged k
  · exact gather_unstaged (propertyRows_located _) unstaged k
  · simp [unstaged]

private theorem yielded_bare {content : FileContent} {path : Text}
    (unstaged : (job.stagedFiles blake3).lookup path = none) (yielded : content.YieldedBy blake3 job path) :
    content.Bare := by
  have nothing := @unstaged_yields blake3 job _ unstaged
  have empty : ∀ {κ ν : Type} [DecidableEq κ] [Conflict ν] (rows : Item → List ((Text × κ) × ν)) (cell : κ → Option ν),
      (∀ k, gather (job.passing.flatMap rows) (path,k) = none) →
      (∀ k v, cell k = some v → ((path,k),v) ∈ job.passing.flatMap rows) → ∀ k, cell k = none := by
    intro κ ν _ _ rows cell absent within k
    cases held : cell k with
    | none => rfl
    | some v => exact absurd rfl (gather_eq_none.mp (absent k) _ (within k v held))
  refine ⟨empty _ _ (gather_unstaged (recordRows_located _) unstaged) yielded.records,
    empty _ _ (gather_unstaged (symbolTypeRows_located _) unstaged) yielded.symbolTypes,
    empty _ _ (gather_unstaged (functionTypeRows_located _) unstaged) yielded.functionTypes,
    fun k => (yielded.symbolProperties k).trans (nothing.symbolProperties k),?_⟩
  intro data
  cases held : content.fingerprints data with
  | none => rfl
  | some v => exact absurd (yielded.fingerprints data held) (by simp [nothing.fingerprints])

private theorem bare_yielded {content : FileContent} {path : Text}
    (unstaged : (job.stagedFiles blake3).lookup path = none) (bare : content.Bare) :
    content.YieldedBy blake3 job path where
  records k v cell := by simp [bare.records] at cell
  symbolTypes k v cell := by simp [bare.symbolTypes] at cell
  functionTypes k v cell := by simp [bare.functionTypes] at cell
  symbolProperties k := by rw [bare.symbolProperties,(unstaged_yields unstaged).symbolProperties]
  fingerprints data cell := by simp [bare.fingerprints] at cell

/-- A changed file loses all its old rows exactly when the store stages something for it, or when
there was nothing to lose. -/
theorem changed_file_replaced_iff {jobs : Job → Prop} {db after : Db} (reached : Reachable blake3 jobs db)
    (stored : job.Stores blake3 db after) (path : Text) (changed : job.Changed blake3 db path) :
    (after.content (job.request.variant,path)).YieldedBy blake3 job path ↔
      job.Restages blake3 path ∨ (db.content (job.request.variant,path)).Bare := by
  obtain ⟨st,staged,merged⟩ := stored
  obtain ⟨skip,again,produces⟩ := stagedBy_produces staged
  have content := content_merged produces reached.consistent merged (job.request.variant,path)
  rw [restages_staged]
  cases found : (job.stagedFiles blake3).lookup path with
  | none =>
    have entry : job.row blake3 (job.request.variant,path) = none := by simp [Job.row,found]
    rw [content,entry]
    constructor
    · intro yielded
      exact .inr (yielded_bare found yielded)
    · intro here
      rcases here with impossible | bare
      · contradiction
      · exact bare_yielded found bare
  | some row =>
    have entry : job.row blake3 (job.request.variant,path) = some row := Job.row_some.mpr ⟨rfl,found⟩
    have fresh := staged_yielded produces merged changed found
    refine ⟨fun _ => .inl rfl,fun _ => ?_⟩
    rw [content,entry]
    change FileContent.YieldedBy blake3 job (FileContent.overlay (FileContent.retained _ row) _) path
    rw [changed_retained changed found]
    exact ⟨fresh.records,fresh.symbolTypes,fresh.functionTypes,fresh.symbolProperties,fresh.fingerprints⟩

end Changed

section Emptied

private theorem header_stored {db : Db} (first : (headerJob "a.c" 10 ["f"]).store foldHash .empty = some db) :
    Reachable foldHash (fun _ => True) db ∧ (headerJob "b.c" 20 []).Changed foldHash db headerFile.2 := by
  have history : storeAll foldHash [headerJob "a.c" 10 ["f"]] = some db := by simp [storeAll,first]
  refine ⟨reachable_storeAll _ (fun _ _ => trivial) history,?_⟩
  have known : ((headerJob "a.c" 10 ["f"]).store foldHash .empty).map (fun db => (db.content headerFile).stat) =
      some (some (10,5)) := by decide +kernel
  rw [first,Option.map_some,Option.some.injEq] at known
  intro i name listed _
  have name_eq : name = "./h.h".toList := by
    have member := List.mem_of_getElem? listed
    simpa [headerJob,sampleJob] using member
  change (db.content headerFile).stat ≠ _
  rw [known,name_eq]
  change some (10,5) ≠ some ((headerJob "b.c" 20 []).currentStat 0 "./h.h".toList)
  decide +kernel

theorem changed_file_replaced_header : ∃ db after,
    (headerJob "a.c" 10 ["f"]).store foldHash .empty = some db ∧
      (headerJob "b.c" 20 []).store foldHash db = some after ∧
      ((after.content headerFile).YieldedBy foldHash (headerJob "b.c" 20 []) headerFile.2 ↔
        (headerJob "b.c" 20 []).Restages foldHash headerFile.2 ∨ (db.content headerFile).Bare) := by
  obtain ⟨db,first⟩ := @store_total foldHash (headerJob "a.c" 10 ["f"]) .empty
  obtain ⟨after,second⟩ := @store_total foldHash (headerJob "b.c" 20 []) db
  obtain ⟨reached,changed⟩ := header_stored first
  exact ⟨db,after,first,second,changed_file_replaced_iff reached (stores_of_store second) headerFile.2 changed⟩

-- a header that lost its last recorded item keeps the record of its previous contents
theorem emptied_header_keeps_rows : ∃ db after, Reachable foldHash (fun _ => True) db ∧
    (headerJob "b.c" 20 []).Stores foldHash db after ∧
    (headerJob "b.c" 20 []).Changed foldHash db headerFile.2 ∧
    ¬ (after.content headerFile).YieldedBy foldHash (headerJob "b.c" 20 []) headerFile.2 := by
  obtain ⟨db,first⟩ := @store_total foldHash (headerJob "a.c" 10 ["f"]) .empty
  obtain ⟨after,second⟩ := @store_total foldHash (headerJob "b.c" 20 []) db
  obtain ⟨reached,changed⟩ := header_stored first
  refine ⟨db,after,reached,stores_of_store second,changed,?_⟩
  intro yielded
  have survives : (((headerJob "a.c" 10 ["f"]).store foldHash .empty).bind ((headerJob "b.c" 20 []).store foldHash)).map
      (fun after => (after.content headerFile).records callKey) =
      some (some ⟨"f".toList,none,none,false⟩) := by decide +kernel
  rw [first,Option.bind_some,second,Option.map_some,Option.some.injEq] at survives
  exact absurd (yielded.records callKey _ survives) (by decide +kernel)

end Emptied
end Semindex.IndexDb
