import Semindex.IndexDb.Reachable

/-! What a store takes from the lookups of its process: the path and the `stat` of
the main file and of each file with items. Two jobs for which these agree store
the same, so a lookup that fails matters only where it had an answer. -/
namespace Semindex.IndexDb
open Semindex.Relational

section Alike
variable {blake3 : List UInt8 → Fingerprint} {a b : Job}

/-- Two jobs of one request whose lookups agree on what is stored. -/
structure SeenAlike (blake3 : List UInt8 → Fingerprint) (a b : Job) : Prop where
  request : a.request = b.request
  main : ∀ name, a.request.mainFile = some name → a.pathOf none name = b.pathOf none name ∧
    a.statOf none name = b.statOf none name
  file : ∀ (i : Nat) fingerprint, (a.fingerprints blake3)[i]? = some fingerprint → fingerprint.recordCount ≠ 0 →
    a.pathOf (some i) fingerprint.file = b.pathOf (some i) fingerprint.file ∧
      a.statOf (some i) fingerprint.file = b.statOf (some i) fingerprint.file

variable (alike : SeenAlike blake3 a b)
include alike

theorem alike_fingerprints : a.fingerprints blake3 = b.fingerprints blake3 := by
  rw [Job.fingerprints,Job.fingerprints,alike.request]

theorem alike_main : (a.paths blake3).mainFile = (b.paths blake3).mainFile ∧ a.mainStat = b.mainStat := by
  unfold Job.paths Job.mainStat
  dsimp only
  rw [← alike.request]
  cases main : a.request.mainFile with
  | none => exact ⟨rfl,rfl⟩
  | some name => exact ⟨congrArg some (alike.main name main).1,(alike.main name main).2⟩

theorem alike_counted {i : Nat} {fingerprint : FileFingerprint}
    (listed : (a.fingerprints blake3)[i]? = some fingerprint) (items : fingerprint.recordCount ≠ 0) :
    (a.paths blake3).files[i]? = (b.paths blake3).files[i]? ∧
      a.stagedFile i fingerprint = b.stagedFile i fingerprint := by
  obtain ⟨path,stat⟩ := alike.file i fingerprint listed items
  constructor
  · rw [paths_listed listed,paths_listed (alike_fingerprints alike ▸ listed),path]
  · unfold Job.stagedFile
    rw [stat,(alike_main alike).2]

theorem alike_stagedFiles : a.stagedFiles blake3 = b.stagedFiles blake3 := by
  have main (files : Table Text StagingFile) : a.insertMain blake3 files = b.insertMain blake3 files := by
    unfold Job.insertMain
    rw [(alike_main alike).1,(alike_main alike).2]
  have each (entry : FileFingerprint × Nat) (member : entry ∈ (a.fingerprints blake3).zipIdx)
      (files : Table Text StagingFile) : a.insertFile blake3 files entry = b.insertFile blake3 files entry := by
    unfold Job.insertFile
    split
    · rfl
    · rename_i items
      obtain ⟨path,row⟩ := alike_counted alike (List.mem_zipIdx_iff_getElem?.mp member) items
      rw [path,row]
  unfold Job.stagedFiles
  rw [main,← alike_fingerprints alike]
  congr 1
  generalize (∅ : Table Text StagingFile) = files
  revert each
  generalize (a.fingerprints blake3).zipIdx = entries
  intro each
  induction entries generalizing files with
  | nil => rfl
  | cons entry entries ih =>
    rw [List.foldl_cons,List.foldl_cons,each entry List.mem_cons_self]
    exact ih _ (fun other member => each other (List.mem_cons_of_mem _ member))

omit alike in
theorem rows_congr {first second : StoredPaths} {item : Item}
    (same : first.files[item.fileIndex]? = second.files[item.fileIndex]?) :
    recordRows first item = recordRows second item ∧ symbolTypeRows first item = symbolTypeRows second item ∧
      functionTypeRows first item = functionTypeRows second item ∧
      propertyRows first item = propertyRows second item := by
  have path (fallback : Text) : recordPath first item.fileIndex fallback = recordPath second item.fileIndex fallback := by
    rw [recordPath,recordPath,same]
  cases item with
  | symbol s =>
    change ∀ fallback, recordPath first s.fileIndex fallback = recordPath second s.fileIndex fallback at path
    simp only [recordRows,symbolTypeRows,functionTypeRows,propertyRows,symbolRecord,symbolTypeRow,symbolPropertiesRow,
      path,and_self]
  | use u =>
    change ∀ fallback, recordPath first u.fileIndex fallback = recordPath second u.fileIndex fallback at path
    simp only [recordRows,symbolTypeRows,functionTypeRows,propertyRows,useRecord,path,and_self]
  | signature g =>
    change ∀ fallback, recordPath first g.fileIndex fallback = recordPath second g.fileIndex fallback at path
    simp only [recordRows,symbolTypeRows,functionTypeRows,propertyRows,returnTypeRow,parameterRow,path,and_self]

theorem alike_stageRecords (cached : List Bool) (st : Staging) :
    a.stageRecords blake3 cached st = b.stageRecords blake3 cached st := by
  have each (item : Item) (member : item ∈ a.request.index.items.filter (kept a.request.includeLocal cached)) :
      (a.paths blake3).files[item.fileIndex]? = (b.paths blake3).files[item.fileIndex]? := by
    obtain ⟨listed,chosen⟩ := List.mem_filter.mp member
    obtain ⟨passes,_⟩ := Bool.and_eq_true_iff.mp chosen
    obtain ⟨fingerprint,counted⟩ := @passing_counted blake3 a item (List.mem_filter.mpr ⟨listed,passes⟩)
    exact (alike_counted alike counted.listed counted.counted).1
  have rows {α : Type} (f : StoredPaths → Item → List α)
      (same : ∀ item, (a.paths blake3).files[item.fileIndex]? = (b.paths blake3).files[item.fileIndex]? →
        f (a.paths blake3) item = f (b.paths blake3) item) :
      (a.request.index.items.filter (kept a.request.includeLocal cached)).flatMap (f (a.paths blake3)) =
        (a.request.index.items.filter (kept a.request.includeLocal cached)).flatMap (f (b.paths blake3)) := by
    refine List.flatMap_congr (fun item member => ?_)
    exact same item (each item member)
  unfold Job.stageRecords
  rw [← alike.request,stageRecords_rows,stageRecords_rows,rows recordRows (fun _ same => (rows_congr same).1),
    rows symbolTypeRows (fun _ same => (rows_congr same).2.1),
    rows functionTypeRows (fun _ same => (rows_congr same).2.2.1),
    rows propertyRows (fun _ same => (rows_congr same).2.2.2)]

theorem alike_stage (db : Db) : a.stage blake3 db = b.stage blake3 db := by
  have marked : a.markedFiles blake3 db = b.markedFiles blake3 db := by
    rw [Job.markedFiles,Job.markedFiles,alike_stagedFiles alike,alike.request]
  have flags : a.cachedFlags blake3 db = b.cachedFlags blake3 db := by
    rw [Job.cachedFlags,Job.cachedFlags,marked,alike_fingerprints alike]
  rw [Job.stage,Job.stage,stageFiles_eq,stageFiles_eq,marked,flags]
  simp only [Option.map_some,alike_stageRecords alike]

/-- They store the same, also by a staging that is merged later. -/
theorem alike_stores {db after : Db} (stored : a.Stores blake3 db after) : b.Stores blake3 db after := by
  obtain ⟨st,staged,merged⟩ := stored
  rw [alike.request] at merged
  refine ⟨st,?_,merged⟩
  cases staged with
  | fresh before _ staged => exact .fresh before st ((alike_stage alike before).symm.trans staged)
  | retried before first staged =>
    have again : a.restage blake3 first = b.restage blake3 first := by
      rw [Job.restage,Job.restage,alike_stageRecords alike,Job.noneCached,Job.noneCached,alike_fingerprints alike]
    rw [again]
    exact .retried before first ((alike_stage alike before).symm.trans staged)

theorem alike_store (db : Db) : a.store blake3 db = b.store blake3 db := by
  rw [Job.store,Job.store,alike_stage alike,alike.request]

end Alike

section Answered
variable (blake3 : List UInt8 → Fingerprint) (job : Job)

/-- The job for which no lookup fails. -/
def Job.found : Job := {job with lost := fun _ => false}

/-- Whether the store makes the lookup and it finds something. -/
def Job.answered : Lookup → Bool
  | .root => job.found.root.isSome
  | .marker marker => job.request.repositoryRoot.isNone && (job.fs.lstat marker).isSome
  | .path none => job.found.root.isSome && (job.request.mainFile.bind job.fs.realpath).isSome
  | .path (some i) => job.found.root.isSome &&
      (job.fingerprints blake3)[i]?.any (fun fingerprint =>
        fingerprint.recordCount ≠ 0 && (job.fs.realpath fingerprint.file).isSome)
  | .stat none => (job.request.mainFile.bind job.fs.stat).isSome
  | .stat (some i) => (job.fingerprints blake3)[i]?.any (fun fingerprint =>
      fingerprint.recordCount ≠ 0 && (job.fs.stat fingerprint.file).isSome)

variable {blake3 job}

theorem found_root (heard : ∀ lookup, job.lost lookup = true → job.answered blake3 lookup = false) :
    job.root = job.found.root := by
  have markers : (fun marker => if job.lost (.marker marker) then none else job.fs.lstat marker) = job.fs.lstat ∨
      job.request.repositoryRoot.isSome := by
    cases given : job.request.repositoryRoot with
    | some root => exact .inr rfl
    | none =>
      refine .inl (funext fun marker => ?_)
      split
      · rename_i lost
        have missing := heard _ lost
        rw [Job.answered,given,Option.isNone_none,Bool.true_and,Option.isSome_eq_false_iff,Option.isNone_iff_eq_none]
          at missing
        exact missing.symm
      · rfl
  by_cases lost : job.lost .root = true
  · have missing := heard _ lost
    rw [Job.answered,Option.isSome_eq_false_iff,Option.isNone_iff_eq_none] at missing
    rw [missing,Job.root,if_pos lost]
  · rw [Job.root,if_neg lost]
    rcases markers with same | given
    · rw [same]
      rfl
    · obtain ⟨root,known⟩ := Option.isSome_iff_exists.mp given
      simp [Job.root,Job.found,known]

theorem found_path {file : Option Nat} {name : Text} (root : job.root = job.found.root)
    (missing : job.lost (.path file) = true → job.found.root.isSome → job.fs.realpath name = none) :
    job.pathOf file name = job.found.pathOf file name := by
  unfold Job.pathOf
  rw [root]
  split
  · rename_i lost
    change name = repositoryPath job.fs job.found.root name
    unfold repositoryPath
    cases known : job.found.root with
    | none => rfl
    | some own => rw [missing lost (by rw [known]; rfl)]
  · rfl

theorem found_stat {file : Option Nat} {name : Text}
    (missing : job.lost (.stat file) = true → job.fs.stat name = none) :
    job.statOf file name = job.found.statOf file name := by
  unfold Job.statOf
  split
  · rename_i lost
    exact (missing lost).symm
  · rfl

/-- Lookups that fail where there is nothing to find change nothing. -/
theorem found_alike (heard : ∀ lookup, job.lost lookup = true → job.answered blake3 lookup = false) :
    SeenAlike blake3 job job.found where
  request := rfl
  main := by
    intro name main
    refine ⟨found_path (found_root heard) (fun lost => ?_),found_stat (fun lost => ?_)⟩
    · have missing := heard _ lost
      simpa [Job.answered,main] using missing
    · have missing := heard _ lost
      simpa [Job.answered,main] using missing
  file := by
    intro i fingerprint listed items
    refine ⟨found_path (found_root heard) (fun lost => ?_),found_stat (fun lost => ?_)⟩
    · have missing := heard _ lost
      simpa [Job.answered,listed,items] using missing
    · have missing := heard _ lost
      simpa [Job.answered,listed,items] using missing

end Answered
end Semindex.IndexDb
