import Semindex.IndexDb.Content

/-! The staged files: where each row of `staging_files` comes from, and which
rows and file positions the cache marks. -/
namespace Semindex.IndexDb
open Semindex.Relational

section Files
variable (blake3 : List UInt8 → Fingerprint) (job : Job)

def Job.storedPath (i : Nat) : Text := ((job.paths blake3).files[i]?).getD []

/-- Position `i` of the file list has items to store, under the path `path`. -/
structure Job.Counted (i : Nat) (fingerprint : FileFingerprint) (path : Text) : Prop where
  listed : (job.fingerprints blake3)[i]? = some fingerprint
  counted : fingerprint.recordCount ≠ 0
  path_eq : job.storedPath blake3 i = path

variable {blake3 job}

theorem paths_listed {i : Nat} {fingerprint : FileFingerprint}
    (listed : (job.fingerprints blake3)[i]? = some fingerprint) :
    (job.paths blake3).files[i]? = some (job.pathOf (some i) fingerprint.file) := by
  simp [Job.paths,listed]

theorem storedPath_listed {i : Nat} {fingerprint : FileFingerprint}
    (listed : (job.fingerprints blake3)[i]? = some fingerprint) :
    job.storedPath blake3 i = job.pathOf (some i) fingerprint.file := by
  rw [Job.storedPath,paths_listed listed,Option.getD_some]

theorem lookup_insertFile (files : Table Text StagingFile) (entry : FileFingerprint × Nat) (path : Text) :
    (job.insertFile blake3 files entry).lookup path =
      if entry.1.recordCount ≠ 0 ∧ job.storedPath blake3 entry.2 = path then
        some { job.stagedFile entry.2 entry.1 with
          cached := ((files.lookup path).map StagingFile.cached).getD false }
      else files.lookup path := by
  unfold Job.insertFile upsertFile Job.storedPath
  by_cases empty : entry.1.recordCount = 0
  · simp [empty]
  · by_cases same : ((job.paths blake3).files[entry.2]?).getD [] = path
    · subst same
      simp [empty]
    · simp [empty,same,AList.lookup_insert_ne (Ne.symm same)]

variable (blake3 job) in
private theorem insertFiles_rows (entries : List (FileFingerprint × Nat)) :
    (∀ path row, (entries.foldl (job.insertFile blake3) ∅).lookup path = some row →
      ∃ e ∈ entries, e.1.recordCount ≠ 0 ∧ job.storedPath blake3 e.2 = path ∧ row = job.stagedFile e.2 e.1) ∧
    ∀ e ∈ entries, e.1.recordCount ≠ 0 →
      ((entries.foldl (job.insertFile blake3) ∅).lookup (job.storedPath blake3 e.2)).isSome := by
  induction entries using List.reverseRecOn with
  | nil => simp
  | append_singleton entries e ih =>
    obtain ⟨rows,covers⟩ := ih
    rw [List.foldl_append,List.foldl_cons,List.foldl_nil]
    constructor
    · intro path row found
      rw [lookup_insertFile] at found
      split at found
      · rename_i here
        refine ⟨e,by simp,here.1,here.2,?_⟩
        cases Option.some.inj found
        cases known : (entries.foldl (job.insertFile blake3) ∅).lookup path with
        | none => rfl
        | some old =>
          obtain ⟨other,_,_,_,rfl⟩ := rows path old known
          rfl
      · obtain ⟨other,member,rest⟩ := rows path row found
        exact ⟨other,by simp [member],rest⟩
    · intro other member counted
      rw [lookup_insertFile]
      rcases List.mem_append.mp member with inside | last
      · split
        · rfl
        · exact covers other inside counted
      · rw [List.mem_singleton] at last
        subst last
        simp [counted]

theorem lookup_insertMain (files : Table Text StagingFile) (path : Text) :
    (job.insertMain blake3 files).lookup path =
      if (job.paths blake3).mainFile = some path then
        some { mtimeNs := (job.mainStat.map Stat.mtimeNs).getD 0, size := (job.mainStat.map Stat.size).getD 0,
               isMain := true, ordinal := (files.lookup path).bind StagingFile.ordinal, fingerprint := none,
               cached := ((files.lookup path).map StagingFile.cached).getD false }
      else files.lookup path := by
  unfold Job.insertMain
  cases main : (job.paths blake3).mainFile with
  | none => simp
  | some own =>
    unfold upsertMain
    by_cases same : own = path
    · subst same
      cases known : files.lookup own <;> simp [known]
    · have other : path ≠ own := Ne.symm same
      cases known : files.lookup own <;> simp only [known,AList.lookup_insert_ne other,Option.some.injEq,same,if_false]

private theorem mem_listed {e : FileFingerprint × Nat} :
    e ∈ (job.fingerprints blake3).zipIdx ↔ (job.fingerprints blake3)[e.2]? = some e.1 := by
  rw [List.mem_zipIdx_iff_getElem?]

/-- A staged row is the main file's, or comes from a position of the file list. -/
theorem stagedFiles_row {path : Text} {row : StagingFile}
    (found : (job.stagedFiles blake3).lookup path = some row) :
    row.cached = false ∧ (((job.paths blake3).mainFile = some path ∧ row.isMain = true ∧ row.fingerprint = none ∧
        row.stat = ((job.mainStat.map Stat.mtimeNs).getD 0,(job.mainStat.map Stat.size).getD 0)) ∨
      ((job.paths blake3).mainFile ≠ some path ∧
        ∃ i fingerprint, job.Counted blake3 i fingerprint path ∧ row = job.stagedFile i fingerprint)) := by
  have rows := (insertFiles_rows blake3 job (job.fingerprints blake3).zipIdx).1
  rw [Job.stagedFiles,lookup_insertMain] at found
  split at found
  · rename_i main
    cases Option.some.inj found
    refine ⟨?_,.inl ⟨main,rfl,rfl,rfl⟩⟩
    cases known : ((job.fingerprints blake3).zipIdx.foldl (job.insertFile blake3) ∅).lookup path with
    | none => rfl
    | some old =>
      obtain ⟨_,_,_,_,rfl⟩ := rows path old known
      rfl
  · rename_i other
    obtain ⟨e,member,counted,stored,rfl⟩ := rows path row found
    exact ⟨rfl,.inr ⟨other,e.2,e.1,⟨mem_listed.mp member,counted,stored⟩,rfl⟩⟩

theorem stagedFiles_counted {i : Nat} {fingerprint : FileFingerprint} {path : Text}
    (counted : job.Counted blake3 i fingerprint path) : ((job.stagedFiles blake3).lookup path).isSome := by
  have covers := (insertFiles_rows blake3 job (job.fingerprints blake3).zipIdx).2
    (fingerprint,i) (mem_listed.mpr counted.listed) counted.counted
  rw [counted.path_eq] at covers
  rw [Job.stagedFiles,lookup_insertMain]
  split
  · rfl
  · exact covers

theorem stagedFiles_main {path : Text} (main : (job.paths blake3).mainFile = some path) :
    ∃ row, (job.stagedFiles blake3).lookup path = some row ∧ row.isMain = true ∧ row.fingerprint = none ∧
      row.stat = ((job.mainStat.map Stat.mtimeNs).getD 0,(job.mainStat.map Stat.size).getD 0) := by
  cases found : (job.stagedFiles blake3).lookup path with
  | none =>
    rw [Job.stagedFiles,lookup_insertMain,if_pos main] at found
    contradiction
  | some row =>
    obtain ⟨_,⟨_,here⟩ | ⟨other,_⟩⟩ := stagedFiles_row found
    · exact ⟨row,rfl,here⟩
    · exact absurd main other

theorem stagedFile_fingerprint {i : Nat} {fingerprint : FileFingerprint}
    (included : (job.stagedFile i fingerprint).isMain = false) :
    (job.stagedFile i fingerprint).fingerprint = some fingerprint.data := by
  unfold Job.stagedFile at *
  simp only at included
  simp only [included,Bool.false_eq_true,if_false]

theorem stagedFile_main {i : Nat} {fingerprint : FileFingerprint}
    (main : (job.stagedFile i fingerprint).isMain = true) :
    (job.stagedFile i fingerprint).fingerprint = none := by
  unfold Job.stagedFile at *
  simp only at main
  simp only [main,if_true]

/-- An included file is staged from the position its ordinal names, with its fingerprint. -/
theorem stagedFiles_included {path : Text} {row : StagingFile}
    (found : (job.stagedFiles blake3).lookup path = some row) (included : row.isMain = false) :
    ∃ i fingerprint, job.Counted blake3 i fingerprint path ∧ row = job.stagedFile i fingerprint ∧
      row.ordinal = some i ∧ row.fingerprint = some fingerprint.data := by
  obtain ⟨_,⟨_,main,_⟩ | ⟨_,i,fingerprint,counted,rfl⟩⟩ := stagedFiles_row found
  · simp [main] at included
  · exact ⟨i,fingerprint,counted,rfl,rfl,stagedFile_fingerprint included⟩

theorem stagedFiles_fingerprint {path : Text} {row : StagingFile} {data : Fingerprint}
    (found : (job.stagedFiles blake3).lookup path = some row) (offered : row.fingerprint = some data) :
    row.isMain = false := by
  obtain ⟨_,⟨_,_,absent,_⟩ | ⟨_,i,fingerprint,_,rfl⟩⟩ := stagedFiles_row found
  · simp [absent] at offered
  · by_contra main
    rw [Bool.not_eq_false] at main
    simp [stagedFile_main main] at offered

end Files

section Flags
variable (blake3 : List UInt8 → Fingerprint) (job : Job) (db : Db)

def Job.markedFiles : Table Text StagingFile := markCached db job.request.variant (job.stagedFiles blake3)

def Job.cachedFlags : List Bool :=
  (List.range (job.fingerprints blake3).length).map
    (fun i => (cachedOrdinals (job.markedFiles blake3 db)).contains i)

variable {blake3 job db}

theorem lookup_markedFiles (path : Text) :
    (job.markedFiles blake3 db).lookup path = ((job.stagedFiles blake3).lookup path).map (fun row =>
      if !row.isMain && row.mtimeNs ≠ 0 && cacheHit db job.request.variant path row then {row with cached := true}
      else row) := Table.lookup_modify _ _ _

/-- A file position with the `cached` flag set is that of an included file with a cache hit. -/
theorem cachedOrdinals_mem {i : Nat} (member : i ∈ cachedOrdinals (job.markedFiles blake3 db)) :
    ∃ fingerprint path row, job.Counted blake3 i fingerprint path ∧
      (job.stagedFiles blake3).lookup path = some row ∧ row.isMain = false ∧
      row.fingerprint = some fingerprint.data ∧
      (job.markedFiles blake3 db).lookup path = some {row with cached := true} := by
  obtain ⟨e,selected,ordinal⟩ := List.mem_map.mp member
  obtain ⟨entry,flagged⟩ := List.mem_filter.mp selected
  have marked : (job.markedFiles blake3 db).lookup e.1 = some e.2 := AList.mem_lookup_iff.mpr entry
  have source := marked
  rw [lookup_markedFiles] at source
  obtain ⟨row,found,changed⟩ := Option.map_eq_some_iff.mp source
  split at changed
  · rename_i hit
    have included : row.isMain = false := by
      simp only [Bool.and_eq_true,Bool.not_eq_true'] at hit
      exact hit.1.1
    obtain ⟨j,fingerprint,counted,_,position,offered⟩ := stagedFiles_included found included
    rw [← changed] at ordinal marked
    simp only [position,Option.getD_some] at ordinal
    subst ordinal
    exact ⟨fingerprint,e.1,row,counted,found,included,offered,marked⟩
  · have clear := (stagedFiles_row found).1
    rw [changed,flagged] at clear
    contradiction

private theorem markedFiles_without_candidates (none_left : job.cacheCandidates blake3 = 0) :
    job.markedFiles blake3 db = job.stagedFiles blake3 := by
  apply AList.ext
  have unchanged : ∀ e ∈ (job.stagedFiles blake3).entries, e.2.isMain = true := by
    intro e member
    by_contra included
    rw [Bool.not_eq_true] at included
    obtain ⟨i,fingerprint,counted,same,_⟩ :=
      stagedFiles_included (AList.mem_lookup_iff.mpr member) included
    have positive : 0 < job.cacheCandidates blake3 := by
      refine List.countP_pos_iff.mpr ⟨(fingerprint,i),mem_listed.mpr counted.listed,?_⟩
      rw [same] at included
      simp [counted.counted,included]
    omega
  refine (List.map_congr_left ?_).trans (List.map_id _)
  intro e member
  simp [unchanged e member]

private theorem cachedOrdinals_unmarked : cachedOrdinals (job.stagedFiles blake3) = [] := by
  unfold cachedOrdinals
  rw [List.map_eq_nil_iff,List.filter_eq_nil_iff]
  intro e member
  simp [(stagedFiles_row (AList.mem_lookup_iff.mpr member)).1]

/-- `stage_files` never fails on the file list, and its two ways out agree. -/
theorem stageFiles_eq :
    stageFiles blake3 job db = some (job.markedFiles blake3 db,job.cachedFlags blake3 db) := by
  unfold stageFiles
  split
  · rename_i none_left
    have same := @markedFiles_without_candidates _ _ db none_left
    simp [Job.cachedFlags,same,cachedOrdinals_unmarked]
  · rw [if_pos]
    · rfl
    · rw [List.all_eq_true]
      intro i member
      obtain ⟨_,_,_,counted,_⟩ := cachedOrdinals_mem member
      simpa using (List.getElem?_eq_some_iff.mp counted.listed).1

theorem cachedFlags_hit {i : Nat} (flagged : isCached (job.cachedFlags blake3 db) i = true) :
    i ∈ cachedOrdinals (job.markedFiles blake3 db) := by
  unfold isCached Job.cachedFlags at flagged
  rw [List.getElem?_map] at flagged
  cases position : (List.range (job.fingerprints blake3).length)[i]? with
  | none => simp [position] at flagged
  | some j =>
    obtain ⟨bound,same⟩ := List.getElem?_eq_some_iff.mp position
    rw [List.getElem_range] at same
    subst same
    simpa [position] using flagged

end Flags

end Semindex.IndexDb
