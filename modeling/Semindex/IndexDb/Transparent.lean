import Semindex.IndexDb.Reachable

/-! Any number of writers over one database. Staging and merging are the two
steps of a writer, and the merges of the others fall where they may; the result
is compared with the same merges made by writers that never skip a file. -/
namespace Semindex.IndexDb
open Semindex.Relational

/-- The same rows in each of the six tables, file ids included. -/
structure SameTables (a b : Db) : Prop where
  files : ∀ k, a.files.lookup k = b.files.lookup k
  records : ∀ k, a.records.lookup k = b.records.lookup k
  symbolTypes : ∀ k, a.symbolTypes.lookup k = b.symbolTypes.lookup k
  functionTypes : ∀ k, a.functionTypes.lookup k = b.functionTypes.lookup k
  symbolProperties : ∀ k, a.symbolProperties.lookup k = b.symbolProperties.lookup k
  fileFingerprints : ∀ k, a.fileFingerprints.lookup k = b.fileFingerprints.lookup k

-- what the invariant of a run keeps: the next file id is a function of the `files` table
structure SameState (a b : Db) : Prop where
  files : a.files = b.files
  content : ∀ f, a.content f = b.content f

section Same
variable {a b : Db}

private theorem lookup_of_content {κ ν : Type} [DecidableEq κ] {files : Files} {s t : Table (Nat × κ) ν}
    (filedS : Filed files s) (filedT : Filed files t)
    (same : ∀ f k, rowsOf files s f k = rowsOf files t f k) (k : Nat × κ) : s.lookup k = t.lookup k := by
  obtain ⟨id,key⟩ := k
  by_cases known : ∃ f row, files.lookup f = some row ∧ row.id = id
  · obtain ⟨f,row,found,rfl⟩ := known
    have cell := same f key
    simpa only [rowsOf,found,Option.bind_some] using cell
  · have absent : ∀ t : Table (Nat × κ) ν, Filed files t → t.lookup (id,key) = none := by
      intro t filed
      cases held : t.lookup (id,key) with
      | none => rfl
      | some v => exact absurd (filed _ v held) known
    rw [absent s filedS,absent t filedT]

theorem SameState.tables (same : SameState a b) (left : a.Consistent) (right : b.Consistent) : SameTables a b := by
  have files := same.files
  have cell : ∀ {κ ν : Type} [DecidableEq κ] {s t : Table (Nat × κ) ν}, Filed a.files s → Filed b.files t →
      (∀ f k, rowsOf a.files s f k = rowsOf b.files t f k) → ∀ k, s.lookup k = t.lookup k := by
    intro κ ν _ s t filedS filedT rows
    rw [← files] at filedT rows
    exact lookup_of_content filedS filedT rows
  exact ⟨fun k => by rw [files],
    cell left.records right.records (fun f => congrFun (congrArg FileContent.records (same.content f))),
    cell left.symbolTypes right.symbolTypes (fun f => congrFun (congrArg FileContent.symbolTypes (same.content f))),
    cell left.functionTypes right.functionTypes
      (fun f => congrFun (congrArg FileContent.functionTypes (same.content f))),
    cell left.symbolProperties right.symbolProperties
      (fun f => congrFun (congrArg FileContent.symbolProperties (same.content f))),
    cell left.fileFingerprints right.fileFingerprints
      (fun f => congrFun (congrArg FileContent.fingerprints (same.content f)))⟩

theorem SameState.trans {c : Db} (first : SameState a b) (second : SameState b c) : SameState a c :=
  ⟨first.files.trans second.files,fun f => (first.content f).trans (second.content f)⟩

/-- The uncached merge is a function of the files and of their contents. -/
theorem SameState.mergeTables (same : SameState a b) (request : StoreRequest) {st : Staging} (covered : st.Covered)
    (left : a.Consistent) (right : b.Consistent) :
    SameState (mergeTables request st a) (mergeTables request st b) := by
  constructor
  · change mergedFiles request.variant st a.files = mergedFiles request.variant st b.files
    rw [same.files]
  · intro f
    rw [content_mergeTables _ _ _ left covered,content_mergeTables _ _ _ right covered,Db.merged,Db.merged,
      same.content f]

end Same

section Merge
variable (blake3 : List UInt8 → Fingerprint) (job : Job)

/-- No item of a skipped file and no item of a staged file fall under one stored path and primary
key, unless they store the same row. Two names of one stored file make this possible. -/
structure Job.AliasesAgree (skip : Nat → Bool) : Prop where
  records : ∀ a ∈ job.passing, ∀ b ∈ job.passing, skip a.fileIndex = false → skip b.fileIndex = true →
    ∀ x ∈ recordRows (job.paths blake3) a, ∀ y ∈ recordRows (job.paths blake3) b, x.1 = y.1 → x.2 = y.2
  functionTypes : ∀ a ∈ job.passing, ∀ b ∈ job.passing, skip a.fileIndex = false → skip b.fileIndex = true →
    ∀ x ∈ functionTypeRows (job.paths blake3) a, ∀ y ∈ functionTypeRows (job.paths blake3) b, x.1 = y.1 → x.2 = y.2

variable {blake3 job}

private theorem insertedFiles_marked (variant : Text) (mark : Text → StagingFile → Bool)
    (entries : List (Sigma fun _ : Text => StagingFile)) (files : Files) :
    (entries.map (fun e => (⟨e.1,{e.2 with cached := mark e.1 e.2}⟩ : Sigma fun _ : Text => StagingFile))).foldl
      (insertFileRow variant) files = entries.foldl (insertFileRow variant) files := by
  induction entries generalizing files with
  | nil => rfl
  | cons e entries ih => exact ih _

private theorem mergedFiles_marked (variant : Text) (mark : Text → StagingFile → Bool) {st plain : Staging}
    (files : st.files = Table.modify plain.files (fun path row => {row with cached := mark path row}))
    (known : Files) : mergedFiles variant st known = mergedFiles variant plain known := by
  have inserted : insertedFiles variant st known = insertedFiles variant plain known := by
    unfold insertedFiles
    rw [files]
    exact insertedFiles_marked variant mark _ _
  have updated : updateFileRow variant st = updateFileRow variant plain := by
    funext f row
    unfold updateFileRow
    rw [files,Table.lookup_modify]
    cases plain.files.lookup f.2 <;> rfl
  rw [mergedFiles,mergedFiles,inserted,updated]

private theorem cell_uncached {κ ν : Type} [DecidableEq κ] [Conflict ν] {rows : Item → List ((Text × κ) × ν)}
    {skip : Nat → Bool} {again : Bool} {path : Text} (old : κ → Option ν)
    (located : Located (job.paths blake3) rows)
    (skipped : ∀ i, again = false → skip i = true → job.storedPath blake3 i = path →
      ∀ row ∈ (job.passing.filter (fun item => item.fileIndex = i)).flatMap rows, Absorbs (old row.1.2) row.2)
    (commute : again = true → ∀ a ∈ job.passing, ∀ b ∈ job.passing, skip a.fileIndex = false →
      skip b.fileIndex = true → ∀ x ∈ rows a, ∀ y ∈ rows b, x.1 = y.1 → Commutes x.2 y.2) (k : κ) :
    merge (old k) (gather (job.rows skip again rows) (path,k)) =
      merge (old k) (gather (job.rows (fun _ => false) false rows) (path,k)) := by
  rw [rows_all]
  cases again with
  | false =>
    rw [rows_once]
    apply merge_gather_filter
    intro item passing left_out row inside here
    have at_path := located_path located passing inside
    rw [here] at at_path
    have absorbed := skipped item.fileIndex rfl (by simpa using left_out) at_path.symm row
      (List.mem_flatMap.mpr ⟨item,List.mem_filter.mpr ⟨passing,by simp⟩,inside⟩)
    rw [here] at absorbed
    exact absorbed
  | true =>
    rw [rows_again,gather_append,rows_once,gather_selected_first]
    intro a memberA b memberB early late x insideA y insideB keyA keyB
    exact commute rfl a memberA b memberB (by simpa using early) (by simpa using late) x insideA y insideB
      (keyA.trans keyB.symm)

/-- A staging without cache hits is never stale. -/
theorem mergeStaging_stageAll (db : Db) :
    mergeStaging job.request (job.stageAll blake3) db =
      some (mergeTables job.request (job.stageAll blake3) db) := by
  refine mergeStaging_some.mpr ⟨?_,rfl⟩
  have files : (job.stageAll blake3).files = job.stagedFiles blake3 := by
    rw [Job.stageAll,Job.stageRecords,stageRecords_rows]
  unfold cachedFilesValid
  rw [Bool.not_eq_true',List.any_eq_false]
  intro e member
  rw [files] at member
  simp [(stagedFiles_row (AList.mem_lookup_iff.mpr member)).1]

/-- Whatever a merge skipped or staged twice, it leaves the tables as the uncached merge does. -/
theorem merge_uncached {skip : Nat → Bool} {again : Bool} {st : Staging} {db after : Db} {jobs : Job → Prop}
    (produces : job.Produces blake3 skip again st) (consistent : db.Consistent)
    (accounted : db.Accounted blake3 jobs) (member : jobs job)
    (agree : again = true → job.AliasesAgree blake3 skip)
    (merged : mergeStaging job.request st db = some after) :
    SameState after (mergeTables job.request (job.stageAll blake3) db) := by
  have plain := @stageAll_produces blake3 job
  constructor
  · obtain ⟨_,rfl⟩ := mergeStaging_some.mp merged
    obtain ⟨mark,files⟩ := produces.files
    refine @mergedFiles_marked _ mark _ (job.stageAll blake3) ?_ _
    rw [files,Job.stageAll,Job.stageRecords,stageRecords_rows]
  · intro f
    rw [content_merged produces consistent merged,
      content_merged plain consistent (mergeStaging_stageAll db)]
    cases entry : job.row blake3 f with
    | none => rfl
    | some row =>
      have skipped := skipped_accounts produces merged accounted member entry
      apply FileContent.ext
      · rfl
      · exact funext (cell_uncached _ (recordRows_located _)
          (fun i once flag here => (skipped i once flag here).records)
          (fun retried a memberA b memberB staged skipped x inA y inB key => by
            rw [Commutes,(agree retried).records a memberA b memberB staged skipped x inA y inB key]))
      · exact funext (cell_uncached _ (symbolTypeRows_located _)
          (fun i once flag here => (skipped i once flag here).symbolTypes)
          (fun _ _ _ _ _ _ _ _ _ _ _ _ => rfl))
      · exact funext (cell_uncached _ (functionTypeRows_located _)
          (fun i once flag here => (skipped i once flag here).functionTypes)
          (fun retried a memberA b memberB staged skipped x inA y inB key => by
            rw [Commutes,(agree retried).functionTypes a memberA b memberB staged skipped x inA y inB key]))
      · exact funext (cell_uncached _ (propertyRows_located _)
          (fun i once flag here => (skipped i once flag here).symbolProperties)
          (fun _ _ _ _ _ _ _ _ _ _ _ _ =>
            congrArg some (congrArg Properties.mk (BitVec.or_comm _ _))))
      · rfl

end Merge

-- `cached` holds the flags of the first staging
inductive Phase where
  | idle
  | staged (st : Staging) (cached : List Bool)
  | retried (st : Staging) (cached : List Bool)
  | done
  | failed

inductive Event (ι : Type) where
  | stage (writer : ι)
  | merge (writer : ι)

structure System (ι : Type) where
  db : Db
  phase : ι → Phase
  commits : List ι

section Run
variable {ι : Type} [DecidableEq ι] (blake3 : List UInt8 → Fingerprint) (writers : ι → Job)

def System.initial : System ι := ⟨.empty,fun _ => .idle,[]⟩

def System.setPhase (s : System ι) (writer : ι) (phase : Phase) : System ι :=
  {s with phase := fun other => if other = writer then phase else s.phase other}

def System.commit (s : System ι) (writer : ι) (after : Db) : System ι :=
  {s.setPhase writer .done with db := after, commits := s.commits ++ [writer]}

/-- One atomic phase of one writer. A stale merge is rolled back and followed by the retry's
staging, which touches nothing shared. -/
def System.step (s : System ι) : Event ι → System ι
  | .stage writer =>
    match s.phase writer with
    | .idle =>
      match (writers writer).stage blake3 s.db with
      | some st => s.setPhase writer (.staged st ((writers writer).cachedFlags blake3 s.db))
      | none => s
    | _ => s
  | .merge writer =>
    match s.phase writer with
    | .staged st cached =>
      match mergeStaging (writers writer).request st s.db with
      | some after => s.commit writer after
      | none => s.setPhase writer (.retried ((writers writer).restage blake3 st) cached)
    | .retried st _ =>
      match mergeStaging (writers writer).request st s.db with
      | some after => s.commit writer after
      | none => s.setPhase writer .failed
    | _ => s

def System.run (events : List (Event ι)) : System ι := events.foldl (System.step blake3 writers) .initial

/-- The merges of `commits` by writers that never mark a file cached. -/
def uncached (commits : List ι) : Db :=
  commits.foldl (fun db writer =>
    mergeTables (writers writer).request ((writers writer).stageAll blake3) db) .empty

/-- A merge after a retry is one of an index whose aliases agree. -/
def System.RetryAgrees (s : System ι) (event : Event ι) : Prop :=
  ∀ writer st cached, event = .merge writer → s.phase writer = .retried st cached →
    (writers writer).AliasesAgree blake3 (isCached cached)

structure System.Invariant (s : System ι) : Prop where
  reachable : Reachable blake3 (fun job => ∃ writer, writers writer = job) s.db
  staged : ∀ writer st cached, s.phase writer = .staged st cached →
    ∃ db, (writers writer).stage blake3 db = some st ∧ (writers writer).cachedFlags blake3 db = cached
  retried : ∀ writer st cached, s.phase writer = .retried st cached →
    ∃ db first, (writers writer).stage blake3 db = some first ∧ (writers writer).cachedFlags blake3 db = cached ∧
      (writers writer).restage blake3 first = st
  same : SameState s.db (uncached blake3 writers s.commits)

variable {blake3 writers}

omit [DecidableEq ι] in
theorem uncached_consistent (commits : List ι) : (uncached blake3 writers commits).Consistent := by
  induction commits using List.reverseRecOn with
  | nil => exact empty_consistent
  | append_singleton commits writer ih =>
    rw [uncached,List.foldl_append]
    exact mergeTables_consistent _ _ _ ih

omit [DecidableEq ι] in
theorem initial_invariant : (System.initial : System ι).Invariant blake3 writers where
  reachable := .empty
  staged writer st cached now := by simp [System.initial] at now
  retried writer st cached now := by simp [System.initial] at now
  same := ⟨rfl,fun _ => rfl⟩

private theorem setPhase_eq {s : System ι} {writer other : ι} {phase now : Phase}
    (found : (s.setPhase writer phase).phase other = now) :
    (other = writer ∧ phase = now) ∨ s.phase other = now := by
  simp only [System.setPhase] at found
  split at found
  · rename_i same
    exact .inl ⟨same,found⟩
  · exact .inr found

private theorem setPhase_invariant {s : System ι} {writer : ι} {phase : Phase}
    (invariant : s.Invariant blake3 writers)
    (staged : ∀ st cached, phase = .staged st cached →
      ∃ db, (writers writer).stage blake3 db = some st ∧ (writers writer).cachedFlags blake3 db = cached)
    (retried : ∀ st cached, phase = .retried st cached →
      ∃ db first, (writers writer).stage blake3 db = some first ∧ (writers writer).cachedFlags blake3 db = cached ∧
        (writers writer).restage blake3 first = st) :
    (s.setPhase writer phase).Invariant blake3 writers := by
  refine ⟨invariant.reachable,?_,?_,invariant.same⟩
  · intro other st cached now
    rcases setPhase_eq now with ⟨rfl,here⟩ | before
    · exact staged st cached here
    · exact invariant.staged other st cached before
  · intro other st cached now
    rcases setPhase_eq now with ⟨rfl,here⟩ | before
    · exact retried st cached here
    · exact invariant.retried other st cached before

private theorem commit_invariant
    (faithful : FingerprintFaithful blake3 (fun job => ∃ writer, writers writer = job)) {s : System ι} {writer : ι}
    (invariant : s.Invariant blake3 writers) {skip : Nat → Bool} {again : Bool} {st : Staging}
    (staged : (writers writer).StagedBy blake3 st) (produces : (writers writer).Produces blake3 skip again st)
    (agree : again = true → (writers writer).AliasesAgree blake3 skip) {after : Db}
    (merged : mergeStaging (writers writer).request st s.db = some after) :
    (s.commit writer after).Invariant blake3 writers := by
  have consistent := invariant.reachable.consistent
  have finished := @setPhase_invariant _ _ _ _ _ writer .done invariant
    (fun _ _ impossible => by cases impossible) (fun _ _ impossible => by cases impossible)
  have same := merge_uncached produces consistent (invariant.reachable.accounted faithful) ⟨writer,rfl⟩ agree merged
  refine ⟨.store s.db after (writers writer) invariant.reachable ⟨writer,rfl⟩ ⟨st,staged,merged⟩,
    finished.staged,finished.retried,same.trans ?_⟩
  change SameState _ (uncached blake3 writers (s.commits ++ [writer]))
  rw [uncached,List.foldl_append]
  exact invariant.same.mergeTables _ stageAll_produces.covered consistent (uncached_consistent s.commits)

theorem step_invariant (faithful : FingerprintFaithful blake3 (fun job => ∃ writer, writers writer = job))
    (s : System ι) (event : Event ι) (agree : s.RetryAgrees blake3 writers event)
    (invariant : s.Invariant blake3 writers) : (s.step blake3 writers event).Invariant blake3 writers := by
  cases event with
  | stage writer =>
    simp only [System.step]
    split
    · split
      · rename_i st staged
        apply setPhase_invariant invariant
        · intro _ _ same
          cases same
          exact ⟨s.db,staged,rfl⟩
        · intro _ _ impossible
          cases impossible
      · exact invariant
    · exact invariant
  | merge writer =>
    simp only [System.step]
    split
    · rename_i st cached phase
      obtain ⟨db,staged,rfl⟩ := invariant.staged writer st cached phase
      split
      · rename_i after merged
        exact commit_invariant faithful invariant (.fresh db st staged) (stage_produces staged)
          (fun impossible => by contradiction) merged
      · apply setPhase_invariant invariant
        · intro _ _ impossible
          cases impossible
        · intro _ _ same
          cases same
          exact ⟨db,st,staged,rfl,rfl⟩
    · rename_i st cached phase
      obtain ⟨db,first,staged,rfl,rfl⟩ := invariant.retried writer st cached phase
      split
      · rename_i after merged
        exact commit_invariant faithful invariant (.retried db first staged)
          (restage_produces (stage_produces staged)) (fun _ => agree writer _ _ rfl phase) merged
      · exact setPhase_invariant invariant (fun _ _ impossible => by cases impossible)
          (fun _ _ impossible => by cases impossible)
    · exact invariant

theorem run_append (events : List (Event ι)) (event : Event ι) :
    System.run blake3 writers (events ++ [event]) = (System.run blake3 writers events).step blake3 writers event := by
  rw [System.run,List.foldl_append]
  rfl

theorem run_invariant (faithful : FingerprintFaithful blake3 (fun job => ∃ writer, writers writer = job))
    (events : List (Event ι))
    (agree : ∀ before event, before ++ [event] <+: events →
      (System.run blake3 writers before).RetryAgrees blake3 writers event) :
    (System.run blake3 writers events).Invariant blake3 writers := by
  induction events using List.reverseRecOn with
  | nil => exact initial_invariant
  | append_singleton events event ih =>
    have before := ih (fun earlier next inside => agree earlier next (inside.trans (List.prefix_append _ _)))
    rw [run_append]
    exact step_invariant faithful _ event (agree events event List.prefix_rfl) before

/-- Caching is transparent: over any interleaving whose retries are of indexes with agreeing aliases,
the database reached holds the rows that the same merges leave when no file is ever marked cached. -/
theorem run_uncached (faithful : FingerprintFaithful blake3 (fun job => ∃ writer, writers writer = job))
    (events : List (Event ι))
    (agree : ∀ before event, before ++ [event] <+: events →
      (System.run blake3 writers before).RetryAgrees blake3 writers event) :
    SameTables (System.run blake3 writers events).db
      (uncached blake3 writers (System.run blake3 writers events).commits) := by
  have invariant := run_invariant faithful events agree
  exact invariant.same.tables invariant.reachable.consistent (uncached_consistent _)

theorem aliasesAgree_of_values {blake3 : List UInt8 → Fingerprint} {job : Job}
    (records : ∀ a ∈ job.passing, ∀ b ∈ job.passing, ∀ x ∈ recordRows (job.paths blake3) a,
      ∀ y ∈ recordRows (job.paths blake3) b, x.1 = y.1 → x.2 = y.2)
    (functionTypes : ∀ a ∈ job.passing, ∀ b ∈ job.passing, ∀ x ∈ functionTypeRows (job.paths blake3) a,
      ∀ y ∈ functionTypeRows (job.paths blake3) b, x.1 = y.1 → x.2 = y.2) (skip : Nat → Bool) :
    job.AliasesAgree blake3 skip :=
  ⟨fun a memberA b memberB _ _ => records a memberA b memberB,
    fun a memberA b memberB _ _ => functionTypes a memberA b memberB⟩

end Run

section Stale

def staleFs : FileSystem := tableFs [
  ("a.c".toList,"/r/a.c".toList,⟨1,1,10,5,false⟩),("j.c".toList,"/r/j.c".toList,⟨1,2,10,5,false⟩),
  ("./h".toList,"/r/h".toList,⟨1,3,10,5,false⟩),("./../r/h".toList,"/r/h".toList,⟨1,3,10,5,false⟩)]

-- writer 1 sees the header under two names, once in `g` and once in `second`;
-- writer 0 stores the first of these contexts, writer 2 the header as a main file
def staleWriters (second : String) : Fin 3 → Job
  | 0 => sampleJob staleFs "j.c"
      ⟨["./h".toList],[],[sampleUse "foo" "g" 0 1],[],by decide,by decide,by decide⟩
  | 1 => sampleJob staleFs "a.c"
      ⟨["./../r/h".toList,"./h".toList],[],[sampleUse "foo" "g" 1 1,sampleUse "foo" second 0 1],[],
        by decide,by simp [sampleUse],by decide⟩
  | 2 => sampleJob staleFs "./h" ⟨[],[],[],[],by decide,by decide,by decide⟩

def staleEvents : List (Event (Fin 3)) :=
  [.stage 0,.merge 0,.stage 1,.stage 2,.merge 2,.merge 1,.merge 1]

theorem staleWriters_faithful (second : String) (known : second = "f" ∨ second = "g") :
    FingerprintFaithful foldHash (fun job => ∃ writer, staleWriters second writer = job) := by
  have checked : FingerprintFaithful foldHash (· ∈ (List.finRange 3).map (staleWriters second)) := by
    rcases known with rfl | rfl <;> exact faithful_of_check foldHash _ (by decide +kernel)
  apply checked.mono
  intro job present
  obtain ⟨writer,rfl⟩ := present
  exact List.mem_map.mpr ⟨writer,List.mem_finRange writer,rfl⟩

theorem run_uncached_stale :
    SameTables (System.run foldHash (staleWriters "g") staleEvents).db
      (uncached foldHash (staleWriters "g") (System.run foldHash (staleWriters "g") staleEvents).commits) := by
  have records : ∀ writer : Fin 3, ∀ a ∈ (staleWriters "g" writer).passing,
      ∀ b ∈ (staleWriters "g" writer).passing,
      ∀ x ∈ recordRows ((staleWriters "g" writer).paths foldHash) a,
      ∀ y ∈ recordRows ((staleWriters "g" writer).paths foldHash) b, x.1 = y.1 → x.2 = y.2 := by decide +kernel
  have functionTypes : ∀ writer : Fin 3, ∀ a ∈ (staleWriters "g" writer).passing,
      ∀ b ∈ (staleWriters "g" writer).passing,
      ∀ x ∈ functionTypeRows ((staleWriters "g" writer).paths foldHash) a,
      ∀ y ∈ functionTypeRows ((staleWriters "g" writer).paths foldHash) b, x.1 = y.1 → x.2 = y.2 := by
    decide +kernel
  apply run_uncached (staleWriters_faithful "g" (.inr rfl))
  intro before event _ writer st cached _ _
  exact aliasesAgree_of_values (records writer) (functionTypes writer) _

-- the retry stages the skipped rows behind the colliding rows that the first staging left
theorem retry_keeps_first_staging :
    FingerprintFaithful foldHash (fun job => ∃ writer, staleWriters "f" writer = job) ∧
    ¬ SameTables (System.run foldHash (staleWriters "f") staleEvents).db
      (uncached foldHash (staleWriters "f") (System.run foldHash (staleWriters "f") staleEvents).commits) := by
  refine ⟨staleWriters_faithful "f" (.inl rfl),?_⟩
  intro same
  have row := same.records (2,(useRecord ⟨none,[]⟩ (sampleUse "foo" "g" 0 1)).1.2)
  revert row
  decide +kernel

end Stale
end Semindex.IndexDb
