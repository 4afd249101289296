import Semindex.Relational.Transaction
import Semindex.IndexDb.Lookups

/-! `index_db_store` with its failures. The functions of the writer are programs
over one connection to the database file, each statement, lookup and allocation
a step that may fail; they compute the staging and the merge of the other
modules, and publish at most the schema and the merge. -/
namespace Semindex.IndexDb
open Semindex.Relational

structure Schema where
  objects : List String
  version : Nat

/-- The database file. A table that does not exist has no rows in `db`. -/
structure Shared where
  schema : Schema
  db : Db

def indexSchemaVersion : Nat := 18

inductive SchemaStatement where
  | create (name : String)
  | userVersion (version : Nat)

def SchemaStatement.apply : SchemaStatement → Schema → Schema
  | .create name, schema => {schema with objects := schema.objects ++ [name]}
  | .userVersion version, schema => {schema with version}

def schemaStatements : List SchemaStatement :=
  [.create "files",.create "records",.create "records_file_idx",.create "symbol_types",
    .create "symbol_types_file_idx",.create "function_types",.create "function_types_file_idx",
    .create "symbol_properties",.create "symbol_properties_file_idx",.create "records_call_context_idx",
    .create "variants",.create "file_fingerprints",.userVersion indexSchemaVersion]

def Schema.complete : Schema := schemaStatements.foldl (fun schema statement => statement.apply schema) ⟨[],0⟩

def onSchema (f : Schema → Schema) (s : Shared) : Shared := {s with schema := f s.schema}
def onDb (f : Db → Db) (s : Shared) : Shared := {s with db := f s.db}

section Programs
variable (env : Environment Shared)

def createSchema : Op Shared Unit := do
  let version ← read env (fun s => s.schema.version)
  if version = indexSchemaVersion then pure ()
  else if version ≠ 0 then Op.fail
  else do
    let hasTables ← read env (fun s => !s.schema.objects.isEmpty)
    if hasTables then Op.fail
    else
      (schemaStatements.map (fun statement => onSchema statement.apply)).foldlM (fun _ effect => exec env effect) ()

def initSchema : Op Shared Unit := do
  attempt env
  let version ← read env (fun s => s.schema.version)
  if version = indexSchemaVersion then pure ()
  else do
    beginImmediate env
    Op.onFailure (rollback env) (createSchema env)
    commit env

-- the parent directory, the file, the busy timeout and three pragmas come first
def openWriter : Op Shared Unit := do
  (List.range 6).foldlM (fun _ _ => attempt env) ()
  initSchema env

def createStaging : Op Shared Unit := (List.range 5).foldlM (fun _ _ => attempt env) ()

variable (blake3 : List UInt8 → Fingerprint)

-- a lookup that fails is not an exit here: the paths are those that the job sees
def initStoredPaths (job : Job) : Op Shared Unit := do
  attempt env
  if job.fingerprints blake3 = [] then pure ()
  else do
    attempt env
    (job.fingerprints blake3).foldlM (fun _ _ => attempt env) ()

-- a `stat` that fails is not an exit either
def stageFilesOp (job : Job) : Op Shared (Table Text StagingFile × List Bool) := do
  attempt env
  let files ← (job.fingerprints blake3).zipIdx.foldlM (fun files entry => do
    attempt env
    pure (job.insertFile blake3 files entry)) ∅
  let files ← job.request.mainFile.toList.foldlM (fun files _ => do
    attempt env
    pure (job.insertMain blake3 files)) files
  let count := (job.fingerprints blake3).length
  if job.cacheCandidates blake3 = 0 then pure (files,List.replicate count false)
  else do
    let db ← read env (fun s => s.db)
    let files := markCached db job.request.variant files
    attempt env
    let ordinals ← (cachedOrdinals files).foldlM (fun ordinals ordinal => do
      attempt env
      pure (ordinals ++ [ordinal])) []
    if ordinals.all (· < count) then
      pure (files,(List.range count).map (fun i => ordinals.contains i))
    else Op.fail

def stageRecordsOp (job : Job) (cached : List Bool) (st : Staging) : Op Shared Staging := do
  (List.range 4).foldlM (fun _ _ => attempt env) ()
  let st ← job.request.index.symbols.foldlM (fun st s => do
    attempt env
    pure (stageSymbol (job.paths blake3) job.request.includeLocal cached st s)) st
  let st ← job.request.index.uses.foldlM (fun st u => do
    attempt env
    pure (stageUse (job.paths blake3) job.request.includeLocal cached st u)) st
  job.request.index.functionSignatures.foldlM (fun st g => do
    attempt env
    pure (stageSignature (job.paths blake3) cached st g)) st

/-- `true` where the merge was committed, `false` where the cache hits were stale. -/
def mergeStagingOp (request : StoreRequest) (st : Staging) : Op Shared Bool := do
  attempt env
  beginImmediate env
  let valid ← Op.onFailure (rollback env) (read env (fun s => cachedFilesValid s.db request.variant st))
  if valid then do
    Op.onFailure (rollback env) (do
      ((mergeStatements request.variant st).map onDb).foldlM (fun _ effect => exec env effect) ()
      exec env (onDb (storeVariantMetadata request.variant request.repositoryRoot request.gitCommit)))
    commit env
    pure true
  else do
    Op.recover () (rollback env)
    pure false

def storeStaged (job : Job) : Op Shared Unit := do
  begin env
  let (files,cached) ← Op.onFailure (rollback env) (stageFilesOp env blake3 job)
  let st ← Op.onFailure (rollback env) (stageRecordsOp env blake3 job cached {Staging.empty with files})
  commit env
  let merged ← mergeStagingOp env job.request st
  if merged then pure ()
  else do
    begin env
    Op.onFailure (rollback env) (attempt env)
    let st ← Op.onFailure (rollback env) (stageRecordsOp env blake3 job (job.noneCached blake3)
      {st with files := Table.modify st.files (fun _ row => {row with cached := false})})
    commit env
    let again ← mergeStagingOp env job.request st
    if again then pure () else Op.fail

def storeSteps (job : Job) : Op Shared Unit :=
  if job.request.variant = [] then Op.fail
  else do
    initStoredPaths env blake3 job
    attempt env
    openWriter env
    createStaging env
    storeStaged env blake3 job

/-- The result of the call and the connection after it was closed. -/
def indexDbStore (job : Job) (shared : Shared) : Int × Connection Shared :=
  match storeSteps env blake3 job (.new shared) with
  | (some (),c) => (0,c.close)
  | (none,c) => (-1,c.close)

end Programs

/-- A commit that changes no row: it leaves the schema alone or creates all of it at once. -/
def SchemaCommit (x : Commit Shared) : Prop :=
  x.after.db = x.before.db ∧
    (x.after.schema = x.before.schema ∨ (x.before.schema = ⟨[],0⟩ ∧ x.after.schema = .complete))

/-- A commit of the complete merge of the job's index. -/
def MergeCommit (blake3 : List UInt8 → Fingerprint) (job : Job) (x : Commit Shared) : Prop :=
  x.after.schema = x.before.schema ∧ job.Stores blake3 x.before.db x.after.db

/-- The call returns 0 having published the merge of the index as its files are, or -1 having published no row. -/
def Atomic (blake3 : List UInt8 → Fingerprint) (job : Job) (start : Shared) (result : Int × Connection Shared) :
    Prop :=
  (result.1 = 0 ∧ Once SchemaCommit (MergeCommit blake3 job.found) (.new start) result.2) ∨
    (result.1 = -1 ∧ Since SchemaCommit (.new start) result.2)

section Specs
variable {env : Environment Shared} {blake3 : List UInt8 → Fingerprint} {start : Connection Shared}

private abbrev Quiet (start : Connection Shared) : Connection Shared → Prop := Since SchemaCommit start

private theorem cleaned {α : Type} {pre : Connection Shared → Prop} {ok : α → Connection Shared → Prop}
    {op : Op Shared α} (triple : Triple pre op ok (Quiet start)) :
    Triple pre (Op.onFailure (rollback env) op) ok (Quiet start) :=
  triple_onFailure triple rollback_since

private theorem fold_schema (statements : List SchemaStatement) (s : Shared) :
    (statements.map (fun statement => onSchema statement.apply)).foldl (fun s effect => effect s) s =
      onSchema (fun schema => statements.foldl (fun schema statement => statement.apply schema) schema) s := by
  induction statements generalizing s with
  | nil => rfl
  | cons statement statements ih => exact ih _

private theorem fold_db (statements : List (Db → Db)) (s : Shared) :
    (statements.map onDb).foldl (fun s effect => effect s) s =
      onDb (fun db => statements.foldl (fun db statement => statement db) db) s := by
  induction statements generalizing s with
  | nil => rfl
  | cons statement statements ih => exact ih _

private theorem unchanged_commit (s : Shared) : SchemaCommit ⟨true,s,s⟩ := ⟨rfl,.inl rfl⟩

private theorem working_since {rel : Shared → Shared → Prop} (c : Connection Shared)
    (here : Working SchemaCommit start rel c) : Quiet start c := here.1

theorem createSchema_spec :
    Triple (Working SchemaCommit start (fun s w => w = s)) (createSchema env)
      (fun _ => Working SchemaCommit start (fun s w => SchemaCommit ⟨true,s,w⟩)) (Quiet start) := by
  refine triple_bind (read_working _) (fun version => ?_)
  split
  · apply triple_pure
    intro c here
    obtain ⟨quiet,w,locked,same,_⟩ := here
    exact ⟨quiet,w,locked,same ▸ unchanged_commit w⟩
  · split
    · exact triple_fail working_since
    · rename_i fresh
      refine triple_bind (read_working _) (fun hasTables => ?_)
      split
      · exact triple_fail working_since
      · rename_i empty
        apply triple_weaken (execs_working _ _) (fun c here => here) _ (fun c here => here)
        intro _ c here
        obtain ⟨quiet,w,locked,v,⟨⟨same,versioned⟩,tables⟩,final⟩ := here
        refine ⟨quiet,w,locked,?_⟩
        rw [fold_schema] at final
        subst final same
        have blank : c.shared.schema = ⟨[],0⟩ := by
          cases known : c.shared.schema with
          | mk objects number => simp_all
        refine ⟨rfl,.inr ⟨blank,?_⟩⟩
        simp only [onSchema,blank,Schema.complete]

theorem initSchema_spec : Triple (Quiet start) (initSchema env) (fun _ => Quiet start) (Quiet start) := by
  refine triple_bind attempt_since (fun _ => triple_bind (read_since _) (fun version => ?_))
  split
  · exact triple_pure (fun c here => here)
  · refine triple_bind beginImmediate_since (fun _ => triple_bind (cleaned createSchema_spec) (fun _ => ?_))
    exact commit_allowed (fun s w fits => fits)

private theorem stageMain_spec (job : Job) (files : Table Text StagingFile) :
    Triple (Deferred SchemaCommit start) (job.request.mainFile.toList.foldlM (fun files _ => do
        attempt env
        pure (job.insertMain blake3 files)) files)
      (fun result c => Deferred SchemaCommit start c ∧ result = job.insertMain blake3 files) (Quiet start) := by
  apply triple_weaken (attempts_deferred (fun files _ => job.insertMain blake3 files) _ _) (fun c here => here) _
    (fun c here => here)
  intro result c here
  refine ⟨here.1,here.2.trans ?_⟩
  unfold Job.insertMain Job.paths
  cases job.request.mainFile <;> rfl

private theorem collect_eq (ordinals found : List Nat) :
    ordinals.foldl (fun ordinals ordinal => ordinals ++ [ordinal]) found = found ++ ordinals := by
  induction ordinals generalizing found with
  | nil => simp
  | cons ordinal ordinals ih => simp [ih]

/-- Getting through `stage_files` gives the staged files over the tables of some moment. -/
theorem stageFilesOp_spec (job : Job) :
    Triple (Deferred SchemaCommit start) (stageFilesOp env blake3 job)
      (fun result c => Deferred SchemaCommit start c ∧ ∃ db, stageFiles blake3 job db = some result)
      (Quiet start) := by
  refine triple_bind attempt_deferred (fun _ => triple_bind (attempts_deferred (job.insertFile blake3) _ _)
    (fun listed c here => ?_))
  obtain ⟨here,rfl⟩ := here
  revert c
  refine triple_bind (stageMain_spec job _) (fun files c here => ?_)
  obtain ⟨here,all⟩ := here
  change files = job.stagedFiles blake3 at all
  subst all
  revert c
  unfold stageFiles
  split
  · exact triple_pure (fun c here => ⟨here,.empty,rfl⟩)
  · refine triple_bind (read_deferred _) (fun db c here => ?_)
    obtain ⟨here,_⟩ := here
    revert c
    refine triple_bind attempt_deferred (fun _ => triple_bind (attempts_deferred _ _ _) (fun ordinals c here => ?_))
    obtain ⟨here,collected⟩ := here
    rw [collect_eq,List.nil_append] at collected
    subst collected
    revert c
    split
    · rename_i inside
      refine triple_pure (fun c here => ⟨here,db,?_⟩)
      simp only [inside,if_true]
    · exact triple_fail (fun c here => here.1)

/-- Getting through `stage_records` gives the staged rows. -/
theorem stageRecordsOp_spec (job : Job) (cached : List Bool) (st : Staging) :
    Triple (Deferred SchemaCommit start) (stageRecordsOp env blake3 job cached st)
      (fun result c => Deferred SchemaCommit start c ∧ result = job.stageRecords blake3 cached st)
      (Quiet start) := by
  refine triple_bind (triple_foldlM (List.range 4) () (fun _ _ => attempt_deferred)) (fun _ => ?_)
  refine triple_bind (attempts_deferred _ _ _) (fun symbols c here => ?_)
  obtain ⟨here,rfl⟩ := here
  revert c
  refine triple_bind (attempts_deferred _ _ _) (fun uses c here => ?_)
  obtain ⟨here,rfl⟩ := here
  revert c
  exact attempts_deferred _ _ _

/-- The merge transaction publishes the merged tables, or nothing. -/
theorem mergeStagingOp_spec (request : StoreRequest) (st : Staging) :
    Triple (Quiet start) (mergeStagingOp env request st)
      (fun merged c => if merged then Once SchemaCommit (fun x => x.after.schema = x.before.schema ∧
        mergeStaging request st x.before.db = some x.after.db) start c else Quiet start c) (Quiet start) := by
  refine triple_bind attempt_since (fun _ => triple_bind beginImmediate_since (fun _ =>
    triple_bind (cleaned (read_working _)) (fun valid => ?_)))
  cases valid with
  | false =>
    refine @triple_bind _ _ _ _ _ _ _ (fun _ => Quiet start) _ ?_ (fun _ => triple_pure (fun c here => here))
    exact triple_recover (triple_weaken rollback_since working_since (fun _ _ here => here) (fun _ here => here))
  | true =>
    refine triple_bind (cleaned (triple_bind (execs_working _ _) (fun _ => exec_working _))) (fun _ => ?_)
    refine triple_bind (commit_once ?_) (fun _ => triple_pure (fun c here => here))
    intro s w related
    obtain ⟨u,⟨v,⟨rfl,valid⟩,rfl⟩,rfl⟩ := related
    rw [fold_db]
    exact ⟨rfl,mergeStaging_some.mpr ⟨valid.symm,rfl⟩⟩

private theorem quiet_or_merged {request : StoreRequest} {job : Job} (same : job.request = request) {st : Staging}
    (staged : job.StagedBy blake3 st) {rest : Op Shared Unit}
    (retry : Triple (Quiet start) rest (fun _ => Once SchemaCommit (MergeCommit blake3 job) start) (Quiet start)) :
    Triple (Quiet start) (do
        let merged ← mergeStagingOp env request st
        if merged then pure () else rest)
      (fun _ => Once SchemaCommit (MergeCommit blake3 job) start) (Quiet start) := by
  refine triple_bind (mergeStagingOp_spec request st) (fun merged => ?_)
  cases merged with
  | true =>
    refine triple_pure (fun c here => ?_)
    obtain ⟨first,x,last,history,chain,own,⟨schema,merged⟩,others⟩ := here
    exact ⟨first,x,last,history,chain,own,⟨schema,st,staged,same ▸ merged⟩,others⟩
  | false => exact retry

/-- From the staging transaction on, getting through publishes the merge and failing nothing. -/
theorem storeStaged_spec (job : Job) :
    Triple (Quiet start) (storeStaged env blake3 job)
      (fun _ => Once SchemaCommit (MergeCommit blake3 job) start) (Quiet start) := by
  refine triple_bind begin_since (fun _ => triple_bind (cleaned (stageFilesOp_spec job)) (fun result c here => ?_))
  obtain ⟨here,db,files⟩ := here
  revert c
  refine triple_bind (cleaned (stageRecordsOp_spec job _ _)) (fun st c here => ?_)
  obtain ⟨here,rows⟩ := here
  have staged : job.stage blake3 db = some st := by
    rw [Job.stage,files,rows]
    rfl
  revert c
  refine triple_bind commit_deferred (fun _ => quiet_or_merged rfl (.fresh db st staged) ?_)
  refine triple_bind begin_since (fun _ => triple_bind (cleaned attempt_deferred) (fun _ => ?_))
  refine triple_bind (cleaned (stageRecordsOp_spec job _ _)) (fun again c here => ?_)
  obtain ⟨here,rows⟩ := here
  subst rows
  revert c
  refine triple_bind commit_deferred (fun _ => quiet_or_merged rfl (.retried db st staged) ?_)
  exact triple_fail (fun c here => here)

theorem initStoredPaths_spec (job : Job) :
    Triple (Quiet start) (initStoredPaths env blake3 job) (fun _ => Quiet start) (Quiet start) := by
  refine triple_bind attempt_since (fun _ => ?_)
  split
  · exact triple_pure (fun c here => here)
  · exact triple_bind attempt_since (fun _ => attempts_since _)

theorem storeSteps_spec (job : Job) :
    Triple (Quiet start) (storeSteps env blake3 job) (fun _ => Once SchemaCommit (MergeCommit blake3 job) start)
      (Quiet start) := by
  unfold storeSteps
  split
  · exact triple_fail (fun c here => here)
  · refine triple_bind (initStoredPaths_spec job) (fun _ => triple_bind attempt_since (fun _ => ?_))
    refine triple_bind (triple_bind (attempts_since _) (fun _ => initSchema_spec)) (fun _ => ?_)
    exact triple_bind (attempts_since _) (fun _ => storeStaged_spec job)

end Specs

section Atomic
variable (env : Environment Shared) (blake3 : List UInt8 → Fingerprint) (job : Job) (shared : Shared)

/-- Whatever fails, the call publishes the merge of the index under the paths that the job sees, or no row. -/
theorem store_publishes :
    ((indexDbStore env blake3 job shared).1 = 0 ∧
      Once SchemaCommit (MergeCommit blake3 job) (.new shared) (indexDbStore env blake3 job shared).2) ∨
    ((indexDbStore env blake3 job shared).1 = -1 ∧
      Since SchemaCommit (.new shared) (indexDbStore env blake3 job shared).2) := by
  obtain ⟨ends,fails⟩ := @storeSteps_spec env blake3 (.new shared) job _ (since_refl _)
  unfold indexDbStore
  cases result : storeSteps env blake3 job (.new shared) with
  | mk outcome c =>
    cases outcome with
    | some u => exact .inl ⟨rfl,ends u c result⟩
    | none => exact .inr ⟨rfl,fails c result⟩

/-- The call is atomic in every run in which no lookup fails that would have found something. -/
theorem store_atomic (heard : ∀ lookup, job.lost lookup = true → job.answered blake3 lookup = false) :
    Atomic blake3 job shared (indexDbStore env blake3 job shared) := by
  rcases store_publishes env blake3 job shared with ⟨zero,once⟩ | failed
  · obtain ⟨first,x,last,history,chain,own,⟨schema,stored⟩,others⟩ := once
    exact .inl ⟨zero,first,x,last,history,chain,own,⟨schema,alike_stores (found_alike heard) stored⟩,others⟩
  · exact .inr failed

/-- A call that starts from some database file stores the job. -/
def Storable : Prop := ∃ (env : Environment Shared) (shared : Shared), (indexDbStore env blake3 job shared).1 = 0

variable {blake3 job}

theorem storable_named (storable : Storable blake3 job) : job.request.variant ≠ [] := by
  obtain ⟨env,shared,zero⟩ := storable
  intro unnamed
  have failed : storeSteps env blake3 job (.new shared) = (none,.new shared) := by
    rw [storeSteps,if_pos unnamed]
    rfl
  unfold indexDbStore at zero
  rw [failed] at zero
  cases zero

end Atomic

section Runs

-- no other writer, and one step that fails
def failingAt (n : Nat) : Environment Shared := ⟨fun step => if step = n then .error else .fine,fun _ => []⟩

-- nothing fails, and nobody else writes
def undisturbed : Environment Shared := ⟨fun _ => .fine,fun _ => []⟩

def emptyFile : Shared := ⟨⟨[],0⟩,.empty⟩

theorem store_atomic_failing : Atomic foldHash (headerJob "a.c" 10 ["f"]) emptyFile
    (indexDbStore (failingAt 40) foldHash (headerJob "a.c" 10 ["f"]) emptyFile) :=
  store_atomic _ _ _ _ (by simp [headerJob,sampleJob])

private theorem not_atomic_of_unstored {blake3 : List UInt8 → Fingerprint} {job : Job} {start : Shared}
    {result : Int × Connection Shared} {f : Text × Text} (success : result.1 = 0)
    (elsewhere : ∀ x ∈ result.2.history,
      (x.after.db.content f).stat ≠ (job.found.row blake3 f).map StagingFile.stat)
    (staged : (job.found.row blake3 f).isSome = true) : ¬ Atomic blake3 job start result := by
  intro atomic
  rcases atomic with ⟨_,first,x,last,history,_,_,⟨_,stored⟩,_⟩ | ⟨failed,_⟩
  · obtain ⟨row,entry⟩ := Option.isSome_iff_exists.mp staged
    have unlike := elsewhere x (by rw [history]; simp)
    rw [entry] at unlike
    exact unlike (stores_stat stored entry)
  · rw [success] at failed
    contradiction

-- the call that no statement fails and that loses one lookup
def losing (lookup : Lookup) : Job := {headerJob "a.c" 10 ["f"] with lost := fun other => decide (other = lookup)}

/-- Without the root or the resolved path the index is stored under another path, without the `stat` with another
time, and the call reports success. -/
theorem lost_lookup_not_atomic :
    ¬ Atomic foldHash (losing .root) emptyFile (indexDbStore undisturbed foldHash (losing .root) emptyFile) ∧
    ¬ Atomic foldHash (losing (.path (some 0))) emptyFile
      (indexDbStore undisturbed foldHash (losing (.path (some 0))) emptyFile) ∧
    ¬ Atomic foldHash (losing (.stat (some 0))) emptyFile
      (indexDbStore undisturbed foldHash (losing (.stat (some 0))) emptyFile) := by
  refine ⟨?_,?_,?_⟩
  · exact not_atomic_of_unstored (f := headerFile) (by decide +kernel) (by decide +kernel) (by decide +kernel)
  · exact not_atomic_of_unstored (f := headerFile) (by decide +kernel) (by decide +kernel) (by decide +kernel)
  · exact not_atomic_of_unstored (f := headerFile) (by decide +kernel) (by decide +kernel) (by decide +kernel)

end Runs
end Semindex.IndexDb
