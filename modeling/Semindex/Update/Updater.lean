import Semindex.Update.Runs

/-! `SemindexCommandResolver` and `SemindexIndexUpdater`: which command a file is
indexed with, and what an update stores or hands back. The database of commands is
looked up where the updater stands. -/
namespace Semindex.Update
open Semindex.Support Semindex.Relational Semindex.IndexDb Semindex.CommandDb Semindex.Tools
open Semindex.Lsp.Diagnostics (Diagnostic IndexUpdateResult copyDiagnostics)

inductive CommandSource where
  | saved | compilationDatabase | document
  deriving DecidableEq

structure ResolvedCommand where
  source : CommandSource
  command : Option Command
  compileCommands : Option CString
  directory : CString
  available : Bool

structure CommandResolver where
  compileCommands : CString
  repositoryRoot : CString
  allowDocument : Bool

def failedToLoad (file : CString) : List Byte :=
  word "failed to load compiler command for '" ++ file.bytes ++ word "'"

def noCommand (file variant : CString) : List Byte :=
  word "no compiler command for '" ++ file.bytes ++ word "' in variant '" ++ variant.bytes ++ word "'"

section Resolve
variable (out : Surroundings) (resolver : CommandResolver)

-- `unreadable` is an error of `std::filesystem::exists`, other than that there is no file
def loadSaved (unreadable : Bool) (commands : Option CommandFile) (file variant : CString) : Loaded :=
  if unreadable then .failed
  else if commands.isNone then .absent
  else commandDbLoad out.disk out.cwd commands variant file

def commandAvailable (unreadable : Bool) (commands : Option CommandFile) (file variant : CString) : Int :=
  match loadSaved out unreadable commands file variant with
  | .found _ => 0
  | .absent => 1
  | .failed | .outside => -1

-- `path::parent_path`
def parentDirectory (file : CString) : CString :=
  ⟨parentPath file.bytes,fun inside => file.ends (parentPath_subset inside)⟩

def documentCommand (file : CString) : Command :=
  ⟨parentDirectory file,file,[CString.ofText "cc".toList,CString.ofText "--no-default-config".toList,file]⟩

/-- The command for the file, or the error that there is none. -/
def resolve (unreadable : Bool) (commands : Option CommandFile) (file variant : CString) :
    Except (List Byte) ResolvedCommand :=
  match loadSaved out unreadable commands file variant with
  | .failed | .outside => .error (failedToLoad file)
  | .found command => .ok ⟨.saved,some command,none,command.directory,true⟩
  | .absent =>
    if resolver.compileCommands ≠ .empty then
      .ok ⟨.compilationDatabase,none,some resolver.compileCommands,resolver.repositoryRoot,false⟩
    else if resolver.allowDocument then
      .ok ⟨.document,some (documentCommand file),none,parentDirectory file,false⟩
    else .error (noCommand file variant)

end Resolve

inductive UpdateStatus where
  | clean | incomplete | failed
  deriving DecidableEq

structure UpdateResult where
  status : UpdateStatus
  diagnostics : List Diagnostic
  error : List Byte
  directory : CString
  transientIndex : Option SemindexIndex
  commandAvailable : Bool
  diagnosticsTruncated : Bool

structure UpdateRequest where
  file : CString
  variant : CString
  diagnosticLimit : Nat
  storePartial : Bool
  stopped : Bool

/-- The updater; its resolver has the same root. -/
structure Updater where
  repositoryRoot : CString
  compileCommands : CString
  allowDocument : Bool
  includeLocal : Bool

def Updater.resolver (updater : Updater) : CommandResolver :=
  ⟨updater.compileCommands,updater.repositoryRoot,updater.allowDocument⟩

def failedUpdate (error : List Byte) : UpdateResult := ⟨.failed,[],error,.empty,none,false,false⟩

section Update
variable (out : Surroundings) (updater : Updater) (request : UpdateRequest)

def Updater.pipelineRequest (resolved : ResolvedCommand) : PipelineRequest where
  input := if resolved.source = .compilationDatabase then .compileCommands else .command
  storage := match resolved.source with
    | .saved => .storeSymbols
    | .compilationDatabase => .storeSymbolsAndCommand
    | .document => .outputOnly
  partials := if request.storePartial then .storePartial else .returnPartial
  command := resolved.command
  compileCommands := resolved.compileCommands
  sourceFile := if resolved.source = .saved then resolved.command.elim request.file Command.file else request.file
  variant := request.variant
  repositoryRoot := if updater.repositoryRoot = .empty then none else some updater.repositoryRoot
  gitCommit := none
  gitCommitMode := .disabled
  scope := .project
  includeLocal := updater.includeLocal
  details := true

def stageError (file : CString) : PipelineStage → List Byte
  | .create => word "failed to create indexer"
  | .fingerprint => word "failed to fingerprint '" ++ file.bytes ++ word "'"
  | .symbolDatabase => word "failed to store index for '" ++ file.bytes ++ word "'"
  | _ => word "failed to index '" ++ file.bytes ++ word "'"

def notStored (file : CString) : List Byte := word "index for '" ++ file.bytes ++ word "' was not stored"

-- `copyDiagnostics` of an index that may be missing
def indexDiagnostics (directory : CString) (index : Option SemindexIndex) : IndexUpdateResult :=
  copyDiagnostics directory.bytes request.diagnosticLimit (index.elim [] SemindexIndex.diagnostics) ⟨[],false⟩

def isPartial (result : PipelineResult) : Bool :=
  result.frontendRet ≠ 0 || result.index.any (fun s => s.result.status = .incomplete)

def updateResult (resolved : ResolvedCommand) (storage : PipelineStorage) (run : PipelineRun) : UpdateResult :=
  if run.ret < 0 then
    let copies := indexDiagnostics request resolved.directory run.result.index
    ⟨.failed,copies.diagnostics,stageError request.file run.result.failedStage,resolved.directory,none,
      resolved.available,copies.diagnosticsTruncated⟩
  else
    let directory := run.result.command.elim resolved.directory Command.directory
    let copies := indexDiagnostics request directory run.result.index
    let ended (status : UpdateStatus) (error : List Byte) (transientIndex : Option SemindexIndex) : UpdateResult :=
      ⟨status,copies.diagnostics,error,directory,transientIndex,run.result.command.isSome || resolved.available,
        copies.diagnosticsTruncated⟩
    if resolved.source = .document then
      ended (if isPartial run.result then .incomplete else .clean) [] run.result.index
    else if isPartial run.result then
      ended .incomplete [] (if request.storePartial then none else run.result.index)
    else if run.result.persisted ≠ storage then ended .failed (notStored request.file) none
    else ended .clean [] none

structure Updated where
  result : UpdateResult
  symbols : Connection Shared
  commands : Option CommandFile

/-- What the resolver finds, and the update with it. -/
def Updater.updateWith (env : Environment Shared) (blake3 : List UInt8 → Fingerprint) (shared : Shared)
    (commands : Option CommandFile) : Except (List Byte) ResolvedCommand → Updated
  | .error error => ⟨failedUpdate error,.new shared,commands⟩
  | .ok resolved =>
    let call := updater.pipelineRequest request resolved
    let run := indexPipelineRun out call env blake3 shared commands
    ⟨updateResult request resolved call.storage run,run.symbols,run.commands⟩

/-- An update; `looked` is the command database when it resolves the command, `commands` when it stores one. -/
def Updater.update (env : Environment Shared) (blake3 : List UInt8 → Fingerprint) (unreadable : Bool)
    (looked : Option CommandFile) (shared : Shared) (commands : Option CommandFile) : Updated :=
  if request.stopped then ⟨failedUpdate (word "index update cancelled"),.new shared,commands⟩
  else updater.updateWith out request env blake3 shared commands
    (resolve out updater.resolver unreadable looked request.file request.variant)

end Update

/-- The symbol database has the index of this run of the pipeline, once and whole. -/
def Published (out : Surroundings) (call : PipelineRequest) (blake3 : List UInt8 → Fingerprint) (shared : Shared)
    (symbols : Connection Shared) : Prop :=
  ∃ root, explicitRoot out call = some root ∧ Once SchemaCommit
    (MergeCommit blake3 (pipelineJob out call (frontendRun out call).2 root)) (.new shared) symbols

/-- What is there after a run that failed at this stage. -/
def LeftAt (out : Surroundings) (call : PipelineRequest) (blake3 : List UInt8 → Fingerprint) (shared : Shared)
    (commands : Option CommandFile) (symbols : Connection Shared) (after : Option CommandFile) : PipelineStage → Prop
  | .commandDatabase => Published out call blake3 shared symbols ∧
      (rows after = rows commands ∨ rows commands = none ∧ rows after = some ∅)
  | _ => Since SchemaCommit (.new shared) symbols ∧ after = commands

/-- The index has errors, or is not complete. -/
def Imperfect (out : Surroundings) (call : PipelineRequest) : Prop :=
  (frontendRun out call).1 ≠ 0 ∨ (frontendRun out call).2.result.status = .incomplete

/-- What an update hands back, it has not stored, and what it stores is whole. -/
structure Settled (out : Surroundings) (updater : Updater) (request : UpdateRequest) (env : Environment Shared)
    (blake3 : List UInt8 → Fingerprint) (shared : Shared) (commands : Option CommandFile)
    (resolved : Except (List Byte) ResolvedCommand) (updated : Updated) : Prop where
  failed : updated.result.status = .failed ↔ updated.result.error ≠ []
  succeeded : updated.result.status ≠ .failed ↔ ∃ known, resolved = .ok known ∧
    EndsAt out (updater.pipelineRequest request known) env blake3 shared commands .none
  left : updated.result.status = .failed →
    (resolved = .error updated.result.error ∧ Since SchemaCommit (.new shared) updated.symbols ∧
      updated.commands = commands) ∨
    ∃ known stage, resolved = .ok known ∧ stage ≠ .none ∧
      EndsAt out (updater.pipelineRequest request known) env blake3 shared commands stage ∧
      updated.result.error = stageError request.file stage ∧
      LeftAt out (updater.pipelineRequest request known) blake3 shared commands updated.symbols updated.commands stage
  incomplete : updated.result.status = .incomplete ↔ updated.result.status ≠ .failed ∧ ∃ known, resolved = .ok known ∧
    Imperfect out (updater.pipelineRequest request known)
  handed : ∀ s, updated.result.transientIndex = some s → updated.result.status ≠ .failed ∧
    Since SchemaCommit (.new shared) updated.symbols ∧ updated.commands = commands ∧ ∃ known, resolved = .ok known ∧
      (frontendRun out (updater.pipelineRequest request known)).2 = s ∧ s.result.status ≠ .failed ∧
      (known.source = .document ∨ request.storePartial = false ∧ updated.result.status = .incomplete)
  kept : updated.result.status ≠ .failed → updated.result.transientIndex = none → ∃ known, resolved = .ok known ∧
    known.source ≠ .document ∧ Published out (updater.pipelineRequest request known) blake3 shared updated.symbols ∧
    (known.source = .saved → updated.commands = commands) ∧
    (known.source = .compilationDatabase → ∃ command stored,
      (frontendRun out (updater.pipelineRequest request known)).2.command = some command ∧
      commandDbStore out.disk (commandCall out (updater.pipelineRequest request known) command) commands = some stored ∧
      updated.commands = some stored)

section Settled
variable {out : Surroundings} {updater : Updater} {request : UpdateRequest} {env : Environment Shared}
  {blake3 : List UInt8 → Fingerprint} {shared : Shared} {commands : Option CommandFile}

theorem append_named {text : String} (named : word text ≠ []) (first second : List Byte) :
    word text ++ first ++ second ≠ [] :=
  List.append_ne_nil_of_left_ne_nil (List.append_ne_nil_of_left_ne_nil named _) _

theorem resolve_named {resolver : CommandResolver} {unreadable : Bool} {file variant : CString} {error : List Byte}
    (failed : resolve out resolver unreadable commands file variant = .error error) : error ≠ [] := by
  have load : failedToLoad file ≠ [] := append_named (by decide) _ _
  have none : noCommand file variant ≠ [] :=
    List.append_ne_nil_of_left_ne_nil (List.append_ne_nil_of_left_ne_nil (append_named (by decide) _ _) _) _
  unfold resolve at failed
  split at failed
  · cases failed
    exact load
  · cases failed
    exact load
  · cases failed
  · split_ifs at failed
    cases failed
    exact none

theorem settled_error {error : List Byte} (named : error ≠ []) :
    Settled out updater request env blake3 shared commands (.error error) ⟨failedUpdate error,.new shared,commands⟩ where
  failed := by simp [failedUpdate,named]
  succeeded := by simp [failedUpdate]
  left := fun _ => .inl ⟨rfl,since_refl _,rfl⟩
  incomplete := by simp [failedUpdate]
  handed := by
    intro s handed
    cases handed
  kept := by
    intro status
    exact absurd rfl status

theorem stageError_named (file : CString) (stage : PipelineStage) : stageError file stage ≠ [] := by
  cases stage with
  | create =>
    change word "failed to create indexer" ≠ []
    decide
  | fingerprint => exact append_named (by decide) _ _
  | symbolDatabase => exact append_named (by decide) _ _
  | _ => exact append_named (by decide) _ _

theorem partials_returned {call : PipelineRequest} {run : PipelineRun} {s : SemindexIndex}
    (index : run.result.index = some s) (returned : returnsPartial call run.result.frontendRet s = true) :
    call.partials = .returnPartial ∧ isPartial run.result = true := by
  unfold returnsPartial at returned
  unfold isPartial
  rw [index]
  simpa using returned

/-- Without an index to hand back, the symbols are stored, and with them the command where it is new. -/
theorem stored_run (resolved : ResolvedCommand) {run : PipelineRun} (source : resolved.source ≠ .document)
    (outcome : Outcome out (updater.pipelineRequest request resolved) env blake3 shared commands run)
    (persisted : run.result.persisted = (updater.pipelineRequest request resolved).storage) :
    Published out (updater.pipelineRequest request resolved) blake3 shared run.symbols ∧
    (resolved.source = .saved → run.commands = commands) ∧
    (resolved.source = .compilationDatabase → ∃ command stored,
      run.result.command = some command ∧
      commandDbStore out.disk (commandCall out (updater.pipelineRequest request resolved) command) commands = some stored ∧
      run.commands = some stored) := by
  have some_stored : run.result.persisted ≠ .outputOnly := by
    rw [persisted]
    unfold Updater.pipelineRequest
    cases known : resolved.source <;> simp_all
  obtain ⟨_,_,_,root,named,once⟩ := outcome.published some_stored
  refine ⟨⟨root,named,once⟩,fun saved => ?_,fun database => ?_⟩
  · apply outcome.aside
    simp [Updater.pipelineRequest,saved]
  · apply outcome.commanded
    rw [persisted]
    simp [Updater.pipelineRequest,database]

/-- What a run that failed has left is what its stage says. -/
theorem left_run {call : PipelineRequest} {run : PipelineRun}
    (outcome : Outcome out call env blake3 shared commands run) (failed : run.result.failedStage ≠ .none) :
    LeftAt out call blake3 shared commands run.symbols run.commands run.result.failedStage := by
  have ends := (outcome.ended run.result.failedStage).mp rfl
  have unstored (other : run.result.failedStage ≠ .commandDatabase) :
      Since SchemaCommit (.new shared) run.symbols ∧ run.commands = commands := by
    apply outcome.unpublished
    by_contra stored
    obtain ⟨indexes,stores,symbols,root,named,_⟩ := outcome.published stored
    revert ends
    cases stage : run.result.failedStage <;> simp_all [EndsAt,Indexes]
  cases stage : run.result.failedStage with
  | none => exact absurd stage failed
  | commandDatabase =>
    have halfway := outcome.halfway stage
    obtain ⟨_,_,_,root,named,once⟩ := outcome.published (by simp [halfway])
    exact ⟨⟨root,named,once⟩,outcome.uncommanded halfway⟩
  | create => exact unstored (by simp [stage])
  | repositoryRoot => exact unstored (by simp [stage])
  | frontend => exact unstored (by simp [stage])
  | fingerprint => exact unstored (by simp [stage])
  | symbolDatabase => exact unstored (by simp [stage])

theorem settled_failed (resolved : ResolvedCommand) {run : PipelineRun}
    (outcome : Outcome out (updater.pipelineRequest request resolved) env blake3 shared commands run)
    (failure : run.ret = -1) (stage : run.result.failedStage ≠ .none) :
    Settled out updater request env blake3 shared commands (.ok resolved)
      ⟨updateResult request resolved (updater.pipelineRequest request resolved).storage run,run.symbols,run.commands⟩ := by
  have status : (updateResult request resolved (updater.pipelineRequest request resolved).storage run).status = .failed := by
    rw [updateResult,if_pos (by omega)]
  have error : (updateResult request resolved (updater.pipelineRequest request resolved).storage run).error =
      stageError request.file run.result.failedStage := by
    rw [updateResult,if_pos (by omega)]
  have index : (updateResult request resolved (updater.pipelineRequest request resolved).storage run).transientIndex =
      none := by
    rw [updateResult,if_pos (by omega)]
  exact {
    failed := by simp [status,error,stageError_named]
    succeeded := by
      have unended : ¬EndsAt out (updater.pipelineRequest request resolved) env blake3 shared commands .none :=
        fun ends => stage ((outcome.ended .none).mpr ends)
      simp [status,unended]
    left := fun _ => .inr ⟨resolved,_,rfl,stage,(outcome.ended _).mp rfl,error,left_run outcome stage⟩
    incomplete := by simp [status]
    handed := by
      intro s handed
      cases index.symm.trans handed
    kept := fun unfailed => absurd status unfailed }

theorem isPartial_iff {call : PipelineRequest} {run : PipelineRun}
    (outcome : Outcome out call env blake3 shared commands run) (success : run.ret = 0) :
    isPartial run.result = true ↔ Imperfect out call := by
  obtain ⟨s,index,_⟩ := outcome.indexed success
  have made := outcome.made s index
  rw [Imperfect,← made,isPartial,index]
  simp

/-- A run that succeeds and reports no error is settled by what it hands back and what it has stored. -/
theorem settled_ended (resolved : ResolvedCommand) {run : PipelineRun}
    (outcome : Outcome out (updater.pipelineRequest request resolved) env blake3 shared commands run)
    (success : run.ret = 0) {result : UpdateResult}
    (status : result.status = if isPartial run.result = true then .incomplete else .clean) (error : result.error = [])
    (handed : ∀ s, result.transientIndex = some s → run.result.index = some s ∧ run.result.persisted = .outputOnly ∧
      (resolved.source = .document ∨ request.storePartial = false ∧ result.status = .incomplete))
    (kept : result.transientIndex = none → run.result.persisted = (updater.pipelineRequest request resolved).storage ∧
      resolved.source ≠ .document) :
    Settled out updater request env blake3 shared commands (.ok resolved) ⟨result,run.symbols,run.commands⟩ := by
  have ends := outcome.succeeds.mp success
  have unfailed : result.status ≠ .failed := by
    rw [status]
    split <;> simp
  obtain ⟨s,index,whole,command⟩ := outcome.indexed success
  have made := congrArg Prod.snd (outcome.made s index)
  change s = _ at made
  exact {
    failed := by simp [unfailed,error]
    succeeded := by simp [unfailed,ends]
    left := fun failed => absurd failed unfailed
    incomplete := by
      have marked : result.status = .incomplete ↔ isPartial run.result = true := by
        rw [status]
        split <;> simp_all
      change result.status = .incomplete ↔ _
      rw [marked,isPartial_iff outcome success]
      simp [unfailed]
    handed := by
      intro other given
      obtain ⟨again,none_stored,why⟩ := handed other given
      cases index.symm.trans again
      obtain ⟨since,unchanged⟩ := outcome.unpublished none_stored
      exact ⟨unfailed,since,unchanged,resolved,rfl,made.symm,whole,why⟩
    kept := by
      intro _ absent
      obtain ⟨persisted,source⟩ := kept absent
      obtain ⟨published,saved,database⟩ := stored_run resolved source outcome persisted
      refine ⟨resolved,rfl,source,published,saved,fun is_database => ?_⟩
      obtain ⟨own,stored,known,rest⟩ := database is_database
      refine ⟨own,stored,?_,rest⟩
      rw [← made,← known,command]
      simp [resultCommand,Updater.pipelineRequest,is_database] }

theorem settled_run (resolved : ResolvedCommand) {run : PipelineRun}
    (outcome : Outcome out (updater.pipelineRequest request resolved) env blake3 shared commands run) :
    Settled out updater request env blake3 shared commands (.ok resolved)
      ⟨updateResult request resolved (updater.pipelineRequest request resolved).storage run,run.symbols,run.commands⟩ := by
  rcases outcome.returned with ⟨success,_⟩ | ⟨failure,stage⟩
  · obtain ⟨s,index,_⟩ := outcome.indexed success
    have stores := outcome_kept outcome success
    unfold updateResult
    rw [if_neg (by omega)]
    dsimp only
    by_cases source : resolved.source = .document
    · rw [if_pos source]
      have none_stored : run.result.persisted = .outputOnly := by
        rcases stores with whole | ⟨none,_⟩
        · rw [whole]
          simp [Updater.pipelineRequest,source]
        · exact none
      exact settled_ended resolved outcome success rfl rfl (fun other given => ⟨given,none_stored,.inl source⟩)
        (fun absent => by cases index.symm.trans absent)
    · rw [if_neg source]
      by_cases incomplete : isPartial run.result = true
      · rw [if_pos incomplete]
        refine settled_ended resolved outcome success (if_pos incomplete).symm rfl (fun other given => ?_) (fun absent => ?_)
        · split at given
          · cases given
          · rename_i returns
            have none_stored : run.result.persisted = .outputOnly := by
              by_contra stored
              obtain ⟨_,stays,_⟩ := outcome.published stored
              have policy : (updater.pipelineRequest request resolved).partials = .returnPartial := if_neg returns
              have partly := (isPartial_iff outcome success).mp incomplete
              simp [handsBack,returnsPartial,policy] at stays
              rcases partly with failed | unfinished
              · exact failed stays.1.1
              · exact stays.1.2 unfinished
            exact ⟨given,none_stored,.inr ⟨by simpa using returns,rfl⟩⟩
        · split at absent
          · rename_i stored
            refine ⟨?_,source⟩
            rcases stores with whole | ⟨_,other,index',returned⟩
            · exact whole
            · have policy : (updater.pipelineRequest request resolved).partials = .storePartial := if_pos stored
              have away := (partials_returned index' returned).1
              rw [policy] at away
              cases away
          · cases index.symm.trans absent
      · rw [if_neg incomplete]
        have persisted : run.result.persisted = (updater.pipelineRequest request resolved).storage := by
          rcases stores with whole | ⟨_,other,index',returned⟩
          · exact whole
          · exact absurd (partials_returned index' returned).2 incomplete
        rw [if_neg (not_not.mpr persisted)]
        refine settled_ended resolved outcome success (if_neg incomplete).symm rfl (fun other given => ?_)
          (fun _ => ⟨persisted,source⟩)
        cases given
  · exact settled_failed resolved outcome failure stage

/-- Whatever fails, an update either fails and has published what its stage says, or hands the index back and has
published nothing, or has published it once and whole, with the command where that comes from a compilation database. -/
theorem update_settled (out : Surroundings) (updater : Updater) (request : UpdateRequest) (env : Environment Shared)
    (blake3 : List UInt8 → Fingerprint) (unreadable : Bool) (looked : Option CommandFile) (shared : Shared)
    (commands : Option CommandFile) :
    Settled out updater request env blake3 shared commands
      (if request.stopped then .error (word "index update cancelled")
        else resolve out updater.resolver unreadable looked request.file request.variant)
      (updater.update out request env blake3 unreadable looked shared commands) := by
  unfold Updater.update
  split
  · exact settled_error (by decide)
  · cases resolution : resolve out updater.resolver unreadable looked request.file request.variant with
    | error error => exact settled_error (resolve_named resolution)
    | ok resolved => exact settled_run resolved (pipeline_outcome _ _ _ _ _ _)

/-- A run that stores no command ends with what it has stored. -/
theorem stored_last {call : PipelineRequest} {env : Environment Shared} (only : call.storage = .storeSymbols) :
    (indexPipelineRun out call env blake3 shared commands).result.persisted = .outputOnly ∨
      (indexPipelineRun out call env blake3 shared commands).result.persisted = .storeSymbols ∧
        (indexPipelineRun out call env blake3 shared commands).ret = 0 := by
  unfold indexPipelineRun
  split
  · rename_i ret result finished
    exact .inl (prepare_finished finished).persisted
  · rename_i result job prepared
    have uncommanded : call.storage ≠ .storeSymbolsAndCommand := by simp [only]
    unfold persist
    dsimp only
    rw [if_pos uncommanded]
    split_ifs with failed
    · exact .inl (prepare_ready prepared).unstored
    · exact .inr ⟨rfl,rfl⟩

/-- An updater that has nothing but the saved commands leaves these alone, and its result tells what is stored. -/
theorem update_saved (env : Environment Shared) (unreadable : Bool) (looked : Option CommandFile)
    (saved : updater.compileCommands = .empty ∧ updater.allowDocument = false) (stores : request.storePartial = true) :
    (updater.update out request env blake3 unreadable looked shared commands).commands = commands ∧
    ((updater.update out request env blake3 unreadable looked shared commands).result.status ≠ .failed ∧
        (∃ known, resolve out updater.resolver unreadable looked request.file request.variant = .ok known ∧
          known.source = .saved ∧ Published out (updater.pipelineRequest request known) blake3 shared
            (updater.update out request env blake3 unreadable looked shared commands).symbols) ∨
      (updater.update out request env blake3 unreadable looked shared commands).result.status = .failed ∧
        Since SchemaCommit (.new shared) (updater.update out request env blake3 unreadable looked shared commands).symbols) := by
  unfold Updater.update
  split_ifs with stopped
  · exact ⟨rfl,.inr ⟨rfl,since_refl _⟩⟩
  · cases resolution : resolve out updater.resolver unreadable looked request.file request.variant with
    | error error => exact ⟨rfl,.inr ⟨rfl,since_refl _⟩⟩
    | ok resolved =>
      have source : resolved.source = .saved := by
        unfold resolve Updater.resolver at resolution
        rw [if_neg (not_not.mpr saved.1),if_neg (by simp [saved.2])] at resolution
        split at resolution <;> cases resolution
        rfl
      have only : (updater.pipelineRequest request resolved).storage = .storeSymbols := by
        simp [Updater.pipelineRequest,source]
      have outcome := pipeline_outcome out (updater.pipelineRequest request resolved) env blake3 shared commands
      have last := @stored_last out blake3 shared commands _ env only
      have aside := outcome.aside (by simp [only])
      unfold Updater.updateWith
      dsimp only
      generalize indexPipelineRun out (updater.pipelineRequest request resolved) env blake3 shared commands = run
        at outcome last aside
      refine ⟨aside,?_⟩
      rcases last with none | ⟨stored,success⟩
      · refine .inr ⟨?_,(outcome.unpublished none).1⟩
        rcases outcome.returned with ⟨success,_⟩ | ⟨failure,_⟩
        · rcases outcome_kept outcome success with whole | ⟨_,s,index,returned⟩
          · rw [none,only] at whole
            cases whole
          · have policy := (partials_returned index returned).1
            rw [Updater.pipelineRequest] at policy
            dsimp only at policy
            rw [if_pos stores] at policy
            cases policy
        · rw [updateResult,if_pos (by omega)]
      · refine .inl ⟨?_,resolved,rfl,source,(stored_run resolved (by simp [source]) outcome (stored.trans only.symm)).1⟩
        rw [updateResult,if_neg (by omega)]
        dsimp only
        rw [if_neg (by simp [source]),if_neg (not_not.mpr (stored.trans only.symm))]
        split <;> simp

end Settled
end Semindex.Update
