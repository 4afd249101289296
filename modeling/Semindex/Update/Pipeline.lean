import Semindex.Update.Frontend
import Semindex.IndexDb.Store
import Semindex.CommandDb.LastStore

/-! `index_pipeline_run`: the frontend, the symbol database, and the command
database, in this order. What the result says of a run is what the run left
behind, whatever fails on the way. -/
namespace Semindex.Update
open Semindex.Relational Semindex.IndexDb Semindex.CommandDb

inductive PipelineInput where
  | command | compileCommands
  deriving DecidableEq

inductive PipelineStorage where
  | outputOnly | storeSymbols | storeSymbolsAndCommand
  deriving DecidableEq

inductive PipelinePartial where
  | storePartial | returnPartial
  deriving DecidableEq

inductive PipelineGitCommit where
  | disabled | auto | explicit
  deriving DecidableEq

inductive PipelineStage where
  | none | create | repositoryRoot | frontend | fingerprint | symbolDatabase | commandDatabase
  deriving DecidableEq

structure PipelineRequest where
  input : PipelineInput
  storage : PipelineStorage
  partials : PipelinePartial
  command : Option Command
  compileCommands : Option CString
  sourceFile : CString
  variant : CString
  repositoryRoot : Option CString
  gitCommit : Option CString
  gitCommitMode : PipelineGitCommit
  scope : Parser.Scope
  includeLocal : Bool
  details : Bool

structure PipelineResult where
  index : Option SemindexIndex
  command : Option Command
  failedStage : PipelineStage
  persisted : PipelineStorage
  frontendRet : Int

structure GitProvenance where
  repositoryRoot : Option Text
  commit : Option Text

-- where a call of `command_db_store` fails: the file may be there by then, also with its schema
inductive CommandFault where
  | fine | opening | created | initialized
  deriving DecidableEq

def CommandFault.left (file : Option CommandFile) : CommandFault → Option CommandFile
  | .created => some (file.getD ⟨0,none⟩)
  | .initialized => (CommandDb.openWriter file).orElse (fun _ => file)
  | _ => file

/-- What a run finds outside: the compiler, the file system, libgit2 and its process. -/
structure Surroundings where
  creates : Bool
  tools : Toolchain
  fs : FileSystem
  -- the lookups of the writer that fail
  lost : Lookup → Bool
  provenance : Text → GitProvenance
  disk : Disk
  cwd : CString
  commandFault : CommandFault

section Run
variable (out : Surroundings) (request : PipelineRequest)

def runFrontend (s : SemindexIndex) : Int × SemindexIndex :=
  if request.input = .command then semindexIndexCommand out.tools s request.command
  else semindexIndexFile out.tools s request.compileCommands request.sourceFile

def frontendRun : Int × SemindexIndex :=
  runFrontend out request (semindexCreate ⟨request.scope,request.details,request.includeLocal⟩)

def resultCommand (s : SemindexIndex) : Option Command :=
  if request.input = .command then request.command else s.command

def returnsPartial (frontendRet : Int) (s : SemindexIndex) : Bool :=
  request.partials = .returnPartial && (frontendRet ≠ 0 || s.result.status = .incomplete)

def emptyIndex : Index := ⟨[],[],[],[],by simp,by simp,by simp⟩

-- the root that the request names, which has to be a directory
def explicitRoot : Option (Option Text) :=
  match request.repositoryRoot with
  | none => some none
  | some root => (repositoryRootExplicit out.fs (some root.text)).map some

def gitProvenance (root : Option Text) : GitProvenance :=
  if request.gitCommitMode = .auto then out.provenance (root.getD request.sourceFile.text) else ⟨none,none⟩

def storedRoot (root : Option Text) : Option Text :=
  match root with
  | some root => some root
  | none =>
    match (gitProvenance out request root).repositoryRoot with
    | some root => some root
    | none => repositoryRoot out.fs (some request.sourceFile.text)

def storedCommit (root : Option Text) : Option Text :=
  match request.gitCommitMode with
  | .explicit => request.gitCommit.map CString.text
  | .auto => (gitProvenance out request root).commit
  | .disabled => none

def pipelineJob (s : SemindexIndex) (root : Option Text) : Job where
  fs := out.fs
  lost := out.lost
  request := {
    index := s.index.getD emptyIndex
    mainFile := some request.sourceFile.text
    variant := request.variant.text
    repositoryRoot := storedRoot out request root
    gitCommit := storedCommit out request root
    includeLocal := request.includeLocal }

inductive Prepared where
  | finished (ret : Int) (result : PipelineResult)
  | ready (result : PipelineResult) (job : Job)

/-- The run up to the symbol database. -/
def prepare : Prepared :=
  if !out.creates then .finished (-1) ⟨none,none,.create,.outputOnly,0⟩
  else
    let (frontendRet,s) := frontendRun out request
    if s.result.status = .failed then .finished (-1) ⟨some s,none,.frontend,.outputOnly,frontendRet⟩
    else
      let result : PipelineResult := ⟨some s,resultCommand request s,.none,.outputOnly,frontendRet⟩
      if returnsPartial request frontendRet s then .finished 0 result
      else if request.storage = .outputOnly then .finished 0 result
      else match explicitRoot out request with
        | none => .finished (-1) {result with failedStage := .repositoryRoot}
        | some root => .ready result (pipelineJob out request s root)

def commandCall (command : Command) : StoreCall :=
  ⟨out.cwd,request.variant,command.directory,command.file,command.argv⟩

def storeCommand (command : Option Command) (commands : Option CommandFile) : Int × Option CommandFile :=
  match command with
  | none => (-1,commands)
  | some command =>
    if out.commandFault ≠ .fine then (-1,out.commandFault.left commands)
    else match commandDbStore out.disk (commandCall out request command) commands with
      | none => (-1,commands)
      | some stored => (0,some stored)

structure PipelineRun where
  ret : Int
  result : PipelineResult
  symbols : Connection Shared
  commands : Option CommandFile

-- the run from the symbol database on
def persist (env : Environment Shared) (blake3 : List UInt8 → Fingerprint) (shared : Shared)
    (commands : Option CommandFile) (result : PipelineResult) (job : Job) : PipelineRun :=
  let (ret,symbols) := indexDbStore env blake3 job shared
  if ret < 0 then ⟨-1,{result with failedStage := .symbolDatabase},symbols,commands⟩
  else
    let result := {result with persisted := .storeSymbols}
    if request.storage ≠ .storeSymbolsAndCommand then ⟨0,result,symbols,commands⟩
    else
      let (ret,commands) := storeCommand out request result.command commands
      if ret < 0 then ⟨-1,{result with failedStage := .commandDatabase},symbols,commands⟩
      else ⟨0,{result with persisted := .storeSymbolsAndCommand},symbols,commands⟩

def indexPipelineRun (env : Environment Shared) (blake3 : List UInt8 → Fingerprint) (shared : Shared)
    (commands : Option CommandFile) : PipelineRun :=
  match prepare out request with
  | .finished ret result => ⟨ret,result,.new shared,commands⟩
  | .ready result job => persist out request env blake3 shared commands result job

end Run

section Verdict
variable (out : Surroundings) (request : PipelineRequest)

/-- There is an index, and the frontend has not failed. -/
def Indexes : Prop := out.creates = true ∧ (frontendRun out request).2.result.status ≠ .failed

-- the index is handed back without being stored
def handsBack : Bool :=
  returnsPartial request (frontendRun out request).1 (frontendRun out request).2 || request.storage = .outputOnly

variable (env : Environment Shared) (blake3 : List UInt8 → Fingerprint) (shared : Shared)
  (commands : Option CommandFile)

def StoresSymbols : Prop := ∃ root, explicitRoot out request = some root ∧
  (indexDbStore env blake3 (pipelineJob out request (frontendRun out request).2 root) shared).1 = 0

def StoresCommand : Prop := ∃ command, resultCommand request (frontendRun out request).2 = some command ∧
  out.commandFault = .fine ∧ (commandDbStore out.disk (commandCall out request command) commands).isSome

/-- What has failed first where a run names the stage; at `none` nothing has. -/
def EndsAt : PipelineStage → Prop
  | .none => Indexes out request ∧ (handsBack out request = true ∨
      StoresSymbols out request env blake3 shared ∧
        (request.storage = .storeSymbolsAndCommand → StoresCommand out request commands))
  | .create => out.creates = false
  | .frontend => out.creates = true ∧ (frontendRun out request).2.result.status = .failed
  | .fingerprint => False
  | .repositoryRoot => Indexes out request ∧ handsBack out request = false ∧ explicitRoot out request = none
  | .symbolDatabase => Indexes out request ∧ handsBack out request = false ∧ explicitRoot out request ≠ none ∧
      ¬StoresSymbols out request env blake3 shared
  | .commandDatabase => Indexes out request ∧ handsBack out request = false ∧
      StoresSymbols out request env blake3 shared ∧ request.storage = .storeSymbolsAndCommand ∧
      ¬StoresCommand out request commands

variable {out request env blake3 shared commands} in
/-- The stages exclude each other. -/
theorem endsAt_unique {first second : PipelineStage} (one : EndsAt out request env blake3 shared commands first)
    (two : EndsAt out request env blake3 shared commands second) : first = second := by
  have rooted (none : explicitRoot out request = none) : ¬StoresSymbols out request env blake3 shared := by
    rintro ⟨root,some,_⟩
    cases none.symm.trans some
  cases first <;> cases second <;> simp_all [EndsAt,Indexes]

end Verdict

section Prepare
variable {out : Surroundings} {request : PipelineRequest} {result : PipelineResult} {job : Job} {ret : Int}

/-- The result reports its return value, and that nothing was stored. -/
structure Unstored (out : Surroundings) (request : PipelineRequest) (ret : Int) (result : PipelineResult) : Prop where
  returned : (ret = 0 ∧ result.failedStage = .none) ∨ (ret = -1 ∧ result.failedStage ≠ .none)
  ended : ∀ env blake3 shared commands, EndsAt out request env blake3 shared commands result.failedStage
  created : out.creates = true → result.index = some (frontendRun out request).2
  made : ∀ s, result.index = some s → (result.frontendRet,s) = frontendRun out request
  indexed : ret = 0 → ∃ s, result.index = some s ∧ s.result.status ≠ .failed ∧ result.command = resultCommand request s
  persisted : result.persisted = .outputOnly
  fulfilled : ret = 0 → handsBack out request = true
  halted : result.failedStage ≠ .commandDatabase

/-- The index and the command of a run that gets to the databases. -/
structure Ready (out : Surroundings) (request : PipelineRequest) (result : PipelineResult) (job : Job) : Prop where
  storage : request.storage ≠ .outputOnly
  unfailed : result.failedStage = .none
  unstored : result.persisted = .outputOnly
  frontend : result.frontendRet = (frontendRun out request).1
  index : result.index = some (frontendRun out request).2
  indexes : Indexes out request
  kept : returnsPartial request (frontendRun out request).1 (frontendRun out request).2 = false
  command : result.command = resultCommand request (frontendRun out request).2
  made : ∃ root, explicitRoot out request = some root ∧ job = pipelineJob out request (frontendRun out request).2 root

theorem prepare_finished (finished : prepare out request = .finished ret result) : Unstored out request ret result := by
  have made {command : Option Command} {stage : PipelineStage} : ∀ s,
      PipelineResult.index ⟨some (frontendRun out request).2,command,stage,.outputOnly,(frontendRun out request).1⟩ = some s →
        ((frontendRun out request).1,s) = frontendRun out request := by
    intro s same
    cases same
    rfl
  unfold prepare at finished
  split at finished
  · rename_i uncreated
    cases finished
    have uncreated : out.creates = false := by simpa using uncreated
    exact ⟨.inr ⟨rfl,by simp⟩,fun _ _ _ _ => uncreated,by simp [uncreated],by simp,by simp,rfl,by simp,by simp⟩
  · rename_i created
    have created : out.creates = true := by simpa using created
    dsimp only at finished
    split at finished
    · rename_i status
      cases finished
      exact ⟨.inr ⟨rfl,by simp⟩,fun _ _ _ _ => ⟨created,status⟩,fun _ => rfl,made,by simp,rfl,by simp,by simp⟩
    · rename_i status
      split at finished
      · rename_i returned
        cases finished
        have back : handsBack out request = true := by simp [handsBack,returned]
        exact ⟨.inl ⟨rfl,rfl⟩,fun _ _ _ _ => ⟨⟨created,status⟩,.inl back⟩,fun _ => rfl,made,
          fun _ => ⟨_,rfl,status,rfl⟩,rfl,fun _ => back,by simp⟩
      · rename_i kept
        split at finished
        · rename_i outputs
          cases finished
          have back : handsBack out request = true := by simp [handsBack,outputs]
          exact ⟨.inl ⟨rfl,rfl⟩,fun _ _ _ _ => ⟨⟨created,status⟩,.inl back⟩,fun _ => rfl,made,
            fun _ => ⟨_,rfl,status,rfl⟩,rfl,fun _ => back,by simp⟩
        · rename_i stores
          split at finished
          · rename_i rootless
            cases finished
            exact ⟨.inr ⟨rfl,by simp⟩,fun _ _ _ _ => ⟨⟨created,status⟩,by simpa [handsBack,stores] using kept,rootless⟩,
              fun _ => rfl,made,by simp,rfl,by simp,by simp⟩
          · cases finished

theorem prepare_ready (prepared : prepare out request = .ready result job) : Ready out request result job := by
  unfold prepare at prepared
  split at prepared
  · cases prepared
  · rename_i created
    dsimp only at prepared
    split at prepared
    · cases prepared
    · rename_i status
      split at prepared
      · cases prepared
      · rename_i kept
        split at prepared
        · cases prepared
        · rename_i storage
          split at prepared
          · cases prepared
          · rename_i root named
            cases prepared
            exact ⟨storage,rfl,rfl,rfl,rfl,⟨by simpa using created,status⟩,by simpa using kept,rfl,root,named,rfl⟩

theorem ready_stores (ready : Ready out request result job) : handsBack out request = false := by
  simp [handsBack,ready.kept,ready.storage]

theorem ready_symbols (ready : Ready out request result job) {env : Environment Shared}
    {blake3 : List UInt8 → Fingerprint} {shared : Shared} :
    StoresSymbols out request env blake3 shared ↔ (indexDbStore env blake3 job shared).1 = 0 := by
  obtain ⟨root,named,rfl⟩ := ready.made
  constructor
  · rintro ⟨other,again,zero⟩
    cases named.symm.trans again
    exact zero
  · exact fun zero => ⟨root,named,zero⟩

end Prepare

section Commands
variable {out : Surroundings} {request : PipelineRequest} {command : Option Command} {file after : Option CommandFile}

/-- What a failed store leaves has the rows that were there. -/
theorem left_rows (fault : CommandFault) (file : Option CommandFile) :
    rows (fault.left file) = rows file ∨ rows file = none ∧ rows (fault.left file) = some ∅ := by
  cases fault with
  | fine => exact .inl rfl
  | opening => exact .inl rfl
  | created =>
    cases file with
    | none => exact .inl rfl
    | some opened => exact .inl rfl
  | initialized =>
    cases file with
    | none => exact .inr ⟨rfl,rfl⟩
    | some opened =>
      unfold CommandFault.left CommandDb.openWriter CommandDb.initSchema
      rw [Option.getD_some]
      split_ifs with current versioned
      · exact .inl rfl
      · exact .inl rfl
      · cases commands : opened.commands with
        | some table => exact .inl rfl
        | none => exact .inr ⟨by simp [rows,commandDbOpenReader,current],rfl⟩

-- whatever is there: a store that succeeds sets one row of what can be read, and keeps the others
theorem stored_rows {disk : Disk} {call : StoreCall} {opened : CommandFile}
    (done : commandDbStore disk call file = some opened) : call.variant ≠ .empty ∧ call.argv ≠ [] ∧
      rows (some opened) = some (((rows file).getD ∅).insert (call.variant,call.absFile disk)
        (call.absDirectory disk,packing call.argv)) := by
  unfold commandDbStore at done
  split_ifs at done with refused
  obtain ⟨blob,packed,done⟩ := Option.bind_eq_some_iff.mp done
  obtain ⟨writable,opens,done⟩ := Option.bind_eq_some_iff.mp done
  obtain ⟨table,present,done⟩ := Option.bind_eq_some_iff.mp done
  cases Option.some.inj done
  have readable : writable.userVersion = schemaVersion ∧ (rows file).getD ∅ = table := by
    cases file with
    | none =>
      cases opens
      exact ⟨rfl,Option.some.inj present⟩
    | some old =>
      rw [CommandDb.openWriter,Option.getD_some,CommandDb.initSchema] at opens
      split_ifs at opens with current versioned
      · cases opens
        simp [rows,commandDbOpenReader,current,present]
      · cases commands : old.commands with
        | some others => simp [commands] at opens
        | none =>
          simp only [commands,Option.some.injEq] at opens
          subst opens
          simp only [Option.some.injEq] at present
          simp [rows,commandDbOpenReader,current,present]
  refine ⟨(not_or.mp refused).1,(not_or.mp refused).2,?_⟩
  rw [readable.2,← pack_eq packed]
  simp [rows,commandDbOpenReader,readable.1]

theorem storeCommand_cases : (storeCommand out request command file = (-1,file)) ∨
    (storeCommand out request command file = (-1,out.commandFault.left file)) ∨
    ∃ known stored, command = some known ∧ commandDbStore out.disk (commandCall out request known) file = some stored ∧
      storeCommand out request command file = (0,some stored) := by
  unfold storeCommand
  cases command with
  | none => exact .inl rfl
  | some known =>
    dsimp only
    split
    · exact .inr (.inl rfl)
    · cases stores : commandDbStore out.disk (commandCall out request known) file with
      | none => exact .inl rfl
      | some stored => exact .inr (.inr ⟨known,stored,rfl,stores,rfl⟩)

theorem storeCommand_iff : (storeCommand out request command file).1 = 0 ↔ ∃ known, command = some known ∧
    out.commandFault = .fine ∧ (commandDbStore out.disk (commandCall out request known) file).isSome := by
  unfold storeCommand
  cases command with
  | none => simp
  | some known =>
    dsimp only
    split
    · rename_i fault
      simp [fault]
    · rename_i fine
      cases stores : commandDbStore out.disk (commandCall out request known) file with
      | none => simp [stores]
      | some stored => simp [stores,not_not.mp fine]

end Commands

/-- What a run leaves behind is what its result says. -/
structure Outcome (out : Surroundings) (request : PipelineRequest) (env : Environment Shared)
    (blake3 : List UInt8 → Fingerprint) (shared : Shared) (commands : Option CommandFile) (run : PipelineRun) : Prop where
  succeeds : run.ret = 0 ↔ EndsAt out request env blake3 shared commands .none
  returned : (run.ret = 0 ∧ run.result.failedStage = .none) ∨ (run.ret = -1 ∧ run.result.failedStage ≠ .none)
  ended : ∀ stage, run.result.failedStage = stage ↔ EndsAt out request env blake3 shared commands stage
  created : out.creates = true → run.result.index = some (frontendRun out request).2
  made : ∀ s, run.result.index = some s → (run.result.frontendRet,s) = frontendRun out request
  indexed : run.ret = 0 → ∃ s, run.result.index = some s ∧ s.result.status ≠ .failed ∧
    run.result.command = resultCommand request s
  -- an index that is handed back is not stored, any other is
  handed : Indexes out request → handsBack out request = true → run.ret = 0 ∧ run.result.persisted = .outputOnly
  fulfilled : run.ret = 0 → handsBack out request = false → run.result.persisted = request.storage
  -- no row of either database
  unpublished : run.result.persisted = .outputOnly → Since SchemaCommit (.new shared) run.symbols ∧ run.commands = commands
  -- the index, once and whole
  published : run.result.persisted ≠ .outputOnly → Indexes out request ∧ handsBack out request = false ∧
    StoresSymbols out request env blake3 shared ∧ ∃ root, explicitRoot out request = some root ∧ Once SchemaCommit
      (MergeCommit blake3 (pipelineJob out request (frontendRun out request).2 root)) (.new shared) run.symbols
  halfway : run.result.failedStage = .commandDatabase → run.result.persisted = .storeSymbols
  aside : request.storage ≠ .storeSymbolsAndCommand → run.commands = commands
  uncommanded : run.result.persisted = .storeSymbols → rows run.commands = rows commands ∨
    rows commands = none ∧ rows run.commands = some ∅
  commanded : run.result.persisted = .storeSymbolsAndCommand → ∃ command stored, run.result.command = some command ∧
    commandDbStore out.disk (commandCall out request command) commands = some stored ∧ run.commands = some stored

section Outcome
variable {out : Surroundings} {request : PipelineRequest} {env : Environment Shared}
  {blake3 : List UInt8 → Fingerprint} {shared : Shared} {commands : Option CommandFile}

theorem ended_iff {stage other : PipelineStage} (ends : EndsAt out request env blake3 shared commands stage) :
    stage = other ↔ EndsAt out request env blake3 shared commands other :=
  ⟨fun same => same ▸ ends,endsAt_unique ends⟩

theorem succeeds_iff {ret : Int} {stage : PipelineStage} (ends : EndsAt out request env blake3 shared commands stage)
    (returned : (ret = 0 ∧ stage = .none) ∨ (ret = -1 ∧ stage ≠ .none)) :
    ret = 0 ↔ EndsAt out request env blake3 shared commands .none := by
  rw [← ended_iff ends]
  rcases returned with ⟨zero,none⟩ | ⟨failed,named⟩
  · simp [zero,none]
  · simp [failed,named]

theorem outcome_finished {ret : Int} {result : PipelineResult} (unstored : Unstored out request ret result) :
    Outcome out request env blake3 shared commands ⟨ret,result,.new shared,commands⟩ where
  succeeds := succeeds_iff (unstored.ended _ _ _ _) unstored.returned
  returned := unstored.returned
  ended := fun _ => ended_iff (unstored.ended _ _ _ _)
  created := unstored.created
  made := unstored.made
  indexed := unstored.indexed
  handed := by
    intro indexes back
    exact ⟨(succeeds_iff (unstored.ended env blake3 shared commands) unstored.returned).mpr ⟨indexes,.inl back⟩,
      unstored.persisted⟩
  fulfilled := by
    intro success stores
    cases stores.symm.trans (unstored.fulfilled success)
  unpublished := fun _ => ⟨since_refl _,rfl⟩
  published := fun stored => absurd unstored.persisted stored
  halfway := fun stage => (unstored.halted stage).elim
  aside := fun _ => rfl
  uncommanded := fun _ => .inl rfl
  commanded := by
    intro stored
    cases stored.symm.trans unstored.persisted

theorem outcome_persist {result : PipelineResult} {job : Job} (ready : Ready out request result job) :
    Outcome out request env blake3 shared commands (persist out request env blake3 shared commands result job) := by
  have stores := ready_stores ready
  have symbols := @ready_symbols _ _ _ _ ready env blake3 shared
  obtain ⟨root,named,made⟩ := ready.made
  have frontend : ∀ s, result.index = some s → (result.frontendRet,s) = frontendRun out request := by
    intro s same
    cases ready.index.symm.trans same
    rw [ready.frontend]
  have indexed : ∃ s, result.index = some s ∧ s.result.status ≠ .failed ∧ result.command = resultCommand request s :=
    ⟨_,ready.index,ready.indexes.2,ready.command⟩
  have handed {ret : Int} {after : PipelineResult} : Indexes out request → handsBack out request = true →
      ret = 0 ∧ after.persisted = .outputOnly := by
    intro _ back
    cases stores.symm.trans back
  have command : StoresCommand out request commands ↔ (storeCommand out request result.command commands).1 = 0 := by
    rw [storeCommand_iff,ready.command]
    rfl
  unfold persist
  dsimp only
  rcases store_publishes env blake3 job shared with ⟨zero,once⟩ | ⟨failed,since⟩
  · have published : Indexes out request ∧ handsBack out request = false ∧
        StoresSymbols out request env blake3 shared ∧ ∃ root, explicitRoot out request = some root ∧ Once SchemaCommit
          (MergeCommit blake3 (pipelineJob out request (frontendRun out request).2 root)) (.new shared)
            (indexDbStore env blake3 job shared).2 := ⟨ready.indexes,stores,symbols.mpr zero,root,named,made ▸ once⟩
    rw [if_neg (by omega)]
    split
    · rename_i alone
      have storage : request.storage = .storeSymbols := by
        cases known : request.storage with
        | outputOnly => exact absurd known ready.storage
        | storeSymbols => rfl
        | storeSymbolsAndCommand => exact absurd known alone
      have ends : EndsAt out request env blake3 shared commands result.failedStage := by
        rw [ready.unfailed]
        exact ⟨ready.indexes,.inr ⟨symbols.mpr zero,fun both => absurd both alone⟩⟩
      exact {
        succeeds := succeeds_iff ends (.inl ⟨rfl,ready.unfailed⟩)
        returned := .inl ⟨rfl,ready.unfailed⟩
        ended := fun _ => ended_iff ends
        created := fun _ => ready.index
        made := frontend
        indexed := fun _ => indexed
        handed := handed
        fulfilled := fun _ _ => storage.symm
        unpublished := fun none => by cases none
        published := fun _ => published
        halfway := fun stage => by cases ready.unfailed.symm.trans stage
        aside := fun _ => rfl
        uncommanded := fun _ => .inl rfl
        commanded := fun both => by cases both }
    · rename_i both
      have storage : request.storage = .storeSymbolsAndCommand := not_not.mp both
      by_cases stored : (storeCommand out request result.command commands).1 = 0
      · have ends : EndsAt out request env blake3 shared commands result.failedStage := by
          rw [ready.unfailed]
          exact ⟨ready.indexes,.inr ⟨symbols.mpr zero,fun _ => command.mpr stored⟩⟩
        rw [if_neg (by omega)]
        exact {
          succeeds := succeeds_iff ends (.inl ⟨rfl,ready.unfailed⟩)
          returned := .inl ⟨rfl,ready.unfailed⟩
          ended := fun _ => ended_iff ends
          created := fun _ => ready.index
          made := frontend
          indexed := fun _ => indexed
          handed := handed
          fulfilled := fun _ _ => storage.symm
          unpublished := fun none => by cases none
          published := fun _ => published
          halfway := fun stage => by cases ready.unfailed.symm.trans stage
          aside := fun alone => absurd storage alone
          uncommanded := fun only => by cases only
          commanded := by
            intro _
            rcases @storeCommand_cases out request result.command commands with stays | leaves | ⟨known,stored,same,done,ends⟩
            · simp [stays] at stored
            · simp [leaves] at stored
            · exact ⟨known,stored,same,done,by rw [ends]⟩ }
      · have ends : EndsAt out request env blake3 shared commands .commandDatabase :=
          ⟨ready.indexes,stores,symbols.mpr zero,storage,fun known => stored (command.mp known)⟩
        have negative : (storeCommand out request result.command commands).1 < 0 := by
          rcases @storeCommand_cases out request result.command commands with same | same | ⟨_,_,_,_,same⟩
          · simp [same]
          · simp [same]
          · simp [same] at stored
        rw [if_pos negative]
        exact {
          succeeds := succeeds_iff ends (.inr ⟨rfl,by simp⟩)
          returned := .inr ⟨rfl,by simp⟩
          ended := fun _ => ended_iff ends
          created := fun _ => ready.index
          made := frontend
          indexed := fun _ => indexed
          handed := handed
          fulfilled := fun success => by cases success
          unpublished := fun none => by cases none
          published := fun _ => published
          halfway := fun _ => rfl
          aside := fun alone => absurd storage alone
          uncommanded := by
            intro _
            rcases @storeCommand_cases out request result.command commands with same | same | ⟨_,_,_,_,same⟩
            · exact .inl (by rw [same])
            · rw [same]
              exact left_rows _ _
            · simp [same] at stored
          commanded := fun both => by cases both }
  · have ends : EndsAt out request env blake3 shared commands .symbolDatabase := by
      refine ⟨ready.indexes,stores,by simp [named],fun known => ?_⟩
      have zero := symbols.mp known
      omega
    rw [if_pos (by omega)]
    exact {
      succeeds := succeeds_iff ends (.inr ⟨rfl,by simp⟩)
      returned := .inr ⟨rfl,by simp⟩
      ended := fun _ => ended_iff ends
      created := fun _ => ready.index
      made := frontend
      indexed := fun _ => indexed
      handed := handed
      fulfilled := fun success => by cases success
      unpublished := fun _ => ⟨since,rfl⟩
      published := fun stored => absurd ready.unstored stored
      halfway := fun stage => by cases stage
      aside := fun _ => rfl
      uncommanded := fun stored => by cases stored.symm.trans ready.unstored
      commanded := fun stored => by cases stored.symm.trans ready.unstored }

/-- Whatever fails, a run leaves behind what its result says: the symbols before the command, each of them once
and whole or not at all. -/
theorem pipeline_outcome (out : Surroundings) (request : PipelineRequest) (env : Environment Shared)
    (blake3 : List UInt8 → Fingerprint) (shared : Shared) (commands : Option CommandFile) :
    Outcome out request env blake3 shared commands (indexPipelineRun out request env blake3 shared commands) := by
  unfold indexPipelineRun
  cases prepared : prepare out request with
  | finished ret result => exact outcome_finished (prepare_finished prepared)
  | ready result job => exact outcome_persist (prepare_ready prepared)

/-- A run that succeeds has stored what was asked, or hands back an index that is not to be stored. -/
theorem outcome_kept {run : PipelineRun} (outcome : Outcome out request env blake3 shared commands run)
    (success : run.ret = 0) : run.result.persisted = request.storage ∨ run.result.persisted = .outputOnly ∧
      ∃ s, run.result.index = some s ∧ returnsPartial request run.result.frontendRet s = true := by
  obtain ⟨indexes,_⟩ := outcome.succeeds.mp success
  cases back : handsBack out request with
  | false => exact .inl (outcome.fulfilled success back)
  | true =>
    have none := (outcome.handed indexes back).2
    have index := outcome.created indexes.1
    have frontend := congrArg Prod.fst (outcome.made _ index)
    rcases Bool.or_eq_true_iff.mp back with returned | outputs
    · exact .inr ⟨none,_,index,by rw [show run.result.frontendRet = _ from frontend]; exact returned⟩
    · exact .inl (none.trans (of_decide_eq_true outputs).symm)

end Outcome
end Semindex.Update
