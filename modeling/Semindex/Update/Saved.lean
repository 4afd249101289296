import Semindex.Update.Updater

/-! What the resolver finds of what the runs saved. A saved command is there for
good, and the symbol database lists the variant and the file that it is of. -/
namespace Semindex.Update
open Semindex.Support Semindex.Relational Semindex.IndexDb Semindex.CommandDb

section Load
variable {disk : Disk} {cwd : CString} {commands : Option CommandFile} {table : Commands} {variant file : CString}

-- the key that a load looks up
def loadKey (disk : Disk) (cwd file : CString) : CString := commandDbAbsolutePath disk cwd .dot file

theorem load_row {directory : CString} {argv : List CString} (opened : rows commands = some table)
    (named : variant ≠ .empty) (given : argv ≠ [])
    (found : table.lookup (variant,loadKey disk cwd file) = some (directory,packing argv)) :
    commandDbLoad disk cwd commands variant file = .found ⟨directory,loadKey disk cwd file,argv⟩ := by
  have filled : packing argv ≠ [] := fun none => by simpa [none] using packing_last given
  unfold rows at opened
  unfold loadKey at found
  unfold commandDbLoad
  rw [if_neg named,opened]
  dsimp only
  rw [found]
  dsimp only
  rw [if_neg filled,unpack_packing given]
  rfl

theorem load_found {command : Command} (loaded : commandDbLoad disk cwd commands variant file = .found command) :
    variant ≠ .empty ∧ command.argv ≠ [] ∧ ∃ table, rows commands = some table ∧
      table.lookup (variant,loadKey disk cwd file) = some (command.directory,packing command.argv) := by
  unfold commandDbLoad at loaded
  split at loaded
  · cases loaded
  · rename_i named
    dsimp only at loaded
    split at loaded
    · cases loaded
    · rename_i table opened
      split at loaded
      · cases loaded
      · rename_i directory blob found
        split at loaded
        · cases loaded
        · split at loaded
          · cases loaded
          · cases loaded
          · rename_i argv unpacked
            cases loaded
            obtain ⟨given,rfl⟩ := ((unpackArguments_iff blob).2 argv).mp unpacked
            exact ⟨named,given,table,opened,found⟩

end Load

section Resolve
variable {out : Surroundings} {resolver : CommandResolver} {unreadable : Bool} {commands : Option CommandFile}
  {file variant : CString} {resolved : ResolvedCommand}

theorem resolve_saved (found : resolve out resolver unreadable commands file variant = .ok resolved)
    (saved : resolved.source = .saved) : unreadable = false ∧ ∃ command, resolved.command = some command ∧
      commandDbLoad out.disk out.cwd commands variant file = .found command := by
  unfold resolve at found
  split at found
  · cases found
  · cases found
  · rename_i command loaded
    cases found
    unfold loadSaved at loaded
    split_ifs at loaded with error
    exact ⟨by simpa using error,command,rfl,loaded⟩
  · split_ifs at found <;> cases found <;> cases saved

theorem resolve_found (resolver : CommandResolver) {command : Command}
    (loaded : commandDbLoad out.disk out.cwd commands variant file = .found command) :
    resolve out resolver false commands file variant = .ok ⟨.saved,some command,none,command.directory,true⟩ := by
  have present : commands.isNone = false := by
    obtain ⟨_,_,table,opened,_⟩ := load_found loaded
    cases commands with
    | none => cases opened
    | some file => rfl
  unfold resolve loadSaved
  rw [present,loaded]
  rfl

end Resolve

section Rooted
variable {disk : Disk}

-- an absolute name has the same key on both sides
theorem absFile_rooted {call : StoreCall} (rooted : call.file.rooted) : call.absFile disk = loadKey disk call.cwd call.file := by
  unfold StoreCall.absFile loadKey commandDbAbsolutePath
  rw [if_pos rooted,if_pos rooted]

end Rooted

theorem prepares_variant {call : PipelineCall} {result : PipelineResult} {job : Job} (prepared : Prepares call result job) :
    job.request.variant = call.request.variant.text := by
  obtain ⟨root,_,rfl⟩ := (prepare_ready prepared).made
  rfl

section Forever
variable {ι : Type} [DecidableEq ι] {runs : ι → PipelineCall} {blake3 : List UInt8 → Fingerprint} {s t : Databases ι}

/-- The steps from one state to a later one. -/
inductive Later (runs : ι → PipelineCall) (blake3 : List UInt8 → Fingerprint) (s : Databases ι) : Databases ι → Prop where
  | now : Later runs blake3 s s
  | step (t u : Databases ι) (later : Later runs blake3 s t) (next : Step runs blake3 t u) : Later runs blake3 s u

def HasRow (commands : Option CommandFile) (key : CString × CString) : Prop :=
  ∃ table row, rows commands = some table ∧ table.lookup key = some row

theorem hasRow_storeCommand {out : Surroundings} {request : PipelineRequest} {command : Option Command}
    {commands : Option CommandFile} {key : CString × CString} (has : HasRow commands key) :
    HasRow (storeCommand out request command commands).2 key := by
  obtain ⟨table,row,opened,found⟩ := has
  rcases @storeCommand_cases out request command commands with same | left | ⟨known,stored,_,done,same⟩
  · rw [same]
    exact ⟨table,row,opened,found⟩
  · rw [left]
    rcases left_rows out.commandFault commands with rows | ⟨none,_⟩
    · exact ⟨table,row,rows.trans opened,found⟩
    · cases none.symm.trans opened
  · rw [same]
    obtain ⟨_,_,after⟩ := stored_rows done
    rw [opened,Option.getD_some] at after
    by_cases new : key = ((commandCall out request known).variant,(commandCall out request known).absFile out.disk)
    · subst new
      exact ⟨_,_,after,AList.lookup_insert _⟩
    · exact ⟨_,row,after,(AList.lookup_insert_ne new).trans found⟩

theorem hasRow_later {key : CString × CString} (later : Later runs blake3 s t) (has : HasRow s.commands key) :
    HasRow t.commands key := by
  induction later with
  | now => exact has
  | step t u _ next ih =>
    cases next with
    | symbols => exact ih
    | command => exact hasRow_storeCommand ih
    | quit => exact ih

theorem reached_later (reached : Reached runs blake3 s) (later : Later runs blake3 s t) : Reached runs blake3 t := by
  induction later with
  | now => exact reached
  | step t u _ next ih => exact .step t u ih next

variable {out : Surroundings} {resolver : CommandResolver} {file variant : CString} {resolved : ResolvedCommand}

/-- However the runs interleave, a command that the resolver finds is that of a run whose variant and main file the
symbol database lists, and the resolver goes on to find one. -/
theorem saved_command_indexed (reached : Reached runs blake3 s)
    (found : resolve out resolver false s.commands file variant = .ok resolved) (saved : resolved.source = .saved) :
    (∃ i result job command known, Prepares (runs i) result job ∧ Listed blake3 s.symbols job ∧
      job.request.variant = variant.text ∧ result.command = some command ∧ resolved.command = some known ∧
      known.argv = command.argv) ∧
    ∀ t, Later runs blake3 s t → ∃ next, resolve out resolver false t.commands file variant = .ok next ∧
      next.source = .saved := by
  obtain ⟨_,known,command,loaded⟩ := resolve_saved found saved
  obtain ⟨named,_,table,opened,row⟩ := load_found loaded
  constructor
  · obtain ⟨i,result,job,own,prepared,listed,run,_,key,same⟩ := (kept_reached reached).saved table opened _ _ row
    refine ⟨i,result,job,own,known,prepared,listed,?_,run,command,packing_injective (Prod.mk.inj same).2⟩
    rw [prepares_variant prepared,(Prod.mk.inj key).1]
  · intro t later
    obtain ⟨table,row,opened,found⟩ := hasRow_later later ⟨table,_,opened,row⟩
    obtain ⟨i,result,job,own,_,_,_,given,_,rfl⟩ := (kept_reached (reached_later reached later)).saved table opened _ _ found
    exact ⟨_,resolve_found resolver (load_row opened named given found),rfl⟩

end Forever

theorem frontendRun_file {out : Surroundings} {request : PipelineRequest} {file : CString} {command : Command}
    (input : request.input = .compileCommands) (source : request.sourceFile = file)
    (made : (frontendRun out request).2.command = some command) : command.file = file := by
  unfold frontendRun runFrontend at made
  rw [if_neg (by simp [input])] at made
  unfold semindexIndexFile at made
  split at made
  · cases made
  · split at made
    · cases made
    · unfold semindexIndexCommand at made
      dsimp only at made
      split at made
      · cases made
      · cases made
        exact source

section Update
variable {out : Surroundings} {updater : Updater} {request : UpdateRequest} {env : Environment Shared}
  {blake3 : List UInt8 → Fingerprint} {unreadable : Bool} {looked commands : Option CommandFile} {shared : Shared}
  {resolved : ResolvedCommand}

/-- An update with a command of the compilation database saves it: from then on the file is resolved to the arguments
that the database has for it, in the same process. -/
theorem update_saves_command (absolute : request.file.rooted)
    (resolution : resolve out updater.resolver unreadable looked request.file request.variant = .ok resolved)
    (database : resolved.source = .compilationDatabase)
    (succeeded : (updater.update out request env blake3 unreadable looked shared commands).result.status ≠ .failed)
    (stored : (updater.update out request env blake3 unreadable looked shared commands).result.transientIndex = none)
    (resolver : CommandResolver) : ∃ command saved,
      (frontendRun out (updater.pipelineRequest request resolved)).2.command = some command ∧
      resolve out resolver false (updater.update out request env blake3 unreadable looked shared commands).commands
        request.file request.variant = .ok saved ∧
      saved.source = .saved ∧ saved.command.map Command.argv = some command.argv := by
  have settled := update_settled out updater request env blake3 unreadable looked shared commands
  obtain ⟨known,same,_,_,_,saves⟩ := settled.kept succeeded stored
  have going : request.stopped = false := by
    by_contra stopped
    rw [if_pos (by simpa using stopped)] at same
    cases same
  rw [if_neg (by simp [going]),resolution] at same
  cases same
  obtain ⟨command,file,made,done,after⟩ := saves database
  have own : command.file = request.file := frontendRun_file (by simp [Updater.pipelineRequest,database])
    (by simp [Updater.pipelineRequest,database]) made
  obtain ⟨named,given,opened⟩ := stored_rows done
  have key : (commandCall out (updater.pipelineRequest request resolved) command).absFile out.disk =
      loadKey out.disk out.cwd request.file := by
    rw [absFile_rooted (by rw [commandCall,own]; exact absolute)]
    rw [commandCall,own]
  rw [key] at opened
  have loaded := resolve_found resolver (load_row opened named given (AList.lookup_insert _))
  rw [← after] at loaded
  exact ⟨command,_,made,loaded,rfl,rfl⟩

end Update

section Sample

def sampleIndex : Index := (headerJob "a.c" 10 ["f"]).request.index

def sampleSurroundings : Surroundings where
  creates := true
  tools := {
    run := fun _ _ _ => ⟨0,0,0,false,some sampleIndex,[]⟩
    loadFromDirectory := fun _ => some (fun file => [(sampleDirectory,[sampleCompiler,file])]) }
  fs := headerFs 10
  lost := fun _ => false
  provenance := fun _ => ⟨none,none⟩
  disk := sampleDisk
  cwd := sampleDirectory
  commandFault := .fine

def sampleUpdater : Updater := ⟨.empty,.dot,true,true⟩

def sampleRequest : UpdateRequest := ⟨sampleFile,sampleVariant,0,true,false⟩

def sampleResolved : ResolvedCommand := ⟨.compilationDatabase,none,some .dot,.empty,false⟩

def sampleResolver : CommandResolver := ⟨.empty,.empty,false⟩

def sampleCall : PipelineCall := ⟨sampleSurroundings,sampleUpdater.pipelineRequest sampleRequest sampleResolved⟩

theorem update_saves_command_sample : ∃ command saved,
    (frontendRun sampleSurroundings (sampleUpdater.pipelineRequest sampleRequest sampleResolved)).2.command = some command ∧
      resolve sampleSurroundings sampleResolver false (sampleUpdater.update sampleSurroundings sampleRequest undisturbed
        foldHash false none emptyFile none).commands sampleFile sampleVariant = .ok saved ∧
      saved.source = .saved ∧ saved.command.map Command.argv = some command.argv :=
  update_saves_command (by decide) rfl rfl (by decide +kernel) (Option.isNone_iff_eq_none.mp (by decide +kernel)) sampleResolver

def sampleCommand : Command := ⟨sampleDirectory,sampleFile,[sampleCompiler,sampleFile]⟩

theorem saved_command_indexed_sample : ∃ (s : Databases Unit) (resolved : ResolvedCommand),
    resolve sampleSurroundings sampleResolver false s.commands sampleFile sampleVariant = .ok resolved ∧
    (∃ result job command known, Prepares sampleCall result job ∧ Listed foldHash s.symbols job ∧
      job.request.variant = sampleVariant.text ∧ result.command = some command ∧ resolved.command = some known ∧
      known.argv = command.argv) := by
  have prepared : ∃ result job, Prepares sampleCall result job ∧ result.command = some sampleCommand :=
    ⟨_,_,rfl,rfl⟩
  obtain ⟨result,job,prepared,command⟩ := prepared
  obtain ⟨after,stored⟩ := @store_total foldHash job .empty
  have published : Reached (fun _ : Unit => sampleCall) foldHash _ :=
    .step _ _ .start (.symbols _ () result job after rfl prepared (stores_of_store stored))
  have saved := Reached.step _ _ published (.command _ () result rfl ⟨job,prepared⟩ rfl)
  rw [command] at saved
  have found : resolve sampleSurroundings sampleResolver false
      (storeCommand sampleSurroundings sampleCall.request (some sampleCommand) none).2 sampleFile sampleVariant =
        .ok ⟨.saved,some sampleCommand,none,sampleDirectory,true⟩ := by rfl
  obtain ⟨⟨_,rest⟩,_⟩ := saved_command_indexed saved found rfl
  exact ⟨_,_,found,rest⟩

end Sample
end Semindex.Update
