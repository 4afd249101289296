import Semindex.IndexDb.Variants
import Semindex.Update.Pipeline
import Mathlib.Logic.Function.Basic

/-! Any number of pipeline runs on the same two databases, in any order of their
steps. A run publishes its symbols in one step and saves its command in a later
one; between them, and after it has failed, the other runs go on. -/
namespace Semindex.Update
open Semindex.Relational Semindex.IndexDb Semindex.CommandDb

inductive Phase where
  | started | stored | ended
  deriving DecidableEq

structure PipelineCall where
  out : Surroundings
  request : PipelineRequest

structure Databases (ι : Type) where
  symbols : Db
  commands : Option CommandFile
  phase : ι → Phase

section System
variable {ι : Type} [DecidableEq ι] (runs : ι → PipelineCall) (blake3 : List UInt8 → Fingerprint)

/-- A run that gets as far as the databases, with this index and this result. -/
def Prepares (call : PipelineCall) (result : PipelineResult) (job : Job) : Prop :=
  prepare call.out call.request = .ready result job

inductive Step : Databases ι → Databases ι → Prop where
  | symbols (s : Databases ι) (i : ι) (result : PipelineResult) (job : Job) (after : Db)
      (here : s.phase i = .started) (prepared : Prepares (runs i) result job)
      (stored : job.Stores blake3 s.symbols after) :
      Step s ⟨after,s.commands,Function.update s.phase i .stored⟩
  -- also a store of the command that fails
  | command (s : Databases ι) (i : ι) (result : PipelineResult) (here : s.phase i = .stored)
      (prepared : ∃ job, Prepares (runs i) result job) (both : (runs i).request.storage = .storeSymbolsAndCommand) :
      Step s ⟨s.symbols,(storeCommand (runs i).out (runs i).request result.command s.commands).2,
        Function.update s.phase i .ended⟩
  | quit (s : Databases ι) (i : ι) : Step s {s with phase := Function.update s.phase i .ended}

inductive Reached : Databases ι → Prop where
  | start : Reached ⟨.empty,none,fun _ => .started⟩
  | step (s t : Databases ι) (reached : Reached s) (next : Step runs blake3 s t) : Reached t

/-- The variant and the main file of the index are listed. -/
structure Listed (db : Db) (job : Job) : Prop where
  variant : (db.variants.lookup job.request.variant).isSome
  main : ∀ path, (job.paths blake3).mainFile = some path → (db.content (job.request.variant,path)).stat.isSome

/-- The command database has this row from the run, whose index is listed. -/
def SavedBy (db : Db) (call : PipelineCall) (key : CString × CString) (row : CString × List Support.Byte) : Prop :=
  ∃ result job command, Prepares call result job ∧ Listed blake3 db job ∧ result.command = some command ∧
    command.argv ≠ [] ∧
    key = (call.request.variant,(commandCall call.out call.request command).absFile call.out.disk) ∧
    row = ((commandCall call.out call.request command).absDirectory call.out.disk,packing command.argv)

structure Kept (s : Databases ι) : Prop where
  consistent : s.symbols.Consistent
  stored : ∀ i, s.phase i = .stored → ∃ result job, Prepares (runs i) result job ∧ Listed blake3 s.symbols job
  saved : ∀ table, rows s.commands = some table → ∀ key row, table.lookup key = some row →
    ∃ i, SavedBy blake3 s.symbols (runs i) key row

end System

section Steps
variable {ι : Type} [DecidableEq ι] {runs : ι → PipelineCall} {blake3 : List UInt8 → Fingerprint} {db after : Db}
  {job : Job}

theorem prepares_same {call : PipelineCall} {first second : PipelineResult} {other : Job}
    (one : Prepares call first job) (two : Prepares call second other) : first = second := by
  cases one.symm.trans two
  rfl

theorem listed_stored (stored : job.Stores blake3 db after) : Listed blake3 after job where
  variant := by
    rw [stores_lists stored]
    simp
  main := by
    intro path main
    obtain ⟨row,found,_⟩ := stagedFiles_main main
    rw [stores_stat stored (Job.row_some.mpr ⟨rfl,found⟩)]
    rfl

theorem listed_kept {other : Job} (stored : other.Stores blake3 db after) (consistent : db.Consistent)
    (listed : Listed blake3 db job) : Listed blake3 after job where
  variant := by
    rw [stores_lists stored,listed.variant]
    rfl
  main := fun path main => stores_keeps_files stored consistent (listed.main path main)

theorem savedBy_kept {other : Job} {call : PipelineCall} {key : CString × CString} {row : CString × List Support.Byte}
    (stored : other.Stores blake3 db after) (consistent : db.Consistent) (saved : SavedBy blake3 db call key row) :
    SavedBy blake3 after call key row := by
  obtain ⟨result,job,command,prepared,listed,rest⟩ := saved
  exact ⟨result,job,command,prepared,listed_kept stored consistent listed,rest⟩

omit [DecidableEq ι] in
theorem kept_start : Kept runs blake3 ⟨.empty,none,fun _ => .started⟩ where
  consistent := empty_consistent
  stored := by
    intro i here
    cases here
  saved := by
    intro table opened
    cases opened

theorem kept_symbols {s : Databases ι} (kept : Kept runs blake3 s) {i : ι} {result : PipelineResult}
    (prepared : Prepares (runs i) result job) (stored : job.Stores blake3 s.symbols after) :
    Kept runs blake3 ⟨after,s.commands,Function.update s.phase i .stored⟩ where
  consistent := stores_consistent stored kept.consistent
  stored := by
    intro j here
    by_cases same : j = i
    · subst same
      exact ⟨result,job,prepared,listed_stored stored⟩
    · have before : s.phase j = .stored := (Function.update_of_ne same _ _).symm.trans here
      obtain ⟨result,job,prepared,listed⟩ := kept.stored j before
      exact ⟨result,job,prepared,listed_kept stored kept.consistent listed⟩
  saved := by
    intro table opened key row found
    obtain ⟨j,saved⟩ := kept.saved table opened key row found
    exact ⟨j,savedBy_kept stored kept.consistent saved⟩

-- a run that ends has nothing more to publish
theorem kept_ended {s : Databases ι} (kept : Kept runs blake3 s) (i : ι) (commands : Option CommandFile)
    (saved : ∀ table, rows commands = some table → ∀ key row, table.lookup key = some row →
      ∃ i, SavedBy blake3 s.symbols (runs i) key row) :
    Kept runs blake3 ⟨s.symbols,commands,Function.update s.phase i .ended⟩ where
  consistent := kept.consistent
  stored := by
    intro j here
    by_cases same : j = i
    · subst same
      cases (Function.update_self j Phase.ended s.phase).symm.trans here
    · exact kept.stored j ((Function.update_of_ne same _ _).symm.trans here)
  saved := saved

theorem kept_command {s : Databases ι} (kept : Kept runs blake3 s) {i : ι} {result : PipelineResult}
    (here : s.phase i = .stored) (prepared : ∃ job, Prepares (runs i) result job) : Kept runs blake3
      ⟨s.symbols,(storeCommand (runs i).out (runs i).request result.command s.commands).2,
        Function.update s.phase i .ended⟩ := by
  apply kept_ended kept
  obtain ⟨_,prepared⟩ := prepared
  obtain ⟨result',job,own,listed⟩ := kept.stored i here
  obtain rfl := prepares_same own prepared
  rcases @storeCommand_cases (runs i).out (runs i).request result'.command s.commands with
    same | left | ⟨command,stored,known,done,same⟩
  · rw [same]
    exact kept.saved
  · rw [left]
    intro table opened key row found
    rcases left_rows (runs i).out.commandFault s.commands with rows | ⟨_,empty⟩
    · exact kept.saved table (rows.symm.trans opened) key row found
    · cases empty.symm.trans opened
      rw [AList.lookup_empty] at found
      cases found
  · rw [same]
    intro table opened key row found
    obtain ⟨_,argv,after⟩ := stored_rows done
    cases after.symm.trans opened
    by_cases new : key = ((commandCall (runs i).out (runs i).request command).variant,
        (commandCall (runs i).out (runs i).request command).absFile (runs i).out.disk)
    · subst new
      rw [AList.lookup_insert] at found
      cases found
      exact ⟨i,result',job,command,own,listed,known,argv,rfl,rfl⟩
    · rw [AList.lookup_insert_ne new] at found
      cases before : rows s.commands with
      | none =>
        rw [before,Option.getD_none,AList.lookup_empty] at found
        cases found
      | some old =>
        rw [before,Option.getD_some] at found
        exact kept.saved old before key row found

theorem kept_reached {s : Databases ι} (reached : Reached runs blake3 s) : Kept runs blake3 s := by
  induction reached with
  | start => exact kept_start
  | step s t _ next kept =>
    cases next with
    | symbols i result job after here prepared stored => exact kept_symbols kept prepared stored
    | command i result here prepared both => exact kept_command kept here prepared
    | quit i => exact kept_ended kept i s.commands kept.saved

end Steps

section Publications
variable {ι : Type} [DecidableEq ι] {runs : ι → PipelineCall} {blake3 : List UInt8 → Fingerprint}

theorem persist_symbols {out : Surroundings} {request : PipelineRequest} {env : Environment Shared} {shared : Shared}
    {commands : Option CommandFile} {result : PipelineResult} {job : Job} :
    (persist out request env blake3 shared commands result job).symbols = (indexDbStore env blake3 job shared).2 := by
  unfold persist
  dsimp only
  split_ifs <;> rfl

theorem persist_commands {out : Surroundings} {request : PipelineRequest} {env : Environment Shared} {shared : Shared}
    {commands : Option CommandFile} {result : PipelineResult} {job : Job} :
    (persist out request env blake3 shared commands result job).commands = commands ∨
      request.storage = .storeSymbolsAndCommand ∧ (persist out request env blake3 shared commands result job).commands =
        (storeCommand out request result.command commands).2 := by
  unfold persist
  dsimp only
  split_ifs with failed alone unsaved
  · exact .inl rfl
  · exact .inl rfl
  · exact .inr ⟨not_not.mp alone,rfl⟩
  · exact .inr ⟨not_not.mp alone,rfl⟩

/-- What a run of the pipeline publishes are its steps: each of its commits that changes a row is the step with the
symbols, from any state with the tables before it, and the commands change by the step with the command. -/
theorem pipeline_steps (i : ι) (env : Environment Shared) (shared : Shared) (commands : Option CommandFile) :
    (∀ x ∈ (indexPipelineRun (runs i).out (runs i).request env blake3 shared commands).symbols.history, x.own = true →
      x.after.db = x.before.db ∨ ∀ s : Databases ι, s.symbols = x.before.db → s.phase i = .started →
        Step runs blake3 s ⟨x.after.db,s.commands,Function.update s.phase i .stored⟩) ∧
    ((indexPipelineRun (runs i).out (runs i).request env blake3 shared commands).commands = commands ∨
      ∀ s : Databases ι, s.commands = commands → s.phase i = .stored → Step runs blake3 s
        ⟨s.symbols,(indexPipelineRun (runs i).out (runs i).request env blake3 shared commands).commands,
          Function.update s.phase i .ended⟩) := by
  unfold indexPipelineRun
  cases prepared : prepare (runs i).out (runs i).request with
  | finished ret result =>
    dsimp only
    refine ⟨fun x member => ?_,.inl rfl⟩
    cases member
  | ready result job =>
    dsimp only
    rw [persist_symbols]
    constructor
    · intro x member own
      rcases store_publishes env blake3 job shared with ⟨_,first,merged,last,history,_,_,special,others⟩ | ⟨_,quiet⟩
      · rw [history] at member
        by_cases special_one : x = merged
        · subst special_one
          refine .inr (fun s here started => ?_)
          exact .symbols s i result job x.after.db started prepared (here ▸ special.2)
        · refine .inl (others x ?_ own).1
          simpa [Connection.new,special_one] using member
      · obtain ⟨commits,history,_,allowed⟩ := quiet
        rw [history] at member
        exact .inl (allowed x (by simpa [Connection.new] using member) own).1
    · rcases @persist_commands blake3 (runs i).out (runs i).request env shared commands result job with same | ⟨both,same⟩
      · exact .inl same
      · refine .inr (fun s here stored => ?_)
        rw [same,← here]
        exact .command s i result stored ⟨job,prepared⟩ both

end Publications
end Semindex.Update
