import Semindex.Update.Saved

/-! `LspIndexer`: the updates of a session of the language server, and the overlay
they leave. Other processes may write both databases between any two of them, and
the workspace may move. -/
namespace Semindex.Lsp
open Semindex.Support Semindex.Relational Semindex.IndexDb Semindex.CommandDb Semindex.Update Semindex.Tools

structure LspIndexer where
  variant : CString
  compileCommandsExplicit : Bool
  updater : Updater
  overlays : LspOverlay

def newLspIndexer (compileCommands variant : CString) (includeLocal : Bool) : LspIndexer :=
  ⟨variant,compileCommands ≠ .empty,⟨.empty,compileCommands,true,includeLocal⟩,⟨∅⟩⟩

-- `path / "compile_commands.json"`
def compileCommandsOf (root : CString) : CString :=
  let name := CString.ofText "compile_commands.json".toList
  if root = .empty then name
  else if root.bytes.getLast? = some slash then ⟨root.bytes ++ name.bytes,by simp [root.ends,name.ends]⟩
  else root.join name

/-- What one update meets: its process, its connections, and both databases as they are by then. -/
structure Turn where
  out : Surroundings
  env : Environment Shared
  unreadable : Bool
  looked : Option CommandFile
  shared : Shared
  commands : Option CommandFile

inductive SessionEvent where
  | setWorkspaceRoot (fs : FileSystem) (isRegularFile : CString → Bool) (root : CString)
  | update (turn : Turn) (file : CString)

namespace LspIndexer
variable (blake3 : List UInt8 → Fingerprint) (indexer : LspIndexer)

def setWorkspaceRoot (fs : FileSystem) (isRegularFile : CString → Bool) (root : CString) : LspIndexer :=
  let projectRoot := (repositoryRoot fs (some root.text)).elim root CString.ofText
  let updater := {indexer.updater with repositoryRoot := projectRoot}
  if indexer.compileCommandsExplicit then {indexer with updater}
  else if isRegularFile (compileCommandsOf projectRoot) then
    {indexer with updater := {updater with compileCommands := compileCommandsOf projectRoot}}
  else {indexer with updater}

def request (file : CString) : UpdateRequest := ⟨file,indexer.variant,0,true,false⟩

def updated (turn : Turn) (file : CString) : Updated :=
  indexer.updater.update turn.out (indexer.request file) turn.env blake3 turn.unreadable turn.looked turn.shared turn.commands

def update (turn : Turn) (file : CString) : LspIndexer :=
  let result := (indexer.updated blake3 turn file).result
  {indexer with overlays :=
    match result.transientIndex with
    | some s => indexer.overlays.replace file.text result.directory.text (s.index.getD emptyIndex)
    | none => indexer.overlays.erase file.text}

end LspIndexer

/-- An update of a session: the indexer it found, what it met, and the file. -/
structure Performed where
  indexer : LspIndexer
  turn : Turn
  file : CString

def Performed.updated (blake3 : List UInt8 → Fingerprint) (done : Performed) : Updated :=
  done.indexer.updated blake3 done.turn done.file

def Performed.resolution (done : Performed) : Except (List Byte) ResolvedCommand :=
  resolve done.turn.out done.indexer.updater.resolver done.turn.unreadable done.turn.looked done.file done.indexer.variant

structure Session where
  indexer : LspIndexer
  performed : List Performed

section Session
variable (blake3 : List UInt8 → Fingerprint)

-- the last update comes first
def Session.next (session : Session) : SessionEvent → Session
  | .setWorkspaceRoot fs isRegularFile root =>
    {session with indexer := session.indexer.setWorkspaceRoot fs isRegularFile root}
  | .update turn file =>
    ⟨session.indexer.update blake3 turn file,⟨session.indexer,turn,file⟩::session.performed⟩

def Session.run (session : Session) (events : List SessionEvent) : Session := events.foldl (Session.next blake3) session

def newSession (compileCommands variant : CString) (includeLocal : Bool) : Session :=
  ⟨newLspIndexer compileCommands variant includeLocal,[]⟩

/-- The last update of the file, by whatever name. -/
def Session.lastUpdate (session : Session) (path : Text) : Option Performed :=
  session.performed.find? (fun done => overlayKey done.file.text = overlayKey path)

/-- What the overlay has of a file once it was updated. -/
def Performed.entry (path : Text) (done : Performed) : Option (List OverlayRecord) :=
  (done.updated blake3).result.transientIndex.map (fun s =>
    mainEntries path (done.updated blake3).result.directory.text (s.index.getD emptyIndex))

/-- The overlay is that of the last updates. -/
def Session.Current (session : Session) : Prop :=
  ∀ path, session.indexer.overlays.entry path = (session.lastUpdate path).bind (Performed.entry blake3 path)

variable {blake3} {session : Session}

theorem mainEntries_same {path other directory : Text} {index : Index} (same : overlayKey path = overlayKey other) :
    mainEntries path directory index = mainEntries other directory index := by
  unfold mainEntries
  rw [same]

theorem current_next (current : session.Current blake3) (event : SessionEvent) :
    (session.next blake3 event).Current blake3 := by
  intro path
  cases event with
  | setWorkspaceRoot fs isRegularFile root =>
    have same : (session.indexer.setWorkspaceRoot fs isRegularFile root).overlays = session.indexer.overlays := by
      unfold LspIndexer.setWorkspaceRoot
      dsimp only
      split_ifs <;> rfl
    change (session.indexer.setWorkspaceRoot fs isRegularFile root).overlays.entry path = _
    rw [same]
    exact current path
  | update turn file =>
    have last : (session.next blake3 (.update turn file)).lastUpdate path =
        if overlayKey file.text = overlayKey path then some ⟨session.indexer,turn,file⟩ else session.lastUpdate path := by
      unfold Session.lastUpdate Session.next
      rw [List.find?_cons]
      by_cases same : overlayKey file.text = overlayKey path <;> simp [same]
    rw [last]
    change (session.indexer.update blake3 turn file).overlays.entry path = _
    unfold LspIndexer.update LspOverlay.entry
    dsimp only
    by_cases same : overlayKey file.text = overlayKey path
    · rw [if_pos same,Option.bind_some]
      unfold Performed.entry Performed.updated
      cases (session.indexer.updated blake3 turn file).result.transientIndex with
      | none =>
        rw [← same]
        exact AList.lookup_erase _ _
      | some s =>
        rw [← same]
        refine (AList.lookup_insert _).trans ?_
        rw [Option.map_some,mainEntries_same same]
    · rw [if_neg same,← current path]
      split
      · exact AList.lookup_insert_ne (Ne.symm same)
      · exact AList.lookup_erase_ne (Ne.symm same)

theorem current_run (current : session.Current blake3) (events : List SessionEvent) :
    (session.run blake3 events).Current blake3 := by
  induction events generalizing session with
  | nil => exact current
  | cons event events ih => exact ih (current_next current event)

theorem current_new (compileCommands variant : CString) (includeLocal : Bool) :
    (newSession compileCommands variant includeLocal).Current blake3 := by
  intro path
  exact AList.lookup_empty _

/-- What an update of a session leaves, by itself. -/
theorem performed_settled (done : Performed) (s : SemindexIndex)
    (handed : (done.updated blake3).result.transientIndex = some s) :
    (done.updated blake3).result.status ≠ .failed ∧ Since SchemaCommit (.new done.turn.shared) (done.updated blake3).symbols ∧
      (done.updated blake3).commands = done.turn.commands ∧
      ∃ known, done.resolution = .ok known ∧ known.source = .document ∧
        s = (frontendRun done.turn.out (done.indexer.updater.pipelineRequest (done.indexer.request done.file) known)).2 := by
  have settled := update_settled done.turn.out done.indexer.updater (done.indexer.request done.file) done.turn.env blake3
    done.turn.unreadable done.turn.looked done.turn.shared done.turn.commands
  obtain ⟨status,since,unchanged,known,resolved,made,_,source⟩ := settled.handed s handed
  refine ⟨status,since,unchanged,known,?_,?_,made.symm⟩
  · exact (if_neg (by simp [LspIndexer.request])).symm.trans resolved
  · exact source.resolve_right (fun partly => by cases partly.1)

end Session

section Answers
variable (blake3 : List UInt8 → Fingerprint)

-- the session of a server with these options after these events
def sessionAfter (compileCommands variant : CString) (includeLocal : Bool) (events : List SessionEvent) : Session :=
  (newSession compileCommands variant includeLocal).run blake3 events

/-- In every session the overlay has a file exactly where the last update of it handed its index back. That update
resolved the file to itself, without a command, and left both databases alone. -/
theorem overlay_last_update (compileCommands variant : CString) (includeLocal : Bool) (events : List SessionEvent)
    (path : Text) :
    (∀ records, (sessionAfter blake3 compileCommands variant includeLocal events).indexer.overlays.entry path = some records ↔
      ∃ done, (sessionAfter blake3 compileCommands variant includeLocal events).lastUpdate path = some done ∧
        ∃ s, (done.updated blake3).result.transientIndex = some s ∧
          mainEntries path (done.updated blake3).result.directory.text (s.index.getD emptyIndex) = records) ∧
    ∀ done s, (sessionAfter blake3 compileCommands variant includeLocal events).lastUpdate path = some done →
      (done.updated blake3).result.transientIndex = some s →
      Since SchemaCommit (.new done.turn.shared) (done.updated blake3).symbols ∧
      (done.updated blake3).commands = done.turn.commands ∧
      ∃ known, done.resolution = .ok known ∧ known.source = .document ∧
        s = (frontendRun done.turn.out (done.indexer.updater.pipelineRequest (done.indexer.request done.file) known)).2 := by
  have current := current_run (@current_new blake3 compileCommands variant includeLocal) events
  refine ⟨fun records => ?_,fun done s _ handed => ?_⟩
  · rw [sessionAfter,current path,Option.bind_eq_some_iff]
    unfold Performed.entry
    refine exists_congr (fun done => and_congr_right (fun _ => ?_))
    rw [Option.map_eq_some_iff]
  · obtain ⟨_,rest⟩ := performed_settled done s handed
    exact rest

end Answers
end Semindex.Lsp
