import Semindex.Tools.IndexCommand

/-! Where a server finds its databases. Without options it reads what the commands write
for the files of the same home, wherever either of them is started. -/
namespace Semindex.Tools
open Semindex.CommandDb

structure ServerEnvironmentOptions where
  root : Text
  database : Text
  commandsDatabase : Text
  logfile : Text
  databaseExplicit : Bool
  createDatabase : Bool
  openDatabase : Bool

/-- What a server finds when it starts. -/
structure StartUp where
  fs : FileSystem
  cwd : Canonical
  opensLog : Text → Bool
  -- `std::filesystem::exists`, with its error
  inspects : Text → Except Text Bool
  creates : Text → Bool
  opens : Text → Bool

structure ServerEnvironment where
  database : Text
  commandsDatabase : Text
  logs : Bool

def createDatabase (start : StartUp) (database : Text) : Except Text Unit :=
  match start.inspects database with
  | .error error => .error ("failed to inspect database: ".toList ++ error)
  | .ok true => .ok ()
  | .ok false => if start.creates database then .ok () else .error "failed to create database".toList

def openDatabase (options : ServerEnvironmentOptions) (start : StartUp) (database : Text) : Except Text Unit := do
  if options.createDatabase then createDatabase start database
  if options.openDatabase && !start.opens database then .error "failed to open database".toList

def databasePath (options : ServerEnvironmentOptions) (start : StartUp) : Option Text :=
  if options.database ≠ [] then some options.database
  else semindexDefaultDatabasePath start.fs (some options.root) symbolDatabase

def initializeEnvironment (options : ServerEnvironmentOptions) (start : StartUp) : Except Text ServerEnvironment :=
  if options.databaseExplicit && options.database.isEmpty then .error "database path must not be empty".toList
  else
    match databasePath options start with
    | none => .error "failed to allocate database path".toList
    | some database =>
      let commands := if options.commandsDatabase ≠ [] then options.commandsDatabase else commandDbDefaultPath database
      let environment : ServerEnvironment :=
        ⟨absoluteNormal start.cwd database,absoluteNormal start.cwd commands,!options.logfile.isEmpty⟩
      if environment.logs && !start.opensLog options.logfile then
        .error ("failed to open log file: ".toList ++ options.logfile)
      else (openDatabase options start environment.database).map (fun _ => environment)

section Defaults
variable {options : IndexCommandOptions} {sourceFile : CString} {fs : FileSystem} {opensTrace outputOnly : Bool}
  {names : DatabaseNames} {server : ServerEnvironmentOptions} {start : StartUp} {environment : ServerEnvironment}
  {cwd home other : Canonical}

theorem prepare_default (prepared : indexCommandPrepare fs opensTrace options sourceFile outputOnly = some names)
    (unnamed : options.database = none) (unsaved : options.commandsDatabase = none) :
    semindexDefaultDatabasePath fs (some sourceFile.text) symbolDatabase = some names.symbols ∧
      ∀ commands, names.commands = some commands → commands = commandDbDefaultPath names.symbols := by
  unfold indexCommandPrepare at prepared
  rw [unnamed,unsaved] at prepared
  obtain ⟨symbols,default,prepared⟩ := Option.bind_eq_some_iff.mp prepared
  dsimp only at prepared
  split_ifs at prepared <;> cases prepared
  · exact ⟨default,fun commands same => (Option.some.inj same).symm⟩
  · refine ⟨default,?_⟩
    intro commands same
    cases same

theorem initializeEnvironment_default (started : initializeEnvironment server start = .ok environment) (unnamed : server.database = [])
    (unsaved : server.commandsDatabase = []) : ∃ symbols,
      semindexDefaultDatabasePath start.fs (some server.root) symbolDatabase = some symbols ∧
      environment.database = absoluteNormal start.cwd symbols ∧
      environment.commandsDatabase = absoluteNormal start.cwd (commandDbDefaultPath symbols) := by
  unfold initializeEnvironment databasePath at started
  rw [unnamed,unsaved] at started
  split at started
  · cases started
  · rw [if_neg (by simp)] at started
    split at started
    · cases started
    · rename_i symbols default
      dsimp only at started
      split at started
      · cases started
      · rw [if_neg (by simp)] at started
        cases opened : openDatabase server start (absoluteNormal start.cwd symbols) with
        | error error =>
          rw [opened] at started
          cases started
        | ok done =>
          rw [opened] at started
          cases started
          exact ⟨symbols,default,rfl,rfl⟩

theorem databases_injective (same : home.symbols.text = other.symbols.text ∨ home.commands.text = other.commands.text) :
    home = other := by
  have names : home.names ++ [stateDirectory] = other.names ++ [stateDirectory] := by
    rcases same with symbols | commands
    · exact (List.append_inj' (congrArg Canonical.names (Canonical.text_injective symbols)) rfl).1
    · exact (List.append_inj' (congrArg Canonical.names (Canonical.text_injective commands)) rfl).1
  exact Canonical.names_injective (List.append_cancel_right names)

/-- Where nothing names the databases, a command for this source and a server with this root use the same ones if and
only if the source and the root have the same home: the nearest directory with a `.git` at or above them, else where
the process is. -/
theorem default_databases_agree (command : fs.Lawful) (serves : start.fs.Lawful)
    (prepared : indexCommandPrepare fs opensTrace options sourceFile outputOnly = some names)
    (unnamed : options.database = none) (unsaved : options.commandsDatabase = none)
    (started : initializeEnvironment server start = .ok environment) (noDatabase : server.database = [])
    (noCommands : server.commandsDatabase = []) (belongs : Home fs cwd sourceFile.text home)
    (rooted : Home start.fs start.cwd server.root other) :
    (absoluteNormal cwd names.symbols = environment.database ↔ home = other) ∧
    ∀ commands, names.commands = some commands →
      (absoluteNormal cwd commands = environment.commandsDatabase ↔ home = other) := by
  obtain ⟨default,saved⟩ := prepare_default prepared unnamed unsaved
  obtain ⟨symbols,serverDefault,database,commandsDatabase⟩ := initializeEnvironment_default started noDatabase noCommands
  have own := @default_databases fs cwd home command (some sourceFile.text) belongs
  have theirs := @default_databases start.fs start.cwd other serves (some server.root) rooted
  obtain ⟨_,same,here,beside⟩ := own
  cases default.symm.trans same
  obtain ⟨_,same,there,besides⟩ := theirs
  cases serverDefault.symm.trans same
  rw [database,commandsDatabase,here,there,besides]
  constructor
  · constructor
    · intro equal
      exact databases_injective (.inl equal)
    · intro equal
      rw [equal]
  · intro commands known
    rw [saved commands known,beside]
    constructor
    · intro equal
      exact databases_injective (.inr equal)
    · intro equal
      rw [equal]

end Defaults

section Sample

-- `/r` of `spelledFs` with a `.git` in it
def gitFs : FileSystem := { spelledFs with
  lstat := fun name => if name = "/r/.git".toList then some ⟨1,4,10,5,false⟩ else spelledFs.lstat name }

theorem gitFs_lawful : gitFs.Lawful :=
  ⟨spelledFs_lawful.canonical,spelledFs_lawful.fixed,spelledFs_lawful.root,spelledFs_lawful.statted,spelledFs_lawful.found,
    spelledFs_lawful.directory⟩

def sampleSource : CString := .ofBytes (word "h.h")

def sampleServer : ServerEnvironmentOptions := ⟨"/r".toList,[],[],[],false,true,true⟩

-- a server that is started in the root directory of the file system
def sampleStart : StartUp := ⟨gitFs,Canonical.root,fun _ => true,fun _ => .ok true,fun _ => true,fun _ => true⟩

theorem default_databases_agree_sample : ∃ names environment,
    indexCommandPrepare gitFs true indexCommandOptionsInit sampleSource false = some names ∧
      initializeEnvironment sampleServer sampleStart = .ok environment ∧
      absoluteNormal sampleRoot names.symbols = environment.database ∧
      ∀ commands, names.commands = some commands → absoluteNormal sampleRoot commands = environment.commandsDatabase := by
  have own : Home gitFs sampleRoot sampleSource.text sampleRoot :=
    home_of_root gitFs_lawful (by decide)
  have theirs : Home gitFs Canonical.root "/r".toList sampleRoot := home_of_root gitFs_lawful (by decide)
  have agree := @default_databases_agree indexCommandOptionsInit sampleSource gitFs true false _ sampleServer sampleStart _
    sampleRoot sampleRoot sampleRoot gitFs_lawful gitFs_lawful rfl rfl rfl rfl rfl rfl own theirs
  exact ⟨_,_,rfl,rfl,agree.1.mpr rfl,fun commands known => (agree.2 commands known).mpr rfl⟩

end Sample
end Semindex.Tools
