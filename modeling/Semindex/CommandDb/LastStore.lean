import Semindex.CommandDb.Storage
import Mathlib.Data.List.Find

/-! The command database as a map: what a load gives after any sequence of stores.
The reference names files and directories by what `realpath` says of them where
the caller stands. -/
namespace Semindex.CommandDb
open Semindex.Relational Semindex.Support Semindex.Delimited

section Names
variable {disk : Disk} {cwd directory name path : CString}

/-- The file of this name as seen from a directory. -/
def Disk.fileFrom (disk : Disk) (cwd directory name : CString) : Option CString :=
  if name.rooted then disk.realpath cwd name
  else (disk.realpath cwd directory).bind (fun path => disk.realpath path name)

theorem absolutePath_found (found : disk.realpath cwd (if name.rooted then name else directory.join name) = some path) :
    commandDbAbsolutePath disk cwd directory name = path := by
  rw [commandDbAbsolutePath,found,Option.getD_some]

/-- Both sides use the canonical name as the key, whatever directory they start from. -/
theorem absFile_found (lawful : disk.Lawful) {call : StoreCall}
    (found : disk.fileFrom call.cwd call.directory call.file = some path) : call.absFile disk = path := by
  apply absolutePath_found
  unfold Disk.fileFrom at found
  split at found
  · rename_i rooted
    rw [if_pos rooted]
    exact found
  · rename_i relative
    obtain ⟨directory,known,below⟩ := Option.bind_eq_some_iff.mp found
    have named : call.file ≠ .empty := fun none => by simp [none,lawful.empty] at below
    rw [if_neg relative,StoreCall.absDirectory,known,Option.getD_some]
    have fixed := lawful.fixed _ call.cwd _ _ known
    rw [lawful.relative _ _ _ _ (by simpa using relative) named fixed]
    exact below

theorem loadKey (lawful : disk.Lawful) (named : name ≠ .empty) :
    disk.realpath cwd (if name.rooted then name else CString.dot.join name) = disk.realpath cwd name := by
  split
  · rfl
  · rename_i relative
    exact lawful.dotted _ _ (by simpa using relative) named

/-- Without a canonical name the key of the reader is no name of a file. -/
theorem loadKey_unknown (lawful : disk.Lawful) (named : name ≠ .empty) (unknown : disk.realpath cwd name = none)
    {other : CString} (canonical : disk.realpath other file = some path) :
    commandDbAbsolutePath disk cwd .dot name ≠ path := by
  have resolved := @loadKey disk cwd name lawful named
  rw [unknown] at resolved
  rw [commandDbAbsolutePath,resolved,Option.getD_none]
  intro same
  split at same
  · subst same
    rw [lawful.fixed _ cwd _ _ canonical] at unknown
    cases unknown
  · have slashed := lawful.rooted _ _ _ canonical
    rw [← same] at slashed
    cases slashed

end Names

section Sequences
variable {disk : Disk} {file stored : Option CommandFile} {calls : List StoreCall} {call : StoreCall}

-- what the readers see
def rows (file : Option CommandFile) : Option Commands := (commandDbOpenReader file).bind CommandFile.commands

def created : CommandFile := ⟨schemaVersion,some ∅⟩

/-- A store changes one row, and creates the file where it is missing. -/
theorem store_rows {opened : CommandFile} (done : commandDbStore disk call file = some opened)
    {commands : Commands} (before : rows file = some commands ∨ file = none ∧ commands = ∅) :
    call.variant ≠ .empty ∧ call.argv ≠ [] ∧ rows (some opened) = some (commands.insert (call.variant,call.absFile disk)
      (call.absDirectory disk,packing call.argv)) := by
  unfold commandDbStore at done
  split_ifs at done with refused
  obtain ⟨variant,argv⟩ := not_or.mp refused
  obtain ⟨blob,packed,done⟩ := Option.bind_eq_some_iff.mp done
  obtain ⟨writable,openedWriter,done⟩ := Option.bind_eq_some_iff.mp done
  obtain ⟨table,present,done⟩ := Option.bind_eq_some_iff.mp done
  cases Option.some.inj done
  have blobs := pack_eq packed
  have same : writable.userVersion = schemaVersion ∧ table = commands := by
    rcases before with known | ⟨missing,empty⟩
    · obtain ⟨old,readable,has⟩ := Option.bind_eq_some_iff.mp known
      obtain ⟨existing,exists_,version⟩ := Option.bind_eq_some_iff.mp readable
      split_ifs at version with current
      cases version
      subst exists_
      rw [openWriter,Option.getD_some,initSchema,if_pos current] at openedWriter
      cases openedWriter
      exact ⟨current,Option.some.inj (present.symm.trans has)⟩
    · subst missing empty
      cases openedWriter
      exact ⟨rfl,(Option.some.inj present).symm⟩
  refine ⟨variant,argv,?_⟩
  rw [← same.2,← blobs]
  simp [rows,commandDbOpenReader,same.1]

/-- What the rows are after these calls: for each key the last call with it. -/
structure Written (disk : Disk) (calls : List StoreCall) (file : Option CommandFile) (commands : Commands) : Prop where
  opened : rows file = some commands ∨ file = none ∧ commands = ∅
  filled : ∀ call ∈ calls, call.argv ≠ []
  last : ∀ key, commands.lookup key = (calls.reverse.find? (fun call => (call.variant,call.absFile disk) = key)).map
    (fun call => (call.absDirectory disk,packing call.argv))

theorem written_start (fresh : file = none ∨ file = some created) : Written disk [] file ∅ := by
  refine ⟨?_,by simp,by simp⟩
  rcases fresh with rfl | rfl
  · exact .inr ⟨rfl,rfl⟩
  · exact .inl rfl

theorem written_step {opened : CommandFile} {commands : Commands} (written : Written disk calls file commands)
    (done : commandDbStore disk call file = some opened) :
    ∃ after, Written disk (calls ++ [call]) (some opened) after := by
  obtain ⟨_,argv,row⟩ := store_rows done written.opened
  refine ⟨_,.inl row,?_,?_⟩
  · intro other member
    rcases List.mem_append.mp member with old | new
    · exact written.filled other old
    · rw [List.mem_singleton.mp new]
      exact argv
  · intro key
    rw [List.reverse_append,List.reverse_singleton,List.singleton_append,List.find?_cons]
    by_cases same : (call.variant,call.absFile disk) = key
    · rw [← same,AList.lookup_insert]
      simp
    · rw [AList.lookup_insert_ne (Ne.symm same),written.last key]
      simp [same]

theorem written_run {rest : List StoreCall} {commands : Commands} (written : Written disk calls file commands)
    (done : storeAll disk file rest = some stored) : ∃ after, Written disk (calls ++ rest) stored after := by
  induction rest generalizing calls file commands with
  | nil =>
    cases done
    rw [List.append_nil]
    exact ⟨commands,written⟩
  | cons call rest ih =>
    obtain ⟨opened,first,others⟩ := Option.bind_eq_some_iff.mp done
    obtain ⟨after,next⟩ := written_step written first
    have run := ih next others
    rwa [List.append_assoc,List.singleton_append] at run

-- the last call for this variant and this file
def lastStore (disk : Disk) (calls : List StoreCall) (variant path : CString) : Option StoreCall :=
  calls.reverse.find? (fun call => call.variant = variant ∧ disk.fileFrom call.cwd call.directory call.file = some path)

theorem lastStore_key (lawful : disk.Lawful)
    (existing : ∀ call ∈ calls, (disk.fileFrom call.cwd call.directory call.file).isSome) (variant path : CString) :
    calls.reverse.find? (fun call => (call.variant,call.absFile disk) = (variant,path)) =
      lastStore disk calls variant path := by
  unfold lastStore
  apply List.find?_congr
  intro call member
  obtain ⟨file,found⟩ := Option.isSome_iff_exists.mp (existing call (List.mem_reverse.mp member))
  simp [absFile_found lawful found,found]

/-- The command that a call stands for: its directory by its canonical name, where it has one. -/
def StoreCall.command (disk : Disk) (path : CString) (call : StoreCall) : Command :=
  ⟨(disk.realpath call.cwd call.directory).getD call.directory,path,call.argv⟩

/-- What a map in which the last store wins gives. -/
def lastLoaded (disk : Disk) (calls : List StoreCall) (cwd variant name : CString) : Loaded :=
  match disk.realpath cwd name with
  | none => .absent
  | some path => ((lastStore disk calls variant path).map (StoreCall.command disk path)).elim .absent .found

theorem load_last (lawful : disk.Lawful) {commands : Commands} (written : Written disk calls file commands)
    (present : file ≠ none)
    (existing : ∀ call ∈ calls, (disk.fileFrom call.cwd call.directory call.file).isSome) (cwd : CString)
    {variant name : CString} (chosen : variant ≠ .empty) (named : name ≠ .empty) :
    commandDbLoad disk cwd file variant name = lastLoaded disk calls cwd variant name := by
  have opened : rows file = some commands := written.opened.resolve_right (fun missing => present missing.1)
  have looked (key : CString) : commands.lookup (variant,key) = (lastStore disk calls variant key).map
      (fun call => (call.absDirectory disk,packing call.argv)) := by
    rw [written.last,lastStore_key lawful existing]
  unfold rows at opened
  unfold commandDbLoad lastLoaded
  rw [if_neg chosen,opened]
  dsimp only
  rw [looked]
  cases found : disk.realpath cwd name with
  | none =>
    have nothing : lastStore disk calls variant (commandDbAbsolutePath disk cwd .dot name) = none := by
      refine List.find?_eq_none.mpr (fun call member => ?_)
      obtain ⟨path,known⟩ := Option.isSome_iff_exists.mp (existing call (List.mem_reverse.mp member))
      intro both
      obtain ⟨_,same⟩ := of_decide_eq_true both
      rw [known] at same
      unfold Disk.fileFrom at known
      split at known
      · exact loadKey_unknown lawful named found known (Option.some.inj same).symm
      · obtain ⟨_,_,below⟩ := Option.bind_eq_some_iff.mp known
        exact loadKey_unknown lawful named found below (Option.some.inj same).symm
    rw [nothing]
    rfl
  | some path =>
    rw [absolutePath_found ((loadKey lawful named).trans found)]
    cases last : lastStore disk calls variant path with
    | none => simp [last]
    | some call =>
      have argv := written.filled call (List.mem_reverse.mp (List.mem_of_find?_eq_some last))
      have some : packing call.argv ≠ [] := fun none => by simpa [none] using packing_last argv
      simp [last,unpack_packing argv,some,StoreCall.command,StoreCall.absDirectory]

end Sequences

/-- The command database is a map in which the last store wins, and the blobs are exactly the argument vectors. The
callers of the reader look whether the file is there; the names are not empty. -/
theorem command_database_map {disk : Disk} (lawful : disk.Lawful) :
    (∀ start calls opened, start = none ∨ start = some created → storeAll disk start calls = some (some opened) →
      (∀ call ∈ calls, (disk.fileFrom call.cwd call.directory call.file).isSome) →
      ∀ cwd variant name, variant ≠ .empty → name ≠ .empty →
        commandDbLoad disk cwd (some opened) variant name = lastLoaded disk calls cwd variant name) ∧
    (∀ argv blob, argv ≠ [] → packArguments argv = some blob → unpackArguments blob = .unpacked argv) ∧
    ∀ blob, blob.length ≤ sizeMax → unpackArguments blob ≠ .outside ∧
      (unpackArguments blob = .rejected ↔ ¬∃ argv, argv ≠ [] ∧ packArguments argv = some blob) := by
  refine ⟨?_,?_,?_⟩
  · intro start calls opened fresh run existing cwd variant name chosen named
    obtain ⟨commands,written⟩ := written_run (written_start fresh) run
    exact load_last lawful written (by simp) existing cwd chosen named
  · intro argv blob present packed
    rw [pack_eq packed,unpack_packing present]
  · intro blob fits
    obtain ⟨inside,taken⟩ := unpackArguments_iff blob
    refine ⟨inside,?_,?_⟩
    · intro rejected both
      obtain ⟨argv,present,packed⟩ := both
      have accepted := (taken argv).mpr ⟨present,pack_eq packed⟩
      rw [rejected] at accepted
      cases accepted
    · intro none
      cases result : unpackArguments blob with
      | rejected => rfl
      | outside => exact (inside result).elim
      | unpacked argv =>
        obtain ⟨present,rfl⟩ := (taken argv).mp result
        exact (none ⟨argv,present,pack_fits fits⟩).elim

section Sample

def components (name : CString) : List (List Byte) :=
  (name.bytes.splitOn slash).filter (fun part => part ≠ [] ∧ part ≠ CString.dot.bytes)

-- the components that a name leads to
def target (cwd name : CString) : List (List Byte) := if name.rooted then components name else components cwd ++ components name

/-- The files of this name, without links and without `..`. -/
def plainDisk (files : List CString) : Disk where
  realpath cwd name :=
    if name = .empty then none
    else files.find? (fun file => components file = target cwd name)

theorem components_join (directory name : CString) :
    components (directory.join name) = components directory ++ components name := by
  unfold components CString.join
  rw [List.splitOn_append_cons_self,List.filter_append]

theorem rooted_join {directory : CString} (named : directory ≠ .empty) (name : CString) :
    (directory.join name).rooted = directory.rooted := by
  cases bytes : directory.bytes with
  | nil => exact (named (CString.ext bytes)).elim
  | cons b rest => simp [CString.rooted,CString.join,bytes]

theorem plainDisk_found {files : List CString} {cwd name path : CString}
    (found : (plainDisk files).realpath cwd name = some path) : name ≠ .empty ∧ path ∈ files ∧
      components path = target cwd name ∧ files.find? (fun file => components file = target cwd name) = some path := by
  by_cases empty : name = .empty
  · simp [plainDisk,empty] at found
  · change (if name = .empty then none else _) = _ at found
    rw [if_neg empty] at found
    have names := List.find?_some found
    exact ⟨empty,List.mem_of_find?_eq_some found,of_decide_eq_true names,found⟩

theorem plainDisk_lawful {files : List CString} (rooted : ∀ file ∈ files, file.rooted) : (plainDisk files).Lawful := by
  have filled (directory name : CString) : directory.join name ≠ .empty := by
    intro same
    simpa [CString.join,CString.empty] using congrArg CString.bytes same
  constructor
  · intro cwd name path found
    exact rooted path (plainDisk_found found).2.1
  · intro cwd other name path found
    obtain ⟨_,member,names,first⟩ := plainDisk_found found
    have slashed := rooted path member
    have named : path ≠ .empty := fun none => by simp [none,CString.rooted,CString.empty] at slashed
    have same : target other path = target cwd name := by rw [target,if_pos slashed,names]
    simp only [plainDisk]
    rw [if_neg named,same]
    exact first
  · intro cwd other name slashed
    simp [plainDisk,target,slashed]
  · intro cwd directory path name relative named found
    have relative : name.rooted = false := by simpa using relative
    obtain ⟨empty,member,names,_⟩ := plainDisk_found found
    have same : target cwd (directory.join name) = target path name := by
      have below : target path name = components path ++ components name := by simp [target,relative]
      rw [below,names,target,target,rooted_join empty,components_join]
      split <;> simp
    simp only [plainDisk]
    rw [if_neg (filled _ _),if_neg named,same]
  · intro cwd name relative named
    have relative : name.rooted = false := by simpa using relative
    have dotted : CString.dot ≠ .empty := by decide
    have nothing : components .dot = [] := by decide
    have plain : CString.dot.rooted = false := by decide
    have same : target cwd (CString.dot.join name) = target cwd name := by
      rw [target,target,rooted_join dotted,components_join,relative,nothing,plain,List.nil_append]
    simp only [plainDisk]
    rw [if_neg (filled _ _),if_neg named,same]
  · intro cwd
    simp [plainDisk]

def sampleDirectory : CString := ⟨[slash,100],by decide⟩
def sampleFile : CString := ⟨[slash,100,slash,102],by decide⟩
def sampleVariant : CString := ⟨[118],by decide⟩
def sampleName : CString := ⟨[102],by decide⟩
def sampleCompiler : CString := ⟨[99,99],by decide⟩

def sampleDisk : Disk := plainDisk [sampleDirectory,sampleFile]

-- by its path, and by its name in the directory with an empty argument
def sampleCalls : List StoreCall := [⟨sampleFile,sampleVariant,sampleDirectory,sampleFile,[sampleCompiler]⟩,
  ⟨sampleFile,sampleVariant,sampleDirectory,sampleName,[sampleCompiler,.empty]⟩]

theorem command_database_map_restored : ∃ opened, storeAll sampleDisk none sampleCalls = some (some opened) ∧
    commandDbLoad sampleDisk sampleDirectory (some opened) sampleVariant sampleName =
      .found ⟨sampleDirectory,sampleFile,[sampleCompiler,.empty]⟩ := by
  have lawful : sampleDisk.Lawful := plainDisk_lawful (by decide)
  have run : (storeAll sampleDisk none sampleCalls).join.isSome := by decide
  obtain ⟨opened,run⟩ := Option.isSome_iff_exists.mp run
  have run := Option.join_eq_some_iff.mp run
  refine ⟨opened,run,?_⟩
  rw [(command_database_map lawful).1 none sampleCalls opened (.inl rfl) run (by decide) sampleDirectory sampleVariant
    sampleName (by decide) (by decide)]
  decide

end Sample
end Semindex.CommandDb
