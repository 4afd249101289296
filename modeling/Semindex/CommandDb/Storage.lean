import Semindex.Relational.Table
import Semindex.Support.InputStream
import Mathlib.Algebra.Group.Nat.Defs

/-! `lib/semindex_command_db`: the database of compiler commands. The strings are
those of C, bytes without a NUL, and `realpath` is a parameter: what it gives for
a name in a process with this current directory. -/
namespace Semindex.CommandDb
open Semindex.Relational Semindex.Support Semindex.Delimited

/-- A string of C. -/
@[ext] structure CString where
  bytes : List Byte
  ends : nul ∉ bytes
  deriving DecidableEq

namespace CString

def empty : CString := ⟨[],by simp⟩
def dot : CString := ⟨[46],by decide⟩

def rooted (path : CString) : Bool := path.bytes.head? = some slash

-- `sqlite3_mprintf("%s/%s", directory, path)`
def join (directory path : CString) : CString := ⟨directory.bytes ++ slash::path.bytes,by
  have apart : nul ≠ slash := by decide
  simp [directory.ends,path.ends,apart]⟩

end CString

structure Disk where
  realpath : CString → CString → Option CString

/-- What `realpath` promises: canonical names are rooted and their own canonical names, and a relative name is one
below the current directory. -/
structure Disk.Lawful (disk : Disk) : Prop where
  rooted : ∀ cwd name path, disk.realpath cwd name = some path → path.rooted
  fixed : ∀ cwd other name path, disk.realpath cwd name = some path → disk.realpath other path = some path
  absolute : ∀ cwd other name, name.rooted → disk.realpath cwd name = disk.realpath other name
  relative : ∀ cwd directory path name, !name.rooted → name ≠ .empty → disk.realpath cwd directory = some path →
    disk.realpath cwd (directory.join name) = disk.realpath path name
  dotted : ∀ cwd name, !name.rooted → name ≠ .empty → disk.realpath cwd (CString.dot.join name) = disk.realpath cwd name
  empty : ∀ cwd, disk.realpath cwd .empty = none

section Arguments

def sizeMax : Nat := 2^64 - 1

def packedSize (total : Nat) : List CString → Option Nat
  | [] => some total
  | argument::rest =>
    let len := argument.bytes.length + 1
    if sizeMax - total < len then none else packedSize (total + len) rest

def packArguments (argv : List CString) : Option (List Byte) :=
  (packedSize 0 argv).map (fun _ => closed nul (argv.map CString.bytes))

-- the string at this offset; `none` where its NUL is not in the memory
def cString (memory : List Byte) (offset : Nat) : Option CString :=
  if nul ∈ memory.drop offset then
    some ⟨(memory.drop offset).takeWhile (· ≠ nul),fun inside => by simpa using List.mem_takeWhile_imp inside⟩
  else none

def argumentsFrom (memory : List Byte) : Nat → Nat → Option (List CString)
  | 0, _ => some []
  | argc+1, offset =>
    (cString memory offset).bind (fun argument =>
      (argumentsFrom memory argc (offset + argument.bytes.length + 1)).map (argument :: ·))

inductive Unpacked
  | rejected
  | outside -- a byte is read that the blob does not have
  | unpacked (argv : List CString)
  deriving DecidableEq

def unpackArguments (blob : List Byte) : Unpacked :=
  if blob = [] then .rejected
  else match blob[blob.length - 1]? with
    | none => .outside
    | some last =>
      if last ≠ nul then .rejected
      else match argumentsFrom blob (blob.count nul) 0 with
        | none => .outside
        | some argv => .unpacked argv

section Codec
variable {argv : List CString} {blob : List Byte}

-- the blob of these arguments
abbrev packing (argv : List CString) : List Byte := closed nul (argv.map CString.bytes)

theorem packing_cons (argument : CString) (rest : List CString) :
    packing (argument::rest) = argument.bytes ++ nul::packing rest := by simp [packing,closed]

theorem packing_last (present : argv ≠ []) : (packing argv).getLast? = some nul :=
  closed_last (by simpa using present)

theorem packing_count (argv : List CString) : (packing argv).count nul = argv.length := by
  rw [packing,count_closed (fun part member => ?_),List.length_map]
  obtain ⟨argument,_,rfl⟩ := List.mem_map.mp member
  exact argument.ends

/-- Every sequence of bytes with a NUL at its end is the packing of some arguments. -/
theorem packing_of_last (ended : blob.getLast? = some nul) : ∃ argv, argv ≠ [] ∧ blob = packing argv := by
  have fresh := @pieces_fresh _ _ nul blob
  refine ⟨(pieces nul blob).attach.map (fun part => ⟨part.1,fresh part.1 part.2⟩),?_,?_⟩
  · intro none
    have nothing : pieces nul blob = [] := by simpa using none
    have whole := closed_pieces ended
    rw [nothing] at whole
    subst whole
    cases ended
  · rw [packing,List.map_map]
    exact ((closed_pieces ended).symm.trans (congrArg (closed nul) (List.attach_map_subtype_val _).symm))

theorem cString_at (front : List Byte) (argument : CString) (rest : List Byte) :
    cString (front ++ (argument.bytes ++ nul::rest)) front.length = some argument := by
  have dropped := @List.drop_left _ front (argument.bytes ++ nul::rest)
  rw [cString,if_pos (by simp [dropped])]
  refine congrArg some (CString.ext ?_)
  change (List.drop front.length _).takeWhile _ = _
  rw [dropped]
  exact (takeWhile_cut argument.ends rest).1

theorem argumentsFrom_packing (front : List Byte) (argv : List CString) :
    argumentsFrom (front ++ packing argv) argv.length front.length = some argv := by
  induction argv generalizing front with
  | nil => rfl
  | cons argument rest ih =>
    have more := ih (front ++ (argument.bytes ++ [nul]))
    rw [List.append_assoc,List.append_assoc,List.singleton_append,← packing_cons] at more
    rw [List.length_cons,argumentsFrom,packing_cons,cString_at,Option.bind_some,← packing_cons]
    rw [show front.length + argument.bytes.length + 1 = (front ++ (argument.bytes ++ [nul])).length by simp; omega,more]
    rfl

theorem packing_injective {first second : List CString} (same : packing first = packing second) :
    first = second := by
  have counts := congrArg (List.count nul) same
  rw [packing_count,packing_count] at counts
  have left := argumentsFrom_packing [] first
  have right := argumentsFrom_packing [] second
  rw [same,counts,right] at left
  exact (Option.some.inj left).symm

theorem unpack_packing (present : argv ≠ []) : unpackArguments (packing argv) = .unpacked argv := by
  have last := packing_last present
  have some : packing argv ≠ [] := fun none => by simp [none] at last
  have read := argumentsFrom_packing [] argv
  rw [List.nil_append,List.length_nil] at read
  unfold unpackArguments
  rw [if_neg some,← List.getLast?_eq_getElem?,last,packing_count,read]
  simp

/-- What is taken apart is the packing of what comes out; nothing outside the blob is read. -/
theorem unpackArguments_iff (blob : List Byte) : unpackArguments blob ≠ .outside ∧
    ∀ argv, unpackArguments blob = .unpacked argv ↔ argv ≠ [] ∧ blob = packing argv := by
  by_cases ended : blob.getLast? = some nul
  · obtain ⟨argv,present,rfl⟩ := packing_of_last ended
    rw [unpack_packing present]
    refine ⟨by simp,fun other => ⟨?_,?_⟩⟩
    · intro same
      cases same
      exact ⟨present,rfl⟩
    · intro both
      rw [← unpack_packing present,both.2,unpack_packing both.1]
  · have rejected : unpackArguments blob = .rejected := by
      unfold unpackArguments
      split
      · rfl
      · rename_i present
        rw [← List.getLast?_eq_getElem?,List.getLast?_eq_some_getLast present] at *
        simp only [Option.some.injEq] at ended
        simp [ended]
    rw [rejected]
    refine ⟨by simp,fun argv => ⟨by simp,fun both => ?_⟩⟩
    rw [both.2] at ended
    exact (ended (packing_last both.1)).elim

/-- The size that is computed is the number of the bytes written, and it does not overflow. -/
theorem packedSize_iff {total size : Nat} (start : total ≤ sizeMax) :
    packedSize total argv = some size ↔ size = total + (packing argv).length ∧ size ≤ sizeMax := by
  induction argv generalizing total with
  | nil =>
    simp only [packedSize,packing,closed,List.map_nil,List.flatMap_nil,List.length_nil,Option.some.injEq]
    omega
  | cons argument rest ih =>
    have length : (packing (argument::rest)).length = argument.bytes.length + 1 + (packing rest).length := by
      rw [packing_cons]
      simp
      omega
    rw [packedSize,length]
    split
    · simp
      omega
    · rw [ih (by omega)]
      omega

theorem pack_fits (fits : (packing argv).length ≤ sizeMax) : packArguments argv = some (packing argv) := by
  have size := (@packedSize_iff argv 0 (packing argv).length (Nat.zero_le sizeMax)).mpr (by omega)
  rw [packArguments,size]
  rfl

theorem pack_eq (packed : packArguments argv = some blob) : blob = packing argv := by
  obtain ⟨_,_,same⟩ := Option.map_eq_some_iff.mp packed
  exact same.symm

end Codec
end Arguments

structure Command where
  directory : CString
  file : CString
  argv : List CString
  deriving DecidableEq

-- `PRIMARY KEY(variant, file)`, and the columns `directory` and `arguments`
abbrev Commands := Table (CString × CString) (CString × List Byte)

structure CommandFile where
  userVersion : Int
  commands : Option Commands

def schemaVersion : Int := 1

section Open

-- with a table of that name in the way `CREATE TABLE` fails, and the transaction is rolled back
def initSchema (file : CommandFile) : Option CommandFile :=
  if file.userVersion = schemaVersion then some file
  else if file.userVersion ≠ 0 then none
  else match file.commands with
    | some _ => none
    | none => some ⟨schemaVersion,some ∅⟩

-- a file that is missing is created
def openWriter (file : Option CommandFile) : Option CommandFile := initSchema (file.getD ⟨0,none⟩)

def commandDbOpenReader (file : Option CommandFile) : Option CommandFile :=
  file.bind (fun opened => if opened.userVersion = schemaVersion then some opened else none)

end Open

section Calls
variable (disk : Disk)

def commandDbAbsolutePath (cwd directory path : CString) : CString :=
  let joined := if path.rooted then path else directory.join path
  (disk.realpath cwd joined).getD joined

structure StoreCall where
  cwd : CString
  variant : CString
  directory : CString
  file : CString
  argv : List CString

namespace StoreCall
variable (call : StoreCall)

def absDirectory : CString := (disk.realpath call.cwd call.directory).getD call.directory

def absFile : CString := commandDbAbsolutePath disk call.cwd (call.absDirectory disk) call.file

end StoreCall

-- `none` is the return value -1
def commandDbStore (call : StoreCall) (file : Option CommandFile) : Option CommandFile :=
  if call.variant = .empty ∨ call.argv = [] then none
  else do
    let blob ← packArguments call.argv
    let opened ← openWriter file
    let commands ← opened.commands
    some { opened with commands := some (commands.insert (call.variant,call.absFile disk) (call.absDirectory disk,blob)) }

inductive Loaded
  | found (command : Command) -- 0
  | absent -- 1
  | failed -- -1
  | outside
  deriving DecidableEq

def commandDbLoad (cwd : CString) (file : Option CommandFile) (variant name : CString) : Loaded :=
  if variant = .empty then .failed
  else
    let absFile := commandDbAbsolutePath disk cwd .dot name
    match (commandDbOpenReader file).bind CommandFile.commands with
    | none => .failed
    | some commands =>
      match commands.lookup (variant,absFile) with
      | none => .absent
      | some (directory,blob) =>
        if blob = [] then .failed
        else match unpackArguments blob with
          | .rejected => .failed
          | .outside => .outside
          | .unpacked argv => .found ⟨directory,absFile,argv⟩

/-- A sequence of calls, all of them successful. -/
def storeAll : Option CommandFile → List StoreCall → Option (Option CommandFile)
  | file, [] => some file
  | file, call::rest => (commandDbStore disk call file).bind (fun stored => storeAll (some stored) rest)

end Calls
end Semindex.CommandDb
