import Semindex.Support.Getopt
import Semindex.Tools.Home
import Semindex.Update.Pipeline

/-! The options that the indexing commands share, and the databases that they name or
leave to the defaults. -/
namespace Semindex.CommandDb
open Semindex.Support

-- the string that a memory begins with
def CString.ofBytes (bytes : List Byte) : CString :=
  ⟨bytes.takeWhile (· ≠ nul),fun inside => by simpa using List.mem_takeWhile_imp inside⟩

end Semindex.CommandDb

namespace Semindex.Tools
open Semindex.Support Semindex.CommandDb Semindex.Update

inductive IndexCommandOption where
  | noIncludeLocal | variant | commandsDatabase | noStoreCommand | trace | gitCommit | noGitCommit | root | database | scope
  deriving DecidableEq

structure IndexCommandOptions where
  database : Option CString
  commandsDatabase : Option CString
  variant : CString
  repositoryRoot : Option CString
  tracePath : Option CString
  gitCommit : Option CString
  scope : Parser.Scope
  gitCommitMode : PipelineGitCommit
  includeLocal : Bool
  storeCommand : Bool

def indexCommandOptionsInit : IndexCommandOptions where
  database := none
  commandsDatabase := none
  variant := .ofBytes (word "general")
  repositoryRoot := none
  tracePath := none
  gitCommit := none
  scope := .project
  gitCommitMode := .disabled
  includeLocal := true
  storeCommand := true

def parseScope (value : CString) : Option Parser.Scope :=
  if value.bytes = word "file" then some .file
  else if value.bytes = word "project" then some .project
  else if value.bytes = word "all" then some .all
  else none

-- `isxdigit`
def isHexDigit (c : Byte) : Bool := (48 ≤ c && c ≤ 57) || (65 ≤ c && c ≤ 70) || (97 ≤ c && c ≤ 102)

def parseGitCommit (value : CString) : Option PipelineGitCommit :=
  if value.bytes = word "auto" then some .auto
  else if value.bytes.length ≠ 40 ∧ value.bytes.length ≠ 64 then none
  else if value.bytes.all isHexDigit then some .explicit
  else none

/-- The options with this one, or none for -1. -/
def indexCommandParseOption (options : IndexCommandOptions) (option : IndexCommandOption) (argument : CString) :
    Option IndexCommandOptions :=
  match option with
  | .noIncludeLocal => some {options with includeLocal := false}
  | .variant => some {options with variant := argument}
  | .commandsDatabase => some {options with commandsDatabase := some argument}
  | .noStoreCommand => some {options with storeCommand := false}
  | .trace => some {options with tracePath := some argument}
  | .gitCommit => (parseGitCommit argument).map (fun mode =>
      {options with gitCommitMode := mode, gitCommit := if mode = .explicit then some argument else none})
  | .noGitCommit => some {options with gitCommitMode := .disabled, gitCommit := none}
  | .root => some {options with repositoryRoot := some argument}
  | .database => some {options with database := some argument}
  | .scope => (parseScope argument).map (fun scope => {options with scope := scope})

/-- The databases of a run. -/
structure DatabaseNames where
  symbols : Text
  commands : Option Text

def indexCommandPrepare (fs : FileSystem) (opensTrace : Bool) (options : IndexCommandOptions) (sourceFile : CString)
    (outputOnly : Bool) : Option DatabaseNames := do
  let symbols ← match options.database with
    | some database => some database.text
    | none => semindexDefaultDatabasePath fs (some sourceFile.text) symbolDatabase
  if options.variant = .empty then none
  else if options.tracePath.isSome && !opensTrace then none
  else
    let commands := match options.commandsDatabase with
      | some database => some database.text
      | none => if !outputOnly && options.storeCommand then some (commandDbDefaultPath symbols) else none
    some ⟨symbols,commands⟩

def indexCommandFillRequest (options : IndexCommandOptions) (request : PipelineRequest) : PipelineRequest :=
  { request with
    variant := options.variant
    repositoryRoot := options.repositoryRoot
    gitCommit := options.gitCommit
    scope := options.scope
    gitCommitMode := options.gitCommitMode
    includeLocal := options.includeLocal }

def indexCommandStorage (options : IndexCommandOptions) (outputOnly : Bool) : PipelineStorage :=
  if outputOnly then .outputOnly
  else if options.storeCommand then .storeSymbolsAndCommand
  else .storeSymbols

end Semindex.Tools
