import Semindex.Support.Utf8
import Semindex.Tools.CompilerCommand
import Semindex.Lsp.Diagnostics
import Semindex.Parser.Visitor

/-! `semindex.cpp`: one frontend run over a compiler command, and its result. The
compiler and the loader of compilation databases are a parameter. -/
namespace Semindex.CommandDb
open Semindex.Support

/-- The text of a C string: its code points, and byte by byte where it is not UTF-8. -/
def CString.text (s : CString) : Text := (decodeUtf8 s.bytes).getD (s.bytes.map (fun b => Char.ofNat b.toNat))

def CString.ofText (text : Text) : CString :=
  ⟨(utf8 text).takeWhile (· ≠ nul),fun inside => by simpa using List.mem_takeWhile_imp inside⟩

end Semindex.CommandDb

namespace Semindex.Update
open Semindex.Support Semindex.CommandDb Semindex.Tools
open Semindex.Lsp.Diagnostics (Diagnostic)

section Sanitize

def joinedArgs : List (List Byte) :=
  ["--arch=","-mpreferred-stack-boundary=","-mindirect-branch=","-fzero-init-padding-bits=",
    "-fdiagnostics-show-context=","-fmin-function-alignment=","-falign-jumps="].map word

def unsupportedArgs : List (List Byte) :=
  ["-mindirect-branch-register","-fno-allow-store-data-races","-fconserve-stack"].map word

def isUnsupportedJoinedArg (arg : List Byte) : Bool :=
  joinedArgs.any (fun start => start.isPrefixOf arg) || unsupportedArgs.any (fun known => arg = known)

def unsupportedArgTakesValue (arg : List Byte) : Bool := arg = word "--arch"

def isWarningErrorArg (arg : List Byte) : Bool := arg = word "-Werror" || (word "-Werror=").isPrefixOf arg

def isPreprocessedAssembly (file : CString) : Bool := hasSuffix file.bytes (word ".S")

def isX8664BuiltinDefinition (value : List Byte) : Bool :=
  (["__x86_64__","__x86_64","__amd64__","__amd64"].map word).any (fun name => value.takeWhile (· ≠ 61) = name)

-- `skip` is `i++` inside the loop
def sanitizeArgs (skip : Bool) : List CString → List CString
  | [] => []
  | arg::args =>
    if skip then sanitizeArgs false args
    else if arg.bytes = word "--" then sanitizeArgs false args
    else if isUnsupportedJoinedArg arg.bytes then sanitizeArgs false args
    else if isWarningErrorArg arg.bytes then sanitizeArgs false args
    else if arg.bytes = word "-D" && args.head?.any (fun next => isX8664BuiltinDefinition next.bytes) then
      sanitizeArgs true args
    else if (word "-D").isPrefixOf arg.bytes && isX8664BuiltinDefinition (arg.bytes.drop 2) then
      sanitizeArgs false args
    else if unsupportedArgTakesValue arg.bytes then sanitizeArgs true args
    else arg::sanitizeArgs false args

def quietArgs : List CString :=
  ["-w","-Wno-error","-Wno-unknown-warning-option","-Wno-error=ignored-optimization-argument",
    "-Wno-builtin-macro-redefined"].map (fun arg => CString.ofText arg.toList)

def sanitizeCommandLine (input : List CString) : List CString := sanitizeArgs false input ++ quietArgs

end Sanitize

structure FrontendOptions where
  scope : Parser.Scope
  details : Bool
  includeLocal : Bool

/-- A run of the tool over one command. There is an index where a translation unit was handled. -/
structure ToolRun where
  ret : Int
  warnings : Nat
  errors : Nat
  fatal : Bool
  index : Option Index
  diagnostics : List Diagnostic

/-- The compiler, and what it loads from the compilation database of a directory. -/
structure Toolchain where
  run : FrontendOptions → Command → Bool → ToolRun
  loadFromDirectory : List Byte → Option (CString → List (CString × List CString))

-- `SEMINDEX_INDEX_PARTIAL` is `incomplete`
inductive IndexStatus where
  | clean | incomplete | failed
  deriving DecidableEq

structure IndexResult where
  status : IndexStatus
  warnings : Nat
  errors : Nat
  fatal : Bool

/-- The object of one index run. -/
structure SemindexIndex where
  options : FrontendOptions
  command : Option Command
  result : IndexResult
  index : Option Index
  diagnostics : List Diagnostic

def semindexCreate (options : FrontendOptions) : SemindexIndex := ⟨options,none,⟨.failed,0,0,false⟩,none,[]⟩

section Run
variable (tools : Toolchain) (s : SemindexIndex)

def semindexIndexCommand (command : Option Command) : Int × SemindexIndex :=
  match command with
  | none => (-1,s)
  | some command =>
    if command.argv = [] then (-1,s)
    else
      let run := tools.run s.options {command with argv := sanitizeCommandLine command.argv}
        (isPreprocessedAssembly command.file)
      let status : IndexStatus := if run.ret = 0 && run.index.isSome && run.errors = 0 then .clean
        else if run.index.isSome then .incomplete else .failed
      (run.ret,⟨s.options,some command,⟨status,run.warnings,run.errors,run.fatal⟩,run.index,run.diagnostics⟩)

def compileCommandsName : List Byte := word "compile_commands.json"

-- the names of a path: what stands behind the last separator, and what stands before it
def parentPath (path : List Byte) : List Byte :=
  let front := path.reverse.dropWhile (· ≠ slash)
  let parent := front.dropWhile (· = slash)
  if parent = [] then front.take 1 else parent.reverse

omit tools s in
theorem parentPath_subset {path : List Byte} {b : Byte} (member : b ∈ parentPath path) : b ∈ path := by
  have front : ∀ b ∈ path.reverse.dropWhile (· ≠ slash), b ∈ path := fun b inside =>
    List.mem_reverse.mp ((List.dropWhile_sublist _).subset inside)
  unfold parentPath at member
  dsimp only at member
  split at member
  · exact front b (List.mem_of_mem_take member)
  · exact front b ((List.dropWhile_sublist _).subset (List.mem_reverse.mp member))

def compileCommandsDirectory (path : List Byte) : List Byte :=
  let name := (path.reverse.takeWhile (· ≠ slash)).reverse
  let directory := if name = compileCommandsName then parentPath path else path
  if directory = [] then word "." else directory

def loadCompileCommands (compileCommands : Option CString) : Option (CString → List (CString × List CString)) :=
  match compileCommands with
  | none => none
  | some path => if path.bytes = [] then none else tools.loadFromDirectory (compileCommandsDirectory path.bytes)

-- the first of the commands for the file, under the name that was asked for
def semindexIndexFile (compileCommands : Option CString) (sourceFile : CString) : Int × SemindexIndex :=
  match loadCompileCommands tools compileCommands with
  | none => (-1,s)
  | some commands =>
    match commands sourceFile with
    | [] => (-1,s)
    | (directory,argv)::_ => semindexIndexCommand tools s (some ⟨directory,sourceFile,argv⟩)

end Run
end Semindex.Update
