import Semindex.Tools.IndexCommand
import Semindex.Update.Saved

/-! `semindex cc`: the wrapper that indexes a compiler command and then becomes the
compiler. Its own options stand before a `--`; a command without one is all the
compiler's. What is executed does not depend on the databases, only whether it is. -/
namespace Semindex.Tools.Cc
open Semindex.Support Semindex.CommandDb Semindex.Relational Semindex.IndexDb Semindex.Update

inductive IndexErrorPolicy where
  | warn | fail | ignore
  deriving DecidableEq

structure CcOptions where
  index : IndexCommandOptions
  errorPolicy : IndexErrorPolicy

inductive CcOption where
  | index (option : IndexCommandOption)
  | indexErrors
  | help
  deriving DecidableEq

def parseErrorPolicy (value : CString) : Option IndexErrorPolicy :=
  if value.bytes = word "warn" then some .warn
  else if value.bytes = word "fail" then some .fail
  else if value.bytes = word "ignore" then some .ignore
  else none

-- `long_options` and the short ones, in a build with or without libgit2
def longOptions (git : Bool) : List (Getopt.LongOption Byte CcOption) :=
  [⟨word "no-include-local",false,.index .noIncludeLocal⟩,⟨word "variant",true,.index .variant⟩,
    ⟨word "commands-database",true,.index .commandsDatabase⟩,⟨word "no-store-command",false,.index .noStoreCommand⟩,
    ⟨word "trace",true,.index .trace⟩,⟨word "index-errors",true,.indexErrors⟩,⟨word "root",true,.index .root⟩] ++
  (if git then [⟨word "git-commit",true,.index .gitCommit⟩,⟨word "no-git-commit",false,.index .noGitCommit⟩] else []) ++
  [⟨word "database",true,.index .database⟩,⟨word "scope",true,.index .scope⟩,⟨word "help",false,.help⟩]

def getopts (git : Bool) : Getopt.Options Byte CcOption where
  dash := dash
  equals := 61
  short := [(100,true,.index .database),(115,true,.index .scope),(104,false,.help)]
  long := longOptions git

inductive Parsed where
  | help
  | failed
  | options (options : CcOptions)

def takeOption (options : CcOptions) (given : Getopt.Given Byte CcOption) : Parsed :=
  let argument := (given.2.map CString.ofBytes).getD .empty
  match given.1 with
  | .indexErrors =>
    match parseErrorPolicy argument with
    | none => .failed
    | some policy => .options {options with errorPolicy := policy}
  | .help => .help
  | .index option =>
    match indexCommandParseOption options.index option argument with
    | none => .failed
    | some index => .options {options with index := index}

def takeOptions (options : CcOptions) : List (Getopt.Given Byte CcOption) → Parsed
  | [] => .options options
  | given::rest =>
    match takeOption options given with
    | .options options => takeOptions options rest
    | stopped => stopped

/-- Where the compiler's command starts among the arguments. -/
inductive ParsedCommand where
  | help
  | failed
  | compiler (options : CcOptions) (index : Nat)

def separated (args : List CString) : Bool := args.any (fun arg => arg.bytes = word "--")

-- `args` is `argv` without the name of the wrapper
def parseOptions (git : Bool) (args : List CString) (options : CcOptions) : ParsedCommand :=
  if args.map CString.bytes = [word "--help"] then .help
  -- raw invocations must not consume compiler options
  else if !separated args then .compiler options 0
  else
    let scan := (getopts git).scan (args.map CString.bytes)
    match takeOptions options scan.given with
    | .help => .help
    | .failed => .failed
    | .options options =>
      match scan.stop with
      | none => .failed
      | some index => if args.length ≤ index then .failed else .compiler options index

structure CcEnvironment where
  active : Bool
  database : Option CString
  commandsDatabase : Option CString
  variant : Option CString
  indexErrors : Option CString
  realCc : Option CString

def nonempty (value : Option CString) : Option CString := value.filter (fun text => text ≠ .empty)

/-- The options before those of the command line; none for an unknown policy. -/
def environmentOptions (environment : CcEnvironment) : Option CcOptions :=
  let index := { indexCommandOptionsInit with
    database := nonempty environment.database
    commandsDatabase := nonempty environment.commandsDatabase
    variant := environment.variant.getD indexCommandOptionsInit.variant }
  match environment.indexErrors with
  | none => some ⟨index,.warn⟩
  | some value => (parseErrorPolicy value).map (fun policy => ⟨index,policy⟩)

def compilerCommandDriverIsOmitted (arg : CString) : Bool :=
  arg.bytes = [] || arg.bytes.head? = some dash || arg.bytes.head? = some atSign || isSource arg

def driven (environment : CcEnvironment) (command : List CString) : List CString :=
  if command.head?.all compilerCommandDriverIsOmitted then
    (nonempty environment.realCc).getD (.ofBytes (word "cc"))::command
  else command

/-- What a run of the wrapper finds: its descriptors, the trace file, the databases under their names, and the
process that it becomes. -/
structure CcWorld where
  out : Surroundings
  env : Environment Shared
  blake3 : List Byte → Fingerprint
  shared : Text → Shared
  commands : Option Text → Option CommandFile
  redirects : Bool
  restores : Bool
  opensTrace : Bool
  closesTrace : Bool
  guards : Bool
  -- the error of `execvp`, and whether it is ENOENT
  execError : List CString → Option Bool

structure IndexRun where
  names : DatabaseNames
  request : PipelineRequest
  pipeline : PipelineRun

def indexRequest (options : CcOptions) (argv : List CString) (sourceFile : CString) : PipelineRequest :=
  indexCommandFillRequest options.index {
    input := .command
    storage := indexCommandStorage options.index false
    partials := .storePartial
    command := some ⟨.dot,sourceFile,argv⟩
    compileCommands := none
    sourceFile := sourceFile
    variant := .empty
    repositoryRoot := none
    gitCommit := none
    gitCommitMode := .disabled
    scope := .file
    includeLocal := false
    details := false }

-- whether it failed, and what ran
def runIndex (options : CcOptions) (argv : List CString) (sourceFile : CString) (world : CcWorld) :
    Bool × Option IndexRun :=
  if options.errorPolicy = .ignore && !world.redirects then (true,none)
  else
    match indexCommandPrepare world.out.fs world.opensTrace options.index sourceFile false with
    | none => (true,none)
    | some names =>
      let request := indexRequest options argv sourceFile
      let run := indexPipelineRun world.out request world.env world.blake3 (world.shared names.symbols)
        (world.commands names.commands)
      let finished := (options.index.tracePath.isNone || world.closesTrace) &&
        (options.errorPolicy ≠ .ignore || world.restores)
      (run.ret < 0 || !finished,some ⟨names,request,run⟩)

inductive Ending where
  | exits (status : Nat)
  | executes (argv : List CString) (environment : CcEnvironment)

def execCompiler (environment : CcEnvironment) (argv : List CString) (world : CcWorld) : Ending :=
  if !world.guards then .exits 1
  else
    match world.execError argv with
    | none => .executes argv {environment with active := true}
    | some missing => .exits (if missing then 127 else 1)

def compile (environment : CcEnvironment) (options : CcOptions) (argv : List CString) (world : CcWorld) :
    Ending × Option IndexRun :=
  match compilerCommandFindSource argv with
  | none => (execCompiler environment argv world,none)
  | some sourceFile =>
    let (failed,run) := runIndex options argv sourceFile world
    if failed && options.errorPolicy = .fail then (.exits 1,run)
    else (execCompiler environment argv world,run)

def cmdCc (git : Bool) (environment : CcEnvironment) (args : List CString) (world : CcWorld) : Ending × Option IndexRun :=
  if environment.active then (.exits 127,none)
  else
    match environmentOptions environment with
    | none => (.exits 1,none)
    | some options =>
      match parseOptions git args options with
      | .help => (.exits 0,none)
      | .failed => (.exits 1,none)
      | .compiler options index =>
        if options.index.variant = .empty then (.exits 1,none)
        else compile environment options (driven environment (args.drop index)) world

section Leaves
variable {git : Bool} {args rest : List CString} {initial options : CcOptions}

/-- The arguments that are left to the compiler, and the options by then. -/
inductive Leaves (git : Bool) (args : List CString) (initial : CcOptions) : CcOptions → List CString → Prop where
  | raw (unseparated : separated args = false) (asks : args.map CString.bytes ≠ [word "--help"]) :
      Leaves git args initial initial args
  | separated (front rest : List CString) (separator : CString) (given : List (Getopt.Given Byte CcOption))
      (options : CcOptions) (reads : (getopts git).Reads (front.map CString.bytes) given)
      (parsed : takeOptions initial given = .options options) (ends : separator.bytes = word "--") (present : rest ≠ [])
      (split : args = front ++ separator::rest) : Leaves git args initial options rest
  -- a `--` somewhere behind the compiler
  | direct (front rest : List CString) (compiler : CString) (given : List (Getopt.Given Byte CcOption))
      (options : CcOptions) (reads : (getopts git).Reads (front.map CString.bytes) given)
      (parsed : takeOptions initial given = .options options) (operand : (getopts git).element compiler.bytes = .operand)
      (later : separated args = true) (split : args = front ++ compiler::rest) :
      Leaves git args initial options (compiler::rest)

theorem separator_word : (getopts git).separator = word "--" := by
  cases git <;> decide

theorem parseOptions_leaves {index : Nat} (parsed : parseOptions git args initial = .compiler options index) :
    Leaves git args initial options (args.drop index) := by
  unfold parseOptions at parsed
  split at parsed
  · cases parsed
  · rename_i asks
    split at parsed
    · rename_i unseparated
      cases parsed
      exact .raw (by simpa using unseparated) asks
    · rename_i separate
      have separate : separated args = true := by simpa using separate
      dsimp only at parsed
      split at parsed
      · cases parsed
      · cases parsed
      · rename_i options' taken
        split at parsed
        · cases parsed
        · rename_i stop stopped
          split at parsed
          · cases parsed
          · rename_i inside
            cases parsed
            have scanned : (getopts git).scan (args.map CString.bytes) =
                ⟨((getopts git).scan (args.map CString.bytes)).given,some index⟩ := by rw [← stopped]
            obtain ⟨front,behind,words,reads,follows⟩ := Getopt.scan_stop scanned
            obtain ⟨front,behind,rfl,rfl,rfl⟩ := List.map_eq_append_iff.mp words
            rw [List.length_map] at follows
            generalize same : behind.map CString.bytes = spelled at follows
            cases follows with
            | separated operands =>
              obtain ⟨separator,rest,rfl,ends,_⟩ := List.map_eq_cons_iff.mp same
              rw [separator_word] at ends
              rw [List.drop_append,List.drop_eq_nil_of_le (Nat.le_succ _),List.nil_append,Nat.add_sub_cancel_left]
              refine .separated front rest separator _ options reads taken ends ?_ rfl
              rintro rfl
              simp at inside
            | direct operand operands reads' =>
              obtain ⟨compiler,rest,rfl,rfl,_⟩ := List.map_eq_cons_iff.mp same
              rw [List.drop_left]
              exact .direct front rest compiler _ options reads taken reads' separate rfl
            | ended =>
              rw [List.map_eq_nil_iff.mp same] at inside
              simp at inside

theorem parseOptions_stopped {given : List (Getopt.Given Byte CcOption)} {index : Nat}
    (separate : separated args = true) (parsed : takeOptions initial given = .options options)
    (scanned : (getopts git).scan (args.map CString.bytes) = ⟨given,some index⟩) (inside : index < args.length) :
    parseOptions git args initial = .compiler options index := by
  have asks : args.map CString.bytes ≠ [word "--help"] := by
    intro only
    obtain ⟨arg,rfl,same⟩ := List.map_eq_singleton_iff.mp only
    have other : word "--help" ≠ word "--" := by decide
    simp [separated,same,other] at separate
  unfold parseOptions
  rw [if_neg asks,if_neg (by simp [separate]),scanned]
  dsimp only
  rw [parsed]
  exact if_neg (Nat.not_le.mpr inside)

theorem leaves_parseOptions (leaves : Leaves git args initial options rest) :
    ∃ index, parseOptions git args initial = .compiler options index ∧ args.drop index = rest := by
  cases leaves with
  | raw unseparated asks =>
    unfold parseOptions
    exact ⟨0,by rw [if_neg asks,if_pos (by simp [unseparated])],rfl⟩
  | separated front rest separator given options reads parsed ends present split =>
    have follows : (getopts git).Follows (front.map CString.bytes).length ((separator::rest).map CString.bytes)
        (front.length + 1) := by
      rw [List.map_cons,ends,← separator_word,List.length_map]
      exact .separated _
    have scanned := Getopt.scan_follows reads follows
    rw [← List.map_append,← split] at scanned
    refine ⟨front.length + 1,parseOptions_stopped ?_ parsed scanned ?_,?_⟩
    · rw [split,separated,List.any_append,List.any_cons]
      simp [ends]
    · have more := List.length_pos_iff.mpr present
      rw [split,List.length_append,List.length_cons]
      omega
    · rw [split,List.drop_append,List.drop_eq_nil_of_le (Nat.le_succ _),List.nil_append,Nat.add_sub_cancel_left]
      rfl
  | direct front rest compiler given options reads parsed operand separate split =>
    have follows : (getopts git).Follows (front.map CString.bytes).length ((compiler::rest).map CString.bytes)
        front.length := by
      rw [List.map_cons,List.length_map]
      exact .direct _ _ operand
    have scanned := Getopt.scan_follows reads follows
    rw [← List.map_append,← split] at scanned
    refine ⟨front.length,parseOptions_stopped separate parsed scanned ?_,?_⟩
    · rw [split,List.length_append,List.length_cons]
      omega
    · rw [split,List.drop_left]

end Leaves

section Transparent
variable {git : Bool} {environment : CcEnvironment} {args argv rest : List CString} {options : CcOptions}
  {world : CcWorld}

/-- The wrapper gets as far as the compiler's command. -/
structure Starts (git : Bool) (environment : CcEnvironment) (args : List CString) (options : CcOptions)
    (rest : List CString) : Prop where
  outermost : environment.active = false
  named : options.index.variant ≠ .empty
  parsed : ∃ initial, environmentOptions environment = some initial ∧ Leaves git args initial options rest

/-- The command that is run: a driver stands in front where the arguments do not begin with one. -/
inductive Driven (environment : CcEnvironment) : List CString → List CString → Prop where
  | named (compiler : CString) (rest : List CString) (driver : compilerCommandDriverIsOmitted compiler = false) :
      Driven environment (compiler::rest) (compiler::rest)
  | real (rest : List CString) (driver : CString) (omits : ∀ arg ∈ rest.head?, compilerCommandDriverIsOmitted arg = true)
      (given : environment.realCc = some driver) (filled : driver ≠ .empty) : Driven environment rest (driver::rest)
  | cc (rest : List CString) (omits : ∀ arg ∈ rest.head?, compilerCommandDriverIsOmitted arg = true)
      (without : environment.realCc = none ∨ environment.realCc = some .empty) :
      Driven environment rest (.ofBytes (word "cc")::rest)

theorem driven_driven : Driven environment rest (driven environment rest) := by
  unfold driven
  split
  · rename_i omitted
    have omits : ∀ arg ∈ rest.head?, compilerCommandDriverIsOmitted arg = true := by
      intro arg first
      rw [Option.mem_def.mp first] at omitted
      exact omitted
    cases real : environment.realCc with
    | none => exact .cc rest omits (.inl real)
    | some driver =>
      by_cases filled : driver = .empty
      · rw [nonempty,Option.filter_some_neg (by simp [filled])]
        exact .cc rest omits (.inr (real.trans (congrArg some filled)))
      · rw [nonempty,Option.filter_some_pos (by simp [filled])]
        exact .real rest driver omits real filled
  · rename_i named
    cases rest with
    | nil => exact absurd rfl named
    | cons compiler rest => exact .named compiler rest (by simpa using named)

/-- What becomes of the process when it is the compiler's turn. -/
inductive HandsOver (environment : CcEnvironment) (argv : List CString) (world : CcWorld) : Ending → Prop where
  | executes (guards : world.guards = true) (runs : world.execError argv = none) :
      HandsOver environment argv world (.executes argv {environment with active := true})
  | missing (guards : world.guards = true) (error : world.execError argv = some true) : HandsOver environment argv world (.exits 127)
  | refused (guards : world.guards = true) (error : world.execError argv = some false) : HandsOver environment argv world (.exits 1)
  | unguarded (open' : world.guards = false) : HandsOver environment argv world (.exits 1)

/-- This is the run of the pipeline for the source of the command. -/
structure Indexes (options : CcOptions) (argv : List CString) (sourceFile : CString) (world : CcWorld) (run : IndexRun) : Prop where
  redirected : options.errorPolicy = .ignore → world.redirects = true
  prepared : indexCommandPrepare world.out.fs world.opensTrace options.index sourceFile false = some run.names
  request : run.request = indexRequest options argv sourceFile
  pipeline : run.pipeline = indexPipelineRun world.out run.request world.env world.blake3 (world.shared run.names.symbols)
    (world.commands run.names.commands)

/-- The pipeline ran with success, and what was opened for it is closed again. -/
def Succeeds (options : CcOptions) (world : CcWorld) (ran : Option IndexRun) : Prop :=
  ∃ run, ran = some run ∧ 0 ≤ run.pipeline.ret ∧ (options.index.tracePath ≠ none → world.closesTrace = true) ∧
    (options.errorPolicy = .ignore → world.restores = true)

/-- Whatever the databases do, this command is what becomes of the process, unless a failure to index is to fail. -/
structure Transparent (git : Bool) (environment : CcEnvironment) (options : CcOptions) (argv : List CString)
    (world : CcWorld) (result : Ending × Option IndexRun) : Prop where
  passed : compilerCommandFindSource argv = none → result.2 = none
  indexed : ∀ sourceFile, compilerCommandFindSource argv = some sourceFile →
    ∀ run, result.2 = some run ↔ Indexes options argv sourceFile world run
  -- only under this policy, and only a source that is not indexed
  fails : options.errorPolicy = .fail → compilerCommandFindSource argv ≠ none → ¬ Succeeds options world result.2 →
    result.1 = .exits 1
  handed : ¬ (options.errorPolicy = .fail ∧ compilerCommandFindSource argv ≠ none ∧ ¬ Succeeds options world result.2) →
    HandsOver environment argv world result.1
  -- a wrapper that the compiler starts in turn
  guarded : ∀ command after, result.1 = .executes command after → command = argv ∧
    ∀ args world, cmdCc git after args world = (.exits 127,none)

theorem execCompiler_hands : HandsOver environment argv world (execCompiler environment argv world) := by
  unfold execCompiler
  cases guards : world.guards with
  | false => exact .unguarded guards
  | true =>
    cases error : world.execError argv with
    | none => exact .executes guards error
    | some missing =>
      cases missing with
      | false => exact .refused guards error
      | true => exact .missing guards error

theorem cmdCc_active (active : environment.active = true) : cmdCc git environment args world = (.exits 127,none) := if_pos active

theorem HandsOver.guarded {ending : Ending} {command : List CString} {after : CcEnvironment}
    (hands : HandsOver environment argv world ending) (executed : ending = .executes command after) : command = argv ∧
      ∀ args world, cmdCc git after args world = (.exits 127,none) := by
  cases hands with
  | executes guards runs =>
    cases executed
    exact ⟨rfl,fun args world => cmdCc_active rfl⟩
  | missing | refused | unguarded => cases executed

theorem runIndex_indexes {sourceFile : CString} {run : IndexRun} :
    (runIndex options argv sourceFile world).2 = some run ↔ Indexes options argv sourceFile world run := by
  unfold runIndex
  constructor
  · intro ran
    split at ran
    · cases ran
    · rename_i redirected
      split at ran
      · cases ran
      · rename_i names prepared
        cases ran
        refine ⟨fun ignored => ?_,prepared,rfl,rfl⟩
        simpa [ignored] using redirected
  · intro indexes
    obtain ⟨names,request,pipeline⟩ := run
    obtain ⟨redirected,prepared,asked,ran⟩ := indexes
    have quiet : ¬ ((options.errorPolicy = .ignore && !world.redirects) = true) := by simpa using redirected
    dsimp only at prepared asked ran
    rw [if_neg quiet,prepared,ran,asked]

theorem runIndex_succeeds {sourceFile : CString} : (runIndex options argv sourceFile world).1 = false ↔
    Succeeds options world (runIndex options argv sourceFile world).2 := by
  unfold runIndex Succeeds
  split
  · simp
  · split
    · simp
    · cases traced : options.index.tracePath <;> simp

theorem compile_transparent (git : Bool) : Transparent git environment options argv world (compile environment options argv world) := by
  unfold compile
  cases found : compilerCommandFindSource argv with
  | none =>
    exact ⟨fun _ => rfl,fun sourceFile other => (by cases found.symm.trans other),fun _ some => absurd found some,
      fun _ => execCompiler_hands,fun command after => execCompiler_hands.guarded⟩
  | some sourceFile =>
    have indexed : ∀ other, compilerCommandFindSource argv = some other → ∀ run,
        (runIndex options argv sourceFile world).2 = some run ↔ Indexes options argv other world run := by
      intro other same run
      cases found.symm.trans same
      exact runIndex_indexes
    have succeeds := @runIndex_succeeds argv options world sourceFile
    dsimp only
    split
    · rename_i failing
      rw [Bool.and_eq_true,decide_eq_true_eq] at failing
      refine ⟨fun none => (by cases found.symm.trans none),indexed,fun _ _ _ => rfl,fun allowed => ?_,
        fun command after executed => (by cases executed)⟩
      refine absurd ⟨failing.2,by simp [found],fun done => ?_⟩ allowed
      exact absurd failing.1 (by simp [succeeds.mpr done])
    · rename_i allowed
      refine ⟨fun none => (by cases found.symm.trans none),indexed,fun policy _ failed => ?_,fun _ => execCompiler_hands,
        fun command after => execCompiler_hands.guarded⟩
      refine absurd (succeeds.mp ?_) failed
      simpa [policy] using allowed

theorem starts_parses (starts : Starts git environment args options rest) : ∃ initial index,
    environmentOptions environment = some initial ∧ parseOptions git args initial = .compiler options index := by
  obtain ⟨initial,known,leaves⟩ := starts.parsed
  obtain ⟨index,parsed,_⟩ := leaves_parseOptions leaves
  exact ⟨initial,index,known,parsed⟩

/-- Either the arguments and the environment alone end the wrapper, and nothing is indexed, or it hands over the
command that they leave, in every world; and the guard stops a wrapper below the compiler. -/
theorem cc_transparent (git : Bool) (environment : CcEnvironment) (args : List CString) :
    (∃ options rest argv, Starts git environment args options rest ∧ Driven environment rest argv ∧
      ∀ world, Transparent git environment options argv world (cmdCc git environment args world)) ∨
    (∀ options rest, ¬ Starts git environment args options rest) ∧
      ∃ status, ∀ world, cmdCc git environment args world = (.exits status,none) := by
  by_cases active : environment.active = true
  · refine .inr ⟨?_,127,fun world => cmdCc_active active⟩
    intro options rest starts
    exact absurd active (by simp [starts.outermost])
  · have runs (world : CcWorld) : cmdCc git environment args world =
        match environmentOptions environment with
        | none => (.exits 1,none)
        | some initial =>
          match parseOptions git args initial with
          | .help => (.exits 0,none)
          | .failed => (.exits 1,none)
          | .compiler options index =>
            if options.index.variant = .empty then (.exits 1,none)
            else compile environment options (driven environment (args.drop index)) world := if_neg active
    cases known : environmentOptions environment with
    | none =>
      refine .inr ⟨?_,1,fun world => by rw [runs,known]⟩
      intro options rest starts
      obtain ⟨initial,_,same,_⟩ := starts_parses starts
      cases known.symm.trans same
    | some initial =>
      have only {options : CcOptions} {rest : List CString} (starts : Starts git environment args options rest) :
          ∃ index, parseOptions git args initial = .compiler options index := by
        obtain ⟨other,index,same,parsed⟩ := starts_parses starts
        cases known.symm.trans same
        exact ⟨index,parsed⟩
      cases parsed : parseOptions git args initial with
      | help =>
        refine .inr ⟨?_,0,fun world => by rw [runs,known]; dsimp only; rw [parsed]⟩
        intro options rest starts
        obtain ⟨index,same⟩ := only starts
        cases parsed.symm.trans same
      | failed =>
        refine .inr ⟨?_,1,fun world => by rw [runs,known]; dsimp only; rw [parsed]⟩
        intro options rest starts
        obtain ⟨index,same⟩ := only starts
        cases parsed.symm.trans same
      | compiler options index =>
        by_cases unnamed : options.index.variant = .empty
        · refine .inr ⟨?_,1,fun world => by rw [runs,known]; dsimp only; rw [parsed]; exact if_pos unnamed⟩
          intro other rest starts
          obtain ⟨_,same⟩ := only starts
          cases parsed.symm.trans same
          exact starts.named unnamed
        · refine .inl ⟨options,args.drop index,_,⟨by simpa using active,unnamed,initial,known,parseOptions_leaves parsed⟩,
            driven_driven,?_⟩
          intro world
          rw [runs,known]
          dsimp only
          rw [parsed]
          dsimp only
          rw [if_neg unnamed]
          exact compile_transparent git

end Transparent

section Saved
variable {git : Bool} {environment : CcEnvironment} {args argv : List CString} {world : CcWorld} {run : IndexRun}
  {ending : Ending}

theorem ran_compile (ran : cmdCc git environment args world = (ending,some run)) :
    ∃ options argv, cmdCc git environment args world = compile environment options argv world := by
  unfold cmdCc at ran ⊢
  split
  · rename_i active
    rw [if_pos active] at ran
    cases ran
  · rename_i idle
    rw [if_neg idle] at ran
    split
    · rename_i unknown
      rw [unknown] at ran
      cases ran
    · rename_i initial known
      rw [known] at ran
      dsimp only at ran
      split
      · rename_i parsed
        rw [parsed] at ran
        cases ran
      · rename_i parsed
        rw [parsed] at ran
        cases ran
      · rename_i options index parsed
        rw [parsed] at ran
        dsimp only at ran
        split
        · rename_i unnamed
          rw [if_pos unnamed] at ran
          cases ran
        · exact ⟨options,_,rfl⟩

/-- The key of a file that is there is its canonical name, for who stores it and for who looks it up. -/
theorem storeKey_found {disk : Disk} (lawful : disk.Lawful) {call : StoreCall} {path : CString} (here : call.directory = .dot)
    (found : disk.realpath call.cwd call.file = some path) : call.absFile disk = path := by
  apply absolutePath_found
  split
  · exact found
  · rename_i relative
    have named : call.file ≠ .empty := fun none => by simp [none,lawful.empty] at found
    have relative : (!call.file.rooted) = true := by simpa using relative
    have dotted := lawful.dotted call.cwd call.file relative named
    unfold StoreCall.absDirectory
    rw [here]
    cases known : disk.realpath call.cwd .dot with
    | none => exact dotted.trans found
    | some directory =>
      have below := lawful.relative call.cwd .dot directory call.file relative named known
      rw [Option.getD_some,lawful.relative _ _ _ _ relative named (lawful.fixed _ call.cwd _ _ known),← below,dotted]
      exact found

theorem loadKey_found {disk : Disk} (lawful : disk.Lawful) {cwd file path : CString}
    (found : disk.realpath cwd file = some path) : Update.loadKey disk cwd file = path := by
  have named : file ≠ .empty := fun none => by simp [none,lawful.empty] at found
  exact absolutePath_found ((CommandDb.loadKey lawful named).trans found)

/-- The command database after stores for other files or variants, whatever their outcome. -/
inductive Others (key : CString × CString) (commands : Option CommandFile) : Option CommandFile → Prop where
  | same : Others key commands commands
  | store (out : Surroundings) (request : PipelineRequest) (command : Option Command) {later : Option CommandFile}
      (earlier : Others key commands later) (other : ∀ known, command = some known →
        ((commandCall out request known).variant,(commandCall out request known).absFile out.disk) ≠ key) :
      Others key commands (storeCommand out request command later).2

theorem Others.kept {key : CString × CString} {commands later : Option CommandFile} {table : Commands} {row : CString × List Byte}
    (others : Others key commands later) (opened : rows commands = some table) (found : table.lookup key = some row) :
    ∃ table, rows later = some table ∧ table.lookup key = some row := by
  induction others with
  | same => exact ⟨table,opened,found⟩
  | store out request command earlier other ih =>
    rename_i later
    obtain ⟨table,opened,found⟩ := ih
    rcases @storeCommand_cases out request command later with same | left | ⟨known,stored,given,done,same⟩
    · rw [same]
      exact ⟨table,opened,found⟩
    · rw [left]
      rcases left_rows out.commandFault later with rows | ⟨none,_⟩
      · exact ⟨table,rows.trans opened,found⟩
      · cases none.symm.trans opened
    · rw [same]
      obtain ⟨_,_,after⟩ := stored_rows done
      rw [opened,Option.getD_some] at after
      exact ⟨_,after,(AList.lookup_insert_ne (other known given).symm).trans found⟩

/-- A command that was indexed and saved is what was executed: whoever asks for its file and variant, from whatever
directory, is given these arguments, until another command is stored for them. -/
theorem cc_saves_executed {after : CcEnvironment} {path file : CString} (lawful : world.out.disk.Lawful)
    (ran : cmdCc git environment args world = (.executes argv after,some run)) (succeeded : run.pipeline.ret = 0)
    (both : run.request.storage = .storeSymbolsAndCommand)
    (present : world.out.disk.realpath world.out.cwd run.request.sourceFile = some path) (reader : Surroundings)
    (shared : reader.disk = world.out.disk) (asked : reader.disk.realpath reader.cwd file = some path)
    (resolver : CommandResolver) {later : Option CommandFile}
    (others : Others (run.request.variant,path) run.pipeline.commands later) : ∃ directory,
      resolve reader resolver false later file run.request.variant =
        .ok ⟨.saved,some ⟨directory,path,argv⟩,none,directory,true⟩ := by
  obtain ⟨options,command,compiled⟩ := ran_compile ran
  have transparent : Transparent git environment options command world (compile environment options command world) :=
    compile_transparent git
  rw [← compiled,ran] at transparent
  obtain ⟨rfl,_⟩ := transparent.guarded argv after rfl
  obtain ⟨sourceFile,found⟩ : ∃ sourceFile, compilerCommandFindSource argv = some sourceFile := by
    cases found : compilerCommandFindSource argv with
    | none => cases transparent.passed found
    | some sourceFile => exact ⟨sourceFile,rfl⟩
  obtain ⟨_,_,request,pipeline⟩ := (transparent.indexed sourceFile found run).mp rfl
  have outcome := pipeline_outcome world.out run.request world.env world.blake3 (world.shared run.names.symbols)
    (world.commands run.names.commands)
  rw [← pipeline] at outcome
  obtain ⟨s,_,_,own⟩ := outcome.indexed succeeded
  have persisted : run.pipeline.result.persisted = .storeSymbolsAndCommand := by
    rcases outcome_kept outcome succeeded with same | ⟨_,s,_,returned⟩
    · exact same.trans both
    · simp [returnsPartial,request,indexRequest,indexCommandFillRequest] at returned
  obtain ⟨known,stored,result,done,commands⟩ := outcome.commanded persisted
  have same : known = ⟨.dot,run.request.sourceFile,argv⟩ := by
    rw [own,resultCommand,request] at result
    simp only [indexRequest,indexCommandFillRequest,if_true,Option.some.injEq] at result
    rw [← result,request]
    rfl
  subst same
  obtain ⟨named,given,opened⟩ := stored_rows done
  rw [storeKey_found lawful rfl present,← commands] at opened
  obtain ⟨table,still,held⟩ := others.kept opened (AList.lookup_insert _)
  rw [shared] at asked
  have key := loadKey_found lawful asked
  have row := load_row still named given (by rw [key]; exact held)
  rw [key,← shared] at row
  exact ⟨_,resolve_found resolver row⟩

end Saved
section Sample

def compiledName : CString := .ofBytes (word "f.c")
def compiledFile : CString := .ofBytes (word "/d/f.c")
def rootDirectory : CString := .ofBytes (word "/")

def Ending.command : Ending → Option (List CString)
  | .exits _ => none
  | .executes argv _ => some argv

def plainEnvironment : CcEnvironment := ⟨false,none,none,none,none,none⟩

def compilingWorld : CcWorld where
  out := {sampleSurroundings with disk := plainDisk [sampleDirectory,compiledFile]}
  env := undisturbed
  blake3 := foldHash
  shared := fun _ => emptyFile
  commands := fun _ => none
  redirects := true
  restores := true
  opensTrace := true
  closesTrace := true
  guards := true
  execError := fun _ => none

-- compiled by its name in its directory, looked up by its path from the root
theorem cc_saves_executed_sample : ∃ run after directory,
    cmdCc true plainEnvironment [compiledName] compilingWorld =
      (.executes [sampleCompiler,compiledName] after,some run) ∧
    resolve {compilingWorld.out with cwd := rootDirectory} sampleResolver false run.pipeline.commands compiledFile
      run.request.variant = .ok ⟨.saved,some ⟨directory,compiledFile,[sampleCompiler,compiledName]⟩,none,directory,true⟩ := by
  have executed : (cmdCc true plainEnvironment [compiledName] compilingWorld).1.command =
      some [sampleCompiler,compiledName] := by decide +kernel
  have indexed : (cmdCc true plainEnvironment [compiledName] compilingWorld).2.any (fun run =>
      run.pipeline.ret = 0 ∧ run.request.storage = .storeSymbolsAndCommand ∧ run.request.sourceFile = compiledName) =
        true := by decide +kernel
  generalize ran : cmdCc true plainEnvironment [compiledName] compilingWorld = outcome at executed indexed
  obtain ⟨_ | ⟨argv,after⟩,run⟩ := outcome
  · cases executed
  · cases executed
    obtain ⟨run,rfl,known⟩ := (Option.any_eq_true _ _).mp indexed
    obtain ⟨succeeded,both,named⟩ := of_decide_eq_true known
    have present : compilingWorld.out.disk.realpath compilingWorld.out.cwd run.request.sourceFile = some compiledFile := by
      rw [named]
      decide +kernel
    have asked : compilingWorld.out.disk.realpath rootDirectory compiledFile = some compiledFile := by decide +kernel
    obtain ⟨directory,found⟩ := cc_saves_executed (plainDisk_lawful (by decide)) ran succeeded both present
      {compilingWorld.out with cwd := rootDirectory} rfl asked sampleResolver .same
    exact ⟨run,after,directory,rfl,found⟩

end Sample
end Semindex.Tools.Cc
