import Semindex.CommandDb.Storage
import Semindex.Text

/-! `compiler_command_find_source`. The scan is stated twice: as the source has it,
and as what it takes each element for. An invocation is read by the grammar of the
compiler, where the options of the table take an argument. -/
namespace Semindex.Tools
open Semindex.Support Semindex.CommandDb

section Scan

def word (text : String) : List Byte := utf8 text.toList

def hasSuffix (str suffix : List Byte) : Bool := suffix.isSuffixOf str

def sourceSuffixes : List (List Byte) := [".c",".S",".cpp",".cc",".cxx",".c++"].map word

def isSource (arg : CString) : Bool := sourceSuffixes.any (fun suffix => hasSuffix arg.bytes suffix)

def dash : Byte := 45
def atSign : Byte := 64

def joinedOrNext : List (List Byte) :=
  ["-D","-I","-U","-include","-imacros","-isystem","-iquote","-idirafter","-iprefix","-iwithprefix",
    "-iwithprefixbefore","-isysroot","-target","-x","-std","-MF","-MT","-MQ","-o"].map word

-- an option with text behind it is joined to its argument
def takesArg (arg : List Byte) : List (List Byte) → Bool
  | [] => false
  | opt::opts => if arg = opt then true else if opt.isPrefixOf arg then false else takesArg arg opts

def optionTakesJoinedOrNextArg (arg : CString) : Bool := takesArg arg.bytes joinedOrNext

def unsupportedOptions : List (List Byte) := ["-E","-S","-M","-MM"].map word

structure Found where
  unsupported : Bool
  sources : Nat
  sourceFile : Option CString

-- `skip` is `i++` inside the loop
def scan (skip : Bool) (found : Found) : List CString → Found
  | [] => found
  | arg::args =>
    if skip then scan false found args
    else if arg.bytes = word "-c" then scan false found args
    else if arg.bytes ∈ unsupportedOptions then scan false {found with unsupported := true} args
    else if arg.bytes = word "--" then scan false found args
    else if arg.bytes.head? = some dash then
      scan (optionTakesJoinedOrNextArg arg && (arg.bytes.drop 2).isEmpty) found args
    else if !isSource arg then scan false found args
    else scan false {found with sourceFile := some arg, sources := found.sources + 1} args

/-- The source file, or none for -1. -/
def compilerCommandFindSource (argv : List CString) : Option CString :=
  let found := scan false ⟨false,0,none⟩ (argv.drop 1)
  if found.unsupported || found.sources ≠ 1 then none else found.sourceFile

/-- What the scan takes an element for. -/
inductive Treatment where
  | skipped
  | option
  | unsupported
  | source
  | other
  deriving DecidableEq

def treatments (skip : Bool) : List CString → List (CString × Treatment)
  | [] => []
  | arg::args =>
    if skip then (arg,.skipped)::treatments false args
    else if arg.bytes = word "-c" then (arg,.option)::treatments false args
    else if arg.bytes ∈ unsupportedOptions then (arg,.unsupported)::treatments false args
    else if arg.bytes = word "--" then (arg,.option)::treatments false args
    else if arg.bytes.head? = some dash then
      (arg,.option)::treatments (optionTakesJoinedOrNextArg arg && (arg.bytes.drop 2).isEmpty) args
    else if !isSource arg then (arg,.other)::treatments false args
    else (arg,.source)::treatments false args

end Scan

section Grammar

/-- What an element is in the grammar of the compiler. -/
inductive Role where
  | option
  | argument (opt : CString)
  | operand
  deriving DecidableEq

-- the option before it that takes this element, if any
def roles (before : Option CString) : List CString → List (CString × Role)
  | [] => []
  | arg::args =>
    match before with
    | some opt => (arg,.argument opt)::roles none args
    | none =>
      if arg.bytes ∈ joinedOrNext then (arg,.option)::roles (some arg) args
      else if arg.bytes.head? = some dash then (arg,.option)::roles none args
      else (arg,.operand)::roles none args

variable (args : List CString)

def operands : List CString := ((roles none args).filter (fun part => part.2 = .operand)).map Prod.fst

def options : List CString := ((roles none args).filter (fun part => part.2 = .option)).map Prod.fst

def sources : List CString := (operands args).filter isSource

/-- The invocation can be indexed, and this is its source. -/
structure Indexable (source : CString) : Prop where
  only : sources args = [source]
  compiles : ∀ opt ∈ options args, opt.bytes ∉ unsupportedOptions
  direct : ∀ operand ∈ operands args, operand.bytes.head? ≠ some atSign

/-- The function finds the source of the invocations that can be indexed, and takes no argument of an option for a
source or for an option. -/
structure FindsSource (argv : List CString) : Prop where
  result : ∀ source, compilerCommandFindSource argv = some source ↔ Indexable (argv.drop 1) source
  apart : ∀ part ∈ (roles none (argv.drop 1)).zip (treatments false (argv.drop 1)), ∀ opt, part.1.2 = .argument opt →
    part.2.2 = .skipped ∨ part.2.2 = .other

end Grammar

section Words

theorem listed_word : ∀ w ∈ joinedOrNext, w.head? = some dash ∧ w ≠ word "-c" ∧ w ∉ unsupportedOptions ∧ w ≠ word "--" ∧
    2 ≤ w.length ∧ (w.length = 2 → takesArg w joinedOrNext = true) := by decide

theorem unsupported_dash : ∀ w ∈ unsupportedOptions, w.head? = some dash := by decide

theorem takesArg_listed {arg : List Byte} {opts : List (List Byte)} (takes : takesArg arg opts = true) : arg ∈ opts := by
  induction opts with
  | nil => cases takes
  | cons opt opts ih =>
    rw [takesArg] at takes
    split at takes
    · rename_i same
      rw [same]
      exact List.mem_cons_self
    · split at takes
      · cases takes
      · exact List.mem_cons_of_mem _ (ih takes)

variable (arg : CString)

-- what the scan takes an element for that it does not skip
def treat : Treatment :=
  if arg.bytes = word "-c" then .option
  else if arg.bytes ∈ unsupportedOptions then .unsupported
  else if arg.bytes = word "--" then .option
  else if arg.bytes.head? = some dash then .option
  else if isSource arg then .source
  else .other

def skips : Bool := arg.bytes ∈ joinedOrNext && arg.bytes.length = 2

theorem skips_eq : (optionTakesJoinedOrNextArg arg && (arg.bytes.drop 2).isEmpty) = skips arg := by
  rw [Bool.eq_iff_iff]
  simp only [skips,optionTakesJoinedOrNextArg,Bool.and_eq_true,decide_eq_true_eq,List.isEmpty_iff,List.drop_eq_nil_iff]
  constructor
  · intro ⟨takes,short⟩
    have listed := takesArg_listed takes
    exact ⟨listed,Nat.le_antisymm short (listed_word _ listed).2.2.2.2.1⟩
  · intro ⟨listed,short⟩
    exact ⟨(listed_word _ listed).2.2.2.2.2 short,short.le⟩

theorem skips_false {arg : CString} (other : arg.bytes ∉ joinedOrNext) : skips arg = false := by simp [skips,other]

theorem treatments_cons (args : List CString) :
    treatments false (arg::args) = (arg,treat arg)::treatments (skips arg) args := by
  rw [treatments,if_neg Bool.false_ne_true,skips_eq,treat]
  have apart {w : List Byte} (head : arg.bytes = w) (other : w ∉ joinedOrNext) : skips arg = false :=
    skips_false (head ▸ other)
  split
  · rename_i compiles
    rw [apart compiles (by decide)]
  · split
    · rename_i listed
      have other : arg.bytes ∉ joinedOrNext := fun joined => (listed_word _ joined).2.2.1 listed
      rw [skips_false other]
    · split
      · rename_i ends
        rw [apart ends (by decide)]
      · split
        · rfl
        · rename_i plain
          have other : arg.bytes ∉ joinedOrNext := fun joined => plain (listed_word _ joined).1
          rw [skips_false other]
          cases isSource arg <;> rfl

theorem treat_other_iff : (treat arg = .skipped ∨ treat arg = .other) ↔
    isSource arg = false ∧ arg.bytes.head? ≠ some dash := by
  unfold treat
  split
  · rename_i compiles
    have dashed : (word "-c").head? = some dash := by decide
    simp [compiles,dashed]
  · split
    · rename_i listed
      simp [unsupported_dash _ listed]
    · split
      · rename_i ends
        have dashed : (word "--").head? = some dash := by decide
        simp [ends,dashed]
      · split
        · rename_i dashed
          simp [dashed]
        · rename_i plain
          cases isSource arg <;> simp [plain]

theorem treat_dash {arg : CString} (dashed : arg.bytes.head? = some dash) :
    treat arg = if arg.bytes ∈ unsupportedOptions then .unsupported else .option := by
  unfold treat
  rw [if_pos dashed]
  split
  · rename_i compiles
    rw [compiles,if_neg (by decide)]
  · split
    · rfl
    · split <;> rfl

theorem treat_plain {arg : CString} (plain : arg.bytes.head? ≠ some dash) :
    treat arg = if isSource arg then .source else .other := by
  have apart {w : List Byte} (head : w.head? = some dash) : arg.bytes ≠ w := by
    intro same
    rw [same] at plain
    exact plain head
  unfold treat
  rw [if_neg (apart (by decide)),if_neg (fun listed => apart (unsupported_dash _ listed) rfl),if_neg (apart (by decide)),
    if_neg plain]

end Words

section Scanned

def taken (parts : List (CString × Treatment)) : List CString :=
  (parts.filter (fun part => part.2 = .source)).map Prod.fst

def refused (parts : List (CString × Treatment)) : Bool := parts.any (fun part => part.2 = .unsupported)

theorem scan_eq (args : List CString) (skip : Bool) (found : Found) : scan skip found args =
    ⟨found.unsupported || refused (treatments skip args),found.sources + (taken (treatments skip args)).length,
      ((taken (treatments skip args)).getLast?).or found.sourceFile⟩ := by
  induction args generalizing skip found with
  | nil => simp [scan,treatments,taken,refused]
  | cons arg args ih =>
    rw [scan,treatments]
    split
    · rw [ih]
      simp [taken,refused]
    · split
      · rw [ih]
        simp [taken,refused]
      · split
        · rw [ih]
          simp [taken,refused]
        · split
          · rw [ih]
            simp [taken,refused]
          · split
            · rw [ih]
              simp [taken,refused]
            · split
              · rw [ih]
                simp [taken,refused]
              · rw [ih]
                simp [taken,refused,List.getLast?_cons,Nat.add_assoc,Nat.add_comm]

theorem find_iff (argv : List CString) (source : CString) : compilerCommandFindSource argv = some source ↔
    taken (treatments false (argv.drop 1)) = [source] ∧ refused (treatments false (argv.drop 1)) = false := by
  unfold compilerCommandFindSource
  rw [scan_eq]
  dsimp only
  cases refused (treatments false (argv.drop 1)) with
  | true => simp
  | false =>
    match taken (treatments false (argv.drop 1)) with
    | [] => simp
    | [only] => simp
    | first::second::rest => simp

end Scanned

section Exact
variable {args : List CString}

/-- The separate arguments of the long options are no sources and start with no dash, and where an invocation could
be indexed but for a response file, there is none. -/
structure Plain (args : List CString) : Prop where
  arguments : ∀ part ∈ roles none args, ∀ opt, part.2 = .argument opt → 2 < opt.bytes.length →
    isSource part.1 = false ∧ part.1.bytes.head? ≠ some dash
  direct : (∀ operand ∈ operands args, operand.bytes.head? ≠ some atSign) ∨ (sources args).length ≠ 1 ∨
    ∃ opt ∈ options args, opt.bytes ∈ unsupportedOptions

def passed (before : Option CString) : Bool := before.any (fun opt => opt.bytes.length = 2)

theorem apart_iff (before : Option CString) (listed : ∀ opt ∈ before, opt.bytes ∈ joinedOrNext) :
    (∀ part ∈ (roles before args).zip (treatments (passed before) args), ∀ opt, part.1.2 = .argument opt →
      part.2.2 = .skipped ∨ part.2.2 = .other) ↔
    ∀ part ∈ roles before args, ∀ opt, part.2 = .argument opt → 2 < opt.bytes.length →
      isSource part.1 = false ∧ part.1.bytes.head? ≠ some dash := by
  induction args generalizing before with
  | nil => simp [roles]
  | cons arg args ih =>
    have onward := ih none (by simp)
    rw [show passed none = false from rfl] at onward
    cases before with
    | some opt =>
      have size := (listed_word _ (listed opt rfl)).2.2.2.2.1
      by_cases short : opt.bytes.length = 2
      · have skip : passed (some opt) = true := by simp [passed,short]
        have head : ¬ 2 < opt.bytes.length := by omega
        rw [skip,roles,treatments,if_pos rfl]
        simp only [List.zip_cons_cons,List.forall_mem_cons,Role.argument.injEq,forall_eq',head,true_or,
          implies_true,true_and,false_implies]
        exact onward
      · have skip : passed (some opt) = false := by simp [passed,short]
        have head : 2 < opt.bytes.length := by omega
        rw [skip,roles,treatments_cons]
        simp only [List.zip_cons_cons,List.forall_mem_cons,Role.argument.injEq,forall_eq',head,true_implies]
        have plain (apart : arg.bytes.head? ≠ some dash) : skips arg = false :=
          skips_false (fun joined => apart (listed_word _ joined).1)
        constructor
        · intro ⟨here,later⟩
          have facts := (treat_other_iff arg).mp here
          rw [plain facts.2] at later
          exact ⟨facts,onward.mp later⟩
        · intro ⟨facts,later⟩
          rw [plain facts.2]
          exact ⟨(treat_other_iff arg).mpr facts,onward.mpr later⟩
    | none =>
      have unskipped : passed none = false := rfl
      rw [unskipped,roles,treatments_cons]
      split
      · rename_i joined
        have skip : skips arg = passed (some arg) := by simp [skips,passed,joined]
        rw [skip]
        simpa using ih (some arg) (by simp [joined])
      · rename_i other
        rw [skips_false other]
        split <;> simpa using onward

def sourcesFrom (before : Option CString) (args : List CString) : List CString :=
  (((roles before args).filter (fun part => part.2 = .operand)).map Prod.fst).filter isSource

def refusedFrom (before : Option CString) (args : List CString) : Bool :=
  (roles before args).any (fun part => part.2 = .option && decide (part.1.bytes ∈ unsupportedOptions))

-- where no argument of a long option stands out, the scan sees the operands and the options
theorem scanned (before : Option CString) (listed : ∀ opt ∈ before, opt.bytes ∈ joinedOrNext)
    (plain : ∀ part ∈ roles before args, ∀ opt, part.2 = .argument opt → 2 < opt.bytes.length →
      isSource part.1 = false ∧ part.1.bytes.head? ≠ some dash) :
    taken (treatments (passed before) args) = sourcesFrom before args ∧
      refused (treatments (passed before) args) = refusedFrom before args := by
  induction args generalizing before with
  | nil => exact ⟨rfl,rfl⟩
  | cons arg args ih =>
    cases before with
    | some opt =>
      rw [roles,List.forall_mem_cons] at plain
      obtain ⟨here,later⟩ := plain
      obtain ⟨found,refusal⟩ := ih none (by simp) later
      rw [show passed none = false from rfl] at found refusal
      by_cases short : opt.bytes.length = 2
      · have skip : passed (some opt) = true := by simp [passed,short]
        rw [skip,treatments,if_pos rfl]
        simp only [taken,refused,sourcesFrom,refusedFrom,roles] at found refusal ⊢
        simp [found,refusal]
      · have skip : passed (some opt) = false := by simp [passed,short]
        have size := (listed_word _ (listed opt rfl)).2.2.2.2.1
        obtain ⟨silent,undashed⟩ := here opt rfl (by omega)
        have other : treat arg = .other := by rw [treat_plain undashed,silent]; rfl
        rw [skip,treatments_cons,skips_false (fun joined => undashed (listed_word _ joined).1),other]
        simp only [taken,refused,sourcesFrom,refusedFrom,roles] at found refusal ⊢
        simp [found,refusal]
    | none =>
      rw [show passed none = false from rfl,treatments_cons]
      rw [roles] at plain
      by_cases joined : arg.bytes ∈ joinedOrNext
      · rw [if_pos joined] at plain
        obtain ⟨found,refusal⟩ := ih (some arg) (by simp [joined]) (List.forall_mem_cons.mp plain).2
        have skip : skips arg = passed (some arg) := by simp [skips,passed,joined]
        have other := (listed_word _ joined).2.2.1
        rw [skip,treat_dash (listed_word _ joined).1,if_neg other]
        simp only [taken,refused,sourcesFrom,refusedFrom,roles,if_pos joined] at found refusal ⊢
        simp [found,refusal,other]
      · rw [if_neg joined] at plain
        rw [skips_false joined]
        by_cases dashed : arg.bytes.head? = some dash
        · rw [if_pos dashed] at plain
          obtain ⟨found,refusal⟩ := ih none (by simp) (List.forall_mem_cons.mp plain).2
          rw [show passed none = false from rfl] at found refusal
          rw [treat_dash dashed]
          simp only [taken,refused,sourcesFrom,refusedFrom,roles,if_neg joined,if_pos dashed] at found refusal ⊢
          split <;> rename_i listed <;> simp [found,refusal,listed]
        · rw [if_neg dashed] at plain
          obtain ⟨found,refusal⟩ := ih none (by simp) (List.forall_mem_cons.mp plain).2
          rw [show passed none = false from rfl] at found refusal
          rw [treat_plain dashed]
          simp only [taken,refused,sourcesFrom,refusedFrom,roles,if_neg joined,if_neg dashed] at found refusal ⊢
          cases known : isSource arg <;> simp [found,refusal,known]

theorem refusedFrom_false : refusedFrom none args = false ↔ ∀ opt ∈ options args, opt.bytes ∉ unsupportedOptions := by
  simp only [refusedFrom,options,List.any_eq_false,List.mem_map,List.mem_filter,Bool.and_eq_true,decide_eq_true_eq]
  constructor
  · intro all opt ⟨part,⟨member,isOption⟩,same⟩ listed
    exact all part member ⟨isOption,same ▸ listed⟩
  · intro all part member ⟨isOption,listed⟩
    exact all part.1 ⟨part,⟨member,isOption⟩,rfl⟩ listed

/-- The scan finds the source of an invocation exactly where no argument of a long option stands out, and no response
file is all that is in the way. -/
theorem finds_source_iff (argv : List CString) : FindsSource argv ↔ Plain (argv.drop 1) := by
  have aligned := @apart_iff (argv.drop 1) none (by simp)
  rw [show passed none = false from rfl] at aligned
  constructor
  · intro ⟨result,apart⟩
    have plain := aligned.mp apart
    obtain ⟨found,refusal⟩ := scanned none (by simp) plain
    refine ⟨plain,?_⟩
    by_contra fails
    simp only [not_or,not_not,not_exists,not_and] at fails
    obtain ⟨response,one,compiles⟩ := fails
    obtain ⟨source,only⟩ := List.length_eq_one_iff.mp one
    have found' := (find_iff argv source).mpr ⟨found.trans only,refusal.trans (refusedFrom_false.mpr compiles)⟩
    exact response ((result source).mp found').direct
  · intro ⟨plain,direct⟩
    obtain ⟨found,refusal⟩ := scanned none (by simp) plain
    refine ⟨?_,aligned.mpr plain⟩
    intro source
    rw [find_iff]
    rw [show passed none = false from rfl] at found refusal
    rw [found,refusal,refusedFrom_false]
    constructor
    · intro ⟨only,compiles⟩
      refine ⟨only,compiles,?_⟩
      rcases direct with fine | more | ⟨opt,member,listed⟩
      · exact fine
      · rw [show sources (argv.drop 1) = [source] from only] at more
        exact absurd rfl more
      · exact absurd listed (compiles opt member)
    · intro indexable
      exact ⟨indexable.only,indexable.compiles⟩

/-- `cc -include config.c -c main.c`. -/
def prefixed : List CString :=
  [⟨word "cc",by decide⟩,⟨word "-include",by decide⟩,⟨word "config.c",by decide⟩,⟨word "-c",by decide⟩,
    ⟨word "main.c",by decide⟩]

/-- The included file is counted as a second source, so that the invocation is not indexed. -/
theorem included_file_counted : ¬ FindsSource prefixed := by
  intro finds
  have indexable : Indexable (prefixed.drop 1) ⟨word "main.c",by decide⟩ := ⟨by decide,by decide,by decide⟩
  have found := (finds.result _).mpr indexable
  exact absurd found (by decide)

end Exact

end Semindex.Tools
