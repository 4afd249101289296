import Semindex.IndexDb.Lookups
import Semindex.Source.Candidates

/-! The names of the frontend against the current directory of the process. The
reference is the file of that name in the command's directory: its path in the
repository, its time and size, and whether it is the main file. -/
namespace Semindex
open Semindex.Relational Semindex.IndexDb

section Views
variable (fs : FileSystem)

def against (directory name : Text) : Text := if name.head? = some '/' then name else directory ++ '/' :: name

/-- The calls of a process in this directory; `fs` resolves absolute names. -/
def FileSystem.within (directory : Text) : FileSystem where
  realpath name := if name = [] then none else fs.realpath (against directory name)
  stat name := if name = [] then none else fs.stat (against directory name)
  lstat name := if name = [] then none else fs.lstat (against directory name)

/-- The same files with other times and sizes. -/
def FileSystem.timed (times : Text → Int × Int) : FileSystem :=
  { fs with stat := fun name => (fs.realpath name).bind (fun file => (fs.stat name).map (fun st =>
      { st with mtimeNs := (times file).1, size := (times file).2 })) }

variable {fs} {directory cwd name : Text}

theorem within_absolute (absolute : name.head? = some '/') :
    (fs.within directory).realpath name = fs.realpath name ∧ (fs.within directory).stat name = fs.stat name ∧
      (fs.within directory).lstat name = fs.lstat name := by
  have present : name ≠ [] := fun empty => by simp [empty] at absolute
  simp [FileSystem.within,against,absolute,present]

theorem Canonical.text_absolute (file : Canonical) : file.text.head? = some '/' := rfl

theorem within_stat (lawful : fs.Lawful) :
    (fs.within directory).stat name = ((fs.within directory).realpath name).bind fs.stat := by
  unfold FileSystem.within
  dsimp only
  split
  · rfl
  · exact lawful.statted _

theorem within_canonical (lawful : fs.Lawful) {path : Text}
    (found : (fs.within directory).realpath name = some path) :
    (∃ file : Canonical, path = file.text) ∧ (fs.stat path).isSome ∧ fs.realpath path = some path := by
  unfold FileSystem.within at found
  dsimp only at found
  split at found
  · cases found
  · exact ⟨lawful.canonical _ _ found,lawful.found _ _ found,lawful.fixed _ _ found⟩

theorem timed_lawful (lawful : fs.Lawful) (times : Text → Int × Int) : (fs.timed times).Lawful := by
  have resolved {path : Text} (name : Text) (found : fs.realpath name = some path) :
      (fs.timed times).stat path = (fs.stat path).map (fun st =>
        { st with mtimeNs := (times path).1, size := (times path).2 }) := by
    simp [FileSystem.timed,lawful.fixed _ _ found]
  constructor
  · exact lawful.canonical
  · exact lawful.fixed
  · exact lawful.root
  · intro name
    change (fs.realpath name).bind _ = (fs.realpath name).bind _
    cases found : fs.realpath name with
    | none => rfl
    | some path =>
      rw [Option.bind_some,Option.bind_some,resolved name found,lawful.statted name,found]
      rfl
  · intro name path found
    obtain ⟨st,statted⟩ := Option.isSome_iff_exists.mp (lawful.found _ _ found)
    simp [resolved name found,statted]
  · intro path st found statted isDir
    have own := resolved path found
    rw [statted] at own
    obtain ⟨before,known,same⟩ := Option.map_eq_some_iff.mp own.symm
    subst same
    exact lawful.directory path before found known isDir

def statPair (st : Option Stat) : Int × Int := ((st.map Stat.mtimeNs).getD 0,(st.map Stat.size).getD 0)

/-- Two directories that give a name the same time and size, whatever these are, give it the same file. -/
theorem agree_of_times (lawful : fs.Lawful)
    (same : ∀ times, statPair (((fs.timed times).within cwd).stat name) =
      statPair (((fs.timed times).within directory).stat name)) :
    (fs.within cwd).realpath name = (fs.within directory).realpath name := by
  have pair (times : Text → Int × Int) (here : Text) : statPair (((fs.timed times).within here).stat name) =
      (((fs.within here).realpath name).map times).getD (0,0) := by
    rw [within_stat (timed_lawful lawful times)]
    change statPair (((fs.within here).realpath name).bind _) = _
    cases found : (fs.within here).realpath name with
    | none => rfl
    | some path =>
      obtain ⟨_,listed,fixed⟩ := within_canonical lawful found
      obtain ⟨st,statted⟩ := Option.isSome_iff_exists.mp listed
      simp [FileSystem.timed,fixed,statted,statPair]
  simp only [pair] at same
  cases left : (fs.within cwd).realpath name with
  | none =>
    cases right : (fs.within directory).realpath name with
    | none => rfl
    | some path => simpa [left,right] using same (fun _ => (1,0))
  | some path =>
    cases right : (fs.within directory).realpath name with
    | none => simpa [left,right] using same (fun _ => (1,0))
    | some other =>
      have marked := same (fun file => if file = path then (1,0) else (0,0))
      by_contra apart
      have different : other ≠ path := fun equal => apart (by rw [equal])
      simp [left,right,different] at marked

end Views

section Root
variable {fs : FileSystem} {directory cwd : Text}

theorem parent_absolute {path parent : Text} (absolute : path.head? = some '/')
    (found : parentDirectory path = some parent) : parent.head? = some '/' := by
  obtain ⟨slash,_,same⟩ := Option.map_eq_some_iff.mp found
  subst same
  cases path with
  | nil => cases absolute
  | cons c rest =>
    split
    · simpa using absolute
    · rename_i later
      obtain ⟨n,rfl⟩ := Nat.exists_eq_succ_of_ne_zero later
      simpa using absolute

section Congruence
variable {a b : FileSystem} (markers : ∀ name : Text, name.head? = some '/' → a.lstat name = b.lstat name)
include markers

theorem climb_congr (fuel : Nat) {path : Text} (absolute : path.head? = some '/') :
    climb a fuel path = climb b fuel path := by
  induction fuel generalizing path with
  | zero => rfl
  | succ fuel ih =>
    have marked (more : Text) : (path ++ more).head? = some '/' := by
      cases path with
      | nil => cases absolute
      | cons c rest => simpa using absolute
    rw [climb,climb,List.append_assoc,markers _ (marked _)]
    cases up : parentDirectory path with
    | none => rfl
    | some parent => simp only [Option.bind_some,ih (parent_absolute absolute up)]

/-- The root depends on the resolved name, on whether it is a directory, and on the markers above it. -/
theorem repositoryRoot_congr {input : Option Text}
    (agree : ∀ name, input = some name → a.realpath name = b.realpath name)
    (kinds : ∀ name path, input = some name → b.realpath name = some path →
      path.head? = some '/' ∧ (a.stat path).map Stat.isDir = (b.stat path).map Stat.isDir) :
    repositoryRoot a input = repositoryRoot b input := by
  cases input with
  | none => rfl
  | some name =>
    unfold repositoryRoot
    dsimp only [Option.bind_eq_bind,Option.bind_some]
    rw [agree name rfl]
    cases found : b.realpath name with
    | none => rfl
    | some path =>
      obtain ⟨absolute,kind⟩ := kinds name path rfl found
      simp only [Option.bind_some]
      cases left : a.stat path with
      | none =>
        rw [left] at kind
        rw [Option.map_eq_none_iff.mp kind.symm]
        rfl
      | some st =>
        rw [left] at kind
        obtain ⟨other,right,same⟩ := Option.map_eq_some_iff.mp kind.symm
        simp only [right,Option.bind_some,same]
        split
        · exact climb_congr markers _ absolute
        · cases up : parentDirectory path with
          | none => rfl
          | some parent => simp only [Option.bind_some,climb_congr markers _ (parent_absolute absolute up)]

end Congruence

theorem repositoryRoot_within (lawful : fs.Lawful) {input : Option Text}
    (agree : ∀ name, input = some name → (fs.within cwd).realpath name = (fs.within directory).realpath name) :
    repositoryRoot (fs.within cwd) input = repositoryRoot (fs.within directory) input := by
  refine repositoryRoot_congr ?_ agree ?_
  · intro name absolute
    rw [(within_absolute absolute).2.2,(within_absolute absolute).2.2]
  · intro name path _ found
    obtain ⟨⟨file,rfl⟩,_⟩ := within_canonical lawful found
    have absolute := file.text_absolute
    exact ⟨absolute,by rw [(within_absolute absolute).2.1,(within_absolute absolute).2.1]⟩

theorem repositoryRoot_timed (lawful : fs.Lawful) (times : Text → Int × Int) (input : Option Text) :
    repositoryRoot ((fs.timed times).within directory) input = repositoryRoot (fs.within directory) input := by
  refine @repositoryRoot_congr ((fs.timed times).within directory) (fs.within directory) (fun _ _ => rfl) _
    (fun _ _ => rfl) ?_
  intro name path _ found
  obtain ⟨⟨file,rfl⟩,_,fixed⟩ := within_canonical lawful found
  have absolute := file.text_absolute
  refine ⟨absolute,?_⟩
  rw [(within_absolute absolute).2.1,(within_absolute absolute).2.1]
  simp [FileSystem.timed,fixed,Function.comp_def]

end Root
namespace IndexDb

section Directory
variable (blake3 : List UInt8 → Fingerprint) (fs : FileSystem) (directory cwd : Text) (request : StoreRequest)

/-- The store of this request by a process in this directory. -/
def jobIn (fs : FileSystem) (cwd : Text) (request : StoreRequest) : Job where
  fs := fs.within cwd
  request := request

/-- A file relative to the root it lies below. -/
def relativePath (root : Option Text) (file : Text) : Text :=
  match root with
  | none => file
  | some root =>
    if file = root then ['.']
    else if root = ['/'] then file.drop 1
    else if (root ++ ['/']).isPrefixOf file then file.drop (root.length + 1) else file

/-- The path of the file of this name in the directory; a name without a file stays as it is. -/
def pathIn (root : Option Text) (name : Text) : Text :=
  (((fs.within directory).realpath name).map (relativePath root)).getD name

def sameFile : Option Stat → Option Stat → Bool
  | some st,some other => st.dev = other.dev && st.ino = other.ino
  | _,_ => false

/-- What is stored of each file with items is that of the file in the command's directory. -/
structure StoredAsIn (fs : FileSystem) : Prop where
  main : ∀ name, request.mainFile = some name →
    ((jobIn fs cwd request).paths blake3).mainFile =
        some (pathIn fs directory (jobIn fs directory request).root name) ∧
      statPair (jobIn fs cwd request).mainStat = statPair ((fs.within directory).stat name)
  path : ∀ i fingerprint path, (jobIn fs cwd request).Counted blake3 i fingerprint path →
    path = pathIn fs directory (jobIn fs directory request).root fingerprint.file
  stat : ∀ i fingerprint path, (jobIn fs cwd request).Counted blake3 i fingerprint path →
    ((jobIn fs cwd request).stagedFile i fingerprint).stat =
      statPair ((fs.within directory).stat fingerprint.file)
  isMain : ∀ i fingerprint path, (jobIn fs cwd request).Counted blake3 i fingerprint path →
    ((jobIn fs cwd request).stagedFile i fingerprint).isMain =
      sameFile ((fs.within directory).stat fingerprint.file)
        (request.mainFile.bind (fs.within directory).stat)
  own : ∀ i fingerprint path name, (jobIn fs cwd request).Counted blake3 i fingerprint path →
    request.mainFile = some name →
    (fs.within directory).realpath fingerprint.file = (fs.within directory).realpath name →
    ((fs.within directory).realpath name).isSome → ((jobIn fs cwd request).paths blake3).mainFile = some path

/-- The names that are stored: the main file's, and those of the files with items. -/
def NameStored (name : Text) : Prop := request.mainFile = some name ∨
  ∃ (i : Nat) (fingerprint : FileFingerprint), (rebuildFingerprints blake3 request.index request.includeLocal)[i]? = some fingerprint ∧
    fingerprint.recordCount ≠ 0 ∧ fingerprint.file = name

/-- Every stored name leads to the same file from both directories, and the repository encodes the file:
without a root the name has to be the file's own, below `/` only `/` itself is kept. -/
def NamesAgree : Prop := ∀ name, NameStored blake3 request name →
  (fs.within cwd).realpath name = (fs.within directory).realpath name ∧
    ∀ file, (fs.within directory).realpath name = some file →
      match (jobIn fs directory request).root with
      | none => name = file
      | some root => root = ['/'] → file = ['/']

variable {blake3 fs directory cwd request}

-- `semindex_repository_path` cuts the root off a file below it, except that `/` takes a character with it
theorem relativePath_iff {root : Option Text} {name : Text} {file : Canonical} {view : FileSystem}
    (found : view.realpath name = some file.text) :
    repositoryPath view root name = relativePath root file.text ↔
      match root with
      | none => name = file.text
      | some root => root = ['/'] → file.text = ['/'] := by
  match root with
  | none => exact Iff.rfl
  | some root =>
    dsimp only
    by_cases slash : root = ['/']
    · subst slash
      have stored := repositoryPath_root found
      rw [show ['/'] = Canonical.root.text from rfl,stored]
      have starts : ['/'].isPrefixOf file.text = true := rfl
      unfold relativePath
      dsimp only
      rw [if_pos (show Canonical.root.text = ['/'] from rfl)]
      by_cases top : file.text = Canonical.root.text
      · simp [top]
      · rw [if_neg top,if_neg top,if_pos starts]
        constructor
        · intro same
          have lengths := congrArg List.length same
          have long : 2 ≤ file.text.length := by
            cases text : ['/'].intercalate file.names with
            | nil => exact absurd (by rw [Canonical.text,text]; rfl) top
            | cons c rest => simp [Canonical.text,text]
          rw [List.length_drop,List.length_drop] at lengths
          omega
        · intro whole
          exact absurd (whole rfl) top
    · refine ⟨fun _ same => absurd same slash,fun _ => ?_⟩
      unfold repositoryPath relativePath
      rw [found]
      dsimp only
      rw [if_neg slash]
      by_cases whole : file.text = root
      · simp [whole]
      · rw [if_neg whole]
        by_cases starts : root <+: file.text
        · obtain ⟨tail,spelled⟩ := starts
          cases tail with
          | nil => exact absurd (by rw [← spelled,List.append_nil]) whole
          | cons c more =>
            rw [← spelled]
            by_cases boundary : c = '/'
            · subst boundary
              have inside : (root ++ ['/']).isPrefixOf (root ++ '/' :: more) = true :=
                List.isPrefixOf_iff_prefix.mpr ⟨more,by simp⟩
              rw [if_pos inside]
              simp [slash]
            · have outside : (root ++ ['/']).isPrefixOf (root ++ c :: more) = false := by
                rw [Bool.eq_false_iff]
                intro inside
                obtain ⟨rest,same⟩ := List.isPrefixOf_iff_prefix.mp inside
                rw [List.append_assoc] at same
                exact boundary (List.cons.inj (List.append_cancel_left same)).1.symm
              rw [outside]
              simp [slash,boundary]
        · have apart : root.isPrefixOf file.text = false := by
            rw [Bool.eq_false_iff]
            exact fun inside => starts (List.isPrefixOf_iff_prefix.mp inside)
          have outside : (root ++ ['/']).isPrefixOf file.text = false := by
            rw [Bool.eq_false_iff]
            exact fun inside => starts ((List.prefix_append _ _).trans (List.isPrefixOf_iff_prefix.mp inside))
          rw [apart,outside]
          simp

theorem jobIn_root : (jobIn fs cwd request).root = match request.repositoryRoot with
    | some root => some root
    | none => repositoryRoot (fs.within cwd) request.mainFile := rfl

theorem jobIn_path (file : Option Nat) (name : Text) : (jobIn fs cwd request).pathOf file name =
    repositoryPath (fs.within cwd) (jobIn fs cwd request).root name := rfl

theorem root_jobIn (lawful : fs.Lawful) (times : Text → Int × Int) :
    (jobIn (fs.timed times) directory request).root = (jobIn fs directory request).root := by
  rw [jobIn_root,jobIn_root,repositoryRoot_timed lawful]

theorem root_agrees (lawful : fs.Lawful) (agree : ∀ name, request.mainFile = some name →
    (fs.within cwd).realpath name = (fs.within directory).realpath name) :
    (jobIn fs cwd request).root = (jobIn fs directory request).root := by
  rw [jobIn_root,jobIn_root,repositoryRoot_within lawful agree]

theorem stat_agrees (lawful : fs.Lawful) {name : Text}
    (agree : (fs.within cwd).realpath name = (fs.within directory).realpath name) :
    (fs.within cwd).stat name = (fs.within directory).stat name := by
  rw [within_stat lawful,within_stat lawful,agree]

theorem counted_file {job : Job} {i : Nat} {fingerprint : FileFingerprint} {path : Text}
    (counted : job.Counted blake3 i fingerprint path) :
    path = job.pathOf (some i) fingerprint.file := by
  rw [← counted.path_eq,storedPath_listed counted.listed]

theorem counted_exists {job : Job} {i : Nat} {fingerprint : FileFingerprint}
    (listed : (job.fingerprints blake3)[i]? = some fingerprint) (items : fingerprint.recordCount ≠ 0) :
    job.Counted blake3 i fingerprint (job.pathOf (some i) fingerprint.file) :=
  ⟨listed,items,storedPath_listed listed⟩

theorem path_in {root : Option Text} (lawful : fs.Lawful) {name : Text}
    (agree : (fs.within cwd).realpath name = (fs.within directory).realpath name) :
    repositoryPath (fs.within cwd) root name = pathIn fs directory root name ↔
      ∀ file, (fs.within directory).realpath name = some file →
        match root with
        | none => name = file
        | some root => root = ['/'] → file = ['/'] := by
  unfold pathIn
  cases found : (fs.within directory).realpath name with
  | none => simp [repositoryPath_unknown (agree.trans found)]
  | some path =>
    obtain ⟨⟨file,rfl⟩,_⟩ := within_canonical lawful found
    simp only [Option.map_some,Option.getD_some,Option.some.injEq,forall_eq']
    exact relativePath_iff (agree.trans found)

theorem namesAgree_of_stored (lawful : fs.Lawful)
    (stored : ∀ times, StoredAsIn blake3 directory cwd request (fs.timed times)) :
    NamesAgree blake3 fs directory cwd request := by
  have agree (name : Text) (present : NameStored blake3 request name) :
      (fs.within cwd).realpath name = (fs.within directory).realpath name := by
    refine agree_of_times lawful (fun times => ?_)
    rcases present with main | ⟨i,fingerprint,listed,items,rfl⟩
    · have stats := ((stored times).main name main).2
      rw [Job.mainStat,jobIn] at stats
      dsimp only at stats
      rw [main] at stats
      exact stats
    · exact (stored times).stat i fingerprint _ (counted_exists listed items)
  intro name present
  refine ⟨agree name present,?_⟩
  have lawful' := timed_lawful lawful (fun _ => (0,0))
  have root : (jobIn (fs.timed (fun _ => (0,0))) cwd request).root = (jobIn fs directory request).root := by
    rw [@root_agrees _ directory cwd request lawful' (fun name main => agree name (.inl main)),root_jobIn lawful]
  have path : repositoryPath ((fs.timed (fun _ => (0,0))).within cwd) (jobIn fs directory request).root name =
      pathIn (fs.timed (fun _ => (0,0))) directory (jobIn fs directory request).root name := by
    rcases present with main | ⟨i,fingerprint,listed,items,rfl⟩
    · have paths := ((stored (fun _ => (0,0))).main name main).1
      change request.mainFile.map _ = _ at paths
      rw [main,Option.map_some,jobIn_path,root,root_jobIn lawful] at paths
      exact Option.some.inj paths
    · have counted := @counted_exists blake3 (jobIn (fs.timed (fun _ => (0,0))) cwd request) i fingerprint listed items
      have paths := (stored (fun _ => (0,0))).path i fingerprint _ counted
      rw [jobIn_path,root,root_jobIn lawful] at paths
      exact paths
  exact (path_in lawful' (agree name present)).mp path

theorem stored_of_namesAgree (lawful : fs.Lawful) (agree : NamesAgree blake3 fs directory cwd request)
    (times : Text → Int × Int) : StoredAsIn blake3 directory cwd request (fs.timed times) := by
  have lawful' := timed_lawful lawful times
  have root : (jobIn (fs.timed times) cwd request).root = (jobIn fs directory request).root := by
    rw [@root_agrees _ directory cwd request lawful' (fun name main => (agree name (.inl main)).1),root_jobIn lawful]
  have path (name : Text) (present : NameStored blake3 request name) :
      repositoryPath ((fs.timed times).within cwd) (jobIn fs directory request).root name =
        pathIn (fs.timed times) directory (jobIn fs directory request).root name :=
    (path_in lawful' (agree name present).1).mpr (agree name present).2
  have stat (name : Text) (present : NameStored blake3 request name) :
      ((fs.timed times).within cwd).stat name = ((fs.timed times).within directory).stat name :=
    stat_agrees lawful' (agree name present).1
  have listed {i : Nat} {fingerprint : FileFingerprint} {path : Text}
      (counted : (jobIn (fs.timed times) cwd request).Counted blake3 i fingerprint path) :
      NameStored blake3 request fingerprint.file := .inr ⟨i,fingerprint,counted.listed,counted.counted,rfl⟩
  have mainPath (name : Text) (main : request.mainFile = some name) :
      ((jobIn (fs.timed times) cwd request).paths blake3).mainFile =
        some (pathIn (fs.timed times) directory (jobIn fs directory request).root name) := by
    rw [← path name (.inl main),← root,Job.paths]
    change Option.map _ request.mainFile = _
    rw [main]
    rfl
  have filed {i : Nat} {fingerprint : FileFingerprint} {file : Text}
      (counted : (jobIn (fs.timed times) cwd request).Counted blake3 i fingerprint file) :
      file = pathIn (fs.timed times) directory (jobIn fs directory request).root fingerprint.file := by
    rw [counted_file counted,jobIn_path,root]
    exact path _ (listed counted)
  constructor
  · intro name main
    rw [root_jobIn lawful]
    refine ⟨mainPath name main,?_⟩
    rw [← stat name (.inl main)]
    change statPair (request.mainFile.bind _) = _
    rw [main]
    rfl
  · intro i fingerprint file counted
    rw [root_jobIn lawful]
    exact filed counted
  · intro i fingerprint file counted
    rw [← stat _ (listed counted)]
    rfl
  · intro i fingerprint file counted
    have main : request.mainFile.bind ((fs.timed times).within cwd).stat =
        request.mainFile.bind ((fs.timed times).within directory).stat := by
      cases own : request.mainFile with
      | none => rfl
      | some name => exact stat name (.inl own)
    rw [← stat _ (listed counted),← main]
    rfl
  · intro i fingerprint file name counted main same found
    rw [mainPath name main,filed counted]
    unfold pathIn
    change ((fs.within directory).realpath fingerprint.file) = (fs.within directory).realpath name at same
    change ((fs.within directory).realpath name).isSome at found
    obtain ⟨own,resolved⟩ := Option.isSome_iff_exists.mp found
    change some ((((fs.within directory).realpath name).map _).getD name) =
      some ((((fs.within directory).realpath fingerprint.file).map _).getD fingerprint.file)
    rw [same,resolved]
    rfl

variable (blake3 directory cwd request) in
/-- Everything stored is that of the files in the command's directory, whatever their times and sizes, just
where the names agree; two such directories of the process store the same. -/
theorem stored_as_in_iff (lawful : fs.Lawful) :
    ((∀ times, StoredAsIn blake3 directory cwd request (fs.timed times)) ↔
      NamesAgree blake3 fs directory cwd request) ∧
    ∀ other, NamesAgree blake3 fs directory cwd request → NamesAgree blake3 fs directory other request →
      ∀ db, (jobIn fs cwd request).store blake3 db = (jobIn fs other request).store blake3 db := by
  refine ⟨⟨namesAgree_of_stored lawful,stored_of_namesAgree lawful⟩,?_⟩
  intro other here there db
  have seen (name : Text) (present : NameStored blake3 request name) :
      (fs.within cwd).realpath name = (fs.within other).realpath name :=
    (here name present).1.trans (there name present).1.symm
  have root := root_agrees lawful (fun name main => seen name (.inl main))
  have looked (file : Option Nat) (name : Text) (present : NameStored blake3 request name) :
      (jobIn fs cwd request).pathOf file name = (jobIn fs other request).pathOf file name ∧
        (jobIn fs cwd request).statOf file name = (jobIn fs other request).statOf file name := by
    refine ⟨?_,stat_agrees lawful (seen name present)⟩
    change repositoryPath (fs.within cwd) (jobIn fs cwd request).root name =
      repositoryPath (fs.within other) (jobIn fs other request).root name
    unfold repositoryPath
    rw [root,seen name present]
  refine @alike_store blake3 (jobIn fs cwd request) (jobIn fs other request) ⟨rfl,?_,?_⟩ db
  · intro name main
    exact looked none name (.inl main)
  · intro i fingerprint listed items
    exact looked (some i) fingerprint.file (.inr ⟨i,fingerprint,listed,items,rfl⟩)

end Directory

section Samples
open Source Database

-- a use in `a.c`, the main file of a command in `/r/sub`
def nestedRequest : StoreRequest :=
  { (Lsp.symbolNote "v".toList "a.c".toList "x".toList .var 5).job.request with
    mainFile := some "a.c".toList
    repositoryRoot := some "/r".toList }

theorem stored_as_in_own : StoredAsIn foldHash nestedDirectory.text nestedDirectory.text nestedRequest
    (nestedFs.timed (fun _ => (10,20))) := by
  refine (stored_as_in_iff foldHash nestedDirectory.text nestedDirectory.text nestedRequest nestedFs_lawful).1.mpr ?_
    (fun _ => (10,20))
  intro name present
  refine ⟨rfl,fun file found => ?_⟩
  have root : (jobIn nestedFs nestedDirectory.text nestedRequest).root = some "/r".toList := rfl
  rw [root]
  exact fun slash => absurd slash (by decide)

/-- Stored from `/r`, the main file of a command in `/r/sub` has another path, no time and is not the main file. -/
theorem working_directory_stored : nestedFs.Lawful ∧
    (¬ StoredAsIn foldHash nestedDirectory.text sampleRoot.text nestedRequest nestedFs) ∧
    (jobIn nestedFs nestedDirectory.text nestedRequest).store foldHash Db.empty ≠
      (jobIn nestedFs sampleRoot.text nestedRequest).store foldHash Db.empty := by
  refine ⟨nestedFs_lawful,fun stored => ?_,fun same => ?_⟩
  · have paths := (stored.main "a.c".toList rfl).1
    exact absurd paths (by decide)
  · have paths := congrArg (Option.map (fun db => (joinedRecords db).map (fun row => row.path))) same
    exact absurd paths (by decide +kernel)

end Samples

end IndexDb
end Semindex
