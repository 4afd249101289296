import Mathlib.Logic.Relation
import Semindex.Source.Lines
import Semindex.Source.Resolver
import Semindex.Support.Versions

/-! `SemindexSourceResolver::readSource` while others write to the file. The reader
takes one step for each call into the system; what a read delivers is what the
open file holds by then. -/
namespace Semindex.Source.Drift
open Semindex.Relational Semindex.IndexDb Semindex.Support Semindex.Versions

inductive SemindexSourceStatus where
  | current | notIndexed | missing | drifted
  deriving DecidableEq

inductive SemindexSourceOrigin where
  | none | workingTree | gitCommit
  deriving DecidableEq

structure SemindexSourceRequest where
  variant : Text
  path : Text
  range : LineRequest

structure SemindexSourceResult where
  status : SemindexSourceStatus := .notIndexed
  origin : SemindexSourceOrigin := .none
  physicalPath : Pathname := ⟨false,[]⟩
  lines : List (List Byte) := []
  firstLine : Nat := 0
  drifted : Bool := false
  byteLimitHit : Bool := false

structure FileVersion where
  st : Stat
  content : List Byte

-- what the index keeps of a version
def FileVersion.stamp (version : FileVersion) : Int × Int := (version.st.mtimeNs,version.st.size)

/-- The file at the physical path. -/
abbrev File := History FileVersion.stamp

section Reader
variable (db : Db) (resolver : SourceResolver) (request : SemindexSourceRequest)

def validRequest : Bool :=
  request.variant ≠ [] && request.path ≠ [] && request.range.firstLine ≠ 0 && request.range.lineCount ≠ 0 &&
    request.range.byteLimit ≠ 0

-- an open file that the path may no longer name
inductive Handle where
  | here
  | elsewhere (content : List Byte)

def Handle.content : Handle → Option FileVersion → List Byte
  | .here,now => (now.map FileVersion.content).getD []
  | .elsewhere content,_ => content

-- the file that is removed, or replaced by another, stays what it is for whom it is open
def Handle.left : Handle → Option FileVersion → Handle
  | .here,now => .elsewhere (Handle.here.content now)
  | .elsewhere content,_ => .elsewhere content

/-- Where `readWorkingTree` is; `none` is -1. -/
inductive Phase where
  | stat
  | open'
  | read (handle : Handle) (delivered : List Byte)
  | statAgain (read : LineResult)
  | returned (ret : Option SemindexSourceResult)

def Phase.left : Phase → Option FileVersion → Phase
  | .read handle delivered,now => .read (handle.left now) delivered
  | phase,_ => phase

-- the calls whose failure is -1; a read that fails is the end of the file for `std::getline`, and is left out
def Phase.Refusable : Phase → Prop
  | .stat => True
  | .open' => True
  | .statAgain _ => True
  | _ => False

structure System where
  file : File
  phase : Phase

def prepared : SemindexSourceResult :=
  {physicalPath := resolve resolver request.path, firstLine := request.range.firstLine}

/-- Up to the first `stat`. -/
def begin : Phase :=
  if !validRequest request then .returned none
  else match db.files.lookup (request.variant,request.path) with
    | none => .returned (some {})
    | some _ => .stat

def statFirst (metadata : FileRow) (now : Option FileVersion) : Phase :=
  match now with
  | none => .returned (some {prepared resolver request with status := .missing, drifted := true})
  | some version =>
    if metadataMatches metadata version.st then .open'
    else .returned (some {prepared resolver request with status := .drifted, drifted := true})

def openFile (now : Option FileVersion) : Phase :=
  match now with
  | none => .returned none
  | some _ => .read .here []

def statSecond (metadata : FileRow) (read : LineResult) (now : Option FileVersion) : Phase :=
  match now with
  | none => .returned none
  | some version =>
    if metadataMatches metadata version.st then
      .returned (some {prepared resolver request with
        status := .current, origin := .workingTree, lines := read.lines, byteLimitHit := read.byteLimitHit})
    else .returned (some {prepared resolver request with status := .drifted, drifted := true})

-- `readRange` asks for no more: the file is at its end, or no further byte makes a difference
def Enough (range : LineRequest) (delivered content : List Byte) : Prop :=
  content.length ≤ delivered.length ∨ ∀ more, readRange (delivered ++ more) range = readRange delivered range

/-- One call of the reader, or one change by another. -/
inductive Step (metadata : FileRow) : System → System → Prop
  | overwrite (file : File) (phase : Phase) (version : FileVersion) (fresh : version.stamp ∉ file.versions.map FileVersion.stamp) :
    Step metadata ⟨file,phase⟩ ⟨file.put version fresh,phase⟩
  | replace (file : File) (phase : Phase) (version : FileVersion) (fresh : version.stamp ∉ file.versions.map FileVersion.stamp) :
    Step metadata ⟨file,phase⟩ ⟨file.put version fresh,phase.left file.now⟩
  | remove (file : File) (phase : Phase) : Step metadata ⟨file,phase⟩ ⟨file.remove,phase.left file.now⟩
  | astray (file : File) (content changed delivered : List Byte) :
    Step metadata ⟨file,.read (.elsewhere content) delivered⟩ ⟨file,.read (.elsewhere changed) delivered⟩
  | stat (file : File) : Step metadata ⟨file,.stat⟩ ⟨file,statFirst resolver request metadata file.now⟩
  | open' (file : File) : Step metadata ⟨file,.open'⟩ ⟨file,openFile file.now⟩
  | read (file : File) (handle : Handle) (delivered : List Byte) (count : Nat) :
    Step metadata ⟨file,.read handle delivered⟩
      ⟨file,.read handle (delivered ++ ((handle.content file.now).drop delivered.length).take count)⟩
  | finish (file : File) (handle : Handle) (delivered : List Byte) (read : LineResult)
    (enough : Enough request.range delivered (handle.content file.now)) (done : readRange delivered request.range = some read) :
    Step metadata ⟨file,.read handle delivered⟩ ⟨file,.statAgain read⟩
  | statAgain (file : File) (read : LineResult) :
    Step metadata ⟨file,.statAgain read⟩ ⟨file,statSecond resolver request metadata read file.now⟩
  | fail (file : File) (phase : Phase) (refusable : phase.Refusable) : Step metadata ⟨file,phase⟩ ⟨file,.returned none⟩

end Reader

section Git

inductive GitBlob where
  | error | unavailable
  | blob (content : List Byte)

variable (db : Db) (gitBlob : Text → Text → Text → GitBlob) (request : SemindexSourceRequest)

-- `readBlobRange` adds to the lines that are there
def appendBlobRange (content : List Byte) (result : SemindexSourceResult) : Option SemindexSourceResult :=
  (takeBlobLines content request.range.byteLimit (request.range.lineCount - result.lines.length)
    (skipBlobLines content (request.range.firstLine - 1) 0) 0 ⟨result.lines,result.byteLimitHit⟩).map (fun read =>
      {result with lines := read.lines, byteLimitHit := read.byteLimitHit})

/-- The blob at the path in the commit that the index has for the variant. -/
def recordedBlob : Option GitBlob :=
  match db.variants.lookup request.variant with
  | none => none
  | some row =>
    let root := row.repositoryRoot.getD []
    let commit := row.gitCommit.getD []
    if root = [] || commit = [] then none
    else (commitPath request.path (Pathname.ofText root)).map (gitBlob root commit)

def readGitCommit (result : SemindexSourceResult) : Option SemindexSourceResult :=
  match recordedBlob db gitBlob request with
  | none => some result
  | some .error => none
  | some .unavailable => some result
  | some (.blob content) => (appendBlobRange request content result).map (fun result => {result with origin := .gitCommit})

/-- `readSource` behind `readWorkingTree`. -/
def readSource (tree : Option SemindexSourceResult) : Option SemindexSourceResult :=
  tree.bind (fun result =>
    if result.status = .current || result.status = .notIndexed then some result
    else readGitCommit db gitBlob request result)

end Git

section Sound
variable (content : List Byte) (range : LineRequest)

/-- The lines that are asked for, as many as the limit allows. -/
def linesOf : List (List Byte) := (fitting range.byteLimit (requested content range)).lines

/-- What `readWorkingTree` returns; `content` is what was indexed. -/
def TreeSound (result : SemindexSourceResult) : Prop :=
  match result.status with
  | .current => result.lines = linesOf content range ∧ result.origin = .workingTree ∧ result.drifted = false
  | .notIndexed => result.lines = []
  | _ => result.lines = [] ∧ result.drifted = true ∧ result.origin = .none

/-- What becomes of it in `readSource`; `blob` is the recorded one. -/
def SourceSound (blob : Option GitBlob) (tree result : SemindexSourceResult) : Prop :=
  match tree.status with
  | .current => result = tree
  | .notIndexed => result = tree
  | _ => result.status = tree.status ∧ result.drifted = true ∧
    (result.lines = [] ∨ ∃ content, blob = some (.blob content) ∧ result.lines = linesOf content range ∧ result.origin = .gitCommit)

end Sound

section Runs
variable {db : Db} {resolver : SourceResolver} {request : SemindexSourceRequest} {metadata : FileRow} {indexed : FileVersion}
variable {system next : System}

/-- While the file is the one that was indexed, what is read of it is its content. -/
def Steady (indexed : FileVersion) (range : LineRequest) (system : System) : Prop :=
  match system.phase with
  | .read handle delivered => system.file.now = some indexed → handle = .here ∧ delivered <+: indexed.content
  | .statAgain taken => system.file.now = some indexed → taken = fitting range.byteLimit (requested indexed.content range)
  | .returned ret => ∀ result ∈ ret, TreeSound indexed.content range result
  | _ => True

structure Invariant (indexed : FileVersion) (range : LineRequest) (system : System) : Prop where
  listed : indexed ∈ system.file.versions
  steady : Steady indexed range system

theorem matches_stamp {version : FileVersion} (left : metadataMatches metadata version.st = true)
    (right : metadataMatches metadata indexed.st = true) : version.stamp = indexed.stamp := by
  unfold metadataMatches at left right
  simp only [Bool.and_eq_true,decide_eq_true_eq] at left right
  exact Prod.ext (left.1.symm.trans right.1) (left.2.symm.trans right.2)

-- a change makes the file another one than was indexed
theorem Invariant.write (invariant : Invariant indexed request.range system) {file : File} (writes : system.file.Writes file)
    {phase : Phase} (returned : ∀ ret, phase = .returned ret → system.phase = .returned ret) :
    Invariant indexed request.range ⟨file,phase⟩ := by
  refine ⟨writes.keeps invariant.listed,?_⟩
  have gone := writes.gone invariant.listed
  have steady := invariant.steady
  cases phase with
  | stat => trivial
  | open' => trivial
  | read handle delivered => exact fun same => absurd same gone
  | statAgain read => exact fun same => absurd same gone
  | returned ret =>
    unfold Steady at steady
    rw [returned ret rfl] at steady
    exact steady

theorem Phase.left_returned {phase : Phase} {now : Option FileVersion} {ret : Option SemindexSourceResult}
    (same : phase.left now = .returned ret) : phase = .returned ret := by
  cases phase with
  | read handle delivered => cases same
  | _ => exact same

theorem drifted_sound (content : List Byte) :
    TreeSound content request.range {prepared resolver request with status := .drifted, drifted := true} :=
  ⟨rfl,rfl,rfl⟩

/-- What is read up to its end, or as far as is needed, gives the lines of the content. -/
theorem enough_lines {delivered content : List Byte} {range : LineRequest} {read : LineResult} (front : delivered <+: content)
    (enough : Enough range delivered content) (done : readRange delivered range = some read) :
    read = fitting range.byteLimit (requested content range) := by
  obtain ⟨more,rfl⟩ := front
  have whole : readRange (delivered ++ more) range = some read := by
    rcases enough with long | settled
    · have none : more = [] := by
        rw [List.length_append] at long
        exact List.length_eq_zero_iff.mp (by omega)
      rw [none,List.append_nil]
      exact done
    · exact (settled more).trans done
  rw [readRange_fitting] at whole
  exact (Option.some.inj whole).symm

theorem Invariant.step (matching : metadataMatches metadata indexed.st = true) (invariant : Invariant indexed request.range system)
    (step : Step resolver request metadata system next) : Invariant indexed request.range next := by
  have listed := invariant.listed
  have steady := invariant.steady
  cases step with
  | overwrite file phase version fresh => exact invariant.write (.put version fresh) (fun ret same => same)
  | replace file phase version fresh => exact invariant.write (.put version fresh) (fun ret => Phase.left_returned)
  | remove file phase => exact invariant.write .remove (fun ret => Phase.left_returned)
  | astray file content changed delivered =>
    refine ⟨listed,fun same => ?_⟩
    obtain ⟨handle,_⟩ := steady same
    cases handle
  | stat file =>
    refine ⟨listed,?_⟩
    unfold statFirst
    cases file.now with
    | none =>
      intro result same
      cases same
      exact ⟨rfl,rfl,rfl⟩
    | some version =>
      dsimp only
      split_ifs
      · trivial
      · intro result same
        cases same
        exact drifted_sound _
  | open' file =>
    refine ⟨listed,?_⟩
    unfold openFile
    cases file.now with
    | none => exact fun result same => by cases same
    | some version => exact fun _ => ⟨rfl,List.nil_prefix⟩
  | read file handle delivered count =>
    refine ⟨listed,fun same => ?_⟩
    obtain ⟨rfl,front⟩ := steady same
    obtain ⟨more,whole⟩ := front
    refine ⟨rfl,more.drop count,?_⟩
    have here : Handle.here.content file.now = delivered ++ more := by
      rw [show file.now = some indexed from same]
      exact whole.symm
    rw [here,List.drop_left,List.append_assoc,List.take_append_drop]
    exact whole
  | finish file handle delivered read enough done =>
    refine ⟨listed,fun same => ?_⟩
    obtain ⟨rfl,front⟩ := steady same
    rw [show file.now = some indexed from same] at enough
    exact enough_lines front enough done
  | statAgain file read =>
    refine ⟨listed,?_⟩
    unfold statSecond
    cases now : file.now with
    | none => exact fun result same => by cases same
    | some version =>
      dsimp only
      split_ifs with current
      · intro result same
        cases same
        have version_eq := file.stamped listed now (matches_stamp current matching)
        rw [version_eq] at now
        exact ⟨congrArg LineResult.lines (steady now),rfl,rfl⟩
      · intro result same
        cases same
        exact drifted_sound _
  | fail file phase refusable => exact ⟨listed,fun result same => by cases same⟩

theorem Invariant.run (matching : metadataMatches metadata indexed.st = true)
    (run : Relation.ReflTransGen (Step resolver request metadata) system next)
    (invariant : Invariant indexed request.range system) : Invariant indexed request.range next := by
  induction run with
  | refl => exact invariant
  | tail _ step ih => exact ih.step matching step

theorem returned_stays {ret : Option SemindexSourceResult} (run : Relation.ReflTransGen (Step resolver request metadata) system next)
    (returned : system.phase = .returned ret) : next.phase = .returned ret := by
  induction run with
  | refl => exact returned
  | tail _ step ih =>
    cases step with
    | overwrite file phase version fresh => exact ih
    | replace file phase version fresh =>
      dsimp only at ih ⊢
      rw [ih]
      rfl
    | remove file phase =>
      dsimp only at ih ⊢
      rw [ih]
      rfl
    | fail file phase refusable =>
      dsimp only at ih
      rw [ih] at refusable
      exact refusable.elim
    | _ => cases ih

variable {gitBlob : Text → Text → Text → GitBlob} {tree result : SemindexSourceResult}

theorem appendBlobRange_lines (content : List Byte) (empty : tree.lines = []) : ∃ result,
    appendBlobRange request content tree = some result ∧ result.lines = linesOf content request.range ∧
      result.status = tree.status ∧ result.drifted = tree.drifted := by
  have skipped := @skipBlobLines_pieces content (request.range.firstLine - 1) 0
  unfold appendBlobRange
  rw [takeBlobLines_fitting (Nat.zero_le _),skipped,empty]
  refine ⟨_,rfl,?_,rfl,rfl⟩
  simp [LineResult.add,linesOf,requested]

/-- What git adds to a result without lines. -/
theorem readGitCommit_sound (empty : tree.lines = []) (done : readGitCommit db gitBlob request tree = some result) :
    result.status = tree.status ∧ result.drifted = tree.drifted ∧ (result.lines = [] ∨ ∃ content,
      recordedBlob db gitBlob request = some (.blob content) ∧ result.lines = linesOf content request.range ∧
        result.origin = .gitCommit) := by
  unfold readGitCommit at done
  cases recorded : recordedBlob db gitBlob request with
  | none =>
    rw [recorded] at done
    cases done
    exact ⟨rfl,rfl,.inl empty⟩
  | some blob =>
    rw [recorded] at done
    cases blob with
    | error => cases done
    | unavailable =>
      cases done
      exact ⟨rfl,rfl,.inl empty⟩
    | blob content =>
      obtain ⟨read,some,lines,status,drifted⟩ := @appendBlobRange_lines request tree content empty
      dsimp only at done
      rw [some] at done
      cases done
      exact ⟨status,drifted,.inr ⟨content,rfl,lines,rfl⟩⟩

theorem TreeSound.source {content : List Byte} (sound : TreeSound content request.range tree)
    (done : readSource db gitBlob request (some tree) = some result) :
    SourceSound request.range (recordedBlob db gitBlob request) tree result := by
  unfold readSource at done
  rw [Option.bind_some] at done
  unfold TreeSound at sound
  unfold SourceSound
  cases status : tree.status with
  | current =>
    rw [status] at done
    exact (Option.some.inj done).symm
  | notIndexed =>
    rw [status] at done
    exact (Option.some.inj done).symm
  | missing =>
    rw [status] at done sound
    obtain ⟨same,drifted,lines⟩ := readGitCommit_sound sound.1 done
    exact ⟨same.trans status,drifted.trans sound.2.1,lines⟩
  | drifted =>
    rw [status] at done sound
    obtain ⟨same,drifted,lines⟩ := readGitCommit_sound sound.1 done
    exact ⟨same.trans status,drifted.trans sound.2.1,lines⟩

/-- Whatever is written while the source is read, no line is taken for one that was indexed and is none. -/
theorem drift_detected {file after : File}
    (known : ∀ row ∈ db.files.lookup (request.variant,request.path), row = metadata ∧ indexed ∈ file.versions ∧
      metadataMatches metadata indexed.st = true)
    (run : Relation.ReflTransGen (Step resolver request metadata) ⟨file,begin db request⟩ ⟨after,.returned (some tree)⟩)
    (done : readSource db gitBlob request (some tree) = some result) :
    TreeSound indexed.content request.range tree ∧ SourceSound request.range (recordedBlob db gitBlob request) tree result := by
  have sound : TreeSound indexed.content request.range tree := by
    unfold begin at run
    cases valid : validRequest request with
    | false =>
      rw [valid] at run
      cases returned_stays run rfl
    | true =>
      rw [valid] at run
      cases found : db.files.lookup (request.variant,request.path) with
      | none =>
        rw [found] at run
        cases returned_stays run rfl
        rfl
      | some row =>
        rw [found] at run
        obtain ⟨_,listed,matching⟩ := known row found
        have invariant : Invariant indexed request.range ⟨file,.stat⟩ := ⟨listed,trivial⟩
        exact (invariant.run matching run).steady tree rfl
  exact ⟨sound,sound.source done⟩

end Runs

section Changed

def changedRequest : SemindexSourceRequest := ⟨[ 'v'],[ 'f'],⟨1,1,10⟩⟩

def changedDb : Db :=
  { Db.empty with
    files := (∅ : Table (Text × Text) FileRow).insert ([ 'v'],[ 'f']) ⟨0,1,2⟩
    variants := (∅ : Table Text VariantRow).insert [ 'v'] ⟨some [ 'c'],some [ '/']⟩ }

def indexedVersion : FileVersion := ⟨⟨0,0,1,2,false⟩,[97,10]⟩
def otherVersion : FileVersion := ⟨⟨0,0,2,3,false⟩,[98,98,10]⟩

def indexedFile : File := ⟨some indexedVersion,[indexedVersion],by simp,by simp⟩

def changedTree : SemindexSourceResult :=
  {prepared ⟨⟨true,[]⟩⟩ changedRequest with status := .drifted, drifted := true}

-- between `open` and `read` the file is written
theorem drift_detected_changed : TreeSound indexedVersion.content changedRequest.range changedTree ∧
    SourceSound changedRequest.range (recordedBlob changedDb (fun _ _ _ => .blob [97,10]) changedRequest) changedTree
      {changedTree with lines := [[97]], origin := .gitCommit} := by
  have fresh : otherVersion.stamp ∉ indexedFile.versions.map FileVersion.stamp := by decide
  have known : ∀ row ∈ changedDb.files.lookup ([ 'v'],[ 'f']), row = ⟨0,1,2⟩ ∧ indexedVersion ∈ indexedFile.versions ∧
      metadataMatches ⟨0,1,2⟩ indexedVersion.st = true := by
    intro row found
    cases found
    exact ⟨rfl,List.mem_singleton.mpr rfl,rfl⟩
  have run : Relation.ReflTransGen (Step ⟨⟨true,[]⟩⟩ changedRequest ⟨0,1,2⟩) ⟨indexedFile,begin changedDb changedRequest⟩
      ⟨indexedFile.put otherVersion fresh,.returned (some changedTree)⟩ := by
    apply Relation.ReflTransGen.head (.stat indexedFile)
    apply Relation.ReflTransGen.head (.open' indexedFile)
    apply Relation.ReflTransGen.head (.overwrite indexedFile _ otherVersion fresh)
    apply Relation.ReflTransGen.head (.read _ .here [] 3)
    apply Relation.ReflTransGen.head (.finish _ .here [98,98,10] ⟨[[98,98]],false⟩ (.inl (Nat.le_refl 3)) rfl)
    exact .single (.statAgain _ _)
  exact drift_detected known run rfl

end Changed
end Semindex.Source.Drift
