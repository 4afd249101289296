import Semindex.Lsp.Overlay
import Semindex.Lsp.Uri

/-! The diagnostics of `didOpen` and `didSave`: those of the frontend as
`copyDiagnostics` names their files, and of these the ones that are published.
What an update does besides is its directory and the diagnostics it reports. -/
namespace Semindex.Lsp.Diagnostics
open Semindex.Support Semindex.Source Semindex.Database

section Publish

inductive Severity where
  | note | warning | error
  deriving DecidableEq

/-- `semindex_diagnostic_t`, and `SemindexIndexDiagnostic`. -/
structure Diagnostic where
  severity : Severity
  message : Text
  file : List Byte
  line : Nat
  column : Nat
  deriving DecidableEq

structure IndexUpdateResult where
  diagnostics : List Diagnostic
  diagnosticsTruncated : Bool

def copied (directory : List Byte) (diagnostic : Diagnostic) : Diagnostic :=
  let path := Pathname.ofText (latin diagnostic.file)
  let path := if path.rooted then path else (Pathname.ofText (latin directory)).append path
  { diagnostic with file := unlatin path.lexicallyNormal.text }

def copyDiagnostics (directory : List Byte) (limit : Nat) : List Diagnostic → IndexUpdateResult → IndexUpdateResult
  | [],result => result
  | diagnostic::rest,result =>
    if limit ≠ 0 && limit ≤ result.diagnostics.length then { result with diagnosticsTruncated := true }
    else copyDiagnostics directory limit rest
      { result with diagnostics := result.diagnostics ++ [copied directory diagnostic] }

/-- The mapper of a workspace, whose root is absolute and made of bytes. -/
structure WorkspaceSources extends LspSourceMapper where
  absolute : resolver.root.rooted = true
  bytes : ByteNames resolver.root

def filePath (uri : List Byte) : Option (List Byte) := (pathFromUri uri).filter (fun path => path.head? = some slash)

/-- `setRootUri`, where the repository of a path is found outside. -/
def WorkspaceSources.setRootUri (repositoryRoot : List Byte → Option (List Byte)) (sources : WorkspaceSources)
    (uri : List Byte) : Option WorkspaceSources :=
  (filePath uri).bind (fun path =>
    let root := (repositoryRoot path).getD path
    if rooted : (Pathname.ofText (latin root)).rooted = true then
      some {sources with
        resolver := ⟨normalize (latin root)⟩
        absolute := normal_rooted rooted (ofText_bytes root)
        bytes := normal_bytes rooted (ofText_bytes root)}
    else none)

structure LspDiagnostic where
  range : LspRange
  severity : Nat
  source : Text
  message : Text
  deriving DecidableEq

structure PublishDiagnostics where
  uri : List Byte
  diagnostics : List LspDiagnostic
  deriving DecidableEq

def severityNumber : Severity → Nat
  | .error => 1
  | .warning => 2
  | .note => 3

variable (sources : WorkspaceSources)

def WorkspaceSources.fileName (file : List Byte) : List Byte := unlatin (sources.uri (latin file))

-- `LspSourceMapper::uri` with its encoding
def WorkspaceSources.fileUri (file : List Byte) : List Byte := uriFromPath (sources.fileName file)

def lspDiagnostic (diagnostic : Diagnostic) : LspDiagnostic :=
  let path := latin diagnostic.file
  let record : DbRecord := ⟨[],path,[' '],[],.declaration,0,0,0,diagnostic.line,diagnostic.column,0,0,false⟩
  ⟨range (sources.lines (resolve sources.resolver path).text) record,severityNumber diagnostic.severity,
    "semindex".toList,diagnostic.message⟩

/-- `none` is a request without a file, which publishes nothing. -/
def didSave (update : List Byte → List Byte × List Diagnostic) (document : Option (List Byte)) : Option PublishDiagnostics :=
  document.bind (fun uri => (filePath uri).map (fun file =>
    let (directory,reported) := update file
    let result := copyDiagnostics directory 0 reported ⟨[],false⟩
    ⟨uri,result.diagnostics.filterMap (fun diagnostic =>
      if diagnostic.file = [] || sources.fileUri diagnostic.file ≠ uri then none
      else some (lspDiagnostic sources diagnostic))⟩))

end Publish

section Concerns
variable (sources : WorkspaceSources) (update : List Byte → List Byte × List Diagnostic)

/-- The diagnostic is of the file at the path. -/
def Concerns (path : List Byte) (diagnostic : Diagnostic) : Prop :=
  diagnostic.file ≠ [] ∧ sources.fileName diagnostic.file = path

instance (path : List Byte) (diagnostic : Diagnostic) : Decidable (Concerns sources path diagnostic) :=
  inferInstanceAs (Decidable (_ ∧ _))

/-- The diagnostics of an update of the file, their names resolved against its directory. -/
def diagnosticsOf (file : List Byte) : List Diagnostic := (update file).2.map (copied (update file).1)

/-- All diagnostics of the file at the path, and no others. -/
def Complete (uri path : List Byte) : Prop :=
  didSave sources update (some uri) =
    some ⟨uri,((diagnosticsOf update path).filter (fun diagnostic => Concerns sources path diagnostic)).map (lspDiagnostic sources)⟩

end Concerns

section Copy
variable {directory : List Byte}

theorem copyDiagnostics_all (reported : List Diagnostic) (result : IndexUpdateResult) :
    (copyDiagnostics directory 0 reported result).diagnostics = result.diagnostics ++ reported.map (copied directory) := by
  induction reported generalizing result with
  | nil => exact (List.append_nil _).symm
  | cons diagnostic rest ih =>
    rw [copyDiagnostics,if_neg (by simp),ih,List.append_assoc]
    rfl

theorem append_bytes {path other : Pathname} (first : ByteNames path) (second : ByteNames other) : ByteNames (path.append other) := by
  have empty : ∀ c ∈ ([] : Text), c.toNat < 256 ∧ c ≠ '/' := by simp
  intro name listed
  have origin : name = [] ∨ name ∈ path.names ∨ name ∈ other.names := by
    unfold Pathname.append at listed
    split at listed
    · exact .inr (.inr listed)
    · split at listed
      · rcases List.mem_append.mp listed with kept | added
        · exact .inr (.inl (List.mem_of_mem_dropLast kept))
        · split at added
          · exact .inl (List.mem_singleton.mp added)
          · exact .inr (.inr added)
      · split at listed
        · exact .inr (.inr listed)
        · rcases List.mem_append.mp listed with kept | added
          · exact .inr (.inl kept)
          · split at added
            · exact .inl (List.mem_singleton.mp added)
            · exact .inr (.inr added)
  rcases origin with rfl | own | appended
  · exact empty
  · exact first name own
  · exact second name appended

theorem append_rooted {path other : Pathname} (rooted : path.rooted = true) : (path.append other).rooted = true := by
  unfold Pathname.append
  split
  · assumption
  · split
    · exact rooted
    · split
      · exact rooted
      · exact rooted

variable (sources : WorkspaceSources) (file : List Byte)

-- whatever a file is called, its name is absolute and normal
theorem fileName_normal : (sources.fileName file).head? = some slash ∧ normalBytes (sources.fileName file) = sources.fileName file := by
  unfold WorkspaceSources.fileName LspSourceMapper.uri resolve resolveAgainst
  have names := ofText_bytes file
  split
  · rename_i rooted
    exact ⟨normal_absolute rooted names,normal_again rooted names⟩
  · have rooted := @append_rooted _ (Pathname.ofText (latin file)) sources.absolute
    have both := append_bytes sources.bytes names
    exact ⟨normal_absolute rooted both,normal_again rooted both⟩

end Copy

section Published
variable (sources : WorkspaceSources) (update : List Byte → List Byte × List Diagnostic) {uri path : List Byte}

theorem filePath_some (found : filePath uri = some path) : pathFromUri uri = some path := by
  unfold filePath at found
  exact (Option.filter_eq_some_iff.mp found).1

-- only diagnostics of the file have its URI
theorem fileUri_own {file : List Byte} (found : filePath uri = some path) (same : sources.fileUri file = uri) :
    sources.fileName file = path := by
  obtain ⟨absolute,normal⟩ := fileName_normal sources file
  apply path_unique absolute normal
  unfold WorkspaceSources.fileUri at same
  rw [same]
  exact filePath_some found

theorem didSave_eq (found : filePath uri = some path) : didSave sources update (some uri) = some ⟨uri,
    ((diagnosticsOf update path).filter (fun diagnostic => diagnostic.file ≠ [] ∧ sources.fileUri diagnostic.file = uri)).map
      (lspDiagnostic sources)⟩ := by
  have kept (diagnostics : List Diagnostic) : diagnostics.filterMap (fun diagnostic =>
      if diagnostic.file = [] || sources.fileUri diagnostic.file ≠ uri then none else some (lspDiagnostic sources diagnostic)) =
      (diagnostics.filter (fun diagnostic => diagnostic.file ≠ [] ∧ sources.fileUri diagnostic.file = uri)).map
        (lspDiagnostic sources) := by
    induction diagnostics with
    | nil => rfl
    | cons diagnostic rest ih =>
      by_cases own : diagnostic.file ≠ [] ∧ sources.fileUri diagnostic.file = uri
      · rw [List.filterMap_cons_some (by rw [if_neg (by simpa using own)]),List.filter_cons_of_pos (by simpa using own),ih]
        rfl
      · rw [List.filterMap_cons_none (by rw [if_pos (by simpa [Classical.or_iff_not_imp_left] using own)]),
          List.filter_cons_of_neg (by simpa using own),ih]
  unfold didSave
  rw [Option.bind_some,found,Option.map_some]
  dsimp only
  rw [copyDiagnostics_all,List.nil_append,kept]
  rfl

/-- The file's diagnostics are published, all and only, exactly where the client
spells its URI as the server does or the file has none. -/
theorem published_iff : (∀ path, filePath uri = some path → Complete sources update uri path) ↔
    ∀ path, filePath uri = some path → uriFromPath path = uri ∨
      ∀ diagnostic ∈ diagnosticsOf update path, ¬ Concerns sources path diagnostic := by
  refine forall₂_congr (fun path found => ?_)
  unfold Complete
  rw [didSave_eq sources update found]
  have only {diagnostic : Diagnostic} (kept : diagnostic.file ≠ [] ∧ sources.fileUri diagnostic.file = uri) :
      Concerns sources path diagnostic := ⟨kept.1,fileUri_own sources found kept.2⟩
  constructor
  · intro complete
    by_cases spelled : uriFromPath path = uri
    · exact .inl spelled
    · right
      intro diagnostic listed concerns
      have lists := (PublishDiagnostics.mk.inj (Option.some.inj complete)).2
      have none : (diagnosticsOf update path).filter
          (fun diagnostic => diagnostic.file ≠ [] ∧ sources.fileUri diagnostic.file = uri) = [] := by
        rw [List.filter_eq_nil_iff]
        intro other _ kept
        have own := of_decide_eq_true kept
        apply spelled
        rw [← fileUri_own sources found own.2]
        exact own.2
      rw [none] at lists
      have empty := List.map_eq_nil_iff.mp lists.symm
      exact List.filter_eq_nil_iff.mp empty diagnostic listed (decide_eq_true concerns)
  · intro condition
    congr 3
    apply List.filter_congr
    intro diagnostic listed
    rw [decide_eq_decide]
    refine ⟨only,fun concerns => ?_⟩
    rcases condition with spelled | free
    · refine ⟨concerns.1,?_⟩
      unfold WorkspaceSources.fileUri
      rw [concerns.2]
      exact spelled
    · exact absurd concerns (free diagnostic listed)

section LowerCase

def rootSources : WorkspaceSources where
  resolver := ⟨⟨true,[]⟩⟩
  cwd := ['/']
  lines := fun _ => []
  absolute := rfl
  bytes := by simp [ByteNames]

/-- `a+b`, with one error. -/
def plusError : List Byte → List Byte × List Diagnostic :=
  fun _ => ([slash],[⟨.error,[],[slash,97,43,98],1,1⟩])

/-- The URI of `/a+b` with its escape in lower case. -/
def plusUri : List Byte := scheme ++ [slash,97,percent,50,98,98]

theorem lower_case_cleared : ¬ ∀ sources update uri path, filePath uri = some path → Complete sources update uri path := by
  intro holds
  have found : filePath plusUri = some [slash,97,43,98] := by decide
  have published := congrArg (Option.map (fun message => message.diagnostics.length)) (holds rootSources plusError plusUri _ found)
  exact absurd published (by decide)

end LowerCase
end Published

end Semindex.Lsp.Diagnostics
