import Semindex.IndexDb.Variants
import Semindex.Mcp.Pages
import Semindex.Mcp.SourceTools
import Semindex.Support.Within

/-! The tools and the workspace: what a call looks at lies in the workspace, what it stores
is of a file there, and the list of the variants can be paged through. -/
namespace Semindex.Mcp.Tools
open Semindex.Relational Semindex.IndexDb Semindex.Database Semindex.Json Semindex.Source Semindex.Update
open Semindex.Mcp.Requests (Members Control McpToolResult stoppedResult)
open Semindex.Mcp.Cursors
open Semindex.Source.Drift (SemindexSourceRequest SemindexSourceResult GitBlob)
open Semindex.Lsp (Turn)
open Semindex.CommandDb (CString)

section Confined
variable {machine other : Machine} {workspace cwd : Canonical} {arguments : Option Members} {path : Pathname}

/-- What `std::filesystem::weakly_canonical` promises. -/
def Machine.Lawful (machine : Machine) : Prop := ∀ path resolved, path.rooted = true →
  machine.weaklyCanonical path = some resolved → ∃ file separated, resolved = Canonical.form file separated

/-- Names lead to the same places on both machines, and these are the same in the workspace. -/
structure Alike (workspace : Canonical) (machine other : Machine) : Prop where
  cwd : machine.cwd = other.cwd
  resolved : machine.weaklyCanonical = other.weaklyCanonical
  files : ∀ path, workspace.Below path → machine.file path = other.file path
  blobs : ∀ repository : Canonical, workspace.names <+: repository.names → ∀ commit path,
    machine.gitBlob repository.text commit path = other.gitBlob repository.text commit path

-- the same saved commands are found for the files of the workspace
def SavedAlike (workspace : Canonical) (turn elsewhere : Turn) : Prop := ∀ path, workspace.Below path → ∀ variant,
  commandAvailable turn.out turn.unreadable turn.looked (CString.ofText path.text) variant =
    commandAvailable elsewhere.out elsewhere.unreadable elsewhere.looked (CString.ofText path.text) variant

/-- The repositories of the variants are in the workspace. -/
def Housed (workspace : Canonical) (db : Db) : Prop := ∀ variant row, db.variants.lookup variant = some row →
  ∀ root, row.repositoryRoot = some root → root ≠ [] →
    ∃ repository : Canonical, root = repository.text ∧ workspace.names <+: repository.names

theorem allowedPath_below (lawful : machine.Lawful) (allowed : allowedPath machine workspace arguments = some path) :
    ∃ file separated, path = Canonical.form file separated ∧ workspace.Below path := by
  unfold allowedPath at allowed
  split at allowed
  · cases allowed
  · rename_i value named
    split_ifs at allowed with empty
    dsimp only at allowed
    have rooted : (if (Pathname.ofText value).rooted = true then Pathname.ofText value
        else workspace.path.append (Pathname.ofText value)).rooted = true := by
      split_ifs with absolute
      · exact absolute
      · unfold Pathname.append Canonical.path
        split_ifs <;> rfl
    split at allowed
    · cases allowed
    · rename_i resolved known
      split_ifs at allowed with within
      cases allowed
      obtain ⟨file,separated,rfl⟩ := lawful _ _ rooted known
      refine ⟨file,separated,rfl,?_⟩
      unfold isWithin at within
      simp only [Bool.and_eq_true,decide_eq_true_eq] at within
      exact Canonical.below_of_relative rfl Canonical.form_plain.1 within.2

theorem mem_databasePaths {resolver : SourceResolver} {directory source candidate : Text}
    (member : candidate ∈ databasePaths resolver directory source) : candidate = (Source.normalize source).text ∨ ∃ base,
      inside ((Source.normalize source).lexicallyRelative base) = true ∧ candidate = ((Source.normalize source).lexicallyRelative base).text := by
  unfold databasePaths at member
  dsimp only at member
  split at member
  · cases member
  · have listed : candidate ∈ (Source.normalize source).text ::
        (if inside ((Source.normalize source).lexicallyRelative resolver.root) = true then
          [((Source.normalize source).lexicallyRelative resolver.root).text] else []) → candidate = (Source.normalize source).text ∨ ∃ base,
        inside ((Source.normalize source).lexicallyRelative base) = true ∧ candidate = ((Source.normalize source).lexicallyRelative base).text := by
      intro first
      rcases List.mem_cons.mp first with whole | relative
      · exact .inl whole
      · split_ifs at relative with ahead
        · exact .inr ⟨resolver.root,ahead,List.mem_singleton.mp relative⟩
        · cases relative
    generalize (Source.normalize source).text ::
      (if inside ((Source.normalize source).lexicallyRelative resolver.root) = true then
        [((Source.normalize source).lexicallyRelative resolver.root).text] else []) = result at listed member
    split_ifs at member with both
    · rcases List.mem_append.mp member with first | last
      · exact listed first
      · exact .inr ⟨_,(Bool.and_eq_true _ _ ▸ both).1,List.mem_singleton.mp last⟩
    · exact listed member

/-- Every spelling of a file of the workspace leads into the workspace. -/
theorem candidate_below {file : Canonical} {separated : Bool} {candidate : Text}
    (below : workspace.Below (Canonical.form file separated))
    (member : candidate ∈ databasePaths ⟨workspace.path⟩ cwd.text (Canonical.form file separated).text) :
    workspace.Below (Source.resolve ⟨workspace.path⟩ candidate) := by
  have normal : Source.normalize (Canonical.form file separated).text = Canonical.form file separated := by
    rw [Source.normalize,Canonical.ofText_form,Canonical.form_normal]
  rcases mem_databasePaths member with rfl | ⟨base,ahead,rfl⟩
  · have rooted : (Canonical.form file separated).rooted = true := rfl
    rw [normal,Source.resolve,resolveAgainst,Canonical.ofText_form,normal,if_pos rooted]
    exact below
  · rw [normal] at ahead ⊢
    simp only [inside,Bool.and_eq_true,Bool.not_eq_true',decide_eq_true_eq] at ahead
    obtain ⟨first,rest,spelled,nonempty,names⟩ := Canonical.relative_names ahead.1 ahead.2
    have plain : ∀ name ∈ first::rest, '/' ∉ name ∧ name ≠ Pathname.dotdot := by
      intro name listed
      rcases names name listed with rfl | own
      · decide
      · exact ⟨Canonical.form_plain.2 name own,fun up => Canonical.form_plain.1 (up ▸ own)⟩
    obtain ⟨flat,read⟩ := Canonical.ofText_relative nonempty (fun name listed => (plain name listed).1)
    rw [spelled,Source.resolve,resolveAgainst,if_neg (by simp [flat])]
    apply Canonical.normal_below
    apply Canonical.append_below flat
    intro up
    rcases read _ up with none | listed
    · cases none
    · exact (plain _ listed).2 rfl

theorem firstSource_congr {read again : Text → Option SemindexSourceResult} {paths : List Text}
    (same : ∀ candidate ∈ paths, read candidate = again candidate) : firstSource read paths = firstSource again paths := by
  induction paths with
  | nil => rfl
  | cons candidate rest ih =>
    rw [List.forall_mem_cons] at same
    rw [firstSource,firstSource,same.1,ih same.2]

variable {db : Db} {request : SemindexSourceRequest} {lib : JsonLibrary} {configured : Text} {control : Control}

theorem readSource_alike (alike : Alike workspace machine other) (housed : Housed workspace db)
    (below : workspace.Below (Source.resolve ⟨workspace.path⟩ request.path)) :
    readSource machine db ⟨workspace.path⟩ request = readSource other db ⟨workspace.path⟩ request := by
  have tree : readWorkingTree machine db ⟨workspace.path⟩ request = readWorkingTree other db ⟨workspace.path⟩ request := by
    unfold readWorkingTree
    dsimp only
    rw [Drift.prepared,alike.files _ below]
  have blob : Drift.recordedBlob db machine.gitBlob request = Drift.recordedBlob db other.gitBlob request := by
    unfold Drift.recordedBlob
    split
    · rfl
    · rename_i row known
      dsimp only
      split_ifs with incomplete
      · rfl
      · simp only [Bool.or_eq_true,decide_eq_true_eq,not_or] at incomplete
        cases rooted : row.repositoryRoot with
        | none =>
          rw [rooted] at incomplete
          exact absurd rfl incomplete.1
        | some root =>
          rw [rooted,Option.getD_some] at incomplete
          obtain ⟨repository,rfl,inside⟩ := housed _ _ known root rooted incomplete.1
          rw [Option.getD_some]
          congr 1
          funext path
          exact alike.blobs repository inside _ _
  unfold readSource Drift.readSource Drift.readGitCommit
  rw [tree,blob]

theorem sourceArguments_alike (alike : Alike workspace machine other) (required : Bool) :
    sourceArguments machine workspace configured arguments required =
      sourceArguments other workspace configured arguments required := by
  unfold sourceArguments allowedPath
  rw [alike.resolved]

theorem sourceArguments_path {members : Members} {selected : Text} {required : Bool}
    (taken : sourceArguments machine workspace configured arguments required = some (members,path,selected)) :
    allowedPath machine workspace arguments = some path ∧ (required = true → selected ≠ []) ∧
      selectedVariant (variantArgument members) configured = some selected ∧ arguments = some members := by
  unfold sourceArguments at taken
  split at taken
  · rename_i allowed
    split at taken
    · cases taken
    · rename_i chosen
      split_ifs at taken with missing
      cases taken
      refine ⟨allowed,fun required => ?_,chosen,rfl⟩
      intro none
      exact missing (by simp [required,none])
  · cases taken

theorem sourceRequest_alike (lawful : machine.Lawful) (alike : Alike workspace machine other) (housed : Housed workspace db)
    (includeSource : Bool) : sourceRequest machine workspace lib configured control db arguments includeSource =
      sourceRequest other workspace lib configured control db arguments includeSource := by
  unfold sourceRequest
  rw [← sourceArguments_alike alike]
  split
  · rfl
  · rename_i members path selected taken
    obtain ⟨file,separated,rfl,below⟩ := allowedPath_below lawful (sourceArguments_path taken).1
    split
    · rfl
    · rename_i range parsed
      dsimp only
      rw [← alike.cwd,firstSource_congr]
      intro candidate member
      exact readSource_alike alike housed (candidate_below below member)

theorem symbolAt_alike (alike : Alike workspace machine other) :
    symbolAt machine workspace lib configured control db arguments =
      symbolAt other workspace lib configured control db arguments := by
  unfold symbolAt
  rw [sourceArguments_alike alike,alike.cwd]

namespace McpToolService
variable {service : McpToolService} {turn : Turn} {name : Text} {blake3 : List UInt8 → Fingerprint}
  {controls : Nat → Control} {opened : Option Db}

variable {elsewhere : Turn}

theorem indexStatus_alike (lawful : machine.Lawful) (alike : Alike service.workspace machine other)
    (housed : Housed service.workspace db) (saved : SavedAlike service.workspace turn elsewhere) :
    service.indexStatus machine lib turn control db arguments =
      service.indexStatus other lib elsewhere control db arguments := by
  unfold indexStatus
  rw [← sourceArguments_alike alike,← sourceRequest_alike lawful alike housed]
  split
  · rfl
  · rename_i members path selected taken
    obtain ⟨_,_,_,below⟩ := allowedPath_below lawful (sourceArguments_path taken).1
    rw [saved path below]

theorem query_alike (lawful : machine.Lawful) (alike : Alike service.workspace machine other)
    (housed : Housed service.workspace db) (saved : SavedAlike service.workspace turn elsewhere) :
    service.query machine lib turn control db arguments name =
      service.query other lib elsewhere control db arguments name := by
  unfold query readSourceContext
  rw [symbolAt_alike alike,sourceRequest_alike lawful alike housed,indexStatus_alike lawful alike housed saved]

theorem reindexFile_alike (alike : Alike service.workspace machine other) :
    service.reindexFile machine lib blake3 turn controls arguments =
      service.reindexFile other lib blake3 turn controls arguments := by
  unfold reindexFile
  rw [sourceArguments_alike alike]

/-- No tool tells two machines apart that are the same in the workspace, whatever else there is on them; only for
`reindex_file` the update must find the same. -/
theorem call_confined (lawful : machine.Lawful) (alike : Alike service.workspace machine other)
    (housed : ∀ db ∈ opened, Housed service.workspace db) :
    (name ≠ "reindex_file".toList → ∀ elsewhere, SavedAlike service.workspace turn elsewhere →
      (service.call machine lib blake3 turn controls arguments opened name).result =
        (service.call other lib blake3 elsewhere controls arguments opened name).result) ∧
    service.call machine lib blake3 turn controls arguments opened name =
      service.call other lib blake3 turn controls arguments opened name := by
  have same : SavedAlike service.workspace turn turn := fun _ _ _ => rfl
  unfold call
  constructor
  · intro reads elsewhere saved
    rw [if_neg reads,if_neg reads]
    cases opened with
    | none => split_ifs <;> rfl
    | some db =>
      dsimp only
      rw [query_alike lawful alike (housed db rfl) saved]
      split_ifs <;> rfl
  · rw [reindexFile_alike alike]
    cases opened with
    | none => rfl
    | some db =>
      dsimp only
      rw [query_alike lawful alike (housed db rfl) same]

end McpToolService
end Confined

section Shown
variable {machine : Machine} {workspace : Canonical} {lib : JsonLibrary} {configured : Text} {control : Control} {db : Db}
  {arguments : Option Members} {resolver : SourceResolver} {request : SemindexSourceRequest} {metadata : FileRow}

/-- What the machine finds of a source is what a reader gets while others write to the file. -/
def Finds (machine : Machine) (db : Db) (resolver : SourceResolver) (request : SemindexSourceRequest) (metadata : FileRow)
    (file after : Drift.File) : Prop :=
  Relation.ReflTransGen (Drift.Step resolver request metadata) ⟨file,Drift.begin db request⟩
    ⟨after,.returned (readWorkingTree machine db resolver request)⟩

-- a file that nobody writes to
def steadyFile : Option Drift.FileVersion → WorkingFile
  | none => ⟨.missing,none,.missing⟩
  | some version => ⟨.found version.st,some version.content,.found version.st⟩

-- the status of a lookup that does not read the lines
def lookedStatus : Option Source.SourceResult → Drift.SemindexSourceStatus
  | none => .notIndexed
  | some result => match result.status with
    | .current => .current
    | .missing => .missing
    | .drifted => .drifted

/-- While nobody writes to the file, the reader of the lines and the lookup without them find the same. -/
theorem readWorkingTree_status {fs : FileSystem} {now : Option Drift.FileVersion} (valid : Drift.validRequest request = true)
    (steady : machine.file (Drift.prepared resolver request).physicalPath = steadyFile now)
    (stat : fs.stat (Source.resolve resolver request.path).text = now.map Drift.FileVersion.st) :
    (readWorkingTree machine db resolver request).map SemindexSourceResult.status =
      some (lookedStatus (Source.readWorkingTree db resolver fs request.variant request.path)) := by
  unfold readWorkingTree Source.readWorkingTree
  rw [valid]
  simp only [Bool.not_true,Bool.false_eq_true,if_false]
  cases listed : db.files.lookup (request.variant,request.path) with
  | none => rfl
  | some metadata =>
    simp only [Option.map_some,lookedStatus]
    rw [steady,stat]
    cases now with
    | none => rfl
    | some version =>
      dsimp only [steadyFile,Option.map_some]
      have taken : readRange version.content request.range =
          some (fitting request.range.byteLimit (requested version.content request.range)) := readRange_fitting _ _
      cases same : metadataMatches metadata version.st with
      | false => rfl
      | true =>
        rw [Option.bind_some,taken]
        simp [same]

end Shown

section Reindexed
variable {machine : Machine} {lib : JsonLibrary} {service : McpToolService} {turn : Turn} {name : Text}
  {blake3 : List UInt8 → Fingerprint} {controls : Nat → Control} {arguments : Option Members} {opened : Option Db}

/-- The status that an answer reports, if it has one. -/
def reported (result : McpToolResult) : Option Text :=
  match result.status,result.data with
  | .success,.object data => getString data "status"
  | _,_ => none

/-- The symbols of a file are stored, by its saved command. -/
def Stored (service : McpToolService) (turn : Turn) (blake3 : List UInt8 → Fingerprint) (path : Pathname) (selected : Text)
    (control : Control) (symbols : Connection Shared) : Prop :=
  ∃ known, Update.resolve turn.out service.updater.resolver turn.unreadable turn.looked (CString.ofText path.text)
      (CString.ofText selected) = .ok known ∧ known.source = .saved ∧
    Published turn.out (service.updater.pipelineRequest (McpToolService.updateRequest path selected control) known) blake3
      turn.shared symbols

/-- What an indexed file leaves: one of the workspace, in the configured variant; and the answer says whether it is stored,
unless the request is stopped meanwhile. -/
structure Reindexed (service : McpToolService) (machine : Machine) (turn : Turn) (blake3 : List UInt8 → Fingerprint)
    (controls : Nat → Control) (arguments : Option Members) (called : Called) (path : Pathname) (selected : Text) : Prop where
  allowed : allowedPath machine service.workspace arguments = some path
  below : service.workspace.Below path
  variant : selected ≠ [] ∧ (service.variant ≠ [] → selected = service.variant)
  symbols : Stored service turn blake3 path selected (controls 2) called.symbols ∨
    Since SchemaCommit (.new turn.shared) called.symbols
  told : (controls 3).stopped = false →
    (reported called.result = some "clean".toList ∨ reported called.result = some "partial".toList) ∧
        Stored service turn blake3 path selected (controls 2) called.symbols ∨
      reported called.result = some "failed".toList ∧ Since SchemaCommit (.new turn.shared) called.symbols

theorem reported_update (variant : Text) (path : Pathname) (update : UpdateResult) :
    reported ⟨.success,McpToolService.updateObject lib variant path update,[]⟩ =
      some (McpToolService.updateStatusName update.status) := by
  unfold reported McpToolService.updateObject
  dsimp only
  rw [getString,get_append]
  split_ifs
  · rfl
  · rfl

theorem reported_stopped (control : Control) : reported (stoppedResult control) = none := by
  unfold stoppedResult
  split <;> rfl

theorem selectedVariant_configured {variant : Option (Option Text)} {configured selected : Text}
    (chosen : selectedVariant variant configured = some selected) : configured ≠ [] → selected = configured := by
  intro given
  unfold selectedVariant at chosen
  split at chosen
  · exact (Option.some.inj chosen).symm
  · cases chosen
  · rename_i value
    split_ifs at chosen with other
    rw [← Option.some.inj chosen]
    by_contra apart
    exact other ⟨given,apart⟩

theorem reindexFile_accounted (lawful : machine.Lawful) :
    (service.reindexFile machine lib blake3 turn controls arguments).commands = turn.commands ∧
      ((service.reindexFile machine lib blake3 turn controls arguments).symbols = .new turn.shared ∧
          reported (service.reindexFile machine lib blake3 turn controls arguments).result = none ∨ ∃ path selected,
        Reindexed service machine turn blake3 controls arguments
          (service.reindexFile machine lib blake3 turn controls arguments) path selected) := by
  unfold McpToolService.reindexFile
  split
  · exact ⟨rfl,.inl ⟨rfl,rfl⟩⟩
  · rename_i members path selected taken
    obtain ⟨allowed,named,chosen,_⟩ := sourceArguments_path taken
    by_cases stopped : (controls 1).stopped = true
    · rw [if_pos stopped]
      exact ⟨rfl,.inl ⟨rfl,reported_stopped _⟩⟩
    · obtain ⟨_,_,_,below⟩ := allowedPath_below lawful allowed
      have saved := @update_saved turn.out service.updater (McpToolService.updateRequest path selected (controls 2)) blake3
        turn.shared turn.commands turn.env turn.unreadable turn.looked ⟨rfl,rfl⟩ rfl
      change (service.updated blake3 turn controls path selected).commands = _ ∧ ((service.updated blake3 turn controls path
        selected).result.status ≠ .failed ∧ Stored service turn blake3 path selected (controls 2)
          (service.updated blake3 turn controls path selected).symbols ∨ _) at saved
      obtain ⟨commands,ends⟩ := saved
      rw [if_neg stopped]
      refine ⟨commands,.inr ⟨path,selected,allowed,below,⟨named rfl,selectedVariant_configured chosen⟩,?_,fun going => ?_⟩⟩
      · rcases ends with ⟨_,stored⟩ | ⟨_,since⟩
        · exact .inl stored
        · exact .inr since
      · dsimp only
        rw [going,if_neg Bool.false_ne_true,reported_update]
        rcases ends with ⟨status,stored⟩ | ⟨status,since⟩
        · refine .inl ⟨?_,stored⟩
          cases known : (service.updated blake3 turn controls path selected).result.status with
          | clean => exact .inl rfl
          | incomplete => exact .inr rfl
          | failed => exact absurd known status
        · have told : (service.updated blake3 turn controls path selected).result.status = .failed := status
          exact .inr ⟨by rw [told]; rfl,since⟩

/-- Whatever a client calls, the commands stay as they are; the symbols too, unless it is allowed to index a file. -/
theorem call_accounted (lawful : machine.Lawful) :
    (service.call machine lib blake3 turn controls arguments opened name).commands = turn.commands ∧
      ((service.call machine lib blake3 turn controls arguments opened name).symbols = .new turn.shared ∧
          (name = "reindex_file".toList →
            reported (service.call machine lib blake3 turn controls arguments opened name).result = none) ∨
        name = "reindex_file".toList ∧ service.allowReindex = true ∧ ∃ path selected,
          Reindexed service machine turn blake3 controls arguments
            (service.call machine lib blake3 turn controls arguments opened name) path selected) := by
  unfold McpToolService.call
  by_cases stopped : (controls 0).stopped = true
  · rw [if_pos stopped]
    exact ⟨rfl,.inl ⟨rfl,fun _ => reported_stopped _⟩⟩
  rw [if_neg stopped]
  by_cases named : name = "reindex_file".toList
  · rw [if_pos named]
    by_cases allowed : service.allowReindex = true
    · rw [if_pos allowed]
      obtain ⟨commands,untouched | indexed⟩ := @reindexFile_accounted machine lib service turn blake3 controls arguments lawful
      · exact ⟨commands,.inl ⟨untouched.1,fun _ => untouched.2⟩⟩
      · exact ⟨commands,.inr ⟨named,allowed,indexed⟩⟩
    · rw [if_neg allowed]
      exact ⟨rfl,.inl ⟨rfl,fun _ => rfl⟩⟩
  · rw [if_neg named]
    cases opened with
    | none => exact ⟨rfl,.inl ⟨rfl,fun same => absurd same named⟩⟩
    | some db =>
      dsimp only
      split <;> exact ⟨rfl,.inl ⟨rfl,fun same => absurd same named⟩⟩

end Reindexed

section Listed
variable {lib : JsonLibrary} {db : Db} {control : Control} {configured selected after : Text} {limit : Nat} {members : Members}
  {blake3 : List UInt8 → Fingerprint}

theorem mem_variantRows {variant : DbVariant} : variant ∈ variantRows db ↔
    db.variants.lookup variant.name = some ⟨variant.gitCommit,variant.repositoryRoot⟩ := by
  rw [variantRows,mem_orderBy,List.mem_map]
  constructor
  · rintro ⟨⟨name,row⟩,member,rfl⟩
    exact Table.mem_rows_iff.mp member
  · intro known
    exact ⟨(variant.name,⟨variant.gitCommit,variant.repositoryRoot⟩),Table.mem_rows_iff.mpr known,rfl⟩

theorem variantRows_sorted : (variantRows db).Pairwise (fun a b => a.name < b.name) := by
  apply orderBy_pairwise
  rw [Distinct,List.pairwise_map]
  exact Table.rows_distinct

/-- The variants that a client is shown: all, or the one that the server is configured for. -/
def shownVariants (configured : Text) (db : Db) : List DbVariant :=
  (variantRows db).filter (fun variant => configured = [] || configured = variant.name)

theorem emit_collectVariant (going : control.stopped = false) (count : Nat) (rows : List DbVariant)
    (records : List VariantRecord) (room : records.length ≤ limit) :
    (emitCounted (collectVariant control selected after limit) 0 count rows ⟨records,false⟩).1 =
        ⟨records ++ (((rows.filter (fun variant => selected = [] || selected = variant.name)).filter
          (fun variant => after = [] || after < variant.name)).map variantRecord).take (limit + 1 - records.length),false⟩ ∧
      0 ≤ (emitCounted (collectVariant control selected after limit) 0 count rows ⟨records,false⟩).2 := by
  induction rows generalizing count records with
  | nil => simp [emitCounted]
  | cons variant rows ih =>
    have behind : (decide (after = []) || decide (after < variant.name)) =
        !(decide (after ≠ []) && decide (variant.name ≤ after)) := by
      rw [Bool.not_and,decide_not,Bool.not_not,← decide_not,decide_eq_decide.mpr not_le]
    have chosen : (decide (selected = []) || decide (selected = variant.name)) =
        !(decide (selected ≠ []) && decide (selected ≠ variant.name)) := by simp
    rw [emitCounted,collectVariant,going,if_pos (by simp),if_neg Bool.false_ne_true,List.filter_cons,chosen]
    by_cases skipped : (decide (after ≠ []) && decide (variant.name ≤ after)) = true
    · rw [if_pos skipped]
      rw [skipped] at behind
      split_ifs
      · rw [List.filter_cons,behind]
        exact ih _ _ room
      · exact ih _ _ room
    · rw [if_neg skipped]
      rw [Bool.eq_false_iff.mpr skipped] at behind
      by_cases other : (decide (selected ≠ []) && decide (selected ≠ variant.name)) = true
      · rw [if_pos other,other]
        exact ih _ _ room
      · have left : limit + 1 - records.length = (limit - records.length) + 1 := by omega
        rw [if_neg other,Bool.eq_false_iff.mpr other,Bool.not_false,if_pos rfl,List.filter_cons,behind,Bool.not_false,
          if_pos rfl,List.map_cons,left,List.take_succ_cons]
        dsimp only
        by_cases full : limit < (records ++ [variantRecord variant]).length
        · have last : limit - records.length = 0 := by
            rw [List.length_append,List.length_singleton] at full
            omega
          rw [if_pos full,last]
          simp
        · have more := ih (count+1) (records ++ [variantRecord variant]) (by omega)
          have rest : limit + 1 - (records ++ [variantRecord variant]).length = limit - records.length := by simp
          rw [rest,List.append_assoc] at more
          rw [if_neg full]
          exact more

theorem shown_listVariants (going : control.stopped = false) (limited : 1 ≤ limit ∧ limit ≤ MAX_LIMIT) (cursor : Option Text) :
    shown "variants" (listVariants lib db configured control (some (asked members limit cursor))) =
      some (shownPage (variantObject ∘ variantRecord) DbVariant.name ((shownVariants configured db).filter
        (fun variant => cursor.getD [] = [] || cursor.getD [] < variant.name)) limit) := by
  have list : shown "variants" (answer control (semindexDbListVariants db (collectVariant control configured (cursor.getD []) limit)
      ⟨[],false⟩) (fun variants => pageResult "variants" variantObject VariantRecord.name variants limit)) =
      some (shownPage (variantObject ∘ variantRecord) DbVariant.name ((shownVariants configured db).filter
        (fun variant => cursor.getD [] = [] || cursor.getD [] < variant.name)) limit) := by
    obtain ⟨records,done⟩ := @emit_collectVariant control configured (cursor.getD []) limit going 0 (variantRows db) [] (Nat.zero_le _)
    rw [semindexDbListVariants]
    generalize emitCounted _ 0 0 _ _ = result at records done
    obtain ⟨collector,ret⟩ := result
    dsimp only at records done
    subst records
    unfold answer
    dsimp only
    rw [going,Bool.or_false,if_neg Bool.false_ne_true,if_neg (by omega),List.nil_append,List.length_nil,Nat.sub_zero,
      shown_pageResult _ _ _ (by decide),shownPage_map]
    rfl
  unfold listVariants cursorArgument
  dsimp only [Option.getD_some]
  rw [limit_asked limited,get_cursor]
  cases cursor <;> exact list

theorem unnamed_absent (reached : Reachable blake3 (Storable blake3) db) : db.variants.lookup [] = none := by
  induction reached with
  | empty => rfl
  | store db after job reached member stored ih =>
    have absent := stores_lists stored []
    rw [ih,decide_eq_false (Ne.symm (storable_named member))] at absent
    simpa using absent

/-- A client that follows the cursors is told of every variant, or of the configured one, in order and once. -/
theorem variant_pages_complete {limits : Nat → Nat} (reached : Reachable blake3 (Storable blake3) db)
    (going : control.stopped = false) (limited : ∀ n, 1 ≤ limits n ∧ limits n ≤ MAX_LIMIT) :
    (∃ calls, follow (fun cursor limit => shown "variants" (listVariants lib db configured control
      (some (asked members limit cursor)))) limits calls 0 none =
        some ((shownVariants configured db).map (variantObject ∘ variantRecord))) ∧
    (shownVariants configured db).Pairwise (fun a b => a.name < b.name) ∧
    ∀ variant, variant ∈ shownVariants configured db ↔ (configured = [] ∨ configured = variant.name) ∧
      db.variants.lookup variant.name = some ⟨variant.gitCommit,variant.repositoryRoot⟩ := by
  have sorted : (shownVariants configured db).Pairwise (fun a b => a.name < b.name) := variantRows_sorted.filter _
  have listed : ∀ variant, variant ∈ shownVariants configured db ↔ (configured = [] ∨ configured = variant.name) ∧
      db.variants.lookup variant.name = some ⟨variant.gitCommit,variant.repositoryRoot⟩ := by
    intro variant
    rw [shownVariants,List.mem_filter,mem_variantRows,and_comm,Bool.or_eq_true,decide_eq_true_eq,decide_eq_true_eq]
  have unnamed := unnamed_absent reached
  have turns : Turns (variantObject ∘ variantRecord) DbVariant.name (fun cursor limit => shown "variants"
      (listVariants lib db configured control (some (asked members limit cursor)))) limits (shownVariants configured db)
        (fun _ => True) := by
    constructor
    · exact fun n => (limited n).1
    · intro n
      rw [shown_listVariants going (limited n)]
      simp
    · intro n m variant here
      have present : variant.name ≠ [] := by
        intro none
        have known := ((listed variant).mp (List.mem_of_getElem? here)).2
        rw [none,unnamed] at known
        cases known
      rw [shown_listVariants going (limited n),if_pos trivial,← filter_after sorted here]
      congr 3
      funext other
      simp [present]
  exact ⟨turns.follow_iff.mpr (fun _ _ _ _ => trivial),sorted,listed⟩

end Listed

section Samples

-- a file system without links
def plainName (path : Pathname) : Option Pathname :=
  if path.rooted = true ∧ ∀ name ∈ path.names, '/' ∉ name then some path.lexicallyNormal else none

def sampleFile : WorkingFile := ⟨.found ⟨0,0,1,2,false⟩,some [97,10],.found ⟨0,0,1,2,false⟩⟩

def missingFile : WorkingFile := ⟨.missing,none,.missing⟩

def sampleWorkspace : Canonical := ⟨["d".toList],by
  intro name member
  rw [List.mem_singleton.mp member]
  exact ⟨by decide,by decide,by decide,by decide⟩⟩

-- `/d/f`, and perhaps `/e` next to the workspace
def sampleMachine (outside : WorkingFile) : Machine where
  cwd := Canonical.root
  weaklyCanonical := plainName
  file path := if path = ⟨true,["d".toList,"f".toList]⟩ then sampleFile
    else if path = ⟨true,["e".toList]⟩ then outside else missingFile
  gitBlob _ _ _ := .unavailable

theorem sampleMachine_lawful (outside : WorkingFile) : (sampleMachine outside).Lawful := by
  intro path resolved rooted known
  change plainName path = some resolved at known
  unfold plainName at known
  split_ifs at known with plain
  obtain ⟨file,separated,same,_⟩ := Canonical.normal_form plain.1 plain.2
  cases known
  exact ⟨file,separated,same⟩

def sampleService : McpToolService := ⟨sampleWorkspace,[],true,true⟩

def sampleDb : Db :=
  { Db.empty with
    files := (∅ : Table (Text × Text) FileRow).insert ("v".toList,"f".toList) ⟨0,1,2⟩
    variants := (∅ : Table Text VariantRow).insert "v".toList ⟨some "c".toList,some sampleWorkspace.text⟩ }

/-- The saved command of `/d/f`, and a compiler that finds a few symbols. -/
def sampleTurn : Turn where
  out := {sampleSurroundings with fs := tableFs [(sampleWorkspace.text,sampleWorkspace.text,⟨1,1,1,1,true⟩)]}
  env := undisturbed
  unreadable := false
  looked := (storeCommand sampleSurroundings sampleCall.request (some sampleCommand) none).2
  shared := emptyFile
  commands := none

def sampleArguments : Members := [("path".toList,.string "f".toList),("variant".toList,.string "v".toList)]

theorem call_confined_sample : (sampleService.call (sampleMachine missingFile) plainLibrary foldHash sampleTurn
      (fun _ => .new) (some sampleArguments) (some sampleDb) "read_source_context".toList).result =
    (sampleService.call (sampleMachine sampleFile) plainLibrary foldHash {sampleTurn with out := {sampleTurn.out with creates := false}}
      (fun _ => .new) (some sampleArguments) (some sampleDb) "read_source_context".toList).result ∧
    reported (sampleService.call (sampleMachine missingFile) plainLibrary foldHash sampleTurn (fun _ => .new)
      (some sampleArguments) (some sampleDb) "read_source_context".toList).result = some "current".toList := by
  have alike : Alike sampleService.workspace (sampleMachine missingFile) (sampleMachine sampleFile) := by
    refine ⟨rfl,rfl,fun path below => ?_,fun _ _ _ _ => rfl⟩
    obtain ⟨rest,rfl,_⟩ := below
    simp [sampleMachine,sampleService,sampleWorkspace]
  have housed : ∀ db ∈ some sampleDb, Housed sampleService.workspace db := by
    intro db opened variant row known root rooted _
    cases opened
    refine ⟨sampleWorkspace,?_,List.prefix_refl _⟩
    by_cases same : variant = "v".toList
    · rw [same] at known
      cases (AList.lookup_insert _).symm.trans known
      exact (Option.some.inj rooted).symm
    · have absent : sampleDb.variants.lookup variant = none := AList.lookup_insert_ne same
      rw [absent] at known
      cases known
  exact ⟨(McpToolService.call_confined (sampleMachine_lawful _) alike housed).1 (by decide) _ (fun _ _ _ => rfl),
    by decide +kernel⟩

theorem call_accounted_sample : ∃ path selected, Stored sampleService sampleTurn foldHash path selected .new
    (sampleService.call (sampleMachine missingFile) plainLibrary foldHash sampleTurn (fun _ => .new) (some sampleArguments)
      none "reindex_file".toList).symbols := by
  have said : reported (sampleService.call (sampleMachine missingFile) plainLibrary foldHash sampleTurn (fun _ => .new)
      (some sampleArguments) none "reindex_file".toList).result = some "clean".toList := by decide +kernel
  obtain ⟨_,⟨_,silent⟩ | ⟨_,_,path,selected,indexed⟩⟩ := @call_accounted _ plainLibrary sampleService sampleTurn
    "reindex_file".toList foldHash (fun _ => .new) (some sampleArguments) none (sampleMachine_lawful missingFile)
  · rw [silent rfl] at said
    cases said
  · rcases indexed.told rfl with ⟨_,stored⟩ | ⟨failed,_⟩
    · exact ⟨path,selected,stored⟩
    · rw [failed] at said
      cases said

def variantJobs : List Job :=
  [headerJob "a.c" 10 ["f"],let job := headerJob "b.c" 10 ["f"]; {job with request := {job.request with variant := "w".toList}}]

theorem variant_pages_sample : ∃ db : Db, (∃ calls, follow (fun cursor limit => shown "variants" (listVariants plainLibrary db []
      .new (some (asked [] limit cursor)))) (fun _ => 1) calls 0 none =
        some ((shownVariants [] db).map (variantObject ∘ variantRecord))) ∧ (shownVariants [] db).length = 2 := by
  have checked : (storeAll foldHash variantJobs).map (fun db => (shownVariants [] db).length) = some 2 := by decide +kernel
  obtain ⟨db,stored,two⟩ := Option.map_eq_some_iff.mp checked
  have storable : ∀ job ∈ variantJobs, Storable foldHash job := by
    intro job member
    simp only [variantJobs,List.mem_cons,List.not_mem_nil,or_false] at member
    rcases member with rfl | rfl
    · exact ⟨undisturbed,emptyFile,by decide +kernel⟩
    · exact ⟨undisturbed,emptyFile,by decide +kernel⟩
  have reached : Reachable foldHash (Storable foldHash) db := reachable_storeAll _ storable stored
  exact ⟨db,(variant_pages_complete reached rfl (fun _ => ⟨Nat.le_refl 1,by decide⟩)).1,two⟩

end Samples
end Semindex.Mcp.Tools
