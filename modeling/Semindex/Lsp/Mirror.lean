import Semindex.Lsp.Shadowing
import Semindex.IndexDb.Replace

/-! The overlay beside the database. An update with an approximate command puts
its index into the overlay; the reference is the database that a store of the same
index would fill. Both are asked for the main file, and their answers are compared
in all that a record has but its path and its variant. -/
namespace Semindex.Lsp.Mirror
open Semindex.Relational Semindex.IndexDb Semindex.Database Semindex.Source

/-- The index of a main file, and what a store of it would be given. -/
structure Update where
  fs : FileSystem
  index : Index
  file : Text
  absolute : file.head? = some '/'
  directory : Text
  variant : Text
  named : variant ≠ []
  repositoryRoot : Option Text
  gitCommit : Option Text
  includeLocal : Bool

abbrev StagedRecord := (Text × RecordKey) × RecordValue

-- all but the path and the variant
def compared (record : DbRecord) : OverlayRecord where
  symbol := record.symbol
  context := record.context
  record := record.record
  kind := record.kind
  action := record.action
  mode := record.mode
  line := record.line
  column := record.column
  usrId := record.usrId
  contextUsrId := record.contextUsrId
  isLocal := record.isLocal

def shownRow (row : StagedRecord) : OverlayRecord := compared (dbRecord ⟨[],row.1.1,row.1.2,row.2⟩)

def emitted (query : Callback (List DbRecord) DbRecord → List DbRecord → List DbRecord × Int) : List OverlayRecord :=
  (query collect []).1.map compared

def covers (column : Nat) (record : OverlayRecord) : Bool := coversPosition column (record.view [] [])

-- some position is one of the record
def visible (record : OverlayRecord) : Bool :=
  record.line ≠ 0 && record.column + byteLength (qualifiedLeaf record.symbol) > max 1 record.column

section Sides
variable (blake3 : List UInt8 → Fingerprint) (update : Update)

def Update.job : Job where
  fs := update.fs
  request := ⟨update.index,some update.file,update.variant,update.repositoryRoot,update.gitCommit,update.includeLocal⟩

/-- The path under which the database has the main file. -/
def Update.stored : Text := repositoryPath update.fs update.job.root update.file

def Update.entries : List OverlayRecord := mainEntries update.file update.directory update.index

/-- The rows of the index that pass the local filter, in the order of their insertion. -/
def Update.rows : List StagedRecord := update.job.passing.flatMap (recordRows (update.job.paths blake3))

-- no row before it has its file and primary key
def Update.Kept (row : StagedRecord) : Prop := (update.rows blake3).find? (fun other => other.1 = row.1) = some row

/-- A query with filters of the language server, where the symbol and the id are these if they are given. -/
structure Update.Asks (symbol : Text) (usrId : Id) (options : QueryOptions) : Prop where
  symbol : options.symbol = none ∨ options.symbol = some symbol
  variant : options.variant = none ∨ options.variant = some update.variant
  usrId : options.usrId = none ∨ options.usrId = some usrId
  mode : options.mode = none
  after : options.after = none
  limit : options.limit = 0

/-- The overlay and the database emit the same records of the main file, at every position and for every query. -/
structure Update.AnswersAlike (symbol : Text) (usrId : Id) : Prop where
  findAt : ∀ db, update.job.store blake3 .empty = some db → ∀ (overlay : LspOverlay) (asked : Option Text) (line column : Nat),
    asked = none ∨ asked = some update.variant → ∀ record,
      record ∈ emitted ((overlay.replace update.file update.directory update.index).findAt update.file asked line column) ↔
        record ∈ emitted (semindexDbFindAt db update.stored asked line column)
  query : ∀ db, update.job.store blake3 .empty = some db → ∀ (overlay : LspOverlay) (asked : Option Text) (options : QueryOptions),
    update.Asks symbol usrId options → ∀ record,
      record ∈ emitted ((overlay.replace update.file update.directory update.index).query update.file asked
          {options with path := some update.file}) ↔
        record ∈ emitted (semindexDbQuery db {options with path := some update.stored})

/-- What the overlay has of the main file is what the first rows of their primary keys show under such paths. -/
structure Update.Mirrored (here : Text → Bool) (seen : OverlayRecord → Bool) : Prop where
  own : ∀ record ∈ update.entries, seen record = true →
    ∃ row, update.Kept blake3 row ∧ here row.1.1 = true ∧ shownRow row = record
  others : ∀ row, update.Kept blake3 row → here row.1.1 = true → seen (shownRow row) = true → shownRow row ∈ update.entries

structure Update.Faithful (symbol : Text) (usrId : Id) : Prop where
  placed : update.Mirrored blake3 (fun path => path = update.stored && path ≠ []) visible
  filed : update.Mirrored blake3 (matchesPattern update.stored) (fun _ => true)
  -- patterns that match just what they spell
  variant : matchesPattern update.variant update.variant = true ∨ update.entries = []
  symbol : ∀ record ∈ update.entries, matchesPattern symbol record.symbol = true ↔ record.symbol = symbol
  -- an id of 0 that is not the one of a missing USR
  usrId : usrId = 0 → ∀ record ∈ update.entries, record.usrId = 0 →
    ∃ row, update.Kept blake3 row ∧ matchesPattern update.stored row.1.1 = true ∧ shownRow row = record ∧ row.2.usrId = some 0

end Sides

section Overlay
variable {update : Update} {overlay : LspOverlay} {record : OverlayRecord}

theorem coversPosition_compared (column : Nat) (record : DbRecord) : coversPosition column record = covers column (compared record) := rfl

theorem compared_view (record : OverlayRecord) (path variant : Text) : compared (record.view path variant) = record := rfl

theorem visible_iff : visible record = true ↔ record.line ≠ 0 ∧ ∃ column, column ≠ 0 ∧ covers column record = true := by
  unfold visible covers coversPosition OverlayRecord.view
  simp only [Bool.and_eq_true,decide_eq_true_eq,Bool.not_eq_true',Bool.or_eq_false_iff,decide_eq_false_iff_not]
  refine and_congr_right (fun _ => ?_)
  constructor
  · intro long
    exact ⟨max 1 record.column,by omega,by omega,by omega⟩
  · intro ⟨column,present,behind,within⟩
    omega

theorem overlayKey_again : normalize (overlayKey update.file) = normalize update.file := by
  have rooted : (Pathname.ofText update.file).rooted = true := by
    simp [Pathname.ofText,update.absolute]
  exact Canonical.normal_text rooted (fun name listed inside => (Canonical.mem_ofText listed _ inside).2 rfl)

theorem replaced_views (asked : Option Text) : (overlay.replace update.file update.directory update.index).views update.file asked =
    update.entries.map (fun stored => stored.view (overlayKey update.file) (asked.getD [])) := by
  unfold LspOverlay.views LspOverlay.entry LspOverlay.replace
  dsimp only
  rw [AList.lookup_insert]
  rfl

theorem emitted_overlay_findAt (asked : Option Text) (line column : Nat) :
    record ∈ emitted ((overlay.replace update.file update.directory update.index).findAt update.file asked line column) ↔
      (line ≠ 0 ∧ column ≠ 0) ∧ record ∈ update.entries ∧ record.line = line ∧ covers column record = true := by
  by_cases placed : line ≠ 0 ∧ column ≠ 0
  · unfold emitted
    rw [overlay_findAt_steady (fun _ _ => rfl) update.file asked placed.1 placed.2,collect_fold]
    unfold LspOverlay.covering
    rw [replaced_views]
    simp only [List.nil_append,List.mem_map,List.mem_filter,Bool.and_eq_true,decide_eq_true_eq]
    constructor
    · intro ⟨_,⟨⟨stored,listed,rfl⟩,here,inside⟩,same⟩
      rw [compared_view] at same
      subst same
      exact ⟨placed,listed,here,inside⟩
    · intro ⟨_,listed,here,inside⟩
      exact ⟨record.view (overlayKey update.file) (asked.getD []),⟨⟨record,listed,rfl⟩,here,inside⟩,rfl⟩
  · have failed : emitted ((overlay.replace update.file update.directory update.index).findAt update.file asked line column) = [] := by
      unfold emitted LspOverlay.findAt LspOverlay.entry LspOverlay.replace
      dsimp only
      rw [AList.lookup_insert]
      dsimp only
      have missing : (line = 0 || column = 0 : Bool) = true := by
        simp only [Bool.or_eq_true,decide_eq_true_eq]
        omega
      rw [if_pos missing]
      rfl
    simp [failed,placed]

-- the filters that both sides compare alike
def agrees (options : QueryOptions) (record : OverlayRecord) : Bool :=
  options.context.all (fun context => record.context = context) &&
  options.kind.all (fun kind => record.kind = kind) &&
  options.isLocal.all (fun isLocal => record.isLocal = isLocal) &&
  matchesFilter record.record options.record

theorem emitted_overlay_query (asked : Option Text) {options : QueryOptions} (modeless : options.mode = none) :
    record ∈ emitted ((overlay.replace update.file update.directory update.index).query update.file asked
        {options with path := some update.file}) ↔
      record ∈ update.entries ∧ (∀ symbol ∈ options.symbol, record.symbol = symbol) ∧
        (∀ usrId ∈ options.usrId, record.usrId = usrId) ∧ agrees options record = true := by
  have matched (stored : OverlayRecord) : matchesOptions (stored.view (overlayKey update.file) (asked.getD []))
      {options with path := some update.file} = true ↔ (∀ symbol ∈ options.symbol, stored.symbol = symbol) ∧
        (∀ usrId ∈ options.usrId, stored.usrId = usrId) ∧ agrees options stored = true := by
    simp only [matchesOptions,agrees,modeless,Option.all_some,Option.all_none,Bool.and_eq_true,Option.all_eq_true,
      decide_eq_true_eq,Option.mem_def]
    constructor
    · intro ⟨⟨⟨⟨⟨⟨⟨symbol,_⟩,context⟩,_⟩,usrId⟩,kind⟩,isLocal⟩,filter⟩
      exact ⟨symbol,usrId,⟨⟨context,kind⟩,isLocal⟩,filter⟩
    · intro ⟨symbol,usrId,⟨⟨context,kind⟩,isLocal⟩,filter⟩
      exact ⟨⟨⟨⟨⟨⟨⟨symbol,overlayKey_again⟩,context⟩,trivial⟩,usrId⟩,kind⟩,isLocal⟩,filter⟩
  unfold emitted
  rw [overlay_query_steady (fun _ _ => rfl),collect_fold]
  unfold LspOverlay.matching
  rw [replaced_views]
  simp only [List.nil_append,List.mem_map,List.mem_filter]
  constructor
  · intro ⟨_,⟨⟨stored,listed,rfl⟩,meets⟩,same⟩
    rw [compared_view] at same
    subst same
    exact ⟨listed,(matched stored).mp meets⟩
  · intro ⟨listed,meets⟩
    exact ⟨record.view (overlayKey update.file) (asked.getD []),⟨⟨record,listed,rfl⟩,(matched record).mpr meets⟩,rfl⟩

end Overlay

section Database
variable {blake3 : List UInt8 → Fingerprint} {update : Update} {db : Db} {record : OverlayRecord} {row : StagedRecord}

theorem Update.Kept.listed (kept : update.Kept blake3 row) : row ∈ update.rows blake3 := List.mem_of_find?_eq_some kept

theorem kept_iff (path : Text) (k : RecordKey) (v : RecordValue) :
    ((update.rows blake3).find? (fun row => row.1 = (path,k))).map Prod.snd = some v ↔ update.Kept blake3 ((path,k),v) := by
  unfold Update.Kept
  rw [Option.map_eq_some_iff]
  constructor
  · intro ⟨row,found,same⟩
    have key := of_decide_eq_true (List.find?_some (p := fun row : StagedRecord => decide (row.1 = (path,k))) found)
    rw [← key,← same]
    rw [← key] at found
    exact found
  · intro found
    exact ⟨_,found,rfl⟩

theorem joined_kept (stored : update.job.store blake3 .empty = some db) {row : RecordRow} :
    row ∈ joinedRecords db ↔ row.variant = update.variant ∧ update.Kept blake3 ((row.path,row.key),row.value) := by
  rw [mem_joinedRecords,first_store_records stored,← kept_iff]
  by_cases same : row.variant = update.variant
  · have variant : (row.variant,row.path).1 = update.job.request.variant := same
    rw [if_pos variant]
    exact (and_iff_right same).symm
  · have variant : ¬ (row.variant,row.path).1 = update.job.request.variant := same
    rw [if_neg variant]
    simp [same]

-- what is emitted of the selected rows
theorem emitted_rows (stored : update.job.store blake3 .empty = some db) (position : Nat) {rows : List RecordRow}
    {selects : RecordRow → Bool} (selected : ∀ row, row ∈ rows ↔ row ∈ joinedRecords db ∧ selects row = true) :
    record ∈ (emitRecords collect position rows []).1.map compared ↔
      ∃ row, update.Kept blake3 row ∧ selects ⟨update.variant,row.1.1,row.1.2,row.2⟩ = true ∧
        (position = 0 ∨ covers position record = true) ∧ shownRow row = record := by
  rw [emitRecords_collect]
  simp only [List.nil_append,List.mem_map,List.mem_filter,selected,Bool.or_eq_true,decide_eq_true_eq,coversPosition_compared]
  constructor
  · intro ⟨_,⟨⟨row,⟨joined,chosen⟩,rfl⟩,meets⟩,same⟩
    obtain ⟨variant,kept⟩ := (joined_kept stored).mp joined
    rw [same] at meets
    refine ⟨((row.path,row.key),row.value),kept,?_,meets,same⟩
    rw [← variant]
    exact chosen
  · intro ⟨row,kept,chosen,meets,same⟩
    refine ⟨dbRecord ⟨update.variant,row.1.1,row.1.2,row.2⟩,⟨⟨_,⟨(joined_kept stored).mpr ⟨rfl,kept⟩,chosen⟩,rfl⟩,?_⟩,same⟩
    rw [← same] at meets
    exact meets

theorem emitted_db_findAt (stored : update.job.store blake3 .empty = some db) {asked : Option Text}
    (variant : asked = none ∨ asked = some update.variant) (line column : Nat) :
    record ∈ emitted (semindexDbFindAt db update.stored asked line column) ↔ (line ≠ 0 ∧ column ≠ 0) ∧
      (∃ row, update.Kept blake3 row ∧ (row.1.1 = update.stored && row.1.1 ≠ [] : Bool) = true ∧ shownRow row = record) ∧
        record.line = line ∧ covers column record = true := by
  have admitted : asked.all (fun asked => decide (update.variant = asked)) = true := by
    rcases variant with none | given
    · simp [none]
    · simp [given]
  unfold emitted semindexDbFindAt
  split
  · rename_i failed
    constructor
    · intro member
      cases member
    · intro facts
      obtain ⟨placed,⟨row,_,here,_⟩,_⟩ := facts
      simp only [Bool.or_eq_true,decide_eq_true_eq] at failed
      simp only [Bool.and_eq_true,decide_eq_true_eq] at here
      rcases failed with (empty | zero) | zero
      · exact absurd (here.1.trans empty) here.2
      · exact absurd zero placed.1
      · exact absurd zero placed.2
  · rename_i fine
    simp only [Bool.or_eq_true,decide_eq_true_eq,not_or] at fine
    rw [emitted_rows stored column (fun row => by rw [selectAt,mem_orderBy,List.mem_filter])]
    constructor
    · intro facts
      obtain ⟨row,kept,chosen,meets,same⟩ := facts
      simp only [Bool.and_eq_true,decide_eq_true_eq] at chosen
      obtain ⟨⟨⟨path,_⟩,here⟩,_⟩ := chosen
      refine ⟨⟨fine.1.2,fine.2⟩,⟨row,kept,?_,same⟩,same ▸ here,meets.resolve_left fine.2⟩
      simp only [Bool.and_eq_true,decide_eq_true_eq]
      exact ⟨path,path ▸ fine.1.1⟩
    · intro facts
      obtain ⟨_,⟨row,kept,here,same⟩,onLine,inside⟩ := facts
      refine ⟨row,kept,?_,.inr inside,same⟩
      simp only [Bool.and_eq_true,decide_eq_true_eq] at here ⊢
      refine ⟨⟨⟨here.1,admitted⟩,by rw [← onLine,← same]; rfl⟩,?_⟩
      have covered := inside
      rw [← same] at covered
      simp only [covers,coversPosition,Bool.not_eq_true',Bool.or_eq_false_iff,decide_eq_false_iff_not,not_lt] at covered
      exact covered.1

/-- The conditions of the two filters that are no patterns agree on rows of the writer. -/
theorem admits_shown {row : StagedRecord} (listed : row ∈ update.rows blake3) (filter : RecordFilter) :
    filter.admits row.1.2 = matchesFilter (shownRow row).record filter := by
  obtain ⟨item,_,inside⟩ := List.mem_flatMap.mp listed
  have code := (staged_codes inside).1
  change filter.admits row.1.2 = matchesFilter (recordType row.1.2.record row.1.2.action) filter
  unfold RecordFilter.admits matchesFilter recordType
  rcases code with zero | one
  · by_cases action : row.1.2.action = 0
    · cases filter <;> simp [zero,action]
    · cases filter <;> simp [zero,action]
  · cases filter <;> simp [one]

theorem emitted_db_query (stored : update.job.store blake3 .empty = some db) {symbol : Text} {usrId : Id} {options : QueryOptions}
    (asks : update.Asks symbol usrId options) :
    record ∈ emitted (semindexDbQuery db {options with path := some update.stored}) ↔
      ∃ row, update.Kept blake3 row ∧ (matchesPattern update.stored row.1.1 = true ∧
          (∀ variant ∈ options.variant, matchesPattern variant update.variant = true)) ∧
        (∀ symbol ∈ options.symbol, matchesPattern symbol record.symbol = true) ∧
          (∀ usrId ∈ options.usrId, row.2.usrId = some usrId) ∧ agrees options record = true ∧ shownRow row = record := by
  have fine : semindexDbQuery db {options with path := some update.stored} collect [] =
      emitRecords collect 0 (QueryOptions.select {options with path := some update.stored} db) [] := by
    unfold semindexDbQuery
    simp [asks.limit,asks.after]
  have selected (row : RecordRow) : row ∈ QueryOptions.select {options with path := some update.stored} db ↔
      row ∈ joinedRecords db ∧ QueryOptions.selects {options with path := some update.stored} row = true := by
    simp [QueryOptions.select,limited,asks.limit,asks.after]
  unfold emitted
  rw [fine,emitted_rows stored 0 selected]
  refine exists_congr (fun row => and_congr_right (fun kept => ?_))
  simp only [QueryOptions.selects,QueryOptions.selectsBy,QueryOptions.selectsOther,asks.mode,Option.all_some,Option.all_none,
    Bool.and_eq_true,Option.all_eq_true,decide_eq_true_eq,Bool.and_true,true_or,true_and,agrees,admits_shown kept.listed,
    Option.mem_def]
  constructor
  · intro facts
    obtain ⟨⟨⟨⟨bySymbol,byPath⟩,byVariant⟩,⟨⟨⟨context,filter⟩,kind⟩,id⟩,isLocal⟩,same⟩ := facts
    subst same
    exact ⟨⟨byPath,byVariant⟩,bySymbol,id,⟨⟨⟨context,kind⟩,isLocal⟩,filter⟩,rfl⟩
  · intro facts
    obtain ⟨⟨byPath,byVariant⟩,bySymbol,id,⟨⟨⟨context,kind⟩,isLocal⟩,filter⟩,same⟩ := facts
    subst same
    exact ⟨⟨⟨⟨bySymbol,byPath⟩,byVariant⟩,⟨⟨⟨context,filter⟩,kind⟩,id⟩,isLocal⟩,rfl⟩

end Database

section Answers
variable {blake3 : List UInt8 → Fingerprint} {update : Update} {symbol : Text} {usrId : Id}

def noOverlay : LspOverlay := ⟨∅⟩

-- a query without any filter but the path
theorem asks_all : update.Asks symbol usrId {} := ⟨.inl rfl,.inl rfl,.inl rfl,rfl,rfl,rfl⟩

theorem agrees_all (record : OverlayRecord) : agrees {} record = true := rfl

theorem faithful_of_alike (alike : update.AnswersAlike blake3 symbol usrId) : update.Faithful blake3 symbol usrId := by
  obtain ⟨db,stored⟩ := @store_total blake3 update.job .empty
  -- what both sides answer to a query
  have asked {options : QueryOptions} (asks : update.Asks symbol usrId options) (record : OverlayRecord) :=
    (emitted_overlay_query none asks.mode).symm.trans
      ((alike.query db stored noOverlay none options asks record).trans (emitted_db_query stored asks))
  have filed : update.Mirrored blake3 (matchesPattern update.stored) (fun _ => true) := by
    constructor
    · intro record listed _
      obtain ⟨row,kept,⟨here,_⟩,_,_,_,same⟩ := (asked asks_all record).mp
        ⟨listed,fun _ given => (by cases given),fun _ given => (by cases given),agrees_all record⟩
      exact ⟨row,kept,here,same⟩
    · intro row kept here _
      have answered := (asked asks_all (shownRow row)).mpr ⟨row,kept,⟨here,fun _ given => (by cases given)⟩,
        fun _ given => (by cases given),fun _ given => (by cases given),agrees_all _,rfl⟩
      exact answered.1
  refine ⟨⟨?_,?_⟩,filed,?_,?_,?_⟩
  · intro record listed seen
    obtain ⟨line,column,present,inside⟩ := visible_iff.mp seen
    have found := (alike.findAt db stored noOverlay none record.line column (.inl rfl) record).mp
      ((emitted_overlay_findAt none _ _).mpr ⟨⟨line,present⟩,listed,rfl,inside⟩)
    obtain ⟨_,answered,_⟩ := (emitted_db_findAt stored (.inl rfl) _ _).mp found
    exact answered
  · intro row kept here seen
    obtain ⟨line,column,present,inside⟩ := visible_iff.mp seen
    have found := (alike.findAt db stored noOverlay none (shownRow row).line column (.inl rfl) (shownRow row)).mpr
      ((emitted_db_findAt stored (.inl rfl) _ _).mpr ⟨⟨line,present⟩,⟨row,kept,here,rfl⟩,rfl,inside⟩)
    exact ((emitted_overlay_findAt none _ _).mp found).2.1
  · by_contra neither
    obtain ⟨special,entries⟩ := not_or.mp neither
    obtain ⟨record,listed⟩ := List.exists_mem_of_ne_nil _ entries
    have asks : update.Asks symbol usrId {variant := some update.variant} := ⟨.inl rfl,.inr rfl,.inl rfl,rfl,rfl,rfl⟩
    obtain ⟨_,_,⟨_,variant⟩,_⟩ := (asked asks record).mp
      ⟨listed,fun _ given => (by cases given),fun _ given => (by cases given),agrees_all record⟩
    exact special (variant _ rfl)
  · intro record listed
    have asks : update.Asks symbol usrId {symbol := some symbol} := ⟨.inr rfl,.inl rfl,.inl rfl,rfl,rfl,rfl⟩
    constructor
    · intro matched
      obtain ⟨row,kept,here,same⟩ := filed.own record listed rfl
      have answered := (asked asks record).mpr ⟨row,kept,⟨here,fun _ given => (by cases given)⟩,
        fun _ given => (by cases given; exact matched),fun _ given => (by cases given),agrees_all record,same⟩
      exact answered.2.1 symbol rfl
    · intro same
      obtain ⟨_,_,_,matched,_⟩ := (asked asks record).mp
        ⟨listed,fun _ given => (by cases given; exact same),fun _ given => (by cases given),agrees_all record⟩
      exact matched symbol rfl
  · intro zero record listed none
    have asks : update.Asks symbol usrId {usrId := some usrId} := ⟨.inl rfl,.inl rfl,.inr rfl,rfl,rfl,rfl⟩
    obtain ⟨row,kept,⟨here,_⟩,_,id,_,same⟩ := (asked asks record).mp
      ⟨listed,fun _ given => (by cases given),fun _ given => (by cases given; rw [none,zero]),agrees_all record⟩
    exact ⟨row,kept,here,same,zero ▸ id usrId rfl⟩

theorem alike_of_faithful (faithful : update.Faithful blake3 symbol usrId) : update.AnswersAlike blake3 symbol usrId := by
  constructor
  · intro db stored overlay asked line column variant record
    rw [emitted_overlay_findAt,emitted_db_findAt stored variant]
    refine and_congr_right (fun placed => and_congr_left (fun ⟨here,inside⟩ => ?_))
    have seen : visible record = true := visible_iff.mpr ⟨here ▸ placed.1,column,placed.2,inside⟩
    constructor
    · intro listed
      exact faithful.placed.own record listed seen
    · intro ⟨row,kept,filed,same⟩
      exact same ▸ faithful.placed.others row kept filed (same ▸ seen)
  · intro db stored overlay asked options asks record
    rw [emitted_overlay_query asked asks.mode,emitted_db_query stored asks]
    have symbols (listed : record ∈ update.entries) : (∀ name ∈ options.symbol, record.symbol = name) ↔
        ∀ name ∈ options.symbol, matchesPattern name record.symbol = true := by
      refine forall₂_congr (fun name given => ?_)
      rcases asks.symbol with none | own
      · rw [none] at given
        cases given
      · rw [own] at given
        cases given
        exact (faithful.symbol record listed).symm
    constructor
    · intro ⟨listed,bySymbol,byId,rest⟩
      have variants : ∀ variant ∈ options.variant, matchesPattern variant update.variant = true := by
        intro variant given
        rcases asks.variant with none | own
        · rw [none] at given
          cases given
        · rw [own] at given
          cases given
          exact faithful.variant.resolve_right (List.ne_nil_of_mem listed)
      have found : ∃ row, update.Kept blake3 row ∧ matchesPattern update.stored row.1.1 = true ∧ shownRow row = record ∧
          ∀ id ∈ options.usrId, row.2.usrId = some id := by
        rcases asks.usrId with none | own
        · obtain ⟨row,kept,here,same⟩ := faithful.filed.own record listed rfl
          exact ⟨row,kept,here,same,fun _ given => by rw [none] at given; cases given⟩
        · have id := byId usrId own
          by_cases zero : usrId = 0
          · obtain ⟨row,kept,here,same,held⟩ := faithful.usrId zero record listed (id.trans zero)
            refine ⟨row,kept,here,same,fun _ given => ?_⟩
            rw [own] at given
            cases given
            rw [held,zero]
          · obtain ⟨row,kept,here,same⟩ := faithful.filed.own record listed rfl
            refine ⟨row,kept,here,same,fun _ given => ?_⟩
            rw [own] at given
            cases given
            have shown : row.2.usrId.getD 0 = usrId := by
              rw [← id,← same]
              rfl
            cases held : row.2.usrId with
            | none =>
              rw [held] at shown
              exact absurd shown.symm zero
            | some known =>
              rw [held] at shown
              exact congrArg some shown
      obtain ⟨row,kept,here,same,ids⟩ := found
      exact ⟨row,kept,⟨here,variants⟩,(symbols listed).mp bySymbol,ids,rest,same⟩
    · intro ⟨row,kept,⟨here,_⟩,bySymbol,byId,rest,same⟩
      have listed : record ∈ update.entries := same ▸ faithful.filed.others row kept here rfl
      refine ⟨listed,(symbols listed).mpr bySymbol,fun id given => ?_,rest⟩
      rw [← same]
      change row.2.usrId.getD 0 = id
      rw [byId id given]
      rfl

/-- The overlay answers like the database just where the index has the same records for the main file on both sides,
none behind another of its primary key, and where no filter is a pattern or the id of a missing USR. -/
theorem overlay_answers_iff (blake3 : List UInt8 → Fingerprint) (update : Update) (symbol : Text) (usrId : Id) :
    update.AnswersAlike blake3 symbol usrId ↔ update.Faithful blake3 symbol usrId :=
  ⟨faithful_of_alike,alike_of_faithful⟩

end Answers

section Names
variable (blake3 : List UInt8 → Fingerprint) (update : Update)

-- those that do not pass the local filter among them
def Update.allRows : List StagedRecord := update.index.items.flatMap (recordRows (update.job.paths blake3))

/-- The names of the items are those of the main file in the command's directory just where the store files them under its path,
and an item without a USR has no id. -/
structure Update.NamesAgree : Prop where
  symbols : ∀ s ∈ update.index.symbols, resolveAgainst (Pathname.ofText update.directory) s.file =
    Pathname.ofText (overlayKey update.file) ↔ (symbolRecord (update.job.paths blake3) s).1.1 = update.stored
  uses : ∀ u ∈ update.index.uses, resolveAgainst (Pathname.ofText update.directory) u.file =
    Pathname.ofText (overlayKey update.file) ↔ (useRecord (update.job.paths blake3) u).1.1 = update.stored
  symbolIds : ∀ s ∈ update.index.symbols, s.usr = [] → s.usrId = 0
  useIds : ∀ u ∈ update.index.uses, (u.usr = [] → u.usrId = 0) ∧ (u.contextUsr = [] → u.contextUsrId = 0)

variable {blake3 update}

theorem optionalId_getD {usr : Text} {id : Id} (hashed : usr = [] → id = 0) : (optionalId usr id).getD 0 = id := by
  unfold optionalId
  split
  · rename_i none
    exact (hashed none).symm
  · rfl

theorem symbolEntry_shown {s : Symbol} (hashed : s.usr = [] → s.usrId = 0) (paths : StoredPaths) :
    symbolEntry s = shownRow (symbolRecord paths s) := by
  unfold symbolEntry shownRow symbolRecord compared dbRecord
  dsimp only
  rw [qualifiedName_stored,optionalId_getD hashed]
  cases s.definition <;> rfl

theorem useEntry_shown {u : Use} (hashed : (u.usr = [] → u.usrId = 0) ∧ (u.contextUsr = [] → u.contextUsrId = 0)) (paths : StoredPaths) :
    useEntry u = shownRow (useRecord paths u) := by
  unfold useEntry shownRow useRecord compared dbRecord
  dsimp only
  rw [qualifiedName_stored,optionalId_getD hashed.1,optionalId_getD hashed.2]
  rfl

theorem mem_allRows {row : StagedRecord} : row ∈ update.allRows blake3 ↔
    (∃ s ∈ update.index.symbols, row = symbolRecord (update.job.paths blake3) s) ∨
      ∃ u ∈ update.index.uses, row = useRecord (update.job.paths blake3) u := by
  unfold Update.allRows Index.items
  simp [recordRows,eq_comm]

theorem mem_rows {row : StagedRecord} : row ∈ update.rows blake3 ↔
    row ∈ update.allRows blake3 ∧ (row.2.isLocal = true → update.includeLocal = true) := by
  unfold Update.rows Update.allRows Job.passing
  rw [List.mem_flatMap,List.mem_flatMap]
  have passes {item : Item} (inside : row ∈ recordRows (update.job.paths blake3) item) :
      item.passes update.includeLocal = true ↔ (row.2.isLocal = true → update.includeLocal = true) := by
    cases item with
    | symbol s =>
      rw [List.mem_singleton.mp inside]
      cases own : s.isLocal <;> simp [Item.passes,symbolRecord,own]
    | use u =>
      rw [List.mem_singleton.mp inside]
      cases own : u.isLocal <;> simp [Item.passes,useRecord,own]
    | signature g => cases inside
  constructor
  · intro facts
    obtain ⟨item,listed,inside⟩ := facts
    obtain ⟨member,passing⟩ := List.mem_filter.mp listed
    exact ⟨⟨item,member,inside⟩,(passes inside).mp passing⟩
  · intro facts
    obtain ⟨⟨item,member,inside⟩,passing⟩ := facts
    exact ⟨item,List.mem_filter.mpr ⟨member,(passes inside).mpr passing⟩,inside⟩

theorem mem_entries (names : update.NamesAgree blake3) {record : OverlayRecord} :
    record ∈ update.entries ↔ ∃ row ∈ update.allRows blake3, row.1.1 = update.stored ∧ shownRow row = record := by
  unfold Update.entries mainEntries
  simp only [List.mem_append,List.mem_map,List.mem_filter,decide_eq_true_eq,mem_allRows]
  constructor
  · intro found
    rcases found with ⟨s,⟨listed,here⟩,same⟩ | ⟨u,⟨listed,here⟩,same⟩
    · exact ⟨_,.inl ⟨s,listed,rfl⟩,(names.symbols s listed).mp here,(symbolEntry_shown (names.symbolIds s listed) _).symm.trans same⟩
    · exact ⟨_,.inr ⟨u,listed,rfl⟩,(names.uses u listed).mp here,(useEntry_shown (names.useIds u listed) _).symm.trans same⟩
  · intro ⟨row,found,here,same⟩
    rcases found with ⟨s,listed,rfl⟩ | ⟨u,listed,rfl⟩
    · exact .inl ⟨s,⟨listed,(names.symbols s listed).mpr here⟩,(symbolEntry_shown (names.symbolIds s listed) _).trans same⟩
    · exact .inr ⟨u,⟨listed,(names.uses u listed).mpr here⟩,(useEntry_shown (names.useIds u listed) _).trans same⟩

theorem key_shown {a b : StagedRecord} (codes : ∀ row ∈ [a,b], row.1.2.record = 0 ∨ row.1.2.record = 1) (same : shownRow a = shownRow b) :
    a.1.2 = b.1.2 := by
  obtain ⟨⟨path,key⟩,value⟩ := a
  obtain ⟨⟨path',key'⟩,value'⟩ := b
  cases key with
  | mk symbol record action kind mode line column =>
    cases key' with
    | mk symbol' record' action' kind' mode' line' column' =>
      simp only [shownRow,compared,dbRecord,OverlayRecord.mk.injEq] at same
      obtain ⟨rfl,_,types,rfl,rfl,rfl,rfl,rfl,_⟩ := same
      have first := codes _ List.mem_cons_self
      have second := codes _ (List.mem_cons_of_mem _ List.mem_cons_self)
      dsimp only at first second
      have records : record = record' := by
        unfold recordType at types
        rcases first with rfl | rfl <;> rcases second with rfl | rfl
        · rfl
        · split_ifs at types <;> simp_all
        · split_ifs at types <;> simp_all
        · rfl
      rw [records]

/-- Where the names agree, a record is missing on one side only behind another of its primary key or for the local filter. -/
theorem mirrored_iff (names : update.NamesAgree blake3) :
    update.Mirrored blake3 (fun path => path = update.stored) (fun _ => true) ↔
      (∀ row ∈ update.allRows blake3, row.1.1 = update.stored → row.2.isLocal = true → update.includeLocal = true) ∧
        ∀ a ∈ update.allRows blake3, ∀ b ∈ update.allRows blake3, a.1.1 = update.stored → a.1 = b.1 → shownRow a = shownRow b := by
  have codes {row : StagedRecord} (listed : row ∈ update.allRows blake3) : row.1.2.record = 0 ∨ row.1.2.record = 1 := by
    rcases mem_allRows.mp listed with ⟨s,_,rfl⟩ | ⟨u,_,rfl⟩
    · exact .inl rfl
    · exact .inr rfl
  -- the row that is kept for one of the main file
  have own (mirrored : update.Mirrored blake3 (fun path => path = update.stored) (fun _ => true)) {row : StagedRecord}
      (listed : row ∈ update.allRows blake3) (here : row.1.1 = update.stored) :
      ∃ first, update.Kept blake3 first ∧ first.1 = row.1 ∧ shownRow first = shownRow row := by
    obtain ⟨first,kept,path,same⟩ := mirrored.own (shownRow row) ((mem_entries names).mpr ⟨row,listed,here,rfl⟩) rfl
    have both : ∀ other ∈ [first,row], other.1.2.record = 0 ∨ other.1.2.record = 1 := by
      intro other member
      rcases List.mem_cons.mp member with rfl | second
      · exact codes (mem_rows.mp kept.listed).1
      · exact List.mem_singleton.mp second ▸ codes listed
    exact ⟨first,kept,Prod.ext ((of_decide_eq_true path).trans here.symm) (key_shown both same),same⟩
  constructor
  · intro mirrored
    constructor
    · intro row listed here isLocal
      obtain ⟨first,kept,_,same⟩ := own mirrored listed here
      have locality : first.2.isLocal = row.2.isLocal := congrArg OverlayRecord.isLocal same
      exact (mem_rows.mp kept.listed).2 (locality.trans isLocal)
    · intro a listedA b listedB here same
      obtain ⟨first,keptA,keyA,shownA⟩ := own mirrored listedA here
      obtain ⟨second,keptB,keyB,shownB⟩ := own mirrored listedB (same ▸ here)
      unfold Update.Kept at keptA keptB
      rw [keyA,same,← keyB,keptB] at keptA
      rw [← shownA,← shownB,Option.some.inj keptA]
  · intro ⟨passing,agree⟩
    constructor
    · intro record listed _
      obtain ⟨row,inside,here,rfl⟩ := (mem_entries names).mp listed
      have passes := mem_rows.mpr ⟨inside,passing row inside here⟩
      cases found : (update.rows blake3).find? (fun other => other.1 = row.1) with
      | none => exact absurd (decide_eq_true rfl) (List.find?_eq_none.mp found row passes)
      | some first =>
        have key := of_decide_eq_true (List.find?_some (p := fun other : StagedRecord => decide (other.1 = row.1)) found)
        have kept : update.Kept blake3 first := by
          unfold Update.Kept
          rw [key]
          exact found
        refine ⟨first,kept,by simp [key,here],?_⟩
        exact agree first (mem_rows.mp kept.listed).1 row inside (key ▸ here) key
    · intro row kept here _
      exact (mem_entries names).mpr ⟨row,(mem_rows.mp kept.listed).1,of_decide_eq_true here,rfl⟩

end Names

section Samples

-- two functions that call `foo` through one macro body of the main file
def macroUpdate : Update where
  fs := tableFs [("/r/a.c".toList,"/r/a.c".toList,⟨1,1,10,5,false⟩)]
  index := ⟨["/r/a.c".toList],[],["f","g"].map (fun context => {sampleUse "foo" context 0 1 with file := "/r/a.c".toList}),[],
    by decide,by simp [sampleUse],by decide⟩
  file := "/r/a.c".toList
  absolute := rfl
  directory := "/r".toList
  variant := "v".toList
  named := by decide
  repositoryRoot := some "/r".toList
  gitCommit := none
  includeLocal := true

theorem macro_callers_shown : ¬ macroUpdate.AnswersAlike foldHash "foo".toList 1 := by
  intro alike
  have listed : useEntry {sampleUse "foo" "g" 0 1 with file := "/r/a.c".toList} ∈ macroUpdate.entries := by decide +kernel
  obtain ⟨row,kept,_,same⟩ := (faithful_of_alike alike).filed.own _ listed rfl
  have apart : ∀ row ∈ macroUpdate.rows foldHash, (macroUpdate.rows foldHash).find? (fun other => other.1 = row.1) = some row →
      shownRow row ≠ useEntry {sampleUse "foo" "g" 0 1 with file := "/r/a.c".toList} := by decide +kernel
  exact apart row kept.listed kept same

end Samples

end Semindex.Lsp.Mirror
