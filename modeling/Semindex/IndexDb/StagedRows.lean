import Semindex.IndexDb.StagedFiles

/-! What a staging holds. Whatever the cache hits were, the staged files are
those of `stagedFiles` up to their `cached` flag, and the staged rows are those
of the items outside the skipped files, followed by all rows after a retry. -/
namespace Semindex.IndexDb
open Semindex.Relational

section Rows
variable (blake3 : List UInt8 → Fingerprint) (job : Job)

-- the items `stage_records` stages when no file is cached
def Job.passing : List Item := job.request.index.items.filter (Item.passes job.request.includeLocal)

-- the staged rows: those outside the skipped files, and after a retry all of them behind these
def Job.rows {α : Type} (skip : Nat → Bool) (again : Bool) (rows : Item → List α) : List α :=
  (job.passing.filter (fun item => !skip item.fileIndex)).flatMap rows ++
    if again then job.passing.flatMap rows else []

def Job.content (skip : Nat → Bool) (again : Bool) (path : Text) : FileContent where
  stat := ((job.stagedFiles blake3).lookup path).map StagingFile.stat
  records k := gather (job.rows skip again (recordRows (job.paths blake3))) (path,k)
  symbolTypes k := gather (job.rows skip again (symbolTypeRows (job.paths blake3))) (path,k)
  functionTypes k := gather (job.rows skip again (functionTypeRows (job.paths blake3))) (path,k)
  symbolProperties k := gather (job.rows skip again (propertyRows (job.paths blake3))) (path,k)
  fingerprints k := if ((job.stagedFiles blake3).lookup path).bind StagingFile.fingerprint = some k
    then some () else none

/-- `st` is what the job stages when the cache hits at the positions `skip`, `again` after a retry. -/
structure Job.Produces (skip : Nat → Bool) (again : Bool) (st : Staging) : Prop where
  files : ∃ mark : Text → StagingFile → Bool,
    st.files = Table.modify (job.stagedFiles blake3) (fun path row => {row with cached := mark path row})
  content : ∀ path, st.content path = job.content blake3 skip again path
  covered : st.Covered
  skipped : ∀ i, skip i = true → ∃ fingerprint path row, job.Counted blake3 i fingerprint path ∧
    (job.stagedFiles blake3).lookup path = some row ∧ row.isMain = false ∧
    row.fingerprint = some fingerprint.data ∧
    (again = false → st.files.lookup path = some {row with cached := true})

variable {blake3 job}

def Located (paths : StoredPaths) {κ ν : Type} (rows : Item → List ((Text × κ) × ν)) : Prop :=
  ∀ item, ∀ row ∈ rows item, ∃ fallback, row.1.1 = recordPath paths item.fileIndex fallback

theorem recordRows_located (paths : StoredPaths) : Located paths (recordRows paths) := by
  intro item row member
  cases item with
  | symbol s => exact ⟨s.file,by rw [List.mem_singleton.mp member]; rfl⟩
  | use u => exact ⟨u.file,by rw [List.mem_singleton.mp member]; rfl⟩
  | signature g => simp [recordRows] at member

theorem symbolTypeRows_located (paths : StoredPaths) : Located paths (symbolTypeRows paths) := by
  intro item row member
  cases item with
  | symbol s =>
    simp only [symbolTypeRows] at member
    split at member
    · exact ⟨s.file,by rw [List.mem_singleton.mp member]; rfl⟩
    · simp at member
  | use u => simp [symbolTypeRows] at member
  | signature g => simp [symbolTypeRows] at member

theorem propertyRows_located (paths : StoredPaths) : Located paths (propertyRows paths) := by
  intro item row member
  cases item with
  | symbol s =>
    simp only [propertyRows] at member
    split at member
    · exact ⟨s.file,by rw [List.mem_singleton.mp member]; rfl⟩
    · simp at member
  | use u => simp [propertyRows] at member
  | signature g => simp [propertyRows] at member

theorem functionTypeRows_located (paths : StoredPaths) : Located paths (functionTypeRows paths) := by
  intro item row member
  cases item with
  | symbol s => simp [functionTypeRows] at member
  | use u => simp [functionTypeRows] at member
  | signature g =>
    simp only [functionTypeRows] at member
    split at member
    · simp at member
    · refine ⟨g.file,?_⟩
      rcases List.mem_cons.mp member with rfl | inside
      · rfl
      · obtain ⟨_,_,rfl⟩ := List.mem_map.mp inside
        rfl

theorem passing_counted {item : Item} (member : item ∈ job.passing) :
    ∃ fingerprint, job.Counted blake3 item.fileIndex fingerprint (job.storedPath blake3 item.fileIndex) := by
  obtain ⟨listed,passes⟩ := List.mem_filter.mp member
  have bound := job.request.index.items_located item listed
  have length := rebuildFingerprints_length blake3 job.request.index job.request.includeLocal
  have inside : item.fileIndex < (job.fingerprints blake3).length := by
    rw [Job.fingerprints,length]
    exact bound
  have found := List.getElem?_eq_getElem inside
  refine ⟨_,found,?_,rfl⟩
  rw [rebuildFingerprints_count blake3 _ _ _ _ found,← Nat.pos_iff_ne_zero]
  exact List.countP_pos_iff.mpr ⟨item,listed,by simp [passes]⟩

theorem located_path {κ ν : Type} {rows : Item → List ((Text × κ) × ν)}
    (located : Located (job.paths blake3) rows) {item : Item} (member : item ∈ job.passing)
    {row : (Text × κ) × ν} (inside : row ∈ rows item) : row.1.1 = job.storedPath blake3 item.fileIndex := by
  obtain ⟨fallback,path⟩ := located item row inside
  obtain ⟨fingerprint,counted⟩ := @passing_counted blake3 _ _ member
  rw [path,recordPath,Job.storedPath,paths_listed counted.listed]
  rfl

theorem mem_rows {α : Type} {skip : Nat → Bool} {again : Bool} {rows : Item → List α} {row : α}
    (member : row ∈ job.rows skip again rows) : ∃ item ∈ job.passing, row ∈ rows item := by
  rcases List.mem_append.mp member with first | second
  · obtain ⟨item,selected,inside⟩ := List.mem_flatMap.mp first
    exact ⟨item,(List.mem_filter.mp selected).1,inside⟩
  · split at second
    · exact List.mem_flatMap.mp second
    · simp at second

/-- Every path with rows to stage is a staged file. -/
theorem rows_staged {κ ν : Type} [DecidableEq κ] [Conflict ν] {rows : Item → List ((Text × κ) × ν)}
    (located : Located (job.paths blake3) rows) {skip : Nat → Bool} {again : Bool} {path : Text} {k : κ}
    (present : gather (job.rows skip again rows) (path,k) ≠ none) :
    ((job.stagedFiles blake3).lookup path).isSome := by
  rw [ne_eq,gather_eq_none,not_forall] at present
  obtain ⟨row,present⟩ := present
  obtain ⟨member,same⟩ := Classical.not_imp.mp present
  obtain ⟨item,passing,inside⟩ := mem_rows member
  obtain ⟨fingerprint,counted⟩ := @passing_counted blake3 _ _ passing
  have here := located_path located passing inside
  rw [not_not.mp same] at here
  exact stagedFiles_counted (here ▸ counted)

theorem gather_stagedFingerprints (st : Staging) (path : Text) (data : Fingerprint) :
    gather (stagedFingerprints st) (path,data) =
      if (st.files.lookup path).bind StagingFile.fingerprint = some data then some () else none := by
  have offered : gather (stagedFingerprints st) (path,data) ≠ none ↔
      (st.files.lookup path).bind StagingFile.fingerprint = some data := by
    rw [ne_eq,gather_eq_none,Option.bind_eq_some_iff]
    constructor
    · intro present
      rw [not_forall] at present
      obtain ⟨row,present⟩ := present
      obtain ⟨member,same⟩ := Classical.not_imp.mp present
      obtain ⟨e,entry,source⟩ := List.mem_filterMap.mp member
      obtain ⟨fingerprint,offered,rfl⟩ := Option.map_eq_some_iff.mp source
      have key : (e.1,fingerprint) = (path,data) := not_not.mp same
      obtain ⟨rfl,rfl⟩ := Prod.mk.inj key
      exact ⟨e.2,AList.mem_lookup_iff.mpr entry,offered⟩
    · intro ⟨row,found,offered⟩ absent
      exact absent ((path,data),()) (List.mem_filterMap.mpr
        ⟨⟨path,row⟩,AList.mem_lookup_iff.mp found,by simp [offered]⟩) rfl
  split
  · rename_i present
    have some_cell := offered.mpr present
    cases cell : gather (stagedFingerprints st) (path,data) with
    | none => exact absurd cell some_cell
    | some => rfl
  · rename_i absent
    exact not_not.mp (mt offered.mp absent)

theorem kept_passing {flags : List Bool} :
    job.request.index.items.filter (kept job.request.includeLocal flags) =
      job.passing.filter (fun item => !isCached flags item.fileIndex) := by
  rw [Job.passing,List.filter_filter]
  apply List.filter_congr
  intro item _
  exact Bool.and_comm _ _

theorem isCached_noneCached (i : Nat) : isCached (job.noneCached blake3) i = false := by
  unfold isCached Job.noneCached
  rw [List.getElem?_replicate]
  split <;> rfl

theorem kept_noneCached :
    job.request.index.items.filter (kept job.request.includeLocal (job.noneCached blake3)) = job.passing := by
  rw [kept_passing]
  simp [isCached_noneCached]

theorem rows_all {α : Type} (rows : Item → List α) :
    job.rows (fun _ => false) false rows = job.passing.flatMap rows := by simp [Job.rows]

theorem rows_once {α : Type} (skip : Nat → Bool) (rows : Item → List α) :
    job.rows skip false rows = (job.passing.filter (fun item => !skip item.fileIndex)).flatMap rows := by
  simp [Job.rows]

theorem rows_again {α : Type} (skip : Nat → Bool) (rows : Item → List α) :
    job.rows skip true rows = job.rows skip false rows ++ job.passing.flatMap rows := by simp [Job.rows]

private theorem produces_covered {skip : Nat → Bool} {again : Bool} {st : Staging}
    (files : ∀ path, ((job.stagedFiles blake3).lookup path).isSome → (st.files.lookup path).isSome)
    (content : ∀ path, st.content path = job.content blake3 skip again path) : st.Covered := by
  have cell : ∀ {κ ν : Type} [DecidableEq κ] [Conflict ν] (t : Table (Text × κ) ν)
      (rows : Item → List ((Text × κ) × ν)), Located (job.paths blake3) rows →
      (∀ p k, t.lookup (p,k) = gather (job.rows skip again rows) (p,k)) →
      ∀ p k v, t.lookup (p,k) = some v → (st.files.lookup p).isSome := by
    intro κ ν _ _ t rows located same p k v found
    apply files
    apply rows_staged located (k := k)
    rw [← same,found]
    exact Option.some_ne_none v
  exact ⟨cell _ _ (recordRows_located _) (fun p k => congrFun (congrArg FileContent.records (content p)) k),
    cell _ _ (symbolTypeRows_located _) (fun p k => congrFun (congrArg FileContent.symbolTypes (content p)) k),
    cell _ _ (functionTypeRows_located _) (fun p k => congrFun (congrArg FileContent.functionTypes (content p)) k),
    cell _ _ (propertyRows_located _) (fun p k => congrFun (congrArg FileContent.symbolProperties (content p)) k)⟩

private theorem content_of_tables {skip : Nat → Bool} {again : Bool} {st : Staging} (path : Text)
    {mark : Text → StagingFile → Bool}
    (files : st.files = Table.modify (job.stagedFiles blake3) (fun path row => {row with cached := mark path row}))
    (records : ∀ k, st.records.lookup (path,k) =
      gather (job.rows skip again (recordRows (job.paths blake3))) (path,k))
    (symbolTypes : ∀ k, st.symbolTypes.lookup (path,k) =
      gather (job.rows skip again (symbolTypeRows (job.paths blake3))) (path,k))
    (functionTypes : ∀ k, st.functionTypes.lookup (path,k) =
      gather (job.rows skip again (functionTypeRows (job.paths blake3))) (path,k))
    (properties : ∀ k, st.symbolProperties.lookup (path,k) =
      gather (job.rows skip again (propertyRows (job.paths blake3))) (path,k)) :
    st.content path = job.content blake3 skip again path := by
  apply FileContent.ext
  · rw [Staging.content,files,Table.lookup_modify,Option.map_map]
    rfl
  · exact funext records
  · exact funext symbolTypes
  · exact funext functionTypes
  · exact funext properties
  · funext data
    change gather (stagedFingerprints st) (path,data) = _
    rw [gather_stagedFingerprints,files,Table.lookup_modify,Option.bind_map]
    rfl

theorem stage_produces {db : Db} {st : Staging} (staged : job.stage blake3 db = some st) :
    job.Produces blake3 (isCached (job.cachedFlags blake3 db)) false st := by
  rw [Job.stage,stageFiles_eq,Option.map_some,Option.some.injEq] at staged
  change job.stageRecords blake3 (job.cachedFlags blake3 db)
    {Staging.empty with files := job.markedFiles blake3 db} = st at staged
  rw [Job.stageRecords,stageRecords_rows,kept_passing] at staged
  simp only [← rows_once] at staged
  have marked : job.markedFiles blake3 db = Table.modify (job.stagedFiles blake3) (fun path row =>
      {row with cached := row.cached ||
        (!row.isMain && row.mtimeNs ≠ 0 && cacheHit db job.request.variant path row)}) := by
    unfold Job.markedFiles markCached
    congr 1
    funext path row
    split
    · rename_i hit
      rw [hit,Bool.or_true]
    · rename_i hit
      rw [Bool.not_eq_true] at hit
      rw [hit,Bool.or_false]
  have files : st.files = job.markedFiles blake3 db := by rw [← staged]
  have content : ∀ path, st.content path =
      job.content blake3 (isCached (job.cachedFlags blake3 db)) false path := by
    intro path
    rw [← staged]
    exact content_of_tables path marked
      (fun k => Table.lookup_insertRows _ _ _) (fun k => Table.lookup_insertRows _ _ _)
      (fun k => Table.lookup_insertRows _ _ _) (fun k => Table.lookup_insertRows _ _ _)
  refine ⟨⟨_,files.trans marked⟩,content,produces_covered ?_ content,?_⟩
  · intro path present
    rw [files,lookup_markedFiles,Option.isSome_map]
    exact present
  · intro i flagged
    obtain ⟨fingerprint,path,row,counted,found,included,offered,hit⟩ := cachedOrdinals_mem (cachedFlags_hit flagged)
    exact ⟨fingerprint,path,row,counted,found,included,offered,fun _ => by rw [files,hit]⟩

theorem restage_produces {skip : Nat → Bool} {st : Staging} (produces : job.Produces blake3 skip false st) :
    job.Produces blake3 skip true (job.restage blake3 st) := by
  obtain ⟨mark,files⟩ := produces.files
  have again : job.restage blake3 st = { st with
      files := Table.modify st.files (fun _ row => {row with cached := false})
      records := Table.insertRows st.records (job.passing.flatMap (recordRows (job.paths blake3)))
      symbolTypes := Table.insertRows st.symbolTypes (job.passing.flatMap (symbolTypeRows (job.paths blake3)))
      functionTypes := Table.insertRows st.functionTypes
        (job.passing.flatMap (functionTypeRows (job.paths blake3)))
      symbolProperties := Table.insertRows st.symbolProperties
        (job.passing.flatMap (propertyRows (job.paths blake3))) } := by
    rw [Job.restage,Job.stageRecords,stageRecords_rows,kept_noneCached]
  have cleared : (job.restage blake3 st).files = Table.modify (job.stagedFiles blake3)
      (fun _ row => {row with cached := false}) := by
    rw [again,files]
    apply AList.ext
    simp [Table.modify]
  have content : ∀ path, (job.restage blake3 st).content path = job.content blake3 skip true path := by
    intro path
    have before := produces.content path
    have cell : ∀ {κ ν : Type} [DecidableEq κ] [Conflict ν] (t : Table (Text × κ) ν)
        (rows : Item → List ((Text × κ) × ν)) (k : κ),
        t.lookup (path,k) = gather (job.rows skip false rows) (path,k) →
        (Table.insertRows t (job.passing.flatMap rows)).lookup (path,k) =
          gather (job.rows skip true rows) (path,k) := by
      intro κ ν _ _ t rows k same
      rw [Table.lookup_insertRows,same,rows_again,gather_append]
    apply content_of_tables _ cleared <;> rw [again] <;> intro k
    · exact cell _ _ k (congrFun (congrArg FileContent.records before) k)
    · exact cell _ _ k (congrFun (congrArg FileContent.symbolTypes before) k)
    · exact cell _ _ k (congrFun (congrArg FileContent.functionTypes before) k)
    · exact cell _ _ k (congrFun (congrArg FileContent.symbolProperties before) k)
  refine ⟨⟨_,cleared⟩,content,produces_covered ?_ content,?_⟩
  · intro path present
    rw [cleared,Table.lookup_modify,Option.isSome_map]
    exact present
  · intro i skipped
    obtain ⟨fingerprint,path,row,counted,found,included,offered,_⟩ := produces.skipped i skipped
    exact ⟨fingerprint,path,row,counted,found,included,offered,fun impossible => by contradiction⟩

theorem stageAll_produces : job.Produces blake3 (fun _ => false) false (job.stageAll blake3) := by
  have all : job.stageAll blake3 = { Staging.empty with
      files := job.stagedFiles blake3
      records := Table.insertRows ∅ (job.rows (fun _ => false) false (recordRows (job.paths blake3)))
      symbolTypes := Table.insertRows ∅ (job.rows (fun _ => false) false (symbolTypeRows (job.paths blake3)))
      functionTypes := Table.insertRows ∅
        (job.rows (fun _ => false) false (functionTypeRows (job.paths blake3)))
      symbolProperties := Table.insertRows ∅
        (job.rows (fun _ => false) false (propertyRows (job.paths blake3))) } := by
    rw [Job.stageAll,Job.stageRecords,stageRecords_rows,kept_noneCached]
    simp only [rows_all]
    rfl
  have files : (job.stageAll blake3).files = Table.modify (job.stagedFiles blake3)
      (fun _ row => {row with cached := row.cached}) := by
    rw [all]
    apply AList.ext
    simp [Table.modify]
  have content : ∀ path, (job.stageAll blake3).content path = job.content blake3 (fun _ => false) false path := by
    intro path
    apply content_of_tables _ files <;> rw [all] <;> exact fun k => Table.lookup_insertRows _ _ _
  refine ⟨⟨_,files⟩,content,produces_covered ?_ content,fun i impossible => by contradiction⟩
  intro path present
  rw [all]
  exact present

end Rows
section Fingerprints

theorem kept_nothing {includeLocal : Bool} (item : Item) : kept includeLocal [] item = item.passes includeLocal := by
  simp [kept,isCached]

/-- Copied at the first local item, the hash of all items is the one it would be on its own:
the two hashes and counts are those of the items without the local ones and of all items,
and what `rebuildFingerprints` counts is what `stage_records` stages when nothing is cached. -/
theorem forked_hashes_independent (blake3 : List UInt8 → Fingerprint) :
    (∀ items : List Item,
      let state := items.foldl feed .initial
      state.hasLocal = items.any Item.isLocal ∧
      (⟨state.hash,state.records⟩ : PlainHash) = plainHash (items.filter (fun item => !item.isLocal)) ∧
      (if state.hasLocal then ⟨state.hashAll,state.recordsAll⟩ else ⟨state.hash,state.records⟩ : PlainHash) = plainHash items ∧
      plainHash items = ⟨items.flatMap hashItem,items.length⟩) ∧
    ∀ (index : Index) (includeLocal : Bool),
      rebuildFingerprints blake3 index includeLocal =
        index.files.zipIdx.map (fun (file,i) => (plainHash (index.fileItems i includeLocal)).fingerprint blake3 file) ∧
      ∀ i, (rebuildFingerprints blake3 index includeLocal)[i]?.map FileFingerprint.recordCount =
          index.files[i]?.map (fun _ => index.items.countP (fun item => item.fileIndex = i && kept includeLocal [] item)) ∧
        ((rebuildFingerprints blake3 index includeLocal)[i]?.map FileFingerprint.recordCount = some 0 ↔
          i < index.files.length ∧ ∀ item ∈ index.items, item.fileIndex = i → item.passes includeLocal = false) := by
  refine ⟨fun items => ?_,fun index includeLocal => ⟨rebuildFingerprints_plain blake3 index includeLocal,fun i => ?_⟩⟩
  · obtain ⟨unmarked,whole,copied⟩ := feeds_independent items
    exact ⟨copied,unmarked,whole,plainHash_eq items⟩
  · have counted : (rebuildFingerprints blake3 index includeLocal)[i]?.map FileFingerprint.recordCount =
        index.files[i]?.map (fun _ => index.items.countP (fun item => item.fileIndex = i && kept includeLocal [] item)) := by
      simp only [rebuildFingerprints_plain,List.getElem?_map,List.getElem?_zipIdx,Option.map_map]
      cases index.files[i]? with
      | none => rfl
      | some file => simp [plainHash_eq,PlainHash.fingerprint,Index.fileItems,kept_nothing,List.countP_eq_length_filter]
    refine ⟨counted,?_⟩
    rw [counted]
    simp only [kept_nothing,Option.map_eq_some_iff,List.countP_eq_zero]
    constructor
    · intro facts
      obtain ⟨file,found,absent⟩ := facts
      refine ⟨(List.getElem?_eq_some_iff.mp found).1,fun item member here => ?_⟩
      have filtered := absent item member
      simpa [here] using filtered
    · intro facts
      obtain ⟨inside,absent⟩ := facts
      refine ⟨index.files[i],List.getElem?_eq_getElem inside,fun item member passes => ?_⟩
      obtain ⟨here,passes⟩ := Bool.and_eq_true_iff.mp passes
      rw [absent item member (of_decide_eq_true here)] at passes
      cases passes

end Fingerprints
end Semindex.IndexDb
