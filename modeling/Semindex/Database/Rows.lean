import Semindex.Database.Reader

/-! The rows behind the queries. The join has each stored row once, under its
variant, path and key, and a callback that collects receives exactly the
selected rows. -/
namespace Semindex.Database
open Semindex.Relational Semindex.IndexDb

section Join
variable {κ ν : Type} {files : Files} {t : Table (Nat × κ) ν}

def Joined.place {κ ν : Type} (row : Joined κ ν) : Text × Text × κ := (row.variant,row.path,row.key)

theorem mem_joinFiles [DecidableEq κ] {row : Joined κ ν} :
    row ∈ joinFiles files t ↔ rowsOf files t (row.variant,row.path) row.key = some row.value := by
  simp only [joinFiles,List.mem_flatMap,List.mem_map,List.mem_filter,decide_eq_true_eq]
  constructor
  · intro facts
    obtain ⟨entry,stored,file,⟨listed,same⟩,equal⟩ := facts
    subst equal
    have known : files.lookup (file.1.1,file.1.2) = some file.2 := AList.mem_lookup_iff.mpr listed
    have found : t.lookup (entry.1.1,entry.1.2) = some entry.2 := AList.mem_lookup_iff.mpr stored
    simp only [rowsOf,known,Option.bind_some]
    rw [same]
    exact found
  · intro found
    obtain ⟨file,known,stored⟩ := Option.bind_eq_some_iff.mp found
    exact ⟨⟨(file.id,row.key),row.value⟩,AList.mem_lookup_iff.mp stored,⟨(row.variant,row.path),file⟩,
      ⟨AList.mem_lookup_iff.mp known,rfl⟩,rfl⟩

/-- No two rows of the join have the same variant, path and key. -/
theorem joinFiles_distinct : Distinct Joined.place (joinFiles files t) := by
  have filesApart := List.nodupKeys_iff_pairwise.mp files.nodupKeys
  have rowsApart := List.nodupKeys_iff_pairwise.mp t.nodupKeys
  unfold Distinct joinFiles
  rw [List.pairwise_flatMap]
  constructor
  · intro entry _
    rw [List.pairwise_map]
    refine (List.Pairwise.filter _ filesApart).imp ?_
    intro f g apart same
    simp only [Joined.place,Prod.mk.injEq] at same
    exact apart (Prod.ext same.1 same.2.1)
  · refine rowsApart.imp ?_
    intro a b apart x left y right same
    obtain ⟨f,insideF,rfl⟩ := List.mem_map.mp left
    obtain ⟨g,insideG,rfl⟩ := List.mem_map.mp right
    obtain ⟨listedF,idF⟩ := List.mem_filter.mp insideF
    obtain ⟨listedG,idG⟩ := List.mem_filter.mp insideG
    simp only [Joined.place,Prod.mk.injEq] at same
    have one : files.lookup f.1 = some g.2 := by
      rw [Prod.ext same.1 same.2.1]
      exact AList.mem_lookup_iff.mpr listedG
    have both := Option.some.inj ((AList.mem_lookup_iff.mpr listedF).symm.trans one)
    rw [both] at idF
    apply apart
    exact Prod.ext ((of_decide_eq_true idF).symm.trans (of_decide_eq_true idG)) same.2.2

theorem mem_joinedRecords {db : Db} {row : RecordRow} :
    row ∈ joinedRecords db ↔ (db.content (row.variant,row.path)).records row.key = some row.value :=
  mem_joinFiles

/-- A database with this record only. -/
def Db.holding (row : RecordRow) : Db :=
  { Db.empty with
    files := AList.singleton (row.variant,row.path) ⟨1,0,0⟩
    records := AList.singleton (1,row.key) row.value }

theorem joinedRecords_holding (row : RecordRow) : joinedRecords (Db.holding row) = [row] := rfl

/-- A database with these two records, of one file or of two. -/
def Db.holdingBoth (a b : RecordRow) : Db :=
  { Db.empty with
    files := AList.insert (b.variant,b.path) ⟨2,0,0⟩ (AList.insert (a.variant,a.path) ⟨1,0,0⟩ ∅)
    records := AList.insert (2,b.key) b.value
      (AList.insert (if (a.variant,a.path) = (b.variant,b.path) then 2 else 1,a.key) a.value ∅) }

theorem joinedRecords_holdingBoth {a b : RecordRow} (apart : a.key ≠ b.key) :
    a ∈ joinedRecords (Db.holdingBoth a b) ∧ b ∈ joinedRecords (Db.holdingBoth a b) := by
  unfold joinedRecords Db.holdingBoth
  rw [mem_joinFiles,mem_joinFiles,rowsOf,rowsOf]
  constructor
  · by_cases same : (a.variant,a.path) = (b.variant,b.path)
    · rw [if_pos same,same,AList.lookup_insert,Option.bind_some,AList.lookup_insert_ne (by simp [apart]),
        AList.lookup_insert]
    · rw [if_neg same,AList.lookup_insert_ne same,AList.lookup_insert,Option.bind_some,
        AList.lookup_insert_ne (by simp),AList.lookup_insert]
  · rw [AList.lookup_insert,Option.bind_some,AList.lookup_insert]

end Join

section Origin

-- what the writer stores in the `record` and `kind` columns
theorem staged_codes {paths : StoredPaths} {item : Item} {row : (Text × RecordKey) × RecordValue}
    (member : row ∈ IndexDb.recordRows paths item) :
    (row.1.2.record = 0 ∨ row.1.2.record = 1) ∧ ∃ kind : SymbolKind, row.1.2.kind = kind.code := by
  cases item with
  | symbol s =>
    obtain rfl := List.mem_singleton.mp member
    exact ⟨.inl rfl,s.kind,rfl⟩
  | use u =>
    obtain rfl := List.mem_singleton.mp member
    exact ⟨.inr rfl,u.symbolKind,rfl⟩
  | signature g => simp [IndexDb.recordRows] at member

theorem stored_codes {blake3 : List UInt8 → Fingerprint} {jobs : Job → Prop} {db : Db}
    (reached : Reachable blake3 jobs db) {row : RecordRow} (member : row ∈ joinedRecords db) :
    (row.key.record = 0 ∨ row.key.record = 1) ∧ ∃ kind : SymbolKind, row.key.kind = kind.code := by
  obtain ⟨job,_,_,staged⟩ := reached.record_staged (mem_joinedRecords.mp member)
  obtain ⟨item,_,inside⟩ := List.mem_flatMap.mp staged
  exact staged_codes inside

theorem code_le_template (kind : SymbolKind) : kind.code ≤ SymbolKind.template.code := by
  cases kind <;> decide

theorem typeKindColumn_known (kind : SymbolKind) (usrId : Id) :
    -1 ≤ typeKindColumn kind usrId ∧ typeKindColumn kind usrId ≤ SymbolKind.template.code := by
  have known := code_le_template kind
  unfold typeKindColumn
  split <;> omega

theorem stored_symbolType {blake3 : List UInt8 → Fingerprint} {jobs : Job → Prop} {db : Db}
    (reached : Reachable blake3 jobs db) {row : SymbolTypeRow} (member : row ∈ joinedSymbolTypes db) :
    -1 ≤ row.key.typeKind ∧ row.key.typeKind ≤ SymbolKind.template.code := by
  have found : (db.content (row.variant,row.path)).symbolTypes row.key ≠ none := by
    rw [show (db.content (row.variant,row.path)).symbolTypes row.key = some row.value from mem_joinFiles.mp member]
    exact Option.some_ne_none _
  obtain ⟨job,item,_,staged,inside,key⟩ := reached.key_staged FileContent.symbolTypes symbolTypeRows
    (fun _ => rfl) (fun _ _ => rfl) (fun _ _ _ => rfl) (fun _ _ _ _ _ => rfl) found
  have same : row.key = staged.1.2 := (congrArg Prod.snd key).symm
  rw [same]
  cases item with
  | symbol s =>
    simp only [symbolTypeRows] at inside
    split at inside
    · obtain rfl := List.mem_singleton.mp inside
      exact typeKindColumn_known _ _
    · cases inside
  | use u => cases inside
  | signature g => cases inside

theorem stored_functionType {blake3 : List UInt8 → Fingerprint} {jobs : Job → Prop} {db : Db}
    (reached : Reachable blake3 jobs db) {row : FunctionTypeRow} (member : row ∈ joinedFunctionTypes db) :
    -1 ≤ row.key.position ∧ -1 ≤ row.key.typeKind ∧ row.key.typeKind ≤ SymbolKind.template.code := by
  have found : (db.content (row.variant,row.path)).functionTypes row.key ≠ none := by
    rw [show (db.content (row.variant,row.path)).functionTypes row.key = some row.value from mem_joinFiles.mp member]
    exact Option.some_ne_none _
  obtain ⟨job,item,_,staged,inside,key⟩ := reached.key_staged FileContent.functionTypes functionTypeRows
    (fun _ => rfl) (fun _ _ => rfl) (fun _ _ _ => rfl) (fun _ _ _ _ _ => rfl) found
  have same : row.key = staged.1.2 := (congrArg Prod.snd key).symm
  rw [same]
  cases item with
  | symbol s => cases inside
  | use u => cases inside
  | signature g =>
    simp only [functionTypeRows] at inside
    split at inside
    · cases inside
    · rcases List.mem_cons.mp inside with rfl | parameter
      · exact ⟨Int.le_refl _,Int.le_refl _,by simp [returnTypeRow]⟩
      · obtain ⟨entry,_,rfl⟩ := List.mem_map.mp parameter
        exact ⟨by simp [parameterRow],typeKindColumn_known _ _⟩

end Origin

section Collect
variable {ρ : Type}

def collect : Callback (List ρ) ρ := fun rows row => (rows ++ [row],0)

/-- What a caller gets that collects the rows of a query, unless the query fails. -/
def collected (query : Callback (List ρ) ρ → List ρ → List ρ × Int) : Option (List ρ) :=
  if (query collect []).2 = 0 then some (query collect []).1 else none

/-- A callback that never stops the query is called for each row shown. -/
theorem emitRecords_steady {σ : Type} {callback : Callback σ DbRecord} (steady : ∀ data record, (callback data record).2 = 0)
    (position : Nat) (rows : List RecordRow) (data : σ) : emitRecords callback position rows data =
      (((rows.map dbRecord).filter (fun record => position = 0 || coversPosition position record)).foldl
        (fun data record => (callback data record).1) data,0) := by
  induction rows generalizing data with
  | nil => rfl
  | cons row rows ih =>
    have shown : (decide (position ≠ 0) && !coversPosition position (dbRecord row)) =
        !(decide (position = 0) || coversPosition position (dbRecord row)) := by
      rw [Bool.not_or,decide_not]
    rw [emitRecords]
    dsimp only
    rw [shown,List.map_cons]
    cases selected : decide (position = 0) || coversPosition position (dbRecord row) with
    | false => simp [selected,ih]
    | true => simp [selected,ih,steady]

theorem collect_fold (rows data : List ρ) : rows.foldl (fun data row => (collect data row).1) data = data ++ rows := by
  induction rows generalizing data with
  | nil => simp
  | cons row rows ih =>
    rw [List.foldl_cons,ih]
    exact List.append_assoc data [row] rows

theorem emitRecords_collect (position : Nat) (rows : List RecordRow) (data : List DbRecord) :
    emitRecords collect position rows data =
      (data ++ (rows.map dbRecord).filter (fun record => position = 0 || coversPosition position record),0) := by
  rw [emitRecords_steady (fun _ _ => rfl),collect_fold]

theorem emitCounted_collect (limit count : Nat) (rows data : List ρ) :
    emitCounted collect limit count rows data =
      (data ++ if limit = 0 then rows else rows.take (limit-count),0) := by
  induction rows generalizing count data with
  | nil => simp [emitCounted]
  | cons row rows ih =>
    rw [emitCounted]
    by_cases unlimited : limit = 0
    · subst unlimited
      simp [collect,ih]
    · by_cases room : count < limit
      · have one : limit - count = (limit - (count+1)) + 1 := by omega
        simp [unlimited,room,collect,ih,one]
      · have full : limit - count = 0 := by omega
        simp [unlimited,room,full]

theorem collected_reject (reject : Prop) [Decidable reject] (run : Callback (List ρ) ρ → List ρ → List ρ × Int) :
    collected (fun callback data => if reject then (data,-1) else run callback data) =
      if reject then none else collected run := by
  by_cases rejected : reject <;> simp [collected,rejected]

variable (db : Db)

theorem collected_query (opts : QueryOptions) : collected (semindexDbQuery db opts) =
    if opts.limit ≤ LLONG_MAX ∧ opts.after.all validCursor then some ((opts.select db).map dbRecord) else none := by
  have rows : collected (fun callback data => emitRecords callback 0 (opts.select db) data) =
      some ((opts.select db).map dbRecord) := by
    simp [collected,emitRecords_collect]
  unfold semindexDbQuery
  rw [collected_reject,collected_reject,rows]
  cases opts.after <;> grind

-- the checks every query of an identity starts with
def Identity.Named (identity : Identity) : Prop :=
  identity.variant ≠ [] ∧ identity.symbol ≠ [] ∧ identity.usrId ≠ 0

instance (identity : Identity) : Decidable identity.Named :=
  inferInstanceAs (Decidable (_ ∧ _ ∧ _))

theorem collected_identity (query : IdentityQuery) : collected (semindexDbQueryIdentity db query) =
    if query.identity.Named ∧ query.identity.kind ≤ SymbolKind.template.code then
      collected (semindexDbQuery db query.options) else none := by
  unfold semindexDbQueryIdentity
  rw [collected_reject,collected_reject]
  unfold Identity.Named
  grind

theorem collected_symbolTypes (query : SymbolTypeQuery) : collected (semindexDbQuerySymbolTypes db query) =
    if query.identity.Named ∧ query.identity.kind ≤ SymbolKind.template.code then
      some (limited query.limit ((query.select db).map dbSymbolType)) else none := by
  have rows : collected (fun callback data =>
      emitCounted callback query.limit 0 ((query.select db).map dbSymbolType) data) =
        some (limited query.limit ((query.select db).map dbSymbolType)) := by
    simp [collected,emitCounted_collect,limited]
  unfold semindexDbQuerySymbolTypes
  rw [collected_reject,collected_reject,collected_reject,rows]
  unfold Identity.Named
  grind

theorem collected_functionTypes (query : FunctionTypeQuery) : collected (semindexDbQueryFunctionTypes db query) =
    if query.identity.Named ∧ query.identity.kind = SymbolKind.function.code then
      some (limited query.limit ((query.select db).map dbFunctionType)) else none := by
  have rows : collected (fun callback data =>
      emitCounted callback query.limit 0 ((query.select db).map dbFunctionType) data) =
        some (limited query.limit ((query.select db).map dbFunctionType)) := by
    simp [collected,emitCounted_collect,limited]
  unfold semindexDbQueryFunctionTypes
  rw [collected_reject,collected_reject,rows]
  unfold Identity.Named
  grind

theorem collected_findAt (path : Text) (variant : Option Text) (line column : Nat) :
    collected (semindexDbFindAt db path variant line column) =
      if path = [] ∨ line = 0 ∨ column = 0 then none
      else some (((selectAt db path variant line column).map dbRecord).filter (coversPosition column)) := by
  unfold semindexDbFindAt
  rw [collected_reject]
  simp only [Bool.or_eq_true,decide_eq_true_eq,or_assoc]
  split
  · rfl
  · rename_i placed
    have positioned : column ≠ 0 := fun none => placed (.inr (.inr none))
    simp [collected,emitRecords_collect,positioned]

theorem collected_calls (opts : CallOptions) : collected (semindexDbQueryCalls db opts) =
    if opts.function = [] then none else some ((opts.select db).map dbRecord) := by
  have rows : collected (fun callback data => emitRecords callback 0 (opts.select db) data) =
      some ((opts.select db).map dbRecord) := by
    simp [collected,emitRecords_collect]
  unfold semindexDbQueryCalls
  rw [collected_reject,rows]

end Collect
end Semindex.Database
