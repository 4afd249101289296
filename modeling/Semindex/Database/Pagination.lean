import Semindex.Database.Rows

/-! Paging through the three cursor queries. Their order is a key of the selected
rows and the cursor carries that key, so the pages are complete as long as each
cursor is accepted. The type queries accept every cursor; the record query
refuses the rows without a location or a name. -/
namespace Semindex.Database
open Semindex.Relational Semindex.IndexDb

section Cursors

-- the last record's cursor fields
def cursorOf (record : DbRecord) : Cursor where
  variant := record.variant
  path := record.path
  symbol := record.symbol
  record := record.record
  kind := record.kind
  action := record.action
  mode := record.mode
  line := record.line
  column := record.column

def symbolTypeCursorOf (type : DbSymbolType) : SymbolTypeCursor where
  declaredType := type.declaredType
  canonicalType := type.canonicalType
  typeSymbol := type.typeSymbol
  typeKind := type.typeKind
  typeUsrId := type.typeUsrId
  path := type.path

def functionTypeCursorOf (type : DbFunctionType) : FunctionTypeCursor where
  position := type.position
  declaredType := type.declaredType
  canonicalType := type.canonicalType
  typeSymbol := type.typeSymbol
  typeKind := type.typeKind
  typeUsrId := type.typeUsrId
  path := type.path

/-- The record names a place of the source and a symbol, in a named file of a named variant. -/
structure Resumable (row : RecordRow) : Prop where
  variant : row.variant ≠ []
  path : row.path ≠ []
  symbol : row.key.symbol ≠ []
  line : row.key.line ≠ 0
  column : row.key.column ≠ 0

instance (row : RecordRow) : Decidable (Resumable row) :=
  decidable_of_iff (row.variant ≠ [] ∧ row.path ≠ [] ∧ row.key.symbol ≠ [] ∧ row.key.line ≠ 0 ∧ row.key.column ≠ 0)
    ⟨fun h => ⟨h.1,h.2.1,h.2.2.1,h.2.2.2.1,h.2.2.2.2⟩,
      fun h => ⟨h.variant,h.path,h.symbol,h.line,h.column⟩⟩

variable {row : RecordRow}

/-- The record type and the action of a result give its `record` column back. -/
theorem storedRecordType_dbRecord (stored : row.key.record = 0 ∨ row.key.record = 1) :
    storedRecordType (dbRecord row).record = row.key.record := by
  unfold dbRecord recordType
  rcases stored with symbol | use
  · rw [symbol]
    by_cases defined : row.key.action = 0 <;> simp [defined,storedRecordType]
  · simp [use,storedRecordType]

theorem place_cursorOf (stored : row.key.record = 0 ∨ row.key.record = 1) :
    (cursorOf (dbRecord row)).place = recordOrder row := by
  unfold Cursor.place recordOrder cursorOf
  rw [storedRecordType_dbRecord stored]
  rfl

theorem validCursor_iff : validCursor (cursorOf (dbRecord row)) = true ↔ Resumable row := by
  have typed : (cursorOf (dbRecord row)).record = recordType row.key.record row.key.action := rfl
  have action : (cursorOf (dbRecord row)).action = row.key.action := rfl
  have fits : validCursor (cursorOf (dbRecord row)) = !(row.variant = [] || row.path = [] || row.key.symbol = [] ||
      row.key.line = 0 || row.key.column = 0) := by
    unfold validCursor
    rw [typed,action]
    unfold recordType
    by_cases use : row.key.record = 1 <;> by_cases declared : row.key.action = 0 <;>
      simp [use,declared,cursorOf,dbRecord]; rfl
  rw [fits]
  constructor
  · intro named
    simp only [Bool.not_eq_true',Bool.or_eq_false_iff,decide_eq_false_iff_not] at named
    exact ⟨named.1.1.1.1,named.1.1.1.2,named.1.1.2,named.1.2,named.2⟩
  · intro resumable
    simp [resumable.variant,resumable.path,resumable.symbol,resumable.line,resumable.column]

end Cursors

section Orders
variable {db : Db}

theorem recordOrder_rows : Distinct recordOrder (joinedRecords db) := by
  refine joinFiles_distinct.imp ?_
  intro a b apart same
  apply apart
  simp only [recordOrder,toLex_inj,Prod.mk.injEq] at same
  obtain ⟨variant,path,line,column,symbol,record,action,kind,mode⟩ := same
  obtain ⟨_,_,⟨_,_,_,_,_,_,_⟩,_⟩ := a
  obtain ⟨_,_,⟨_,_,_,_,_,_,_⟩,_⟩ := b
  simp_all [Joined.place]

theorem recordOrder_distinct (opts : QueryOptions) :
    Distinct recordOrder ((joinedRecords db).filter opts.selects) := recordOrder_rows.filter _

-- the columns outside the order are fixed by the identity
theorem symbolTypeOrder_distinct (identity : Identity) :
    Distinct symbolTypeOrder ((joinedSymbolTypes db).filter identity.selectsTypes) := by
  refine List.Pairwise.imp_of_mem ?_ (joinFiles_distinct.filter identity.selectsTypes)
  intro a b memberA memberB apart same
  have fixedA := (List.mem_filter.mp memberA).2
  have fixedB := (List.mem_filter.mp memberB).2
  apply apart
  simp only [symbolTypeOrder,toLex_inj,Prod.mk.injEq,BitVec.toInt_inj] at same
  obtain ⟨declared,canonical,symbol,kind,usr,path⟩ := same
  simp only [Identity.selectsTypes,Bool.and_eq_true,decide_eq_true_eq] at fixedA fixedB
  obtain ⟨_,_,⟨_,_,_,_,_,_,_,_⟩,_⟩ := a
  obtain ⟨_,_,⟨_,_,_,_,_,_,_,_⟩,_⟩ := b
  simp_all [Joined.place]

theorem functionTypeOrder_distinct (identity : Identity) :
    Distinct functionTypeOrder ((joinedFunctionTypes db).filter identity.selectsSignatures) := by
  refine List.Pairwise.imp_of_mem ?_ (joinFiles_distinct.filter identity.selectsSignatures)
  intro a b memberA memberB apart same
  have fixedA := (List.mem_filter.mp memberA).2
  have fixedB := (List.mem_filter.mp memberB).2
  apply apart
  simp only [functionTypeOrder,toLex_inj,Prod.mk.injEq,BitVec.toInt_inj] at same
  obtain ⟨position,declared,canonical,symbol,kind,usr,path⟩ := same
  simp only [Identity.selectsSignatures,Bool.and_eq_true,decide_eq_true_eq] at fixedA fixedB
  obtain ⟨_,_,⟨_,_,_,_,_,_,_,_⟩,_⟩ := a
  obtain ⟨_,_,⟨_,_,_,_,_,_,_,_⟩,_⟩ := b
  simp_all [Joined.place]

end Orders

section Pages
variable (db : Db)

def recordPages (opts : QueryOptions) (after : Option Cursor) (limit : Nat) : Option (List DbRecord) :=
  collected (semindexDbQuery db {opts with after, limit})

def identityPages (query : IdentityQuery) (after : Option Cursor) (limit : Nat) : Option (List DbRecord) :=
  collected (semindexDbQueryIdentity db {query with after, limit})

def symbolTypePages (query : SymbolTypeQuery) (after : Option SymbolTypeCursor) (limit : Nat) :
    Option (List DbSymbolType) :=
  collected (semindexDbQuerySymbolTypes db {query with after, limit})

def functionTypePages (query : FunctionTypeQuery) (after : Option FunctionTypeCursor) (limit : Nat) :
    Option (List DbFunctionType) :=
  collected (semindexDbQueryFunctionTypes db {query with after, limit})

/-- Each stored record the query selects that has a multiple of `limit` of them up to its own place
can be continued from. -/
def PagesResumable (opts : QueryOptions) (limit : Nat) : Prop :=
  ∀ row ∈ (joinedRecords db).filter opts.selects,
    limit ∣ rank recordOrder ((joinedRecords db).filter opts.selects) row → Resumable row

instance (opts : QueryOptions) (limit : Nat) : Decidable (PagesResumable db opts limit) :=
  inferInstanceAs (Decidable (∀ row ∈ _,_ → _))

variable {db} {blake3 : List UInt8 → Fingerprint} {jobs : Job → Prop} {limit : Nat}

theorem recordPages_answer (opts : QueryOptions) (after : Option Cursor) (n : Nat) :
    recordPages db opts after n = if n ≤ LLONG_MAX ∧ after.all validCursor then
      some (limited n ((orderBy recordOrder (((joinedRecords db).filter opts.selects).filter
        (fun row => after.all (fun c => c.place < recordOrder row)))).map dbRecord)) else none := by
  unfold recordPages
  rw [collected_query]
  simp only [QueryOptions.select,List.filter_filter,Bool.and_comm,limited_map]
  rfl

theorem recordPages_complete_iff (reached : Reachable blake3 jobs db) (positive : 0 < limit) (opts : QueryOptions) :
    Complete (recordPages db opts) cursorOf limit ↔ limit ≤ LLONG_MAX ∧ PagesResumable db opts limit := by
  by_cases fits : limit ≤ LLONG_MAX
  · have stored : ∀ row ∈ (joinedRecords db).filter opts.selects, (cursorOf (dbRecord row)).place = recordOrder row :=
      fun row member => place_cursorOf (stored_codes reached (List.mem_filter.mp member).1).1
    have unlimited : recordPages db opts none 0 =
        some ((orderBy recordOrder ((joinedRecords db).filter opts.selects)).map dbRecord) := by
      rw [recordPages_answer]
      simp [limited]
    rw [keyset_complete_iff validCursor (recordOrder_distinct opts) positive stored unlimited
      (fun after => by simp only [recordPages_answer,fits,true_and])]
    simp only [validCursor_iff,fits,true_and,PagesResumable]
  · have rejected : ∀ after, recordPages db opts after limit = none := by
      intro after
      rw [recordPages_answer,if_neg (fun both => fits both.1)]
    simp [not_complete_of_rejected rejected,fits]

theorem identityPages_complete_iff (reached : Reachable blake3 jobs db) (positive : 0 < limit)
    (query : IdentityQuery) : Complete (identityPages db query) cursorOf limit ↔
      query.identity.Named ∧ query.identity.kind ≤ SymbolKind.template.code ∧ limit ≤ LLONG_MAX ∧
        PagesResumable db query.options limit := by
  by_cases known : query.identity.Named ∧ query.identity.kind ≤ SymbolKind.template.code
  · have same : identityPages db query = recordPages db query.options := by
      funext after n
      unfold identityPages
      rw [collected_identity,if_pos known]
      rfl
    rw [same,recordPages_complete_iff reached positive]
    simp [known.1,known.2]
  · have rejected : ∀ after, identityPages db query after limit = none := by
      intro after
      unfold identityPages
      rw [collected_identity,if_neg known]
    simp only [not_complete_of_rejected rejected,false_iff]
    intro all
    exact known ⟨all.1,all.2.1⟩

theorem symbolTypePages_complete_iff (positive : 0 < limit) (query : SymbolTypeQuery) :
    Complete (symbolTypePages db query) symbolTypeCursorOf limit ↔
      query.identity.Named ∧ query.identity.kind ≤ SymbolKind.template.code := by
  by_cases known : query.identity.Named ∧ query.identity.kind ≤ SymbolKind.template.code
  · have answer : ∀ after n, symbolTypePages db query after n = some (limited n ((orderBy symbolTypeOrder
        (((joinedSymbolTypes db).filter query.identity.selectsTypes).filter
          (fun row => after.all (fun c => c.place < symbolTypeOrder row)))).map dbSymbolType)) := by
      intro after n
      unfold symbolTypePages
      rw [collected_symbolTypes,if_pos known]
      simp only [SymbolTypeQuery.select,List.filter_filter,Bool.and_comm]
    have unlimited : symbolTypePages db query none 0 = some ((orderBy symbolTypeOrder
        ((joinedSymbolTypes db).filter query.identity.selectsTypes)).map dbSymbolType) := by
      rw [answer]
      simp [limited]
    rw [keyset_complete_iff (fun _ => true) (symbolTypeOrder_distinct query.identity) positive
      (fun _ _ => rfl) unlimited (fun after => by
        rw [answer]
        cases after <;> rfl)]
    simp [known]
  · have rejected : ∀ after, symbolTypePages db query after limit = none := by
      intro after
      unfold symbolTypePages
      rw [collected_symbolTypes,if_neg known]
    simp only [not_complete_of_rejected rejected,known]

theorem functionTypePages_complete_iff (positive : 0 < limit) (query : FunctionTypeQuery) :
    Complete (functionTypePages db query) functionTypeCursorOf limit ↔
      query.identity.Named ∧ query.identity.kind = SymbolKind.function.code := by
  by_cases known : query.identity.Named ∧ query.identity.kind = SymbolKind.function.code
  · have answer : ∀ after n, functionTypePages db query after n = some (limited n ((orderBy functionTypeOrder
        (((joinedFunctionTypes db).filter query.identity.selectsSignatures).filter
          (fun row => after.all (fun c => c.place < functionTypeOrder row)))).map dbFunctionType)) := by
      intro after n
      unfold functionTypePages
      rw [collected_functionTypes,if_pos known]
      simp only [FunctionTypeQuery.select,List.filter_filter,Bool.and_comm]
    have unlimited : functionTypePages db query none 0 = some ((orderBy functionTypeOrder
        ((joinedFunctionTypes db).filter query.identity.selectsSignatures)).map dbFunctionType) := by
      rw [answer]
      simp [limited]
    rw [keyset_complete_iff (fun _ => true) (functionTypeOrder_distinct query.identity) positive
      (fun _ _ => rfl) unlimited (fun after => by
        rw [answer]
        cases after <;> rfl)]
    simp [known]
  · have rejected : ∀ after, functionTypePages db query after limit = none := by
      intro after
      unfold functionTypePages
      rw [collected_functionTypes,if_neg known]
    simp only [not_complete_of_rejected rejected,known]

/-- Paging by `limit`: the record query is complete just where the rows that end its full pages have
a location and a name, the identity query also needs an identity it accepts, and the type queries need
nothing else. -/
theorem cursor_pages_complete_iff (reached : Reachable blake3 jobs db) (positive : 0 < limit) :
    (∀ opts, Complete (recordPages db opts) cursorOf limit ↔
      limit ≤ LLONG_MAX ∧ PagesResumable db opts limit) ∧
    (∀ query, Complete (identityPages db query) cursorOf limit ↔
      query.identity.Named ∧ query.identity.kind ≤ SymbolKind.template.code ∧ limit ≤ LLONG_MAX ∧
        PagesResumable db query.options limit) ∧
    (∀ query, Complete (symbolTypePages db query) symbolTypeCursorOf limit ↔
      query.identity.Named ∧ query.identity.kind ≤ SymbolKind.template.code) ∧
    ∀ query, Complete (functionTypePages db query) functionTypeCursorOf limit ↔
      query.identity.Named ∧ query.identity.kind = SymbolKind.function.code :=
  ⟨recordPages_complete_iff reached positive,identityPages_complete_iff reached positive,
    symbolTypePages_complete_iff positive,functionTypePages_complete_iff positive⟩

end Pages

section Samples

-- calls of `foo` at the given lines and columns of a file
def placedJob (file : String) (places : List (Nat × Nat)) : Job :=
  sampleJob (tableFs []) "a.c"
    ⟨[file.toList],[],places.map (fun (line,column) => {sampleUse "foo" "f" 0 line with column}),[],
      by simp,by
        intro u member
        obtain ⟨place,_,rfl⟩ := List.mem_map.mp member
        exact Nat.one_pos,by simp⟩

theorem cursor_pages_complete_placed : ∃ db, storeAll foldHash [placedJob "h.h" [(1,1),(1,5),(2,1)]] = some db ∧
    Complete (recordPages db {path := some "h.h".toList}) cursorOf 1 := by
  have paged : (storeAll foldHash [placedJob "h.h" [(1,1),(1,5),(2,1)]]).map (fun db =>
      decide (PagesResumable db {path := some "h.h".toList} 1)) = some true := by decide +kernel
  obtain ⟨db,stored,resumable⟩ := Option.map_eq_some_iff.mp paged
  have reached : Reachable foldHash (fun _ => True) db := reachable_storeAll _ (fun _ _ => trivial) stored
  exact ⟨db,stored,((@cursor_pages_complete_iff _ _ _ 1 reached Nat.one_pos).1 _).mpr
    ⟨by decide,of_decide_eq_true resumable⟩⟩

/-- The cursor after a record of `<invalid>` is refused. -/
theorem invalid_file_not_paged : ∃ db, storeAll foldHash [placedJob "<invalid>" [(0,0)]] = some db ∧
    (∃ whole, recordPages db {} none 0 = some whole) ∧ ¬ Complete (recordPages db {}) cursorOf 1 := by
  have stuck : (storeAll foldHash [placedJob "<invalid>" [(0,0)]]).map (fun db =>
      decide (PagesResumable db {} 1)) = some false := by decide +kernel
  obtain ⟨db,stored,refused⟩ := Option.map_eq_some_iff.mp stuck
  have reached : Reachable foldHash (fun _ => True) db := reachable_storeAll _ (fun _ _ => trivial) stored
  refine ⟨db,stored,⟨_,by rw [recordPages_answer]; rfl⟩,?_⟩
  rw [recordPages_complete_iff reached Nat.one_pos]
  intro ⟨_,resumable⟩
  exact of_decide_eq_false refused resumable

end Samples
end Semindex.Database
