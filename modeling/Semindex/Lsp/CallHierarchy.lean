import Semindex.Database.Functions

/-! The records that the items of a call hierarchy are shown with: those of
`loadFunctionRecords`, in batches, and the first call where a function has none. -/
namespace Semindex.Lsp.CallHierarchy
open Semindex.Relational Semindex.IndexDb Semindex.Database

-- a function is looked for without its kind
def functionIdentity (function : DbFunction) : Identity :=
  ⟨function.variant,function.symbol,function.usrId,SymbolKind.function.code⟩

section Load

def recordIdentity (record : DbRecord) : Identity := ⟨record.variant,record.symbol,record.usrId,record.kind⟩

abbrev FunctionRecords := Table Identity DbRecord

-- a definition takes the place of a declaration
def better (found : Option DbRecord) (record : DbRecord) : Bool :=
  match found with
  | none => true
  | some found => found.action = 0 && record.action ≠ 0

def collectFunctionRecord : Callback FunctionRecords DbRecord := fun records record =>
  (if better (records.lookup (recordIdentity record)) record then records.insert (recordIdentity record) record else records,0)

variable (db : Db) (limit : Nat)

def loadFunctionRecords (identities : List Identity) : FunctionRecords × Int :=
  semindexDbQueryFunctions db limit (identities.map (fun identity => ⟨identity.variant,identity.symbol,identity.usrId⟩))
    collectFunctionRecord ∅

end Load

section Calls

-- in the order of the map
abbrev IdentityOrder := Text ×ₗ Text ×ₗ Nat ×ₗ Nat

def identityOrder (identity : Identity) : IdentityOrder :=
  toLex (identity.variant,toLex (identity.symbol,toLex (identity.kind,identity.usrId.toNat)))

structure Group where
  identity : Identity
  first : DbRecord
  more : List DbRecord

def addCall (identity : Identity) (record : DbRecord) : List Group → List Group
  | [] => [⟨identity,record,[]⟩]
  | group::groups =>
    if group.identity = identity then {group with more := group.more ++ [record]}::groups
    else if identityOrder identity < identityOrder group.identity then ⟨identity,record,[]⟩::group::groups
    else group::addCall identity record groups

def callIdentity (direction : CallDirection) (record : DbRecord) : Identity :=
  match direction with
  | .callers => ⟨record.variant,record.context,record.contextUsrId,SymbolKind.function.code⟩
  | .callees => ⟨record.variant,record.symbol,record.usrId,SymbolKind.function.code⟩

def collectCall (direction : CallDirection) : Callback (List Group) DbRecord := fun groups record =>
  let identity := callIdentity direction record
  (if identity.symbol = [] || identity.usrId = 0 then groups else addCall identity record groups,0)

/-- An item with the record it is shown with, and the ranges of its calls. -/
structure CallItem where
  identity : Identity
  location : DbRecord
  ranges : List DbRecord

variable (db : Db) (limit : Nat)

-- `none` is a database error
def calls (requested : Identity) (direction : CallDirection) : Option (List CallItem) :=
  let options := ⟨requested.symbol,some requested.variant,requested.usrId,direction⟩
  let (groups,ret) := semindexDbQueryCalls db options (collectCall direction) []
  if ret < 0 then none
  else
    let (functions,ret) := loadFunctionRecords db limit (groups.map Group.identity)
    if ret < 0 then none
    else some (groups.map (fun group =>
      ⟨group.identity,(functions.lookup group.identity).getD group.first,group.first::group.more⟩))

end Calls

section Stored
variable (db : Db)

/-- The database has this record of the function. -/
structure Stored (function : DbFunction) (filter : RecordFilter) (record : DbRecord) : Prop where
  row : ∃ row ∈ joinedRecords db, dbRecord row = record ∧ row.value.usrId = some function.usrId ∧ filter.admits row.key = true
  variant : record.variant = function.variant
  symbol : record.symbol = function.symbol
  kind : record.kind = SymbolKind.function.code

/-- A function has a definition, if one is stored, and a declaration else. -/
def Mapped (function : DbFunction) (found : Option DbRecord) : Prop :=
  (∃ record, Stored db function .definition record ∧ found = some record) ∨
  ((∀ record, ¬ Stored db function .definition record) ∧ ∃ record, Stored db function .declaration record ∧ found = some record) ∨
  ((∀ record, ¬ Stored db function .definition record ∧ ¬ Stored db function .declaration record) ∧ found = none)

/-- Nothing is found, or a row that answers the request and comes first of these. -/
def Nearest (function : DbFunction) (found : Option DbRecord) : Prop :=
  match found with
  | none => ∀ row ∈ joinedRecords db, function.requests row = false
  | some record => ∃ row ∈ joinedRecords db, function.requests row = true ∧ dbRecord row = record ∧
    ∀ other ∈ joinedRecords db, function.requests other = true → functionOrder row ≤ functionOrder other

end Stored

section Kept
variable {db : Db} {function : DbFunction} {found : Option DbRecord} {row other : RecordRow}

theorem stored_iff {filter : RecordFilter} {record : DbRecord} (symbols : ∀ key, filter.admits key = true → key.record = 0) :
    Stored db function filter record ↔ ∃ row ∈ joinedRecords db, dbRecord row = record ∧ function.requests row = true ∧
      filter.admits row.key = true := by
  constructor
  · intro stored
    obtain ⟨⟨row,inside,same,usrId,admits⟩,variant,symbol,kind⟩ := stored
    subst same
    exact ⟨row,inside,rfl,DbFunction.requests_iff.mpr ⟨symbol,usrId,variant,symbols _ admits,kind⟩,admits⟩
  · intro some
    obtain ⟨row,inside,same,requested,admits⟩ := some
    obtain ⟨symbol,usrId,variant,_,kind⟩ := DbFunction.requests_iff.mp requested
    subst same
    exact ⟨⟨row,inside,rfl,usrId,admits⟩,variant,symbol,kind⟩

/-- Of two rows of a function, the one with the definition comes first. -/
theorem action_first (left : function.requests row = true) (right : function.requests other = true)
    (first : functionOrder row ≤ functionOrder other) : row.key.action = 0 → other.key.action = 0 := by
  intro none
  obtain ⟨symbol,_,variant,_⟩ := DbFunction.requests_iff.mp left
  obtain ⟨symbol',_,variant',_⟩ := DbFunction.requests_iff.mp right
  unfold functionOrder at first
  rw [variant,variant',symbol,symbol',Prod.Lex.toLex_le_toLex] at first
  rcases first with less | ⟨_,first⟩
  · exact absurd less (lt_irrefl _)
  · rw [Prod.Lex.toLex_le_toLex] at first
    rcases first with less | ⟨_,first⟩
    · exact absurd less (lt_irrefl _)
    · have actions : other.key.action ≤ row.key.action := by
        rcases Prod.Lex.toLex_le_toLex.mp first with less | ⟨same,_⟩
        · exact (OrderDual.toDual_lt_toDual.mp less).le
        · exact (OrderDual.toDual.injective same).ge
      omega

theorem Nearest.mapped (nearest : Nearest db function found) : Mapped db function found := by
  have definitions : ∀ key, RecordFilter.definition.admits key = true → key.record = 0 := by
    intro key admits
    simp only [RecordFilter.admits,Bool.and_eq_true,decide_eq_true_eq] at admits
    exact admits.1
  have declarations : ∀ key, RecordFilter.declaration.admits key = true → key.record = 0 := by
    intro key admits
    simp only [RecordFilter.admits,Bool.and_eq_true,decide_eq_true_eq] at admits
    exact admits.1
  unfold Mapped
  cases found with
  | none =>
    refine .inr (.inr ⟨fun record => ⟨fun stored => ?_,fun stored => ?_⟩,rfl⟩)
    · obtain ⟨row,inside,_,requested,_⟩ := (stored_iff definitions).mp stored
      rw [nearest row inside] at requested
      cases requested
    · obtain ⟨row,inside,_,requested,_⟩ := (stored_iff declarations).mp stored
      rw [nearest row inside] at requested
      cases requested
  | some record =>
    obtain ⟨row,inside,requested,same,first⟩ := nearest
    obtain ⟨_,_,_,symbol,_⟩ := DbFunction.requests_iff.mp requested
    by_cases action : row.key.action = 0
    · refine .inr (.inl ⟨fun record stored => ?_,record,(stored_iff declarations).mpr ⟨row,inside,same,requested,?_⟩,rfl⟩)
      · obtain ⟨other,held,_,asked,admits⟩ := (stored_iff definitions).mp stored
        simp only [RecordFilter.admits,Bool.and_eq_true,decide_eq_true_eq] at admits
        exact admits.2 (action_first requested asked (first other held asked) action)
      · simp [RecordFilter.admits,symbol,action]
    · refine .inl ⟨record,(stored_iff definitions).mpr ⟨row,inside,same,requested,?_⟩,rfl⟩
      simp [RecordFilter.admits,symbol,action]

def keep (found : Option DbRecord) (record : DbRecord) : Option DbRecord := if better found record then some record else found

theorem lookup_collect (records : List DbRecord) (kept : FunctionRecords) (identity : Identity) :
    (records.foldl (fun kept record => (collectFunctionRecord kept record).1) kept).lookup identity =
      (records.filter (fun record => recordIdentity record = identity)).foldl keep (kept.lookup identity) := by
  induction records generalizing kept with
  | nil => rfl
  | cons record records ih =>
    rw [List.foldl_cons,ih]
    by_cases same : recordIdentity record = identity
    · rw [List.filter_cons_of_pos (by simpa using same),List.foldl_cons]
      refine congrArg (List.foldl keep · _) ?_
      unfold collectFunctionRecord keep
      dsimp only
      rw [same]
      split
      · exact AList.lookup_insert kept
      · rfl
    · rw [List.filter_cons_of_neg (by simpa using same)]
      refine congrArg (List.foldl keep · _) ?_
      unfold collectFunctionRecord
      dsimp only
      split
      · exact AList.lookup_insert_ne (Ne.symm same)
      · rfl

theorem requests_unique {function other : DbFunction} (left : function.requests row = true) (right : other.requests row = true) :
    function = other := by
  obtain ⟨symbol,usrId,variant,_⟩ := DbFunction.requests_iff.mp left
  obtain ⟨symbol',usrId',variant',_⟩ := DbFunction.requests_iff.mp right
  cases function
  cases other
  simp_all

theorem requests_identity {chunk : List DbFunction} (member : row ∈ selectFunctions db chunk) (function : DbFunction) :
    recordIdentity (dbRecord row) = functionIdentity function ↔ function.requests row = true := by
  obtain ⟨_,other,_,requested⟩ := mem_selectFunctions.mp member
  obtain ⟨symbol,usrId,variant,_,kind⟩ := DbFunction.requests_iff.mp requested
  have own : recordIdentity (dbRecord row) = functionIdentity other := by
    unfold recordIdentity functionIdentity dbRecord
    dsimp only
    rw [variant,symbol,usrId,kind]
    rfl
  rw [own]
  constructor
  · intro same
    have alike : other = function := by
      cases other
      cases function
      simp_all [functionIdentity]
    rw [← alike]
    exact requested
  · intro asked
    rw [requests_unique asked requested]

theorem Nearest.keep_same {record : DbRecord} (nearest : Nearest db function (some record)) {rows : List RecordRow}
    (answers : ∀ other ∈ rows, other ∈ joinedRecords db ∧ function.requests other = true) :
    (rows.map dbRecord).foldl keep (some record) = some record := by
  induction rows with
  | nil => rfl
  | cons other rows ih =>
    obtain ⟨row,inside,requested,same,first⟩ := nearest
    obtain ⟨held,asked⟩ := answers other List.mem_cons_self
    have worse : better (some record) (dbRecord other) = false := by
      subst same
      unfold better
      by_cases action : row.key.action = 0
      · have none := action_first requested asked (first other held asked) action
        simp [dbRecord,none]
      · simp [dbRecord,action]
    rw [List.map_cons,List.foldl_cons,keep,worse]
    exact ih (fun next member => answers next (List.mem_cons_of_mem _ member))

/-- What is known of a function that was among the requests, or was not yet. -/
def Settled (db : Db) (function : DbFunction) (asked : Prop) (found : Option DbRecord) : Prop :=
  (¬ asked ∧ found = none) ∨ Nearest db function found

theorem Settled.chunk {asked : Prop} {kept : FunctionRecords} (chunk : List DbFunction)
    (settled : Settled db function asked (kept.lookup (functionIdentity function))) :
    Settled db function (asked ∨ function ∈ chunk)
      ((((selectFunctions db chunk).map dbRecord).foldl (fun kept record => (collectFunctionRecord kept record).1) kept).lookup
        (functionIdentity function)) := by
  have own : ((selectFunctions db chunk).map dbRecord).filter (fun record => recordIdentity record = functionIdentity function) =
      ((selectFunctions db chunk).filter function.requests).map dbRecord := by
    rw [List.filter_map]
    refine congrArg (List.map dbRecord) (List.filter_congr (fun row member => ?_))
    rw [Function.comp_apply,Bool.eq_iff_iff,decide_eq_true_eq]
    exact requests_identity member function
  have answers : ∀ other ∈ (selectFunctions db chunk).filter function.requests,
      other ∈ joinedRecords db ∧ function.requests other = true := by
    intro other member
    obtain ⟨listed,asked⟩ := List.mem_filter.mp member
    exact ⟨(mem_selectFunctions.mp listed).1,asked⟩
  rw [lookup_collect,own]
  cases known : kept.lookup (functionIdentity function) with
  | some record =>
    rw [known] at settled
    have nearest := settled.resolve_left (fun none => by cases none.2)
    rw [nearest.keep_same answers]
    exact .inr nearest
  | none =>
    rw [known] at settled
    by_cases requested : function ∈ chunk
    · have sorted := (selectFunctions_sorted db chunk).filter function.requests
      have every : ∀ other ∈ joinedRecords db, function.requests other = true →
          other ∈ (selectFunctions db chunk).filter function.requests := fun other stored asked =>
        List.mem_filter.mpr ⟨mem_selectFunctions.mpr ⟨stored,function,requested,asked⟩,asked⟩
      cases split : (selectFunctions db chunk).filter function.requests with
      | nil =>
        refine .inr (fun row stored => Bool.eq_false_iff.mpr (fun asked => ?_))
        have member := every row stored asked
        rw [split] at member
        cases member
      | cons row rows =>
        rw [split] at sorted answers every
        obtain ⟨stored,asked⟩ := answers row List.mem_cons_self
        have nearest : Nearest db function (some (dbRecord row)) := by
          refine ⟨row,stored,asked,rfl,fun other held same => ?_⟩
          rcases List.mem_cons.mp (every other held same) with here | later
          · rw [here]
          · exact (List.pairwise_cons.mp sorted).1 other later
        have rest := nearest.keep_same (fun other member => answers other (List.mem_cons_of_mem _ member))
        rw [List.map_cons,List.foldl_cons,keep,better,if_pos rfl,rest]
        exact .inr nearest
    · have none : (selectFunctions db chunk).filter function.requests = [] := by
        refine List.filter_eq_nil_iff.mpr (fun row member asked => ?_)
        obtain ⟨_,other,listed,same⟩ := mem_selectFunctions.mp member
        exact requested (requests_unique asked same ▸ listed)
      rw [none]
      rcases settled with ⟨new,_⟩ | nearest
      · exact .inl ⟨not_or.mpr ⟨new,requested⟩,rfl⟩
      · exact .inr nearest

theorem Settled.chunks {asked : Prop} {kept : FunctionRecords} (chunks : List (List DbFunction))
    (settled : Settled db function asked (kept.lookup (functionIdentity function))) :
    Settled db function (asked ∨ function ∈ chunks.flatten)
      ((((rowsOfChunks db chunks).map dbRecord).foldl (fun kept record => (collectFunctionRecord kept record).1) kept).lookup
        (functionIdentity function)) := by
  induction chunks generalizing asked kept with
  | nil => simpa [rowsOfChunks] using settled
  | cons chunk chunks ih =>
    have more := ih (settled.chunk chunk)
    rw [rowsOfChunks,List.flatMap_cons,List.map_append,List.foldl_append,List.flatten_cons,List.mem_append,← or_assoc]
    exact more

/-- Where the record of a function is, and whether it defines the function. -/
def place (record : DbRecord) : Nat × Text × Nat × Nat := (record.action,record.path,record.line,record.column)

theorem Nearest.same_place {first second : Option DbRecord} (left : Nearest db function first) (right : Nearest db function second) :
    first.map place = second.map place := by
  cases first with
  | none =>
    cases second with
    | none => rfl
    | some record =>
      obtain ⟨row,inside,requested,_⟩ := right
      rw [left row inside] at requested
      cases requested
  | some record =>
    obtain ⟨row,inside,requested,same,first⟩ := left
    cases second with
    | none =>
      rw [right row inside] at requested
      cases requested
    | some record' =>
      obtain ⟨row',inside',requested',same',first'⟩ := right
      have order := le_antisymm (first row' inside' requested') (first' row inside requested)
      simp only [functionOrder,EmbeddingLike.apply_eq_iff_eq,Prod.mk.injEq] at order
      obtain ⟨_,_,action,path,line,column⟩ := order
      subst same
      subst same'
      simp [place,dbRecord,action,path,line,column]

end Kept

section Loaded
variable (db : Db) (limit : Nat)

theorem load_functions (functions : List DbFunction) : loadFunctionRecords db limit (functions.map functionIdentity) =
    semindexDbQueryFunctions db limit functions collectFunctionRecord ∅ := by
  unfold loadFunctionRecords
  rw [List.map_map]
  have same : (functions.map ((fun identity : Identity => (⟨identity.variant,identity.symbol,identity.usrId⟩ : DbFunction)) ∘
      functionIdentity)) = functions := by
    conv_rhs => rw [← List.map_id functions]
    rfl
  rw [same]

theorem load_nearest {limit : Nat} {functions : List DbFunction} (accepted : Accepted limit functions) :
    ∃ records, loadFunctionRecords db limit (functions.map functionIdentity) = (records,0) ∧
      ∀ function ∈ functions, Nearest db function (records.lookup (functionIdentity function)) := by
  obtain ⟨chunks,whole,run⟩ := queryFunctions_chunks db accepted
  refine ⟨_,(load_functions db limit functions).trans (run collectFunctionRecord ∅ (fun _ _ => rfl)),fun function member => ?_⟩
  have start : Settled db function False ((∅ : FunctionRecords).lookup (functionIdentity function)) :=
    .inl ⟨not_false,AList.lookup_empty _⟩
  have settled := start.chunks chunks
  rw [whole] at settled
  exact settled.resolve_left (fun never => never.1 (.inr member))

theorem addCall_groups {identity : Identity} {record : DbRecord} {groups : List Group} {group : Group}
    (member : group ∈ addCall identity record groups) : group.identity = identity ∨ ∃ old ∈ groups, group.identity = old.identity := by
  induction groups with
  | nil => exact .inl (by rw [List.mem_singleton.mp member])
  | cons old groups ih =>
    unfold addCall at member
    split at member
    · rcases List.mem_cons.mp member with here | later
      · exact .inr ⟨old,List.mem_cons_self,by rw [here]⟩
      · exact .inr ⟨group,List.mem_cons_of_mem _ later,rfl⟩
    · split at member
      · rcases List.mem_cons.mp member with here | later
        · exact .inl (by rw [here])
        · exact .inr ⟨group,later,rfl⟩
      · rcases List.mem_cons.mp member with here | later
        · exact .inr ⟨old,List.mem_cons_self,by rw [here]⟩
        · rcases ih later with new | ⟨other,listed,same⟩
          · exact .inl new
          · exact .inr ⟨other,List.mem_cons_of_mem _ listed,same⟩

/-- The groups are those of functions. -/
theorem collectCall_kinds (direction : CallDirection) (records : List DbRecord) {groups : List Group}
    (before : ∀ group ∈ groups, group.identity.kind = SymbolKind.function.code) :
    ∀ group ∈ records.foldl (fun groups record => (collectCall direction groups record).1) groups,
      group.identity.kind = SymbolKind.function.code := by
  induction records generalizing groups with
  | nil => exact before
  | cons record records ih =>
    refine ih (fun group member => ?_)
    unfold collectCall at member
    dsimp only at member
    split at member
    · exact before group member
    · rcases addCall_groups member with new | ⟨old,listed,same⟩
      · rw [new]
        cases direction <;> rfl
      · rw [same]
        exact before old listed

def itemFunction (item : CallItem) : DbFunction := ⟨item.identity.variant,item.identity.symbol,item.identity.usrId⟩

theorem calls_nearest {requested : Identity} {direction : CallDirection} {items : List CallItem}
    (answered : calls db limit requested direction = some items) : ∀ item ∈ items,
      ∃ found, Nearest db (itemFunction item) found ∧ ∀ record, found = some record → item.location = record := by
  unfold calls at answered
  dsimp only at answered
  split at answered
  · cases answered
  rename_i queried
  split at answered
  · cases answered
  rename_i loaded
  cases answered
  intro item member
  obtain ⟨group,listed,same⟩ := List.mem_map.mp member
  have kinds : ∀ group ∈ (semindexDbQueryCalls db ⟨requested.symbol,some requested.variant,requested.usrId,direction⟩
      (collectCall direction) []).1, group.identity.kind = SymbolKind.function.code := by
    unfold semindexDbQueryCalls
    split
    · intro group member
      cases member
    · rw [emitRecords_steady (fun _ _ => rfl)]
      exact collectCall_kinds direction _ (fun group member => by cases member)
  generalize (semindexDbQueryCalls db ⟨requested.symbol,some requested.variant,requested.usrId,direction⟩
    (collectCall direction) []).1 = groups at loaded listed same kinds
  have identities : groups.map Group.identity =
      (groups.map (fun group => (⟨group.identity.variant,group.identity.symbol,group.identity.usrId⟩ : DbFunction))).map functionIdentity := by
    rw [List.map_map]
    refine List.map_congr_left (fun group inside => ?_)
    have kind := kinds group inside
    cases identity : group.identity
    rw [identity] at kind
    simp only [functionIdentity,Function.comp_apply,identity]
    rw [← kind]
  rw [identities] at loaded same
  by_cases accepted : Accepted limit (groups.map (fun group => (⟨group.identity.variant,group.identity.symbol,group.identity.usrId⟩ : DbFunction)))
  · obtain ⟨records,ran,nearest⟩ := load_nearest db accepted
    have found := nearest _ (List.mem_map_of_mem listed)
    rw [ran] at same
    have identity : functionIdentity ⟨group.identity.variant,group.identity.symbol,group.identity.usrId⟩ = group.identity := by
      have kind := kinds group listed
      cases known : group.identity
      rw [known] at kind
      simp only [functionIdentity]
      rw [← kind]
    rw [identity] at found
    refine ⟨records.lookup group.identity,?_,fun record known => ?_⟩
    · rw [← same]
      exact found
    · rw [← same]
      dsimp only
      rw [known]
      rfl
  · rw [load_functions,queryFunctions_refused accepted] at loaded
    exact absurd (by decide : (-1 : Int) < 0) loaded

/-- The batches give the records of the whole list, and each function is shown by its definition if one is stored, in the
same place for all sizes of the batches. -/
theorem hierarchy_shows_definitions (db : Db) (limit : Nat) (functions : List DbFunction) :
    (Accepted limit functions →
      (∃ rows whole, collected (semindexDbQueryFunctions db limit functions) = some rows ∧
        collected (fun callback => queryFunctionBatch db callback functions) = some whole ∧ rows.Perm whole) ∧
      ∃ records, loadFunctionRecords db limit (functions.map functionIdentity) = (records,0) ∧ ∀ function ∈ functions,
        Mapped db function (records.lookup (functionIdentity function)) ∧ ∀ other records',
          loadFunctionRecords db other (functions.map functionIdentity) = (records',0) →
            (records'.lookup (functionIdentity function)).map place = (records.lookup (functionIdentity function)).map place) ∧
    (¬ Accepted limit functions → collected (semindexDbQueryFunctions db limit functions) = none ∧
      loadFunctionRecords db limit (functions.map functionIdentity) = (∅,-1)) ∧
    ∀ requested direction items, calls db limit requested direction = some items → ∀ item ∈ items, ∀ definition,
      Stored db (itemFunction item) .definition definition → Stored db (itemFunction item) .definition item.location := by
  refine ⟨fun accepted => ⟨?_,?_⟩,fun refused => ⟨?_,?_⟩,?_⟩
  · obtain ⟨chunks,whole,run⟩ := queryFunctions_chunks db accepted
    refine ⟨(rowsOfChunks db chunks).map dbRecord,(selectFunctions db functions).map dbRecord,?_,?_,?_⟩
    · unfold collected
      rw [run collect [] (fun _ _ => rfl),collect_fold]
      rfl
    · simp [collected,queryFunctionBatch,emitRecords_collect]
    · rw [← whole]
      exact (rowsOfChunks_perm db chunks).map dbRecord
  · obtain ⟨records,ran,nearest⟩ := load_nearest db accepted
    refine ⟨records,ran,fun function member => ⟨(nearest function member).mapped,fun other records' loaded => ?_⟩⟩
    by_cases both : Accepted other functions
    · obtain ⟨again,ran',nearest'⟩ := load_nearest db both
      have same : again = records' := congrArg Prod.fst (ran'.symm.trans loaded)
      rw [← same]
      exact (nearest' function member).same_place (nearest function member)
    · rw [load_functions,queryFunctions_refused both] at loaded
      cases congrArg Prod.snd loaded
  · unfold collected
    rw [queryFunctions_refused refused]
    rfl
  · rw [load_functions,queryFunctions_refused refused]
  · intro requested direction items answered item member definition stored
    obtain ⟨found,nearest,location⟩ := calls_nearest db limit answered item member
    rcases nearest.mapped with ⟨record,defined,same⟩ | ⟨none,_⟩ | ⟨none,_⟩
    · rw [location record same]
      exact defined
    · exact absurd stored (none definition)
    · exact absurd stored (none definition).1

end Loaded
end Semindex.Lsp.CallHierarchy
