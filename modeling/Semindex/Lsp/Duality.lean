import Semindex.Lsp.CallHierarchy
import Semindex.Lsp.Lifecycle
import Semindex.Lsp.Overlay
import Semindex.Lsp.Uri
import Semindex.Support.Hex

/-! The call hierarchy as its client walks it: each item of an answer is the
parameter of the next request, and the incoming calls of a callee are the outgoing
calls of its callers. -/
namespace Semindex.Lsp.CallHierarchy
open Semindex.Relational Semindex.IndexDb Semindex.Database Semindex.Source Semindex.Hex

section Groups
variable {identity other : Identity} {record : DbRecord} {groups : List Group} {direction : CallDirection}

def Group.records (group : Group) : List DbRecord := group.first::group.more

def recordsOf (identity : Identity) (groups : List Group) : List DbRecord :=
  (groups.filter (fun group => group.identity = identity)).flatMap Group.records

def Ordered (groups : List Group) : Prop :=
  groups.Pairwise (fun a b => identityOrder a.identity < identityOrder b.identity)

theorem identityOrder_injective (same : identityOrder identity = identityOrder other) : identity = other := by
  cases identity
  cases other
  simp only [identityOrder,EmbeddingLike.apply_eq_iff_eq,Prod.mk.injEq] at same
  obtain ⟨rfl,rfl,rfl,ids⟩ := same
  rw [BitVec.eq_of_toNat_eq ids]

-- whatever is below all groups and the new identity stays below
theorem addCall_below {bound : IdentityOrder} (below : ∀ group ∈ groups, bound < identityOrder group.identity)
    (first : bound < identityOrder identity) :
    ∀ group ∈ addCall identity record groups, bound < identityOrder group.identity := by
  intro group member
  rcases addCall_groups member with new | ⟨old,listed,same⟩
  · rw [new]
    exact first
  · rw [same]
    exact below old listed

theorem addCall_ordered (ordered : Ordered groups) : Ordered (addCall identity record groups) := by
  induction groups with
  | nil => exact List.pairwise_singleton _ _
  | cons group groups ih =>
    obtain ⟨below,rest⟩ := List.pairwise_cons.mp ordered
    unfold addCall
    split
    · exact List.pairwise_cons.mpr ⟨below,rest⟩
    · rename_i apart
      split
      · rename_i less
        refine List.pairwise_cons.mpr ⟨fun next member => ?_,ordered⟩
        rcases List.mem_cons.mp member with rfl | later
        · exact less
        · exact less.trans (below next later)
      · rename_i more
        have above : identityOrder group.identity < identityOrder identity :=
          lt_of_le_of_ne (not_lt.mp more) (fun same => apart (identityOrder_injective same))
        exact List.pairwise_cons.mpr ⟨addCall_below below above,ih rest⟩

theorem recordsOf_cons (group : Group) (groups : List Group) : recordsOf identity (group::groups) =
    (if group.identity = identity then group.records else []) ++ recordsOf identity groups := by
  unfold recordsOf
  by_cases own : group.identity = identity <;> simp [own]

theorem recordsOf_addCall : (recordsOf other (addCall identity record groups)).Perm
    (recordsOf other groups ++ if identity = other then [record] else []) := by
  induction groups with
  | nil =>
    rw [addCall,recordsOf_cons]
    simp [recordsOf,Group.records]
  | cons group groups ih =>
    unfold addCall
    split
    · rename_i same
      rw [recordsOf_cons,recordsOf_cons,same]
      split
      · have last : Group.records ⟨identity,group.first,group.more ++ [record]⟩ = group.records ++ [record] := rfl
        rw [last,List.append_assoc,List.append_assoc]
        exact List.perm_append_comm.append_left group.records
      · rw [List.append_nil]
    · split
      · rw [recordsOf_cons]
        refine List.Perm.trans ?_ List.perm_append_comm
        exact List.Perm.refl _
      · rw [recordsOf_cons,recordsOf_cons,List.append_assoc]
        exact ih.append_left _

-- the groups that the records of a query lead to
def groupsOf (direction : CallDirection) (records : List DbRecord) : List Group :=
  records.foldl (fun groups record => (collectCall direction groups record).1) []

theorem collectCall_ordered (ordered : Ordered groups) : Ordered (collectCall direction groups record).1 := by
  unfold collectCall
  dsimp only
  split
  · exact ordered
  · exact addCall_ordered ordered

theorem collect_ordered (records : List DbRecord) (ordered : Ordered groups) :
    Ordered (records.foldl (fun groups record => (collectCall direction groups record).1) groups) := by
  induction records generalizing groups with
  | nil => exact ordered
  | cons record records ih => exact ih (collectCall_ordered ordered)

theorem recordsOf_collect (records : List DbRecord) (named : other.symbol ≠ [] ∧ other.usrId ≠ 0) :
    (recordsOf other (records.foldl (fun groups record => (collectCall direction groups record).1) groups)).Perm
      (recordsOf other groups ++ records.filter (fun record => callIdentity direction record = other)) := by
  induction records generalizing groups with
  | nil => simp
  | cons record records ih =>
    have once : (recordsOf other (collectCall direction groups record).1).Perm
        (recordsOf other groups ++ if callIdentity direction record = other then [record] else []) := by
      unfold collectCall
      dsimp only
      split
      · rename_i unnamed
        have apart : callIdentity direction record ≠ other := by
          intro same
          rw [same,Bool.or_eq_true,decide_eq_true_eq,decide_eq_true_eq] at unnamed
          exact unnamed.elim named.1 named.2
        rw [if_neg apart,List.append_nil]
      · exact recordsOf_addCall
    rw [List.foldl_cons]
    refine ih.trans ((once.append_right _).trans ?_)
    rw [List.append_assoc,List.filter_cons]
    by_cases same : callIdentity direction record = other <;> simp [same]

theorem collect_named (records : List DbRecord)
    (before : ∀ group ∈ groups, group.identity.symbol ≠ [] ∧ group.identity.usrId ≠ 0) :
    ∀ group ∈ records.foldl (fun groups record => (collectCall direction groups record).1) groups,
      group.identity.symbol ≠ [] ∧ group.identity.usrId ≠ 0 := by
  induction records generalizing groups with
  | nil => exact before
  | cons record records ih =>
    refine ih (fun group member => ?_)
    unfold collectCall at member
    dsimp only at member
    split at member
    · exact before group member
    · rename_i named
      simp only [Bool.or_eq_true,decide_eq_true_eq,not_or] at named
      rcases addCall_groups member with new | ⟨old,listed,same⟩
      · rw [new]
        exact named
      · rw [same]
        exact before old listed

/-- A group of ordered groups has all records of its identity. -/
theorem recordsOf_member (ordered : Ordered groups) {group : Group} (member : group ∈ groups) :
    recordsOf group.identity groups = group.records := by
  induction groups with
  | nil => cases member
  | cons first groups ih =>
    obtain ⟨below,rest⟩ := List.pairwise_cons.mp ordered
    rw [recordsOf_cons]
    rcases List.mem_cons.mp member with rfl | later
    · have alone : recordsOf group.identity groups = [] := by
        unfold recordsOf
        rw [List.filter_eq_nil_iff.mpr (fun other inside same => ?_),List.flatMap_nil]
        have less := below other inside
        rw [of_decide_eq_true same] at less
        exact lt_irrefl _ less
      rw [if_pos rfl,alone,List.append_nil]
    · have apart : first.identity ≠ group.identity := by
        intro same
        have less := below group later
        rw [same] at less
        exact lt_irrefl _ less
      rw [if_neg apart,List.nil_append]
      exact ih rest later

theorem group_of_record (member : record ∈ recordsOf identity groups) : ∃ group ∈ groups, group.identity = identity := by
  obtain ⟨group,listed,_⟩ := List.mem_flatMap.mp member
  obtain ⟨inside,same⟩ := List.mem_filter.mp listed
  exact ⟨group,inside,of_decide_eq_true same⟩

end Groups

section Edges
variable {db : Db} {limit : Nat} {caller callee : Identity} {direction : CallDirection}

/-- The stored calls of one function by another. -/
def isEdge (caller callee : Identity) (row : RecordRow) : Bool :=
  row.value.context = caller.symbol && row.value.contextUsrId = some caller.usrId && row.key.symbol = callee.symbol &&
    row.value.usrId = some callee.usrId && row.variant = caller.variant && row.variant = callee.variant &&
    row.key.record = 1 && row.key.action = 3 && row.key.kind = 7

/-- A function that an answer names. -/
structure Named (identity : Identity) : Prop where
  symbol : identity.symbol ≠ []
  usrId : identity.usrId ≠ 0
  kind : identity.kind = SymbolKind.function.code

-- the functions of a call, as seen from the end that is asked for
def edgeOf (direction : CallDirection) (requested other : Identity) (row : RecordRow) : Bool :=
  match direction with
  | .callees => isEdge requested other row
  | .callers => isEdge other requested row

def callOptions (requested : Identity) (direction : CallDirection) : CallOptions :=
  ⟨requested.symbol,some requested.variant,requested.usrId,direction⟩

theorem getD_named {id : Option Id} {known : Id} (named : known ≠ 0) : id.getD 0 = known ↔ id = some known := by
  cases id with
  | none =>
    rw [Option.getD_none]
    exact ⟨fun same => absurd same.symm named,fun same => by cases same⟩
  | some id => simp

theorem calledBy_iff {other : Identity} (named : Named other) (row : RecordRow) :
    callIdentity .callers (dbRecord row) = other ↔ row.variant = other.variant ∧ row.value.context = other.symbol ∧
      row.value.contextUsrId = some other.usrId := by
  rw [← getD_named named.usrId]
  have kind := named.kind
  cases other
  simp only [callIdentity,dbRecord,Identity.mk.injEq] at kind ⊢
  simp only [kind,and_true]

theorem called_iff {other : Identity} (named : Named other) (row : RecordRow) :
    callIdentity .callees (dbRecord row) = other ↔ row.variant = other.variant ∧ row.key.symbol = other.symbol ∧
      row.value.usrId = some other.usrId := by
  rw [← getD_named named.usrId]
  have kind := named.kind
  cases other
  simp only [callIdentity,dbRecord,Identity.mk.injEq] at kind ⊢
  simp only [kind,and_true]

theorem edge_iff {requested other : Identity} (named : Named other) (row : RecordRow) :
    ((callOptions requested direction).selects row && decide (callIdentity direction (dbRecord row) = other)) =
      edgeOf direction requested other row := by
  rw [Bool.eq_iff_iff,Bool.and_eq_true,decide_eq_true_eq]
  cases direction with
  | callees =>
    rw [called_iff named]
    dsimp only [callOptions,CallOptions.selects]
    simp only [edgeOf,isEdge,Bool.and_eq_true,decide_eq_true_eq,Option.all_some]
    tauto
  | callers =>
    rw [calledBy_iff named]
    dsimp only [callOptions,CallOptions.selects]
    simp only [edgeOf,isEdge,Bool.and_eq_true,decide_eq_true_eq,Option.all_some]
    tauto

/-- An answer has its items in the order of their identities, each with all stored calls of the two functions. -/
structure Answered (db : Db) (requested : Identity) (direction : CallDirection) (items : List CallItem) : Prop where
  ordered : items.Pairwise (fun a b => identityOrder a.identity < identityOrder b.identity)
  variant : ∀ item ∈ items, item.identity.variant = requested.variant
  named : ∀ item ∈ items, Named item.identity
  called : ∀ item ∈ items, item.ranges ≠ []
  ranges : ∀ item ∈ items, item.ranges.Perm (((joinedRecords db).filter (edgeOf direction requested item.identity)).map dbRecord)
  complete : ∀ other, Named other → ∀ row ∈ joinedRecords db, edgeOf direction requested other row = true →
    ∃ item ∈ items, item.identity = other

-- the groups of an answer
def callGroups (db : Db) (requested : Identity) (direction : CallDirection) : List Group :=
  groupsOf direction (((callOptions requested direction).select db).map dbRecord)

theorem callGroups_ordered (requested : Identity) : Ordered (callGroups db requested direction) :=
  collect_ordered _ List.Pairwise.nil

theorem callGroups_named {requested : Identity} {group : Group} (member : group ∈ callGroups db requested direction) :
    Named group.identity := by
  obtain ⟨symbol,usrId⟩ := collect_named _ (by simp) group member
  exact ⟨symbol,usrId,collectCall_kinds direction _ (by simp) group member⟩

theorem callGroups_records (requested : Identity) {other : Identity} (named : Named other) :
    (recordsOf other (callGroups db requested direction)).Perm
      (((joinedRecords db).filter (edgeOf direction requested other)).map dbRecord) := by
  refine (recordsOf_collect _ ⟨named.symbol,named.usrId⟩).trans ?_
  change ((((callOptions requested direction).select db).map dbRecord).filter _).Perm _
  rw [List.filter_map]
  apply List.Perm.map
  refine ((orderBy_perm _).filter _).trans ?_
  rw [List.filter_filter]
  refine List.Perm.of_eq (List.filter_congr (fun row _ => ?_))
  rw [← edge_iff named row,Bool.and_comm]
  rfl

theorem calls_groups {requested : Identity} {items : List CallItem}
    (answered : calls db limit requested direction = some items) : ∃ location : Group → DbRecord,
      items = (callGroups db requested direction).map (fun group => ⟨group.identity,location group,group.records⟩) := by
  unfold calls at answered
  dsimp only at answered
  split at answered
  · cases answered
  rename_i queried
  split at answered
  · cases answered
  cases answered
  have ran : (semindexDbQueryCalls db (callOptions requested direction) (collectCall direction) []).1 =
      callGroups db requested direction := by
    unfold semindexDbQueryCalls
    split
    · rename_i none
      refine absurd ?_ queried
      unfold semindexDbQueryCalls
      simp only [callOptions] at none
      simp [none]
    · rw [emitRecords_steady (fun _ _ => rfl),List.filter_eq_self.mpr (fun _ _ => by simp)]
      rfl
  unfold callOptions at ran
  rw [ran]
  exact ⟨_,rfl⟩

theorem edgeOf_variant {requested other : Identity} {row : RecordRow} (edge : edgeOf direction requested other row = true) :
    other.variant = requested.variant := by
  unfold edgeOf isEdge at edge
  cases direction <;> simp only [Bool.and_eq_true,decide_eq_true_eq] at edge
  · exact edge.1.1.1.1.2.symm.trans edge.1.1.1.2
  · exact edge.1.1.1.2.symm.trans edge.1.1.1.1.2

theorem answered_calls {requested : Identity} {items : List CallItem}
    (answered : calls db limit requested direction = some items) : Answered db requested direction items := by
  obtain ⟨location,rfl⟩ := calls_groups answered
  have grouped : ∀ item ∈ (callGroups db requested direction).map
      (fun group => (⟨group.identity,location group,group.records⟩ : CallItem)),
      ∃ group ∈ callGroups db requested direction, group.identity = item.identity ∧ group.records = item.ranges := by
    intro item member
    obtain ⟨group,listed,rfl⟩ := List.mem_map.mp member
    exact ⟨group,listed,rfl,rfl⟩
  have ranges : ∀ group ∈ callGroups db requested direction,
      group.records.Perm (((joinedRecords db).filter (edgeOf direction requested group.identity)).map dbRecord) := by
    intro group listed
    rw [← recordsOf_member (callGroups_ordered requested) listed]
    exact callGroups_records requested (callGroups_named listed)
  constructor
  · rw [List.pairwise_map]
    exact callGroups_ordered requested
  · intro item member
    obtain ⟨group,listed,same,_⟩ := grouped item member
    have first : group.first ∈ ((joinedRecords db).filter (edgeOf direction requested group.identity)).map dbRecord :=
      (ranges group listed).subset List.mem_cons_self
    obtain ⟨row,inside,_⟩ := List.mem_map.mp first
    rw [← same]
    exact edgeOf_variant (List.mem_filter.mp inside).2
  · intro item member
    obtain ⟨group,listed,same,_⟩ := grouped item member
    rw [← same]
    exact callGroups_named listed
  · intro item member none
    obtain ⟨group,_,_,records⟩ := grouped item member
    rw [none] at records
    cases records
  · intro item member
    obtain ⟨group,listed,same,records⟩ := grouped item member
    rw [← same,← records]
    exact ranges group listed
  · intro other named row stored edge
    have member : dbRecord row ∈ recordsOf other (callGroups db requested direction) :=
      (callGroups_records requested named).symm.subset (List.mem_map_of_mem (List.mem_filter.mpr ⟨stored,edge⟩))
    obtain ⟨group,listed,same⟩ := group_of_record member
    exact ⟨_,List.mem_map_of_mem listed,same⟩

end Edges

section Items
variable (sources : LspSourceMapper)

def formatId (id : Id) : Text := fixedHex 16 id.toNat

def numberJson (n : Nat) : Json := .number (toString n).toList

def rangeJson (range : LspRange) : Json :=
  .object [("start".toList,.object [("line".toList,numberJson range.line),("character".toList,numberJson range.start)]),
    ("end".toList,.object [("line".toList,numberJson range.line),("character".toList,numberJson range.stop)])]

-- `LspSourceMapper::displayPath`, and `uri` of it
def displayPath (record : DbRecord) : Text := sources.uri record.path

def recordUri (record : DbRecord) : Text := latin (uriFromPath (utf8 (displayPath sources record)))

def recordRange (record : DbRecord) : Json := rangeJson (range (sources.lines (displayPath sources record)) record)

def hierarchyItem (identity : Identity) (record : DbRecord) : Members :=
  [("name".toList,.string identity.symbol),("kind".toList,numberJson 12),
    ("detail".toList,.string (displayPath sources record)),("uri".toList,.string (recordUri sources record)),
    ("range".toList,recordRange sources record),("selectionRange".toList,recordRange sources record),
    ("data".toList,.object [("variant".toList,.string identity.variant),("symbol".toList,.string identity.symbol),
      ("id".toList,.string (formatId identity.usrId))])]

-- the parameters of a request about an item
def itemParams (item : Members) : Option Members := some [("item".toList,.object item)]

def requestedIdentity (function : FunctionIdentity) : Identity :=
  ⟨function.variant,function.symbol,BitVec.ofNat 64 function.usrId,SymbolKind.function.code⟩

theorem hexValue_formatId (id : Id) : hexValue (formatId id) = some id.toNat := hexValue_fixedHex id.isLt

/-- What the server hands out, it takes back. -/
theorem parseIdentity_item {identity : Identity} {record : DbRecord} {variant : Text} (named : Named identity)
    (present : identity.variant ≠ []) (served : variant = [] ∨ identity.variant = variant) :
    ∃ function, parseIdentity variant (itemParams (hierarchyItem sources identity record)) = some function ∧
      requestedIdentity function = identity := by
  refine ⟨⟨identity.variant,identity.symbol,identity.usrId.toNat⟩,?_,?_⟩
  · have data : Json.getObject (hierarchyItem sources identity record) "data" = some
        [("variant".toList,.string identity.variant),("symbol".toList,.string identity.symbol),
          ("id".toList,.string (formatId identity.usrId))] := rfl
    have item : Json.getObject [("item".toList,.object (hierarchyItem sources identity record))] "item" =
        some (hierarchyItem sources identity record) := rfl
    have length : (formatId identity.usrId).length = 16 := length_fixedHex 16 _
    have filled : formatId identity.usrId ≠ [] := by
      intro none
      rw [none] at length
      cases length
    unfold parseIdentity itemParams
    simp only [bind,Option.bind_some,item,data]
    have parsedVariant : Json.getString [("variant".toList,.string identity.variant),("symbol".toList,.string identity.symbol),
        ("id".toList,.string (formatId identity.usrId))] "variant" = some identity.variant := rfl
    have symbol : Json.getString [("variant".toList,.string identity.variant),("symbol".toList,.string identity.symbol),
        ("id".toList,.string (formatId identity.usrId))] "symbol" = some identity.symbol := rfl
    have id : Json.getString [("variant".toList,.string identity.variant),("symbol".toList,.string identity.symbol),
        ("id".toList,.string (formatId identity.usrId))] "id" = some (formatId identity.usrId) := rfl
    simp only [parsedVariant,symbol,id,Option.bind_some]
    rw [if_neg ?_,hexValue_formatId]
    · rfl
    · have fitting : ¬ (variant ≠ [] ∧ identity.variant ≠ variant) := fun both => served.elim both.1 both.2
      simp only [present,named.symbol,filled,length,fitting]
      decide
  · unfold requestedIdentity
    dsimp only
    rw [BitVec.ofNat_toNat,BitVec.setWidth_eq,← named.kind]

end Items

section Prepare
variable {variant : Text} {records : List DbRecord} {record known : DbRecord}

theorem collectRecord_mem (member : known ∈ (Source.collectRecord records record).1) : known ∈ records ∨ known = record := by
  unfold Source.collectRecord at member
  dsimp only at member
  split at member
  · exact .inl member
  · exact (List.mem_append.mp member).imp id List.mem_singleton.mp

theorem emitRecords_rows {column : Nat} (rows : List RecordRow)
    (member : known ∈ (emitRecords Source.collectRecord column rows records).1) :
    known ∈ records ∨ ∃ row ∈ rows, dbRecord row = known := by
  rw [emitRecords_steady (fun _ _ => rfl)] at member
  have folded : ∀ (shown records : List DbRecord),
      known ∈ shown.foldl (fun records record => (Source.collectRecord records record).1) records →
        known ∈ records ∨ known ∈ shown := by
    intro shown
    induction shown with
    | nil => exact fun _ inside => .inl inside
    | cons record shown ih =>
      intro records inside
      rcases ih _ inside with before | later
      · rcases collectRecord_mem before with old | new
        · exact .inl old
        · exact .inr (new ▸ List.mem_cons_self)
      · exact .inr (List.mem_cons_of_mem _ later)
  rcases folded _ _ member with old | shown
  · exact .inl old
  · obtain ⟨row,listed,same⟩ := List.mem_map.mp (List.mem_filter.mp shown).1
    exact .inr ⟨row,listed,same⟩

variable {server : LspServer} {query : PositionQuery} {db : Db}

theorem lookAt_variant {paths : List Text} {before : List DbRecord} (served : query.variant ≠ [])
    (fits : ∀ known ∈ before, known.variant = query.variant) (found : Source.lookAt db query paths before = some records) :
    ∀ known ∈ records, known.variant = query.variant := by
  induction paths generalizing before with
  | nil =>
    cases found
    exact fits
  | cons path paths ih =>
    have looked : ∀ known ∈ (semindexDbFindAt db path (some query.variant) query.line query.column
        Source.collectRecord before).1, known.variant = query.variant := by
      intro known member
      unfold semindexDbFindAt at member
      split at member
      · exact fits known member
      · rcases emitRecords_rows _ member with old | ⟨row,selected,same⟩
        · exact fits known old
        · have asked := (List.mem_filter.mp (mem_orderBy.mp selected)).2
          simp only [Bool.and_eq_true,Option.all_some,decide_eq_true_eq] at asked
          rw [← same]
          exact asked.1.1.2
    unfold Source.lookAt at found
    dsimp only at found
    rw [if_neg served] at found
    split at found
    · cases found
    · split at found
      · cases found
        exact looked
      · exact ih looked found

-- the call hierarchy asks without an overlay
def storedAt (server : LspServer) (position : TextPosition) : Option (List DbRecord) :=
  match server.sources.byteColumn position,position.filePath with
  | some column,some path => Source.recordsAt server.database server.sources.resolver server.sources.cwd
    ⟨path,server.variant,position.line + 1,column⟩
  | _,_ => some []

theorem storedAt_variant {position : TextPosition} (served : server.variant ≠ [])
    (found : storedAt server position = some records) : ∀ known ∈ records, known.variant = server.variant := by
  unfold storedAt at found
  split at found
  · unfold Source.recordsAt at found
    split at found
    · cases found
    · exact lookAt_variant served (by simp) found
  · cases found
    simp

-- `std::set::insert`
def insertIdentity (identity : Identity) : List Identity → List Identity
  | [] => [identity]
  | first::rest =>
    if first = identity then first::rest
    else if identityOrder identity < identityOrder first then identity::first::rest
    else first::insertIdentity identity rest

def functionIdentities (records : List DbRecord) : List Identity :=
  records.foldl (fun identities record =>
    if record.kind = SymbolKind.function.code && record.usrId ≠ 0 then insertIdentity (recordIdentity record) identities
    else identities) []

/-- The items at a position, each with the record that it is shown with; `none` is a database error. -/
def prepare (server : LspServer) (limit : Nat) (position : TextPosition) : Option (List (Identity × DbRecord)) :=
  match storedAt server position with
  | none => none
  | some records =>
    let identities := functionIdentities records
    if identities = [] then some []
    else
      let (functions,ret) := loadFunctionRecords server.database limit identities
      if ret < 0 then none
      else some (identities.filterMap (fun identity => (functions.lookup identity).map (fun record => (identity,record))))

theorem mem_insertIdentity {identity other : Identity} {identities : List Identity}
    (member : other ∈ insertIdentity identity identities) : other = identity ∨ other ∈ identities := by
  induction identities with
  | nil => exact .inl (List.mem_singleton.mp member)
  | cons first rest ih =>
    unfold insertIdentity at member
    split_ifs at member
    · exact .inr member
    · exact List.mem_cons.mp member
    · rcases List.mem_cons.mp member with here | later
      · exact .inr (here ▸ List.mem_cons_self)
      · exact (ih later).imp id (List.mem_cons_of_mem _)

theorem functionIdentities_origin {records : List DbRecord} {identity : Identity}
    (member : identity ∈ functionIdentities records) : ∃ record ∈ records, recordIdentity record = identity ∧
      record.kind = SymbolKind.function.code ∧ record.usrId ≠ 0 := by
  have folded : ∀ (rest : List DbRecord) (identities : List Identity), identity ∈ rest.foldl (fun identities record =>
      if record.kind = SymbolKind.function.code && record.usrId ≠ 0 then insertIdentity (recordIdentity record) identities
      else identities) identities → identity ∈ identities ∨ ∃ record ∈ rest, recordIdentity record = identity ∧
        record.kind = SymbolKind.function.code ∧ record.usrId ≠ 0 := by
    intro rest
    induction rest with
    | nil => exact fun _ inside => .inl inside
    | cons record rest ih =>
      intro identities inside
      rcases ih _ inside with before | ⟨other,later,facts⟩
      · dsimp only at before
        split at before
        · rename_i function
          simp only [Bool.and_eq_true,decide_eq_true_eq] at function
          rcases mem_insertIdentity before with new | old
          · exact .inr ⟨record,List.mem_cons_self,new.symm,function⟩
          · exact .inl old
        · exact .inl before
      · exact .inr ⟨other,List.mem_cons_of_mem _ later,facts⟩
  exact (folded records [] member).resolve_left List.not_mem_nil

/-- A function that the server takes as a parameter. -/
structure Taken (server : LspServer) (identity : Identity) : Prop where
  named : Named identity
  present : identity.variant ≠ []
  served : server.variant = [] ∨ identity.variant = server.variant

theorem prepare_taken {limit : Nat} {position : TextPosition} {items : List (Identity × DbRecord)}
    (prepared : prepare server limit position = some items) : ∀ item ∈ items, Taken server item.1 := by
  unfold prepare at prepared
  split at prepared
  · cases prepared
  · rename_i records found
    dsimp only at prepared
    split at prepared
    · cases prepared
      simp
    · rename_i some_function
      split at prepared
      · cases prepared
      · rename_i loaded
        cases prepared
        intro item member
        obtain ⟨identity,listed,shown⟩ := List.mem_filterMap.mp member
        obtain ⟨record,_,rfl⟩ := Option.map_eq_some_iff.mp shown
        obtain ⟨origin,at_position,rfl,kind,usrId⟩ := functionIdentities_origin listed
        have accepted : Accepted limit ((functionIdentities records).map
            (fun identity => (⟨identity.variant,identity.symbol,identity.usrId⟩ : DbFunction))) := by
          by_contra refused
          unfold loadFunctionRecords at loaded
          rw [queryFunctions_refused refused] at loaded
          exact loaded (by decide)
        rcases accepted with none | ⟨named,_⟩
        · exact absurd (List.map_eq_nil_iff.mp none) some_function
        · obtain ⟨present,symbol⟩ := named _ (List.mem_map_of_mem listed)
          refine ⟨⟨symbol,usrId,kind⟩,present,or_iff_not_imp_left.mpr (fun served => ?_)⟩
          exact storedAt_variant served found origin at_position

end Prepare

section Walk

-- back the way of an answer
def opposite : CallDirection → CallDirection
  | .callers => .callees
  | .callees => .callers

theorem edgeOf_opposite (direction : CallDirection) (requested other : Identity) :
    edgeOf (opposite direction) other requested = edgeOf direction requested other := by
  cases direction <;> rfl

variable {server : LspServer} {limit : Nat} {identity : Identity} {record : DbRecord} {direction : CallDirection}
  {items : List CallItem}

-- the request that a client makes of an item
def follow (server : LspServer) (identity : Identity) (record : DbRecord) : Option FunctionIdentity :=
  parseIdentity server.variant (itemParams (hierarchyItem server.sources identity record))

/-- The items that a client gets, from a position and from item to item. -/
inductive HandedOut (server : LspServer) (limit : Nat) : Identity → DbRecord → Prop where
  | prepared (position : TextPosition) (items : List (Identity × DbRecord)) (item : Identity × DbRecord)
      (answer : prepare server limit position = some items) (member : item ∈ items) : HandedOut server limit item.1 item.2
  | called (identity : Identity) (record : DbRecord) (function : FunctionIdentity) (direction : CallDirection)
      (items : List CallItem) (item : CallItem) (earlier : HandedOut server limit identity record)
      (asked : follow server identity record = some function)
      (answer : calls server.database limit (requestedIdentity function) direction = some items) (member : item ∈ items) :
      HandedOut server limit item.identity item.location

theorem Taken.follow (taken : Taken server identity) (record : DbRecord) :
    ∃ function, follow server identity record = some function ∧ requestedIdentity function = identity :=
  parseIdentity_item server.sources taken.named taken.present taken.served

theorem Taken.next (taken : Taken server identity) (answered : calls server.database limit identity direction = some items)
    {item : CallItem} (member : item ∈ items) : Taken server item.identity := by
  have there := answered_calls answered
  have variants := there.variant item member
  refine ⟨there.named item member,?_,?_⟩
  · rw [variants]
    exact taken.present
  · rw [variants]
    exact taken.served

theorem HandedOut.taken (handed : HandedOut server limit identity record) : Taken server identity := by
  induction handed with
  | prepared position items item answer member => exact prepare_taken answer item member
  | called identity record function direction items item _ asked answer member ih =>
    obtain ⟨known,followed,same⟩ := ih.follow record
    obtain rfl := Option.some.inj (asked.symm.trans followed)
    rw [same] at answer
    exact ih.next answer member

-- the way there and back
theorem calls_opposite (named : Named identity) (answered : calls server.database limit identity direction = some items)
    {item : CallItem} (member : item ∈ items) {backs : List CallItem}
    (returned : calls server.database limit item.identity (opposite direction) = some backs) :
    ∃ back ∈ backs, back.identity = identity ∧ back.ranges.Perm item.ranges ∧
      ∀ again ∈ backs, again.identity = identity → again = back := by
  have there := answered_calls answered
  have back := answered_calls returned
  have ranges := there.ranges item member
  obtain ⟨row,stored,edge⟩ : ∃ row ∈ joinedRecords server.database, edgeOf direction identity item.identity row = true := by
    obtain ⟨record,first⟩ := List.exists_mem_of_ne_nil _ (there.called item member)
    obtain ⟨row,inside,_⟩ := List.mem_map.mp (ranges.subset first)
    exact ⟨row,(List.mem_filter.mp inside).1,(List.mem_filter.mp inside).2⟩
  obtain ⟨found,listed,same⟩ := back.complete identity named row stored (by rw [edgeOf_opposite]; exact edge)
  refine ⟨found,listed,same,?_,fun again twice repeated => ?_⟩
  · have returns := back.ranges found listed
    rw [same,edgeOf_opposite] at returns
    exact returns.trans ranges.symm
  · have apart : (backs.map (fun item => identityOrder item.identity)).Nodup :=
      List.pairwise_map.mpr (back.ordered.imp ne_of_lt)
    exact List.inj_on_of_nodup_map apart twice listed (by rw [repeated,same])

/-- However a client walks, each item it gets is taken back as the function that it names, and each call that is
followed leads back: the answer the other way has the function it came from, once and with the same calls. -/
theorem call_hierarchy_walk (handed : HandedOut server limit identity record) :
    (∃ function, follow server identity record = some function ∧ requestedIdentity function = identity) ∧
    ∀ direction items, calls server.database limit identity direction = some items → ∀ item ∈ items,
      HandedOut server limit item.identity item.location ∧
      ∀ backs, calls server.database limit item.identity (opposite direction) = some backs →
        ∃ back ∈ backs, back.identity = identity ∧ back.ranges.Perm item.ranges ∧
          ∀ again ∈ backs, again.identity = identity → again = back := by
  obtain ⟨function,followed,same⟩ := handed.taken.follow record
  refine ⟨⟨function,followed,same⟩,fun direction items answered item member => ⟨?_,fun backs returned => ?_⟩⟩
  · exact .called identity record function direction items item handed followed (by rw [same]; exact answered) member
  · exact calls_opposite handed.taken.named answered member returned

-- the definition of `f`, and its call of `g`
def definedRow : RecordRow where
  variant := "v".toList
  path := "/p/a.c".toList
  key := ⟨"f".toList,0,1,SymbolKind.function.code,0,1,1⟩
  value := ⟨[],some 1,none,false⟩

def calledRow : RecordRow where
  variant := "v".toList
  path := "/p/a.c".toList
  key := ⟨"g".toList,1,3,SymbolKind.function.code,0,2,1⟩
  value := ⟨"f".toList,some 2,some 1,false⟩

def walkedServer : LspServer where
  database := Db.holdingBoth definedRow calledRow
  overlay := ⟨∅⟩
  sources := ⟨⟨⟨true,["p".toList]⟩⟩,"/p".toList,fun _ => ["f".toList.map (fun _ => 102)]⟩
  variant := "v".toList

def calledIdentity : Identity := ⟨"v".toList,"g".toList,2,SymbolKind.function.code⟩

theorem call_hierarchy_walk_sample : ∃ item back : CallItem, item.identity = calledIdentity ∧
    back.identity = recordIdentity (dbRecord definedRow) ∧ back.ranges.Perm item.ranges := by
  have prepared : prepare walkedServer 999 ⟨some "/p/a.c".toList,0,0⟩ =
      some [(recordIdentity (dbRecord definedRow),dbRecord definedRow)] := by decide +kernel
  have called : (calls walkedServer.database 999 (recordIdentity (dbRecord definedRow)) .callees).map
      (List.map CallItem.identity) = some [calledIdentity] := by decide +kernel
  have calling : (calls walkedServer.database 999 calledIdentity .callers).isSome := by decide +kernel
  obtain ⟨outgoing,answered,identities⟩ := Option.map_eq_some_iff.mp called
  obtain ⟨item,rfl,identity⟩ := List.map_eq_singleton_iff.mp identities
  obtain ⟨backs,returned⟩ := Option.isSome_iff_exists.mp calling
  have handed := HandedOut.prepared _ _ _ prepared (List.mem_singleton.mpr rfl)
  rw [← identity] at returned
  obtain ⟨_,walk⟩ := call_hierarchy_walk handed
  obtain ⟨_,there⟩ := walk .callees [item] answered item (List.mem_singleton.mpr rfl)
  obtain ⟨back,_,same,ranges,_⟩ := there backs returned
  exact ⟨item,back,identity,same,ranges⟩

end Walk
end Semindex.Lsp.CallHierarchy
