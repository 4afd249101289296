import Semindex.Database.Pagination
import Semindex.Mcp.Recursive
import Semindex.Support.Utf8

/-! The pages of `find_callers` and `find_callees` at depth one. A page is found
again by its cursor, the encoded key of the last record before it. What the JSON
library prints for a key is a parameter. -/
namespace Semindex.Mcp
open Semindex.Relational Semindex.IndexDb Semindex.Database

section Cursors

def hexDigits : Text := "0123456789abcdef".toList

def encodeHex (input : List UInt8) : Text :=
  input.flatMap (fun value => [hexDigits[value.toNat / 16]?.getD '0',hexDigits[value.toNat % 16]?.getD '0'])

variable (serialize : Cursor → List UInt8)

def recordCursor (record : DbRecord) : Text := encodeHex (serialize (cursorOf record))

structure CallPage where
  records : List DbRecord
  truncated : Bool
  nextCursor : Option Text

def recordsResult (records : List DbRecord) (limit : Nat) : CallPage where
  records := records.take limit
  truncated := limit < records.length
  nextCursor := if limit < records.length then (records.take limit).getLast?.map (recordCursor serialize) else none

structure CallCollector where
  records : List DbRecord
  afterSeen : Bool

def collectCallRecord (limit : Nat) (after : Text) : Callback CallCollector DbRecord := fun collector record =>
  if !collector.afterSeen then ({ collector with afterSeen := recordCursor serialize record = after },0)
  else
    let records := collector.records ++ [record]
    ({ collector with records := records },if limit < records.length then 1 else 0)

end Cursors

-- the member `cursor` of the arguments
inductive CursorArgument where
  | missing | text (value : Text) | other
  deriving DecidableEq

inductive CallAnswer where
  | invalidParams (message : String)
  | databaseError
  | page (page : CallPage)
  | graph (result : Option (McpToolStatus × Traversal))

section Calls
variable (serialize : Cursor → List UInt8) (db : Db) (direction : CallDirection)

def directRecords (identity : Identity) (limit : Nat) (cursor : Text) : CallAnswer :=
  let (collector,ret) := semindexDbQueryCalls db (graphQuery direction identity)
    (collectCallRecord serialize limit cursor) ⟨[],cursor = []⟩
  if ret < 0 then .databaseError
  else if !collector.afterSeen then .invalidParams "Cursor does not match this query"
  else .page (recordsResult serialize collector.records limit)

def findCalls (arguments : CallArguments) (cursor : CursorArgument) (configured : Text) : CallAnswer :=
  match graphRequest { arguments with cursor := false } configured with
  | none => .invalidParams "Invalid function identity"
  | some request =>
    if 1 < request.depth then
      if cursor ≠ .missing then .invalidParams "Recursive call queries do not accept a cursor"
      else .graph (callRecords db direction request)
    else match cursor with
      | .missing => directRecords serialize db direction request.root request.limit []
      | .text value => directRecords serialize db direction request.root request.limit value
      | .other => .invalidParams "Invalid cursor"

end Calls

section Encoding

theorem encodeHex_injective {a b : List UInt8} (same : encodeHex a = encodeHex b) : a = b := by
  have digit : ∀ m < 16, ∀ n < 16, hexDigits[m]?.getD '0' = hexDigits[n]?.getD '0' → m = n := by decide
  induction a generalizing b with
  | nil =>
    cases b with
    | nil => rfl
    | cons y b => simp [encodeHex] at same
  | cons x a ih =>
    cases b with
    | nil => simp [encodeHex] at same
    | cons y b =>
      obtain ⟨high,same⟩ := List.cons.inj same
      obtain ⟨low,rest⟩ := List.cons.inj same
      have small (v : UInt8) : v.toNat / 16 < 16 := by
        have := v.toNat_lt
        omega
      have upper := digit _ (small x) _ (small y) high
      have lower := digit _ (Nat.mod_lt _ (by decide)) _ (Nat.mod_lt _ (by decide)) low
      have value : x = y := UInt8.toNat_inj.mp (by omega)
      rw [value,ih rest]

theorem encodeHex_nil {input : List UInt8} : encodeHex input = [] ↔ input = [] := by
  cases input <;> simp [encodeHex]

end Encoding

section Collector
variable {serialize : Cursor → List UInt8} {limit : Nat} {after : Text}

theorem emitRecords_seen (rows : List RecordRow) (records : List DbRecord) (room : records.length ≤ limit) :
    (emitRecords (collectCallRecord serialize limit after) 0 rows ⟨records,true⟩).1 =
        ⟨records ++ (rows.map dbRecord).take (limit + 1 - records.length),true⟩ ∧
      0 ≤ (emitRecords (collectCallRecord serialize limit after) 0 rows ⟨records,true⟩).2 := by
  induction rows generalizing records with
  | nil => simp [emitRecords]
  | cons row rows ih =>
    have left : limit + 1 - records.length = (limit - records.length) + 1 := by omega
    simp only [emitRecords,collectCallRecord,ne_eq,not_true_eq_false,decide_false,Bool.false_and,
      Bool.false_eq_true,if_false,List.map_cons,Bool.not_true]
    by_cases full : limit < records.length + 1
    · have last : limit - records.length = 0 := by omega
      simp [full,left,last]
    · have more := ih (records ++ [dbRecord row]) (by rw [List.length_append,List.length_singleton]; omega)
      have rest : limit + 1 - (records ++ [dbRecord row]).length = limit - records.length := by simp
      rw [rest,List.append_assoc] at more
      simpa [full,left] using more

theorem emitRecords_searching (rows : List RecordRow) :
    if after ∈ (rows.map dbRecord).map (recordCursor serialize) then
      (emitRecords (collectCallRecord serialize limit after) 0 rows ⟨[],false⟩).1 =
          ⟨(behind (recordCursor serialize) after (rows.map dbRecord)).take (limit + 1),true⟩ ∧
        0 ≤ (emitRecords (collectCallRecord serialize limit after) 0 rows ⟨[],false⟩).2
    else emitRecords (collectCallRecord serialize limit after) 0 rows ⟨[],false⟩ = (⟨[],false⟩,0) := by
  induction rows with
  | nil => simp [emitRecords]
  | cons row rows ih =>
    have turn : emitRecords (collectCallRecord serialize limit after) 0 (row::rows) ⟨[],false⟩ =
        emitRecords (collectCallRecord serialize limit after) 0 rows
          ⟨[],decide (recordCursor serialize (dbRecord row) = after)⟩ := by
      simp [emitRecords,collectCallRecord]
    rw [turn,List.map_cons,List.map_cons]
    by_cases here : recordCursor serialize (dbRecord row) = after
    · have found : after ∈ recordCursor serialize (dbRecord row)::(rows.map dbRecord).map (recordCursor serialize) := by
        rw [here]
        exact List.mem_cons_self
      have rest : behind (recordCursor serialize) after (dbRecord row::rows.map dbRecord) = rows.map dbRecord := by
        rw [behind,List.dropWhile_cons_of_neg (by simp [here]),List.tail_cons]
      have seen := @emitRecords_seen serialize limit after rows [] (Nat.zero_le _)
      rw [if_pos found,rest,decide_eq_true here]
      simpa using seen
    · have rest : behind (recordCursor serialize) after (dbRecord row::rows.map dbRecord) =
          behind (recordCursor serialize) after (rows.map dbRecord) := by
        rw [behind,List.dropWhile_cons_of_pos (by simpa using here)]
        rfl
      rw [rest,decide_eq_false here]
      simp only [List.mem_cons,Ne.symm here,false_or]
      exact ih

end Collector

section Pages
variable (serialize : Cursor → List UInt8) (db : Db) (direction : CallDirection)

/-- What `semindex_db_query_calls` gives for a function. -/
def allCalls (identity : Identity) : List DbRecord :=
  (semindexDbQueryCalls db (graphQuery direction identity) collect []).1

variable {serialize db direction} {identity : Identity}

theorem allCalls_eq (named : identity.symbol ≠ []) :
    allCalls db direction identity = ((graphQuery direction identity).select db).map dbRecord := by
  have known : (graphQuery direction identity).function ≠ [] := named
  rw [allCalls,semindexDbQueryCalls,if_neg known,emitRecords_collect]
  simp

/-- The page behind a cursor; only a cursor of the records leads to one. -/
theorem directRecords_eq (named : identity.symbol ≠ []) (limit : Nat) (cursor : Text) :
    directRecords serialize db direction identity limit cursor =
      if cursor = [] then .page (recordsResult serialize ((allCalls db direction identity).take (limit + 1)) limit)
      else if cursor ∈ (allCalls db direction identity).map (recordCursor serialize) then
        .page (recordsResult serialize ((behind (recordCursor serialize) cursor (allCalls db direction identity)).take
          (limit + 1)) limit)
      else .invalidParams "Cursor does not match this query" := by
  have known : (graphQuery direction identity).function ≠ [] := named
  rw [directRecords,semindexDbQueryCalls,if_neg known,allCalls_eq named]
  by_cases empty : cursor = []
  · rw [if_pos empty]
    obtain ⟨records,done⟩ := @emitRecords_seen serialize limit cursor ((graphQuery direction identity).select db) []
      (Nat.zero_le _)
    rw [decide_eq_true empty]
    generalize emitRecords _ 0 _ _ = result at records done
    obtain ⟨collector,ret⟩ := result
    dsimp only at records done ⊢
    rw [if_neg (by omega),records]
    simp
  · rw [if_neg empty]
    have searched := @emitRecords_searching serialize limit cursor ((graphQuery direction identity).select db)
    rw [decide_eq_false empty]
    by_cases found : cursor ∈ (((graphQuery direction identity).select db).map dbRecord).map (recordCursor serialize)
    · rw [if_pos found] at searched ⊢
      obtain ⟨records,done⟩ := searched
      generalize emitRecords _ 0 _ _ = result at records done
      obtain ⟨collector,ret⟩ := result
      dsimp only at records done ⊢
      rw [if_neg (by omega),records]
      simp
    · rw [if_neg found] at searched ⊢
      rw [searched]
      simp

theorem recordsResult_page (rest : List DbRecord) (limit : Nat) :
    ((recordsResult serialize (rest.take (limit + 1)) limit).records,
      (recordsResult serialize (rest.take (limit + 1)) limit).nextCursor) = pageOf (recordCursor serialize) rest limit := by
  have length : limit < min (limit + 1) rest.length ↔ limit < rest.length := by omega
  simp [recordsResult,pageOf,List.take_take,length]

/-- No two records of a query have the same cursor. -/
theorem allCalls_distinct (named : identity.symbol ≠ [])
    (printed : ∀ a ∈ allCalls db direction identity, ∀ b ∈ allCalls db direction identity,
      serialize (cursorOf a) = serialize (cursorOf b) → cursorOf a = cursorOf b) :
    Distinct (recordCursor serialize) (allCalls db direction identity) := by
  have places : Distinct (fun record : DbRecord => (cursorOf record).place) (allCalls db direction identity) := by
    rw [allCalls_eq named,Distinct,List.pairwise_map]
    have apart : Distinct recordOrder ((graphQuery direction identity).select db) :=
      ((orderBy_perm _).pairwise_iff Ne.symm).mpr (recordOrder_rows.filter _)
    refine List.Pairwise.imp_of_mem ?_ apart
    intro a b left right apart same
    have use (row : RecordRow) (member : row ∈ (graphQuery direction identity).select db) : row.key.record = 1 := by
      have selected := (List.mem_filter.mp (mem_orderBy.mp member)).2
      simp only [CallOptions.selects,Bool.and_eq_true,decide_eq_true_eq] at selected
      exact selected.1.1.2
    rw [place_cursorOf (.inr (use a left)),place_cursorOf (.inr (use b right))] at same
    exact apart same
  refine List.Pairwise.imp_of_mem ?_ places
  intro a b left right apart same
  exact apart (congrArg Cursor.place (printed a left b right (encodeHex_injective same)))

end Pages

section Requests

/-- Arguments that name a function, at depth one. -/
structure Direct (arguments : CallArguments) (configured : Text) (identity : Identity) : Prop where
  symbol : arguments.symbol = some identity.symbol
  usrId : arguments.usrId.bind parseId = some identity.usrId
  variant : selectedVariant arguments.variant configured = some identity.variant
  kind : identity.kind = SymbolKind.function.code
  named : identity.Named
  bounds : ∃ nodeLimit, parseGraphBounds arguments.depth arguments.nodeLimit = some (1,nodeLimit)

variable {arguments : CallArguments} {configured : Text} {identity : Identity} {n : Nat}

theorem graphRequest_direct (direct : Direct arguments configured identity) (limited : 1 ≤ n ∧ n ≤ MAX_LIMIT) :
    ∃ request, graphRequest { arguments with limit := .integer n, cursor := false } configured = some request ∧
      request.root = identity ∧ request.limit = n ∧ request.depth = 1 := by
  obtain ⟨nodeLimit,bounds⟩ := direct.bounds
  have parsed : parseLimit (.integer n) = some n := by
    have inside : ¬ ((n : Int) < 1 ∨ (MAX_LIMIT : Int) < n) := by omega
    rw [parseLimit,Argument.parse,if_neg inside]
    rfl
  have same : Identity.mk identity.variant identity.symbol identity.usrId SymbolKind.function.code = identity := by
    rw [← direct.kind]
  unfold graphRequest
  dsimp only
  rw [direct.symbol,direct.usrId,direct.variant]
  dsimp only
  split
  · rename_i limit depth nodes limitSame boundsSame
    rw [parsed] at limitSame
    rw [bounds] at boundsSame
    cases limitSame
    cases boundsSame
    rw [if_neg (by simp),dif_pos (same ▸ direct.named)]
    exact ⟨_,rfl,same,rfl,rfl⟩
  · rename_i other
    exact (other _ _ _ parsed bounds).elim

end Requests

section Paging
variable (serialize : Cursor → List UInt8) (db : Db) (direction : CallDirection) (arguments : CallArguments)
  (configured : Text) (identity : Identity)

def ask (cursor : CursorArgument) (limit : Nat) : CallAnswer :=
  findCalls serialize db direction { arguments with limit := .integer limit } cursor configured

def CallAnswer.shown : CallAnswer → Option (List DbRecord × Option Text)
  | .page result => some (result.records,result.nextCursor)
  | _ => none

def CallAnswer.IsError (answer : CallAnswer) : Prop := ∃ message, answer = .invalidParams message

def nextPage (cursor : Option Text) (limit : Nat) : Option (List DbRecord × Option Text) :=
  (ask serialize db direction arguments configured (cursor.elim .missing .text) limit).shown

/-- What is promised of a cursor: the pages from the start are all the calls in order, a cursor of a record leads to
the page behind it, and every other one to an error. -/
def PagesExact (cursor : CursorArgument) : Prop :=
  match cursor with
  | .missing => ∀ limits : Nat → Nat, (∀ n, 1 ≤ limits n ∧ limits n ≤ MAX_LIMIT) →
      ∃ calls, follow (nextPage serialize db direction arguments configured) limits calls 0 none =
        some (allCalls db direction identity)
  | .text value => ∀ limit, 1 ≤ limit ∧ limit ≤ MAX_LIMIT →
      (∀ front record back, allCalls db direction identity = front ++ record::back → recordCursor serialize record = value →
        (ask serialize db direction arguments configured cursor limit).shown =
          some (pageOf (recordCursor serialize) back limit)) ∧
      (value ∉ (allCalls db direction identity).map (recordCursor serialize) →
        (ask serialize db direction arguments configured cursor limit).IsError)
  | .other => ∀ limit, 1 ≤ limit ∧ limit ≤ MAX_LIMIT →
      (ask serialize db direction arguments configured cursor limit).IsError

variable {serialize db direction arguments configured identity} {limit : Nat}

theorem ask_eq (direct : Direct arguments configured identity) (limited : 1 ≤ limit ∧ limit ≤ MAX_LIMIT)
    (cursor : CursorArgument) : ask serialize db direction arguments configured cursor limit =
      match cursor with
      | .missing => directRecords serialize db direction identity limit []
      | .text value => directRecords serialize db direction identity limit value
      | .other => .invalidParams "Invalid cursor" := by
  obtain ⟨request,accepted,root,limits,depth⟩ := graphRequest_direct direct limited
  rw [ask,findCalls,accepted]
  dsimp only
  rw [if_neg (by omega),root,limits]

theorem nextPage_eq (direct : Direct arguments configured identity) (limited : 1 ≤ limit ∧ limit ≤ MAX_LIMIT)
    (named : ∀ record, recordCursor serialize record ≠ []) {cursor : Option Text}
    (known : ∀ c, cursor = some c → c ∈ (allCalls db direction identity).map (recordCursor serialize)) :
    nextPage serialize db direction arguments configured cursor limit =
      some (pageOf (recordCursor serialize) (remaining (recordCursor serialize) (allCalls db direction identity) cursor)
        limit) := by
  rw [nextPage,ask_eq direct limited]
  cases cursor with
  | none =>
    change (directRecords serialize db direction identity limit []).shown = _
    rw [directRecords_eq direct.named.2.1,if_pos rfl]
    exact congrArg some (recordsResult_page _ _)
  | some value =>
    have found : value ∈ (allCalls db direction identity).map (recordCursor serialize) := known value rfl
    have filled : value ≠ [] := by
      obtain ⟨record,_,rfl⟩ := List.mem_map.mp found
      exact named record
    change (directRecords serialize db direction identity limit value).shown = _
    rw [directRecords_eq direct.named.2.1,if_neg filled,if_pos found]
    exact congrArg some (recordsResult_page _ _)

end Paging
end Semindex.Mcp
