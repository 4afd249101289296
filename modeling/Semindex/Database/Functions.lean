import Semindex.Database.Rows

/-! `semindex_db_query_functions`: the symbol records of many functions, in as many
batches as the variables of a statement allow. -/
namespace Semindex.Database
open Semindex.Relational Semindex.IndexDb

structure DbFunction where
  variant : Text
  symbol : Text
  usrId : Id
  deriving DecidableEq

section Query
variable (db : Db)

-- the join conditions and the `WHERE` clause
def DbFunction.requests (function : DbFunction) (row : RecordRow) : Bool :=
  row.key.symbol = function.symbol && row.value.usrId = some function.usrId && row.variant = function.variant &&
    row.key.record = 0 && row.key.kind = 7

abbrev FunctionOrder := Text ×ₗ Text ×ₗ Natᵒᵈ ×ₗ Text ×ₗ Nat ×ₗ Nat

def functionOrder (row : RecordRow) : FunctionOrder :=
  toLex (row.variant,toLex (row.key.symbol,toLex (OrderDual.toDual row.key.action,
    toLex (row.path,toLex (row.key.line,row.key.column)))))

-- a row comes once for each request that it answers
def selectFunctions (functions : List DbFunction) : List RecordRow :=
  orderBy functionOrder (functions.flatMap (fun function => (joinedRecords db).filter function.requests))

variable {σ : Type} (callback : Callback σ DbRecord)

def queryFunctionBatch (functions : List DbFunction) (data : σ) : σ × Int :=
  emitRecords callback 0 (selectFunctions db functions) data

-- batches of so many functions and one more
def queryBatches (more : Nat) : List DbFunction → σ → σ × Int
  | [],data => (data,0)
  | function::functions,data =>
    let (data,ret) := queryFunctionBatch db callback ((function::functions).take (more+1)) data
    if ret ≠ 0 then (data,ret) else queryBatches more (functions.drop more) data
termination_by functions => functions.length
decreasing_by
  rw [List.length_drop,List.length_cons]
  omega

/-- The statements take so many variables, three for each function. -/
def semindexDbQueryFunctions (limit : Nat) (functions : List DbFunction) (callback : Callback σ DbRecord) (data : σ) : σ × Int :=
  if functions = [] then (data,0)
  else if functions.any (fun function => function.variant = [] || function.symbol = []) then (data,-1)
  else
    match limit / 3 with
    | 0 => (data,-1)
    | more+1 => queryBatches db callback more functions data

end Query

section Batches
variable {db : Db} {σ : Type} {callback : Callback σ DbRecord}

/-- The functions that a query with so many variables accepts. -/
def Accepted (limit : Nat) (functions : List DbFunction) : Prop :=
  functions = [] ∨ ((∀ function ∈ functions, function.variant ≠ [] ∧ function.symbol ≠ []) ∧ 3 ≤ limit)

-- what one batch after the other gives
def rowsOfChunks (db : Db) (chunks : List (List DbFunction)) : List RecordRow := chunks.flatMap (selectFunctions db)

theorem queryBatches_chunks (db : Db) (more : Nat) (functions : List DbFunction) : ∃ chunks : List (List DbFunction),
    chunks.flatten = functions ∧ ∀ {σ : Type} (callback : Callback σ DbRecord) (data : σ),
      (∀ data record, (callback data record).2 = 0) → queryBatches db callback more functions data =
        (((rowsOfChunks db chunks).map dbRecord).foldl (fun data record => (callback data record).1) data,0) := by
  induction len : functions.length using Nat.strong_induction_on generalizing functions with
  | _ n ih =>
    cases functions with
    | nil =>
      refine ⟨[],rfl,fun callback data steady => ?_⟩
      rw [queryBatches]
      rfl
    | cons function functions =>
      have shorter : (functions.drop more).length < n := by
        rw [← len,List.length_drop,List.length_cons]
        omega
      obtain ⟨chunks,whole,rest⟩ := ih _ shorter (functions.drop more) rfl
      refine ⟨(function::functions).take (more+1)::chunks,?_,fun callback data steady => ?_⟩
      · rw [List.flatten_cons,whole]
        exact List.take_append_drop (more+1) (function::functions)
      · rw [queryBatches,queryFunctionBatch,emitRecords_steady steady]
        simp only [decide_true,Bool.true_or,List.filter_true]
        rw [if_neg (by simp),rest callback _ steady,rowsOfChunks,rowsOfChunks,List.flatMap_cons,List.map_append,List.foldl_append]

theorem queryFunctions_chunks (db : Db) {limit : Nat} {functions : List DbFunction} (accepted : Accepted limit functions) :
    ∃ chunks : List (List DbFunction), chunks.flatten = functions ∧ ∀ {σ : Type} (callback : Callback σ DbRecord) (data : σ),
      (∀ data record, (callback data record).2 = 0) → semindexDbQueryFunctions db limit functions callback data =
        (((rowsOfChunks db chunks).map dbRecord).foldl (fun data record => (callback data record).1) data,0) := by
  by_cases none : functions = []
  · refine ⟨[],none.symm,fun callback data _ => ?_⟩
    rw [semindexDbQueryFunctions,if_pos none]
    rfl
  · obtain ⟨named,enough⟩ := accepted.resolve_left none
    obtain ⟨more,size⟩ := Nat.exists_eq_succ_of_ne_zero (show limit / 3 ≠ 0 by omega)
    obtain ⟨chunks,whole,steps⟩ := queryBatches_chunks db more functions
    refine ⟨chunks,whole,fun callback data steady => ?_⟩
    have fine : functions.any (fun function => function.variant = [] || function.symbol = []) = false := by
      rw [List.any_eq_false]
      intro function member
      simpa using named function member
    rw [semindexDbQueryFunctions,if_neg none,fine,size]
    exact steps callback data steady

theorem queryFunctions_refused {limit : Nat} {functions : List DbFunction} (refused : ¬ Accepted limit functions) (data : σ) :
    semindexDbQueryFunctions db limit functions callback data = (data,-1) := by
  obtain ⟨some,missed⟩ := not_or.mp refused
  rw [semindexDbQueryFunctions,if_neg some]
  by_cases named : functions.any (fun function => function.variant = [] || function.symbol = []) = true
  · rw [if_pos named]
  · have every : ∀ function ∈ functions, function.variant ≠ [] ∧ function.symbol ≠ [] := by
      intro function member
      have fine := List.any_eq_false.mp (Bool.eq_false_iff.mpr named) function member
      simpa using fine
    have small : limit / 3 = 0 := by
      have few : ¬ 3 ≤ limit := fun enough => missed ⟨every,enough⟩
      omega
    rw [if_neg named,small]

/-- The rows of all batches are those of the whole list. -/
theorem rowsOfChunks_perm (db : Db) (chunks : List (List DbFunction)) :
    (rowsOfChunks db chunks).Perm (selectFunctions db chunks.flatten) := by
  have batches : (rowsOfChunks db chunks).Perm
      (chunks.flatMap (fun chunk => chunk.flatMap (fun function => (joinedRecords db).filter function.requests))) :=
    List.Perm.flatMap_left chunks (fun chunk _ => orderBy_perm _)
  rw [← List.flatMap_assoc,List.flatMap_id'] at batches
  exact batches.trans (orderBy_perm _).symm

theorem mem_selectFunctions {functions : List DbFunction} {row : RecordRow} : row ∈ selectFunctions db functions ↔
    row ∈ joinedRecords db ∧ ∃ function ∈ functions, function.requests row = true := by
  unfold selectFunctions
  rw [mem_orderBy,List.mem_flatMap]
  constructor
  · intro some
    obtain ⟨function,listed,inside⟩ := some
    obtain ⟨stored,requested⟩ := List.mem_filter.mp inside
    exact ⟨stored,function,listed,requested⟩
  · intro some
    obtain ⟨stored,function,listed,requested⟩ := some
    exact ⟨function,listed,List.mem_filter.mpr ⟨stored,requested⟩⟩

theorem selectFunctions_sorted (db : Db) (functions : List DbFunction) :
    (selectFunctions db functions).Pairwise (fun a b => functionOrder a ≤ functionOrder b) := by
  have total : Std.Total (fun a b : RecordRow => functionOrder a ≤ functionOrder b) := ⟨fun a b => le_total _ _⟩
  have transitive : IsTrans RecordRow (fun a b => functionOrder a ≤ functionOrder b) := ⟨fun a b c => le_trans⟩
  exact List.pairwise_insertionSort (fun a b : RecordRow => functionOrder a ≤ functionOrder b) _

theorem DbFunction.requests_iff {function : DbFunction} {row : RecordRow} : function.requests row = true ↔
    row.key.symbol = function.symbol ∧ row.value.usrId = some function.usrId ∧ row.variant = function.variant ∧
      row.key.record = 0 ∧ row.key.kind = 7 := by
  unfold DbFunction.requests
  simp only [Bool.and_eq_true,decide_eq_true_eq,and_assoc]

end Batches
end Semindex.Database
