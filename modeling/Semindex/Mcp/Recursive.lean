import Semindex.Mcp.Traversal
import Semindex.IndexDb.Storable

/-! What a recursive query answers: the calls within the depth and their depths,
whether they form a cycle, and when the query fails. -/
namespace Semindex.Mcp
open Semindex.Relational Semindex.IndexDb Semindex.Database Semindex.Graph

section Samples

-- a call between two functions whose ids are their texts' lengths
def callNote (caller callee : String) (line : Nat) : Note where
  variant := "v".toList
  path := "a.c".toList
  use :=
    { kind := .call, symbolKind := .function, mode := 4, name := callee.toList, owner := [], usr := callee.toList,
      context := caller.toList, contextUsr := caller.toList, usrId := BitVec.ofNat 64 callee.length,
      contextUsrId := BitVec.ofNat 64 caller.length, file := [], fileIndex := 0, line := line, column := 1,
      isLocal := false }

def mainRequest : GraphRequest where
  root := ⟨"v".toList,"main".toList,4,SymbolKind.function.code⟩
  limit := 50
  depth := 3
  nodeLimit := 50
  named := by decide
  function := rfl
  limited := by decide
  deep := by decide
  nodes := by decide

-- the answer to `mainRequest` once the notes are stored: the status, and what is read of the result
def answerOf (direction : CallDirection) (notes : List Note) : Option (McpToolStatus × GraphResult) := do
  let db ← storeAll foldHash (notes.map Note.job)
  let answer ← callRecords db direction mainRequest
  return (answer.1,answer.2.result mainRequest)

theorem answerOf_some {direction : CallDirection} {notes : List Note} {status : McpToolStatus} {result : GraphResult}
    (answered : answerOf direction notes = some (status,result)) :
    ∃ db state, storeAll foldHash (notes.map Note.job) = some db ∧
      callRecords db direction mainRequest = some (status,state) ∧ state.result mainRequest = result := by
  simp only [answerOf,Option.bind_eq_bind,Option.bind_eq_some_iff,Option.pure_def,Option.some.injEq,
    Prod.mk.injEq] at answered
  obtain ⟨db,stored,⟨status',state⟩,ran,same,equal⟩ := answered
  exact ⟨db,state,stored,same ▸ ran,equal⟩

end Samples

section Exactness
variable (db : Db) (direction : CallDirection) (request : GraphRequest)

def CallEdge (u v : Identity) : Prop := ∃ row ∈ joinedRecords db, IsCall row ∧
  sourceIdentity direction row = some u ∧ targetIdentity direction row = v

/-- A stored call whose source is at distance `k` from the root, below the depth. -/
def CallAt (k : Nat) (row : RecordRow) : Prop :=
  k < request.depth ∧ row ∈ joinedRecords db ∧ IsCall row ∧
    ∃ u, sourceIdentity direction row = some u ∧ Distance (CallEdge db direction) request.root k u

structure BoundedExact (state : Traversal) : Prop where
  visited : state.visited.Nodup ∧ state.visited.length ≤ request.nodeLimit
  bounded : (state.result request).records.length ≤ request.limit
  sound : ∀ record ∈ (state.result request).records, ∃ k row, CallAt db direction request k row ∧
    record = ⟨dbRecord row,k+1⟩
  whole : (state.result request).truncated = false → ∃ edges : List (RecordRow × Nat),
    (edges.map Prod.fst).Nodup ∧ edges.Pairwise (fun first second => first.2 ≤ second.2) ∧
    (∀ k row, (row,k) ∈ edges ↔ CallAt db direction request k row) ∧
    (state.result request).records = edges.map (fun edge => ⟨dbRecord edge.1,edge.2+1⟩)
  truncated : ∀ k row, CallAt db direction request k row →
    ⟨dbRecord row,k+1⟩ ∉ (state.result request).records → (state.result request).truncated = true

variable {db direction request} {state : Traversal}

theorem edge_callEdge : Edge (callsFrom db direction) (targetIdentity direction) = CallEdge db direction := by
  ext u v
  simp only [Edge,CallEdge,mem_callsFrom,and_assoc]

theorem callAt_iff {k : Nat} {row : RecordRow} : CallAt db direction request k row ↔
    ∃ step ∈ callEdges db direction request, step.2 = row ∧ step.1.path.length = k+1 := by
  rw [callEdges,exists_step_iff,edge_callEdge,CallAt]
  simp only [mem_callsFrom]
  grind

theorem step_callAt {step : CallStep} (member : step ∈ callEdges db direction request) :
    CallAt db direction request (step.1.path.length-1) step.2 ∧
      graphRecord step = ⟨dbRecord step.2,step.1.path.length-1+1⟩ := by
  obtain ⟨k,_,here,_⟩ := mem_edgesWithin.mp member
  have length : step.1.path.length - 1 + 1 = step.1.path.length := by
    rw [path_length here]
    exact Nat.add_sub_cancel (k+1) 1
  exact ⟨callAt_iff.mpr ⟨step,member,rfl,length.symm⟩,by rw [graphRecord,length]⟩

-- an answer that is not truncated has all the calls
theorem whole_records (finished : Finished db direction request .success state)
    (whole : (state.result request).truncated = false) : ∃ waiting,
    Exact direction request (callEdges db direction request) waiting state ∧
      (state.result request).records = (callEdges db direction request).map graphRecord := by
  simp only [Traversal.result,graphResult,Bool.or_eq_false_iff,decide_eq_false_iff_not] at whole
  cases finished with
  | dropped dropped => exact absurd (dropped.hit.symm.trans whole.2) (by decide)
  | @exact waiting _ exact =>
    have length := whole.1
    rw [exact.records,List.length_map,List.length_take] at length
    rw [List.take_of_length_le (by omega)] at exact
    refine ⟨waiting,exact,?_⟩
    rw [Traversal.result,graphResult,exact.records,List.take_of_length_le]
    rw [List.length_map]
    omega

/-- A recursive query that succeeds is an exact, bounded breadth-first traversal. -/
theorem recursive_calls_exact (answered : callRecords db direction request = some (.success,state)) :
    BoundedExact db direction request state := by
  obtain ⟨status,after,same,finished⟩ := callRecords_finished db direction request
  obtain ⟨rfl,rfl⟩ := Prod.mk.inj (Option.some.inj (same.symm.trans answered))
  have listed : ∀ record ∈ after.records, ∃ step ∈ callEdges db direction request, record = graphRecord step := by
    cases finished with
    | dropped dropped => exact dropped.records
    | exact exact =>
      intro record member
      obtain ⟨step,inside,rfl⟩ := List.mem_map.mp (exact.records ▸ member)
      exact ⟨step,List.mem_of_mem_take inside,rfl⟩
  have all : (after.result request).truncated = false →
      ∃ waiting, Exact direction request (callEdges db direction request) waiting after ∧
        (after.result request).records = (callEdges db direction request).map graphRecord :=
    whole_records finished
  exact {
    visited := by
      cases finished with
      | exact exact => exact ⟨exact.visited ▸ seenOn_nodup _,exact.bounded⟩
      | dropped dropped => exact ⟨dropped.visited ▸ seenOn_nodup _,dropped.full.le⟩
    bounded := by simp [Traversal.result,graphResult]
    sound := by
      intro record member
      obtain ⟨step,inside,rfl⟩ := listed record (List.mem_of_mem_take member)
      obtain ⟨placed,shown⟩ := step_callAt inside
      exact ⟨_,_,placed,shown⟩
    whole := by
      intro whole
      obtain ⟨waiting,exact,records⟩ := all whole
      refine ⟨(callEdges db direction request).map (fun step => (step.2,step.1.path.length-1)),?_,?_,?_,?_⟩
      · rw [List.map_map]
        exact edgesWithin_nodup (callsFrom_sourced db direction) (callsFrom_nodup db direction) _
      · rw [List.pairwise_map]
        exact (edgesWithin_sorted _).imp (fun ordered => Nat.sub_le_sub_right ordered 1)
      · intro k row
        rw [callAt_iff,List.mem_map]
        refine exists_congr (fun step => and_congr_right (fun member => ?_))
        obtain ⟨j,_,here,_⟩ := mem_edgesWithin.mp member
        rw [path_length here,Prod.mk.injEq]
        exact and_congr_right (fun _ => by omega)
      · rw [records,List.map_map]
        refine List.map_congr_left (fun step member => ?_)
        exact (step_callAt member).2
    truncated := by
      intro k row placed left
      by_contra whole
      obtain ⟨waiting,exact,records⟩ := all (Bool.eq_false_of_not_eq_true whole)
      obtain ⟨step,member,rfl,length⟩ := callAt_iff.mp placed
      apply left
      rw [records]
      exact List.mem_map.mpr ⟨step,member,by rw [graphRecord,length]⟩ }

-- two functions below the root, and one that both of them call
def branchedCalls : List Note :=
  [callNote "main" "f" 1,callNote "main" "gg" 2,callNote "f" "hhh" 3,callNote "gg" "hhh" 4]

private theorem branched_run : (answerOf .callees branchedCalls).map (fun answer => (answer.1,answer.2.truncated,
    answer.2.records.map GraphRecord.depth)) = some (.success,false,[1,1,2,2]) := by
  decide +kernel

theorem recursive_calls_exact_branched : ∃ db state, storeAll foldHash (branchedCalls.map Note.job) = some db ∧
    callRecords db .callees mainRequest = some (.success,state) ∧ (state.result mainRequest).truncated = false ∧
    (state.result mainRequest).records.map GraphRecord.depth = [1,1,2,2] ∧ BoundedExact db .callees mainRequest state := by
  obtain ⟨⟨_,result⟩,answered,all⟩ := Option.map_eq_some_iff.mp branched_run
  simp only [Prod.mk.injEq] at all
  obtain ⟨rfl,whole,depths⟩ := all
  obtain ⟨db,state,stored,ran,rfl⟩ := answerOf_some answered
  exact ⟨db,state,stored,ran,whole,depths,recursive_calls_exact ran⟩

end Exactness

section Cycles
variable (db : Db) (direction : CallDirection) (request : GraphRequest)

def opposite : CallDirection → CallDirection
  | .callers => .callees
  | .callees => .callers

def ReturnedEdge (records : List GraphRecord) (u v : Identity) : Prop := ∃ record ∈ records,
  nextIdentity (opposite direction) record.record = u ∧ nextIdentity direction record.record = v

instance (records : List GraphRecord) (u v : Identity) : Decidable (ReturnedEdge direction records u v) :=
  List.decidableBEx _ _

/-- The returned calls contain a directed cycle. -/
def ReturnedCycle (records : List GraphRecord) : Prop :=
  ∃ function, Relation.TransGen (ReturnedEdge direction records) function function

/-- The calls within the depth contain a directed cycle. -/
def CycleWithin : Prop :=
  ∃ function, Relation.TransGen (Joins (targetIdentity direction) (callEdges db direction request)) function function

/-- Some call within the depth leads to a function on the breadth-first path of its source. -/
def ReturnsToPath : Prop := TurnsBack (targetIdentity direction) (callEdges db direction request)

variable {db direction request} {state : Traversal}

theorem source_shown {row : RecordRow} {u : Identity} (source : sourceIdentity direction row = some u) :
    nextIdentity (opposite direction) (dbRecord row) = u := by
  cases direction <;>
  · obtain ⟨id,stored,same⟩ := Option.map_eq_some_iff.mp source
    simp only [nextIdentity,opposite,dbRecord,stored,Option.getD_some]
    exact same

theorem returnedEdge_iff : ReturnedEdge direction ((callEdges db direction request).map graphRecord) =
    Joins (targetIdentity direction) (callEdges db direction request) := by
  ext u v
  simp only [ReturnedEdge,Joins,List.mem_map,exists_exists_and_eq_and]
  refine exists_congr (fun step => and_congr_right (fun member => ?_))
  obtain ⟨_,_,_,leaves⟩ := mem_edgesWithin.mp member
  rw [graphRecord,source_shown (callsFrom_sourced db direction _ _ leaves)]
  rfl

/-- In an answer that is not truncated, `cyclesDetected` is exact just where a cycle comes with a call
back to a breadth-first path. -/
theorem cycles_detected_iff (answered : callRecords db direction request = some (.success,state))
    (whole : (state.result request).truncated = false) :
    ((state.result request).cyclesDetected = true ↔ ReturnedCycle direction (state.result request).records) ↔
      (CycleWithin db direction request → ReturnsToPath db direction request) := by
  obtain ⟨status,after,same,finished⟩ := callRecords_finished db direction request
  obtain ⟨rfl,rfl⟩ := Prod.mk.inj (Option.some.inj (same.symm.trans answered))
  obtain ⟨waiting,exact,records⟩ := whole_records finished whole
  have cycle : ReturnedCycle direction (after.result request).records ↔ CycleWithin db direction request := by
    rw [records,ReturnedCycle,returnedEdge_iff,CycleWithin]
  have detected : (after.result request).cyclesDetected = true ↔ ReturnsToPath db direction request := exact.cycles
  rw [cycle,detected]
  constructor
  · intro agree
    exact agree.mpr
  · intro returns
    exact ⟨cycle_of_turnsBack,returns⟩

-- the function that calls itself is on its own path
theorem cycles_detected_self : ∃ db state, storeAll foldHash [(callNote "main" "main" 1).job] = some db ∧
    callRecords db .callees mainRequest = some (.success,state) ∧
    (((state.result mainRequest).cyclesDetected = true ↔
        ReturnedCycle .callees (state.result mainRequest).records) ↔
      (CycleWithin db .callees mainRequest → ReturnsToPath db .callees mainRequest)) := by
  have run : (answerOf .callees [callNote "main" "main" 1]).map (fun answer => (answer.1,answer.2.truncated)) =
      some (.success,false) := by decide +kernel
  obtain ⟨⟨status,result⟩,answered,both⟩ := Option.map_eq_some_iff.mp run
  obtain ⟨rfl,whole⟩ := Prod.mk.inj both
  obtain ⟨db,state,stored,ran,rfl⟩ := answerOf_some answered
  exact ⟨db,state,stored,ran,cycles_detected_iff ran whole⟩

def crossedCalls : List Note :=
  [callNote "main" "f" 1,callNote "main" "gg" 2,callNote "f" "gg" 3,callNote "gg" "f" 4]

def crossedFunction (name : String) (id : Nat) : Identity := ⟨"v".toList,name.toList,id,SymbolKind.function.code⟩

private theorem crossed_run : (answerOf .callees crossedCalls).map (fun answer => (answer.1,answer.2.truncated,
    answer.2.cyclesDetected,
    decide (ReturnedEdge .callees answer.2.records (crossedFunction "f" 1) (crossedFunction "gg" 2)),
    decide (ReturnedEdge .callees answer.2.records (crossedFunction "gg" 2) (crossedFunction "f" 1)))) =
      some (.success,false,false,true,true) := by
  decide +kernel

/-- Two functions of one level call each other, and no cycle is reported. -/
theorem crossed_calls_undetected : ∃ db state, storeAll foldHash (crossedCalls.map Note.job) = some db ∧
    callRecords db .callees mainRequest = some (.success,state) ∧
    (state.result mainRequest).truncated = false ∧ (state.result mainRequest).cyclesDetected = false ∧
    ReturnedCycle .callees (state.result mainRequest).records := by
  obtain ⟨⟨status,result⟩,answered,all⟩ := Option.map_eq_some_iff.mp crossed_run
  obtain ⟨db,state,stored,ran,rfl⟩ := answerOf_some answered
  simp only [Prod.mk.injEq,decide_eq_true_eq] at all
  obtain ⟨rfl,whole,quiet,forth,back⟩ := all
  exact ⟨db,state,stored,ran,whole,quiet,crossedFunction "f" 1,.tail (.single forth) back⟩

end Cycles

section Failure
variable (db : Db) (direction : CallDirection) (request : GraphRequest)

/-- The query of the function's calls is not refused. -/
def Accepted (function : Identity) : Prop :=
  (semindexDbQueryCalls db (graphQuery direction function) collect []).2 = 0

/-- The traversal succeeds, and it can query every function it enqueues. -/
def NeverFails : Prop := ∃ state, callRecords db direction request = some (.success,state) ∧
  ∀ function ∈ state.visited, Accepted db direction function

variable {db direction request}

theorem accepted_iff {function : Identity} : Accepted db direction function ↔ function.symbol ≠ [] := by
  by_cases unnamed : function.symbol = [] <;>
    simp [Accepted,semindexDbQueryCalls,graphQuery,emitRecords_collect,unnamed]

/-- A recursive query fails just where the first calls lead to a function without a name. -/
theorem never_fails_iff : NeverFails db direction request ↔ ∀ i ≤ request.limit + 1,
    (functionsOn direction request ((callEdges db direction request).take i)).length ≤ request.nodeLimit →
      ∀ function ∈ functionsOn direction request ((callEdges db direction request).take i),
        function.symbol ≠ [] := by
  obtain ⟨status,after,answered,finished⟩ := callRecords_finished db direction request
  have unique {other : McpToolStatus} {state : Traversal}
      (same : callRecords db direction request = some (other,state)) : status = other ∧ after = state :=
    Prod.mk.inj (Option.some.inj (answered.symm.trans same))
  have longer (i j : Nat) (below : i ≤ j) :
      functionsOn direction request ((callEdges db direction request).take i) <+:
        functionsOn direction request ((callEdges db direction request).take j) :=
    functionsOn_mono (List.take_prefix_take_left below)
  constructor
  · intro ⟨state,same,accepted⟩ i early few function member
    obtain ⟨rfl,rfl⟩ := unique same
    apply accepted_iff.mp (accepted function ?_)
    cases finished with
    | exact exact => exact exact.visited ▸ (longer i _ early).subset member
    | @dropped j _ dropped =>
      have before : i ≤ j := by
        by_contra late
        have more := (longer (j+1) i (by omega)).length_le
        have next := dropped.next
        omega
      exact dropped.visited ▸ (longer i j before).subset member
  · intro named
    cases finished with
    | exact exact =>
      refine ⟨after,answered,fun function member => accepted_iff.mpr ?_⟩
      exact named _ (Nat.le_refl _) (exact.visited ▸ exact.bounded) function (exact.visited ▸ member)
    | @dropped j _ dropped =>
      refine ⟨after,answered,fun function member => accepted_iff.mpr ?_⟩
      exact named j (Nat.le_succ_of_le dropped.early) (dropped.visited ▸ dropped.full.le) function
        (dropped.visited ▸ member)
    | @failed j _ early visited bounded unnamed =>
      obtain ⟨function,member,empty⟩ := unnamed
      exact absurd empty (named j early (visited ▸ bounded) function (visited ▸ member))

/-- A call outside of any function stops the search for the callers of its callee's callees. -/
theorem file_scope_call_fails : ∃ db, storeAll foldHash ([callNote "f" "main" 1,callNote "" "f" 2].map Note.job) = some db ∧
    ¬ NeverFails db .callers mainRequest := by
  have run : (answerOf .callers [callNote "f" "main" 1,callNote "" "f" 2]).map Prod.fst = some .databaseError := by
    decide +kernel
  obtain ⟨⟨_,result⟩,answered,rfl⟩ := Option.map_eq_some_iff.mp run
  obtain ⟨db,state,stored,ran,_⟩ := answerOf_some answered
  refine ⟨db,stored,?_⟩
  intro ⟨other,same,_⟩
  have equal := (Prod.mk.inj (Option.some.inj (ran.symm.trans same))).1
  cases equal

end Failure
end Semindex.Mcp
