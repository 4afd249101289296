import Semindex.Mcp.CallGraph
import Semindex.Graph.BreadthFirst

/-! The traversal follows the breadth-first exploration of the call graph: until
it drops a function for want of nodes, its queue, its visited functions and its
records are those of the edges explored so far. -/
namespace Semindex.Mcp
open Semindex.Relational Semindex.IndexDb Semindex.Database Semindex.Graph

section Graph
variable (db : Db) (direction : CallDirection)

def IsCall (row : RecordRow) : Prop := row.key.record = 1 ∧ row.key.action = 3 ∧ row.key.kind = 7

-- an end of a call without a stored id has no identity
def sourceIdentity (row : RecordRow) : Option Identity :=
  match direction with
  | .callers => row.value.usrId.map (fun id => ⟨row.variant,row.key.symbol,id,SymbolKind.function.code⟩)
  | .callees => row.value.contextUsrId.map (fun id => ⟨row.variant,row.value.context,id,SymbolKind.function.code⟩)

def targetIdentity (row : RecordRow) : Identity := nextIdentity direction (dbRecord row)

/-- The calls with this end, in the order of the query. -/
def callsFrom (identity : Identity) : List RecordRow :=
  if identity.kind = SymbolKind.function.code then (graphQuery direction identity).select db else []

theorem mem_callsFrom {identity : Identity} {row : RecordRow} : row ∈ callsFrom db direction identity ↔
    row ∈ joinedRecords db ∧ IsCall row ∧ sourceIdentity direction row = some identity := by
  obtain ⟨variant,symbol,id,kind⟩ := identity
  unfold callsFrom
  split
  · rename_i function
    dsimp only at function
    rw [CallOptions.select,mem_orderBy,List.mem_filter]
    refine and_congr_right (fun _ => ?_)
    cases direction <;>
    · simp only [CallOptions.selects,graphQuery,sourceIdentity,IsCall,Option.all_some,Bool.and_eq_true,
        decide_eq_true_eq,Option.map_eq_some_iff,Identity.mk.injEq,function,and_true]
      grind
  · rename_i other
    simp only [List.not_mem_nil,false_iff]
    intro ⟨_,_,source⟩
    apply other
    unfold sourceIdentity at source
    cases direction <;>
    · obtain ⟨_,_,same⟩ := Option.map_eq_some_iff.mp source
      exact (congrArg Identity.kind same).symm

theorem callsFrom_nodup (identity : Identity) : (callsFrom db direction identity).Nodup := by
  unfold callsFrom
  split
  · refine (orderBy_perm _).nodup_iff.mpr (List.Nodup.filter _ ?_)
    exact joinFiles_distinct.imp (fun apart same => apart (congrArg _ same))
  · exact List.nodup_nil

theorem callsFrom_sourced (identity : Identity) :
    ∀ row ∈ callsFrom db direction identity, sourceIdentity direction row = some identity :=
  fun _ member => ((mem_callsFrom db direction).mp member).2.2

end Graph

section Collector

theorem emitRecords_graph (limit : Nat) (rows : List RecordRow) (data : List DbRecord)
    (room : data.length < limit) :
    (emitRecords (collectGraphRecord limit) 0 rows data).1 = data ++ (rows.map dbRecord).take (limit-data.length) ∧
      0 ≤ (emitRecords (collectGraphRecord limit) 0 rows data).2 := by
  induction rows generalizing data with
  | nil => simp [emitRecords]
  | cons row rows ih =>
    have left : limit - data.length = (limit - (data.length+1)) + 1 := by omega
    simp only [emitRecords,collectGraphRecord,ne_eq,not_true_eq_false,decide_false,Bool.false_and,
      Bool.false_eq_true,if_false,List.map_cons]
    by_cases full : limit ≤ data.length + 1
    · have last : limit - (data.length+1) = 0 := by omega
      simp [full,left,last]
    · have more := ih (data ++ [dbRecord row]) (by simp; omega)
      simp only [List.length_append,List.length_singleton] at more
      simpa [full,left] using more

theorem query_calls (db : Db) (direction : CallDirection) {identity : Identity} {remaining : Nat}
    (function : identity.kind = SymbolKind.function.code) (named : identity.symbol ≠ []) (room : 0 < remaining) :
    ∃ ret, 0 ≤ ret ∧ semindexDbQueryCalls db (graphQuery direction identity) (collectGraphRecord remaining) [] =
      (((callsFrom db direction identity).take remaining).map dbRecord,ret) := by
  obtain ⟨rows,done⟩ := emitRecords_graph remaining ((graphQuery direction identity).select db) [] room
  refine ⟨_,done,?_⟩
  have known : (graphQuery direction identity).function ≠ [] := named
  rw [semindexDbQueryCalls,if_neg known,callsFrom,if_pos function,List.map_take]
  exact Prod.ext (by simpa using rows) rfl

theorem query_unnamed (db : Db) (direction : CallDirection) {identity : Identity} {remaining : Nat}
    (unnamed : identity.symbol = []) :
    semindexDbQueryCalls db (graphQuery direction identity) (collectGraphRecord remaining) [] = ([],-1) := by
  simp [semindexDbQueryCalls,graphQuery,unnamed]

end Collector

section Simulation
variable (db : Db) (direction : CallDirection) (request : GraphRequest)

abbrev CallStep := Branch Identity × RecordRow

/-- The calls of functions nearer than the depth, in breadth-first order. -/
def callEdges : List CallStep :=
  edgesWithin (callsFrom db direction) (targetIdentity direction) request.root request.depth

def callLevel (k : Nat) : List (Branch Identity) :=
  level (callsFrom db direction) (targetIdentity direction) request.root k

def functionsOn (steps : List CallStep) : List Identity := seenOn (targetIdentity direction) request.root steps

def graphFunction (branch : Branch Identity) : GraphFunction := ⟨branch.node,branch.path.length-1,branch.path⟩

def graphRecord (step : CallStep) : GraphRecord := ⟨dbRecord step.2,step.1.path.length⟩

/-- The state after these edges, with these branches left in the queue. -/
structure Exact (steps : List CallStep) (waiting : List (Branch Identity)) (state : Traversal) : Prop where
  pending : state.pending = waiting.map graphFunction
  known : ∀ branch ∈ waiting, branch.node ∈ functionsOn direction request steps
  visited : state.visited = functionsOn direction request steps
  records : state.records = steps.map graphRecord
  clear : state.nodeLimitHit = false
  cycles : state.cyclesDetected = true ↔ TurnsBack (targetIdentity direction) steps
  bounded : state.visited.length ≤ request.nodeLimit

/-- The state once the edge behind the first `i` has been dropped. -/
structure Dropped (i : Nat) (state : Traversal) : Prop where
  early : i ≤ request.limit
  visited : state.visited = functionsOn direction request ((callEdges db direction request).take i)
  next : request.nodeLimit < (functionsOn direction request ((callEdges db direction request).take (i+1))).length
  full : state.visited.length = request.nodeLimit
  hit : state.nodeLimitHit = true
  pending : ∀ function ∈ state.pending, function.identity ∈ state.visited ∧
    ∃ k, ∃ branch ∈ callLevel db direction request k, function = graphFunction branch
  records : ∀ record ∈ state.records, ∃ step ∈ callEdges db direction request, record = graphRecord step

variable {db direction request}

theorem functionsOn_append (steps more : List CallStep) : functionsOn direction request (steps ++ more) =
    functionsOn direction request steps ++
      (discover (targetIdentity direction) (functionsOn direction request steps) more).map Branch.node :=
  seenAfter_append steps more

theorem functionsOn_mono {few steps : List CallStep} (before : few <+: steps) :
    functionsOn direction request few <+: functionsOn direction request steps := by
  obtain ⟨more,rfl⟩ := before
  rw [functionsOn_append]
  exact List.prefix_append _ _

variable {steps : List CallStep} {waiting : List (Branch Identity)} {state : Traversal} {branch : Branch Identity}

/-- One record of the exact phase: it is appended, or its function is dropped. -/
theorem visitRecord_exact (exact : Exact direction request steps waiting state)
    (seen : ∀ v ∈ branch.path, v ∈ functionsOn direction request steps) (rooted : 0 < branch.path.length)
    (row : RecordRow) :
    Exact direction request (steps ++ [(branch,row)])
        (waiting ++ discover (targetIdentity direction) (functionsOn direction request steps) [(branch,row)])
        (visitRecord direction request (graphFunction branch) state (dbRecord row)) ∨
      visitRecord direction request (graphFunction branch) state (dbRecord row) =
          { state with nodeLimitHit := true } ∧ state.visited.length = request.nodeLimit ∧
        request.nodeLimit < (functionsOn direction request (steps ++ [(branch,row)])).length := by
  have depth : branch.path.length - 1 + 1 = branch.path.length := by omega
  have turned : TurnsBack (targetIdentity direction) (steps ++ [(branch,row)]) ↔
      TurnsBack (targetIdentity direction) steps ∨ targetIdentity direction row ∈ branch.path := by
    simp [TurnsBack,or_and_right,exists_or]
  have grown := @functionsOn_append direction request steps [(branch,row)]
  have next : nextIdentity direction (dbRecord row) = targetIdentity direction row := rfl
  have appended : state.records ++ [⟨dbRecord row,branch.path.length⟩] =
      (steps ++ [(branch,row)]).map graphRecord := by
    simp [exact.records,graphRecord]
  rw [discover_one] at grown ⊢
  unfold visitRecord
  simp only [graphFunction,depth,next,appended]
  by_cases known : targetIdentity direction row ∈ functionsOn direction request steps
  · left
    have same : functionsOn direction request (steps ++ [(branch,row)]) = functionsOn direction request steps := by
      simpa [known] using grown
    have listed : targetIdentity direction row ∈ state.visited := exact.visited ▸ known
    rw [if_pos known,List.append_nil]
    by_cases back : targetIdentity direction row ∈ branch.path
    · rw [if_pos back]
      exact ⟨exact.pending,same ▸ exact.known,same ▸ exact.visited,rfl,exact.clear,by simp [turned,back],
        exact.bounded⟩
    · rw [if_neg back,if_pos listed]
      exact ⟨exact.pending,same ▸ exact.known,same ▸ exact.visited,rfl,exact.clear,
        by simp [turned,back,exact.cycles],exact.bounded⟩
  · have new : targetIdentity direction row ∉ state.visited := fun old => known (exact.visited ▸ old)
    have apart : targetIdentity direction row ∉ branch.path := fun back => known (seen _ back)
    have more : functionsOn direction request (steps ++ [(branch,row)]) =
        functionsOn direction request steps ++ [targetIdentity direction row] := by
      simpa [known,Branch.grow] using grown
    rw [if_neg known,if_neg apart,if_neg new]
    by_cases full : request.nodeLimit ≤ state.visited.length
    · right
      have bound := exact.bounded
      have length := congrArg List.length exact.visited
      rw [if_pos full,more,List.length_append,List.length_singleton]
      exact ⟨rfl,by omega,by omega⟩
    · left
      rw [if_neg full]
      exact {
        pending := by simp [exact.pending,graphFunction,Branch.grow]
        known := by
          intro other member
          rw [more]
          rcases List.mem_append.mp member with old | grown
          · exact List.mem_append_left _ (exact.known other old)
          · obtain rfl := List.mem_singleton.mp grown
            exact List.mem_append_right _ List.mem_cons_self
        visited := by rw [more,exact.visited]
        records := rfl
        clear := exact.clear
        cycles := by simp [turned,apart,exact.cycles]
        bounded := by simp; omega }

/-- A record of the phase after a drop adds no function. -/
theorem visitRecord_dropped {i k : Nat} (dropped : Dropped db direction request i state)
    (low : k < request.depth) (here : branch ∈ callLevel db direction request k) {row : RecordRow}
    (leaves : row ∈ callsFrom db direction branch.node) :
    Dropped db direction request i (visitRecord direction request (graphFunction branch) state (dbRecord row)) := by
  have edge : (branch,row) ∈ callEdges db direction request := mem_edgesWithin.mpr ⟨k,low,here,leaves⟩
  have length : branch.path.length - 1 + 1 = branch.path.length := by
    have long := path_length here
    omega
  have listed : ∀ record ∈ state.records ++ [⟨dbRecord row,branch.path.length⟩],
      ∃ step ∈ callEdges db direction request, record = graphRecord step := by
    intro record member
    rcases List.mem_append.mp member with old | new
    · exact dropped.records record old
    · exact ⟨_,edge,List.mem_singleton.mp new⟩
  unfold visitRecord
  simp only [graphFunction,length]
  split
  · exact { dropped with records := listed }
  · split
    · exact { dropped with records := listed }
    · rw [if_pos dropped.full.ge]
      exact { dropped with hit := rfl }

theorem visitRecords_cons (function : GraphFunction) (state : Traversal) (record : DbRecord)
    (rest : List DbRecord) : visitRecords direction request function state (record::rest) =
      if request.limit < (visitRecord direction request function state record).records.length then
        visitRecord direction request function state record
      else visitRecords direction request function (visitRecord direction request function state record) rest := rfl

theorem visitRecords_dropped {i k : Nat} (dropped : Dropped db direction request i state)
    (low : k < request.depth) (here : branch ∈ callLevel db direction request k) (rows : List RecordRow)
    (leave : ∀ row ∈ rows, row ∈ callsFrom db direction branch.node) :
    Dropped db direction request i
      (visitRecords direction request (graphFunction branch) state (rows.map dbRecord)) := by
  induction rows generalizing state with
  | nil => exact dropped
  | cons row rows ih =>
    have after := visitRecord_dropped dropped low here (leave row List.mem_cons_self)
    rw [List.map_cons,visitRecords_cons]
    split
    · exact after
    · exact ih after (fun other member => leave other (List.mem_cons_of_mem _ member))

theorem visitRecords_exact {k : Nat} (exact : Exact direction request steps waiting state)
    (seen : ∀ v ∈ branch.path, v ∈ functionsOn direction request steps)
    (low : k < request.depth) (here : branch ∈ callLevel db direction request k) (rows : List RecordRow)
    (leave : ∀ row ∈ rows, row ∈ callsFrom db direction branch.node)
    (before : steps ++ rows.map (branch,·) <+: callEdges db direction request)
    (room : steps.length ≤ request.limit) (taken : steps.length + rows.length ≤ request.limit + 1)
    (levels : ∀ other ∈ waiting ++ discover (targetIdentity direction) (functionsOn direction request steps)
      (rows.map (branch,·)), ∃ k, other ∈ callLevel db direction request k) :
    Exact direction request (steps ++ rows.map (branch,·))
        (waiting ++ discover (targetIdentity direction) (functionsOn direction request steps) (rows.map (branch,·)))
        (visitRecords direction request (graphFunction branch) state (rows.map dbRecord)) ∨
      ∃ i, Dropped db direction request i
        (visitRecords direction request (graphFunction branch) state (rows.map dbRecord)) := by
  induction rows generalizing steps waiting state with
  | nil =>
    left
    simpa [visitRecords] using exact
  | cons row rows ih =>
    have later (other : RecordRow) (member : other ∈ rows) : other ∈ callsFrom db direction branch.node :=
      leave other (List.mem_cons_of_mem _ member)
    have split : steps ++ (row::rows).map (branch,·) = (steps ++ [(branch,row)]) ++ rows.map (branch,·) := by simp
    have found : discover (targetIdentity direction) (functionsOn direction request steps)
          ((row::rows).map (branch,·)) =
        discover (targetIdentity direction) (functionsOn direction request steps) [(branch,row)] ++
          discover (targetIdentity direction) (functionsOn direction request (steps ++ [(branch,row)]))
            (rows.map (branch,·)) := by
      rw [List.map_cons,← List.singleton_append,discover_append]
      congr 1
      rw [functionsOn,functionsOn,seenOn,seenOn,seenAfter_append]
    have first := visitRecord_exact exact seen (by rw [path_length here]; omega) row
    have front : (row::rows).map dbRecord = dbRecord row :: rows.map dbRecord := rfl
    rw [front,visitRecords_cons]
    rcases first with more | ⟨same,full,next⟩
    · have length : (visitRecord direction request (graphFunction branch) state (dbRecord row)).records.length =
          steps.length + 1 := by simp [more.records]
      rw [length,split,found,← List.append_assoc]
      rw [split] at before
      rw [found,← List.append_assoc] at levels
      have wider (v : Identity) (inside : v ∈ branch.path) : v ∈ functionsOn direction request (steps ++ [(branch,row)]) :=
        (functionsOn_mono (List.prefix_append _ _)).subset (seen v inside)
      by_cases enough : request.limit < steps.length + 1
      · rw [if_pos enough]
        left
        have last : rows = [] := by
          rw [List.length_cons] at taken
          exact List.eq_nil_of_length_eq_zero (by omega)
        subst last
        simpa using more
      · rw [if_neg enough]
        refine ih more wider later before ?_ ?_ levels
        · simp; omega
        · simp at taken ⊢; omega
    · right
      refine ⟨steps.length,?_⟩
      have start : steps = (callEdges db direction request).take steps.length :=
        List.prefix_iff_eq_take.mp ((List.prefix_append _ _).trans before)
      have start' : steps ++ [(branch,row)] = (callEdges db direction request).take (steps.length+1) := by
        have longer := List.prefix_iff_eq_take.mp ((List.prefix_append _ _).trans (split ▸ before))
        simpa using longer
      have dropped : Dropped db direction request steps.length
          (visitRecord direction request (graphFunction branch) state (dbRecord row)) := by
        rw [same]
        exact {
          early := room
          visited := by rw [← start]; exact exact.visited
          next := by rw [← start']; exact next
          full := full
          hit := rfl
          pending := by
            intro function member
            obtain ⟨other,listed,rfl⟩ := List.mem_map.mp (exact.pending ▸ member)
            obtain ⟨j,level⟩ := levels other (List.mem_append_left _ listed)
            exact ⟨exact.visited ▸ exact.known other listed,j,other,level,rfl⟩
          records := by
            intro record member
            obtain ⟨step,listed,rfl⟩ := List.mem_map.mp (exact.records ▸ member)
            exact ⟨step,before.subset (List.mem_append_left _ listed),rfl⟩ }
      split_ifs
      · exact dropped
      · exact visitRecords_dropped dropped low here rows later

section Run
variable (db direction request)

/-- How far the exploration is when a function is taken off the queue. -/
inductive Exploring : List CallStep → List (Branch Identity) → Prop where
  | within {k : Nat} (low : k < request.depth) {done todo : List (Branch Identity)}
      (cut : callLevel db direction request k = done ++ todo) :
      Exploring
        (edgesWithin (callsFrom db direction) (targetIdentity direction) request.root k ++
          leaving (callsFrom db direction) done)
        (todo ++ discover (targetIdentity direction)
          (functionsOn direction request
            (edgesWithin (callsFrom db direction) (targetIdentity direction) request.root k))
          (leaving (callsFrom db direction) done))
  | beyond {waiting : List (Branch Identity)}
      (last : ∀ branch ∈ waiting, branch ∈ callLevel db direction request request.depth) :
      Exploring (callEdges db direction request) waiting

inductive Running (state : Traversal) : Prop where
  | exact {steps : List CallStep} {waiting : List (Branch Identity)}
      (exact : Exact direction request steps waiting state)
      (exploring : Exploring db direction request steps waiting) (room : steps.length ≤ request.limit + 1)
  | full {waiting : List (Branch Identity)}
      (exact : Exact direction request ((callEdges db direction request).take (request.limit+1)) waiting state)
      (full : request.limit < state.records.length)
  | dropped {i : Nat} (dropped : Dropped db direction request i state)

inductive Finished : McpToolStatus → Traversal → Prop where
  | exact {waiting : List (Branch Identity)} {state : Traversal}
      (exact : Exact direction request ((callEdges db direction request).take (request.limit+1)) waiting state) :
      Finished .success state
  | dropped {i : Nat} {state : Traversal} (dropped : Dropped db direction request i state) :
      Finished .success state
  | failed {i : Nat} {state : Traversal} (early : i ≤ request.limit + 1)
      (visited : state.visited = functionsOn direction request ((callEdges db direction request).take i))
      (bounded : state.visited.length ≤ request.nodeLimit)
      (unnamed : ∃ function ∈ state.visited, function.symbol = []) : Finished .databaseError state

variable {db direction request}

theorem level_function {k : Nat} (here : branch ∈ callLevel db direction request k) :
    branch.node.kind = SymbolKind.function.code := by
  cases k with
  | zero =>
    obtain rfl := List.mem_singleton.mp here
    exact request.function
  | succ k =>
    obtain ⟨step,_,_,rfl⟩ := mem_discover here
    cases direction <;> rfl

theorem exploring_start (exploring : Exploring db direction request steps waiting) :
    steps <+: callEdges db direction request := by
  cases exploring with
  | beyond last => exact List.prefix_refl _
  | @within k low done todo cut =>
    refine List.IsPrefix.trans ?_ (edgesWithin_start (k := k+1) low)
    change level _ _ _ k = _ at cut
    rw [edgesWithin_succ,cut,leaving_append,← List.append_assoc]
    exact List.prefix_append _ _

theorem exploring_end (exploring : Exploring db direction request steps waiting) (none : waiting = []) :
    steps = callEdges db direction request := by
  cases exploring with
  | beyond last => rfl
  | @within k low done todo cut =>
    obtain ⟨nothing,empty⟩ := List.append_eq_nil_iff.mp none
    rw [nothing,List.append_nil] at cut
    rw [← cut] at empty ⊢
    exact (edgesWithin_stop (k := k+1) empty low).2.symm

/-- The front of the queue is the next branch of the level, or lies at the depth. -/
theorem exploring_front {rest : List (Branch Identity)}
    (exploring : Exploring db direction request steps waiting) (front : waiting = branch::rest) :
    (∃ k < request.depth, ∃ done todo, callLevel db direction request k = done ++ branch::todo ∧
      steps = edgesWithin (callsFrom db direction) (targetIdentity direction) request.root k ++
        leaving (callsFrom db direction) done ∧
      rest = todo ++ discover (targetIdentity direction)
        (functionsOn direction request
          (edgesWithin (callsFrom db direction) (targetIdentity direction) request.root k))
        (leaving (callsFrom db direction) done)) ∨
    steps = callEdges db direction request ∧
      ∀ other ∈ branch::rest, other ∈ callLevel db direction request request.depth := by
  cases exploring with
  | beyond last => exact .inr ⟨rfl,front ▸ last⟩
  | @within k low done todo cut =>
    cases todo with
    | cons first todo =>
      obtain ⟨rfl,rfl⟩ := List.cons.inj front
      exact .inl ⟨k,low,done,todo,cut,rfl,rfl⟩
    | nil =>
      rw [List.append_nil] at cut
      rw [List.nil_append,← cut] at front
      have next : callLevel db direction request (k+1) = branch::rest := front
      rw [← cut]
      by_cases deeper : k + 1 < request.depth
      · refine .inl ⟨k+1,deeper,[],rest,next,?_,?_⟩
        · simp [leaving,edgesWithin_succ,callLevel]
        · simp [leaving]
      · right
        have last : request.depth = k + 1 := by omega
        rw [callEdges,last]
        exact ⟨rfl,fun other member => next ▸ member⟩

theorem graphFunction_depth {k : Nat} (here : branch ∈ callLevel db direction request k) :
    (graphFunction branch).depth = k := by
  rw [graphFunction,path_length here]
  exact Nat.add_sub_cancel k 1

theorem Exact.tail {rest : List (Branch Identity)} (exact : Exact direction request steps (branch::rest) state) :
    Exact direction request steps rest { state with pending := rest.map graphFunction } :=
  { exact with pending := rfl, known := fun other member => exact.known other (List.mem_cons_of_mem _ member) }

/-- One function of the exact phase, at a depth where it is expanded. -/
theorem expand_exact {k : Nat} {done todo : List (Branch Identity)} (low : k < request.depth)
    (cut : callLevel db direction request k = done ++ branch::todo)
    (start : steps = edgesWithin (callsFrom db direction) (targetIdentity direction) request.root k ++
      leaving (callsFrom db direction) done)
    (queue : waiting = todo ++ discover (targetIdentity direction)
      (functionsOn direction request
        (edgesWithin (callsFrom db direction) (targetIdentity direction) request.root k))
      (leaving (callsFrom db direction) done))
    (exact : Exact direction request steps waiting state) (room : steps.length ≤ request.limit) :
    Running db direction request (visitRecords direction request (graphFunction branch) state
      (((callsFrom db direction branch.node).take (request.limit+1-steps.length)).map dbRecord)) := by
  have here : branch ∈ callLevel db direction request k := cut ▸ List.mem_append_right _ List.mem_cons_self
  have known : ∀ v ∈ branch.path, v ∈ functionsOn direction request steps := by
    intro v inside
    rw [start]
    exact (functionsOn_mono (List.prefix_append _ _)).subset (path_seen here v inside)
  have cut' : callLevel db direction request k = (done ++ [branch]) ++ todo := by
    rw [List.append_assoc]
    exact cut
  generalize size : request.limit+1-steps.length = remaining
  have whole : (callsFrom db direction branch.node).map (branch,·) = leaving (callsFrom db direction) [branch] :=
    (leaving_one branch).symm
  have part : leaving (callsFrom db direction) done ++
        ((callsFrom db direction branch.node).take remaining).map (branch,·) <+:
      leaving (callsFrom db direction) (callLevel db direction request k) := by
    rw [cut',leaving_append,leaving_append,← whole,List.append_assoc]
    refine (List.prefix_append_right_inj _).mpr ?_
    rw [List.map_take]
    exact (List.take_prefix _ _).trans (List.prefix_append _ _)
  have before : steps ++ ((callsFrom db direction branch.node).take remaining).map (branch,·) <+:
      callEdges db direction request := by
    refine List.IsPrefix.trans ?_ (edgesWithin_start (k := k+1) low)
    rw [start,List.append_assoc,edgesWithin_succ]
    exact (List.prefix_append_right_inj _).mpr part
  have gathered : waiting ++ discover (targetIdentity direction) (functionsOn direction request steps)
        (((callsFrom db direction branch.node).take remaining).map (branch,·)) =
      todo ++ discover (targetIdentity direction)
        (functionsOn direction request
          (edgesWithin (callsFrom db direction) (targetIdentity direction) request.root k))
        (leaving (callsFrom db direction) done ++
          ((callsFrom db direction branch.node).take remaining).map (branch,·)) := by
    rw [queue,discover_append,List.append_assoc,start]
    congr 3
    exact seenAfter_append _ _
  have outcome := visitRecords_exact exact known low here
    ((callsFrom db direction branch.node).take remaining) (fun row member => List.mem_of_mem_take member) before room
    (by simp; omega) ?_
  · rcases outcome with more | ⟨i,dropped⟩
    · by_cases complete : (callsFrom db direction branch.node).length ≤ remaining
      · rw [List.take_of_length_le complete] at more gathered ⊢
        rw [gathered,whole,start,List.append_assoc,← leaving_append] at more
        refine .exact more (.within low cut') ?_
        rw [leaving_append,← whole,List.length_append,List.length_append,List.length_map]
        have lengths := congrArg List.length start
        rw [List.length_append] at lengths
        omega
      · have length : (steps ++ ((callsFrom db direction branch.node).take remaining).map (branch,·)).length =
            request.limit + 1 := by
          rw [List.length_append,List.length_map,List.length_take]
          omega
        have first := List.prefix_iff_eq_take.mp before
        rw [length] at first
        refine .full (first ▸ more) ?_
        rw [more.records,List.length_map,length]
        exact Nat.lt_succ_self _
    · exact .dropped dropped
  · intro other member
    rw [gathered] at member
    rcases List.mem_append.mp member with old | new
    · exact ⟨k,cut ▸ List.mem_append_right _ (List.mem_cons_of_mem _ old)⟩
    · obtain ⟨more,same⟩ := part
      refine ⟨k+1,?_⟩
      change other ∈ level _ _ _ (k+1)
      rw [level_succ]
      change other ∈ discover _ _ (leaving _ (callLevel db direction request k))
      rw [← same,discover_append]
      exact List.mem_append_left _ new

section VisitFunction
variable {function : GraphFunction}

theorem visitFunction_deep (deep : request.depth ≤ function.depth) :
    visitFunction db direction request function state = (.success,state) := if_pos deep

theorem visitFunction_unnamed (shallow : ¬ request.depth ≤ function.depth)
    (unnamed : function.identity.symbol = []) :
    visitFunction db direction request function state = (.databaseError,state) := by
  rw [visitFunction,if_neg shallow]
  simp only [query_unnamed db direction unnamed]
  rfl

theorem visitFunction_named (shallow : ¬ request.depth ≤ function.depth)
    (kind : function.identity.kind = SymbolKind.function.code) (named : function.identity.symbol ≠ [])
    (room : ¬ request.limit < state.records.length) :
    visitFunction db direction request function state =
      (.success,visitRecords direction request function state
        (((callsFrom db direction function.identity).take (request.limit+1-state.records.length)).map dbRecord)) := by
  have left : 0 < request.limit + 1 - state.records.length := by omega
  obtain ⟨ret,fine,found⟩ := query_calls db direction kind named left
  rw [visitFunction,if_neg shallow]
  simp only [found]
  exact if_neg (Int.not_lt.mpr fine)

end VisitFunction

/-- One turn of the outer loop. -/
theorem visitFunction_running {function : GraphFunction} {pending : List GraphFunction}
    (running : Running db direction request state) (front : state.pending = function::pending)
    (room : ¬ request.limit < state.records.length) :
    (∃ after, visitFunction db direction request function { state with pending := pending } = (.success,after) ∧
      Running db direction request after) ∨
    ∃ after, visitFunction db direction request function { state with pending := pending } = (.databaseError,after) ∧
      Finished db direction request .databaseError after := by
  cases running with
  | full exact full => exact absurd full room
  | @exact steps waiting exact exploring bound =>
    have records : state.records.length = steps.length := by simp [exact.records]
    obtain ⟨branch,rest,rfl,rfl,rfl⟩ : ∃ branch rest, waiting = branch::rest ∧ function = graphFunction branch ∧
        pending = rest.map graphFunction := by
      cases waiting with
      | nil => simp [exact.pending] at front
      | cons branch rest =>
        rw [exact.pending] at front
        obtain ⟨first,others⟩ := List.cons.inj front
        exact ⟨branch,rest,rfl,first.symm,others.symm⟩
    rcases exploring_front exploring rfl with ⟨k,low,done,todo,cut,start,queue⟩ | ⟨all,last⟩
    · have here : branch ∈ callLevel db direction request k := cut ▸ List.mem_append_right _ List.mem_cons_self
      have shallow : ¬ request.depth ≤ (graphFunction branch).depth := by
        rw [graphFunction_depth here]
        omega
      by_cases unnamed : branch.node.symbol = []
      · right
        refine ⟨_,visitFunction_unnamed shallow unnamed,.failed bound ?_ exact.bounded ?_⟩
        · rw [← List.prefix_iff_eq_take.mp (exploring_start exploring)]
          exact exact.visited
        · exact ⟨branch.node,exact.visited ▸ exact.known branch List.mem_cons_self,unnamed⟩
      · left
        refine ⟨_,visitFunction_named shallow (level_function here) unnamed room,?_⟩
        rw [records]
        exact expand_exact low cut start queue exact.tail (by omega)
    · left
      have here := last branch List.mem_cons_self
      refine ⟨_,visitFunction_deep (graphFunction_depth here).ge,.exact exact.tail ?_ bound⟩
      subst all
      exact .beyond (fun other member => last other (List.mem_cons_of_mem _ member))
  | @dropped i dropped =>
    obtain ⟨known,k,branch,here,rfl⟩ := dropped.pending function (front ▸ List.mem_cons_self)
    have rest : Dropped db direction request i { state with pending := pending } :=
      { dropped with pending := fun other member => dropped.pending other (front ▸ List.mem_cons_of_mem _ member) }
    by_cases deep : request.depth ≤ (graphFunction branch).depth
    · exact .inl ⟨_,visitFunction_deep deep,.dropped rest⟩
    · have low : k < request.depth := Nat.lt_of_not_le (graphFunction_depth here ▸ deep)
      by_cases unnamed : branch.node.symbol = []
      · right
        refine ⟨_,visitFunction_unnamed deep unnamed,
          .failed (Nat.le_succ_of_le dropped.early) dropped.visited dropped.full.le ?_⟩
        exact ⟨branch.node,known,unnamed⟩
      · left
        refine ⟨_,visitFunction_named deep (level_function here) unnamed room,.dropped (i := i) ?_⟩
        exact visitRecords_dropped rest low here _ (fun row member => List.mem_of_mem_take member)

section Fuel

def Traversal.work (request : GraphRequest) (state : Traversal) : Nat :=
  state.pending.length + (request.nodeLimit - state.visited.length)

theorem visitRecord_work (function : GraphFunction) (state : Traversal) (record : DbRecord) :
    (visitRecord direction request function state record).work request ≤ state.work request := by
  unfold visitRecord Traversal.work
  dsimp only
  split_ifs with back known full
  · exact Nat.le_refl _
  · exact Nat.le_refl _
  · exact Nat.le_refl _
  · simp only [List.length_append,List.length_singleton]
    omega

theorem visitRecords_work (function : GraphFunction) (state : Traversal) (records : List DbRecord) :
    (visitRecords direction request function state records).work request ≤ state.work request := by
  induction records generalizing state with
  | nil => exact Nat.le_refl _
  | cons record rest ih =>
    rw [visitRecords_cons]
    split
    · exact visitRecord_work function state record
    · exact (ih _).trans (visitRecord_work function state record)

theorem visitFunction_work (function : GraphFunction) (state : Traversal) :
    (visitFunction db direction request function state).2.work request ≤ state.work request := by
  unfold visitFunction
  split
  · exact Nat.le_refl _
  · dsimp only
    split
    · exact Nat.le_refl _
    · exact visitRecords_work function state _

end Fuel

theorem Running.finish (running : Running db direction request state)
    (done : state.pending = [] ∨ request.limit < state.records.length) :
    Finished db direction request .success state := by
  cases running with
  | full exact full => exact .exact exact
  | dropped dropped => exact .dropped dropped
  | @exact steps waiting exact exploring room =>
    have first := List.prefix_iff_eq_take.mp (exploring_start exploring)
    rcases done with empty | enough
    · rw [exact.pending,List.map_eq_nil_iff] at empty
      obtain rfl := exploring_end exploring empty
      refine @Finished.exact _ _ _ waiting state ?_
      rw [List.take_of_length_le room]
      exact exact
    · rw [exact.records,List.length_map] at enough
      have length : steps.length = request.limit + 1 := by omega
      rw [length] at first
      exact .exact (first ▸ exact)

/-- A traversal with fuel for its queue ends, with an explored prefix. -/
theorem traverse_finished {fuel : Nat} (running : Running db direction request state)
    (enough : state.work request ≤ fuel) :
    ∃ status after, traverse db direction request fuel state = some (status,after) ∧
      Finished db direction request status after := by
  induction fuel generalizing state with
  | zero =>
    have none : state.pending = [] := List.eq_nil_of_length_eq_zero (by unfold Traversal.work at enough; omega)
    refine ⟨.success,state,?_,running.finish (.inl none)⟩
    rw [traverse,none]
  | succ fuel ih =>
    rw [traverse]
    split
    · rename_i none
      exact ⟨.success,state,rfl,running.finish (.inl none)⟩
    · rename_i function pending front
      split
      · rename_i full
        exact ⟨.success,state,rfl,running.finish (.inr full)⟩
      · rename_i room
        have less := @visitFunction_work db direction request function
          { state with pending := pending }
        have taken : Traversal.work request { state with pending := pending } + 1 = state.work request := by
          simp only [Traversal.work,front,List.length_cons]
          omega
        rcases visitFunction_running running front room with ⟨after,turn,more⟩ | ⟨after,turn,failed⟩
        · rw [turn] at less ⊢
          dsimp only at less
          exact ih more (by omega)
        · rw [turn]
          exact ⟨_,_,rfl,failed⟩

theorem start_running : Running db direction request request.start := by
  have level : callLevel db direction request 0 = [] ++ [Branch.start request.root] := rfl
  refine @Running.exact _ _ _ _ [] [Branch.start request.root] ?_ ?_ (Nat.zero_le _)
  · exact {
      pending := rfl
      known := fun branch member => by
        obtain rfl := List.mem_singleton.mp member
        exact List.mem_cons_self
      visited := rfl
      records := rfl
      clear := rfl
      cycles := by simp [GraphRequest.start,TurnsBack]
      bounded := request.nodes.1 }
  · have first := Exploring.within (k := 0) request.deep.1 level
    simpa [leaving] using first

/-- The recursive query always ends, after at most `nodeLimit` functions. -/
theorem callRecords_finished (db : Db) (direction : CallDirection) (request : GraphRequest) :
    ∃ status state, callRecords db direction request = some (status,state) ∧
      Finished db direction request status state := by
  refine traverse_finished start_running ?_
  have nodes := request.nodes.1
  simp only [Traversal.work,GraphRequest.start,List.length_singleton]
  omega

end Run

end Simulation
end Semindex.Mcp
