import Semindex.Mcp.Requests
import Mathlib.Data.List.Nodup

/-! Every tool call that the MCP server accepts is answered once, whatever the order of
the steps of the reader, the workers, the timers and the clock. The invariant ties the
map of the requests to the workers that have not finished. -/
namespace Semindex.Mcp.Requests
open Semindex.Support

section Phases

def Phase.isAnswered : Phase → Bool
  | .closing | .closed | .answered | .finished => true
  | _ => false

def Phase.isFinished : Phase → Bool
  | .finished => true
  | _ => false

-- the worker waits for its timer
def Phase.joins : Phase → Bool
  | .completed _ | .closed => true
  | _ => false

/-- The tool has not returned. -/
def Phase.awaitsTool : Phase → Bool
  | .spawned | .parsing | .calling _ | .opening _ | .bound _ | .stopping | .running => true
  | _ => false

/-- The steps that are left to a worker and its timer. -/
def Phase.weight : Phase → Nat
  | .spawned => 15
  | .parsing => 12
  | .calling _ => 11
  | .opening _ => 10
  | .bound _ => 9
  | .stopping => 8
  | .running => 8
  | .returned _ => 7
  | .completed _ => 6
  | .joined _ => 5
  | .responding _ => 4
  | .failing _ _ => 5
  | .closing => 3
  | .closed => 2
  | .answered => 1
  | .finished => 0

def Timer.weight : Timer → Nat
  | .unborn => 0
  | .waiting => 2
  | .expired => 1
  | .done => 0

def Request.weight (r : Request) : Nat := r.phase.weight + r.timer.weight

structure Coherent (r : Request) : Prop where
  born : r.timer = .unborn → r.phase = .spawned
  completed : r.phase.joins = true → r.control.completed = true

/-- A step of the worker or the timer of a request, or of its clock, or its cancellation. -/
structure Moves (r next : Request) (body : Option Body) : Prop where
  id : next.id = r.id
  unfinished : next.phase.isFinished = r.phase.isFinished
  answered : next.phase.isAnswered = (r.phase.isAnswered || body.isSome)
  fresh : r.phase.isAnswered = true → body = none
  coherent : Coherent r → Coherent next

variable {services : Services} {choice : Choice} {r next : Request} {body : Option Body}

theorem moves_control {control : Control} (completed : control.completed = r.control.completed) :
    Moves r {r with control} none where
  id := rfl
  unfinished := rfl
  answered := (Bool.or_false _).symm
  fresh := fun _ => rfl
  coherent := fun coherent => ⟨coherent.born,fun joins => completed.trans (coherent.completed joins)⟩

theorem moves_time (step : r.time = some next) : Moves r next none := by
  unfold Request.time at step
  split at step
  · cases step
  · rename_i waiting
    split at step
    · obtain rfl := Option.some.inj step
      exact ⟨rfl,rfl,(Bool.or_false _).symm,fun _ => rfl,fun coherent => ⟨(fun unborn => by cases unborn),coherent.completed⟩⟩
    · split at step
      · obtain rfl := Option.some.inj step
        exact ⟨rfl,rfl,(Bool.or_false _).symm,fun _ => rfl,
          fun coherent => ⟨(fun unborn => by cases unborn),coherent.completed⟩⟩
      · cases step
  · obtain rfl := Option.some.inj step
    exact ⟨rfl,rfl,(Bool.or_false _).symm,fun _ => rfl,fun coherent => ⟨(fun unborn => by cases unborn),coherent.completed⟩⟩
  · cases step

theorem parsedCall_phase (services : Services) (payload : List Byte) :
    (∃ code message, parsedCall services payload = .failing code message) ∨
      ∃ name, parsedCall services payload = .calling name := by
  unfold parsedCall
  split
  · exact .inl ⟨_,_,rfl⟩
  · dsimp only
    split
    · exact .inl ⟨_,_,rfl⟩
    · split
      · exact .inl ⟨_,_,rfl⟩
      · split
        · exact .inl ⟨_,_,rfl⟩
        · exact .inr ⟨_,rfl⟩

/-- A step of a worker also leaves the flags of its request alone, and writes an error or what it has decided on. -/
structure Works (services : Services) (r next : Request) (body : Option Body) : Prop extends Moves r next body where
  weight : next.weight < r.weight
  cancelled : next.control.cancelled = r.control.cancelled
  timedOut : next.control.timedOut = r.control.timedOut
  decides : ∀ result, next.phase = .responding result → ∃ returned, result = decided r.control returned
  writes : ∀ answer, body = some answer → (∃ code message, answer = .error code message) ∨
    ∃ result, r.phase = .responding result ∧ answer = responseBody services result

theorem works_silent {phase : Phase} {control : Control} (less : phase.weight < r.phase.weight)
    (unfinished : phase.isFinished = r.phase.isFinished) (answered : phase.isAnswered = r.phase.isAnswered)
    (born : r.phase ≠ .spawned) (completed : phase.joins = true → control.completed = true)
    (cancelled : control.cancelled = r.control.cancelled) (timedOut : control.timedOut = r.control.timedOut)
    (decides : ∀ result, phase = .responding result → ∃ returned, result = decided r.control returned) :
    Works services r {r with phase, control} none where
  id := rfl
  unfinished := unfinished
  answered := answered.trans (Bool.or_false _).symm
  fresh := fun _ => rfl
  coherent := fun coherent => ⟨fun unborn => absurd (coherent.born unborn) born,completed⟩
  weight := Nat.add_lt_add_right less _
  cancelled := cancelled
  timedOut := timedOut
  decides := decides
  writes := by simp

theorem works_writes {phase : Phase} {answer : Body} (less : phase.weight < r.phase.weight)
    (unfinished : phase.isFinished = r.phase.isFinished) (answered : phase.isAnswered = true)
    (fresh : r.phase.isAnswered = false) (born : r.phase ≠ .spawned) (free : phase.joins = false)
    (writes : (∃ code message, answer = .error code message) ∨
      ∃ result, r.phase = .responding result ∧ answer = responseBody services result) :
    Works services r {r with phase} (some answer) where
  id := rfl
  unfinished := unfinished
  answered := answered.trans (Bool.or_true _).symm
  fresh := fun already => by rw [fresh] at already; cases already
  coherent := fun coherent =>
    ⟨fun unborn => absurd (coherent.born unborn) born,fun joins => by rw [free] at joins; cases joins⟩
  weight := Nat.add_lt_add_right less _
  cancelled := rfl
  timedOut := rfl
  decides := fun result same => by
    change phase = _ at same
    rw [same] at answered
    cases answered
  writes := fun given same => Option.some.inj same ▸ writes

-- the worker has started, and has not decided what to answer
def Phase.plain : Phase → Bool
  | .parsing | .calling _ | .opening _ | .bound _ | .stopping | .running | .returned _ | .failing _ _ => true
  | _ => false

theorem works_plain {phase : Phase} (before : r.phase.plain = true) (after : phase.plain = true)
    (less : phase.weight < r.phase.weight) : Works services r {r with phase} none := by
  have unfinished : ∀ phase : Phase, phase.plain = true → phase.isFinished = false ∧ phase.isAnswered = false ∧
      phase.joins = false ∧ phase ≠ .spawned ∧ ∀ result, phase ≠ .responding result := by
    intro phase plain
    cases phase with
    | parsing | calling _ | opening _ | bound _ | stopping | running | returned _ | failing _ _ =>
      exact ⟨rfl,rfl,rfl,by simp,by simp⟩
    | _ => cases plain
  obtain ⟨ended,silent,_,born,_⟩ := unfinished _ before
  obtain ⟨endedAfter,silentAfter,free,_,undecided⟩ := unfinished _ after
  exact works_silent less (endedAfter.trans ended.symm) (silentAfter.trans silent.symm) born
    (fun joins => by rw [free] at joins; cases joins) rfl rfl (fun result same => absurd same (undecided result))

/-- Every step of a worker. -/
theorem step_works (step : r.step services choice = some (next,body)) : Works services r next body := by
  unfold Request.step at step
  cases here : r.phase with
  | spawned =>
    simp only [here,Option.some.injEq,Prod.mk.injEq] at step
    obtain ⟨rfl,rfl⟩ := step
    refine ⟨⟨rfl,by rw [here]; rfl,by rw [here]; rfl,fun _ => rfl,?_⟩,?_,rfl,rfl,by simp,by simp⟩
    · intro _
      exact ⟨(fun unborn => by cases unborn),(fun joins => by cases joins)⟩
    · simp only [Request.weight,here,Phase.weight,Timer.weight]
      omega
  | parsing =>
    simp only [here,Option.some.injEq,Prod.mk.injEq] at step
    obtain ⟨rfl,rfl⟩ := step
    rcases parsedCall_phase services r.payload with ⟨code,message,phase⟩ | ⟨name,phase⟩
    · rw [phase]
      exact works_plain (by rw [here]; rfl) rfl (by rw [here]; simp [Phase.weight])
    · rw [phase]
      exact works_plain (by rw [here]; rfl) rfl (by rw [here]; simp [Phase.weight])
  | calling name =>
    have moves : ∀ {phase : Phase}, phase.plain = true → phase.weight < 11 → Works services r {r with phase} none :=
      fun plain less => works_plain (by rw [here]; rfl) plain (by rw [here]; exact less)
    simp only [here] at step
    split at step
    · obtain ⟨rfl,rfl⟩ := Prod.mk.inj (Option.some.inj step)
      exact moves rfl (by simp [Phase.weight])
    · split at step
      · split at step
        · obtain ⟨rfl,rfl⟩ := Prod.mk.inj (Option.some.inj step)
          exact moves rfl (by simp [Phase.weight])
        · obtain ⟨rfl,rfl⟩ := Prod.mk.inj (Option.some.inj step)
          exact moves rfl (by simp [Phase.weight])
      · obtain ⟨rfl,rfl⟩ := Prod.mk.inj (Option.some.inj step)
        exact moves rfl (by simp [Phase.weight])
  | opening name =>
    have moves : ∀ {phase : Phase}, phase.plain = true → phase.weight < 10 → Works services r {r with phase} none :=
      fun plain less => works_plain (by rw [here]; rfl) plain (by rw [here]; exact less)
    simp only [here] at step
    split at step
    · obtain ⟨rfl,rfl⟩ := Prod.mk.inj (Option.some.inj step)
      exact moves rfl (by simp [Phase.weight])
    · obtain ⟨rfl,rfl⟩ := Prod.mk.inj (Option.some.inj step)
      exact moves rfl (by simp [Phase.weight])
  | bound name =>
    have moves : ∀ {phase : Phase}, phase.plain = true → phase.weight < 9 → Works services r {r with phase} none :=
      fun plain less => works_plain (by rw [here]; rfl) plain (by rw [here]; exact less)
    simp only [here] at step
    split at step
    · obtain ⟨rfl,rfl⟩ := Prod.mk.inj (Option.some.inj step)
      exact moves rfl (by simp [Phase.weight])
    · split at step
      · obtain ⟨rfl,rfl⟩ := Prod.mk.inj (Option.some.inj step)
        exact moves rfl (by simp [Phase.weight])
      · obtain ⟨rfl,rfl⟩ := Prod.mk.inj (Option.some.inj step)
        exact moves rfl (by simp [Phase.weight])
  | stopping | running =>
    simp only [here,Option.some.injEq,Prod.mk.injEq] at step
    obtain ⟨rfl,rfl⟩ := step
    exact works_plain (by rw [here]; rfl) rfl (by rw [here]; simp [Phase.weight])
  | returned result | closing =>
    simp only [here,Option.some.injEq,Prod.mk.injEq] at step
    obtain ⟨rfl,rfl⟩ := step
    exact works_silent (by rw [here]; simp [Phase.weight]) (by rw [here]; rfl) (by rw [here]; rfl) (by simp [here])
      (fun _ => rfl) rfl rfl (by simp)
  | completed result | closed =>
    simp only [here] at step
    split at step
    · obtain ⟨rfl,rfl⟩ := Prod.mk.inj (Option.some.inj step)
      exact works_silent (by rw [here]; simp [Phase.weight]) (by rw [here]; rfl) (by rw [here]; rfl) (by simp [here])
        (fun joins => by cases joins) rfl rfl (by simp)
    · cases step
  | joined result =>
    simp only [here,Option.some.injEq,Prod.mk.injEq] at step
    obtain ⟨rfl,rfl⟩ := step
    exact works_silent (by rw [here]; simp [Phase.weight]) (by rw [here]; rfl) (by rw [here]; rfl) (by simp [here])
      (fun joins => by cases joins) rfl rfl (fun given same => ⟨result,(Phase.responding.inj same).symm⟩)
  | responding result =>
    simp only [here,Option.some.injEq,Prod.mk.injEq] at step
    obtain ⟨rfl,rfl⟩ := step
    exact works_writes (by rw [here]; simp [Phase.weight]) (by rw [here]; rfl) rfl (by rw [here]; rfl) (by simp [here]) rfl
      (.inr ⟨result,here,rfl⟩)
  | failing code message =>
    simp only [here,Option.some.injEq,Prod.mk.injEq] at step
    obtain ⟨rfl,rfl⟩ := step
    exact works_writes (by rw [here]; simp [Phase.weight]) (by rw [here]; rfl) rfl (by rw [here]; rfl) (by simp [here]) rfl
      (.inl ⟨code,message,rfl⟩)
  | answered | finished =>
    simp only [here] at step
    cases step

end Phases

section Invariant

/-- What the worker of an accepted request has written. -/
def answersOf (s : Server) (n : Nat) : List Written := s.written.filter (fun w => w.origin = some n)

/-- One response, with the request's id. -/
def Answered (s : Server) (n : Nat) (r : Request) : Prop := ∃ body, answersOf s n = [⟨some r.id,body,some n⟩]

/-- The request is in the map. -/
def InFlight (s : Server) (n : Nat) (r : Request) : Prop := s.accepted[n]? = some r ∧ (r.id.key,n) ∈ s.requests

structure Inv (s : Server) : Prop where
  keys : (s.requests.map Prod.fst).Nodup
  listed : ∀ key n, (key,n) ∈ s.requests ↔ ∃ r, s.accepted[n]? = some r ∧ r.id.key = key ∧ r.phase.isFinished = false
  answers : ∀ n r, s.accepted[n]? = some r →
    (r.phase.isAnswered = true → Answered s n r) ∧ (r.phase.isAnswered = false → answersOf s n = [])
  origins : ∀ w ∈ s.written, ∀ n, w.origin = some n → n < s.accepted.length
  coherent : ∀ r ∈ s.accepted, Coherent r
  running : s.accepted ≠ [] → s.state = .running
  returned : ∀ status, s.reader = .returned status → s.requests = []

variable {services : Services} {s t : Server} {n : Nat} {r next : Request} {body : Option Body}

theorem inv_new : Inv .new where
  keys := List.nodup_nil
  listed := by simp [Server.new]
  answers := by simp [Server.new]
  origins := by simp [Server.new]
  coherent := by simp [Server.new]
  running := by simp [Server.new]
  returned := by simp [Server.new]

theorem answersOf_write (id : Option RequestId) (answer : Body) : answersOf (s.write id answer) n = answersOf s n := by
  simp [answersOf,Server.write]

theorem Inv.write (inv : Inv s) (id : Option RequestId) (answer : Body) : Inv (s.write id answer) where
  keys := inv.keys
  listed := inv.listed
  answers := fun n r found => by
    unfold Answered
    rw [answersOf_write]
    exact inv.answers n r found
  origins := fun w member m origin => by
    rcases List.mem_append.mp member with old | new
    · exact inv.origins w old m origin
    · rw [List.mem_singleton.mp new] at origin
      cases origin
  coherent := inv.coherent
  running := inv.running
  returned := inv.returned

/-- The server after a step of one request. -/
def Server.moved (s : Server) (n : Nat) (r next : Request) (body : Option Body) : Server :=
  {s.modify n (fun _ => next) with written := s.written ++ body.toList.map (fun body => ⟨some r.id,body,some n⟩)}

theorem accepted_moved (m : Nat) : (s.moved n r next body).accepted[m]? =
    if n = m then (s.accepted[m]?).map (fun _ => next) else s.accepted[m]? := by
  rw [Server.moved,Server.modify,List.getElem?_modify]
  cases s.accepted[m]? <;> split <;> rfl

theorem answersOf_moved (m : Nat) : answersOf (s.moved n r next body) m =
    answersOf s m ++ if n = m then body.toList.map (fun body => ⟨some r.id,body,some n⟩) else [] := by
  unfold answersOf Server.moved
  rw [List.filter_append]
  cases body with
  | none => simp
  | some body =>
    by_cases same : n = m
    · simp [same]
    · simp [same]

theorem Inv.moved (inv : Inv s) (found : s.accepted[n]? = some r) (moves : Moves r next body) :
    Inv (s.moved n r next body) where
  keys := inv.keys
  listed := by
    intro key m
    change (key,m) ∈ s.requests ↔ _
    rw [inv.listed,accepted_moved]
    split
    · rename_i same
      subst same
      simp [found,moves.id,moves.unfinished]
    · rfl
  answers := by
    intro m q
    rw [accepted_moved]
    unfold Answered
    rw [answersOf_moved]
    split
    · rename_i same
      subst same
      rw [found,Option.map_some,Option.some.injEq]
      intro is
      subst is
      obtain ⟨done,silent⟩ := inv.answers n r found
      rw [moves.answered,moves.id]
      cases answered : r.phase.isAnswered with
      | true =>
        obtain ⟨answer,one⟩ := done answered
        rw [moves.fresh answered]
        exact ⟨fun _ => ⟨answer,by simp [one]⟩,(fun unanswered => by cases unanswered)⟩
      | false =>
        rw [silent answered]
        cases body with
        | none => exact ⟨(fun answered => by cases answered),fun _ => rfl⟩
        | some body => exact ⟨fun _ => ⟨body,rfl⟩,(fun unanswered => by cases unanswered)⟩
    · simp only [List.append_nil]
      exact inv.answers m q
  origins := by
    intro w member m origin
    rw [Server.moved,Server.modify,List.length_modify]
    rcases List.mem_append.mp member with old | new
    · exact inv.origins w old m origin
    · obtain ⟨answer,_,rfl⟩ := List.mem_map.mp new
      obtain rfl := Option.some.inj origin
      exact (List.getElem?_eq_some_iff.mp found).1
  coherent := by
    intro q member
    obtain ⟨m,atM⟩ := List.getElem?_of_mem member
    rw [accepted_moved] at atM
    split at atM
    · rename_i same
      subst same
      rw [found] at atM
      obtain rfl := Option.some.inj atM
      exact moves.coherent (inv.coherent r (List.mem_of_getElem? found))
    · exact inv.coherent q (List.mem_of_getElem? atM)
  running := by
    intro _
    apply inv.running
    intro none
    rw [none] at found
    cases found
  returned := inv.returned

theorem moved_silent (found : s.accepted[n]? = some r) (f : Request → Request) :
    s.modify n f = s.moved n r (f r) none := by
  have same : s.accepted.modify n f = s.accepted.modify n (fun _ => f r) := by
    apply List.ext_getElem?
    intro m
    rw [List.getElem?_modify,List.getElem?_modify]
    by_cases here : n = m
    · subst here
      rw [found]
      rfl
    · simp [here]
  simp [Server.moved,Server.modify,same]

/-- A step that changes flags of one request only, or nothing where there is none. -/
theorem Inv.modify (inv : Inv s) (n : Nat) {f : Request → Request} (moves : ∀ r, Moves r (f r) none) :
    Inv (s.modify n f) := by
  cases found : s.accepted[n]? with
  | none =>
    have same : s.modify n f = s := by
      have outside := List.getElem?_eq_none_iff.mp found
      simp [Server.modify,List.modify_eq_self outside]
    rw [same]
    exact inv
  | some r =>
    rw [moved_silent found]
    exact inv.moved found (moves r)

theorem Inv.cancel (inv : Inv s) (n : Nat) : Inv (s.cancel n) := inv.modify n (fun _ => moves_control rfl)

theorem find_none {key : Text} (unknown : s.find key = none) : key ∉ s.requests.map Prod.fst := by
  intro member
  obtain ⟨entry,inside,rfl⟩ := List.mem_map.mp member
  have absent := List.find?_eq_none.mp (Option.map_eq_none_iff.mp unknown) entry inside
  simp at absent

theorem find_mem {key : Text} (found : s.find key = some n) : (key,n) ∈ s.requests := by
  obtain ⟨entry,isFirst,rfl⟩ := Option.map_eq_some_iff.mp found
  have same : entry.1 = key := by simpa using List.find?_some isFirst
  rw [← same]
  exact List.mem_of_find?_eq_some isFirst

theorem Inv.key_unique (inv : Inv s) {key : Text} {n m : Nat} (first : (key,n) ∈ s.requests)
    (second : (key,m) ∈ s.requests) : n = m := by
  have same := List.inj_on_of_nodup_map inv.keys first second rfl
  exact (Prod.mk.inj same).2

def Server.finish (s : Server) (n : Nat) (r : Request) : Server :=
  {s.modify n (fun r => {r with phase := .finished}) with requests := s.requests.filter (fun entry => entry.1 ≠ r.id.key)}

theorem accepted_finish (m : Nat) (found : s.accepted[n]? = some r) : (s.finish n r).accepted[m]? =
    if n = m then some {r with phase := .finished} else s.accepted[m]? := by
  rw [Server.finish,Server.modify,List.getElem?_modify]
  split
  · rename_i same
    subst same
    rw [found]
    rfl
  · simp

theorem Inv.finish (inv : Inv s) (found : s.accepted[n]? = some r) (phase : r.phase = .answered) : Inv (s.finish n r) where
  keys := (inv.keys.sublist (List.Sublist.map Prod.fst List.filter_sublist))
  listed := by
    intro key m
    have here : (r.id.key,n) ∈ s.requests := (inv.listed _ _).mpr ⟨r,found,rfl,by rw [phase]; rfl⟩
    change (key,m) ∈ s.requests.filter (fun entry => entry.1 ≠ r.id.key) ↔ _
    rw [List.mem_filter,accepted_finish m found]
    constructor
    · intro ⟨member,other⟩
      obtain ⟨q,atM,isKey,open'⟩ := (inv.listed key m).mp member
      have away : n ≠ m := by
        intro same
        subst same
        rw [found] at atM
        obtain rfl := Option.some.inj atM
        simp [isKey] at other
      exact ⟨q,by rw [if_neg away,atM],isKey,open'⟩
    · intro ⟨q,atM,isKey,open'⟩
      split at atM
      · obtain rfl := Option.some.inj atM
        cases open'
      · rename_i away
        have member := (inv.listed key m).mpr ⟨q,atM,isKey,open'⟩
        refine ⟨member,?_⟩
        simp only [decide_eq_true_eq]
        intro same
        subst same
        exact away (inv.key_unique here member)
  answers := by
    intro m q atM
    rw [accepted_finish m found] at atM
    change (_ → Answered s m q) ∧ (_ → answersOf s m = [])
    split at atM
    · rename_i same
      subst same
      obtain rfl := Option.some.inj atM
      exact ⟨fun _ => (inv.answers n r found).1 (by rw [phase]; rfl),(fun unanswered => by cases unanswered)⟩
    · exact inv.answers m q atM
  origins := by
    intro w member m origin
    rw [Server.finish,Server.modify,List.length_modify]
    exact inv.origins w member m origin
  coherent := by
    intro q member
    obtain ⟨m,atM⟩ := List.getElem?_of_mem member
    rw [accepted_finish m found] at atM
    split at atM
    · obtain rfl := Option.some.inj atM
      have coherent := inv.coherent r (List.mem_of_getElem? found)
      refine ⟨fun unborn => ?_,(fun joins => by cases joins)⟩
      have spawned := coherent.born unborn
      rw [phase] at spawned
      cases spawned
    · exact inv.coherent q (List.mem_of_getElem? atM)
  running := by
    intro _
    apply inv.running
    intro none
    rw [none] at found
    cases found
  returned := by
    intro status returned
    have none := inv.returned status returned
    simp [Server.finish,none]

/-- A call that is accepted joins the map and the requests. -/
def Server.accept (s : Server) (id : RequestId) (payload : List Byte) : Server :=
  {s with requests := s.requests ++ [(id.key,s.accepted.length)],
          accepted := s.accepted ++ [⟨id,payload,.new,.spawned,.unborn⟩]}

theorem Inv.accept (inv : Inv s) {id : RequestId} {payload : List Byte} (unknown : s.find id.key = none)
    (running : s.state = .running) (reading : s.reader = .reading) : Inv (s.accept id payload) where
  keys := by
    change ((s.requests ++ [(id.key,s.accepted.length)]).map Prod.fst).Nodup
    rw [List.map_append]
    exact List.Nodup.append inv.keys (List.nodup_singleton _) (List.disjoint_singleton.mpr (find_none unknown))
  listed := by
    intro key m
    change (key,m) ∈ s.requests ++ [(id.key,s.accepted.length)] ↔ ∃ r, (s.accepted ++ [_])[m]? = some r ∧ _
    rw [List.mem_append,inv.listed,List.mem_singleton,List.getElem?_append]
    split
    · rename_i inside
      have other : ¬ (key,m) = (id.key,s.accepted.length) := by
        intro same
        exact inside.ne (Prod.mk.inj same).2
      simp [other]
    · rename_i outside
      have none : s.accepted[m]? = none := List.getElem?_eq_none_iff.mpr (Nat.le_of_not_lt outside)
      rw [none]
      by_cases last : m = s.accepted.length
      · subst last
        rw [Nat.sub_self]
        constructor
        · intro new
          rcases new with ⟨r,absent,_⟩ | same
          · cases absent
          · exact ⟨_,rfl,(Prod.mk.inj same).1.symm,rfl⟩
        · intro ⟨r,same,isKey,_⟩
          obtain rfl := Option.some.inj same
          exact .inr (by rw [← isKey])
      · obtain ⟨k,more⟩ : ∃ k, m - s.accepted.length = k + 1 := ⟨m - s.accepted.length - 1,by omega⟩
        simp [last,more]
  answers := by
    intro m q atM
    change (_ → Answered s m q) ∧ (_ → answersOf s m = [])
    change (s.accepted ++ [_])[m]? = some q at atM
    rw [List.getElem?_append] at atM
    split at atM
    · exact inv.answers m q atM
    · rename_i outside
      have new := List.mem_singleton.mp (List.mem_of_getElem? atM)
      subst new
      refine ⟨(fun answered => by cases answered),fun _ => ?_⟩
      apply List.filter_eq_nil_iff.mpr
      intro w member
      rw [decide_eq_true_eq]
      intro origin
      exact outside (inv.origins w member m origin)
  origins := by
    intro w member m origin
    have bound := inv.origins w member m origin
    change m < (s.accepted ++ [_]).length
    rw [List.length_append]
    exact Nat.lt_add_right _ bound
  coherent := by
    intro q member
    rcases List.mem_append.mp member with old | new
    · exact inv.coherent q old
    · rw [List.mem_singleton.mp new]
      exact ⟨fun _ => rfl,(fun joins => by cases joins)⟩
  running := fun _ => running
  returned := by
    intro status returned
    change s.reader = _ at returned
    rw [reading] at returned
    cases returned

/-- What the reader does with a payload. -/
inductive Handles (s : Server) (payload : List Byte) : Server → Prop where
  | ignores : Handles s payload s
  | writes (id : Option RequestId) (body : Body) : Handles s payload (s.write id body)
  | greets (state : s.state = .uninitialized) (id : Option RequestId) (body : Body) :
      Handles s payload ({s with state := .awaitingInitialized}.write id body)
  | starts (state : s.state = .awaitingInitialized) : Handles s payload {s with state := .running}
  | cancels {key : Text} {n : Nat} (found : s.find key = some n) : Handles s payload (s.cancel n)
  | accepts {id : RequestId} (unknown : s.find id.key = none) (state : s.state = .running) :
      Handles s payload (s.accept id payload)

theorem handles_refuse (payload : List Byte) (id : Option RequestId) (code : Int) (message : String) :
    Handles s payload (refuse s id code message) := by
  cases id with
  | none => exact .ignores
  | some id => exact .writes ..

theorem handles_greet (payload : List Byte) (id : RequestId) (params : Option Members) :
    Handles s payload (greet services s id params) := by
  unfold greet
  split
  · exact .writes ..
  · split
    · exact .writes ..
    · rename_i state
      split
      · exact .writes ..
      · split
        · exact .writes ..
        · exact .greets (not_not.mp state) ..

theorem handles_callTool (payload : List Byte) (id : RequestId) (params : Option Members) (state : s.state = .running) :
    Handles s payload (callTool s id params payload) := by
  unfold callTool
  split
  · exact .writes ..
  · split
    · exact .writes ..
    · rename_i unknown
      exact .accepts (Option.not_isSome_iff_eq_none.mp unknown) state

theorem handles_cancelRequest (payload : List Byte) (params : Option Members) :
    Handles s payload (cancelRequest services s params) := by
  unfold cancelRequest
  split
  · exact .ignores
  · split
    · exact .ignores
    · rename_i found
      exact .cancels found

theorem handles_running (m : Message) (payload : List Byte) (state : s.state = .running) :
    Handles s payload (serveRunning services s m payload) := by
  unfold serveRunning
  split
  · unfold listTools
    split
    · exact .writes ..
    · exact .writes ..
  · exact .ignores
  · exact handles_callTool payload _ _ state
  · exact .ignores
  · exact handles_refuse ..

theorem handles_serve (m : Message) (payload : List Byte) : Handles s payload (serve services s m payload) := by
  unfold serve
  split
  · split
    · exact .writes ..
    · exact handles_cancelRequest ..
  · split
    · exact handles_greet ..
    · exact .writes ..
  · split
    · exact .writes ..
    · exact .ignores
  · split
    · exact handles_refuse ..
    · rename_i awaiting
      split
      · split
        · exact .writes ..
        · exact .starts awaiting
      · exact handles_refuse ..
    · rename_i running
      split
      · exact handles_refuse ..
      · exact handles_running _ _ running

theorem handles_handle (s : Server) (payload : List Byte) : Handles s payload (handle services s payload) := by
  unfold handle
  split
  · exact .writes ..
  · split
    · exact .writes ..
    · exact handles_serve ..

/-- A server that has accepted nothing may be in any state. -/
theorem Inv.restate (inv : Inv s) (idle : s.state ≠ .running) (state : State) : Inv {s with state} where
  keys := inv.keys
  listed := inv.listed
  answers := inv.answers
  origins := inv.origins
  coherent := inv.coherent
  running := fun busy => absurd (inv.running busy) idle
  returned := inv.returned

theorem Inv.reader (inv : Inv s) (reader : Reader) (failed : Bool)
    (returned : ∀ status, reader = .returned status → s.requests = []) :
    Inv {s with reader, transportFailed := failed} where
  keys := inv.keys
  listed := inv.listed
  answers := inv.answers
  origins := inv.origins
  coherent := inv.coherent
  running := inv.running
  returned := returned

theorem Inv.handle (inv : Inv s) (reading : s.reader = .reading) (payload : List Byte) :
    Inv (handle services s payload) := by
  have handles := @handles_handle services s payload
  generalize Requests.handle services s payload = t at handles ⊢
  cases handles with
  | ignores => exact inv
  | writes id body => exact inv.write id body
  | greets state id body => exact (inv.restate (by rw [state]; decide) _).write id body
  | starts state => exact inv.restate (by rw [state]; decide) _
  | cancels found => exact inv.cancel _
  | accepts unknown state => exact inv.accept unknown state reading

theorem Inv.stop (inv : Inv s) (step : s.stop = some t) : Inv t := by
  unfold Server.stop at step
  split at step
  · cases step
  · split at step
    · obtain rfl := Option.some.inj step
      exact inv.reader _ _ (fun _ returned => by cases returned)
    · obtain rfl := Option.some.inj step
      exact inv.reader _ s.transportFailed (fun _ returned => by cases returned)
  · obtain rfl := Option.some.inj step
    exact inv.reader _ s.transportFailed (fun _ returned => by cases returned)
  · obtain rfl := Option.some.inj step
    exact (inv.cancel _).reader _ s.transportFailed (fun _ returned => by cases returned)
  · split at step
    · rename_i none
      obtain rfl := Option.some.inj step
      exact inv.reader _ s.transportFailed (fun _ _ => none)
    · cases step
  · cases step

/-- What a step of a worker does: it moves its request, or it is the last and takes it out of the map. -/
theorem work_cases {choice : Choice} (step : s.work services n choice = some t) :
    ∃ r, s.accepted[n]? = some r ∧ ((r.phase = .answered ∧ s.reader.locked = false ∧ t = s.finish n r) ∨
      ∃ next body, r.step services choice = some (next,body) ∧ t = s.moved n r next body) := by
  unfold Server.work at step
  split at step
  · cases step
  · rename_i r found
    refine ⟨r,found,?_⟩
    split at step
    · rename_i phase
      split at step
      · cases step
      · rename_i unlocked
        obtain rfl := Option.some.inj step
        exact .inl ⟨phase,Bool.eq_false_iff.mpr unlocked,rfl⟩
    · obtain ⟨⟨next,body⟩,moved,rfl⟩ := Option.map_eq_some_iff.mp step
      exact .inr ⟨next,body,moved,rfl⟩

theorem Inv.step (inv : Inv s) {e : Event} (step : s.step services e = some t) : Inv t := by
  unfold Server.step at step
  cases e with
  | read result =>
    simp only at step
    split at step
    · cases step
    · rename_i reading
      have reading := not_not.mp reading
      cases result with
      | message payload =>
        obtain rfl := Option.some.inj step
        exact inv.handle reading payload
      | endOfFile =>
        obtain rfl := Option.some.inj step
        exact inv.reader _ s.transportFailed (fun _ returned => by cases returned)
      | error =>
        obtain rfl := Option.some.inj step
        exact inv.reader _ true (fun _ returned => by cases returned)
  | stop => exact inv.stop step
  | clock n =>
    obtain rfl := Option.some.inj step
    exact inv.modify n (fun _ => moves_control rfl)
  | worker n choice =>
    obtain ⟨r,found,⟨phase,_,rfl⟩ | ⟨next,body,moved,rfl⟩⟩ := work_cases step
    · exact inv.finish found phase
    · exact inv.moved found (step_works moved).toMoves
  | timer n =>
    obtain ⟨next,timed,rfl⟩ := Option.map_eq_some_iff.mp step
    obtain ⟨r,found,moved⟩ := Option.bind_eq_some_iff.mp timed
    have silent := inv.moved found (moves_time moved)
    rw [← moved_silent found (fun _ => next)] at silent
    exact silent

theorem run_cons (e : Event) (events : List Event) :
    s.run services (e::events) = (s.step services e).bind (fun s => s.run services events) := rfl

theorem Inv.run (inv : Inv s) {events : List Event} (ran : s.run services events = some t) : Inv t := by
  induction events generalizing s with
  | nil =>
    obtain rfl := Option.some.inj ran
    exact inv
  | cons e events ih =>
    rw [run_cons] at ran
    obtain ⟨u,step,rest⟩ := Option.bind_eq_some_iff.mp ran
    exact ih (inv.step step) rest

end Invariant

section Evolution
variable {services : Services} {s t : Server} {n : Nat} {r next : Request} {body : Option Body} {e : Event}
  {events : List Event}

/-- What a step of the server can do to an accepted request, and what is written for it. -/
inductive Evolves (services : Services) (r : Request) : Request → Option Body → Prop where
  | control {control : Control} (cancelled : r.control.cancelled = true → control.cancelled = true)
      (timedOut : control.timedOut = r.control.timedOut) : Evolves services r {r with control} none
  | timer {next : Request} (step : r.time = some next) : Evolves services r next none
  | worker {next : Request} {body : Option Body} {choice : Choice} (step : r.step services choice = some (next,body)) :
      Evolves services r next body
  | finish (phase : r.phase = .answered) : Evolves services r {r with phase := .finished} none

/-- The request `n` afterwards, and its answers. -/
def Becomes (s t : Server) (n : Nat) (r next : Request) (body : Option Body) : Prop :=
  t.accepted[n]? = some next ∧ answersOf t n = answersOf s n ++ body.toList.map (fun body => ⟨some r.id,body,some n⟩)

theorem evolves_same (r : Request) : Evolves services r r none := .control id rfl

theorem becomes_other {m : Nat} {q : Request} (other : m ≠ n) (found : s.accepted[n]? = some r) :
    Becomes s (s.moved m q next body) n r r none := by
  refine ⟨?_,?_⟩
  · rw [accepted_moved,if_neg other,found]
  · rw [answersOf_moved,if_neg other]
    rfl

theorem becomes_moved (found : s.accepted[n]? = some r) : Becomes s (s.moved n r next body) n r next body := by
  refine ⟨?_,?_⟩
  · rw [accepted_moved,if_pos rfl,found]
    rfl
  · rw [answersOf_moved,if_pos rfl]

/-- A change of the flags of a request. -/
theorem becomes_modify {f : Request → Request} (m : Nat) (found : s.accepted[n]? = some r)
    (evolves : Evolves services r (f r) none) : ∃ next body, Becomes s (s.modify m f) n r next body ∧
      Evolves services r next body := by
  by_cases here : m = n
  · subst here
    rw [moved_silent found]
    exact ⟨_,_,becomes_moved found,evolves⟩
  · refine ⟨r,none,⟨?_,?_⟩,evolves_same r⟩
    · rw [Server.modify,List.getElem?_modify,found]
      simp [here]
    · simp [answersOf,Server.modify]

theorem becomes_handle (payload : List Byte) (found : s.accepted[n]? = some r) :
    ∃ next body, Becomes s (handle services s payload) n r next body ∧ Evolves services r next body := by
  have handles := @handles_handle services s payload
  generalize handle services s payload = t at handles ⊢
  cases handles with
  | ignores => exact ⟨r,none,⟨found,by simp⟩,evolves_same r⟩
  | writes id body => exact ⟨r,none,⟨found,by rw [answersOf_write]; simp⟩,evolves_same r⟩
  | greets state id body =>
    refine ⟨r,none,⟨found,?_⟩,evolves_same r⟩
    rw [answersOf_write]
    simp [answersOf]
  | starts state => exact ⟨r,none,⟨found,by simp [answersOf]⟩,evolves_same r⟩
  | cancels _ => exact becomes_modify _ found (.control (fun _ => rfl) rfl)
  | accepts unknown state =>
    refine ⟨r,none,⟨?_,?_⟩,evolves_same r⟩
    · have inside := (List.getElem?_eq_some_iff.mp found).1
      rw [Server.accept,List.getElem?_append_left inside]
      exact found
    · simp [answersOf,Server.accept]

theorem becomes_stop (found : s.accepted[n]? = some r) (step : s.stop = some t) :
    ∃ next body, Becomes s t n r next body ∧ Evolves services r next body := by
  have same : ∀ reader, Becomes s {s with reader} n r r none := fun reader => ⟨found,by simp [answersOf]⟩
  unfold Server.stop at step
  split at step
  · cases step
  · split at step
    · obtain rfl := Option.some.inj step
      exact ⟨r,none,same _,evolves_same r⟩
    · obtain rfl := Option.some.inj step
      exact ⟨r,none,same _,evolves_same r⟩
  · obtain rfl := Option.some.inj step
    exact ⟨r,none,same _,evolves_same r⟩
  · obtain rfl := Option.some.inj step
    exact becomes_modify _ found (.control (fun _ => rfl) rfl)
  · split at step
    · obtain rfl := Option.some.inj step
      exact ⟨r,none,same _,evolves_same r⟩
    · cases step
  · cases step

/-- A step of the server is at most one step of a request. -/
theorem step_request (found : s.accepted[n]? = some r) (step : s.step services e = some t) :
    ∃ next body, Becomes s t n r next body ∧ Evolves services r next body := by
  unfold Server.step at step
  cases e with
  | read result =>
    simp only at step
    split at step
    · cases step
    · cases result with
      | message payload =>
        obtain rfl := Option.some.inj step
        exact becomes_handle payload found
      | endOfFile =>
        obtain rfl := Option.some.inj step
        exact ⟨r,none,⟨found,by simp [answersOf]⟩,evolves_same r⟩
      | error =>
        obtain rfl := Option.some.inj step
        exact ⟨r,none,⟨found,by simp [answersOf]⟩,evolves_same r⟩
  | stop => exact becomes_stop found step
  | clock m =>
    obtain rfl := Option.some.inj step
    exact becomes_modify m found (.control id rfl)
  | worker m choice =>
    obtain ⟨q,atM,⟨phase,_,rfl⟩ | ⟨next,body,moved,rfl⟩⟩ := work_cases step
    · by_cases here : m = n
      · subst here
        rw [found] at atM
        obtain rfl := Option.some.inj atM
        exact ⟨_,none,⟨by rw [accepted_finish _ found,if_pos rfl],by simp [answersOf,Server.finish,Server.modify]⟩,.finish phase⟩
      · exact ⟨r,none,⟨by rw [accepted_finish _ atM,if_neg here,found],by simp [answersOf,Server.finish,Server.modify]⟩,
          evolves_same r⟩
    · by_cases here : m = n
      · subst here
        rw [found] at atM
        obtain rfl := Option.some.inj atM
        exact ⟨next,body,becomes_moved found,.worker moved⟩
      · exact ⟨r,none,becomes_other here found,evolves_same r⟩
  | timer m =>
    obtain ⟨next,timed,rfl⟩ := Option.map_eq_some_iff.mp step
    obtain ⟨q,atM,moved⟩ := Option.bind_eq_some_iff.mp timed
    rw [moved_silent atM (fun _ => next)]
    by_cases here : m = n
    · subst here
      rw [found] at atM
      obtain rfl := Option.some.inj atM
      exact ⟨next,none,becomes_moved found,.timer moved⟩
    · exact ⟨r,none,becomes_other here found,evolves_same r⟩

theorem weight_time (step : r.time = some next) : next.weight < r.weight := by
  unfold Request.time at step
  unfold Request.weight
  split at step
  · cases step
  · rename_i waiting
    split at step
    · obtain rfl := Option.some.inj step
      simp [waiting,Timer.weight]
    · split at step
      · obtain rfl := Option.some.inj step
        simp [waiting,Timer.weight]
      · cases step
  · rename_i expired
    obtain rfl := Option.some.inj step
    simp [expired,Timer.weight]
  · cases step

/-- A worker that does not wait for its timer can go on. -/
theorem step_ready (choice : Choice) (free : r.phase.joins = false) (unanswered : r.phase ≠ .answered)
    (unfinished : r.phase.isFinished = false) : (r.step services choice).isSome := by
  unfold Request.step
  cases here : r.phase with
  | completed result | closed =>
    rw [here] at free
    cases free
  | answered => exact absurd here unanswered
  | finished =>
    rw [here] at unfinished
    cases unfinished
  | calling name =>
    dsimp only
    split
    · rfl
    · split
      · split <;> rfl
      · rfl
  | opening name =>
    dsimp only
    split <;> rfl
  | bound name =>
    dsimp only
    split
    · rfl
    · split <;> rfl
  | _ => rfl

theorem work_moved {choice : Choice} (found : s.accepted[n]? = some r) (step : r.step services choice = some (next,body)) :
    s.step services (.worker n choice) = some (s.moved n r next body) := by
  change s.work services n choice = _
  unfold Server.work
  rw [found]
  dsimp only
  split
  · rename_i answered
    simp [Request.step,answered] at step
  · rw [step]
    rfl

theorem timer_moved (found : s.accepted[n]? = some r) (step : r.time = some next) :
    s.step services (.timer n) = some (s.moved n r next none) := by
  change (s.accepted[n]?.bind Request.time).map (fun r => s.modify n (fun _ => r)) = _
  rw [found,Option.bind_some,step,Option.map_some,moved_silent found (fun _ => next)]

def Reader.left : Reader → Nat
  | .cancelling rest => rest.length + 1
  | _ => 0

theorem locked_stops (locked : s.reader.locked = true) :
    ∃ t, s.stop = some t ∧ t.reader.left < s.reader.left ∧ ∀ (n : Nat) (r : Request), s.accepted[n]? = some r →
      ∃ next : Request, t.accepted[n]? = some next ∧ next.id = r.id ∧ next.weight = r.weight := by
  unfold Server.stop
  cases reader : s.reader with
  | cancelling rest =>
    cases rest with
    | nil => exact ⟨_,rfl,by simp [Reader.left],fun n r found => ⟨r,found,rfl,rfl⟩⟩
    | cons m rest =>
      refine ⟨_,rfl,by simp [Reader.left],fun n r found => ?_⟩
      refine ⟨if m = n then {r with control := r.control.cancel} else r,?_,?_⟩
      · rw [Server.cancel,Server.modify,List.getElem?_modify,found]
        rfl
      · split
        · exact ⟨rfl,rfl⟩
        · exact ⟨rfl,rfl⟩
  | _ =>
    rw [reader] at locked
    cases locked

/-- Until a request is finished some thread can bring it nearer to that. -/
theorem request_proceeds (inv : Inv s) (found : s.accepted[n]? = some r) (unfinished : r.phase.isFinished = false)
    (choice : Choice) : ∃ (e : Event) (t : Server) (next : Request), s.step services e = some t ∧ t.accepted[n]? = some next ∧ next.id = r.id ∧
      next.weight + t.reader.left < r.weight + s.reader.left := by
  have coherent := inv.coherent r (List.mem_of_getElem? found)
  have worker : ∀ {next body}, r.step services choice = some (next,body) →
      ∃ (e : Event) (t : Server) (next : Request), s.step services e = some t ∧
      t.accepted[n]? = some next ∧ next.id = r.id ∧ next.weight + t.reader.left < r.weight + s.reader.left := by
    intro next body step
    exact ⟨_,_,next,work_moved found step,(becomes_moved found).1,(step_works step).id,
      Nat.add_lt_add_right (step_works step).weight _⟩
  cases joins : r.phase.joins with
  | true =>
    have timer : ∀ {next}, r.time = some next →
      ∃ (e : Event) (t : Server) (next : Request), s.step services e = some t ∧
        t.accepted[n]? = some next ∧ next.id = r.id ∧ next.weight + t.reader.left < r.weight + s.reader.left := by
      intro next step
      exact ⟨_,_,next,timer_moved found step,(@becomes_moved s n r next none found).1,(moves_time step).id,
        Nat.add_lt_add_right (weight_time step) _⟩
    cases waits : r.timer with
    | unborn =>
      rw [coherent.born waits] at joins
      cases joins
    | waiting =>
      have step : r.time = some {r with timer := .done} := by simp [Request.time,waits,coherent.completed joins]
      exact timer step
    | expired =>
      have step : r.time = some {r with timer := .done} := by simp [Request.time,waits]
      exact timer step
    | done =>
      cases here : r.phase with
      | completed result =>
        have step : r.step services choice = some ({r with phase := .joined result},none) := by
          simp [Request.step,here,waits]
        exact worker step
      | closed =>
        have step : r.step services choice = some ({r with phase := .answered},none) := by
          simp [Request.step,here,waits]
        exact worker step
      | _ =>
        rw [here] at joins
        cases joins
  | false =>
    by_cases answered : r.phase = .answered
    · cases locked : s.reader.locked with
      | true =>
        obtain ⟨t,stops,less,kept⟩ := locked_stops locked
        obtain ⟨next,atN,same,weight⟩ := kept n r found
        exact ⟨.stop,t,next,stops,atN,same,by omega⟩
      | false =>
        refine ⟨.worker n choice,s.finish n r,{r with phase := .finished},?_,?_,rfl,?_⟩
        · change s.work services n choice = _
          simp [Server.work,found,answered,locked,Server.finish]
        · rw [accepted_finish n found,if_pos rfl]
        · simp [Request.weight,answered,Phase.weight,Server.finish,Server.modify]
    · obtain ⟨⟨next,body⟩,step⟩ := Option.isSome_iff_exists.mp (step_ready choice joins answered unfinished)
      exact worker step

theorem run_append (first : List Event) (ran : s.run services first = some t) (second : List Event) :
    s.run services (first ++ second) = t.run services second := by
  rw [Server.run,List.foldlM_append]
  change (s.run services first).bind _ = _
  rw [ran]
  rfl

/-- From every state the threads can finish a request that was accepted. -/
theorem request_finishes (inv : Inv s) (found : s.accepted[n]? = some r) (choice : Choice) :
    ∃ (events : List Event) (t : Server) (next : Request), s.run services events = some t ∧ t.accepted[n]? = some next ∧ next.id = r.id ∧
      next.phase.isFinished = true := by
  induction left : r.weight + s.reader.left using Nat.strongRecOn generalizing s r with
  | ind left' ih =>
    subst left
    cases finished : r.phase.isFinished with
    | true => exact ⟨[],s,r,rfl,found,rfl,finished⟩
    | false =>
      obtain ⟨e,t,next,step,atN,same,less⟩ := request_proceeds inv found finished choice
      obtain ⟨events,u,last,ran,atLast,kept,ended⟩ := ih _ less (inv.step step) atN rfl
      refine ⟨e::events,u,last,?_,atLast,kept.trans same,ended⟩
      rw [run_cons,step]
      exact ran

-- the steps of the threads of a request
def Event.isOf (n : Nat) : Event → Bool
  | .worker m _ => m = n
  | .timer m => m = n
  | _ => false

def Server.weight (s : Server) (n : Nat) : Nat := match s.accepted[n]? with
  | none => 15
  | some r => r.weight

theorem weight_evolves (evolves : Evolves services r next body) : next.weight ≤ r.weight := by
  cases evolves with
  | control _ _ => exact Nat.le_refl _
  | timer step => exact (weight_time step).le
  | worker step => exact (step_works step).weight.le
  | finish phase => simp [Request.weight,phase,Phase.weight]

/-- Only an accepted call adds a request. -/
theorem step_length (step : s.step services e = some t) :
    t.accepted.length = s.accepted.length ∨ ∃ id payload, t = s.accept id payload := by
  unfold Server.step at step
  cases e with
  | read result =>
    simp only at step
    split at step
    · cases step
    · cases result with
      | message payload =>
        obtain rfl := Option.some.inj step
        have handles := @handles_handle services s payload
        generalize handle services s payload = t at handles ⊢
        cases handles with
        | accepts _ _ => exact .inr ⟨_,_,rfl⟩
        | cancels _ => exact .inl (List.length_modify ..)
        | _ => exact .inl rfl
      | endOfFile =>
        obtain rfl := Option.some.inj step
        exact .inl rfl
      | error =>
        obtain rfl := Option.some.inj step
        exact .inl rfl
  | stop =>
    refine .inl ?_
    change s.stop = some t at step
    unfold Server.stop at step
    split at step
    · cases step
    · split at step
      · obtain rfl := Option.some.inj step
        rfl
      · obtain rfl := Option.some.inj step
        rfl
    · obtain rfl := Option.some.inj step
      rfl
    · obtain rfl := Option.some.inj step
      exact List.length_modify ..
    · split at step
      · obtain rfl := Option.some.inj step
        rfl
      · cases step
    · cases step
  | clock m =>
    obtain rfl := Option.some.inj step
    exact .inl (List.length_modify ..)
  | worker m choice =>
    obtain ⟨q,_,⟨_,_,rfl⟩ | ⟨next,body,_,rfl⟩⟩ := work_cases step
    · exact .inl (List.length_modify ..)
    · exact .inl (List.length_modify ..)
  | timer m =>
    obtain ⟨next,_,rfl⟩ := Option.map_eq_some_iff.mp step
    exact .inl (List.length_modify ..)

/-- A step of a thread of a request brings it nearer to its end, and no other step takes it away from there. -/
theorem weight_run_step (step : s.step services e = some t) (n : Nat) :
    t.weight n + (if e.isOf n then 1 else 0) ≤ s.weight n := by
  unfold Server.weight
  cases found : s.accepted[n]? with
  | none =>
    have other : e.isOf n = false := by
      cases e with
      | worker m choice =>
        obtain ⟨q,atM,_⟩ := work_cases step
        simp only [Event.isOf,decide_eq_false_iff_not]
        intro same
        subst same
        rw [found] at atM
        cases atM
      | timer m =>
        obtain ⟨q,timed,_⟩ := Option.map_eq_some_iff.mp step
        obtain ⟨q,atM,_⟩ := Option.bind_eq_some_iff.mp timed
        simp only [Event.isOf,decide_eq_false_iff_not]
        intro same
        subst same
        rw [found] at atM
        cases atM
      | _ => rfl
    rw [other]
    rcases step_length step with same | ⟨id,payload,rfl⟩
    · have none : t.accepted[n]? = none := by
        rw [List.getElem?_eq_none_iff] at found ⊢
        rwa [same]
      simp [none]
    · cases last : (s.accept id payload).accepted[n]? with
      | none => simp
      | some r =>
        change (s.accepted ++ [_])[n]? = some r at last
        rw [List.getElem?_append,if_neg (Nat.not_lt.mpr (List.getElem?_eq_none_iff.mp found))] at last
        have new := List.mem_singleton.mp (List.mem_of_getElem? last)
        simp [new,Request.weight,Phase.weight,Timer.weight]
  | some r =>
    cases own : e.isOf n with
    | false =>
      obtain ⟨next,body,⟨atN,_⟩,evolves⟩ := step_request found step
      simpa [atN] using weight_evolves evolves
    | true =>
      cases e with
      | worker m choice =>
        obtain rfl : m = n := by simpa [Event.isOf] using own
        obtain ⟨q,atM,⟨phase,_,rfl⟩ | ⟨next,body,moved,rfl⟩⟩ := work_cases step
        · rw [found] at atM
          obtain rfl := Option.some.inj atM
          rw [accepted_finish m found,if_pos rfl]
          simp only [Request.weight,phase,Phase.weight,if_true]
          omega
        · rw [found] at atM
          obtain rfl := Option.some.inj atM
          rw [(becomes_moved found).1]
          exact (step_works moved).weight
      | timer m =>
        obtain rfl : m = n := by simpa [Event.isOf] using own
        obtain ⟨next,timed,rfl⟩ := Option.map_eq_some_iff.mp step
        rw [found,Option.bind_some] at timed
        rw [moved_silent found (fun _ => next),(@becomes_moved s m r next none found).1]
        exact weight_time timed
      | _ => cases own

/-- The threads of a request take at most 15 steps. -/
theorem own_steps (ran : s.run services events = some t) (n : Nat) :
    t.weight n + (events.filter (Event.isOf n)).length ≤ s.weight n := by
  induction events generalizing s with
  | nil =>
    obtain rfl := Option.some.inj ran
    exact Nat.le_refl _
  | cons e events ih =>
    rw [run_cons] at ran
    obtain ⟨u,step,rest⟩ := Option.bind_eq_some_iff.mp ran
    have first := weight_run_step step n
    have later := ih rest
    cases own : e.isOf n with
    | true =>
      rw [own] at first
      simp only [List.filter_cons,own,if_true,List.length_cons] at first ⊢
      omega
    | false =>
      rw [own] at first
      simp only [List.filter_cons,own] at first ⊢
      simp only [Bool.false_eq_true,if_false] at first ⊢
      omega

/-- A request that was to be stopped before its tool returned. -/
structure Doomed (r : Request) : Prop where
  stopped : r.control.cancelled = true ∨ r.control.timedOut = true
  decided : ∀ result, r.phase = .responding result → result.status = .cancelled ∨ result.status = .deadlineExceeded

def IsError (w : Written) : Prop := ∃ code message, w.body = .error code message

theorem decided_stopped {control : Control} (stopped : control.cancelled = true ∨ control.timedOut = true)
    (result : McpToolResult) : (decided control result).status = .cancelled ∨
      (decided control result).status = .deadlineExceeded := by
  unfold decided
  split
  · exact .inl rfl
  · rename_i kept
    rw [if_pos (stopped.resolve_left kept)]
    exact .inr rfl

theorem doomed_time (doomed : Doomed r) (step : r.time = some next) : Doomed next := by
  unfold Request.time at step
  split at step
  · cases step
  · split at step
    · obtain rfl := Option.some.inj step
      exact ⟨doomed.stopped,doomed.decided⟩
    · split at step
      · obtain rfl := Option.some.inj step
        exact ⟨.inr rfl,doomed.decided⟩
      · cases step
  · obtain rfl := Option.some.inj step
    exact ⟨doomed.stopped,doomed.decided⟩
  · cases step

theorem doomed_evolves (doomed : Doomed r) (evolves : Evolves services r next body) :
    Doomed next ∧ ∀ answer, body = some answer → ∃ code message, answer = .error code message := by
  cases evolves with
  | control cancelled timedOut =>
    refine ⟨⟨?_,doomed.decided⟩,by simp⟩
    rcases doomed.stopped with flag | flag
    · exact .inl (cancelled flag)
    · exact .inr (timedOut.trans flag)
  | timer step => exact ⟨doomed_time doomed step,by simp⟩
  | worker step =>
    have works := step_works step
    refine ⟨⟨by rw [works.cancelled,works.timedOut]; exact doomed.stopped,?_⟩,?_⟩
    · intro result phase
      obtain ⟨returned,rfl⟩ := works.decides result phase
      exact decided_stopped doomed.stopped returned
    · intro answer is
      rcases works.writes answer is with error | ⟨result,phase,rfl⟩
      · exact error
      · unfold responseBody
        rcases doomed.decided result phase with status | status
        · rw [status]
          exact ⟨_,_,rfl⟩
        · rw [status]
          exact ⟨_,_,rfl⟩
  | finish phase => exact ⟨⟨doomed.stopped,(fun result same => by cases same)⟩,by simp⟩

/-- What is doomed is answered with an error only. -/
theorem doomed_run (found : s.accepted[n]? = some r) (doomed : Doomed r) (errors : ∀ w ∈ answersOf s n, IsError w)
    (ran : s.run services events = some t) : ∀ w ∈ answersOf t n, IsError w := by
  induction events generalizing s r with
  | nil =>
    obtain rfl := Option.some.inj ran
    exact errors
  | cons e events ih =>
    rw [run_cons] at ran
    obtain ⟨u,step,rest⟩ := Option.bind_eq_some_iff.mp ran
    obtain ⟨next,body,⟨atN,answers⟩,evolves⟩ := step_request found step
    obtain ⟨still,writes⟩ := doomed_evolves doomed evolves
    refine ih atN still ?_ rest
    intro w member
    rw [answers] at member
    rcases List.mem_append.mp member with old | new
    · exact errors w old
    · obtain ⟨answer,is,rfl⟩ := List.mem_map.mp new
      exact writes answer (Option.mem_toList.mp is)

end Evolution

section Property
variable {services : Services} {s t : Server} {n : Nat} {r : Request} {events : List Event}

theorem key_injective {first second : RequestId} (same : first.key = second.key) : first = second := by
  cases first with
  | number n =>
    cases second with
    | number m =>
      rw [signedDecimal_injective (List.cons.inj (List.cons.inj same).2).2]
    | text second => exact absurd (List.cons.inj same).1 (by decide)
  | text first =>
    cases second with
    | number m => exact absurd (List.cons.inj same).1 (by decide)
    | text second => rw [(List.cons.inj (List.cons.inj same).2).2]

theorem find_isSome {key : Text} (member : (key,n) ∈ s.requests) : (s.find key).isSome := by
  cases found : s.find key with
  | none => exact absurd (List.mem_map.mpr ⟨_,member,rfl⟩) (find_none found)
  | some m => rfl

/-- What holds of a server after a run of the events. -/
structure AnsweredOnce (services : Services) (events : List Event) (s : Server) : Prop where
  /-- A request that was accepted has no response yet, or one with its own id. -/
  once : ∀ n r, s.accepted[n]? = some r → answersOf s n = [] ∨ Answered s n r
  /-- Its threads take few steps, and they can always go on until it is answered. -/
  bounded : ∀ n, (events.filter (Event.isOf n)).length ≤ 15
  answerable : ∀ n r, s.accepted[n]? = some r → ∃ (more : List Event) (t : Server) (next : Request),
    s.run services more = some t ∧ t.accepted[n]? = some next ∧ next.id = r.id ∧ Answered t n next
  /-- A call with the id of one in flight is answered with an error, and nothing else changes. -/
  duplicate : ∀ payload m id n r, messageOf services payload = some m → m.method = .toolsCall → m.id = some id →
    InFlight s n r → r.id = id → ∀ t, s.step services (.read (.message payload)) = some t →
    ∃ code message, t = {s with written := s.written ++ [⟨some id,.error code message,none⟩]}
  /-- A request that is to be stopped before its tool has returned gets only an error. -/
  stopped : ∀ n r, s.accepted[n]? = some r → (r.control.cancelled = true ∨ r.control.timedOut = true) →
    r.phase.awaitsTool = true → ∀ more t, s.run services more = some t → ∀ w ∈ answersOf t n, IsError w
  /-- A cancel notification gets no response, and has no effect where its id is not in flight. -/
  cancels : ∀ payload m t, messageOf services payload = some m → m.method = .cancelled → m.id = none →
    s.step services (.read (.message payload)) = some t → t.written = s.written ∧
    ∀ id, m.params.bind (fun params => requestId services (Json.get params "requestId")) = some id →
      (∀ n r, InFlight s n r → r.id ≠ id) → t = s
  /-- Once `run` has returned the map is empty and every request is answered. -/
  returned : ∀ status, s.reader = .returned status → s.requests = [] ∧
    ∀ n r, s.accepted[n]? = some r → r.phase.isFinished = true ∧ Answered s n r

theorem awaitsTool_unanswered {phase : Phase} (awaits : phase.awaitsTool = true) :
    phase.isAnswered = false ∧ ∀ result, phase ≠ .responding result := by
  cases phase with
  | spawned | parsing | calling _ | opening _ | bound _ | stopping | running => exact ⟨rfl,by simp⟩
  | _ => cases awaits

theorem read_message {payload : List Byte} (step : s.step services (.read (.message payload)) = some t) :
    t = handle services s payload := by
  unfold Server.step at step
  simp only at step
  split at step
  · cases step
  · exact (Option.some.inj step).symm

theorem handle_serve {payload : List Byte} {m : Message} (found : messageOf services payload = some m) :
    handle services s payload = serve services s m payload := by
  unfold handle
  cases parsed : services.parse payload with
  | none => simp [messageOf,parsed] at found
  | some value => simp only [found]

/-- In any order of the steps every tool call that is accepted is answered once. -/
theorem calls_answered_once (services : Services) (events : List Event) (s : Server)
    (ran : Server.new.run services events = some s) : AnsweredOnce services events s := by
  have inv := inv_new.run ran
  have answered : ∀ {t : Server} {n : Nat} {r : Request}, Inv t → t.accepted[n]? = some r →
      r.phase.isFinished = true → Answered t n r := by
    intro t n r inv found finished
    apply (inv.answers n r found).1
    cases phase : r.phase with
    | finished => rfl
    | _ =>
      rw [phase] at finished
      cases finished
  refine ⟨?_,?_,?_,?_,?_,?_,?_⟩
  · intro n r found
    cases answered : r.phase.isAnswered with
    | true => exact .inr ((inv.answers n r found).1 answered)
    | false => exact .inl ((inv.answers n r found).2 answered)
  · intro n
    have steps := own_steps ran n
    have start : Server.new.weight n = 15 := rfl
    omega
  · intro n r found
    obtain ⟨more,t,next,going,atN,same,finished⟩ :=
      @request_finishes services s n r inv found ⟨true,databaseResult⟩
    exact ⟨more,t,next,going,atN,same,answered (inv.run going) atN finished⟩
  · intro payload m id n r found calls hasId ⟨atN,member⟩ same t step
    subst same
    have state : s.state = .running := by
      apply inv.running
      intro none
      rw [none] at atN
      cases atN
    have known := find_isSome member
    rw [read_message step,handle_serve found]
    have served : serve services s m payload = callTool s r.id m.params payload := by
      simp [serve,serveRunning,calls,hasId,state]
    rw [served]
    unfold callTool
    split
    · exact ⟨_,_,rfl⟩
    · exact ⟨_,_,rfl⟩
  · intro n r found flagged awaits more t going
    obtain ⟨unanswered,undecided⟩ := awaitsTool_unanswered awaits
    apply doomed_run found ⟨flagged,fun result same => absurd same (undecided result)⟩ ?_ going
    rw [(inv.answers n r found).2 unanswered]
    simp
  · intro payload m t found cancels unasked step
    rw [read_message step,handle_serve found]
    have served : serve services s m payload = cancelRequest services s m.params := by simp [serve,cancels,unasked]
    rw [served]
    refine ⟨?_,?_⟩
    · unfold cancelRequest
      split
      · rfl
      · split
        · rfl
        · rfl
    · intro id names others
      unfold cancelRequest
      rw [names]
      dsimp only
      split
      · rfl
      · rename_i n known
        obtain ⟨r,atN,isKey,_⟩ := (inv.listed _ _).mp (find_mem known)
        exact absurd (key_injective isKey) (others n r ⟨atN,isKey ▸ find_mem known⟩)
  · intro status isReturned
    have empty := inv.returned status isReturned
    refine ⟨empty,?_⟩
    intro n r found
    have finished : r.phase.isFinished = true := by
      by_contra unfinished
      have member := (inv.listed r.id.key n).mpr ⟨r,found,rfl,Bool.eq_false_iff.mpr unfinished⟩
      rw [empty] at member
      cases member
    exact ⟨finished,answered inv found finished⟩

-- three messages: a greeting, its confirmation, and a call with the id 7
def sampleMessage : List Byte → Option Json
  | [1] => some (.object [("jsonrpc".toList,.string "2.0".toList),("id".toList,.number "0".toList),
      ("method".toList,.string "initialize".toList),("params".toList,.object [
        ("protocolVersion".toList,.string protocolVersion.toList),("capabilities".toList,.object []),
        ("clientInfo".toList,.object [])])])
  | [2] => some (.object [("jsonrpc".toList,.string "2.0".toList),
      ("method".toList,.string "notifications/initialized".toList)])
  | [3] => some (.object [("jsonrpc".toList,.string "2.0".toList),("id".toList,.number "7".toList),
      ("method".toList,.string "tools/call".toList),
      ("params".toList,.object [("name".toList,.string "list_variants".toList)])])
  | _ => none

def sampleServices : Services where
  parse := sampleMessage
  integer := fun spelling => if spelling = "0".toList then some 0 else if spelling = "7".toList then some 7 else none
  print := fun _ => "[]".toList
  toolDefinitions := .array []
  allowReindex := false

-- the deadline passes before the tool returns
def sampleEvents : List Event :=
  let work : Event := .worker 0 ⟨true,⟨.success,.object [],[]⟩⟩
  [.read (.message [1]),.read (.message [2]),.read (.message [3]),work,work,work,.clock 0,.timer 0,.timer 0,work,work,work,
    .read .endOfFile,.stop,work,work,work,work,work,.stop]

theorem call_answered_late : ∃ s, Server.new.run sampleServices sampleEvents = some s ∧
    AnsweredOnce sampleServices sampleEvents s ∧ s.reader = .returned 0 :=
  ⟨_,rfl,calls_answered_once sampleServices sampleEvents _ rfl,rfl⟩

end Property
end Semindex.Mcp.Requests
