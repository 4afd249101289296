import Mathlib.Data.List.Induction

/-! One connection to a shared store. Every step may fail, and between its steps
other connections commit as they like unless this one holds the write lock. The
history is the sequence of all commits, so what a program publishes is a
property of it. Specifications are triples with a second postcondition for the
exit by failure. -/
namespace Semindex.Relational

structure Commit (σ : Type) where
  own : Bool
  before : σ
  after : σ

inductive Txn (σ : Type) where
  | idle
  | deferred (snapshot : Option σ)
  | immediate (working : σ)

-- `abort` is a failure on which the engine also gave up the open transaction
inductive Fault where
  | fine
  | error
  | abort
  deriving DecidableEq

/-- What a run cannot choose: which steps fail, and what others commit before each step. -/
structure Environment (σ : Type) where
  fault : Nat → Fault
  others : Nat → List (σ → σ)

structure Connection (σ : Type) where
  shared : σ
  txn : Txn σ
  history : List (Commit σ)
  clock : Nat

def Connection.new {σ : Type} (shared : σ) : Connection σ := ⟨shared,.idle,[],0⟩

def Connection.publish {σ : Type} (c : Connection σ) (own : Bool) (effect : σ → σ) : Connection σ :=
  {c with shared := effect c.shared, history := c.history ++ [⟨own,c.shared,effect c.shared⟩]}

-- an operation without a result has failed
def Op (σ α : Type) := Connection σ → Option α × Connection σ

namespace Op
variable {σ α β : Type}

protected def pure (a : α) : Op σ α := fun c => (some a,c)

protected def bind (op : Op σ α) (next : α → Op σ β) : Op σ β := fun c =>
  match op c with
  | (some a,c) => next a c
  | (none,c) => (none,c)

instance : Monad (Op σ) where
  pure := Op.pure
  bind := Op.bind

def fail : Op σ α := fun c => (none,c)

def onFailure (cleanup : Op σ Unit) (op : Op σ α) : Op σ α := fun c =>
  match op c with
  | (some a,c) => (some a,c)
  | (none,c) => (none,(cleanup c).2)

def recover (fallback : α) (op : Op σ α) : Op σ α := fun c => (some ((op c).1.getD fallback),(op c).2)

end Op

section Steps
variable {σ α : Type} (env : Environment σ)

def interfere (c : Connection σ) : Connection σ :=
  match c.txn with
  | .immediate _ => c
  | _ => (env.others c.clock).foldl (fun c effect => c.publish false effect) c

def tick (c : Connection σ) : Connection σ := {interfere env c with clock := c.clock + 1}

def step (act : Connection σ → Option α × Connection σ) : Op σ α := fun c =>
  match env.fault c.clock with
  | .fine => act (tick env c)
  | .error => (none,tick env c)
  | .abort => (none,{tick env c with txn := .idle})

-- a step that does not touch the store
def attempt : Op σ Unit := step env (fun c => (some (),c))

def read (f : σ → α) : Op σ α := step env (fun c =>
  match c.txn with
  | .idle => (some (f c.shared),c)
  | .deferred (some snapshot) => (some (f snapshot),c)
  | .deferred none => (some (f c.shared),{c with txn := .deferred (some c.shared)})
  | .immediate working => (some (f working),c))

-- outside a transaction a statement commits by itself; an upgrade of a deferred one is not modelled
def exec (effect : σ → σ) : Op σ Unit := step env (fun c =>
  match c.txn with
  | .idle => (some (),c.publish true effect)
  | .deferred _ => (none,c)
  | .immediate working => (some (),{c with txn := .immediate (effect working)}))

def begin : Op σ Unit := step env (fun c =>
  match c.txn with
  | .idle => (some (),{c with txn := .deferred none})
  | _ => (none,c))

def beginImmediate : Op σ Unit := step env (fun c =>
  match c.txn with
  | .idle => (some (),{c with txn := .immediate c.shared})
  | _ => (none,c))

def commit : Op σ Unit := step env (fun c =>
  match c.txn with
  | .idle => (none,c)
  | .deferred _ => (some (),{c with txn := .idle})
  | .immediate working => (some (),{c with txn := .idle}.publish true (fun _ => working)))

def rollback : Op σ Unit := step env (fun c =>
  match c.txn with
  | .idle => (none,c)
  | _ => (some (),{c with txn := .idle}))

def Connection.close (c : Connection σ) : Connection σ := {c with txn := .idle}

end Steps

section Triples
variable {σ α β : Type}

/-- From a connection with `pre` the operation ends with `ok`, or fails with `bad`. -/
def Triple (pre : Connection σ → Prop) (op : Op σ α) (ok : α → Connection σ → Prop)
    (bad : Connection σ → Prop) : Prop :=
  ∀ c, pre c → (∀ a after, op c = (some a,after) → ok a after) ∧ ∀ after, op c = (none,after) → bad after

variable {pre : Connection σ → Prop} {ok : α → Connection σ → Prop} {bad : Connection σ → Prop}

theorem triple_pure {a : α} (holds : ∀ c, pre c → ok a c) : Triple pre (pure a : Op σ α) ok bad := by
  intro c here
  refine ⟨fun b after result => ?_,fun after result => ?_⟩
  · cases result
    exact holds c here
  · cases result

theorem triple_fail (holds : ∀ c, pre c → bad c) : Triple pre (Op.fail : Op σ α) ok bad := by
  intro c here
  refine ⟨fun b after result => ?_,fun after result => ?_⟩
  · cases result
  · cases result
    exact holds c here

theorem triple_bind {op : Op σ α} {next : α → Op σ β} {middle : α → Connection σ → Prop}
    {ok : β → Connection σ → Prop} (first : Triple pre op middle bad)
    (rest : ∀ a, Triple (middle a) (next a) ok bad) : Triple pre (op >>= next) ok bad := by
  intro c here
  obtain ⟨continues,stops⟩ := first c here
  have unfolded : (op >>= next) c = match op c with
      | (some a,c) => next a c
      | (none,c) => (none,c) := rfl
  rw [unfolded]
  cases result : op c with
  | mk outcome between =>
    cases outcome with
    | some a => exact rest a between (continues a between result)
    | none =>
      refine ⟨fun b after ended => (by cases ended),fun after ended => ?_⟩
      cases ended
      exact stops between result

theorem triple_weaken {pre' : Connection σ → Prop} {ok' : α → Connection σ → Prop} {bad' : Connection σ → Prop}
    {op : Op σ α} (triple : Triple pre op ok bad) (before : ∀ c, pre' c → pre c)
    (after : ∀ a c, ok a c → ok' a c) (failed : ∀ c, bad c → bad' c) : Triple pre' op ok' bad' := by
  intro c here
  obtain ⟨ends,fails⟩ := triple c (before c here)
  exact ⟨fun a c' result => after a c' (ends a c' result),fun c' result => failed c' (fails c' result)⟩

theorem triple_onFailure {op : Op σ α} {cleanup : Op σ Unit} {failed : Connection σ → Prop}
    (triple : Triple pre op ok failed) (cleans : Triple failed cleanup (fun _ => bad) bad) :
    Triple pre (Op.onFailure cleanup op) ok bad := by
  intro c here
  obtain ⟨ends,fails⟩ := triple c here
  unfold Op.onFailure
  cases result : op c with
  | mk outcome between =>
    cases outcome with
    | some a =>
      refine ⟨fun b after ended => ?_,fun after ended => (by cases ended)⟩
      cases ended
      exact ends a between result
    | none =>
      refine ⟨fun b after ended => (by cases ended),fun after ended => ?_⟩
      cases ended
      obtain ⟨cleaned,stuck⟩ := cleans between (fails between result)
      cases finish : cleanup between with
      | mk outcome last =>
        cases outcome with
        | some u => exact cleaned u last finish
        | none => exact stuck last finish

theorem triple_recover {op : Op σ α} {fallback : α} (triple : Triple pre op ok (ok fallback)) :
    Triple pre (Op.recover fallback op) ok bad := by
  intro c here
  obtain ⟨ends,fails⟩ := triple c here
  refine ⟨fun b after ended => ?_,fun after ended => (by cases ended)⟩
  cases ended
  cases result : op c with
  | mk outcome last =>
    cases outcome with
    | some a => exact ends a last result
    | none => exact fails last result

theorem triple_foldlM {f : β → α → Op σ β} {inv : β → Connection σ → Prop} (items : List α) (b : β)
    (turn : ∀ b a, Triple (inv b) (f b a) inv bad) : Triple (inv b) (items.foldlM f b) inv bad := by
  induction items generalizing b with
  | nil => exact triple_pure (fun _ here => here)
  | cons a items ih => exact triple_bind (turn b a) ih

end Triples

section Publish
variable {σ α : Type} {env : Environment σ}

def Chain : σ → List (Commit σ) → σ → Prop
  | s, [], last => s = last
  | s, x::commits, last => x.before = s ∧ Chain x.after commits last

/-- Since `start` the connection's own commits are all among `allowed`. -/
def Since (allowed : Commit σ → Prop) (start c : Connection σ) : Prop :=
  ∃ commits, c.history = start.history ++ commits ∧ Chain start.shared commits c.shared ∧
    ∀ x ∈ commits, x.own = true → allowed x

/-- Since `start` the connection has published one commit with `special` besides allowed ones. -/
def Once (allowed special : Commit σ → Prop) (start c : Connection σ) : Prop :=
  ∃ first x last, c.history = start.history ++ (first ++ x::last) ∧
    Chain start.shared (first ++ x::last) c.shared ∧ x.own = true ∧ special x ∧
    ∀ y ∈ first ++ last, y.own = true → allowed y

theorem chain_append {s t last : σ} {commits : List (Commit σ)} (chain : Chain s commits t) (x : Commit σ)
    (next : x.before = t) (ends : x.after = last) : Chain s (commits ++ [x]) last := by
  induction commits generalizing s with
  | nil => exact ⟨next.trans chain.symm,ends⟩
  | cons y commits ih => exact ⟨chain.1,ih chain.2⟩

variable {allowed special : Commit σ → Prop} {start : Connection σ}

theorem since_refl (start : Connection σ) : Since allowed start start := ⟨[],by simp,rfl,by simp⟩

theorem publish_since {c : Connection σ} (since : Since allowed start c) (own : Bool) (effect : σ → σ)
    (fits : own = true → allowed ⟨own,c.shared,effect c.shared⟩) :
    Since allowed start (c.publish own effect) := by
  obtain ⟨commits,history,chain,own_commits⟩ := since
  refine ⟨commits ++ [⟨own,c.shared,effect c.shared⟩],?_,chain_append chain _ rfl rfl,?_⟩
  · rw [Connection.publish,history,List.append_assoc]
  · intro x member mine
    rcases List.mem_append.mp member with earlier | new
    · exact own_commits x earlier mine
    · rw [List.mem_singleton] at new
      subst new
      exact fits mine

theorem publish_once {c : Connection σ} (since : Since allowed start c) (effect : σ → σ)
    (fits : special ⟨true,c.shared,effect c.shared⟩) : Once allowed special start (c.publish true effect) := by
  obtain ⟨commits,history,chain,own_commits⟩ := since
  refine ⟨commits,⟨true,c.shared,effect c.shared⟩,[],?_,chain_append chain _ rfl rfl,rfl,fits,?_⟩
  · rw [Connection.publish,history,List.append_assoc]
  · simpa using own_commits

theorem since_others {c : Connection σ} (since : Since allowed start c) (effects : List (σ → σ)) :
    Since allowed start (effects.foldl (fun c effect => c.publish false effect) c) := by
  induction effects generalizing c with
  | nil => exact since
  | cons effect effects ih => exact ih (publish_since since false effect (fun impossible => by cases impossible))

theorem others_txn (effects : List (σ → σ)) (c : Connection σ) :
    (effects.foldl (fun c effect => c.publish false effect) c).txn = c.txn := by
  induction effects generalizing c with
  | nil => rfl
  | cons effect effects ih => exact ih _

variable (env) in
theorem since_tick {c : Connection σ} (since : Since allowed start c) : Since allowed start (tick env c) := by
  have quiet : Since allowed start (interfere env c) := by
    unfold interfere
    split
    · exact since
    · exact since_others since _
  exact quiet

theorem tick_txn (c : Connection σ) : (tick env c).txn = c.txn := by
  change (interfere env c).txn = c.txn
  unfold interfere
  split
  · rfl
  · exact others_txn _ c

-- the write lock keeps other connections out
theorem tick_locked {c : Connection σ} {working : σ} (locked : c.txn = .immediate working) :
    (tick env c).shared = c.shared := by
  change (interfere env c).shared = c.shared
  unfold interfere
  rw [locked]

def Deferred (allowed : Commit σ → Prop) (start c : Connection σ) : Prop :=
  Since allowed start c ∧ ∃ snapshot, c.txn = .deferred snapshot

/-- The write lock is held, and the shared state and the uncommitted one are related by `rel`. -/
def Working (allowed : Commit σ → Prop) (start : Connection σ) (rel : σ → σ → Prop) (c : Connection σ) : Prop :=
  Since allowed start c ∧ ∃ working, c.txn = .immediate working ∧ rel c.shared working

theorem triple_step {act : Connection σ → Option α × Connection σ} {pre : Connection σ → Prop}
    {ok : α → Connection σ → Prop} (since : ∀ c, pre c → Since allowed start c)
    (runs : ∀ c, pre c → (∀ a after, act (tick env c) = (some a,after) → ok a after) ∧
      ∀ after, act (tick env c) = (none,after) → Since allowed start after) :
    Triple pre (step env act) ok (Since allowed start) := by
  intro c here
  have quiet := since_tick env (since c here)
  unfold step
  split
  · exact runs c here
  · refine ⟨fun a after result => (by cases result),fun after result => ?_⟩
    cases result
    exact quiet
  · refine ⟨fun a after result => (by cases result),fun after result => ?_⟩
    cases result
    exact quiet

theorem attempt_since :
    Triple (Since allowed start) (attempt env) (fun _ => Since allowed start) (Since allowed start) := by
  apply triple_step (fun c here => here)
  intro c here
  refine ⟨fun a after result => ?_,fun after result => (by cases result)⟩
  cases result
  exact since_tick _ here

theorem attempt_deferred :
    Triple (Deferred allowed start) (attempt env) (fun _ => Deferred allowed start) (Since allowed start) := by
  apply triple_step (fun c here => here.1)
  intro c here
  refine ⟨fun a after result => ?_,fun after result => (by cases result)⟩
  cases result
  exact ⟨since_tick _ here.1,by simpa only [tick_txn] using here.2⟩

theorem read_since (f : σ → α) :
    Triple (Since allowed start) (read env f) (fun _ => Since allowed start) (Since allowed start) := by
  apply triple_step (fun c here => here)
  intro c here
  have quiet := since_tick env here
  refine ⟨fun a after result => ?_,fun after result => ?_⟩ <;>
    split at result <;> cases result <;> exact quiet

theorem read_deferred (f : σ → α) :
    Triple (Deferred allowed start) (read env f) (fun a c => Deferred allowed start c ∧ ∃ s, a = f s)
      (Since allowed start) := by
  apply triple_step (fun c here => here.1)
  intro c here
  obtain ⟨snapshot,held⟩ := here.2
  have deferred : (tick env c).txn = .deferred snapshot := by rw [tick_txn,held]
  have quiet := since_tick env here.1
  simp only [deferred]
  cases snapshot with
  | none =>
    refine ⟨fun a after result => ?_,fun after result => (by cases result)⟩
    cases result
    exact ⟨⟨quiet,_,rfl⟩,_,rfl⟩
  | some s =>
    refine ⟨fun a after result => ?_,fun after result => (by cases result)⟩
    cases result
    exact ⟨⟨quiet,_,deferred⟩,s,rfl⟩

variable {rel : σ → σ → Prop}

variable (env) in
private theorem working_tick {c : Connection σ} (here : Working allowed start rel c) :
    ∃ working, (tick env c).txn = .immediate working ∧ rel (tick env c).shared working := by
  obtain ⟨_,working,locked,related⟩ := here
  exact ⟨working,by rw [tick_txn,locked],by rw [tick_locked locked]; exact related⟩

theorem read_working (f : σ → α) :
    Triple (Working allowed start rel) (read env f)
      (fun a => Working allowed start (fun s w => rel s w ∧ a = f w)) (Since allowed start) := by
  apply triple_step (fun c here => here.1)
  intro c here
  obtain ⟨working,locked,related⟩ := working_tick env here
  simp only [locked]
  refine ⟨fun a after result => ?_,fun after result => (by cases result)⟩
  cases result
  exact ⟨since_tick _ here.1,working,locked,related,rfl⟩

theorem exec_working (effect : σ → σ) :
    Triple (Working allowed start rel) (exec env effect)
      (fun _ => Working allowed start (fun s w => ∃ v, rel s v ∧ w = effect v)) (Since allowed start) := by
  apply triple_step (fun c here => here.1)
  intro c here
  obtain ⟨working,locked,related⟩ := working_tick env here
  simp only [locked]
  refine ⟨fun a after result => ?_,fun after result => (by cases result)⟩
  cases result
  exact ⟨since_tick _ here.1,_,rfl,working,related,rfl⟩

-- within an open transaction both fail
theorem begin_since :
    Triple (Since allowed start) (begin env) (fun _ => Deferred allowed start) (Since allowed start) := by
  apply triple_step (fun c here => here)
  intro c here
  have quiet := since_tick env here
  refine ⟨fun a after result => ?_,fun after result => ?_⟩ <;> split at result <;> cases result
  · exact ⟨quiet,_,rfl⟩
  · exact quiet

theorem beginImmediate_since :
    Triple (Since allowed start) (beginImmediate env) (fun _ => Working allowed start (fun s w => w = s))
      (Since allowed start) := by
  apply triple_step (fun c here => here)
  intro c here
  have quiet := since_tick env here
  refine ⟨fun a after result => ?_,fun after result => ?_⟩ <;> split at result <;> cases result
  · exact ⟨quiet,_,rfl,rfl⟩
  · exact quiet

theorem commit_deferred :
    Triple (Deferred allowed start) (commit env) (fun _ => Since allowed start) (Since allowed start) := by
  apply triple_step (fun c here => here.1)
  intro c here
  obtain ⟨snapshot,held⟩ := here.2
  have deferred : (tick env c).txn = .deferred snapshot := by rw [tick_txn,held]
  have quiet := since_tick env here.1
  simp only [deferred]
  refine ⟨fun a after result => ?_,fun after result => (by cases result)⟩
  cases result
  exact quiet

theorem commit_allowed (fits : ∀ s w, rel s w → allowed ⟨true,s,w⟩) :
    Triple (Working allowed start rel) (commit env) (fun _ => Since allowed start) (Since allowed start) := by
  apply triple_step (fun c here => here.1)
  intro c here
  obtain ⟨working,locked,related⟩ := working_tick env here
  have quiet := since_tick env here.1
  simp only [locked]
  refine ⟨fun a after result => ?_,fun after result => (by cases result)⟩
  cases result
  exact publish_since (c := {tick env c with txn := .idle}) quiet true _ (fun _ => fits _ _ related)

theorem commit_once (fits : ∀ s w, rel s w → special ⟨true,s,w⟩) :
    Triple (Working allowed start rel) (commit env) (fun _ => Once allowed special start) (Since allowed start) := by
  apply triple_step (fun c here => here.1)
  intro c here
  obtain ⟨working,locked,related⟩ := working_tick env here
  have quiet := since_tick env here.1
  simp only [locked]
  refine ⟨fun a after result => ?_,fun after result => (by cases result)⟩
  cases result
  exact publish_once (c := {tick env c with txn := .idle}) quiet _ (fits _ _ related)

/-- A rollback publishes nothing, whether it succeeds or not. -/
theorem rollback_since :
    Triple (Since allowed start) (rollback env) (fun _ => Since allowed start) (Since allowed start) := by
  apply triple_step (fun c here => here)
  intro c here
  have quiet := since_tick env here
  refine ⟨fun a after result => ?_,fun after result => ?_⟩ <;>
    split at result <;> cases result <;> exact quiet

theorem attempts_since {ι : Type} (items : List ι) :
    Triple (Since allowed start) (items.foldlM (fun _ _ => attempt env) ()) (fun _ => Since allowed start)
      (Since allowed start) :=
  triple_foldlM items () (fun _ _ => attempt_since)

/-- A loop whose turns may fail computes the plain fold when it gets through. -/
theorem attempts_deferred {ι β : Type} (f : β → ι → β) (items : List ι) (b : β) :
    Triple (Deferred allowed start) (items.foldlM (fun b i => do attempt env; pure (f b i)) b)
      (fun result c => Deferred allowed start c ∧ result = items.foldl f b) (Since allowed start) := by
  induction items generalizing b with
  | nil => exact triple_pure (fun c here => ⟨here,rfl⟩)
  | cons i items ih =>
    refine @triple_bind _ _ _ _ _ _ _ (fun result c => Deferred allowed start c ∧ result = f b i) _
      (triple_bind attempt_deferred (fun _ => triple_pure (fun c here => ⟨here,rfl⟩))) ?_
    intro result c here
    obtain ⟨here,rfl⟩ := here
    exact ih (f b i) c here

/-- A sequence of statements within the transaction. -/
theorem execs_working (effects : List (σ → σ)) (rel : σ → σ → Prop) :
    Triple (Working allowed start rel) (effects.foldlM (fun _ effect => exec env effect) ())
      (fun _ => Working allowed start (fun s w => ∃ v, rel s v ∧ w = effects.foldl (fun s effect => effect s) v))
      (Since allowed start) := by
  induction effects generalizing rel with
  | nil =>
    apply triple_pure
    intro c here
    obtain ⟨quiet,working,locked,related⟩ := here
    exact ⟨quiet,working,locked,working,related,rfl⟩
  | cons effect effects ih =>
    refine triple_bind (exec_working effect) (fun _ => ?_)
    apply triple_weaken (ih _) (fun c here => here) _ (fun c here => here)
    intro _ c here
    obtain ⟨quiet,working,locked,v,⟨u,related,rfl⟩,rfl⟩ := here
    exact ⟨quiet,_,locked,u,related,rfl⟩

end Publish
end Semindex.Relational
