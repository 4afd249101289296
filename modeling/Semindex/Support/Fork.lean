import Mathlib.Data.List.Basic

/-! A fold that keeps a second state, copied from the first when the first marked
input comes, and folds of which each input is for one of several states. -/
namespace Semindex.Fork

section Copy
variable {σ α : Type} (step : σ → α → σ) (marked : α → Bool)

structure Forked (σ : Type) where
  unmarked : σ
  every : σ
  copied : Bool

/-- The state of all inputs so far. -/
def Forked.whole (state : Forked σ) : σ := if state.copied then state.every else state.unmarked

def Forked.next (state : Forked σ) (input : α) : Forked σ :=
  if marked input then ⟨state.unmarked,step state.whole input,true⟩
  else ⟨step state.unmarked input,if state.copied then step state.every input else state.every,state.copied⟩

/-- One state for the inputs without a mark and one for all of them, each folded on its own. -/
structure Independent (start : σ) (inputs : List α) (state : Forked σ) : Prop where
  unmarked : state.unmarked = (inputs.filter (fun input => !marked input)).foldl step start
  whole : state.whole = inputs.foldl step start
  copied : state.copied = inputs.any marked

variable {step marked} {start other : σ} {inputs more : List α} {state : Forked σ}

theorem independent_start : Independent step marked start [] ⟨start,other,false⟩ := ⟨rfl,rfl,rfl⟩

theorem Independent.next (holds : Independent step marked start inputs state) (input : α) :
    Independent step marked start (inputs ++ [input]) (state.next step marked input) := by
  obtain ⟨unmarked,whole,copied⟩ := holds
  cases mark : marked input with
  | true =>
    constructor
    · simpa [Forked.next,mark] using unmarked
    · simp [Forked.next,Forked.whole,mark,← whole]
    · simp [Forked.next,mark]
  | false =>
    constructor
    · simp [Forked.next,mark,unmarked]
    · rw [List.foldl_append,← whole]
      cases state.copied <;> simp [Forked.next,Forked.whole,mark] <;> split <;> rfl
    · simp [Forked.next,mark,copied]

theorem Independent.run (holds : Independent step marked start inputs state) :
    Independent step marked start (inputs ++ more) (more.foldl (Forked.next step marked) state) := by
  induction more generalizing inputs state with
  | nil => rwa [List.append_nil]
  | cons input more ih =>
    have next := ih (holds.next input)
    rwa [List.append_assoc,List.singleton_append] at next

/-- Copied late, the second state is what it would be had it been there from the start. -/
theorem independent_run (inputs : List α) :
    Independent step marked start inputs (inputs.foldl (Forked.next step marked) ⟨start,other,false⟩) :=
  independent_start.run

end Copy

section Dispatch
variable {σ α : Type} (key : α → Nat) (step : σ → α → σ)

-- a key without a state is passed over
def dispatch (states : List σ) (input : α) : List σ :=
  if states.length ≤ key input then states else states.modify (key input) (fun state => step state input)

variable {key step} {states : List σ}

theorem dispatch_get (input : α) (i : Nat) :
    (dispatch key step states input)[i]? = states[i]?.map (fun state => if key input = i then step state input else state) := by
  unfold dispatch
  split
  · rename_i beyond
    cases found : states[i]? with
    | none => rfl
    | some state =>
      have inside : i < states.length := (List.getElem?_eq_some_iff.mp found).1
      rw [Option.map_some,if_neg (by omega)]
  · rw [List.getElem?_modify]
    by_cases here : key input = i <;> simp [here]

/-- Each state is folded over its own inputs. -/
theorem dispatch_run (inputs : List α) (i : Nat) :
    (inputs.foldl (dispatch key step) states)[i]? =
      states[i]?.map (fun state => (inputs.filter (fun input => key input = i)).foldl step state) := by
  induction inputs generalizing states with
  | nil => simp
  | cons input inputs ih =>
    rw [List.foldl_cons,ih,dispatch_get,Option.map_map]
    by_cases here : key input = i <;> simp [here,Function.comp_def]

end Dispatch
end Semindex.Fork
