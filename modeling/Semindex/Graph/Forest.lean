import Mathlib.Data.List.Basic

/-! Forests, their preorder, and traversals that hold a value of the node they
are in: set on the way in, put back on the way out. -/
namespace Semindex.Graph

inductive Forest (α : Type) where
  | nil
  | node (label : α) (inside after : Forest α)

namespace Forest
variable {α ι τ ε : Type}

/-- The nodes in preorder, each with the nodes around it from the inside out. -/
def visits : List α → Forest α → List (α × List α)
  | _, nil => []
  | around, node a inside after => (a,around)::(inside.visits (a::around) ++ after.visits around)

def traverse (enter : α → ι → ι) (visit : ι → List α → α → τ → τ) : Forest α → List α → ι × τ → ι × τ
  | nil, _, s => s
  | node a inside after, around, (old,t) =>
    let current := enter a old
    let s := traverse enter visit inside (a::around) (current,visit current around a t)
    traverse enter visit after around (old,s.2)

/-- The value held inside these nodes. -/
def held (enter : α → ι → ι) (start : ι) (around : List α) : ι := around.foldr enter start

/-- A traversal visits in preorder with the value the nodes around give, and leaves the value it found. -/
theorem traverse_eq (enter : α → ι → ι) (visit : ι → List α → α → τ → τ) (start : ι) (forest : Forest α)
    (around : List α) (t : τ) :
    forest.traverse enter visit around (held enter start around,t) =
      (held enter start around,(forest.visits around).foldl
        (fun t v => visit (held enter start (v.1::v.2)) v.2 v.1 t) t) := by
  induction forest generalizing around t with
  | nil => rfl
  | node a inside after insideIH afterIH =>
    have entered : enter a (held enter start around) = held enter start (a::around) := rfl
    rw [traverse,entered,insideIH,afterIH,visits,List.foldl_cons,List.foldl_append]

section Collect
variable {β : Type} (step : β → τ → List ε × τ)

/-- What the steps put out one after the other. -/
def collect : List β → τ → List ε × τ
  | [], t => ([],t)
  | b::rest, t => ((step b t).1 ++ (collect rest (step b t).2).1,(collect rest (step b t).2).2)

theorem foldl_collect (bs : List β) (t : τ) (out : List ε) :
    bs.foldl (fun s b => ((step b s.1).2,s.2 ++ (step b s.1).1)) (t,out) =
      ((collect step bs t).2,out ++ (collect step bs t).1) := by
  induction bs generalizing t out with
  | nil => simp [collect]
  | cons b bs ih => rw [List.foldl_cons,ih,collect,List.append_assoc]

theorem mem_collect {bs : List β} {t : τ} {e : ε} : e ∈ (collect step bs t).1 ↔
    ∃ before b after, bs = before ++ b::after ∧ e ∈ (step b (collect step before t).2).1 := by
  induction bs generalizing t with
  | nil => simp [collect]
  | cons b bs ih =>
    rw [collect,List.mem_append,ih]
    constructor
    · intro found
      rcases found with here | ⟨before,c,after,rfl,later⟩
      · exact ⟨[],b,bs,rfl,here⟩
      · exact ⟨b::before,c,after,rfl,later⟩
    · intro ⟨before,c,after,same,found⟩
      cases before with
      | nil =>
        obtain ⟨rfl,rfl⟩ := List.cons.inj same
        exact .inl found
      | cons d before =>
        obtain ⟨rfl,rest⟩ := List.cons.inj same
        exact .inr ⟨before,c,after,rest,found⟩

end Collect
end Forest
end Semindex.Graph
