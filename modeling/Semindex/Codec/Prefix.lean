import Mathlib.Data.List.Basic

/-! Encodings that can be split off the front of a stream. Two encodings split with
`same` when streams that start with them are equal only if `same` holds and what
follows is equal too. -/
namespace Semindex.Codec

section Splits
variable {β : Type}

def Splits (first second : List β) (same : Prop) : Prop :=
  ∀ s t, first ++ s = second ++ t → same ∧ s = t

theorem splits_of_length {first second : List β} (length : first.length = second.length) :
    Splits first second (first = second) := by
  intro s t equal
  exact List.append_inj equal length

theorem Splits.weaken {first second : List β} {same weaker : Prop} (splits : Splits first second same)
    (implies : same → weaker) : Splits first second weaker := by
  intro s t equal
  obtain ⟨agree,rest⟩ := splits s t equal
  exact ⟨implies agree,rest⟩

/-- What follows may be split knowing what the front has determined. -/
theorem Splits.append {first second more other : List β} {same next : Prop} (front : Splits first second same)
    (behind : same → Splits more other next) : Splits (first ++ more) (second ++ other) (same ∧ next) := by
  intro s t equal
  rw [List.append_assoc,List.append_assoc] at equal
  obtain ⟨agree,rest⟩ := front _ _ equal
  obtain ⟨then',last⟩ := behind agree s t rest
  exact ⟨⟨agree,then'⟩,last⟩

theorem Splits.whole {first second : List β} {same : Prop} (splits : Splits first second same)
    (equal : first = second) : same :=
  (splits [] [] (by rw [equal])).1

end Splits

section Sequences
variable {α β : Type} {write : α → List β} {agree : α → α → Prop}

/-- A stream of items none of which is empty has one reading. -/
theorem forall₂_of_stream {first second : List α}
    (splits : ∀ a ∈ first, ∀ b ∈ second, Splits (write a) (write b) (agree a b))
    (present : ∀ a, write a ≠ []) (equal : first.flatMap write = second.flatMap write) :
    List.Forall₂ agree first second := by
  induction first generalizing second with
  | nil =>
    cases second with
    | nil => exact .nil
    | cons b second =>
      rw [List.flatMap_nil,List.flatMap_cons] at equal
      exact absurd (List.append_eq_nil_iff.mp equal.symm).1 (present b)
  | cons a first ih =>
    cases second with
    | nil =>
      rw [List.flatMap_nil,List.flatMap_cons] at equal
      exact absurd (List.append_eq_nil_iff.mp equal).1 (present a)
    | cons b second =>
      rw [List.flatMap_cons,List.flatMap_cons] at equal
      obtain ⟨here,rest⟩ := splits a (by simp) b (by simp) _ _ equal
      refine .cons here (ih ?_ rest)
      intro c memberC d memberD
      exact splits c (by simp [memberC]) d (by simp [memberD])

/-- Items behind their number may be empty. -/
theorem splits_counted {first second : List α} (length : first.length = second.length)
    (splits : ∀ a ∈ first, ∀ b ∈ second, Splits (write a) (write b) (agree a b)) :
    Splits (first.flatMap write) (second.flatMap write) (List.Forall₂ agree first second) := by
  induction first generalizing second with
  | nil =>
    obtain rfl := List.length_eq_zero_iff.mp length.symm
    intro s t equal
    exact ⟨.nil,equal⟩
  | cons a first ih =>
    cases second with
    | nil => contradiction
    | cons b second =>
      rw [List.flatMap_cons,List.flatMap_cons]
      have rest : Splits (first.flatMap write) (second.flatMap write) (List.Forall₂ agree first second) := by
        apply ih (Nat.succ.inj length)
        intro c memberC d memberD
        exact splits c (by simp [memberC]) d (by simp [memberD])
      exact ((splits a (by simp) b (by simp)).append (fun _ => rest)).weaken (fun both => .cons both.1 both.2)

theorem forall₂_mem {γ : Type} {R : α → γ → Prop} {first : List α} {second : List γ}
    (paired : List.Forall₂ R first second) {a : α} (member : a ∈ first) : ∃ b ∈ second, R a b := by
  induction paired with
  | nil => simp at member
  | cons here _ ih =>
    obtain rfl | member := List.mem_cons.mp member
    · exact ⟨_,by simp,here⟩
    · obtain ⟨b,inside,agree⟩ := ih member
      exact ⟨b,by simp [inside],agree⟩

theorem flatMap_of_paired {γ δ : Type} {R : α → γ → Prop} {first : List α} {second : List γ} {f : α → List δ}
    {g : γ → List δ} (paired : List.Forall₂ R first second) (equal : ∀ a b, R a b → f a = g b) :
    first.flatMap f = second.flatMap g := by
  induction paired with
  | nil => rfl
  | cons here _ ih => rw [List.flatMap_cons,List.flatMap_cons,equal _ _ here,ih]

end Sequences

end Semindex.Codec
