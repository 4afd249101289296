import Mathlib.Data.List.Basic
import Mathlib.Data.List.Sort

/-! Entries in the order of a key, where one that repeats the entry kept last is
left out. What is kept is told by the keys alone. -/
namespace Semindex.Collapse

section Kept
variable {α : Type} (key : α → Nat) (repeats : α → α → Bool)

def kept : Option α → List α → List α
  | _,[] => []
  | last,entry::entries => if last.any (repeats · entry) then kept last entries else entry::kept (some entry) entries

/-- The nearest of these with a smaller key. -/
structure Before (entries : List α) (last entry : α) : Prop where
  here : last ∈ entries
  smaller : key last < key entry
  nearest : ∀ other ∈ entries, key other < key entry → key other ≤ key last

/-- In order, and without those that repeat the one before. -/
structure Collapsed (last : Option α) (entries printed : List α) : Prop where
  sorted : printed.Pairwise (fun a b => key a < key b)
  taken : ∀ entry, entry ∈ printed ↔ entry ∈ entries ∧
    ∀ near, Before key (last.toList ++ printed) near entry → repeats near entry = false

variable {key repeats} {last : Option α} {entry near first : α} {entries printed : List α}

theorem before_first (low : ∀ l ∈ last, key l < key entry) (behind : ∀ other ∈ printed, key entry ≤ key other) :
    Before key (last.toList ++ printed) near entry ↔ last = some near := by
  constructor
  · intro before
    rcases List.mem_append.mp before.here with here | here
    · exact Option.mem_toList.mp here
    · exact absurd before.smaller (Nat.not_lt.mpr (behind near here))
  · intro same
    subst same
    refine ⟨List.mem_append_left _ (by simp),low near rfl,fun other inside smaller => ?_⟩
    rcases List.mem_append.mp inside with here | here
    · rw [Option.mem_toList.mp here |> Option.some.inj]
    · exact absurd smaller (Nat.not_lt.mpr (behind other here))

theorem before_later (low : ∀ l ∈ last, key l < key first) (later : key first < key entry) :
    Before key (last.toList ++ first::printed) near entry ↔ Before key (first::printed) near entry := by
  constructor
  · intro before
    have reached := before.nearest first (List.mem_append_right _ List.mem_cons_self) later
    refine ⟨?_,before.smaller,fun other inside => before.nearest other (List.mem_append_right _ inside)⟩
    rcases List.mem_append.mp before.here with here | here
    · exact absurd (low near (Option.mem_toList.mp here)) (Nat.not_lt.mpr reached)
    · exact here
  · intro before
    have reached := before.nearest first List.mem_cons_self later
    refine ⟨List.mem_append_right _ before.here,before.smaller,fun other inside smaller => ?_⟩
    rcases List.mem_append.mp inside with here | here
    · exact ((low other (Option.mem_toList.mp here)).trans_le reached).le
    · exact before.nearest other here smaller

theorem collapsed_skip (low : ∀ l ∈ last, key l < key entry) (behind : ∀ other ∈ entries, key entry < key other)
    (again : last.any (repeats · entry) = true) :
    Collapsed key repeats last (entry::entries) printed ↔ Collapsed key repeats last entries printed := by
  obtain ⟨l,same,again⟩ := (Option.any_eq_true _ _).mp again
  -- what repeats the last one is never taken
  have never (listed : ∀ e ∈ printed, e ∈ entry::entries) :
      ¬ ∀ near, Before key (last.toList ++ printed) near entry → repeats near entry = false := by
    intro free
    have bound : ∀ e ∈ printed, key entry ≤ key e := fun e inside =>
      (List.mem_cons.mp (listed e inside)).elim (fun here => here ▸ Nat.le_refl _) (fun more => (behind e more).le)
    rw [free l ((before_first low bound).mpr same)] at again
    cases again
  constructor
  · intro collapsed
    refine ⟨collapsed.sorted,fun e => ⟨fun inside => ?_,fun both => ?_⟩⟩
    · obtain ⟨listed,free⟩ := (collapsed.taken e).mp inside
      refine ⟨(List.mem_cons.mp listed).resolve_left (fun here => ?_),free⟩
      rw [here] at free
      exact never (fun other member => ((collapsed.taken other).mp member).1) free
    · exact (collapsed.taken e).mpr ⟨List.mem_cons_of_mem _ both.1,both.2⟩
  · intro collapsed
    refine ⟨collapsed.sorted,fun e => ⟨fun inside => ?_,fun both => ?_⟩⟩
    · obtain ⟨listed,free⟩ := (collapsed.taken e).mp inside
      exact ⟨List.mem_cons_of_mem _ listed,free⟩
    · obtain ⟨listed,free⟩ := both
      refine (collapsed.taken e).mpr ⟨(List.mem_cons.mp listed).resolve_left (fun here => ?_),free⟩
      rw [here] at free
      exact never (fun other member => List.mem_cons_of_mem _ ((collapsed.taken other).mp member).1) free

theorem collapsed_keep (low : ∀ l ∈ last, key l < key entry) (behind : ∀ other ∈ entries, key entry < key other)
    (fresh : last.any (repeats · entry) = false) : Collapsed key repeats last (entry::entries) printed ↔
      ∃ others, printed = entry::others ∧ Collapsed key repeats (some entry) entries others := by
  have new (near : α) (same : last = some near) : repeats near entry = false := by
    rw [same] at fresh
    exact fresh
  constructor
  · intro collapsed
    have bound : ∀ e ∈ printed, key entry ≤ key e := fun e inside =>
      (List.mem_cons.mp ((collapsed.taken e).mp inside).1).elim (fun here => here ▸ Nat.le_refl _) (fun more => (behind e more).le)
    have present : entry ∈ printed := (collapsed.taken entry).mpr
      ⟨List.mem_cons_self,fun near before => new near ((before_first low bound).mp before)⟩
    cases printed with
    | nil => cases present
    | cons first others =>
      obtain ⟨after,sorted⟩ := List.pairwise_cons.mp collapsed.sorted
      have same : entry = first := (List.mem_cons.mp present).resolve_right (fun later =>
        absurd (after entry later) (Nat.not_lt.mpr (bound first List.mem_cons_self)))
      subst same
      refine ⟨others,rfl,sorted,fun e => ⟨fun inside => ?_,fun both => ?_⟩⟩
      · obtain ⟨listed,free⟩ := (collapsed.taken e).mp (List.mem_cons_of_mem _ inside)
        have later := after e inside
        refine ⟨(List.mem_cons.mp listed).resolve_left (fun here => ?_),fun near before => free near ((before_later low later).mpr before)⟩
        rw [here] at later
        exact Nat.lt_irrefl _ later
      · obtain ⟨listed,free⟩ := both
        have later := behind e listed
        have inside := (collapsed.taken e).mpr ⟨List.mem_cons_of_mem _ listed,fun near before => free near ((before_later low later).mp before)⟩
        refine (List.mem_cons.mp inside).resolve_left (fun here => ?_)
        rw [here] at later
        exact Nat.lt_irrefl _ later
  · intro split
    obtain ⟨others,same,collapsed⟩ := split
    subst same
    have after : ∀ e ∈ others, key entry < key e := fun e inside => behind e ((collapsed.taken e).mp inside).1
    refine ⟨List.pairwise_cons.mpr ⟨after,collapsed.sorted⟩,fun e => ?_⟩
    by_cases here : e = entry
    · subst here
      have bound : ∀ other ∈ e::others, key e ≤ key other := fun other inside =>
        (List.mem_cons.mp inside).elim (fun same => same ▸ Nat.le_refl _) (fun more => (after other more).le)
      exact iff_of_true List.mem_cons_self ⟨List.mem_cons_self,fun near before => new near ((before_first low bound).mp before)⟩
    · rw [List.mem_cons,or_iff_right here,List.mem_cons,or_iff_right here,collapsed.taken e]
      refine and_congr_right (fun listed => forall_congr' (fun near => ?_))
      rw [before_later low (behind e listed)]
      rfl

/-- There is one way to do so. -/
theorem collapsed_iff (sorted : entries.Pairwise (fun a b => key a < key b)) (low : ∀ l ∈ last, ∀ e ∈ entries, key l < key e) :
    Collapsed key repeats last entries printed ↔ printed = kept repeats last entries := by
  induction entries generalizing last printed with
  | nil =>
    constructor
    · intro collapsed
      exact List.eq_nil_iff_forall_not_mem.mpr (fun entry inside => List.not_mem_nil ((collapsed.taken entry).mp inside).1)
    · intro same
      rw [same]
      exact ⟨.nil,fun entry => iff_of_false List.not_mem_nil (fun both => List.not_mem_nil both.1)⟩
  | cons entry entries ih =>
    obtain ⟨behind,rest⟩ := List.pairwise_cons.mp sorted
    have here : ∀ l ∈ last, key l < key entry := fun l held => low l held entry List.mem_cons_self
    rw [kept]
    by_cases again : last.any (repeats · entry) = true
    · rw [if_pos again,collapsed_skip here behind again]
      exact ih rest (fun l held e inside => low l held e (List.mem_cons_of_mem _ inside))
    · rw [if_neg again,collapsed_keep here behind (Bool.eq_false_iff.mpr again)]
      have onward (others : List α) := @ih (some entry) others rest (fun l held e inside => by
        cases held
        exact behind e inside)
      constructor
      · intro split
        obtain ⟨others,same,collapsed⟩ := split
        rw [same,(onward others).mp collapsed]
      · intro same
        exact ⟨_,same,(onward _).mpr rfl⟩

end Kept
end Semindex.Collapse
