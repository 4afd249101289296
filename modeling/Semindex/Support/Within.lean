import Semindex.Support.Path

/-! What lies below a directory: rooted names that start with the directory's and have no
way up behind them. Relative names without a way up stay below the directory that they
are appended to, in normal form too. -/
namespace Semindex.Canonical

def Below (directory : Canonical) (path : Pathname) : Prop :=
  ∃ rest, path = ⟨true,directory.names ++ rest⟩ ∧ Pathname.dotdot ∉ rest

section Normal
variable {directory : Canonical} {path base : Pathname} {names : List Text}

theorem normal_pushes (plain : Pathname.dotdot ∉ names) (state : List Text × Bool) :
    ∃ kept, (names.foldl (Pathname.normalStep true) state).1 = kept ++ state.1 ∧ Pathname.dotdot ∉ kept := by
  induction names generalizing state with
  | nil => exact ⟨[],rfl,List.not_mem_nil⟩
  | cons name names ih =>
    rw [List.mem_cons,not_or] at plain
    obtain ⟨kept,pushed,free⟩ := ih plain.2 (Pathname.normalStep true state name)
    rw [List.foldl_cons,pushed,Pathname.normalStep,if_neg (Ne.symm plain.1)]
    split_ifs
    · exact ⟨kept,rfl,free⟩
    · refine ⟨kept ++ [name],by simp,?_⟩
      simp only [List.mem_append,List.mem_singleton,not_or]
      exact ⟨free,plain.1⟩

theorem normal_below (below : directory.Below path) : directory.Below path.lexicallyNormal := by
  obtain ⟨rest,rfl,plain⟩ := below
  obtain ⟨kept,pushed,free⟩ := normal_pushes plain (directory.names.foldl (Pathname.normalStep true) ([],false))
  rw [← List.foldl_append,normal_proper directory.names directory.proper,List.append_nil] at pushed
  unfold Pathname.lexicallyNormal
  rw [if_neg (by simp [Pathname.isEmpty])]
  dsimp only
  split
  · rename_i separated result
    rw [result] at pushed
    obtain ⟨none,empty⟩ := List.append_eq_nil_iff.mp pushed.symm
    exact ⟨[],by simp [List.reverse_eq_nil_iff.mp empty],List.not_mem_nil⟩
  · rename_i last others separated result
    rw [result] at pushed
    dsimp only at pushed
    refine ⟨kept.reverse ++ if separated ∧ last ≠ Pathname.dotdot then [[]] else [],?_,?_⟩
    · rw [pushed,List.reverse_append,List.reverse_reverse,List.append_assoc]
    · rw [List.mem_append,List.mem_reverse,not_or]
      refine ⟨free,?_⟩
      split_ifs <;> simp [Pathname.dotdot]

theorem append_below (relative : path.rooted = false) (plain : Pathname.dotdot ∉ path.names) :
    directory.Below (directory.path.append path) := by
  have last : directory.names.getLast? ≠ some [] := fun same =>
    (directory.proper [] (List.mem_of_getLast? same)).nonempty rfl
  unfold Pathname.append Canonical.path
  dsimp only
  rw [if_neg (by simp [relative]),if_neg last]
  split_ifs with top none
  · exact ⟨path.names,by simp [top],plain⟩
  · exact ⟨[[]],rfl,by simp [Pathname.dotdot]⟩
  · exact ⟨path.names,rfl,plain⟩

end Normal

section Relative
variable {directory : Canonical} {path base : Pathname}

/-- The relative name by what is left of both paths behind the names that they share. -/
theorem relative_cases (same : path.rooted = base.rooted) : ∃ common under above,
    path.names = common ++ under ∧ base.names = common ++ above ∧
      ((Pathname.climbs above = 0 ∧ path.lexicallyRelative base = ⟨false,[Pathname.dot]⟩) ∨
        (Pathname.climbs above < 0 ∧ path.lexicallyRelative base = ⟨false,[]⟩) ∨
        (0 ≤ Pathname.climbs above ∧ (Pathname.climbs above = 0 → ∃ first rest, under = first::rest ∧ first ≠ []) ∧
          path.lexicallyRelative base = ⟨false,List.replicate (Pathname.climbs above).toNat Pathname.dotdot ++ under⟩)) := by
  obtain ⟨common,left,right⟩ := mismatch_spec path.names base.names
  refine ⟨common,_,_,left,right,?_⟩
  unfold Pathname.lexicallyRelative
  rw [if_neg (by simp [same])]
  generalize Pathname.mismatch path.names base.names = cut
  obtain ⟨under,above⟩ := cut
  dsimp only
  split
  · rename_i empty
    cases empty
    exact .inl ⟨rfl,rfl⟩
  · rename_i taken rest _ pair
    cases pair
    split_ifs with level low
    · exact .inl ⟨level.1,rfl⟩
    · exact .inr (.inl ⟨low,rfl⟩)
    · refine .inr (.inr ⟨by omega,fun zero => ?_,rfl⟩)
      rw [not_and_or,not_or] at level
      obtain ⟨present,named⟩ := level.resolve_left (not_not.mpr zero)
      obtain ⟨first,rest,rfl⟩ := List.exists_cons_of_ne_nil present
      exact ⟨first,rest,rfl,fun none => named (by simp [none])⟩

/-- A relative name that does not go up has only names of the path, and starts with one. -/
theorem relative_names (present : (path.lexicallyRelative base).isEmpty = false)
    (ahead : (path.lexicallyRelative base).names.head? ≠ some Pathname.dotdot) : ∃ first rest,
      path.lexicallyRelative base = ⟨false,first::rest⟩ ∧ first ≠ [] ∧
        ∀ name ∈ first::rest, name = Pathname.dot ∨ name ∈ path.names := by
  by_cases same : path.rooted = base.rooted
  · obtain ⟨common,under,above,left,_,⟨_,dotted⟩ | ⟨_,empty⟩ | ⟨positive,named,spelled⟩⟩ := relative_cases same
    · exact ⟨Pathname.dot,[],dotted,by simp [Pathname.dot],by simp⟩
    · rw [empty] at present
      cases present
    · have level : (Pathname.climbs above).toNat = 0 := by
        cases count : (Pathname.climbs above).toNat with
        | zero => rfl
        | succ n =>
          rw [spelled,count] at ahead
          exact absurd rfl ahead
      obtain ⟨first,rest,rfl,nonempty⟩ := named (by omega)
      refine ⟨first,rest,by rw [spelled,level]; rfl,nonempty,fun name member => .inr ?_⟩
      rw [left]
      exact List.mem_append_right _ member
  · rw [Pathname.lexicallyRelative,if_pos same] at present
    cases present

/-- Where the way from the directory does not go up, the path is below it. -/
theorem below_of_relative (rooted : path.rooted = true) (plain : Pathname.dotdot ∉ path.names)
    (ahead : (path.lexicallyRelative directory.path).names.head? ≠ some Pathname.dotdot) : directory.Below path := by
  obtain ⟨common,under,above,left,right,cases⟩ := @relative_cases path directory.path rooted
  change directory.names = common ++ above at right
  have count : Pathname.climbs above = above.length :=
    climbs_proper (fun name member => directory.proper name (right ▸ List.mem_append_right _ member))
  have level : above = [] := by
    rw [← List.length_eq_zero_iff]
    rcases cases with ⟨zero,_⟩ | ⟨low,_⟩ | ⟨_,_,spelled⟩
    · omega
    · omega
    · cases climbed : above.length with
      | zero => rfl
      | succ n =>
        rw [spelled,count,climbed] at ahead
        exact absurd rfl ahead
  rw [level,List.append_nil] at right
  refine ⟨under,?_,fun up => plain ?_⟩
  · rw [right,← left,← rooted]
  · rw [left]
    exact List.mem_append_right _ up

/-- What is spelled from such names is read back with no others. -/
theorem ofText_relative {first : Text} {rest : List Text} (nonempty : first ≠ []) (plain : ∀ name ∈ first::rest, '/' ∉ name) :
    (Pathname.ofText (Pathname.text ⟨false,first::rest⟩)).rooted = false ∧
      ∀ name ∈ (Pathname.ofText (Pathname.text ⟨false,first::rest⟩)).names, name = [] ∨ name ∈ first::rest := by
  have split : (Pathname.text ⟨false,first::rest⟩).splitOn '/' = first::rest := by
    change (['/'].intercalate (first::rest)).splitOn '/' = first::rest
    exact List.splitOn_intercalate '/' plain (List.cons_ne_nil _ _)
  have head : (Pathname.text ⟨false,first::rest⟩).head? ≠ some '/' := by
    obtain ⟨c,others,rfl⟩ := List.exists_cons_of_ne_nil nonempty
    have other : c ≠ '/' := fun same => plain (c::others) List.mem_cons_self (same ▸ List.mem_cons_self)
    cases rest with
    | nil => simpa [Pathname.text] using other
    | cons second rest => simpa [Pathname.text,List.intercalate_cons_of_ne_nil] using other
  unfold Pathname.ofText
  rw [split]
  refine ⟨by simpa using head,?_⟩
  intro name member
  dsimp only at member
  have listed : name ∈ (first::rest).filter (fun name => name ≠ []) → name ∈ first::rest := fun inside => (List.mem_filter.mp inside).1
  split_ifs at member
  · rcases List.mem_append.mp member with inside | last
    · exact .inr (listed inside)
    · exact .inl (List.mem_singleton.mp last)
  · exact .inr (listed member)

end Relative

section Forms
variable {directory file : Canonical} {separated : Bool}

theorem form_names {name : Text} (member : name ∈ (form file separated).names) : name = [] ∨ Proper name := by
  unfold form at member
  dsimp only at member
  split_ifs at member
  · rcases List.mem_append.mp member with listed | last
    · exact .inr (file.proper name listed)
    · exact .inl (List.mem_singleton.mp last)
  · rw [List.append_nil] at member
    exact .inr (file.proper name member)

theorem form_plain : Pathname.dotdot ∉ (form file separated).names ∧ ∀ name ∈ (form file separated).names, '/' ∉ name := by
  constructor
  · intro up
    rcases form_names up with none | proper
    · cases none
    · exact proper.notDotdot rfl
  · intro name member
    rcases form_names member with rfl | proper
    · exact List.not_mem_nil
    · exact proper.plain

end Forms
end Semindex.Canonical
