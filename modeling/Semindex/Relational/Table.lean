import Mathlib.Data.List.AList
import Mathlib.Data.List.Induction

/-! Tables with a primary key. A row is a key together with its remaining
columns; what an `INSERT` does to a row whose key is taken is a property of
those columns (`Conflict`), so that `INSERT OR IGNORE` and an accumulating
`ON CONFLICT DO UPDATE` obey the same laws. -/
namespace Semindex.Relational

abbrev Table (κ ν : Type) := AList (fun _ : κ => ν)

/-- The conflict clause of a table whose non-key columns are `ν`: `resolve stored incoming`
is what the row holds afterwards. Repeating an insertion later never changes a row again. -/
class Conflict (ν : Type) where
  resolve : ν → ν → ν
  resolve_assoc : ∀ a b c, resolve (resolve a b) c = resolve a (resolve b c)
  resolve_self : ∀ a, resolve a a = a
  resolve_absorb : ∀ a b, resolve (resolve a b) a = resolve a b

-- `INSERT OR IGNORE`: the stored row stays
@[reducible] def Conflict.ignore (ν : Type) : Conflict ν where
  resolve stored _ := stored
  resolve_assoc _ _ _ := rfl
  resolve_self _ := rfl
  resolve_absorb _ _ := rfl

instance : Conflict Unit := Conflict.ignore Unit

section Cell
variable {ν : Type} [Conflict ν]

def merge : Option ν → Option ν → Option ν
  | none, b => b
  | some a, none => some a
  | some a, some b => some (Conflict.resolve a b)

@[simp] theorem merge_none (a : Option ν) : merge a none = a := by cases a <;> rfl

@[simp] theorem none_merge (a : Option ν) : merge none a = a := rfl

theorem merge_assoc (a b c : Option ν) : merge (merge a b) c = merge a (merge b c) := by
  cases a <;> cases b <;> cases c <;> simp [merge,Conflict.resolve_assoc]

@[simp] theorem merge_self (a : Option ν) : merge a a = a := by
  cases a <;> simp [merge,Conflict.resolve_self]

@[simp] theorem merge_absorb (a b : Option ν) : merge (merge a b) a = merge a b := by
  cases a <;> cases b <;> simp [merge,Conflict.resolve_self,Conflict.resolve_absorb]

theorem merge_eq_none {a b : Option ν} : merge a b = none ↔ a = none ∧ b = none := by
  cases a <;> cases b <;> simp [merge]

-- the cell already accounts for `v`
def Absorbs (a : Option ν) (v : ν) : Prop := merge a (some v) = a

theorem Absorbs.merge_right {a : Option ν} {v : ν} (absorbed : Absorbs a v) (b : Option ν) :
    Absorbs (merge a b) v := by
  calc
    merge (merge a b) (some v) = merge (merge (merge a (some v)) b) (some v) := by rw [absorbed]
    _ = merge a (merge (merge (some v) b) (some v)) := by simp only [merge_assoc]
    _ = merge a (merge (some v) b) := by rw [merge_absorb]
    _ = merge (merge a (some v)) b := (merge_assoc _ _ _).symm
    _ = merge a b := by rw [absorbed]

theorem Absorbs.merge_left {b : Option ν} {v : ν} (absorbed : Absorbs b v) (a : Option ν) :
    Absorbs (merge a b) v := by
  unfold Absorbs at *
  rw [merge_assoc,absorbed]

theorem absorbs_self (v : ν) : Absorbs (some v) v := merge_self _

theorem Absorbs.isSome {a : Option ν} {v : ν} (absorbed : Absorbs a v) : a.isSome := by
  cases a with
  | none => simp [Absorbs] at absorbed
  | some => rfl

theorem merge_some (first : ∀ a b : ν, Conflict.resolve a b = a) (a : ν) (b : Option ν) :
    merge (some a) b = some a := by
  cases b <;> simp [merge,first]

def Commutes (a b : ν) : Prop := merge (some a) (some b) = merge (some b) (some a)

end Cell

section Rows
variable {κ ν : Type} [DecidableEq κ] [Conflict ν]

-- what a sequence of insertions leaves under `k` in an empty table
def gather (rows : List (κ × ν)) (k : κ) : Option ν :=
  rows.foldl (fun cell row => if row.1 = k then merge cell (some row.2) else cell) none

theorem gather_from (rows : List (κ × ν)) (k : κ) (cell : Option ν) :
    rows.foldl (fun cell row => if row.1 = k then merge cell (some row.2) else cell) cell =
      merge cell (gather rows k) := by
  induction rows generalizing cell with
  | nil => simp [gather]
  | cons row rows ih =>
    simp only [gather,List.foldl_cons]
    rw [ih,ih (if row.1 = k then merge none (some row.2) else none),← merge_assoc]
    split <;> simp

@[simp] theorem gather_nil (k : κ) : gather ([] : List (κ × ν)) k = none := rfl

theorem gather_cons (row : κ × ν) (rows : List (κ × ν)) (k : κ) :
    gather (row::rows) k = if row.1 = k then merge (some row.2) (gather rows k) else gather rows k := by
  have tail := gather_from rows k (if row.1 = k then some row.2 else none)
  simp only [gather,List.foldl_cons,none_merge]
  rw [tail]
  split <;> rfl

theorem gather_append (first second : List (κ × ν)) (k : κ) :
    gather (first ++ second) k = merge (gather first k) (gather second k) := by
  simp only [gather,List.foldl_append]
  exact gather_from second k _

theorem gather_singleton (row : κ × ν) (k : κ) :
    gather [row] k = if row.1 = k then some row.2 else none := by simp [gather_cons]

theorem gather_eq_none {rows : List (κ × ν)} {k : κ} :
    gather rows k = none ↔ ∀ row ∈ rows, row.1 ≠ k := by
  induction rows with
  | nil => simp
  | cons row rows ih =>
    rw [gather_cons]
    by_cases same : row.1 = k
    · simp [same,merge_eq_none]
    · simp [same,ih]

theorem absorbs_gather {rows : List (κ × ν)} {row : κ × ν} (member : row ∈ rows) :
    Absorbs (gather rows row.1) row.2 := by
  induction rows with
  | nil => simp at member
  | cons head rows ih =>
    rw [gather_cons]
    rcases List.mem_cons.mp member with rfl | inside
    · simpa using (absorbs_self row.2).merge_right _
    · split
      · exact (ih inside).merge_left _
      · exact ih inside

theorem merge_gather_absorbed (cell : Option ν) (rows : List (κ × ν)) (k : κ)
    (absorbed : ∀ row ∈ rows, row.1 = k → Absorbs cell row.2) : merge cell (gather rows k) = cell := by
  induction rows with
  | nil => simp
  | cons row rows ih =>
    have rest := ih (fun r member => absorbed r (by simp [member]))
    rw [gather_cons]
    split
    · rename_i same
      have head : merge cell (some row.2) = cell := absorbed row (by simp) same
      rw [← merge_assoc,head,rest]
    · exact rest

theorem gather_commutes_row (v : ν) (rows : List (κ × ν)) (k : κ)
    (commute : ∀ row ∈ rows, row.1 = k → Commutes v row.2) :
    merge (some v) (gather rows k) = merge (gather rows k) (some v) := by
  induction rows with
  | nil => simp
  | cons row rows ih =>
    have rest := ih (fun r member => commute r (by simp [member]))
    rw [gather_cons]
    split
    · rename_i same
      have swap : merge (some v) (some row.2) = merge (some row.2) (some v) := commute row (by simp) same
      rw [← merge_assoc,swap,merge_assoc,rest,merge_assoc]
    · exact rest

theorem gather_commutes (first second : List (κ × ν)) (k : κ)
    (commute : ∀ a ∈ first, ∀ b ∈ second, a.1 = k → b.1 = k → Commutes a.2 b.2) :
    merge (gather first k) (gather second k) = merge (gather second k) (gather first k) := by
  induction first with
  | nil => simp
  | cons a first ih =>
    have rest := ih (fun x member => commute x (by simp [member]))
    rw [gather_cons]
    split
    · rename_i same
      have head := gather_commutes_row a.2 second k (fun b member => commute a (by simp) b member same)
      rw [merge_assoc,rest,← merge_assoc,head,merge_assoc]
    · exact rest

theorem gather_mem (first : ∀ a b : ν, Conflict.resolve a b = a) {rows : List (κ × ν)} {k : κ} {v : ν}
    (found : gather rows k = some v) : (k,v) ∈ rows := by
  induction rows with
  | nil => simp at found
  | cons row rows ih =>
    rw [gather_cons] at found
    split at found
    · rename_i same
      have head : row.2 = v := by
        cases rest : gather rows k with
        | none => simpa [rest] using found
        | some w => simpa [rest,merge,first] using found
      simp [← same,← head]
    · simp [ih found]

-- where the stored row stays, a key has its first row
theorem gather_find (first : ∀ a b : ν, Conflict.resolve a b = a) (rows : List (κ × ν)) (k : κ) :
    gather rows k = (rows.find? (fun row => row.1 = k)).map Prod.snd := by
  induction rows with
  | nil => rfl
  | cons row rows ih =>
    rw [gather_cons,List.find?_cons]
    by_cases same : row.1 = k
    · simp [same,merge_some first]
    · simp [same,ih]

variable {ι : Type}

theorem merge_gather_filter (cell : Option ν) (items : List ι) (rows : ι → List (κ × ν))
    (keep : ι → Bool) (k : κ)
    (absorbed : ∀ item ∈ items, keep item = false → ∀ row ∈ rows item, row.1 = k → Absorbs cell row.2) :
    merge cell (gather ((items.filter keep).flatMap rows) k) =
      merge cell (gather (items.flatMap rows) k) := by
  induction items generalizing cell with
  | nil => rfl
  | cons item items ih =>
    rw [List.flatMap_cons,gather_append,← merge_assoc]
    cases kept : keep item with
    | true =>
      rw [List.filter_cons_of_pos kept,List.flatMap_cons,gather_append,← merge_assoc]
      apply ih
      intro other member dropped row inside at_k
      exact (absorbed other (by simp [member]) dropped row inside at_k).merge_right _
    | false =>
      rw [List.filter_cons_of_neg (by simp [kept]),
        merge_gather_absorbed cell (rows item) k (absorbed item (by simp) kept)]
      exact ih cell (fun other member => absorbed other (by simp [member]))

private theorem gather_split (items : List ι) (rows : ι → List (κ × ν)) (first : ι → Bool) (k : κ)
    (commute : ∀ a ∈ items, ∀ b ∈ items, first a = true → first b = false →
      ∀ x ∈ rows a, ∀ y ∈ rows b, x.1 = k → y.1 = k → Commutes x.2 y.2) :
    merge (gather ((items.filter first).flatMap rows) k)
      (gather ((items.filter (fun item => !first item)).flatMap rows) k) =
      gather (items.flatMap rows) k := by
  induction items using List.reverseRecOn with
  | nil => rfl
  | append_singleton items item ih =>
    have before := ih (fun a ha b hb => commute a (by simp [ha]) b (by simp [hb]))
    rw [List.flatMap_append,gather_append,← before,List.filter_append,List.filter_append]
    cases early : first item with
    | false =>
      simp [early,gather_append,merge_assoc]
    | true =>
      have swap := gather_commutes (rows item) ((items.filter (fun item => !first item)).flatMap rows) k (by
        intro x hx y hy
        obtain ⟨other,member,inside⟩ := List.mem_flatMap.mp hy
        obtain ⟨present,late⟩ := List.mem_filter.mp member
        exact commute item (by simp) other (by simp [present]) early (by simpa using late) x hx y inside)
      simp [early,gather_append,merge_assoc,swap]

/-- Inserting a selection of the items ahead of all of them: the selection is seen first, which
only matters where a selected and an unselected row of one key do not commute. -/
theorem gather_selected_first (items : List ι) (rows : ι → List (κ × ν)) (first : ι → Bool) (k : κ)
    (commute : ∀ a ∈ items, ∀ b ∈ items, first a = true → first b = false →
      ∀ x ∈ rows a, ∀ y ∈ rows b, x.1 = k → y.1 = k → Commutes x.2 y.2) :
    merge (gather ((items.filter first).flatMap rows) k) (gather (items.flatMap rows) k) =
      gather (items.flatMap rows) k := by
  have again := merge_gather_filter (gather ((items.filter first).flatMap rows) k) items rows
    (fun item => !first item) k (by
      intro item member selected row inside at_k
      subst at_k
      exact absorbs_gather (List.mem_flatMap.mpr
        ⟨item,List.mem_filter.mpr ⟨member,by simpa using selected⟩,inside⟩))
  rw [← again]
  exact gather_split items rows first k commute

end Rows

namespace Table
variable {κ ν : Type} [DecidableEq κ]

def restrict (t : Table κ ν) (keep : κ → ν → Bool) : Table κ ν :=
  ⟨t.entries.filter (fun row => keep row.1 row.2),
    t.nodupKeys.sublist List.filter_sublist⟩

theorem lookup_restrict (t : Table κ ν) (keep : κ → ν → Bool) (k : κ) :
    (t.restrict keep).lookup k = (t.lookup k).filter (keep k) := by
  apply Option.ext
  intro v
  rw [← Option.mem_def,AList.mem_lookup_iff]
  simp only [restrict,List.mem_filter,Option.filter_eq_some_iff]
  rw [← AList.mem_lookup_iff,Option.mem_def]

def modify (t : Table κ ν) (f : κ → ν → ν) : Table κ ν :=
  ⟨t.entries.map (fun row => ⟨row.1,f row.1 row.2⟩),by
    have keys : (t.entries.map (fun row => (⟨row.1,f row.1 row.2⟩ : Sigma fun _ => ν))).keys =
        t.entries.keys := by simp [List.keys,Function.comp_def]
    simpa only [List.NodupKeys,keys] using t.nodupKeys⟩

theorem lookup_modify (t : Table κ ν) (f : κ → ν → ν) (k : κ) :
    (t.modify f).lookup k = (t.lookup k).map (f k) := by
  apply Option.ext
  intro v
  rw [← Option.mem_def,AList.mem_lookup_iff]
  simp only [modify,List.mem_map,Option.map_eq_some_iff]
  constructor
  · intro ⟨⟨k',w⟩,member,equal⟩
    simp only [Sigma.mk.injEq,heq_eq_eq] at equal
    obtain ⟨rfl,rfl⟩ := equal
    exact ⟨w,AList.mem_lookup_iff.mpr member,rfl⟩
  · intro ⟨w,found,changed⟩
    exact ⟨⟨k,w⟩,AList.mem_lookup_iff.mp found,by rw [changed]⟩

section Insert
variable [Conflict ν]

def insertRow (t : Table κ ν) (row : κ × ν) : Table κ ν :=
  match t.lookup row.1 with
  | none => t.insert row.1 row.2
  | some stored => t.insert row.1 (Conflict.resolve stored row.2)

theorem lookup_insertRow (t : Table κ ν) (row : κ × ν) (k : κ) :
    (t.insertRow row).lookup k = merge (t.lookup k) (if row.1 = k then some row.2 else none) := by
  unfold insertRow
  by_cases same : row.1 = k
  · subst same
    split <;> rename_i found <;> simp [found,merge]
  · have other : k ≠ row.1 := Ne.symm same
    split <;> simp [AList.lookup_insert_ne other,same]

def insertRows (t : Table κ ν) (rows : List (κ × ν)) : Table κ ν := rows.foldl insertRow t

theorem lookup_insertRows (t : Table κ ν) (rows : List (κ × ν)) (k : κ) :
    (t.insertRows rows).lookup k = merge (t.lookup k) (gather rows k) := by
  induction rows generalizing t with
  | nil => simp [insertRows]
  | cons row rows ih =>
    change ((t.insertRow row).insertRows rows).lookup k = _
    rw [ih,lookup_insertRow,gather_cons,merge_assoc]
    split <;> simp

def rows (t : Table κ ν) : List (κ × ν) := t.entries.map (fun row => (row.1,row.2))

theorem gather_rows (t : Table κ ν) (k : κ) : gather t.rows k = t.lookup k := by
  obtain ⟨entries,distinct⟩ := t
  simp only [rows,AList.lookup]
  induction entries with
  | nil => rfl
  | cons row entries ih =>
    obtain ⟨absent,rest⟩ := List.nodupKeys_cons.mp distinct
    rw [List.map_cons,gather_cons,ih rest]
    by_cases same : row.1 = k
    · subst same
      rw [List.dlookup_cons_eq,List.dlookup_eq_none.mpr absent]
      simp
    · rw [if_neg same]
      exact (List.dlookup_cons_ne _ _ (Ne.symm same)).symm

end Insert

section Listed
variable {t : Table κ ν}

theorem mem_rows_iff {row : κ × ν} : row ∈ t.rows ↔ t.lookup row.1 = some row.2 := by
  rw [← Option.mem_def,AList.mem_lookup_iff,rows,List.mem_map]
  constructor
  · intro ⟨entry,member,same⟩
    rwa [← same]
  · intro member
    exact ⟨_,member,rfl⟩

omit [DecidableEq κ] in
theorem rows_distinct : t.rows.Pairwise (fun a b => a.1 ≠ b.1) := by
  rw [rows,List.pairwise_map]
  exact List.pairwise_map.mp t.nodupKeys

end Listed
end Table

end Semindex.Relational
