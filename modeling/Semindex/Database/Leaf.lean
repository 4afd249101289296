import Semindex.Database.Rows

/-! The leaf of a qualified name. `qualified_leaf` takes what follows the last `.`
or `::`, which is the name that `qualified_name` was given just where the name
has no separator of its own and makes none with what precedes it. -/
namespace Semindex.Database
open Semindex.Relational Semindex.IndexDb

section Scan

-- the text after the last separator
def lastLeaf : Text → Option Text
  | [] => none
  | c::rest =>
    match lastLeaf rest with
    | some leaf => some leaf
    | none => if c = '.' then some rest else if c = ':' ∧ rest.head? = some ':' then some rest.tail else none

/-- The pointer never stands behind the scan, so the comparison with it changes nothing. -/
theorem scanLeaf_tail (last : Option Text) (s : Text) (behind : ∀ text ∈ last, s.length ≤ text.length) :
    (scanLeaf last s).map List.tail = (lastLeaf s).or (last.map List.tail) := by
  induction s generalizing last with
  | nil => simp [scanLeaf,lastLeaf]
  | cons c rest ih =>
    rw [scanLeaf,lastLeaf]
    by_cases dot : c = '.'
    · subst dot
      simp only [if_true,Char.reduceEq,decide_false,Bool.false_and,Bool.false_eq_true,if_false]
      rw [ih _ (by simp)]
      cases lastLeaf rest <;> rfl
    · have compared : last.all (fun text => decide ((c::rest).length ≤ text.length)) = true := by
        simpa [Option.all_eq_true] using behind
      simp only [if_neg dot,compared,Bool.and_true]
      by_cases colons : c = ':' ∧ rest.head? = some ':'
      · simp only [colons,decide_true,Bool.true_and,and_self,if_true]
        rw [ih _ (by simp)]
        cases lastLeaf rest <;> rfl
      · have apart : (decide (c = ':') && decide (rest.head? = some ':')) = false := by
          simpa using colons
        simp only [apart,Bool.false_eq_true,if_false,if_neg colons]
        rw [ih last (fun text given => by
          have bound := behind text given
          rw [List.length_cons] at bound
          omega)]
        cases lastLeaf rest <;> simp

theorem qualifiedLeaf_eq (s : Text) : qualifiedLeaf s = (lastLeaf s).getD s := by
  have scanned := scanLeaf_tail none s (by simp)
  unfold qualifiedLeaf
  cases found : scanLeaf none s with
  | none =>
    rw [found] at scanned
    have absent : lastLeaf s = none := by simpa using scanned.symm
    simp [absent]
  | some last =>
    rw [found] at scanned
    have leaf : lastLeaf s = some last.tail := by simpa using scanned.symm
    simp [leaf]

theorem lastLeaf_none {s : Text} : lastLeaf s = none ↔ '.' ∉ s ∧ ¬ "::".toList <:+: s := by
  induction s with
  | nil => simp [lastLeaf]
  | cons c rest ih =>
    have colons : "::".toList <+: c::rest ↔ c = ':' ∧ rest.head? = some ':' := by
      cases rest with
      | nil => simp
      | cons d rest => simp [List.cons_prefix_cons,eq_comm]
    rw [lastLeaf,List.infix_cons_iff,colons]
    cases inner : lastLeaf rest with
    | some leaf =>
      rw [inner] at ih
      simp only [reduceCtorEq,false_iff] at ih ⊢
      intro ⟨dot,separated⟩
      exact ih ⟨fun member => dot (List.mem_cons_of_mem c member),fun inside => separated (.inr inside)⟩
    | none =>
      obtain ⟨dot,separated⟩ := ih.mp inner
      by_cases here : c = '.'
      · simp [here]
      · by_cases both : c = ':' ∧ rest.head? = some ':'
        · simp [both]
        · simp only [if_neg here,if_neg both,true_iff]
          exact ⟨by simp [Ne.symm here,dot],fun either => either.elim both separated⟩

/-- A leaf is a proper suffix. -/
theorem lastLeaf_suffix {s leaf : Text} (found : lastLeaf s = some leaf) : ∃ front, front ≠ [] ∧ s = front ++ leaf := by
  induction s with
  | nil => simp [lastLeaf] at found
  | cons c rest ih =>
    rw [lastLeaf] at found
    split at found
    · rename_i inner known
      obtain ⟨front,_,rfl⟩ := ih (known.trans found)
      exact ⟨c::front,by simp,rfl⟩
    · split at found
      · cases Option.some.inj found
        exact ⟨[c],by simp,rfl⟩
      · split at found
        · rename_i colons
          cases rest with
          | nil => simp at colons
          | cons d rest =>
            cases Option.some.inj found
            exact ⟨[c,d],by simp,rfl⟩
        · contradiction

theorem lastLeaf_append {s leaf : Text} (front : Text) (found : lastLeaf s = some leaf) :
    lastLeaf (front ++ s) = some leaf := by
  induction front with
  | nil => exact found
  | cons c front ih =>
    rw [List.cons_append,lastLeaf,ih]

end Scan

section Name

/-- The name has no separator, and after `::` it does not start with a colon. -/
structure Unseparated (owner name : Text) : Prop where
  dot : '.' ∉ name
  colons : ¬ "::".toList <:+: name
  start : "::".toList <:+: owner → name.head? ≠ some ':'

instance (owner name : Text) : Decidable (Unseparated owner name) :=
  decidable_of_iff ('.' ∉ name ∧ ¬ "::".toList <:+: name ∧ ("::".toList <:+: owner → name.head? ≠ some ':'))
    ⟨fun h => ⟨h.1,h.2.1,h.2.2⟩,fun h => ⟨h.dot,h.colons,h.start⟩⟩

variable {owner name : Text}

theorem leaf_qualifiedName (unseparated : Unseparated owner name) :
    qualifiedLeaf (qualifiedName owner name) = name := by
  have inner : lastLeaf name = none := lastLeaf_none.mpr ⟨unseparated.dot,unseparated.colons⟩
  rw [qualifiedLeaf_eq]
  unfold qualifiedName
  split
  · simp [inner]
  · split
    · rename_i nested
      have apart := unseparated.start nested
      have tail : lastLeaf ("::".toList ++ name) = some name := by simp [lastLeaf,inner,apart]
      rw [List.append_assoc,lastLeaf_append owner tail,Option.getD_some]
    · have tail : lastLeaf (".".toList ++ name) = some name := by simp [lastLeaf,inner]
      rw [List.append_assoc,lastLeaf_append owner tail,Option.getD_some]

/-- Otherwise the leaf is the end of the name behind a separator. -/
theorem leaf_suffix (separated : ¬ Unseparated owner name) :
    ∃ front, front ≠ [] ∧ name = front ++ qualifiedLeaf (qualifiedName owner name) := by
  rw [qualifiedLeaf_eq]
  cases inner : lastLeaf name with
  | some leaf =>
    have whole : lastLeaf (qualifiedName owner name) = some leaf := by
      unfold qualifiedName
      split
      · exact inner
      · split
        · rw [List.append_assoc]
          exact lastLeaf_append owner (lastLeaf_append _ inner)
        · rw [List.append_assoc]
          exact lastLeaf_append owner (lastLeaf_append _ inner)
    rw [whole]
    exact lastLeaf_suffix inner
  | none =>
    obtain ⟨dot,colons⟩ := lastLeaf_none.mp inner
    have meets : "::".toList <:+: owner ∧ name.head? = some ':' := by
      by_contra apart
      exact separated ⟨dot,colons,fun nested first => apart ⟨nested,first⟩⟩
    obtain ⟨nested,first⟩ := meets
    cases name with
    | nil => simp at first
    | cons c rest =>
      obtain rfl : c = ':' := by simpa using first
      have owned : owner ≠ [] := by
        intro empty
        simp [empty] at nested
      have tail : lastLeaf ("::".toList ++ ':'::rest) = some rest := by
        change lastLeaf (':' :: ':' :: ':' :: rest) = _
        rw [lastLeaf,lastLeaf,inner]
        simp
      rw [qualifiedName,if_neg owned,if_pos nested,List.append_assoc,lastLeaf_append owner tail]
      exact ⟨[':'],by simp,rfl⟩

theorem byteLength_append (first second : Text) : byteLength (first ++ second) = byteLength first + byteLength second := by
  simp [byteLength,utf8]

theorem byteLength_pos {text : Text} (present : text ≠ []) : 0 < byteLength text := by
  cases text with
  | nil => contradiction
  | cons c rest =>
    have one := Char.utf8Size_pos c
    simp only [byteLength,utf8,List.flatMap_cons,List.length_append,String.length_utf8EncodeChar]
    omega

theorem leaf_byteLength_lt (separated : ¬ Unseparated owner name) :
    byteLength (qualifiedLeaf (qualifiedName owner name)) < byteLength name := by
  obtain ⟨front,present,shape⟩ := leaf_suffix separated
  have positive := byteLength_pos present
  have length := congrArg byteLength shape
  rw [byteLength_append] at length
  omega

end Name

section Found
variable {db : Db} {row : RecordRow} {owner name : Text}

/-- The record is emitted for its own line at exactly the columns of the name. -/
def FoundExactly (db : Db) (row : RecordRow) (name : Text) : Prop :=
  ∀ column, (∃ records, collected (semindexDbFindAt db row.path (some row.variant) row.key.line column) = some records ∧
    dbRecord row ∈ records) ↔ row.key.column ≤ column ∧ column < row.key.column + byteLength name

theorem mem_selectAt {path : Text} {variant : Option Text} {line column : Nat} :
    row ∈ selectAt db path variant line column ↔ row ∈ joinedRecords db ∧ row.path = path ∧
      variant.all (fun variant => row.variant = variant) ∧ row.key.line = line ∧ row.key.column ≤ column := by
  simp [selectAt,and_assoc]

theorem coversPosition_iff {column : Nat} {record : DbRecord} : coversPosition column record = true ↔
    record.column ≤ column ∧ column < record.column + byteLength (qualifiedLeaf record.symbol) := by
  simp only [coversPosition,Bool.not_eq_true',Bool.or_eq_false_iff,decide_eq_false_iff_not,not_lt,not_le]
  omega

/-- What `find_at` looks at, besides the four columns of the query, is the leaf of the stored symbol. -/
theorem found_iff (stored : row ∈ joinedRecords db) (column : Nat) :
    (∃ records, collected (semindexDbFindAt db row.path (some row.variant) row.key.line column) = some records ∧
      dbRecord row ∈ records) ↔ row.path ≠ [] ∧ row.key.line ≠ 0 ∧ column ≠ 0 ∧
        row.key.column ≤ column ∧ column < row.key.column + byteLength (qualifiedLeaf row.key.symbol) := by
  rw [collected_findAt]
  split
  · rename_i rejected
    constructor
    · intro ⟨records,failed,_⟩
      contradiction
    · intro ⟨path,line,positive,_⟩
      exact absurd rejected (by simp [path,line,positive])
  · rename_i placed
    simp only [not_or] at placed
    simp only [Option.some.injEq,exists_eq_left',List.mem_filter,List.mem_map,coversPosition_iff,mem_selectAt]
    constructor
    · intro ⟨_,covered⟩
      exact ⟨placed.1,placed.2.1,placed.2.2,covered⟩
    · intro ⟨_,_,_,covered⟩
      exact ⟨⟨row,⟨stored,rfl,by simp,rfl,covered.1⟩,rfl⟩,covered⟩

theorem found_exactly_iff (stored : row ∈ joinedRecords db) (named : row.key.symbol = qualifiedName owner name) :
    FoundExactly db row name ↔ Unseparated owner name ∧
      (name = [] ∨ row.path ≠ [] ∧ row.key.line ≠ 0 ∧ row.key.column ≠ 0) := by
  unfold FoundExactly
  simp only [found_iff stored,named]
  constructor
  · intro exact
    have unseparated : Unseparated owner name := by
      by_contra separated
      have shorter := leaf_byteLength_lt separated
      have last := exact (row.key.column + (byteLength name - 1))
      omega
    refine ⟨unseparated,?_⟩
    obtain empty | present := eq_or_ne name []
    · exact .inl empty
    · have positive := byteLength_pos present
      have first := (exact row.key.column).mpr ⟨Nat.le_refl _,by omega⟩
      exact .inr ⟨first.1,first.2.1,first.2.2.1⟩
  · intro ⟨unseparated,placed⟩ column
    rw [leaf_qualifiedName unseparated]
    constructor
    · intro ⟨_,_,_,covered⟩
      exact covered
    · intro covered
      obtain empty | ⟨path,line,positive⟩ := placed
      · subst empty
        simp [byteLength,utf8] at covered
        omega
      · exact ⟨path,line,by omega,covered⟩

end Found

end Semindex.Database
