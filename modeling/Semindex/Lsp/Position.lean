import Semindex.Lsp.Source
import Semindex.Lsp.Exact

/-! Positions of a stored record. `find_at` and the range the server reports both
measure the leaf of the stored symbol, which is the name unless the name
contains a separator. -/
namespace Semindex.Lsp
open Semindex.Relational Semindex.IndexDb Semindex.Database

section Covers
variable {lines : List Bytes} {record : DbRecord} {owner name : Text}

/-- Read as `byteColumn` reads a position, the range is the bytes of the name at the record's column. -/
def Covers (lines : List Bytes) (record : DbRecord) (name : Text) : Prop :=
  record.line = (range lines record).line + 1 ∧ ∃ line, lines[(range lines record).line]? = some line ∧
    record.column ≠ 0 ∧ byteOffset (range lines record).start line = some (record.column-1) ∧
    byteOffset (range lines record).stop line = some (record.column-1 + byteLength name)

/-- From the column on the line has as many bytes as the name, and they decode to as many units. -/
def Spelled (line : Bytes) (column : Nat) (name : Text) : Prop :=
  ∃ before spelling after units, line = before ++ spelling ++ after ∧ before.length + 1 = column ∧
    spelling.length = byteLength name ∧ Decodes before units ∧ Decodes spelling (utf16Length (utf8 name))

-- the text before the column is what the column was measured on
theorem take_column {before behind : Bytes} :
    (before ++ behind).take (min before.length (before ++ behind).length) = before := by
  rw [Nat.min_eq_left (by simp),List.take_left]

theorem byteOffset_columns {line : Bytes} {column length start units : Nat}
    (measured : start = utf16Length (line.take (min column line.length))) :
    byteOffset start line = some column ∧ byteOffset (start + units) line = some (column+length) ↔
      ∃ before spelling after n, line = before ++ spelling ++ after ∧ before.length = column ∧
        spelling.length = length ∧ Decodes before n ∧ Decodes spelling units := by
  simp only [byteOffset_iff]
  constructor
  · intro ⟨⟨before,behind,split,first,decoded⟩,whole,after,again,last,both⟩
    subst first
    have prior : before <+: whole :=
      List.prefix_of_prefix_length_le ⟨behind,split.symm⟩ ⟨after,again.symm⟩ (by omega)
    obtain ⟨spelling,rfl⟩ := prior
    obtain ⟨n,sum,tail⟩ := decoded.rest both
    obtain rfl := Nat.add_left_cancel sum
    exact ⟨before,spelling,after,start,again,rfl,by simpa using last,decoded,tail⟩
  · intro ⟨before,spelling,after,n,split,first,last,decoded,tail⟩
    subst first last split
    rw [List.append_assoc,take_column,utf16Length_decodes decoded] at measured
    subst measured
    exact ⟨⟨before,spelling ++ after,by simp,rfl,decoded⟩,before ++ spelling,after,rfl,by simp,decoded.append tail⟩

theorem covers_iff (named : record.symbol = qualifiedName owner name) (unseparated : Unseparated owner name) :
    Covers lines record name ↔ record.line ≠ 0 ∧ ∃ line, lines[record.line-1]? = some line ∧
      Spelled line record.column name := by
  have leaf : qualifiedLeaf record.symbol = name := by rw [named,leaf_qualifiedName unseparated]
  unfold Covers Spelled
  cases found : lines[record.line-1]? with
  | none => simp [range,found]
  | some line =>
    simp only [range,found,leaf,Option.some.injEq,exists_eq_left']
    by_cases placed : record.line = 0
    · simp [placed]
    · simp only [if_neg placed]
      have numbered : record.line = record.line - 1 + 1 := by omega
      constructor
      · intro ⟨_,positive,columns⟩
        obtain ⟨before,spelling,after,n,split,first,last,decoded,tail⟩ := (byteOffset_columns rfl).mp columns
        exact ⟨placed,before,spelling,after,n,split,by omega,last,decoded,tail⟩
      · intro ⟨_,before,spelling,after,n,split,first,last,decoded,tail⟩
        exact ⟨numbered,by omega,
          (byteOffset_columns rfl).mpr ⟨before,spelling,after,n,split,by omega,last,decoded,tail⟩⟩

end Covers

section Record
variable {db : Db} {row : RecordRow} {lines : List Bytes} {owner name : Text}

/-- Lookup by position and the reported range both cover the name. -/
structure PositionExact (db : Db) (row : RecordRow) (lines : List Bytes) (name : Text) : Prop where
  found : FoundExactly db row name
  covered : Covers lines (dbRecord row) name

/-- Positions are exact just for the names without separators, where the source has the name. -/
theorem position_exact_iff (stored : row ∈ joinedRecords db) (named : row.key.symbol = qualifiedName owner name) :
    (FoundExactly db row name ↔
      Unseparated owner name ∧ (name = [] ∨ row.path ≠ [] ∧ row.key.line ≠ 0 ∧ row.key.column ≠ 0)) ∧
    (PositionExact db row lines name ↔
      Unseparated owner name ∧ (name = [] ∨ row.path ≠ []) ∧ row.key.line ≠ 0 ∧
        ∃ line, lines[row.key.line-1]? = some line ∧ Spelled line row.key.column name) := by
  refine ⟨found_exactly_iff stored named,?_⟩
  constructor
  · intro ⟨found,covered⟩
    obtain ⟨unseparated,placed⟩ := (found_exactly_iff stored named).mp found
    obtain ⟨numbered,spelled⟩ := (@covers_iff _ (dbRecord row) _ _ named unseparated).mp covered
    exact ⟨unseparated,placed.imp_right And.left,numbered,spelled⟩
  · intro ⟨unseparated,placed,numbered,line,listed,spelled⟩
    have positive : row.key.column ≠ 0 := by
      obtain ⟨before,_,_,_,_,first,_⟩ := spelled
      omega
    refine ⟨(found_exactly_iff stored named).mpr ⟨unseparated,?_⟩,
      (@covers_iff _ (dbRecord row) _ _ named unseparated).mpr ⟨numbered,line,listed,spelled⟩⟩
    exact placed.imp_right (fun known => ⟨known,numbered,positive⟩)

-- a call of a member function, behind a character of two UTF-16 units
def memberNote : Note :=
  { symbolNote "v".toList "a.cc".toList "read".toList .function 5 with
    use.owner := "app::Codec".toList, use.column := 9 }

theorem position_exact_member : ∃ db row, storeAll foldHash [memberNote.job] = some db ∧ row ∈ joinedRecords db ∧
    PositionExact db row [utf8 "/*𝄞*/read();".toList] "read".toList := by
  obtain ⟨db,stored,member⟩ := noteRow_stored foldHash memberNote
  refine ⟨db,_,stored,member,?_⟩
  have both := @position_exact_iff _ _ [utf8 "/*𝄞*/read();".toList] "app::Codec".toList "read".toList member (by decide)
  exact both.2.mpr ⟨by decide,by decide,by decide,_,rfl,utf8 "/*𝄞*/".toList,utf8 "read".toList,utf8 "();".toList,6,
    by decide,by decide,by decide,(utf16Units_iff (Nat.le_refl _)).mp (by decide),
    (utf16Units_iff (Nat.le_refl _)).mp (by decide)⟩

/-- Of an include target only the characters behind its last dot are found. -/
theorem include_target_not_covered : ∃ db row,
    storeAll foldHash [(symbolNote "v".toList "a.c".toList "<stdio.h>".toList .file 5).job] = some db ∧
    row ∈ joinedRecords db ∧ row.key.symbol = qualifiedName [] "<stdio.h>".toList ∧
    ¬ FoundExactly db row "<stdio.h>".toList := by
  obtain ⟨db,stored,member⟩ := noteRow_stored foldHash
    (symbolNote "v".toList "a.c".toList "<stdio.h>".toList .file 5)
  refine ⟨db,_,stored,member,by decide,?_⟩
  intro exact
  have late := (found_iff member 3).mp ((exact 3).mpr (by decide))
  revert late
  decide

end Record

end Semindex.Lsp
