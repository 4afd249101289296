import Semindex.Lsp.Overlay
import Semindex.Lsp.Position
import Semindex.Source.Lines
import Semindex.Support.Utf16

/-! Positions of the protocol and columns of the database, there and back. The
line of a position is read from the file with `readLine`, and those of a record
with `readLines`. -/
namespace Semindex.Lsp
open Semindex.Database Semindex.Support Semindex.Delimited Semindex.Source

section Files
variable (content : List Byte)

def nthLine : Nat → InputStream → List Byte → Option (List Byte)
  | 0,input,text =>
    let (input,text) := input.getline text
    if input.failed then none else some (withoutReturn text)
  | n+1,input,text =>
    let (input,text) := input.getline text
    if input.failed then none else nthLine n input text

-- `SemindexSourceResolver::readLine` of a file with this content
def readLine (line : Nat) : Option (List Byte) := nthLine line {rest := content} []

def takeAll : Nat → InputStream → List Byte → List (List Byte) → List (List Byte)
  | 0,_,_,lines => lines
  | fuel+1,input,line,lines =>
    let (input,line) := input.getline line
    if input.failed then lines else takeAll fuel input [] (lines ++ [withoutReturn line])

-- `readLines`; every line but the last takes a byte of the file
def readLines : List (List Byte) := takeAll (content.length + 1) {rest := content} [] []

def byteColumn (line character : Nat) : Option Nat :=
  (readLine content line).bind (fun text => (byteOffset character text).map (fun offset => offset + 1))

/-- The lines of a file without their ends. -/
def sourceLines : List (List Byte) := (pieces newline content).map withoutReturn

theorem nthLine_pieces (n : Nat) (input : InputStream) (line : List Byte) :
    nthLine n input line = ((pieces newline input.left)[n]?).map withoutReturn := by
  induction n generalizing input line with
  | zero =>
    rw [nthLine]
    dsimp only
    rcases getline_pieces input line with ⟨none,failed⟩ | ⟨first,others,split,text,failed,_⟩
    · rw [failed,none]
      rfl
    · rw [failed,split,text]
      rfl
  | succ n ih =>
    rw [nthLine]
    dsimp only
    rcases getline_pieces input line with ⟨none,failed⟩ | ⟨first,others,split,text,failed,rest⟩
    · rw [failed,none]
      rfl
    · rw [failed,if_neg Bool.false_ne_true,ih,rest,split,List.getElem?_cons_succ]

theorem takeAll_pieces (fuel : Nat) (input : InputStream) (line : List Byte) (lines : List (List Byte))
    (enough : (pieces newline input.left).length < fuel) :
    takeAll fuel input line lines = lines ++ (pieces newline input.left).map withoutReturn := by
  induction fuel generalizing input line lines with
  | zero => omega
  | succ fuel ih =>
    rw [takeAll]
    dsimp only
    rcases getline_pieces input line with ⟨none,failed⟩ | ⟨first,others,split,text,failed,rest⟩
    · rw [failed,none,if_pos rfl,List.map_nil,List.append_nil]
    · rw [split,List.length_cons] at enough
      rw [failed,if_neg Bool.false_ne_true,ih _ _ _ (by rw [rest]; omega),rest,split,text,List.append_assoc]
      rfl

theorem pieces_length : (pieces newline content).length ≤ content.length := by
  induction content with
  | nil => exact Nat.le_refl _
  | cons b content ih =>
    rw [pieces]
    split
    · simpa using ih
    · split
      · simp
      · rename_i shape
        rw [shape] at ih
        simp only [List.length_cons] at ih ⊢
        omega

theorem readLine_eq (n : Nat) : readLine content n = (sourceLines content)[n]? := by
  have left : (InputStream.mk content false false).left = content := rfl
  rw [readLine,nthLine_pieces,left,sourceLines,List.getElem?_map]

theorem readLines_eq : readLines content = sourceLines content := by
  have left : (InputStream.mk content false false).left = content := rfl
  have bound := pieces_length content
  rw [readLines,takeAll_pieces _ _ _ _ (by rw [left]; omega),left]
  rfl

end Files

section Character

theorem lead_ascii : ∀ n < 0x80, leadByte (UInt8.ofNat n) = some (0,n) := by decide
theorem lead_two : ∀ n < 0x20, leadByte (UInt8.ofNat (n + 0xc0)) = some (1,n) := by decide
theorem lead_three : ∀ n < 0x10, leadByte (UInt8.ofNat (n + 0xe0)) = some (2,n) := by decide
theorem lead_four : ∀ n < 8, leadByte (UInt8.ofNat (n + 0xf0)) = some (3,n) := by decide

theorem continuation : ∀ n < 0x40, UInt8.ofNat (n + 0x80) &&& 0xc0 = 0x80 ∧ (UInt8.ofNat (n + 0x80) &&& 0x3f).toNat = n := by
  decide

theorem continued_step (codepoint n value : Nat) (text : Bytes) : continued codepoint (n+1) (UInt8.ofNat (value % 64 + 0x80)::text) =
    continued (64 * codepoint + value % 64) n text := by
  obtain ⟨marked,bits⟩ := continuation (value % 64) (Nat.mod_lt _ (by decide))
  have joined : codepoint <<< 6 ||| value % 64 = 64 * codepoint + value % 64 := by
    rw [← Nat.shiftLeft_add_eq_or_of_lt (i := 6) (Nat.mod_lt _ (by decide)),Nat.shiftLeft_eq]
    omega
  rw [continued,if_neg (fun apart => apart marked),bits,joined]

theorem scalar_char (c : Char) : scalar c.toNat = true := by
  have valid := char_scalar c
  simp only [scalar,Bool.and_eq_true,decide_eq_true_eq,Bool.not_eq_true',Bool.and_eq_false_iff,decide_eq_false_iff_not]
  omega

/-- Of the bytes of a text the next code point is its first character. -/
theorem nextCodePoint_char (c : Char) (rest : Bytes) :
    nextCodePoint (String.utf8EncodeChar c ++ rest) = some (c.toNat,rest) := by
  have valid := char_scalar c
  have value : c.val.toNat = c.toNat := rfl
  have whole {first : UInt8} {text : Bytes} {length lead : Nat} (led : leadByte first = some (length,lead))
      (follows : continued lead length text = some (c.toNat,rest)) : nextCodePoint (first::text) = some (c.toNat,rest) :=
    nextCodePoint_cons.mpr ⟨length,lead,led,follows,scalar_char c⟩
  unfold String.utf8EncodeChar
  dsimp only
  rw [value]
  split
  · rw [List.singleton_append]
    exact whole (lead_ascii c.toNat (by omega)) rfl
  · split
    · rename_i small
      simp only [List.cons_append,List.nil_append]
      apply whole (lead_two (c.toNat / 64 % 32) (by omega))
      rw [continued_step,continued]
      congr 2
      omega
    · split
      · simp only [List.cons_append,List.nil_append]
        apply whole (lead_three (c.toNat / 4096 % 16) (by omega))
        rw [continued_step,continued_step,continued]
        congr 2
        omega
      · simp only [List.cons_append,List.nil_append]
        apply whole (lead_four (c.toNat / 262144 % 8) (by omega))
        rw [continued_step,continued_step,continued_step,continued]
        congr 2
        omega

theorem width_char (c : Char) : (utf16Char c).length = width c.toNat := by
  unfold width
  rcases utf16Char_cases c with ⟨small,single,_⟩ | ⟨_,_,large,pair,_,_⟩
  · rw [single,if_neg (by omega)]
    rfl
  · rw [pair,if_pos large]
    rfl

theorem decodes_utf8 (text : Text) : Decodes (utf8 text) (utf16 text).length := by
  induction text with
  | nil => exact .nil
  | cons c text ih =>
    rw [utf16_cons,List.length_append,width_char]
    exact .cons _ _ _ _ (nextCodePoint_char c (utf8 text)) ih

/-- What is decoded of a text is some of its characters. -/
theorem decodes_prefix {before : Bytes} {units : Nat} (decoded : Decodes before units) {text : Text} {after : Bytes}
    (split : utf8 text = before ++ after) :
    ∃ first second, text = first ++ second ∧ utf8 first = before ∧ (utf16 first).length = units := by
  induction decoded generalizing text with
  | nil => exact ⟨[],text,rfl,rfl,rfl⟩
  | cons whole rest codepoint units found _ ih =>
    cases text with
    | nil =>
      have shorter := nextCodePoint_length found
      have empty := congrArg List.length split
      rw [utf8_nil,List.length_nil,List.length_append] at empty
      omega
    | cons c text =>
      rw [utf8_cons] at split
      have next := nextCodePoint_char c (utf8 text)
      rw [split,nextCodePoint_append after found] at next
      obtain ⟨rfl,tail⟩ := Prod.mk.inj (Option.some.inj next)
      obtain ⟨first,second,rfl,bytes,length⟩ := ih tail.symm
      refine ⟨c::first,second,rfl,?_,?_⟩
      · rw [utf8_append,bytes] at split tail
        rw [List.append_cancel_left tail.symm,← List.append_assoc] at split
        rw [utf8_cons,bytes]
        exact List.append_cancel_right split
      · rw [utf16_cons,List.length_append,width_char,length]

end Character

section RoundTrip

/-- The record is at these characters of a line of the file. -/
def At (record : DbRecord) (n : Nat) (before : Text) : Prop := record.line = n+1 ∧ record.column = byteLength before + 1

structure PositionsRoundTrip (content : List Byte) (n : Nat) (line : Text) : Prop where
  column : ∀ before after record, line = before ++ after → At record n before →
    byteColumn content n (range (readLines content) record).start = some record.column
  character : ∀ units record, record.line = n+1 → byteColumn content n units = some record.column →
    (range (readLines content) record).start = units
  undefined : ∀ units, byteOffset units (utf8 line) = none ↔ (utf16 line).length < units ∨ SplitsPair line units
  covered : ∀ before name after record, line = before ++ name ++ after → At record n before →
    qualifiedLeaf record.symbol = name → ∃ reported, range (readLines content) record = reported ∧ reported.line = n ∧
      reported.start = (utf16 before).length ∧
      ((utf16 line).drop reported.start).take (reported.stop - reported.start) = utf16 name

variable {content : List Byte} {n : Nat} {line before after : Text} {record : DbRecord}

theorem byteOffset_boundary {units offset : Nat} : byteOffset units (utf8 line) = some offset ↔
    ∃ first second, line = first ++ second ∧ (utf16 first).length = units ∧ byteLength first = offset := by
  rw [byteOffset_iff]
  constructor
  · intro ⟨before,after,split,length,decoded⟩
    obtain ⟨first,second,shape,bytes,units⟩ := decodes_prefix decoded split
    exact ⟨first,second,shape,units,by rw [← length,← bytes]; rfl⟩
  · intro ⟨first,second,shape,units,length⟩
    refine ⟨utf8 first,utf8 second,by rw [shape,utf8_append],length,?_⟩
    rw [← units]
    exact decodes_utf8 first

/-- Offsets have no column beyond the line and inside a pair. -/
theorem byteOffset_undefined (line : Text) (units : Nat) :
    byteOffset units (utf8 line) = none ↔ (utf16 line).length < units ∨ SplitsPair line units := by
  constructor
  · intro undefined
    rcases offset_cases line units with ⟨first,second,split,length⟩ | pair | beyond
    · rw [byteOffset_boundary.mpr ⟨first,second,split,length,rfl⟩] at undefined
      cases undefined
    · exact .inr pair
    · exact .inl beyond
  · intro outside
    rw [Option.eq_none_iff_forall_ne_some]
    intro offset found
    obtain ⟨first,second,rfl,rfl,_⟩ := byteOffset_boundary.mp found
    rcases outside with beyond | pair
    · rw [utf16_append,List.length_append] at beyond
      omega
    · exact boundary_whole first second pair

theorem utf16Length_utf8 (text : Text) : utf16Length (utf8 text) = (utf16 text).length :=
  utf16Length_decodes (decodes_utf8 text)

theorem range_line (listed : (sourceLines content)[n]? = some (utf8 line)) (numbered : record.line = n+1) :
    range (readLines content) record =
      ⟨n,utf16Length ((utf8 line).take (min (record.column-1) (utf8 line).length)),
        utf16Length ((utf8 line).take (min (record.column-1) (utf8 line).length)) + (utf16 (qualifiedLeaf record.symbol)).length⟩ := by
  rw [readLines_eq]
  simp only [range,numbered,Nat.add_sub_cancel,Nat.add_eq_zero_iff,one_ne_zero,and_false,if_false,listed,utf16Length_utf8]

theorem range_at (listed : (sourceLines content)[n]? = some (utf8 line)) (split : line = before ++ after)
    (placed : At record n before) : range (readLines content) record =
      ⟨n,(utf16 before).length,(utf16 before).length + (utf16 (qualifiedLeaf record.symbol)).length⟩ := by
  have cut : (utf8 line).take (min (record.column-1) (utf8 line).length) = utf8 before := by
    rw [placed.2,Nat.add_sub_cancel,split,utf8_append]
    exact take_column
  rw [range_line listed placed.1,cut,utf16Length_utf8]

theorem byteColumn_line (listed : (sourceLines content)[n]? = some (utf8 line)) (units : Nat) :
    byteColumn content n units = (byteOffset units (utf8 line)).map (fun offset => offset + 1) := by
  rw [byteColumn,readLine_eq,listed,Option.bind_some]

/-- In a line of valid UTF-8, characters and columns are two names of one place. -/
theorem positions_round_trip (listed : (sourceLines content)[n]? = some (utf8 line)) : PositionsRoundTrip content n line := by
  refine ⟨?_,?_,byteOffset_undefined line,?_⟩
  · intro before after record split placed
    have found : byteOffset (utf16 before).length (utf8 line) = some (byteLength before) :=
      byteOffset_boundary.mpr ⟨before,after,split,rfl,rfl⟩
    rw [range_at listed split placed,byteColumn_line listed,found,placed.2]
    rfl
  · intro units record numbered located
    rw [byteColumn_line listed] at located
    obtain ⟨offset,found,same⟩ := Option.map_eq_some_iff.mp located
    obtain ⟨before,after,split,rfl,rfl⟩ := byteOffset_boundary.mp found
    rw [range_at listed split ⟨numbered,same.symm⟩]
  · intro before name after record split placed leaf
    rw [List.append_assoc] at split
    refine ⟨_,range_at listed split placed,rfl,rfl,?_⟩
    rw [leaf,split,utf16_append,utf16_append,List.drop_left,Nat.add_sub_cancel_left,List.take_left]

theorem positions_round_trip_pair : PositionsRoundTrip (utf8 [ 'a','\n','€','𝄞','b','\r','\n']) 1 [ '€','𝄞','b'] :=
  positions_round_trip (by decide)

-- the column that the server looks up is that of the file's line
theorem byteColumn_mapper (sources : LspSourceMapper) {path : Text}
    (file : sources.lines (resolve sources.resolver path).text = readLines content) (units : Nat) :
    sources.byteColumn ⟨some path,n,units⟩ = byteColumn content n units := by
  have column : sources.byteColumn ⟨some path,n,units⟩ = ((sources.lines (resolve sources.resolver path).text)[n]?).bind
      (fun text => (byteOffset units text).bind (fun offset => some (offset + 1))) := rfl
  rw [column,byteColumn,readLine_eq,← readLines_eq,← file]
  simp only [Option.map_eq_bind]
  rfl

end RoundTrip
end Semindex.Lsp
