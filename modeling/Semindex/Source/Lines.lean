import Semindex.Support.InputStream
import Mathlib.Algebra.GroupWithZero.Nat

/-! The lines of a source, read from a file and from a blob: the one goes through a
stream and the other through the offsets of the content. -/
namespace Semindex.Source
open Semindex.Support Semindex.Delimited

structure LineRequest where
  firstLine : Nat
  lineCount : Nat
  byteLimit : Nat

structure LineResult where
  lines : List (List Byte) := []
  byteLimitHit : Bool := false
  deriving DecidableEq

-- `byte_limit - bytes`, and `none` where it would wrap around
def budget (byteLimit bytes : Nat) : Option Nat := if bytes ≤ byteLimit then some (byteLimit - bytes) else none

section Stream

def skipLines : Nat → InputStream → List Byte → InputStream
  | 0,input,_ => input
  | n+1,input,line =>
    let (input,line) := input.getline line
    if input.failed then input else skipLines n input line

def takeLines (byteLimit : Nat) : Nat → InputStream → List Byte → Nat → LineResult → Option LineResult
  | 0,_,_,_,result => some result
  | n+1,input,line,bytes,result =>
    let (input,line) := input.getline line
    if input.failed then some result
    else
      let line := withoutReturn line
      (budget byteLimit bytes).bind (fun left =>
        if left < line.length + 1 then some {result with byteLimitHit := true}
        else takeLines byteLimit n input [] (bytes + (line.length + 1)) {result with lines := result.lines ++ [line]})

/-- The lines of a file with this content; `none` where the subtraction wraps around. -/
def readRange (content : List Byte) (request : LineRequest) : Option LineResult :=
  takeLines request.byteLimit request.lineCount (skipLines (request.firstLine - 1) {rest := content} []) [] 0 {}

end Stream

section Blob
variable (content : List Byte)

def memchr (offset : Nat) : Option Nat := ((content.drop offset).findIdx? (· = newline)).map (offset + ·)

def skipBlobLine (offset : Nat) : Nat :=
  match memchr content offset with
  | some position => position + 1
  | none => content.length

def skipBlobLines : Nat → Nat → Nat
  | 0,offset => offset
  | n+1,offset => if offset < content.length then skipBlobLines n (skipBlobLine content offset) else offset

def takeBlobLines (byteLimit : Nat) : Nat → Nat → Nat → LineResult → Option LineResult
  | 0,_,_,result => some result
  | n+1,offset,bytes,result =>
    if offset < content.length then
      let length := (memchr content offset).getD content.length - offset
      let length := if length ≠ 0 && content[offset + length - 1]? = some carriageReturn then length - 1 else length
      (budget byteLimit bytes).bind (fun left =>
        if left < length + 1 then some {result with byteLimitHit := true}
        else takeBlobLines byteLimit n (skipBlobLine content offset) (bytes + (length + 1))
          {result with lines := result.lines ++ [(content.drop offset).take length]})
    else some result

def readBlobRange (request : LineRequest) : Option LineResult :=
  takeBlobLines content request.byteLimit request.lineCount (skipBlobLines content (request.firstLine - 1) 0) 0 {}

end Blob

section Requested

/-- The lines of the content from the first one that is asked for. -/
def requested (content : List Byte) (request : LineRequest) : List (List Byte) :=
  (((pieces newline content).drop (request.firstLine - 1)).take request.lineCount).map withoutReturn

-- what the lines take, each with its newline
def lineBytes (lines : List (List Byte)) : Nat := (lines.map (fun line => line.length + 1)).sum

def fitting : Nat → List (List Byte) → LineResult
  | _,[] => {}
  | left,line::lines =>
    if left < line.length + 1 then {byteLimitHit := true}
    else {fitting (left - (line.length + 1)) lines with lines := line::(fitting (left - (line.length + 1)) lines).lines}

/-- The lines that fit are the first ones, and the limit is hit just where the next one is too long. -/
theorem fitting_spec (left : Nat) (lines : List (List Byte)) :
    (fitting left lines).lines <+: lines ∧ lineBytes (fitting left lines).lines ≤ left ∧
      ((fitting left lines).byteLimitHit = false → (fitting left lines).lines = lines) ∧
      ((fitting left lines).byteLimitHit = true → ∃ line, lines[(fitting left lines).lines.length]? = some line ∧
        left < lineBytes (fitting left lines).lines + (line.length + 1)) := by
  induction lines generalizing left with
  | nil => simp [fitting,lineBytes]
  | cons line lines ih =>
    rw [fitting]
    split
    · rename_i long
      simpa [lineBytes] using long
    · rename_i short
      obtain ⟨front,within,whole,hit⟩ := ih (left - (line.length + 1))
      refine ⟨(List.prefix_cons_inj line).mpr front,?_,?_,?_⟩
      · simp only [lineBytes,List.map_cons,List.sum_cons] at within ⊢
        omega
      · intro enough
        rw [whole enough]
      · intro short
        obtain ⟨next,found,beyond⟩ := hit short
        refine ⟨next,by simpa using found,?_⟩
        simp only [lineBytes,List.map_cons,List.sum_cons] at beyond ⊢
        omega

end Requested

section Reading
variable {line : List Byte} {input : InputStream} {byteLimit bytes n : Nat} {result : LineResult}

theorem skipLines_pieces (n : Nat) (input : InputStream) (line : List Byte) :
    pieces newline (skipLines n input line).left = (pieces newline input.left).drop n := by
  induction n generalizing input line with
  | zero => rfl
  | succ n ih =>
    rw [skipLines]
    dsimp only
    rcases getline_pieces input line with ⟨none,failed⟩ | ⟨first,others,some,_,read,behind⟩
    · have ended : (input.getline line).1.good = false := by simp [InputStream.good,failed]
      rw [if_pos failed,none,InputStream.left,ended]
      rfl
    · rw [if_neg (by simp [read]),ih,behind,some]
      rfl

-- what the loop adds to its result
def LineResult.add (result added : LineResult) : LineResult :=
  ⟨result.lines ++ added.lines,result.byteLimitHit || added.byteLimitHit⟩

theorem budget_within (within : bytes ≤ byteLimit) : budget byteLimit bytes = some (byteLimit - bytes) := if_pos within

theorem fitting_cons (line : List Byte) (lines : List (List Byte)) (left : Nat) (short : ¬ left < line.length + 1) :
    result.add (fitting left (line::lines)) =
      LineResult.add {result with lines := result.lines ++ [line]} (fitting (left - (line.length + 1)) lines) := by
  rw [fitting,if_neg short]
  simp [LineResult.add]

theorem takeLines_fitting (within : bytes ≤ byteLimit) : takeLines byteLimit n input line bytes result =
    some (result.add (fitting (byteLimit - bytes) (((pieces newline input.left).take n).map withoutReturn))) := by
  induction n generalizing input line bytes result with
  | zero => simp [takeLines,fitting,LineResult.add]
  | succ n ih =>
    rw [takeLines]
    dsimp only
    rcases getline_pieces input line with ⟨none,failed⟩ | ⟨first,others,some,text,read,behind⟩
    · rw [if_pos failed,none]
      simp [fitting,LineResult.add]
    · rw [if_neg (by simp [read]),text,some,budget_within within,Option.bind_some,List.take_succ_cons,List.map_cons]
      by_cases long : byteLimit - bytes < (withoutReturn first).length + 1
      · rw [if_pos long,fitting,if_pos long]
        simp [LineResult.add]
      · rw [if_neg long,fitting_cons _ _ _ long,ih (by omega),behind]
        congr 3
        omega

theorem readRange_fitting (content : List Byte) (request : LineRequest) :
    readRange content request = some (fitting request.byteLimit (requested content request)) := by
  have skipped := skipLines_pieces (request.firstLine - 1) {rest := content} []
  rw [readRange,takeLines_fitting (Nat.zero_le _),skipped]
  simp [LineResult.add,requested,InputStream.left,InputStream.good]

end Reading

section Offsets
variable {content : List Byte} {byteLimit bytes n offset : Nat} {result : LineResult}

theorem findIdx_none {text : List Byte} (fresh : newline ∉ text) : text.findIdx? (· = newline) = none := by
  rw [List.findIdx?_eq_none_iff]
  intro b member
  exact decide_eq_false (fun same => fresh (same ▸ member))

/-- From an offset, the line up to the newline is the next piece, and `skipBlobLine` gets behind it. -/
theorem blob_pieces (content : List Byte) (offset : Nat) :
    (content.length ≤ offset ∧ pieces newline (content.drop offset) = []) ∨
      ∃ first others, offset < content.length ∧ pieces newline (content.drop offset) = first::others ∧
        (memchr content offset).getD content.length = offset + first.length ∧
        first = (content.drop offset).take first.length ∧
        pieces newline (content.drop (skipBlobLine content offset)) = others := by
  by_cases inside : offset < content.length
  · refine .inr ?_
    have size : (content.drop offset).length = content.length - offset := List.length_drop
    rcases @first_cut _ _ newline (content.drop offset) with whole | ⟨text,after,same,fresh⟩
    · have absent : memchr content offset = none := by
        rw [memchr,findIdx_none whole]
        rfl
      have present : content.drop offset ≠ [] := fun empty => by
        rw [empty] at size
        simp at size
        omega
      refine ⟨content.drop offset,[],inside,pieces_last whole present,?_,?_,?_⟩
      · rw [absent,Option.getD_none,size]
        omega
      · rw [List.take_length]
      · rw [skipBlobLine,absent]
        simp [pieces]
    · have found : memchr content offset = some (offset + text.length) := by
        rw [memchr,same,List.findIdx?_append,findIdx_none fresh,List.findIdx?_cons]
        simp
      refine ⟨text,pieces newline after,inside,by rw [same,pieces_cut fresh],by rw [found]; rfl,?_,?_⟩
      · rw [same,List.take_left]
      · rw [skipBlobLine,found]
        have moved : content.drop (offset + text.length + 1) = after := by
          rw [Nat.add_assoc,← List.drop_drop,same]
          simp
        dsimp only
        rw [moved]
  · refine .inl ⟨Nat.le_of_not_lt inside,?_⟩
    rw [List.drop_eq_nil_of_le (Nat.le_of_not_lt inside)]
    rfl

theorem skipBlobLines_pieces (n offset : Nat) : pieces newline (content.drop (skipBlobLines content n offset)) =
    (pieces newline (content.drop offset)).drop n := by
  induction n generalizing offset with
  | zero => rfl
  | succ n ih =>
    rw [skipBlobLines]
    rcases blob_pieces content offset with ⟨past,none⟩ | ⟨first,others,inside,some,_,_,behind⟩
    · rw [if_neg (Nat.not_lt.mpr past),none]
      rfl
    · rw [if_pos inside,ih,behind,some]
      rfl

/-- The length of a line in the content, one less where it ends with a carriage return. -/
theorem blob_length {first : List Byte} (here : first = (content.drop offset).take first.length)
    (length : Nat) (counted : length = if first.length ≠ 0 && content[offset + first.length - 1]? = some carriageReturn
      then first.length - 1 else first.length) :
    (withoutReturn first).length = length ∧ (content.drop offset).take length = withoutReturn first := by
  have last : first.length ≠ 0 → content[offset + first.length - 1]? = first.getLast? := by
    intro present
    rw [List.getLast?_eq_getElem?]
    conv_rhs => rw [here]
    rw [List.getElem?_take_of_lt (by rw [← here]; omega),List.getElem?_drop,← here]
    congr 1
    omega
  subst counted
  by_cases empty : first.length = 0
  · rw [List.length_eq_zero_iff] at empty
    simp [empty,withoutReturn]
  · rw [last empty]
    by_cases cr : first.getLast? = some carriageReturn
    · rw [if_pos (by simp [empty,cr]),withoutReturn,if_pos cr,List.length_dropLast]
      refine ⟨rfl,?_⟩
      have shorter := congrArg (List.take (first.length - 1)) here
      rw [List.take_take,Nat.min_eq_left (Nat.sub_le _ _)] at shorter
      rw [List.dropLast_eq_take,shorter]
    · rw [if_neg (by simp [cr]),withoutReturn,if_neg cr]
      exact ⟨rfl,here.symm⟩

theorem takeBlobLines_fitting (within : bytes ≤ byteLimit) : takeBlobLines content byteLimit n offset bytes result =
    some (result.add (fitting (byteLimit - bytes) (((pieces newline (content.drop offset)).take n).map withoutReturn))) := by
  induction n generalizing offset bytes result with
  | zero => simp [takeBlobLines,fitting,LineResult.add]
  | succ n ih =>
    rw [takeBlobLines]
    rcases blob_pieces content offset with ⟨past,none⟩ | ⟨first,others,inside,some,stop,here,behind⟩
    · rw [if_neg (Nat.not_lt.mpr past),none]
      simp [fitting,LineResult.add]
    · rw [if_pos inside,stop,Nat.add_sub_cancel_left]
      obtain ⟨length,text⟩ := blob_length here _ rfl
      dsimp only
      rw [← length] at text ⊢
      rw [text,some,budget_within within,Option.bind_some,List.take_succ_cons,List.map_cons]
      by_cases long : byteLimit - bytes < (withoutReturn first).length + 1
      · rw [if_pos long,fitting,if_pos long]
        simp [LineResult.add]
      · rw [if_neg long,fitting_cons _ _ _ long,ih (by omega),behind]
        congr 3
        omega

theorem readBlobRange_fitting (content : List Byte) (request : LineRequest) :
    readBlobRange content request = some (fitting request.byteLimit (requested content request)) := by
  have skipped := @skipBlobLines_pieces content (request.firstLine - 1) 0
  rw [readBlobRange,takeBlobLines_fitting (Nat.zero_le _),skipped]
  simp [LineResult.add,requested]

end Offsets

/-- A file and a blob of the same content give the same lines: those that are asked for, as many as the limit
allows. No subtraction wraps around, and the limit is hit just where a further line is asked for and is too long. -/
theorem same_lines (content : List Byte) (request : LineRequest) : ∃ result,
    readRange content request = some result ∧ readBlobRange content request = some result ∧
      result.lines <+: requested content request ∧ result.lines.length ≤ request.lineCount ∧
      lineBytes result.lines ≤ request.byteLimit ∧
      (result.byteLimitHit = true ↔ ∃ line, (requested content request)[result.lines.length]? = some line ∧
        request.byteLimit < lineBytes result.lines + (line.length + 1)) ∧
      (result.byteLimitHit = false ↔ result.lines = requested content request) := by
  obtain ⟨front,within,whole,hit⟩ := fitting_spec request.byteLimit (requested content request)
  refine ⟨_,readRange_fitting content request,readBlobRange_fitting content request,front,?_,within,⟨hit,?_⟩,⟨whole,?_⟩⟩
  · refine front.length_le.trans ?_
    rw [requested,List.length_map]
    exact List.length_take_le _ _
  · intro ⟨line,found,_⟩
    by_contra enough
    rw [whole (by simpa using enough),List.getElem?_eq_none (Nat.le_refl _)] at found
    cases found
  · intro all
    by_contra short
    obtain ⟨line,found,_⟩ := hit (by simpa using short)
    rw [all,List.getElem?_eq_none (Nat.le_refl _)] at found
    cases found

end Semindex.Source
