import Semindex.CommandDb.Export
import Semindex.Support.Decimal
import Semindex.Support.JsonObject

/-! The performance trace: one JSON object in a line for each phase. Strings are
escaped byte by byte, into a buffer of the size that was counted before. -/
namespace Semindex.PerfTrace
open Semindex.Support Semindex.Json
open Semindex.CommandDb (CString fputs)

section Escape

structure Buffer where
  size : Nat
  written : List Byte

-- `none` is a store behind the end
def Buffer.put (out : Buffer) (byte : Byte) : Option Buffer :=
  if out.written.length < out.size then some {out with written := out.written ++ [byte]} else none

def Buffer.puts (out : Buffer) (bytes : List Byte) : Option Buffer := bytes.foldlM Buffer.put out

-- as `%s` prints it
def Buffer.string (out : Buffer) : List Byte := out.written.takeWhile (· ≠ 0)

def hex : List Byte := fputs "0123456789abcdef"

def escapedSize (p : Byte) : Nat :=
  if p = 34 ∨ p = 92 then 2 else if p < 0x20 ∨ 0x80 ≤ p then 6 else 1

def escapeByte (p : Byte) : List Byte :=
  if p = 34 ∨ p = 92 then [92,p]
  else if p < 0x20 ∨ 0x80 ≤ p then [92,117,48,48,hex[p.toNat / 16]?.getD 0,hex[p.toNat % 16]?.getD 0]
  else [p]

def jsonEscape (value : CString) : Option Buffer := do
  let len := value.bytes.foldl (fun len p => len + escapedSize p) 0
  let out ← value.bytes.foldlM (fun (out : Buffer) p => out.puts (escapeByte p)) ⟨len + 1,[]⟩
  out.put 0

end Escape

section Trace

structure Trace where
  command : List Byte
  source : List Byte
  failed : Bool

-- `memory` and `opened` are whether the allocations and `open` succeed
def semindexTraceOpen (path : Option CString) (memory opened : Bool) (command source : Option CString) : Option Trace :=
  if path = none ∨ memory = false then none
  else do
    let command ← jsonEscape (command.getD .empty)
    let source ← jsonEscape (source.getD .empty)
    if opened then some ⟨command.string,source.string,false⟩ else none

structure Call where
  phase : Option CString
  start : BitVec 64
  counts : Option (BitVec 64 × BitVec 64)

/-- What the system answers during a call: the clock, the allocations, and what the last
write returns. -/
structure Answers where
  pid : Nat
  now : Option (BitVec 64)
  memory : Bool
  written : Option Nat

def INT_MAX : Nat := 2^31-1

-- what the two calls of `snprintf` print
def traceLine (trace : Trace) (pid : Nat) (phase : List Byte) (call : Call) (now : BitVec 64) : List Byte :=
  match call.counts with
  | some (itemsIn,itemsOut) =>
    fputs "\x7b\"pid\":" ++ decimalBytes pid ++ fputs ",\"command\":\"" ++ trace.command ++ fputs "\",\"source\":\"" ++ trace.source ++
    fputs "\",\"phase\":\"" ++ phase ++ fputs "\",\"start_ns\":" ++ decimalBytes call.start.toNat ++ fputs ",\"duration_ns\":" ++
    decimalBytes (now - call.start).toNat ++ fputs ",\"items_in\":" ++ decimalBytes itemsIn.toNat ++ fputs ",\"items_out\":" ++
    decimalBytes itemsOut.toNat ++ fputs "\x7d\n"
  | none =>
    fputs "\x7b\"pid\":" ++ decimalBytes pid ++ fputs ",\"command\":\"" ++ trace.command ++ fputs "\",\"source\":\"" ++ trace.source ++
    fputs "\",\"phase\":\"" ++ phase ++ fputs "\",\"start_ns\":" ++ decimalBytes call.start.toNat ++ fputs ",\"duration_ns\":" ++
    decimalBytes (now - call.start).toNat ++ fputs "\x7d\n"

def Trace.fail (trace : Trace) : Trace × List Byte := ({trace with failed := true},[])

-- the trace behind the call, and what the call appends to the file
def traceEnd (trace : Trace) (call : Call) (answers : Answers) : Trace × List Byte :=
  if trace.failed then (trace,[])
  else match answers.now with
    | none => trace.fail
    | some now =>
      if answers.memory = false then trace.fail
      else match jsonEscape (call.phase.getD .empty) with
        | none => trace.fail
        | some phase =>
          let line := traceLine trace answers.pid phase.string call now
          if INT_MAX < line.length then trace.fail
          else match answers.written with
            | none => trace.fail
            | some written => ({trace with failed := written ≠ line.length},line.take written)

structure Piece where
  call : Call
  bytes : List Byte

def run : Trace → List (Call × Answers) → List Piece
  | _,[] => []
  | trace,(call,answers)::calls =>
    let (next,bytes) := traceEnd trace call answers
    ⟨call,bytes⟩::run next calls

end Trace

section Specification

/-- What is written fills what was allocated, and a reader of JSON gets the string back. -/
def Restored (value : CString) : Prop :=
  ∃ buffer text, jsonEscape value = some buffer ∧ buffer.written.length = buffer.size ∧
    readBytes (34::(buffer.string ++ [34])) = some (.string text) ∧ utf8 text = value.bytes

/-- A line that was not cut off. -/
def Line (bytes : List Byte) : Prop := bytes.getLast? = some 10

/-- The line is read as an object with these strings. -/
def Names (line : List Byte) (command source phase : CString) : Prop :=
  ∃ members, readBytes line = some (.object members) ∧
    (getString members "command").map utf8 = some command.bytes ∧
    (getString members "source").map utf8 = some source.bytes ∧
    (getString members "phase").map utf8 = some phase.bytes

def Ascii (value : CString) : Prop := ∀ p ∈ value.bytes, p.toNat < 0x80

end Specification

section Buffers
variable {out : Buffer}

theorem Buffer.puts_eq (bytes : List Byte) (fits : out.written.length + bytes.length ≤ out.size) :
    out.puts bytes = some ⟨out.size,out.written ++ bytes⟩ := by
  unfold Buffer.puts
  induction bytes generalizing out with
  | nil => simp
  | cons byte bytes ih =>
    rw [List.length_cons] at fits
    rw [List.foldlM_cons,Buffer.put,if_pos (by omega)]
    have rest := @ih {out with written := out.written ++ [byte]} (by simp; omega)
    rw [List.append_assoc,List.singleton_append] at rest
    exact rest

/-- The counting loop and the writing loop agree on every byte. -/
theorem escapeByte_length (p : Byte) : (escapeByte p).length = escapedSize p := by
  unfold escapeByte escapedSize
  split_ifs <;> rfl

theorem escapedLength_eq (bytes : List Byte) (len : Nat) :
    bytes.foldl (fun len p => len + escapedSize p) len = len + (bytes.flatMap escapeByte).length := by
  induction bytes generalizing len with
  | nil => rfl
  | cons p bytes ih =>
    rw [List.foldl_cons,ih,List.flatMap_cons,List.length_append,escapeByte_length]
    omega

theorem puts_all (bytes : List Byte) (fits : out.written.length + (bytes.flatMap escapeByte).length ≤ out.size) :
    bytes.foldlM (fun (out : Buffer) p => out.puts (escapeByte p)) out = some ⟨out.size,out.written ++ bytes.flatMap escapeByte⟩ := by
  induction bytes generalizing out with
  | nil => simp
  | cons p bytes ih =>
    rw [List.flatMap_cons,List.length_append] at fits
    rw [List.foldlM_cons,Buffer.puts_eq _ (by omega)]
    have rest := @ih ⟨out.size,out.written ++ escapeByte p⟩ (by simp only [List.length_append]; omega)
    rw [List.append_assoc] at rest
    exact rest

theorem jsonEscape_eq (value : CString) : jsonEscape value =
    some ⟨(value.bytes.flatMap escapeByte).length + 1,value.bytes.flatMap escapeByte ++ [0]⟩ := by
  unfold jsonEscape
  dsimp only
  rw [escapedLength_eq,Nat.zero_add,puts_all _ (by simp)]
  simp [Buffer.put]

end Buffers

section Reading
variable {b : Byte}

-- a byte in a JSON string, as the character that a reader makes of it
def spell (c : Char) : Text :=
  if c = '"' ∨ c = '\\' then ['\\',c]
  else if c.toNat < 0x20 ∨ 0x80 ≤ c.toNat then ['\\','u','0','0',Nat.digitChar (c.toNat / 16),Nat.digitChar (c.toNat % 16)]
  else [c]

theorem byteChar_toNat (p : Byte) : (Char.ofNat p.toNat).toNat = p.toNat := by
  have valid : p.toNat.isValidChar := .inl (by have := p.toNat_lt; omega)
  rw [Char.ofNat,dif_pos valid]
  rfl

theorem spell_utf8 (p : Byte) : utf8 (spell (Char.ofNat p.toNat)) = escapeByte p := by
  have every : ∀ n < 256, utf8 (spell (Char.ofNat n)) = escapeByte (UInt8.ofNat n) := by decide +kernel
  have same := every p.toNat p.toNat_lt
  rwa [UInt8.ofNat_toNat] at same

theorem unit_digits : ∀ n < 256, hexUnit '0' '0' (Nat.digitChar (n / 16)) (Nat.digitChar (n % 16)) = some n := by
  decide +kernel

theorem spell_spells {c : Char} (small : c.toNat < 256) : Spells (spell c) c := by
  unfold spell
  split_ifs with marked escaped
  · rcases marked with rfl | rfl
    · exact spells_escape (by decide) (by decide)
    · exact spells_escape (by decide) (by decide)
  · have unit := spells_unit (unit_digits c.toNat small) (by omega)
    rwa [Char.ofNat_toNat] at unit
  · obtain ⟨quote,backslash⟩ := not_or.mp marked
    obtain ⟨printed,_⟩ := not_or.mp escaped
    exact spells_plain quote backslash (by omega)

theorem latin_small {bytes : List Byte} {c : Char} (member : c ∈ latin bytes) : c.toNat < 256 := by
  obtain ⟨p,_,rfl⟩ := List.mem_map.mp member
  rw [byteChar_toNat]
  exact p.toNat_lt

def quoted (bytes : List Byte) : Text := '"'::(latin bytes).flatMap spell ++ ['"']

theorem reads_quoted (bytes : List Byte) : Reads (quoted bytes) (.string (latin bytes)) :=
  reads_string (fun _ member => spell_spells (latin_small member))

theorem escaped_utf8 (bytes : List Byte) : bytes.flatMap escapeByte = utf8 ((latin bytes).flatMap spell) := by
  induction bytes with
  | nil => rfl
  | cons p bytes ih =>
    rw [List.flatMap_cons,ih,← spell_utf8,← utf8_append]
    rfl

theorem escapeByte_ends (set : b ≠ 0) : (0 : Byte) ∉ escapeByte b := by
  have every : ∀ n < 256, n ≠ 0 → (0 : Byte) ∉ escapeByte (UInt8.ofNat n) := by decide +kernel
  have same := every b.toNat b.toNat_lt (fun zero => set (UInt8.toNat_inj.mp zero))
  rwa [UInt8.ofNat_toNat] at same

/-- The escaped string, up to its NUL. -/
theorem jsonEscape_string (value : CString) : ∃ buffer, jsonEscape value = some buffer ∧ buffer.written.length = buffer.size ∧
    buffer.string = utf8 ((latin value.bytes).flatMap spell) := by
  refine ⟨_,jsonEscape_eq value,by simp,?_⟩
  have ends : ∀ p ∈ value.bytes.flatMap escapeByte, decide (p ≠ 0) = true := by
    intro p member
    obtain ⟨b,inside,here⟩ := List.mem_flatMap.mp member
    have set : b ≠ 0 := by
      intro zero
      rw [zero] at inside
      exact value.ends inside
    exact decide_eq_true (fun zero => escapeByte_ends set (zero ▸ here))
  rw [Buffer.string,List.takeWhile_append_of_pos ends,List.takeWhile_cons_of_neg (by decide),List.append_nil,escaped_utf8]

theorem latin_ascii {bytes : List Byte} (ascii : ∀ p ∈ bytes, p.toNat < 0x80) : utf8 (latin bytes) = bytes := by
  induction bytes with
  | nil => rfl
  | cons p bytes ih =>
    have single := utf8_ascii (ascii p List.mem_cons_self)
    rw [utf8_cons,utf8_nil,List.append_nil] at single
    rw [latin,List.map_cons,utf8_cons,single]
    exact congrArg (p :: ·) (ih (fun other member => ascii other (List.mem_cons_of_mem _ member)))

theorem encode_long (c : Char) (large : 0x80 ≤ c.toNat) : 2 ≤ (String.utf8EncodeChar c).length := by
  have value : c.val.toNat = c.toNat := rfl
  unfold String.utf8EncodeChar
  dsimp only
  rw [value]
  split_ifs <;> simp
  omega

/-- A character for each byte is longer than the bytes where one is not ASCII. -/
theorem latin_length (bytes : List Byte) :
    bytes.length ≤ (utf8 (latin bytes)).length ∧ ((utf8 (latin bytes)).length = bytes.length → ∀ p ∈ bytes, p.toNat < 0x80) := by
  induction bytes with
  | nil => simp [latin]
  | cons p bytes ih =>
    obtain ⟨least,exact⟩ := ih
    have whole : utf8 (latin (p::bytes)) = String.utf8EncodeChar (Char.ofNat p.toNat) ++ utf8 (latin bytes) := rfl
    have some : 0 < (String.utf8EncodeChar (Char.ofNat p.toNat)).length := String.length_utf8EncodeChar _ ▸ Char.utf8Size_pos _
    rw [whole,List.length_append,List.length_cons]
    refine ⟨by omega,fun same => ?_⟩
    refine List.forall_mem_cons.mpr ⟨?_,exact (by omega)⟩
    by_contra large
    have long := encode_long (Char.ofNat p.toNat) (by rw [byteChar_toNat]; omega)
    omega

theorem latin_iff (value : CString) : utf8 (latin value.bytes) = value.bytes ↔ Ascii value := by
  constructor
  · intro same
    exact (latin_length value.bytes).2 (congrArg List.length same)
  · exact latin_ascii

theorem restored_iff (value : CString) : Restored value ↔ Ascii value := by
  obtain ⟨buffer,escaped,full,string⟩ := jsonEscape_string value
  have body : 34::(buffer.string ++ [34]) = utf8 (quoted value.bytes) := by
    rw [string,quoted,utf8_append]
    rfl
  have read : readBytes (34::(buffer.string ++ [34])) = some (.string (latin value.bytes)) := by
    rw [body]
    exact readBytes_reads (reads_quoted value.bytes)
  rw [← latin_iff]
  constructor
  · intro ⟨other,text,again,_,decoded,same⟩
    rw [escaped] at again
    cases again
    rw [read] at decoded
    cases decoded
    exact same
  · intro same
    exact ⟨buffer,_,escaped,full,read,same⟩

end Reading

section Lines
variable (pid : Nat) (command source phase : List Byte) (call : Call) (now : BitVec 64)

def numberPart (name : String) (n : Nat) : Text × Text × Json := (name.toList,Nat.toDigits 10 n,.number (Nat.toDigits 10 n))

def stringPart (name : String) (bytes : List Byte) : Text × Text × Json := (name.toList,quoted bytes,.string (latin bytes))

def lineParts : List (Text × Text × Json) := [
  numberPart "pid" pid,
  stringPart "command" command,
  stringPart "source" source,
  stringPart "phase" phase,
  numberPart "start_ns" call.start.toNat,
  numberPart "duration_ns" (now - call.start).toNat] ++
  match call.counts with
  | some (itemsIn,itemsOut) => [numberPart "items_in" itemsIn.toNat,numberPart "items_out" itemsOut.toNat]
  | none => []

variable {pid command source phase call now} {trace : Trace}

/-- A trace with these strings. -/
structure Carries (trace : Trace) (command source : List Byte) : Prop where
  command : trace.command = utf8 ((latin command).flatMap spell)
  source : trace.source = utf8 ((latin source).flatMap spell)

theorem traceLine_utf8 (carries : Carries trace command source) :
    traceLine trace pid (utf8 ((latin phase).flatMap spell)) call now =
      utf8 (objectText (lineParts pid command source phase call now)) ++ [10] := by
  have newline : [10] = utf8 ['\n'] := rfl
  rw [newline,← utf8_append]
  unfold traceLine
  rw [carries.command,carries.source]
  cases counted : call.counts with
  | none =>
    dsimp only
    simp only [fputs,decimalBytes,decimal,← utf8_append]
    refine congrArg utf8 ?_
    simp [lineParts,counted,numberPart,stringPart,objectText,membersText,key,quoted]
  | some counts =>
    dsimp only
    simp only [fputs,decimalBytes,decimal,← utf8_append]
    refine congrArg utf8 ?_
    simp [lineParts,counted,numberPart,stringPart,objectText,membersText,key,quoted]

def lineNames : List Text := ["pid","command","source","phase","start_ns","duration_ns","items_in","items_out"].map String.toList

theorem lineNames_plain : lineNames.Nodup ∧ ∀ name ∈ lineNames, Plain name := ⟨by decide,plain_names (by decide)⟩

theorem lineParts_names : (lineParts pid command source phase call now).map Prod.fst <+: lineNames := by
  unfold lineParts
  cases call.counts with
  | none => exact ⟨["items_in".toList,"items_out".toList],rfl⟩
  | some counts => exact ⟨[],rfl⟩

theorem lineParts_cases {part : Text × Text × Json} (member : part ∈ lineParts pid command source phase call now) :
    (∃ name n, part = numberPart name n) ∨ ∃ name bytes, part = stringPart name bytes := by
  unfold lineParts at member
  obtain fixed | counted := List.mem_append.mp member
  · simp only [List.mem_cons,List.not_mem_nil,or_false] at fixed
    rcases fixed with pid | command | source | phase | start | duration
    · exact .inl ⟨_,_,pid⟩
    · exact .inr ⟨_,_,command⟩
    · exact .inr ⟨_,_,source⟩
    · exact .inr ⟨_,_,phase⟩
    · exact .inl ⟨_,_,start⟩
    · exact .inl ⟨_,_,duration⟩
  · split at counted
    · simp only [List.mem_cons,List.not_mem_nil,or_false] at counted
      rcases counted with itemsIn | itemsOut
      · exact .inl ⟨_,_,itemsIn⟩
      · exact .inl ⟨_,_,itemsOut⟩
    · cases counted

theorem lineParts_reads {part : Text × Text × Json} (member : part ∈ lineParts pid command source phase call now) :
    ReadsInside part.2.1 part.2.2 := by
  obtain ⟨name,n,same⟩ | ⟨name,bytes,same⟩ := lineParts_cases member
  · rw [same]
    exact reads_digits n
  · rw [same]
    exact (reads_quoted bytes).inside

def lineMembers (parts : List (Text × Text × Json)) : List (Text × Json) := parts.map (fun part => (part.1,part.2.2))

theorem readBytes_line (carries : Carries trace command source) :
    readBytes (traceLine trace pid (utf8 ((latin phase).flatMap spell)) call now) =
      some (.object (lineMembers (lineParts pid command source phase call now))) := by
  have plain : ∀ part ∈ lineParts pid command source phase call now, Plain part.1 := fun part member =>
    lineNames_plain.2 _ (lineParts_names.subset (List.mem_map_of_mem member))
  have filled : lineParts pid command source phase call now ≠ [] := List.append_ne_nil_of_left_ne_nil (List.cons_ne_nil _ _) _
  have newline : [10] = utf8 ['\n'] := rfl
  have space : Spaces ['\n'] := by simp [Spaces,isSpace]
  rw [traceLine_utf8 carries,newline,← utf8_append,readBytes,decode_utf8,Option.bind_some]
  exact readText_reads (reads_objectText filled plain (fun part => lineParts_reads)) space

theorem lineMembers_string {i : Nat} {name : String} {bytes : List Byte}
    (here : (lineParts pid command source phase call now)[i]? = some (stringPart name bytes)) :
    getString (lineMembers (lineParts pid command source phase call now)) name = some (latin bytes) := by
  have distinct : ((lineMembers (lineParts pid command source phase call now)).map Prod.fst).Nodup := by
    rw [lineMembers,List.map_map]
    exact lineNames_plain.1.sublist lineParts_names.sublist
  refine @getString_member _ _ i _ distinct ?_
  rw [lineMembers,List.getElem?_map,here]
  rfl

/-- A line names its strings exactly when these are ASCII. -/
theorem names_iff {command source phase : CString} (carries : Carries trace command.bytes source.bytes) :
    Names (traceLine trace pid (utf8 ((latin phase.bytes).flatMap spell)) call now) command source phase ↔
      Ascii command ∧ Ascii source ∧ Ascii phase := by
  have strings : (getString (lineMembers (lineParts pid command.bytes source.bytes phase.bytes call now)) "command" = some (latin command.bytes)) ∧
      (getString (lineMembers (lineParts pid command.bytes source.bytes phase.bytes call now)) "source" = some (latin source.bytes)) ∧
      getString (lineMembers (lineParts pid command.bytes source.bytes phase.bytes call now)) "phase" = some (latin phase.bytes) :=
    ⟨lineMembers_string (i := 1) rfl,lineMembers_string (i := 2) rfl,lineMembers_string (i := 3) rfl⟩
  obtain ⟨first,second,third⟩ := strings
  rw [← latin_iff,← latin_iff,← latin_iff]
  constructor
  · intro ⟨members,read,same⟩
    rw [readBytes_line carries] at read
    cases read
    rw [first,second,third] at same
    simpa using same
  · intro same
    refine ⟨_,readBytes_line carries,?_⟩
    rw [first,second,third]
    simpa using same

end Lines

section Newlines
variable {body : List Byte} {n : Nat}

theorem utf8_newline {text : Text} (member : 10 ∈ utf8 text) : '\n' ∈ text := by
  obtain ⟨before,after,split⟩ := List.append_of_mem member
  obtain ⟨first,second,same,_⟩ := utf8_cut (b := 10) (by decide) split
  rw [same]
  exact List.mem_append_right _ List.mem_cons_self

theorem digits_printed (n : Nat) : '\n' ∉ Nat.toDigits 10 n := fun member => absurd (isDigit_digits member) (by decide)

theorem escapeByte_printed (b : Byte) : (10 : Byte) ∉ escapeByte b := by
  have every : ∀ n < 256, (10 : Byte) ∉ escapeByte (UInt8.ofNat n) := by decide +kernel
  have same := every b.toNat b.toNat_lt
  rwa [UInt8.ofNat_toNat] at same

theorem quoted_printed (bytes : List Byte) : '\n' ∉ quoted bytes := by
  intro member
  have inside : '\n' ∈ (latin bytes).flatMap spell := by simpa [quoted] using member
  have encoded : (10 : Byte) ∈ utf8 ((latin bytes).flatMap spell) := List.mem_flatMap.mpr ⟨'\n',inside,by decide⟩
  rw [← escaped_utf8] at encoded
  obtain ⟨b,_,here⟩ := List.mem_flatMap.mp encoded
  exact escapeByte_printed b here

theorem lineParts_printed {pid : Nat} {command source phase : List Byte} {call : Call} {now : BitVec 64}
    {part : Text × Text × Json} (member : part ∈ lineParts pid command source phase call now) : '\n' ∉ part.2.1 := by
  obtain ⟨name,n,same⟩ | ⟨name,bytes,same⟩ := lineParts_cases member
  · rw [same]
    exact digits_printed n
  · rw [same]
    exact quoted_printed bytes

/-- A line has no other newline than the one at its end. -/
theorem body_printed (pid : Nat) (command source phase : List Byte) (call : Call) (now : BitVec 64) :
    (10 : Byte) ∉ utf8 (objectText (lineParts pid command source phase call now)) := by
  intro member
  have inside := utf8_newline member
  rw [objectText] at inside
  obtain mark | later := List.mem_cons.mp inside
  · exact absurd mark (by decide)
  · obtain ⟨part,here,name | value⟩ | mark := mem_membersText later
    · have printed := lineNames_plain.2 _ (lineParts_names.subset (List.mem_map_of_mem here)) '\n' name
      exact absurd printed.2.2 (by decide)
    · exact lineParts_printed here value
    · exact absurd mark (by decide)

/-- A piece that ends in a newline was not cut. -/
theorem take_line (printed : (10 : Byte) ∉ body) (line : Line ((body ++ [10]).take n)) : (body ++ [10]).take n = body ++ [10] := by
  by_cases whole : (body ++ [10]).length ≤ n
  · exact List.take_of_length_le whole
  · have short : n ≤ body.length := by
      rw [List.length_append,List.length_singleton] at whole
      omega
    rw [Line,List.take_append_of_le_length short] at line
    exact absurd (List.mem_of_mem_take (List.mem_of_getLast? line)) printed

end Newlines

section Runs
variable {trace : Trace} {command source : CString} {call : Call} {answers : Answers} {calls : List (Call × Answers)}

/-- What one call does: it fails and appends nothing, or it appends its line or the front of it, and
fails where it was the front. -/
theorem traceEnd_cases (carries : Carries trace command.bytes source.bytes) (call : Call) (answers : Answers) :
    Carries (traceEnd trace call answers).1 command.bytes source.bytes ∧
      (((traceEnd trace call answers).1.failed = true ∧ (traceEnd trace call answers).2 = []) ∨
        ∃ now written, (traceEnd trace call answers).2 =
            (traceLine trace answers.pid (utf8 ((latin (call.phase.getD .empty).bytes).flatMap spell)) call now).take written ∧
          ((traceEnd trace call answers).1.failed = false → Line (traceEnd trace call answers).2)) := by
  obtain ⟨buffer,escaped,_,string⟩ := jsonEscape_string (call.phase.getD .empty)
  generalize step : traceEnd trace call answers = result
  unfold traceEnd at step
  split at step
  · rename_i failed
    cases step
    exact ⟨carries,.inl ⟨failed,rfl⟩⟩
  split at step
  · cases step
    exact ⟨⟨carries.command,carries.source⟩,.inl ⟨rfl,rfl⟩⟩
  rename_i now _
  split at step
  · cases step
    exact ⟨⟨carries.command,carries.source⟩,.inl ⟨rfl,rfl⟩⟩
  rw [escaped] at step
  dsimp only at step
  split at step
  · cases step
    exact ⟨⟨carries.command,carries.source⟩,.inl ⟨rfl,rfl⟩⟩
  split at step
  · cases step
    exact ⟨⟨carries.command,carries.source⟩,.inl ⟨rfl,rfl⟩⟩
  rename_i written _
  cases step
  refine ⟨⟨carries.command,carries.source⟩,.inr ⟨now,written,by rw [string],fun whole => ?_⟩⟩
  rw [string,traceLine_utf8 carries] at whole ⊢
  have length := of_decide_eq_false whole
  rw [Line,List.take_of_length_le (by omega),List.getLast?_append]
  rfl

theorem semindexTraceOpen_carries {path : Option CString} {memory opened : Bool} {command source : Option CString}
    (started : semindexTraceOpen path memory opened command source = some trace) :
    Carries trace (command.getD .empty).bytes (source.getD .empty).bytes := by
  obtain ⟨first,escapedCommand,_,commandString⟩ := jsonEscape_string (command.getD .empty)
  obtain ⟨second,escapedSource,_,sourceString⟩ := jsonEscape_string (source.getD .empty)
  unfold semindexTraceOpen at started
  rw [escapedCommand,escapedSource] at started
  split at started
  · cases started
  · simp only [Option.bind_eq_bind,Option.bind_some] at started
    split at started
    · cases started
      exact ⟨commandString,sourceString⟩
    · cases started

theorem run_cons : run trace ((call,answers)::calls) =
    ⟨call,(traceEnd trace call answers).2⟩::run (traceEnd trace call answers).1 calls := rfl

/-- A line of a run names the strings of its call exactly when they are ASCII. -/
theorem run_names (carries : Carries trace command.bytes source.bytes) {piece : Piece} (member : piece ∈ run trace calls)
    (line : Line piece.bytes) :
    Names piece.bytes command source (piece.call.phase.getD .empty) ↔
      Ascii command ∧ Ascii source ∧ Ascii (piece.call.phase.getD .empty) := by
  induction calls generalizing trace with
  | nil => cases member
  | cons entry calls ih =>
    obtain ⟨call,answers⟩ := entry
    obtain ⟨kept,wrote⟩ := traceEnd_cases carries call answers
    rw [run_cons] at member
    obtain here | later := List.mem_cons.mp member
    · rw [here] at line ⊢
      dsimp only at line ⊢
      obtain ⟨_,nothing⟩ | ⟨now,written,cut,_⟩ := wrote
      · rw [nothing] at line
        cases line
      · have whole := @traceLine_utf8 answers.pid _ _ (call.phase.getD .empty).bytes call now _ carries
        have full : (traceEnd trace call answers).2 = traceLine trace answers.pid
            (utf8 ((latin (call.phase.getD .empty).bytes).flatMap spell)) call now := by
          rw [cut,whole] at line ⊢
          exact take_line (body_printed _ _ _ _ _ _) line
        rw [full]
        exact names_iff carries
    · exact ih kept later

end Runs

/-- A string is escaped into what was allocated for it, and read back exactly when it is ASCII;
the lines of a run name the command, the source and the phase exactly when these are. -/
theorem trace_decodable_iff (value : CString) (path : Option CString) (memory opened : Bool) (command source : Option CString)
    (calls : List (Call × Answers)) :
    (∃ buffer, jsonEscape value = some buffer ∧ buffer.written.length = buffer.size) ∧
    (Restored value ↔ Ascii value) ∧
    ∀ trace ∈ semindexTraceOpen path memory opened command source,
      ((∀ piece ∈ run trace calls, Line piece.bytes →
          Names piece.bytes (command.getD .empty) (source.getD .empty) (piece.call.phase.getD .empty)) ↔
        ∀ piece ∈ run trace calls, Line piece.bytes →
          Ascii (command.getD .empty) ∧ Ascii (source.getD .empty) ∧ Ascii (piece.call.phase.getD .empty)) := by
  refine ⟨?_,restored_iff value,?_⟩
  · obtain ⟨buffer,escaped,full,_⟩ := jsonEscape_string value
    exact ⟨buffer,escaped,full⟩
  · intro trace started
    have carries := semindexTraceOpen_carries (Option.mem_def.mp started)
    exact forall₂_congr (fun piece member => forall_congr' (fun line => run_names carries member line))

def accentedSource : CString := ⟨utf8 "é.c".toList,by decide⟩

/-- A reader of the trace finds another path than the one that was indexed. -/
theorem accented_source_lost : ¬ Restored accentedSource := by
  intro restored
  have ascii := (restored_iff accentedSource).mp restored 0xc3 (by decide)
  exact absurd ascii (by decide)

end Semindex.PerfTrace
