import Semindex.CommandDb.LastStore
import Semindex.Relational.Paging
import Semindex.Support.Json
import Mathlib.Data.List.Lex
import Mathlib.Data.Set.List

/-! `command_db_export`: the commands of a variant as JSON. What is written is read
back by a reader that is strict about UTF-8 just when the strings are UTF-8; their
other bytes are written as they are. -/
namespace Semindex.CommandDb
open Semindex.Relational Semindex.Support Semindex.Delimited Semindex.Json

section Writers

def fputs (text : String) : List Byte := utf8 text.toList

-- `%04x`
def hex4 (n : Nat) : Text :=
  [Nat.digitChar (n / 4096 % 16),Nat.digitChar (n / 256 % 16),Nat.digitChar (n / 16 % 16),Nat.digitChar (n % 16)]

def escape (ch : Byte) : Option Text :=
  if ch = 34 then some ['\\','"']
  else if ch = 92 then some ['\\','\\']
  else if ch = 8 then some ['\\','b']
  else if ch = 12 then some ['\\','f']
  else if ch = 10 then some ['\\','n']
  else if ch = 13 then some ['\\','r']
  else if ch = 9 then some ['\\','t']
  else none

def writeByte (ch : Byte) : List Byte :=
  match escape ch with
  | some text => utf8 text
  | none => if ch < 0x20 then utf8 ('\\' :: 'u' :: hex4 ch.toNat) else [ch]

def writeJsonString (value : List Byte) : List Byte := 34::(value.flatMap writeByte ++ [34])

-- the bytes from the offset on
def writeArgumentsFrom (first : Bool) (blob : List Byte) : Option (List Byte) :=
  if blob = [] then some []
  else if nul ∈ blob then
    (writeArgumentsFrom false (blob.dropWhile (· ≠ nul)).tail).map (fun more =>
      (if first then [] else fputs ", ") ++ writeJsonString (blob.takeWhile (· ≠ nul)) ++ more)
  else none
termination_by blob.length
decreasing_by
  have shorter := (List.dropWhile_suffix (fun b => decide (b ≠ nul)) (l := blob)).length_le
  have some := List.length_pos_iff.mpr ‹blob ≠ []›
  rw [List.length_tail]
  omega

def writeArguments (blob : List Byte) : Option (List Byte) :=
  (writeArgumentsFrom true blob).map (fun text => fputs "[" ++ (text ++ fputs "]"))

abbrev CommandRow := (CString × CString) × (CString × List Byte)

def writeCommand (directory file : CString) (arguments : List Byte) : List Byte :=
  fputs "  \x7b\n    \"directory\": " ++ (writeJsonString directory.bytes ++ (fputs ",\n    \"file\": " ++
    (writeJsonString file.bytes ++ (fputs ",\n    \"arguments\": " ++ (arguments ++ fputs "\n  \x7d")))))

def writeRows : Bool → List CommandRow → Option (List Byte)
  | _, [] => some []
  | first, row::rows => do
    let arguments ← writeArguments row.2.2
    let more ← writeRows false rows
    some ((if first then [] else fputs ",\n") ++ writeCommand row.2.1 row.1.2 arguments ++ more)

-- `WHERE variant = ?1 ORDER BY file`
def fileOrder (row : CommandRow) : List Nat := row.1.2.bytes.map UInt8.toNat

def selected (commands : Commands) (variant : CString) : List CommandRow :=
  orderBy fileOrder (commands.rows.filter (fun row => row.1.1 = variant))

-- what is written where 0 is returned; `none` is the return value -1
def commandDbExport (file : Option CommandFile) (variant : CString) : Option (List Byte) :=
  if variant = .empty then none
  else do
    let commands ← rows file
    let text ← writeRows true (selected commands variant)
    some (fputs "[\n" ++ (text ++ fputs "\n]\n"))

end Writers

section Strings

-- the spelling of a character
def spell (c : Char) : Text :=
  if c.toNat < 0x80 then
    match escape (UInt8.ofNat c.toNat) with
    | some text => text
    | none => if c.toNat < 0x20 then '\\' :: 'u' :: hex4 c.toNat else [c]
  else [c]

def quoted (text : Text) : Text := '"'::text.flatMap spell ++ ['"']

theorem escape_high {ch : Byte} (high : 0x5d ≤ ch.toNat) : escape ch = none := by
  have other (b : Byte) (low : b.toNat < 0x5d) : ch ≠ b := fun same => by rw [same] at high; omega
  unfold escape
  simp [other 34 (by decide),other 92 (by decide),other 8 (by decide),other 12 (by decide),other 10 (by decide),
    other 13 (by decide),other 9 (by decide)]

theorem writeByte_high {ch : Byte} (high : 0x80 ≤ ch.toNat) : writeByte ch = [ch] := by
  have printed : ¬ ch < 0x20 := by
    intro small
    have value := UInt8.lt_iff_toNat_lt.mp small
    change ch.toNat < 32 at value
    omega
  simp [writeByte,escape_high (show 0x5d ≤ ch.toNat by omega),printed]

theorem writeByte_char (c : Char) : (String.utf8EncodeChar c).flatMap writeByte = utf8 (spell c) := by
  rcases encode_cases c with ⟨small,single⟩ | ⟨large,high⟩
  · have value : (UInt8.ofNat c.toNat).toNat = c.toNat := by
      rw [UInt8.toNat_ofNat']
      omega
    rw [single,List.flatMap_singleton,spell,if_pos small,writeByte]
    cases escape (UInt8.ofNat c.toNat) with
    | some text => rfl
    | none =>
      have printed : (UInt8.ofNat c.toNat < 0x20) = (c.toNat < 0x20) := by
        rw [UInt8.lt_iff_toNat_lt,value]
        rfl
      dsimp only
      rw [value]
      simp only [printed]
      split
      · rfl
      · rw [utf8_cons,single]
        rfl
  · rw [spell,if_neg (by omega),utf8_cons,utf8_nil,List.append_nil]
    have same : ∀ b ∈ String.utf8EncodeChar c, writeByte b = [b] := fun b member => writeByte_high (high b member).1
    calc
      (String.utf8EncodeChar c).flatMap writeByte = (String.utf8EncodeChar c).flatMap (fun b => [b]) :=
        List.flatMap_congr same
      _ = String.utf8EncodeChar c := by simp

theorem writeByte_utf8 (text : Text) : (utf8 text).flatMap writeByte = utf8 (text.flatMap spell) := by
  induction text with
  | nil => rfl
  | cons c text ih => rw [utf8_cons,List.flatMap_append,writeByte_char,ih,List.flatMap_cons,utf8_append]

/-- The short escapes are those that a reader knows. -/
theorem escape_unescape {ch : Byte} {text : Text} (escaped : escape ch = some text) :
    ∃ e, text = ['\\',e] ∧ e ≠ 'u' ∧ unescape e = some (Char.ofNat ch.toNat) := by
  unfold escape at escaped
  split_ifs at escaped with quote backslash backspace feed newline carriage tab <;> cases escaped
  · exact ⟨_,rfl,by decide,by rw [quote]; decide⟩
  · exact ⟨_,rfl,by decide,by rw [backslash]; decide⟩
  · exact ⟨_,rfl,by decide,by rw [backspace]; decide⟩
  · exact ⟨_,rfl,by decide,by rw [feed]; decide⟩
  · exact ⟨_,rfl,by decide,by rw [newline]; decide⟩
  · exact ⟨_,rfl,by decide,by rw [carriage]; decide⟩
  · exact ⟨_,rfl,by decide,by rw [tab]; decide⟩

theorem hex4_unit : ∀ n < 0x20, hexUnit (Nat.digitChar (n / 4096 % 16)) (Nat.digitChar (n / 256 % 16))
    (Nat.digitChar (n / 16 % 16)) (Nat.digitChar (n % 16)) = some n := by decide

theorem spell_spells (c : Char) : Spells (spell c) c := by
  by_cases small : c.toNat < 0x80
  · have value : (UInt8.ofNat c.toNat).toNat = c.toNat := by
      rw [UInt8.toNat_ofNat']
      omega
    rw [spell,if_pos small]
    cases escaped : escape (UInt8.ofNat c.toNat) with
    | some text =>
      obtain ⟨e,same,plain,known⟩ := escape_unescape escaped
      rw [value,Char.ofNat_toNat] at known
      rw [same]
      exact spells_escape plain known
    | none =>
      dsimp only
      split
      · rename_i control
        have spelled := spells_unit (hex4_unit c.toNat control) (by omega)
        rwa [Char.ofNat_toNat] at spelled
      · rename_i printed
        refine spells_plain ?_ ?_ (by omega)
        · intro same
          rw [same] at escaped
          exact absurd escaped (by decide)
        · intro same
          rw [same] at escaped
          exact absurd escaped (by decide)
  · rw [spell,if_neg small]
    refine spells_plain ?_ ?_ (by omega)
    · intro same
      exact small (by rw [same]; decide)
    · intro same
      exact small (by rw [same]; decide)

theorem reads_quoted (text : Text) : Reads (quoted text) (.string text) := reads_string (fun c _ => spell_spells c)

/-- What is written for a byte of ASCII starts with one. -/
theorem writeByte_low {ch : Byte} (small : ch.toNat < 0x80) :
    ∃ first rest, writeByte ch = first::utf8 rest ∧ first.toNat < 0x80 := by
  unfold writeByte
  cases escaped : escape ch with
  | some text =>
    unfold escape at escaped
    split_ifs at escaped <;> cases escaped <;> exact ⟨92,[_],rfl,by decide⟩
  | none =>
    dsimp only
    split
    · exact ⟨92,'u'::hex4 ch.toNat,rfl,by decide⟩
    · exact ⟨ch,[],rfl,small⟩

/-- Bytes that are no UTF-8 stay so, since escapes are of ASCII. -/
theorem decode_writeByte (value : List Byte) :
    decodeUtf8 (value.flatMap writeByte) = (decodeUtf8 value).map (·.flatMap spell) := by
  cases decoded : decodeUtf8 value with
  | some text =>
    rw [← decodeUtf8_iff.mp decoded,writeByte_utf8,decode_utf8]
    rfl
  | none =>
    rw [Option.map_none]
    -- by the first byte of ASCII, where there is one
    induction len : value.length using Nat.strong_induction_on generalizing value with
    | _ n ih =>
      have unchanged {front : List Byte} (high : ∀ b ∈ front, ¬ b.toNat < 0x80) : front.flatMap writeByte = front := by
        have same : ∀ b ∈ front, writeByte b = [b] := fun b member => writeByte_high (by have := high b member; omega)
        rw [List.flatMap_congr same]
        simp
      cases found : value.find? (fun b => b.toNat < 0x80) with
      | none =>
        have high := List.find?_eq_none.mp found
        rw [unchanged (fun b member => by simpa using high b member),decoded]
      | some b =>
        obtain ⟨small,front,rest,split,high⟩ := List.find?_eq_some_iff_append.mp found
        have small : b.toNat < 0x80 := by simpa using small
        obtain ⟨first,spelled,written,low⟩ := writeByte_low small
        have shorter : rest.length < n := by
          rw [← len,split]
          simp
          omega
        rw [split,decode_cut small] at decoded
        rw [split,List.flatMap_append,List.flatMap_cons,unchanged (fun x member => by simpa using high x member),written,
          List.cons_append,decode_cut low,apart_utf8 spelled]
        cases left : decodeUtf8 front with
        | none => rfl
        | some text =>
          rw [left,Option.bind_some] at decoded
          rw [ih rest.length shorter rest (by simpa using decoded) rfl]
          rfl

theorem apart_jsonString (value : List Byte) : Apart (writeJsonString value) ((decodeUtf8 value).map quoted) := by
  intro after
  have quote : (34 : Byte).toNat < 0x80 := by decide
  have front := @decode_cut [] (value.flatMap writeByte ++ 34::after) 34 quote
  rw [writeJsonString,List.cons_append,List.append_assoc,List.singleton_append]
  rw [List.nil_append] at front
  rw [front,decode_cut quote,decode_writeByte]
  cases decodeUtf8 value <;> cases decodeUtf8 after <;> simp [quoted,show decodeUtf8 [] = some [] from decode_utf8 []]

end Strings

section Lists
variable {argv : List CString} {first : Bool}

theorem writeArgumentsFrom_packing (first : Bool) (argv : List CString) : writeArgumentsFrom first (packing argv) =
    some (listed (fputs ", ") first (argv.map (fun argument => writeJsonString argument.bytes))) := by
  induction argv generalizing first with
  | nil =>
    have empty : packing [] = [] := rfl
    rw [empty,writeArgumentsFrom,if_pos rfl]
    rfl
  | cons argument rest ih =>
    obtain ⟨front,back⟩ := takeWhile_cut argument.ends (packing rest)
    rw [packing_cons,writeArgumentsFrom,if_neg (by simp),if_pos (by simp),front,back,List.tail_cons,ih]
    rfl

def argumentsText (argv : List Text) : Text := '['::(listed ", ".toList true (argv.map quoted) ++ [']'])

theorem writeArguments_packing (argv : List CString) : writeArguments (packing argv) =
    some (fputs "[" ++ (listed (fputs ", ") true (argv.map (fun argument => writeJsonString argument.bytes)) ++ fputs "]")) := by
  rw [writeArguments,writeArgumentsFrom_packing]
  rfl

theorem reads_arguments (argv : List Text) : Reads (argumentsText argv) (.array (argv.map .string)) := by
  have none : Spaces [] := by simp [Spaces]
  have one : Spaces [' '] := by simp [Spaces,isSpace]
  have parts : ∀ part ∈ argv.map (fun text => (quoted text,Json.string text)), Reads part.1 part.2 := by
    intro part member
    obtain ⟨text,_,rfl⟩ := List.mem_map.mp member
    exact reads_quoted text
  have read := reads_listed none one none none parts
  rw [List.map_map,List.map_map] at read
  exact read

/-- A list whose items are decoded on their own. -/
theorem apart_listed {α β : Type} (separator : Text) {write : α → List Byte} {decode : α → Option β} {spelled : β → Text}
    {items : List α} (apart : ∀ item ∈ items, Apart (write item) ((decode item).map spelled)) (first : Bool) :
    Apart (listed (utf8 separator) first (items.map write))
      ((items.mapM decode).map (fun values => listed separator first (values.map spelled))) := by
  induction items generalizing first with
  | nil => exact apart_utf8 []
  | cons item items ih =>
    have more := ih (fun other member => apart other (List.mem_cons_of_mem _ member)) false
    have front := apart_utf8 (if first then [] else separator)
    have whole := (front.append (apart item List.mem_cons_self)).append more
    have bytes : utf8 (if first then [] else separator) = if first then [] else utf8 separator := by split <;> rfl
    rw [bytes] at whole
    rw [List.map_cons,listed,List.mapM_cons]
    convert whole using 1
    cases decode item <;> cases items.mapM decode <;> simp [listed]

end Lists

section Commands

-- the strings of a command as text
structure CommandText where
  directory : Text
  file : Text
  argv : List Text

def Command.text (command : Command) : Option CommandText := do
  let directory ← decodeUtf8 command.directory.bytes
  let file ← decodeUtf8 command.file.bytes
  let argv ← command.argv.mapM (fun argument => decodeUtf8 argument.bytes)
  some ⟨directory,file,argv⟩

/-- An entry of a compilation database. -/
def CommandText.json (text : CommandText) : Json := .object [("directory".toList,.string text.directory),
  ("file".toList,.string text.file),("arguments".toList,.array (text.argv.map .string))]

def CommandText.written (text : CommandText) : Text := "  \x7b\n    \"directory\": ".toList ++ (quoted text.directory ++
  (",\n    \"file\": ".toList ++ (quoted text.file ++ (",\n    \"arguments\": ".toList ++
    (argumentsText text.argv ++ "\n  \x7d".toList)))))

def indent : Text := [' ',' ']

-- a name on a line of its own
def label (name : String) : Text := '\n'::indent ++ indent ++ '"'::name.toList ++ ['"']

theorem indent_spaces : Spaces indent := by simp [Spaces,isSpace,indent]

theorem reads_label (name : String) (printed : ∀ c ∈ name.toList, c ≠ '"' ∧ c ≠ '\\' ∧ 0x20 ≤ c.toNat) :
    ReadsName (label name) name.toList := by
  have line : Spaces ('\n'::indent ++ indent) := by simp [Spaces,isSpace,indent]
  have plain : ∀ c ∈ name.toList, Spells [c] c := fun c member =>
    spells_plain (printed c member).1 (printed c member).2.1 (printed c member).2.2
  have read := readsName_string line plain
  rwa [List.flatMap_singleton'] at read

theorem written_labels (text : CommandText) : text.written = indent ++ ('{'::(label "directory" ++ (':' :: ' ' :: (quoted text.directory ++
    (','::(label "file" ++ (':' :: ' ' :: (quoted text.file ++ (','::(label "arguments" ++ (':' :: ' ' :: (argumentsText text.argv ++
      ('\n'::indent ++ ['}']))))))))))))) := by
  have opens : "  \x7b\n    \"directory\": ".toList = indent ++ ('{'::(label "directory" ++ [':',' '])) := by decide
  have second : ",\n    \"file\": ".toList = ','::(label "file" ++ [':',' ']) := by decide
  have third : ",\n    \"arguments\": ".toList = ','::(label "arguments" ++ [':',' ']) := by decide
  have closes : "\n  \x7d".toList = '\n'::indent ++ ['}'] := by decide
  change "  \x7b\n    \"directory\": ".toList ++ (quoted text.directory ++ (",\n    \"file\": ".toList ++
    (quoted text.file ++ (",\n    \"arguments\": ".toList ++ (argumentsText text.argv ++ "\n  \x7d".toList))))) = _
  rw [opens,second,third,closes]
  simp only [List.append_assoc,List.cons_append,List.nil_append]

theorem reads_command (text : CommandText) : Reads text.written text.json := by
  have none : Spaces [] := by simp [Spaces]
  have one : Spaces [' '] := by simp [Spaces,isSpace]
  have last : Spaces ('\n'::indent) := by simp [Spaces,isSpace,indent]
  have arguments := readsMembers_last (reads_label "arguments" (by simp)) ((reads_arguments text.argv).behind one) last
  have path := readsMembers_cons (reads_label "file" (by simp)) ((reads_quoted text.file).behind one) none arguments
  have directory := readsMembers_cons (reads_label "directory" (by simp))
    ((reads_quoted text.directory).behind one) none path
  rw [written_labels]
  exact (reads_object directory).behind indent_spaces

def Command.bytes (command : Command) : List Byte := writeCommand command.directory command.file
  (fputs "[" ++ (listed (fputs ", ") true (command.argv.map (fun argument => writeJsonString argument.bytes)) ++ fputs "]"))

theorem apart_command (command : Command) : Apart command.bytes (command.text.map CommandText.written) := by
  have arguments := (apart_utf8 "[".toList).append ((apart_listed ", ".toList
    (fun argument (_ : argument ∈ command.argv) => apart_jsonString argument.bytes) true).append (apart_utf8 "]".toList))
  have whole := (apart_utf8 "  \x7b\n    \"directory\": ".toList).append ((apart_jsonString command.directory.bytes).append
    ((apart_utf8 ",\n    \"file\": ".toList).append ((apart_jsonString command.file.bytes).append
      ((apart_utf8 ",\n    \"arguments\": ".toList).append (arguments.append (apart_utf8 "\n  \x7d".toList))))))
  convert whole using 1
  · rfl
  · unfold Command.text
    cases decodeUtf8 command.directory.bytes with
    | none => rfl
    | some directory =>
      cases decodeUtf8 command.file.bytes with
      | none => rfl
      | some file =>
        cases command.argv.mapM (fun argument => decodeUtf8 argument.bytes) with
        | none => rfl
        | some argv => rfl

end Commands

section Rows
variable {commands : Commands} {variant : CString}

def rowOf (variant : CString) (command : Command) : CommandRow :=
  ((variant,command.file),(command.directory,packing command.argv))

theorem writeRows_commands (first : Bool) (entries : List Command) : writeRows first (entries.map (rowOf variant)) =
    some (listed (fputs ",\n") first (entries.map Command.bytes)) := by
  induction entries generalizing first with
  | nil => rfl
  | cons entry entries ih =>
    rw [List.map_cons,writeRows,rowOf,writeArguments_packing,ih]
    rfl

/-- The commands of a variant in the order of their files. -/
structure Lists (commands : Commands) (variant : CString) (entries : List Command) : Prop where
  ordered : entries.Pairwise (fun a b => a.file.bytes.map UInt8.toNat < b.file.bytes.map UInt8.toNat)
  stored : ∀ entry, entry ∈ entries ↔
    commands.lookup (variant,entry.file) = some (entry.directory,packing entry.argv)

theorem mem_rows_iff {row : CommandRow} : row ∈ commands.rows ↔ commands.lookup row.1 = some row.2 := by
  rw [← Option.mem_def,AList.mem_lookup_iff,Table.rows,List.mem_map]
  constructor
  · intro found
    obtain ⟨entry,member,rfl⟩ := found
    exact member
  · intro member
    exact ⟨_,member,rfl⟩

theorem selected_distinct : Distinct fileOrder (commands.rows.filter (fun row => row.1.1 = variant)) := by
  have keys : commands.rows.Pairwise (fun a b => a.1 ≠ b.1) := by
    rw [Table.rows,List.pairwise_map]
    exact List.pairwise_map.mp commands.nodupKeys
  refine List.Pairwise.imp_of_mem ?_ (keys.filter _)
  intro a b left right apart same
  have variants : a.1.1 = b.1.1 := by
    rw [of_decide_eq_true (List.mem_filter.mp left).2,of_decide_eq_true (List.mem_filter.mp right).2]
  have files := CString.ext (List.map_injective_iff.mpr (fun _ _ => UInt8.toNat_inj.mp) same)
  exact apart (Prod.ext variants files)

theorem selected_lists (packed : ∀ row ∈ commands.rows, ∃ argv, row.2.2 = packing argv) :
    ∃ entries, selected commands variant = entries.map (rowOf variant) ∧ Lists commands variant entries := by
  have each : selected commands variant ∈ Set.range (List.map (rowOf variant)) := by
    rw [Set.range_list_map]
    intro row member
    obtain ⟨listed,same⟩ := List.mem_filter.mp (mem_orderBy.mp member)
    obtain ⟨argv,blob⟩ := packed row listed
    refine ⟨⟨row.2.1,row.1.2,argv⟩,?_⟩
    rw [rowOf,← blob,← of_decide_eq_true same]
  obtain ⟨entries,same⟩ := each
  refine ⟨entries,same.symm,?_,?_⟩
  · have sorted := orderBy_pairwise (@selected_distinct commands variant)
    change (selected commands variant).Pairwise _ at sorted
    rw [← same,List.pairwise_map] at sorted
    exact sorted
  · intro entry
    have inside : rowOf variant entry ∈ selected commands variant ↔
        commands.lookup (variant,entry.file) = some (entry.directory,packing entry.argv) := by
      rw [selected,mem_orderBy,List.mem_filter,mem_rows_iff]
      simp [rowOf]
    rw [← inside,← same,List.mem_map]
    constructor
    · intro member
      exact ⟨entry,member,rfl⟩
    · intro found
      obtain ⟨other,member,equal⟩ := found
      have columns := Prod.ext_iff.mp equal
      have files := (Prod.ext_iff.mp columns.1).2
      obtain ⟨directories,blobs⟩ := Prod.ext_iff.mp columns.2
      have alike : other = entry := by
        cases other
        cases entry
        cases files
        cases directories
        cases packing_injective blobs
        rfl
      rwa [← alike]

end Rows

section Export
variable {commands : Commands} {variant : CString}

def entryJson (command : Command) : Option Json := command.text.map CommandText.json

theorem entries_json (entries : List Command) :
    entries.mapM entryJson = (entries.mapM Command.text).map (List.map CommandText.json) := by
  induction entries with
  | nil => rfl
  | cons entry entries ih =>
    rw [List.mapM_cons,List.mapM_cons,ih,entryJson]
    cases entry.text <;> cases entries.mapM Command.text <;> rfl

theorem readText_commands (texts : List CommandText) :
    readText ("[\n".toList ++ (listed ",\n".toList true (texts.map CommandText.written) ++ "\n]\n".toList)) =
      some (.array (texts.map CommandText.json)) := by
  have line : Spaces ['\n'] := by simp [Spaces,isSpace]
  have none : Spaces [] := by simp [Spaces]
  have parts : ∀ part ∈ texts.map (fun text => (text.written,text.json)), Reads part.1 part.2 := by
    intro part member
    obtain ⟨text,_,rfl⟩ := List.mem_map.mp member
    exact reads_command text
  have read := readText_reads (reads_listed none line line line parts) line
  have opens : "[\n".toList = ['[','\n'] := by decide
  have separates : ",\n".toList = [',','\n'] := by decide
  have closes : "\n]\n".toList = ['\n',']','\n'] := by decide
  rw [List.map_map,List.map_map] at read
  rw [opens,separates,closes]
  simpa [Function.comp_def] using read

theorem readBytes_export (entries : List Command) :
    readBytes (fputs "[\n" ++ (listed (fputs ",\n") true (entries.map Command.bytes) ++ fputs "\n]\n")) =
      (entries.mapM entryJson).map .array := by
  have whole := (apart_utf8 "[\n".toList).append ((apart_listed ",\n".toList
    (fun command (_ : command ∈ entries) => apart_command command) true).append (apart_utf8 "\n]\n".toList))
  have decoded := whole.decode
  change decodeUtf8 (fputs "[\n" ++ (listed (fputs ",\n") true (entries.map Command.bytes) ++ fputs "\n]\n")) = _ at decoded
  rw [readBytes,decoded,entries_json]
  cases entries.mapM Command.text with
  | none => rfl
  | some texts => exact readText_commands texts

theorem export_commands {disk : Disk} {calls : List StoreCall} {file : Option CommandFile}
    (written : Written disk calls file commands) (known : rows file = some commands) (variant : CString) :
    ∃ entries, Lists commands variant entries ∧ commandDbExport file variant = if variant = .empty then none else
      some (fputs "[\n" ++ (listed (fputs ",\n") true (entries.map Command.bytes) ++ fputs "\n]\n")) := by
  have packed : ∀ row ∈ commands.rows, ∃ argv, row.2.2 = packing argv := by
    intro row member
    have stored := mem_rows_iff.mp member
    rw [written.last] at stored
    obtain ⟨call,_,same⟩ := Option.map_eq_some_iff.mp stored
    exact ⟨call.argv,by rw [← same]⟩
  obtain ⟨entries,same,lists⟩ := @selected_lists _ variant packed
  refine ⟨entries,lists,?_⟩
  unfold commandDbExport
  split
  · rfl
  · rw [known]
    change (writeRows true (selected commands variant)).bind _ = _
    rw [same,writeRows_commands]
    rfl

theorem entries_undecoded {entries : List Command} {entry : Command} (member : entry ∈ entries)
    (undecoded : entryJson entry = none) : entries.mapM entryJson = none := by
  induction entries with
  | nil => cases member
  | cons first entries ih =>
    rw [List.mapM_cons]
    rcases List.mem_cons.mp member with rfl | later
    · rw [undecoded]
      rfl
    · rw [ih later]
      cases entryJson first <;> rfl

-- an argument that is the byte 0xff
def sampleUndecoded : CString := ⟨[0xff],by decide⟩

theorem export_undecoded : ∃ opened text,
    storeAll sampleDisk none [⟨sampleFile,sampleVariant,sampleDirectory,sampleFile,[sampleUndecoded]⟩] = some (some opened) ∧
      commandDbExport (some opened) sampleVariant = some text ∧ readBytes text = none := by
  have stores : (storeAll sampleDisk none
      [⟨sampleFile,sampleVariant,sampleDirectory,sampleFile,[sampleUndecoded]⟩]).join.isSome := by decide
  obtain ⟨opened,run⟩ := Option.isSome_iff_exists.mp stores
  have run := Option.join_eq_some_iff.mp run
  obtain ⟨commands,written⟩ := written_run (written_start (.inl rfl)) run
  have known : rows (some opened) = some commands := written.opened.resolve_right (fun missing => by cases missing.1)
  obtain ⟨entries,lists,exported⟩ := export_commands written known sampleVariant
  rw [if_neg (by decide)] at exported
  refine ⟨opened,_,run,exported,?_⟩
  have undecoded : decodeUtf8 sampleUndecoded.bytes = none := by
    cases decoded : decodeUtf8 sampleUndecoded.bytes with
    | none => rfl
    | some text =>
      have small := @utf8_small text 0xff (by rw [decodeUtf8_iff.mp decoded]; decide)
      exact absurd small (by decide)
  have stored := (lists.stored ⟨sampleDirectory,sampleFile,[sampleUndecoded]⟩).mpr (by rw [written.last]; decide)
  have nothing : entryJson ⟨sampleDirectory,sampleFile,[sampleUndecoded]⟩ = none := by
    have strings : [sampleUndecoded].mapM (fun argument => decodeUtf8 argument.bytes) = none := by
      rw [List.mapM_cons,undecoded]
      rfl
    unfold entryJson Command.text
    dsimp only
    rw [strings]
    cases decodeUtf8 sampleDirectory.bytes <;> cases decodeUtf8 sampleFile.bytes <;> rfl
  rw [readBytes_export,entries_undecoded stored nothing]
  rfl

/-- What is exported is read back as the commands of the variant in the order of their files, unless one of their
strings is no UTF-8; then it is no JSON text. -/
theorem export_lossless (disk : Disk) (start : Option CommandFile) (fresh : start = none ∨ start = some created)
    (calls : List StoreCall) (opened : CommandFile) (run : storeAll disk start calls = some (some opened))
    (variant : CString) : ∃ commands entries, rows (some opened) = some commands ∧ Lists commands variant entries ∧
      ((commandDbExport (some opened) variant).isSome ↔ variant ≠ .empty) ∧
      ∀ text, commandDbExport (some opened) variant = some text →
        readBytes text = (entries.mapM entryJson).map .array := by
  obtain ⟨commands,written⟩ := written_run (written_start fresh) run
  have known : rows (some opened) = some commands := written.opened.resolve_right (fun missing => by cases missing.1)
  obtain ⟨entries,lists,exported⟩ := export_commands written known variant
  refine ⟨commands,entries,known,lists,?_,?_⟩
  · rw [exported]
    by_cases empty : variant = .empty <;> simp [empty]
  · intro text done
    rw [exported] at done
    split at done
    · cases done
    · cases done
      exact readBytes_export entries

theorem export_lossless_sample : ∃ opened commands entries text,
    storeAll sampleDisk none sampleCalls = some (some opened) ∧ rows (some opened) = some commands ∧
      Lists commands sampleVariant entries ∧ commandDbExport (some opened) sampleVariant = some text ∧
      readBytes text = (entries.mapM entryJson).map .array := by
  have stores : (storeAll sampleDisk none sampleCalls).join.isSome := by decide
  obtain ⟨opened,run⟩ := Option.isSome_iff_exists.mp stores
  have run := Option.join_eq_some_iff.mp run
  obtain ⟨commands,entries,known,lists,writes,reads⟩ :=
    export_lossless sampleDisk none (.inl rfl) sampleCalls opened run sampleVariant
  obtain ⟨text,exported⟩ := Option.isSome_iff_exists.mp (writes.mpr (by decide))
  exact ⟨opened,commands,entries,text,run,known,lists,exported,reads text exported⟩

end Export
end Semindex.CommandDb
