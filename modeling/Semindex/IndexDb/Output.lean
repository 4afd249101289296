import Semindex.IndexDb.OutputFormat
import Semindex.Parser.Index
import Semindex.Source.Resolver
import Semindex.Support.Decimal
import Semindex.Support.Delimited

/-! `index_db_output`, which writes one line for each record. The source file of
the last record stays open, with the line that was read last. -/
namespace Semindex.IndexDb.Output
open Semindex.Delimited

/-- A record to be written; the kind and the mode are what the database has. -/
structure OutputRecord where
  file : Text
  variant : Text
  root : Option Text
  line : Int
  column : Int
  symbolRecord : Bool
  definition : Bool
  kind : Nat
  mode : Nat
  symbol : Text
  context : Option Text

section Names

def symbolKindNames : List (SymbolKind × Text) := [
  (.var,"variable".toList),
  (.field,"field".toList),
  (.struct,"struct".toList),
  (.union,"union".toList),
  (.enum,"enum".toList),
  (.enumConstant,"enumerator".toList),
  ( .typedef, "typedef".toList),
  (.function,"function".toList),
  (.macroName,"macro".toList),
  (.file,"file".toList),
  (.classType,"class".toList),
  (.lambda,"lambda".toList),
  (.template,"template".toList)]

def semindexSymbolKindName (kind : Nat) : Text :=
  ((symbolKindNames.find? (fun entry => entry.1.code = kind)).map Prod.snd).getD "unknown".toList

def kindChar : SymbolKind → Char
  | .field => 'm'
  | .struct => 's'
  | .union => 's'
  | .enum => 'E'
  | .enumConstant => 'e'
  | .typedef => 't'
  | .function => 'f'
  | .macroName => 'd'
  | .file => 'i'
  | .classType => 'c'
  | .lambda => 'L'
  | .template => 'T'
  | .var => 'v'

def outputSymbolKindChar (kind : Nat) : Char :=
  ((symbolKindNames.find? (fun entry => entry.1.code = kind)).map (fun entry => kindChar entry.1)).getD 'v'

-- a pair of bits of the mode, reading first
def access (mode bit : Nat) : Char :=
  if mode.testBit (bit+1) then if mode.testBit bit then 'm' else 'w' else if mode.testBit bit then 'r' else '-'

def outputModeString (mode : Nat) : Text := [access mode 0,access mode 2,access mode 4]

def printMode (record : OutputRecord) : Text :=
  if record.symbolRecord then if record.definition then "def".toList else "decl".toList else outputModeString record.mode

def recordName (record : OutputRecord) : Text :=
  if !record.symbolRecord then "reference".toList
  else if record.definition then "definition".toList else "declaration".toList

/-- The text of a field, where the source line is this. -/
def fieldValue (record : OutputRecord) (source : Text) : SearchField → Text
  | .file => record.file
  | .variantFile => record.variant ++ ':'::record.file
  | .variant => record.variant
  | .line => signedDecimal record.line
  | .column => signedDecimal record.column
  | .context => record.context.getD []
  | .symbol => record.symbol
  | .record => recordName record
  | .mode => printMode record
  | .kind => semindexSymbolKindName record.kind
  | .kindChar => [outputSymbolKindChar record.kind]
  | .source => source

end Names

section Meaning

/-- The character of an access, by whether it reads and whether it writes. -/
inductive AccessChar : Bool → Bool → Char → Prop
  | none : AccessChar false false '-'
  | read : AccessChar true false 'r'
  | written : AccessChar false true 'w'
  | both : AccessChar true true 'm'

/-- The name of a kind and the tag that `dissect` has for it. -/
inductive KindText : Nat → Text → Char → Prop
  | var : KindText SymbolKind.var.code "variable".toList 'v'
  | field : KindText SymbolKind.field.code "field".toList 'm'
  | struct : KindText SymbolKind.struct.code "struct".toList 's'
  | union : KindText SymbolKind.union.code "union".toList 's'
  | enum : KindText SymbolKind.enum.code "enum".toList 'E'
  | enumConstant : KindText SymbolKind.enumConstant.code "enumerator".toList 'e'
  | alias : KindText SymbolKind.typedef.code "typedef".toList 't'
  | function : KindText SymbolKind.function.code "function".toList 'f'
  | macroName : KindText SymbolKind.macroName.code "macro".toList 'd'
  | file : KindText SymbolKind.file.code "file".toList 'i'
  | classType : KindText SymbolKind.classType.code "class".toList 'c'
  | lambda : KindText SymbolKind.lambda.code "lambda".toList 'L'
  | template : KindText SymbolKind.template.code "template".toList 'T'
  | other {kind : Nat} (beyond : SymbolKind.template.code < kind) : KindText kind "unknown".toList 'v'

/-- What the documentation says of each field; a record is a definition, a declaration or a reference, and only a
reference has an access mode, of the address, the value and what is pointed to. -/
inductive FieldText (record : OutputRecord) (source : Text) : SearchField → Text → Prop
  | file : FieldText record source .file record.file
  | variant : FieldText record source .variant record.variant
  | variantFile : FieldText record source .variantFile (record.variant ++ ":".toList ++ record.file)
  | line {text : Text} (numeral : SignedNumeral record.line text) : FieldText record source .line text
  | column {text : Text} (numeral : SignedNumeral record.column text) : FieldText record source .column text
  | inside {text : Text} (within : record.context = some text) : FieldText record source .context text
  | outside (without : record.context = none) : FieldText record source .context []
  | symbol : FieldText record source .symbol record.symbol
  | definition (symbol : record.symbolRecord = true) (defined : record.definition = true) :
    FieldText record source .record "definition".toList
  | declaration (symbol : record.symbolRecord = true) (declared : record.definition = false) :
    FieldText record source .record "declaration".toList
  | reference (used : record.symbolRecord = false) : FieldText record source .record "reference".toList
  | definitionMode (symbol : record.symbolRecord = true) (defined : record.definition = true) :
    FieldText record source .mode "def".toList
  | declarationMode (symbol : record.symbolRecord = true) (declared : record.definition = false) :
    FieldText record source .mode "decl".toList
  | accessMode {address value pointer : Char} (used : record.symbolRecord = false)
    (first : AccessChar (record.mode.testBit 0) (record.mode.testBit 1) address)
    (second : AccessChar (record.mode.testBit 2) (record.mode.testBit 3) value)
    (third : AccessChar (record.mode.testBit 4) (record.mode.testBit 5) pointer) :
    FieldText record source .mode [address,value,pointer]
  | kind {name : Text} {tag : Char} (known : KindText record.kind name tag) : FieldText record source .kind name
  | kindChar {name : Text} {tag : Char} (known : KindText record.kind name tag) : FieldText record source .kindChar [tag]
  | source : FieldText record source .source source

variable {record : OutputRecord} {source text : Text} {field : SearchField} {kind : Nat} {name : Text} {tag : Char}

theorem accessChar_iff {mode bit : Nat} {c : Char} :
    AccessChar (mode.testBit bit) (mode.testBit (bit+1)) c ↔ c = access mode bit := by
  unfold access
  cases mode.testBit bit <;> cases mode.testBit (bit+1) <;>
    exact ⟨fun letter => by cases letter; rfl,fun same => by cases same; constructor⟩

theorem kindText_known (known : KindText kind name tag) :
    name = semindexSymbolKindName kind ∧ tag = outputSymbolKindChar kind := by
  cases known with
  | other beyond =>
    have unknown : symbolKindNames.find? (fun entry => entry.1.code = kind) = none := by
      rw [List.find?_eq_none]
      intro entry member same
      have small : ∀ entry ∈ symbolKindNames, entry.1.code ≤ SymbolKind.template.code := by decide
      have known := small entry member
      rw [of_decide_eq_true same] at known
      omega
    unfold semindexSymbolKindName outputSymbolKindChar
    rw [unknown]
    exact ⟨rfl,rfl⟩
  | _ => exact ⟨rfl,rfl⟩

theorem kindText_exists (kind : Nat) : ∃ name tag, KindText kind name tag := by
  by_cases known : kind ≤ SymbolKind.template.code
  · have listed : ∀ kind ≤ SymbolKind.template.code, ∃ entry ∈ symbolKindNames, entry.1.code = kind := by decide
    obtain ⟨entry,_,rfl⟩ := listed kind known
    cases entry.1 with
    | var => exact ⟨_,_,.var⟩
    | field => exact ⟨_,_,.field⟩
    | struct => exact ⟨_,_,.struct⟩
    | union => exact ⟨_,_,.union⟩
    | enum => exact ⟨_,_,.enum⟩
    | enumConstant => exact ⟨_,_,.enumConstant⟩
    | typedef => exact ⟨_,_,.alias⟩
    | function => exact ⟨_,_,.function⟩
    | macroName => exact ⟨_,_,.macroName⟩
    | file => exact ⟨_,_,.file⟩
    | classType => exact ⟨_,_,.classType⟩
    | lambda => exact ⟨_,_,.lambda⟩
    | template => exact ⟨_,_,.template⟩
  · exact ⟨_,_,.other (not_le.mp known)⟩

theorem fieldText_value (shown : FieldText record source field text) : text = fieldValue record source field := by
  cases shown with
  | file => rfl
  | variant => rfl
  | variantFile => exact List.append_assoc _ _ _
  | line numeral => exact signedNumeral_iff.mp numeral
  | column numeral => exact signedNumeral_iff.mp numeral
  | inside within => simp [fieldValue,within]
  | outside without => simp [fieldValue,without]
  | symbol => rfl
  | definition symbol defined => simp [fieldValue,recordName,symbol,defined]
  | declaration symbol declared => simp [fieldValue,recordName,symbol,declared]
  | reference used => simp [fieldValue,recordName,used]
  | definitionMode symbol defined => simp [fieldValue,printMode,symbol,defined]
  | declarationMode symbol declared => simp [fieldValue,printMode,symbol,declared]
  | accessMode used first second third =>
    simp [fieldValue,printMode,used,outputModeString,accessChar_iff.mp first,accessChar_iff.mp second,accessChar_iff.mp third]
  | kind known => exact (kindText_known known).1
  | kindChar known => exact congrArg (fun tag => [tag]) (kindText_known known).2
  | source => rfl

theorem fieldText_exists (record : OutputRecord) (source : Text) (field : SearchField) : ∃ text, FieldText record source field text := by
  cases field with
  | file => exact ⟨_,.file⟩
  | variant => exact ⟨_,.variant⟩
  | variantFile => exact ⟨_,.variantFile⟩
  | line => exact ⟨_,.line (signedNumeral_iff.mpr rfl)⟩
  | column => exact ⟨_,.column (signedNumeral_iff.mpr rfl)⟩
  | context =>
    cases context : record.context with
    | none => exact ⟨_,.outside context⟩
    | some text => exact ⟨_,.inside context⟩
  | symbol => exact ⟨_,.symbol⟩
  | record =>
    cases symbol : record.symbolRecord with
    | false => exact ⟨_,.reference symbol⟩
    | true =>
      cases defined : record.definition with
      | false => exact ⟨_,.declaration symbol defined⟩
      | true => exact ⟨_,.definition symbol defined⟩
  | mode =>
    cases symbol : record.symbolRecord with
    | false => exact ⟨_,.accessMode symbol (accessChar_iff.mpr rfl) (accessChar_iff.mpr rfl) (accessChar_iff.mpr rfl)⟩
    | true =>
      cases defined : record.definition with
      | false => exact ⟨_,.declarationMode symbol defined⟩
      | true => exact ⟨_,.definitionMode symbol defined⟩
  | kind =>
    obtain ⟨name,tag,known⟩ := kindText_exists record.kind
    exact ⟨_,.kind known⟩
  | kindChar =>
    obtain ⟨name,tag,known⟩ := kindText_exists record.kind
    exact ⟨_,.kindChar known⟩
  | source => exact ⟨_,.source⟩

/-- The code prints what the documentation says. -/
theorem fieldText_iff : FieldText record source field text ↔ text = fieldValue record source field := by
  constructor
  · exact fieldText_value
  · intro same
    obtain ⟨shown,said⟩ := fieldText_exists record source field
    rw [same,← fieldText_value said]
    exact said

end Meaning

structure SourceFile where
  content : Text
  rest : Text

/-- The state of the output; the text is that of the last line, as long as `length` has it. -/
structure Search where
  format : CString
  tokens : List SearchToken
  root : Option Text
  path : Option Text := none
  source : Option SourceFile := none
  text : Text := []
  line : Int := 0

section Write
variable (files : Text → Option Text) (search : Search)

-- `getline`, which keeps the newline; `none` at the end of the file
def getline (file : SourceFile) : Option (SourceFile × Text) :=
  if file.rest = [] then none
  else
    let text := file.rest.takeWhile (· ≠ '\n')
    match file.rest.dropWhile (· ≠ '\n') with
    | [] => some ({file with rest := []},text)
    | _::after => some ({file with rest := after},text ++ [ '\n'])

def getlines : Nat → SourceFile → Text → Option (SourceFile × Text)
  | 0,file,text => some (file,text)
  | n+1,file,_ => (getline file).bind (fun read => getlines n read.1 read.2)

def openSource (root : Option Text) (path : Text) : Option (Search × SourceFile) :=
  let sourcePath := Source.openSource root search.root path
  match search.source.filter (fun _ => search.path = some sourcePath) with
  | some file => some (search,file)
  | none => (files sourcePath).map (fun content => ({search with path := some sourcePath, text := [], line := 0},⟨content,content⟩))

def withoutNewline (text : Text) : Text := if text.getLast? = some '\n' then text.dropLast else text

/-- The line is printed, or there is none; after that no record is written any more. -/
def printSourceLine (root : Option Text) (path : Text) (line : Int) : Option (Search × Text) :=
  (openSource files search root path).bind (fun (search,file) =>
    let (line',file) := if line < search.line then (0,⟨file.content,file.content⟩) else (search.line,file)
    (getlines (line - line').toNat file search.text).map (fun (file,text) =>
      let text := withoutNewline text
      ({search with source := some file, text, line := max line line'},text)))

def writeToken (record : OutputRecord) (token : SearchToken) : Option (Search × Text) :=
  match token with
  | .field .source => printSourceLine files search record.root record.file record.line
  | token => some (search,token.output search.format (fieldValue record []))

def writeTokens (record : OutputRecord) : Search → List SearchToken → Option (Search × Text)
  | search,[] => some (search,[])
  | search,token::tokens => (writeToken files search record token).bind (fun (search,output) =>
    (writeTokens record search tokens).map (fun (search,more) => (search,output ++ more)))

def indexDbOutputWrite (record : OutputRecord) : Option (Search × Text) :=
  (writeTokens files record search search.tokens).map (fun (search,output) => (search,output ++ [ '\n']))

end Write

section Lines
variable {file next : SourceFile} {n k : Nat} {text output : Text}

def linesOf (content : Text) : List Text := pieces '\n' content

/-- So many lines of the file have been read, and this one last. -/
structure Reads (file : SourceFile) (n : Nat) (text : Text) : Prop where
  rest : linesOf file.rest = (linesOf file.content).drop n
  last : ∀ m, n = m + 1 → (linesOf file.content)[m]? = some (withoutNewline text)

theorem withoutNewline_fresh (fresh : '\n' ∉ text) : withoutNewline text = text ∧ withoutNewline (text ++ [ '\n']) = text := by
  constructor
  · exact if_neg (fun last => fresh (List.mem_of_getLast? last))
  · simp [withoutNewline]

theorem getline_lines (file : SourceFile) : (linesOf file.rest = [] ∧ getline file = none) ∨
    ∃ first others next text, linesOf file.rest = first::others ∧ getline file = some (next,text) ∧
      withoutNewline text = first ∧ next.content = file.content ∧ linesOf next.rest = others := by
  unfold getline linesOf
  rcases @first_cut _ _ '\n' file.rest with whole | ⟨front,after,split,fresh⟩
  · by_cases empty : file.rest = []
    · exact .inl ⟨(by rw [empty]; rfl),if_pos empty⟩
    · obtain ⟨front,back⟩ := takeWhile_whole whole
      refine .inr ⟨file.rest,[],{file with rest := []},file.rest,pieces_last whole empty,?_,(withoutNewline_fresh whole).1,rfl,rfl⟩
      rw [if_neg empty]
      dsimp only
      rw [front,back]
  · obtain ⟨taken,dropped⟩ := takeWhile_cut fresh after
    refine .inr ⟨front,_,{file with rest := after},front ++ [ '\n'],by rw [split,pieces_cut fresh],?_,(withoutNewline_fresh fresh).2,
      rfl,rfl⟩
    rw [if_neg (by simp [split])]
    dsimp only
    rw [split,taken,dropped]

theorem Reads.getline (reads : Reads file n text) (done : getline file = some (next,output)) :
    Reads next (n+1) output ∧ next.content = file.content := by
  rcases getline_lines file with ⟨_,none⟩ | ⟨first,others,next',text',split,some,line,same,behind⟩
  · rw [none] at done
    cases done
  · rw [some] at done
    cases done
    have cut : (linesOf file.content).drop n = first::others := reads.rest.symm.trans split
    refine ⟨⟨?_,fun m place => ?_⟩,same⟩
    · rw [behind,same,← List.tail_drop,cut]
      rfl
    · cases place
      rw [same,line,← List.head?_drop,cut]
      rfl

theorem Reads.getlines (reads : Reads file n text) (done : getlines k file text = some (next,output)) :
    Reads next (n+k) output ∧ next.content = file.content := by
  induction k generalizing file n text with
  | zero =>
    cases done
    exact ⟨reads,rfl⟩
  | succ k ih =>
    obtain ⟨⟨middle,line⟩,first,more⟩ := Option.bind_eq_some_iff.mp done
    obtain ⟨onward,same⟩ := reads.getline first
    obtain ⟨final,content⟩ := ih onward more
    rw [Nat.add_right_comm] at final
    exact ⟨final,content.trans same⟩

theorem Reads.getlines_some (reads : Reads file n text) (enough : n + k ≤ (linesOf file.content).length) :
    ∃ read, Output.getlines k file text = some read := by
  induction k generalizing file n text with
  | zero => exact ⟨_,rfl⟩
  | succ k ih =>
    rcases getline_lines file with ⟨empty,_⟩ | ⟨first,others,next,line,_,some,_,same,_⟩
    · rw [reads.rest] at empty
      have short := List.drop_eq_nil_iff.mp empty
      omega
    · obtain ⟨read,more⟩ := ih (reads.getline some).1 (by rw [same]; omega)
      refine ⟨read,?_⟩
      rw [Output.getlines,some]
      exact more

end Lines

section Sound
variable {files : Text → Option Text} {search next : Search} {record : OutputRecord} {text output : Text}

/-- The open file is the one at the path, read up to the line. -/
def Search.Sound (files : Text → Option Text) (search : Search) : Prop :=
  ∀ file, search.source = some file → ∃ path, ∃ n : Nat, search.path = some path ∧ files path = some file.content ∧
    search.line = n ∧ Reads file n search.text

theorem reads_start (content text : Text) : Reads ⟨content,content⟩ 0 text :=
  ⟨rfl,fun m place => by cases place⟩

theorem openSource_sound {root : Option Text} {path : Text} {file : SourceFile} (sound : search.Sound files)
    (opened : openSource files search root path = some (next,file)) : ∃ n : Nat, next.line = n ∧ Reads file n next.text ∧
      next.path = some (Source.openSource root search.root path) ∧
      files (Source.openSource root search.root path) = some file.content ∧
      (next.format,next.tokens,next.root) = (search.format,search.tokens,search.root) := by
  unfold openSource at opened
  dsimp only at opened
  split at opened
  · rename_i same
    cases opened
    obtain ⟨held,here⟩ := Option.filter_eq_some_iff.mp same
    have here := of_decide_eq_true here
    obtain ⟨path',n,place,found,line,reads⟩ := sound file held
    rw [here] at place
    cases place
    exact ⟨n,line,reads,here,found,rfl⟩
  · obtain ⟨content,found,same⟩ := Option.map_eq_some_iff.mp opened
    cases same
    exact ⟨0,rfl,reads_start content _,rfl,found,rfl⟩

theorem Reads.trim {file : SourceFile} {n : Nat} (reads : Reads file n text) : Reads file n (withoutNewline text) := by
  refine ⟨reads.rest,fun m place => ?_⟩
  have last := reads.last m place
  rw [(withoutNewline_fresh (pieces_fresh _ _ (List.mem_of_getElem? last))).1]
  exact last

/-- Where the line is looked for: further on, or from the start of the file. -/
theorem printSourceLine_cases {root : Option Text} {path : Text} {line : Int} (sound : search.Sound files) {middle : Search}
    {file : SourceFile} (opened : openSource files search root path = some (middle,file)) : ∃ start : SourceFile, ∃ n k : Nat,
      start.content = file.content ∧ Reads start n middle.text ∧ (∀ m : Nat, line = m + 1 → n + k = m + 1) ∧
      printSourceLine files search root path line = (getlines k start middle.text).map (fun read =>
        ({middle with source := some read.1, text := withoutNewline read.2, line := (n + k : Nat)},withoutNewline read.2)) := by
  obtain ⟨n,place,reads,_⟩ := openSource_sound sound opened
  unfold printSourceLine
  rw [opened,Option.bind_some]
  dsimp only
  by_cases back : line < middle.line
  · refine ⟨⟨file.content,file.content⟩,0,line.toNat,rfl,reads_start _ _,fun m same => by omega,?_⟩
    rw [if_pos back]
    dsimp only
    have same : max line 0 = (0 + line.toNat : Nat) := by omega
    rw [same,Int.sub_zero]
  · refine ⟨file,n,(line - n).toNat,rfl,reads,fun m same => by omega,?_⟩
    rw [if_neg back,place]
    dsimp only
    have same : max line (n : Int) = (n + (line - n).toNat : Nat) := by omega
    rw [same]

theorem printSourceLine_sound {root : Option Text} {path : Text} {line : Int} (sound : search.Sound files)
    (printed : printSourceLine files search root path line = some (next,output)) : next.Sound files ∧
      (next.format,next.tokens,next.root) = (search.format,search.tokens,search.root) ∧ ∀ m : Nat, line = m + 1 →
        ∀ content, files (Source.openSource root search.root path) = some content → (linesOf content)[m]? = some output := by
  have opened : ∃ middle file, openSource files search root path = some (middle,file) := by
    unfold printSourceLine at printed
    obtain ⟨⟨middle,file⟩,opened,_⟩ := Option.bind_eq_some_iff.mp printed
    exact ⟨middle,file,opened⟩
  obtain ⟨middle,file,opened⟩ := opened
  obtain ⟨_,_,_,path',found,kept⟩ := openSource_sound sound opened
  obtain ⟨start,n,k,content,reads,place,shape⟩ := @printSourceLine_cases files search root path line sound middle file opened
  rw [shape] at printed
  obtain ⟨⟨last,line'⟩,done,same⟩ := Option.map_eq_some_iff.mp printed
  cases same
  obtain ⟨onward,whole⟩ := reads.getlines done
  refine ⟨fun held same => ?_,kept,fun m exactly other there => ?_⟩
  · cases same
    exact ⟨_,n+k,path',by rw [whole,content]; exact found,rfl,onward.trim⟩
  · have lines := onward.last m (place m exactly)
    rw [whole,content] at lines
    rw [found] at there
    cases there
    exact lines

/-- The line of the record can be read from its source. -/
def Readable (files : Text → Option Text) (root : Option Text) (record : OutputRecord) (text : Text) : Prop :=
  ∃ content, ∃ m : Nat, files (Source.openSource record.root root record.file) = some content ∧ record.line = m + 1 ∧
    (linesOf content)[m]? = some text

theorem printSourceLine_readable (sound : search.Sound files) (readable : Readable files search.root record text) :
    ∃ next, printSourceLine files search record.root record.file record.line = some (next,text) := by
  obtain ⟨content,m,found,place,line⟩ := readable
  have opened : ∃ middle file, openSource files search record.root record.file = some (middle,file) := by
    unfold openSource
    dsimp only
    split
    · exact ⟨_,_,rfl⟩
    · rw [found]
      exact ⟨_,_,rfl⟩
  obtain ⟨middle,file,opened⟩ := opened
  obtain ⟨_,_,_,_,there,_⟩ := openSource_sound sound opened
  rw [found] at there
  cases there
  obtain ⟨start,n,k,content,reads,reach,shape⟩ := @printSourceLine_cases files search record.root record.file record.line sound
    middle file opened
  have enough : n + k ≤ (linesOf start.content).length := by
    have inside := (List.getElem?_eq_some_iff.mp line).1
    rw [reach m place,content]
    exact inside
  obtain ⟨read,some⟩ := reads.getlines_some enough
  have printed := shape
  rw [some] at printed
  have same := (printSourceLine_sound sound printed).2.2 m place _ found
  rw [line] at same
  rw [Option.some.inj same]
  exact ⟨_,printed⟩

theorem writeToken_sound {token : SearchToken} (sound : search.Sound files)
    (written : writeToken files search record token = some (next,output)) :
    next.Sound files ∧ (next.format,next.tokens,next.root) = (search.format,search.tokens,search.root) := by
  unfold writeToken at written
  split at written
  · obtain ⟨kept,same,_⟩ := printSourceLine_sound sound written
    exact ⟨kept,same⟩
  · cases written
    exact ⟨sound,rfl⟩

theorem writeTokens_sound {tokens : List SearchToken} (sound : search.Sound files)
    (written : writeTokens files record search tokens = some (next,output)) :
    next.Sound files ∧ (next.format,next.tokens,next.root) = (search.format,search.tokens,search.root) := by
  induction tokens generalizing search output with
  | nil =>
    cases written
    exact ⟨sound,rfl⟩
  | cons token tokens ih =>
    obtain ⟨⟨middle,first⟩,one,more⟩ := Option.bind_eq_some_iff.mp written
    obtain ⟨⟨last,others⟩,rest,same⟩ := Option.map_eq_some_iff.mp more
    cases same
    obtain ⟨kept,state⟩ := writeToken_sound sound one
    obtain ⟨final,whole⟩ := ih kept rest
    exact ⟨final,whole.trans state⟩

theorem writeToken_readable (sound : search.Sound files) (readable : Readable files search.root record text) (token : SearchToken) :
    ∃ next, writeToken files search record token = some (next,token.output search.format (fieldValue record text)) := by
  cases token with
  | text part => exact ⟨search,rfl⟩
  | character c => exact ⟨search,rfl⟩
  | field which =>
    cases which
    case source => exact printSourceLine_readable sound readable
    all_goals exact ⟨search,rfl⟩

theorem writeTokens_readable {tokens : List SearchToken} (sound : search.Sound files)
    (readable : Readable files search.root record text) : ∃ next, writeTokens files record search tokens =
      some (next,tokens.flatMap (SearchToken.output search.format (fieldValue record text))) := by
  induction tokens generalizing search with
  | nil => exact ⟨search,rfl⟩
  | cons token tokens ih =>
    obtain ⟨middle,one⟩ := writeToken_readable sound readable token
    obtain ⟨kept,state⟩ := writeToken_sound sound one
    obtain ⟨format,rest⟩ := Prod.mk.inj state
    have root := (Prod.mk.inj rest).2
    obtain ⟨next,more⟩ := ih kept (root ▸ readable)
    refine ⟨next,?_⟩
    rw [writeTokens,one,Option.bind_some]
    dsimp only
    rw [more,format]
    rfl

end Sound

section Runs
variable (files : Text → Option Text) (format : CString) (root : Option Text)

/-- The output behind any records that have been written. -/
inductive Written : Search → Prop
  | create {tokens : List SearchToken} (compiled : compileFormat format = .compiled tokens) : Written ⟨format,tokens,root,none,none,[],0⟩
  | write {search next : Search} {record : OutputRecord} {output : Text} (written : Written search)
    (done : indexDbOutputWrite files search record = some (next,output)) : Written next

variable {files format root} {search : Search}

theorem Written.sound (written : Written files format root search) : search.Sound files ∧ search.format = format ∧
    search.root = root ∧ compileFormat format = .compiled search.tokens := by
  induction written with
  | create compiled => exact ⟨fun file held => (by cases held),rfl,rfl,compiled⟩
  | write written done ih =>
    obtain ⟨sound,format,root,compiled⟩ := ih
    obtain ⟨⟨last,output⟩,wrote,same⟩ := Option.map_eq_some_iff.mp done
    cases same
    obtain ⟨kept,state⟩ := writeTokens_sound sound wrote
    obtain ⟨same,rest⟩ := Prod.mk.inj state
    obtain ⟨tokens,place⟩ := Prod.mk.inj rest
    exact ⟨kept,same.trans format,place.trans root,tokens.symm ▸ compiled⟩

/-- The format is accepted by its grammar, within the string and with no more tokens than it has characters, and each
record with a readable line is written as its parts say, where a field has the one text that is documented for it. -/
theorem search_format_grammar (files : Text → Option Text) (format : CString) (root : Option Text) :
    (∀ stored, compileFormat format ≠ .overrun stored) ∧ (compileFormat format).tokens.length ≤ format.text.length ∧
      ((∃ stored, compileFormat format = .compiled stored) ↔ ∃ parts lone, format.text = spelled parts lone) ∧
      ∀ search, Written files format root search → ∀ parts lone, format.text = spelled parts lone →
        ∀ record source, Readable files root record source → ∃ value next,
          (∀ field text, FieldText record source field text ↔ text = value field) ∧
            indexDbOutputWrite files search record = some (next,parts.flatMap (Part.meaning value) ++ [ '\n']) := by
  obtain ⟨within,bounded,accepted,meaning⟩ := compileFormat_grammar format
  refine ⟨within,bounded,accepted,fun search written parts lone spells record text readable => ?_⟩
  obtain ⟨sound,same,place,compiled⟩ := written.sound
  obtain ⟨next,wrote⟩ := @writeTokens_readable files search record text search.tokens sound (place.symm ▸ readable)
  refine ⟨fieldValue record text,next,fun _ _ => fieldText_iff,?_⟩
  rw [indexDbOutputWrite,wrote,same,meaning search.tokens compiled parts lone spells]
  rfl

end Runs
end Semindex.IndexDb.Output
