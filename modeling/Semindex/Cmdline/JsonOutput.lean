import Semindex.Cmdline.DissectOutput
import Semindex.Support.Hex
import Semindex.Support.JsonObject

/-! `output_json`: the symbols and the uses of an index as one JSON document, and a
consumer of it. -/
namespace Semindex.Cmdline
open Semindex.Json Semindex.Hex Semindex.Delimited
open Semindex.CommandDb (fputs writeJsonString quoted reads_quoted writeByte_utf8)
open Semindex.IndexDb.Output (semindexSymbolKindName outputModeString symbolKindNames)

section Print

def useKindString : UseKind → Text
  | .read => "read".toList
  | .write => "write".toList
  | .addr => "address".toList
  | .call => "call".toList

def printJsonString : Option Text → List UInt8
  | none => fputs "null"
  | some value => writeJsonString (utf8 value)

def printOptionalJsonString (value : Option Text) : List UInt8 :=
  if value.getD [] = [] then fputs "null" else printJsonString value

def printJsonId (id : Id) : List UInt8 :=
  if id ≠ 0 then fputs "\"" ++ (utf8 (fixedHex 16 id.toNat) ++ fputs "\"") else fputs "null"

def booleanWord (value : Bool) : List UInt8 := if value then fputs "true" else fputs "false"

def propertyConstructor (properties : BitVec 64) : Bool := properties.getLsbD 0

def propertyDestructor (properties : BitVec 64) : Bool := properties.getLsbD 1

def printProperties (properties : BitVec 64) : List UInt8 :=
  if properties ≠ 0 then
    fputs ",\"properties\":[" ++ ((if propertyConstructor properties then fputs "\"constructor\"" else []) ++
      ((if propertyDestructor properties then
        (if propertyConstructor properties then fputs "," else []) ++ fputs "\"destructor\"" else []) ++ fputs "]"))
  else []

def printJsonSymbol (symbol : Symbol) : List UInt8 :=
  fputs "    \x7b\"kind\":" ++ printJsonString (some (semindexSymbolKindName symbol.kind.code)) ++
  fputs ",\"name\":" ++ printJsonString (some symbol.name) ++
  fputs ",\"owner\":" ++ printOptionalJsonString (some symbol.owner) ++
  fputs ",\"type\":" ++ printOptionalJsonString (some symbol.type) ++
  fputs ",\"usr\":" ++ printOptionalJsonString (some symbol.usr) ++
  fputs ",\"usr_id\":" ++ printJsonId symbol.usrId ++
  fputs ",\"context\":" ++ printOptionalJsonString (some symbol.context) ++
  fputs ",\"file\":" ++ printJsonString (some symbol.file) ++
  fputs ",\"line\":" ++ decimalBytes symbol.line ++ fputs ",\"column\":" ++ decimalBytes symbol.column ++
  fputs ",\"local\":" ++ booleanWord symbol.isLocal ++ fputs ",\"definition\":" ++ booleanWord symbol.definition ++
  printProperties symbol.properties ++ fputs "\x7d"

def printJsonUse (use : OrderedUse) : List UInt8 :=
  fputs "    \x7b\"kind\":" ++ printJsonString (some (useKindString use.kind)) ++
  fputs ",\"symbol_kind\":" ++ printJsonString (some (semindexSymbolKindName use.symbolKind.code)) ++
  fputs ",\"mode\":" ++ printJsonString (some (outputModeString use.mode)) ++
  fputs ",\"mode_bits\":" ++ decimalBytes use.mode ++ fputs ",\"name\":" ++ printJsonString (some use.name) ++
  fputs ",\"owner\":" ++ printOptionalJsonString (some use.owner) ++
  fputs ",\"type\":" ++ printOptionalJsonString (some use.type) ++
  fputs ",\"usr\":" ++ printOptionalJsonString (some use.usr) ++
  fputs ",\"usr_id\":" ++ printJsonId use.usrId ++
  fputs ",\"context\":" ++ printOptionalJsonString (some use.context) ++
  fputs ",\"context_usr\":" ++ printOptionalJsonString (some use.contextUsr) ++
  fputs ",\"context_usr_id\":" ++ printJsonId use.contextUsrId ++
  fputs ",\"file\":" ++ printJsonString (some use.file) ++
  fputs ",\"line\":" ++ decimalBytes use.line ++ fputs ",\"column\":" ++ decimalBytes use.column ++
  fputs ",\"local\":" ++ booleanWord use.isLocal ++ fputs "\x7d"

-- `i + 1 < count ? ",\n" : "\n"` behind each
def printItems : List (List UInt8) → List UInt8
  | [] => []
  | [item] => item ++ fputs "\n"
  | item::other::items => item ++ fputs ",\n" ++ printItems (other::items)

def outputJson (symbols : List OrderedSymbol) (uses : List OrderedUse) : List UInt8 :=
  fputs "\x7b\n  \"version\": 1,\n  \"symbols\": [\n" ++ printItems (symbols.map (fun sym => printJsonSymbol sym.toSymbol)) ++
  fputs "  ],\n  \"uses\": [\n" ++ printItems (uses.map printJsonUse) ++ fputs "  ]\n\x7d\n"

end Print

section Values

def optionalText (value : Text) : Json := if value = [] then .null else .string value

def idValue (id : Id) : Json := if id = 0 then .null else .string (fixedHex 16 id.toNat)

def numberValue (n : Nat) : Json := .number (Nat.toDigits 10 n)

-- the first bit is a constructor's, the second a destructor's
def propertyNames (properties : BitVec 64) : List Text :=
  (if properties.toNat % 2 = 1 then ["constructor".toList] else []) ++
    (if properties.toNat / 2 % 2 = 1 then ["destructor".toList] else [])

def symbolMembers (symbol : Symbol) : List (Text × Json) := [
  ("kind".toList,.string (semindexSymbolKindName symbol.kind.code)),
  ("name".toList,.string symbol.name),
  ("owner".toList,optionalText symbol.owner),
  ("type".toList,optionalText symbol.type),
  ("usr".toList,optionalText symbol.usr),
  ("usr_id".toList,idValue symbol.usrId),
  ("context".toList,optionalText symbol.context),
  ("file".toList,.string symbol.file),
  ("line".toList,numberValue symbol.line),
  ("column".toList,numberValue symbol.column),
  ("local".toList,.boolean symbol.isLocal),
  ("definition".toList,.boolean symbol.definition)] ++
  if symbol.properties = 0 then [] else [("properties".toList,.array ((propertyNames symbol.properties).map .string))]

def useMembers (use : OrderedUse) : List (Text × Json) := [
  ("kind".toList,.string (useKindString use.kind)),
  ("symbol_kind".toList,.string (semindexSymbolKindName use.symbolKind.code)),
  ("mode".toList,.string (outputModeString use.mode)),
  ("mode_bits".toList,numberValue use.mode),
  ("name".toList,.string use.name),
  ("owner".toList,optionalText use.owner),
  ("type".toList,optionalText use.type),
  ("usr".toList,optionalText use.usr),
  ("usr_id".toList,idValue use.usrId),
  ("context".toList,optionalText use.context),
  ("context_usr".toList,optionalText use.contextUsr),
  ("context_usr_id".toList,idValue use.contextUsrId),
  ("file".toList,.string use.file),
  ("line".toList,numberValue use.line),
  ("column".toList,numberValue use.column),
  ("local".toList,.boolean use.isLocal)]

/-- The document of an index. -/
def indexJson (symbols : List OrderedSymbol) (uses : List OrderedUse) : Json := .object [
  ("version".toList,numberValue 1),
  ("symbols".toList,.array (symbols.map (fun sym => .object (symbolMembers sym.toSymbol)))),
  ("uses".toList,.array (uses.map (fun use => .object (useMembers use))))]

end Values

section Texts

def optionalSpelling (value : Text) : Text := if value = [] then "null".toList else quoted value

def idSpelling (id : Id) : Text := if id = 0 then "null".toList else key (fixedHex 16 id.toNat)

def propertiesSpelling (properties : BitVec 64) : Text := '[' :: (listed [','] true ((propertyNames properties).map key) ++ [']'])

theorem printJsonString_utf8 (value : Text) : printJsonString (some value) = utf8 (quoted value) := by
  rw [printJsonString,writeJsonString,writeByte_utf8,quoted,utf8_append,utf8_cons]
  rfl

theorem printOptionalJsonString_utf8 (value : Text) : printOptionalJsonString (some value) = utf8 (optionalSpelling value) := by
  unfold printOptionalJsonString optionalSpelling
  rw [Option.getD_some]
  split
  · rfl
  · exact printJsonString_utf8 value

theorem printJsonId_utf8 (id : Id) : printJsonId id = utf8 (idSpelling id) := by
  unfold printJsonId idSpelling
  by_cases none : id = 0
  · rw [if_neg (not_not.mpr none),if_pos none]
    rfl
  · rw [if_pos none,if_neg none,key,utf8_append,utf8_cons,List.append_assoc]
    rfl

theorem booleanWord_utf8 (value : Bool) : booleanWord value = utf8 (ofBoolean value) := by cases value <;> rfl

theorem propertyNames_bits (properties : BitVec 64) : propertyNames properties =
    (if propertyConstructor properties then ["constructor".toList] else []) ++
      (if propertyDestructor properties then ["destructor".toList] else []) := by
  have first : propertyConstructor properties = decide (properties.toNat % 2 = 1) := Nat.testBit_zero _
  have second : propertyDestructor properties = decide (properties.toNat / 2 % 2 = 1) :=
    (Nat.testBit_succ _ 0).trans (Nat.testBit_zero _)
  rw [propertyNames,first,second]
  simp only [decide_eq_true_eq]

theorem printProperties_utf8 (properties : BitVec 64) : printProperties properties =
    utf8 (if properties = 0 then [] else ',' :: (key "properties".toList ++ ':'::propertiesSpelling properties)) := by
  unfold printProperties propertiesSpelling
  rw [propertyNames_bits]
  by_cases none : properties = 0
  · rw [if_neg (not_not.mpr none),if_pos none]
    rfl
  · rw [if_pos none,if_neg none]
    cases propertyConstructor properties <;> cases propertyDestructor properties <;> decide

def symbolParts (symbol : Symbol) : List (Text × Text × Json) := [
  ("kind".toList,quoted (semindexSymbolKindName symbol.kind.code),.string (semindexSymbolKindName symbol.kind.code)),
  ("name".toList,quoted symbol.name,.string symbol.name),
  ("owner".toList,optionalSpelling symbol.owner,optionalText symbol.owner),
  ("type".toList,optionalSpelling symbol.type,optionalText symbol.type),
  ("usr".toList,optionalSpelling symbol.usr,optionalText symbol.usr),
  ("usr_id".toList,idSpelling symbol.usrId,idValue symbol.usrId),
  ("context".toList,optionalSpelling symbol.context,optionalText symbol.context),
  ("file".toList,quoted symbol.file,.string symbol.file),
  ("line".toList,Nat.toDigits 10 symbol.line,numberValue symbol.line),
  ("column".toList,Nat.toDigits 10 symbol.column,numberValue symbol.column),
  ("local".toList,ofBoolean symbol.isLocal,.boolean symbol.isLocal),
  ("definition".toList,ofBoolean symbol.definition,.boolean symbol.definition)] ++
  if symbol.properties = 0 then [] else [("properties".toList,propertiesSpelling symbol.properties,
    .array ((propertyNames symbol.properties).map .string))]

def useParts (use : OrderedUse) : List (Text × Text × Json) := [
  ("kind".toList,quoted (useKindString use.kind),.string (useKindString use.kind)),
  ("symbol_kind".toList,quoted (semindexSymbolKindName use.symbolKind.code),.string (semindexSymbolKindName use.symbolKind.code)),
  ("mode".toList,quoted (outputModeString use.mode),.string (outputModeString use.mode)),
  ("mode_bits".toList,Nat.toDigits 10 use.mode,numberValue use.mode),
  ("name".toList,quoted use.name,.string use.name),
  ("owner".toList,optionalSpelling use.owner,optionalText use.owner),
  ("type".toList,optionalSpelling use.type,optionalText use.type),
  ("usr".toList,optionalSpelling use.usr,optionalText use.usr),
  ("usr_id".toList,idSpelling use.usrId,idValue use.usrId),
  ("context".toList,optionalSpelling use.context,optionalText use.context),
  ("context_usr".toList,optionalSpelling use.contextUsr,optionalText use.contextUsr),
  ("context_usr_id".toList,idSpelling use.contextUsrId,idValue use.contextUsrId),
  ("file".toList,quoted use.file,.string use.file),
  ("line".toList,Nat.toDigits 10 use.line,numberValue use.line),
  ("column".toList,Nat.toDigits 10 use.column,numberValue use.column),
  ("local".toList,ofBoolean use.isLocal,.boolean use.isLocal)]

theorem printJsonSymbol_utf8 (symbol : Symbol) : printJsonSymbol symbol =
    utf8 ("    ".toList ++ objectText (symbolParts symbol)) := by
  unfold printJsonSymbol
  simp only [printJsonString_utf8,printOptionalJsonString_utf8,printJsonId_utf8,booleanWord_utf8,printProperties_utf8,decimalBytes,decimal,
    fputs,← utf8_append]
  refine congrArg utf8 ?_
  unfold symbolParts
  split <;> simp [objectText,membersText,key]

set_option maxRecDepth 2000 in
theorem printJsonUse_utf8 (use : OrderedUse) : printJsonUse use = utf8 ("    ".toList ++ objectText (useParts use)) := by
  unfold printJsonUse
  simp only [printJsonString_utf8,printOptionalJsonString_utf8,printJsonId_utf8,booleanWord_utf8,decimalBytes,decimal,fputs,← utf8_append]
  refine congrArg utf8 ?_
  simp [objectText,membersText,key,useParts]

end Texts

section Reading

theorem reads_optional (value : Text) : ReadsInside (optionalSpelling value) (optionalText value) := by
  unfold optionalSpelling optionalText
  split
  · exact reads_null.inside
  · exact (reads_quoted value).inside

theorem reads_plain {name : Text} (plain : Plain name) : Reads (key name) (.string name) := by
  have spelled : ∀ c ∈ name, Spells [c] c := fun c member => spells_plain (plain c member).1 (plain c member).2.1 (plain c member).2.2
  have read := reads_string spelled
  rw [List.flatMap_singleton'] at read
  exact read

theorem plain_fixedHex (k n : Nat) : Plain (fixedHex k n) := by
  induction k generalizing n with
  | zero =>
    intro c member
    cases member
  | succ k ih =>
    intro c member
    rcases List.mem_append.mp member with front | last
    · exact ih _ c front
    · rw [List.mem_singleton.mp last]
      have every : ∀ d < 16, Nat.digitChar d ≠ '"' ∧ Nat.digitChar d ≠ '\\' ∧ 0x20 ≤ (Nat.digitChar d).toNat := by decide
      exact every _ (Nat.mod_lt n (by decide))

theorem reads_id (id : Id) : ReadsInside (idSpelling id) (idValue id) := by
  unfold idSpelling idValue
  split
  · exact reads_null.inside
  · exact (reads_plain (plain_fixedHex 16 id.toNat)).inside

def symbolNames : List Text := ["kind".toList,"name".toList,"owner".toList,"type".toList,"usr".toList,"usr_id".toList,
  "context".toList,"file".toList,"line".toList,"column".toList,"local".toList,"definition".toList]

def useNames : List Text := ["kind".toList,"symbol_kind".toList,"mode".toList,"mode_bits".toList,"name".toList,"owner".toList,
  "type".toList,"usr".toList,"usr_id".toList,"context".toList,"context_usr".toList,"context_usr_id".toList,"file".toList,
  "line".toList,"column".toList,"local".toList]

theorem plain_property {properties : BitVec 64} {name : Text} (member : name ∈ propertyNames properties) : Plain name := by
  have words : ∀ name ∈ ["constructor".toList,"destructor".toList], Plain name := plain_names (by decide)
  refine words name ?_
  unfold propertyNames at member
  rcases List.mem_append.mp member with first | second
  · split at first
    · exact List.mem_cons.mpr (.inl (List.mem_singleton.mp first))
    · cases first
  · split at second
    · exact List.mem_cons_of_mem _ second
    · cases second

theorem reads_properties (properties : BitVec 64) :
    Reads (propertiesSpelling properties) (.array ((propertyNames properties).map .string)) := by
  have none : Spaces [] := by simp [Spaces]
  have parts : ∀ part ∈ (propertyNames properties).map (fun name => (key name,Json.string name)), Reads part.1 part.2 := by
    intro part member
    obtain ⟨name,listed,same⟩ := List.mem_map.mp member
    rw [← same]
    exact reads_plain (plain_property listed)
  have read := reads_listed none none none none parts
  rw [List.map_map,List.map_map] at read
  exact read

theorem reads_symbol (symbol : Symbol) : Reads (objectText (symbolParts symbol)) (.object (symbolMembers symbol)) := by
  have members : (symbolParts symbol).map (fun part => (part.1,part.2.2)) = symbolMembers symbol := by
    unfold symbolParts symbolMembers
    split <;> rfl
  rw [← members]
  have names : ∀ name ∈ (symbolParts symbol).map Prod.fst, name ∈ symbolNames ++ ["properties".toList] := by
    unfold symbolParts
    split
    · exact fun name member => List.mem_append_left _ member
    · exact fun name member => member
  have plain : ∀ name ∈ symbolNames ++ ["properties".toList], Plain name := plain_names (by decide)
  refine reads_objectText (List.append_ne_nil_of_left_ne_nil (List.cons_ne_nil _ _) _)
    (fun part member => plain _ (names _ (List.mem_map_of_mem member))) ?_
  unfold symbolParts
  refine List.forall_mem_append.mpr ⟨?_,?_⟩
  · simp only [List.forall_mem_cons]
    exact ⟨(reads_quoted _).inside,(reads_quoted _).inside,reads_optional _,reads_optional _,reads_optional _,reads_id _,
      reads_optional _,(reads_quoted _).inside,reads_digits _,reads_digits _,(reads_boolean _).inside,(reads_boolean _).inside,
      List.forall_mem_nil _⟩
  · split
    · exact List.forall_mem_nil _
    · exact List.forall_mem_singleton.mpr (reads_properties _).inside

theorem reads_use (use : OrderedUse) : Reads (objectText (useParts use)) (.object (useMembers use)) := by
  have members : (useParts use).map (fun part => (part.1,part.2.2)) = useMembers use := rfl
  rw [← members]
  have plain : ∀ name ∈ useNames, Plain name := plain_names (by decide)
  refine reads_objectText (List.cons_ne_nil _ _) (fun part member => plain _ (List.mem_map_of_mem (f := Prod.fst) member)) ?_
  unfold useParts
  simp only [List.forall_mem_cons]
  exact ⟨(reads_quoted _).inside,(reads_quoted _).inside,(reads_quoted _).inside,reads_digits _,(reads_quoted _).inside,
    reads_optional _,reads_optional _,reads_optional _,reads_id _,reads_optional _,reads_optional _,reads_id _,
    (reads_quoted _).inside,reads_digits _,reads_digits _,(reads_boolean _).inside,List.forall_mem_nil _⟩

def itemsText : List Text → Text
  | [] => []
  | items => listed [',','\n'] true items ++ ['\n']

theorem printItems_utf8 (items : List Text) : printItems (items.map utf8) = utf8 (itemsText items) := by
  cases items with
  | nil => rfl
  | cons item items =>
    have more (item : Text) (items : List Text) : printItems ((item::items).map utf8) =
        utf8 (item ++ (listed [',','\n'] false items ++ ['\n'])) := by
      induction items generalizing item with
      | nil =>
        rw [utf8_append]
        rfl
      | cons other items ih =>
        have later := ih other
        rw [List.map_cons] at later
        rw [List.map_cons,List.map_cons,printItems,later,listed]
        simp only [fputs,utf8_append,List.append_assoc,Bool.false_eq_true,if_false]
        rfl
    rw [more]
    simp [itemsText,listed]

theorem reads_items {parts : List (Text × Json)} (reads : ∀ part ∈ parts, Reads part.1 part.2) :
    Reads ('[' :: '\n' :: (itemsText (parts.map Prod.fst) ++ [' ',' ',']'])) (.array (parts.map Prod.snd)) := by
  have none : Spaces [] := by simp [Spaces]
  have line : Spaces ['\n'] := by simp [Spaces,isSpace]
  have ending : Spaces ['\n',' ',' '] := by simp [Spaces,isSpace]
  cases parts with
  | nil => exact reads_nothing ending
  | cons part parts =>
    have read := reads_listed none line line ending reads
    simpa [itemsText] using read

def documentText (symbols uses : List Text) : Text :=
  "\x7b\n  \"version\": 1,\n  \"symbols\": [\n".toList ++ (itemsText symbols ++
    ("  ],\n  \"uses\": [\n".toList ++ (itemsText uses ++ "  ]\n\x7d\n".toList)))

theorem outputJson_utf8 (symbols : List OrderedSymbol) (uses : List OrderedUse) : outputJson symbols uses =
    utf8 (documentText (symbols.map (fun sym => "    ".toList ++ objectText (symbolParts sym.toSymbol)))
      (uses.map (fun use => "    ".toList ++ objectText (useParts use)))) := by
  have items {α : Type} (list : List α) (print : α → List UInt8) (text : α → Text) (same : ∀ a, print a = utf8 (text a)) :
      printItems (list.map print) = utf8 (itemsText (list.map text)) := by
    rw [← printItems_utf8,List.map_map]
    exact congrArg printItems (List.map_congr_left (fun a _ => same a))
  unfold outputJson documentText
  rw [items symbols _ _ (fun sym => printJsonSymbol_utf8 sym.toSymbol),items uses _ _ printJsonUse_utf8]
  simp only [fputs,utf8_append,List.append_assoc]

theorem readText_document {symbols uses : List (Text × Json)} (readSymbols : ∀ part ∈ symbols, Reads part.1 part.2)
    (readUses : ∀ part ∈ uses, Reads part.1 part.2) :
    readText (documentText (symbols.map Prod.fst) (uses.map Prod.fst)) = some (.object [("version".toList,numberValue 1),
      ("symbols".toList,.array (symbols.map Prod.snd)),("uses".toList,.array (uses.map Prod.snd))]) := by
  have none : Spaces [] := by simp [Spaces]
  have one : Spaces [' '] := by simp [Spaces,isSpace]
  have line : Spaces ['\n'] := by simp [Spaces,isSpace]
  have indent : Spaces ['\n',' ',' '] := by simp [Spaces,isSpace]
  have plain : ∀ name ∈ ["version".toList,"symbols".toList,"uses".toList], Plain name := plain_names (by decide)
  have last := readsMembers_last (reads_key _ indent (plain "uses".toList (by decide))) ((reads_items readUses).behind one) line
  have middle := readsMembers_cons (reads_key _ indent (plain "symbols".toList (by decide)))
    ((reads_items readSymbols).behind one) none last
  have first := readsMembers_more (reads_key _ indent (plain "version".toList (by decide))) ((reads_digits 1).behind one) middle
  have read := readText_reads (reads_object first) line
  refine Eq.trans (congrArg readText ?_) read
  have version : Nat.toDigits 10 1 = ['1'] := by decide
  unfold documentText key
  simp [version]

end Reading
section Consumer

/-- What a consumer has of a symbol, null read as the empty string and as no id. -/
structure SymbolFields where
  kind : SymbolKind
  name : Text
  owner : Text
  type : Text
  usr : Text
  usrId : Id
  context : Text
  file : Text
  line : Nat
  column : Nat
  isLocal : Bool
  definition : Bool
  properties : List Text

structure UseFields where
  kind : UseKind
  symbolKind : SymbolKind
  modeText : Text
  mode : Nat
  name : Text
  owner : Text
  type : Text
  usr : Text
  usrId : Id
  context : Text
  contextUsr : Text
  contextUsrId : Id
  file : Text
  line : Nat
  column : Nat
  isLocal : Bool

def SymbolFields.of (symbol : Symbol) : SymbolFields := ⟨symbol.kind,symbol.name,symbol.owner,symbol.type,symbol.usr,symbol.usrId,
  symbol.context,symbol.file,symbol.line,symbol.column,symbol.isLocal,symbol.definition,propertyNames symbol.properties⟩

def UseFields.of (use : OrderedUse) : UseFields := ⟨use.kind,use.symbolKind,outputModeString use.mode,use.mode,use.name,use.owner,
  use.type,use.usr,use.usrId,use.context,use.contextUsr,use.contextUsrId,use.file,use.line,use.column,use.isLocal⟩

variable (members : List (Text × Json)) (name : String)

def getOptional : Option Text :=
  match get members name with
  | some .null => some []
  | some (.string text) => some text
  | _ => none

def getNumber : Option Nat :=
  match get members name with
  | some (.number spelling) => some (Nat.ofDigitChars 10 spelling 0)
  | _ => none

-- all 64 bits, from 16 digits
def getId : Option Id :=
  match get members name with
  | some .null => some 0
  | some (.string text) => if text.length = 16 then (hexValue text).map (BitVec.ofNat 64) else none
  | _ => none

def getSymbolKind : Option SymbolKind :=
  (getString members name).bind (fun text => (symbolKindNames.find? (fun entry => entry.2 = text)).map Prod.fst)

def useKinds : List UseKind := [.read,.write,.addr,.call]

def getUseKind : Option UseKind :=
  (getString members name).bind (fun text => useKinds.find? (fun kind => useKindString kind = text))

def asString : Json → Option Text
  | .string text => some text
  | _ => none

-- symbols without properties omit the member
def getProperties : Option (List Text) :=
  match get members name with
  | none => some []
  | some (.array items) => items.mapM asString
  | some _ => none

def readSymbol : Json → Option SymbolFields
  | .object members => do
    some ⟨← getSymbolKind members "kind",← getString members "name",← getOptional members "owner",← getOptional members "type",
      ← getOptional members "usr",← getId members "usr_id",← getOptional members "context",← getString members "file",
      ← getNumber members "line",← getNumber members "column",← getBoolean members "local",← getBoolean members "definition",
      ← getProperties members "properties"⟩
  | _ => none

def readUse : Json → Option UseFields
  | .object members => do
    some ⟨← getUseKind members "kind",← getSymbolKind members "symbol_kind",← getString members "mode",← getNumber members "mode_bits",
      ← getString members "name",← getOptional members "owner",← getOptional members "type",← getOptional members "usr",
      ← getId members "usr_id",← getOptional members "context",← getOptional members "context_usr",
      ← getId members "context_usr_id",← getString members "file",← getNumber members "line",← getNumber members "column",
      ← getBoolean members "local"⟩
  | _ => none

/-- A consumer of version 1 of the document. -/
def readIndex : Json → Option (List SymbolFields × List UseFields)
  | .object members => do
    if (← getNumber members "version") ≠ 1 then none
    let symbols ← (← getArray members "symbols").mapM readSymbol
    let uses ← (← getArray members "uses").mapM readUse
    some (symbols,uses)
  | _ => none

end Consumer

section Faithful
variable {members : List (Text × Json)} {name : String}

theorem getNumber_value {n : Nat} (found : get members name = some (numberValue n)) : getNumber members name = some n := by
  unfold getNumber
  rw [found]
  exact congrArg some Nat.ofDigitChars_ten_toDigits

theorem getOptional_value {value : Text} (found : get members name = some (optionalText value)) :
    getOptional members name = some value := by
  unfold getOptional
  rw [found]
  by_cases empty : value = []
  · rw [optionalText,if_pos empty,empty]
  · rw [optionalText,if_neg empty]

theorem getId_value {id : Id} (found : get members name = some (idValue id)) : getId members name = some id := by
  unfold getId
  rw [found]
  by_cases none : id = 0
  · rw [idValue,if_pos none,none]
  · rw [idValue,if_neg none]
    dsimp only
    rw [if_pos (length_fixedHex 16 _),hexValue_fixedHex (n := id.toNat) id.isLt,Option.map_some,BitVec.ofNat_toNat,BitVec.setWidth_eq]

theorem getSymbolKind_value {kind : SymbolKind} (found : get members name = some (.string (semindexSymbolKindName kind.code))) :
    getSymbolKind members name = some kind := by
  unfold getSymbolKind getString
  rw [found]
  cases kind <;> decide

theorem getUseKind_value {kind : UseKind} (found : get members name = some (.string (useKindString kind))) :
    getUseKind members name = some kind := by
  unfold getUseKind getString
  rw [found]
  cases kind <;> decide

theorem names_of_symbol (symbol : Symbol) : ((symbolMembers symbol).map Prod.fst).Nodup := by
  unfold symbolMembers
  split
  · exact (by decide : symbolNames.Nodup)
  · exact (by decide : (symbolNames ++ ["properties".toList]).Nodup)

theorem getProperties_value (symbol : Symbol) :
    getProperties (symbolMembers symbol) "properties" = some (propertyNames symbol.properties) := by
  have strings (names : List Text) : (names.map Json.string).mapM asString = some names := by
    induction names with
    | nil => rfl
    | cons name names ih =>
      rw [List.map_cons,List.mapM_cons,ih]
      rfl
  by_cases unset : symbol.properties = 0
  · have absent : get (symbolMembers symbol) "properties" = none := by
      unfold symbolMembers
      rw [if_pos unset]
      rfl
    rw [getProperties,absent,unset]
    rfl
  · have present : (symbolMembers symbol)[12]? = some ("properties".toList,.array ((propertyNames symbol.properties).map .string)) := by
      unfold symbolMembers
      rw [if_neg unset]
      rfl
    rw [getProperties,get_member (names_of_symbol symbol) present]
    exact strings _

theorem readSymbol_members (symbol : Symbol) : readSymbol (.object (symbolMembers symbol)) = some (SymbolFields.of symbol) := by
  have distinct := names_of_symbol symbol
  unfold readSymbol
  dsimp only
  rw [getSymbolKind_value (get_member (i := 0) distinct rfl),getString_member (i := 1) distinct rfl,
    getOptional_value (get_member (i := 2) distinct rfl),getOptional_value (get_member (i := 3) distinct rfl),
    getOptional_value (get_member (i := 4) distinct rfl),getId_value (get_member (i := 5) distinct rfl),
    getOptional_value (get_member (i := 6) distinct rfl),getString_member (i := 7) distinct rfl,
    getNumber_value (get_member (i := 8) distinct rfl),getNumber_value (get_member (i := 9) distinct rfl),
    getBoolean_member (i := 10) distinct rfl,getBoolean_member (i := 11) distinct rfl,getProperties_value]
  rfl

theorem readUse_members (use : OrderedUse) : readUse (.object (useMembers use)) = some (UseFields.of use) := by
  have distinct : ((useMembers use).map Prod.fst).Nodup := (by decide : useNames.Nodup)
  unfold readUse
  dsimp only
  rw [getUseKind_value (get_member (i := 0) distinct rfl),getSymbolKind_value (get_member (i := 1) distinct rfl),
    getString_member (i := 2) distinct rfl,getNumber_value (get_member (i := 3) distinct rfl),
    getString_member (i := 4) distinct rfl,getOptional_value (get_member (i := 5) distinct rfl),
    getOptional_value (get_member (i := 6) distinct rfl),getOptional_value (get_member (i := 7) distinct rfl),
    getId_value (get_member (i := 8) distinct rfl),getOptional_value (get_member (i := 9) distinct rfl),
    getOptional_value (get_member (i := 10) distinct rfl),getId_value (get_member (i := 11) distinct rfl),
    getString_member (i := 12) distinct rfl,getNumber_value (get_member (i := 13) distinct rfl),
    getNumber_value (get_member (i := 14) distinct rfl),getBoolean_member (i := 15) distinct rfl]
  rfl

theorem readIndex_json (symbols : List OrderedSymbol) (uses : List OrderedUse) : readIndex (indexJson symbols uses) =
    some (symbols.map (fun sym => SymbolFields.of sym.toSymbol),uses.map UseFields.of) := by
  have items {α β : Type} (list : List α) (json : α → Json) (read : Json → Option β) (fields : α → β)
      (same : ∀ a, read (json a) = some (fields a)) : (list.map json).mapM read = some (list.map fields) := by
    induction list with
    | nil => rfl
    | cons a list ih =>
      rw [List.map_cons,List.mapM_cons,ih,same]
      rfl
  have version : getNumber [("version".toList,numberValue 1),
      ("symbols".toList,.array (symbols.map (fun sym => .object (symbolMembers sym.toSymbol)))),
      ("uses".toList,.array (uses.map (fun use => .object (useMembers use))))] "version" = some 1 := getNumber_value rfl
  unfold readIndex indexJson
  dsimp only
  rw [version]
  have listed : (symbols.map (fun sym => Json.object (symbolMembers sym.toSymbol))).mapM readSymbol = _ :=
    items symbols _ _ _ (fun sym => readSymbol_members sym.toSymbol)
  have used : (uses.map (fun use => Json.object (useMembers use))).mapM readUse = _ := items uses _ _ _ readUse_members
  change (symbols.map (fun sym => Json.object (symbolMembers sym.toSymbol))).mapM readSymbol >>= (fun symbols =>
    (uses.map (fun use => Json.object (useMembers use))).mapM readUse >>= (fun uses => some (symbols,uses))) = _
  rw [listed,used]
  rfl

/-- The output of an index is one document with its symbols and its uses in order, and gives them back. -/
theorem json_output_faithful (symbols : List OrderedSymbol) (uses : List OrderedUse) :
    readBytes (outputJson symbols uses) = some (indexJson symbols uses) ∧
      (readBytes (outputJson symbols uses)).bind readIndex =
        some (symbols.map (fun sym => SymbolFields.of sym.toSymbol),uses.map UseFields.of) := by
  have spaces : Spaces "    ".toList := List.all_eq_true.mp (by decide)
  have read : readBytes (outputJson symbols uses) = some (indexJson symbols uses) := by
    have listed : ∀ part ∈ symbols.map (fun sym => ("    ".toList ++ objectText (symbolParts sym.toSymbol),
        Json.object (symbolMembers sym.toSymbol))), Reads part.1 part.2 := by
      intro part member
      obtain ⟨sym,_,same⟩ := List.mem_map.mp member
      rw [← same]
      exact (reads_symbol sym.toSymbol).behind spaces
    have used : ∀ part ∈ uses.map (fun use => ("    ".toList ++ objectText (useParts use),Json.object (useMembers use))),
        Reads part.1 part.2 := by
      intro part member
      obtain ⟨use,_,same⟩ := List.mem_map.mp member
      rw [← same]
      exact (reads_use use).behind spaces
    have whole := readText_document listed used
    rw [List.map_map,List.map_map,List.map_map,List.map_map] at whole
    rw [readBytes,outputJson_utf8,decode_utf8,Option.bind_some]
    exact whole
  refine ⟨read,?_⟩
  rw [read,Option.bind_some,readIndex_json]

end Faithful
end Semindex.Cmdline
