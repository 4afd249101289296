import Semindex.CommandDb.Export
import Semindex.Mcp.DirectCalls
import Semindex.Mcp.Requests
import Semindex.Support.Hex
import Semindex.Support.JsonObject

/-! The cursors of the MCP tools: the key of a row as a JSON object, in hexadecimal
digits. The strings of a row are bytes. The JSON library is a parameter with what
its documentation says of it. -/
namespace Semindex.Mcp.Cursors
open Semindex.Json Semindex.Hex

-- the values that cursors have
def Leaf (value : Json) : Prop := (∃ text, value = .string text) ∨ ∃ n, value = .number (signedDecimal n)

/-- The JSON library, as far as the cursors use it. -/
structure JsonLibrary where
  fixUtf8 : List UInt8 → Text
  serialize : List (Text × Json) → List UInt8
  parse : List UInt8 → Option Json
  integer : Text → Option Int
  fixUtf8_valid : ∀ text, fixUtf8 (utf8 text) = text
  parse_serialize : ∀ members, (members.map Prod.fst).Nodup → (∀ member ∈ members, Plain member.1) →
    (∀ member ∈ members, Leaf member.2) →
      ∃ others, parse (serialize members) = some (.object others) ∧ ∀ name, Json.get others name = Json.get members name
  integer_decimal : ∀ n : Int, -2^63 ≤ n → n < 2^63 → integer (signedDecimal n) = some n

def UINT_MAX : Int := 2^32-1
def INT_MAX : Int := 2^31-1

section Rows

/-- The sort key of a record, as `semindex_db_cursor_t` holds it. -/
structure RecordPlace where
  variant : List UInt8
  path : List UInt8
  symbol : List UInt8
  record : Int
  action : Int
  kind : Int
  mode : Int
  line : Int
  column : Int

structure TypePlace where
  declaredType : List UInt8
  canonicalType : List UInt8
  typeSymbol : List UInt8
  typeKind : Int
  typeUsrId : Id
  path : List UInt8

structure FunctionTypePlace extends TypePlace where
  position : Int

def Unsigned (n : Int) : Prop := 0 ≤ n ∧ n ≤ UINT_MAX

/-- A row with the values of its C types; a kind is one of the enumeration. -/
structure RecordRow extends RecordPlace where
  record_known : 0 ≤ record ∧ record ≤ 2
  action_unsigned : Unsigned action
  kind_known : 0 ≤ kind ∧ kind ≤ SymbolKind.template.code
  mode_unsigned : Unsigned mode
  line_unsigned : Unsigned line
  column_unsigned : Unsigned column

structure TypeRow extends TypePlace where
  typeKind_known : -1 ≤ typeKind ∧ typeKind ≤ SymbolKind.template.code

structure FunctionTypeRow extends FunctionTypePlace where
  typeKind_known : -1 ≤ typeKind ∧ typeKind ≤ SymbolKind.template.code
  position_known : -1 ≤ position ∧ position ≤ INT_MAX

inductive PageRow where
  | record (row : RecordRow)
  | symbolType (row : TypeRow)
  | functionType (row : FunctionTypeRow)

end Rows

section Codec
variable (lib : JsonLibrary)

def idString (id : Id) : Text := fixedHex 16 id.toNat

-- two digits of either case for each byte
def decodeHex : Text → Option (List UInt8)
  | [] => some []
  | [_] => none
  | first::second::rest => do
    let high ← hexDigit first
    let low ← hexDigit second
    let bytes ← decodeHex rest
    some (UInt8.ofNat (high * 16 + low)::bytes)

def encodeCursor (cursor : List (Text × Json)) : Text := encodeHex (lib.serialize cursor)

def decodeCursor (encoded : Text) : Option (List (Text × Json)) :=
  match (decodeHex encoded).bind lib.parse with
  | some (.object members) => some members
  | _ => none

def text (value : List UInt8) : Json := .string (lib.fixUtf8 value)

def number (value : Int) : Json := .number (signedDecimal value)

def recordMembers (record : RecordPlace) : List (Text × Json) := [
  ("variant".toList,text lib record.variant),
  ("path".toList,text lib record.path),
  ("line".toList,number record.line),
  ("column".toList,number record.column),
  ("symbol".toList,text lib record.symbol),
  ("record".toList,number record.record),
  ("action".toList,number record.action),
  ("kind".toList,number record.kind),
  ("mode".toList,number record.mode)]

def typeMembers (record : TypePlace) : List (Text × Json) := [
  ("declaredType".toList,text lib record.declaredType),
  ("canonicalType".toList,text lib record.canonicalType),
  ("typeSymbol".toList,text lib record.typeSymbol),
  ("typeKind".toList,number record.typeKind),
  ("typeUsrId".toList,.string (idString record.typeUsrId)),
  ("path".toList,text lib record.path)]

def recordCursor (record : RecordPlace) : Text := encodeCursor lib (recordMembers lib record)

def typeCursor (record : TypePlace) : Text := encodeCursor lib (typeMembers lib record)

def functionTypeCursor (record : FunctionTypePlace) : Text :=
  encodeCursor lib (("position".toList,number record.position)::typeMembers lib record.toTypePlace)

def getInteger (members : List (Text × Json)) (name : String) : Option Int :=
  match Json.get members name with
  | some (.number spelling) => lib.integer spelling
  | _ => none

def parseTypeCursor (encoded : Text) : Option TypePlace := do
  let object ← decodeCursor lib encoded
  let declaredType ← getString object "declaredType"
  let canonicalType ← getString object "canonicalType"
  let typeSymbol ← getString object "typeSymbol"
  let typeKind ← getInteger lib object "typeKind"
  let typeUsrId ← getString object "typeUsrId"
  let path ← getString object "path"
  let parsedTypeUsrId ← parseId typeUsrId
  if typeKind < -1 || typeKind > SymbolKind.template.code then none
  else some ⟨utf8 declaredType,utf8 canonicalType,utf8 typeSymbol,typeKind,parsedTypeUsrId,utf8 path⟩

def parseFunctionTypeCursor (encoded : Text) : Option FunctionTypePlace := do
  let object ← decodeCursor lib encoded
  let position ← getInteger lib object "position"
  let declaredType ← getString object "declaredType"
  let canonicalType ← getString object "canonicalType"
  let typeSymbol ← getString object "typeSymbol"
  let typeKind ← getInteger lib object "typeKind"
  let typeUsrId ← getString object "typeUsrId"
  let path ← getString object "path"
  let parsedTypeUsrId ← parseId typeUsrId
  if position < -1 || position > INT_MAX then none
  else if typeKind < -1 || typeKind > SymbolKind.template.code then none
  else some ⟨⟨utf8 declaredType,utf8 canonicalType,utf8 typeSymbol,typeKind,parsedTypeUsrId,utf8 path⟩,position⟩

def parseCursor (encoded : Text) : Option RecordPlace := do
  let object ← decodeCursor lib encoded
  let variant ← getString object "variant"
  let path ← getString object "path"
  let symbol ← getString object "symbol"
  let line ← getInteger lib object "line"
  let column ← getInteger lib object "column"
  let record ← getInteger lib object "record"
  let action ← getInteger lib object "action"
  let kind ← getInteger lib object "kind"
  let mode ← getInteger lib object "mode"
  if line < 1 || line > UINT_MAX || column < 1 || column > UINT_MAX || record < 0 || record > 2 || action < 0 ||
      action > UINT_MAX || kind < 0 || kind > SymbolKind.template.code || mode < 0 || mode > UINT_MAX then none
  else some ⟨utf8 variant,utf8 path,utf8 symbol,record,action,kind,mode,line,column⟩

end Codec

section Specification
variable (lib : JsonLibrary)

/-- Two digits for each byte, in either case. -/
def HexForm (bytes : List UInt8) (encoded : Text) : Prop := encoded.map Char.toLower = encodeHex bytes

/-- A string that is the hexadecimal form of a JSON object with these members. -/
def Encodes (encoded : Text) (members : List (Text × Json)) : Prop :=
  ∃ bytes, HexForm bytes encoded ∧ lib.parse bytes = some (.object members)

/-- The string member of this name has these bytes. -/
def HasText (members : List (Text × Json)) (name : String) (bytes : List UInt8) : Prop :=
  ∃ text, getString members name = some text ∧ bytes = utf8 text

/-- The number of this name is the integer, and within these bounds. -/
def HasInteger (members : List (Text × Json)) (name : String) (low high value : Int) : Prop :=
  getInteger lib members name = some value ∧ low ≤ value ∧ value ≤ high

structure RecordComponents (members : List (Text × Json)) (place : RecordPlace) : Prop where
  variant : HasText members "variant" place.variant
  path : HasText members "path" place.path
  symbol : HasText members "symbol" place.symbol
  line : HasInteger lib members "line" 1 UINT_MAX place.line
  column : HasInteger lib members "column" 1 UINT_MAX place.column
  record : HasInteger lib members "record" 0 2 place.record
  action : HasInteger lib members "action" 0 UINT_MAX place.action
  kind : HasInteger lib members "kind" 0 SymbolKind.template.code place.kind
  mode : HasInteger lib members "mode" 0 UINT_MAX place.mode

structure TypeComponents (members : List (Text × Json)) (place : TypePlace) : Prop where
  declaredType : HasText members "declaredType" place.declaredType
  canonicalType : HasText members "canonicalType" place.canonicalType
  typeSymbol : HasText members "typeSymbol" place.typeSymbol
  typeKind : HasInteger lib members "typeKind" (-1) SymbolKind.template.code place.typeKind
  typeUsrId : ∃ digits, getString members "typeUsrId" = some digits ∧ parseId digits = some place.typeUsrId
  path : HasText members "path" place.path

structure FunctionTypeComponents (members : List (Text × Json)) (place : FunctionTypePlace) : Prop where
  types : TypeComponents lib members place.toTypePlace
  position : HasInteger lib members "position" (-1) INT_MAX place.position

/-- The cursor of a row is decoded to the row's key. -/
def Restored : PageRow → Prop
  | .record row => parseCursor lib (recordCursor lib row.toRecordPlace) = some row.toRecordPlace
  | .symbolType row => parseTypeCursor lib (typeCursor lib row.toTypePlace) = some row.toTypePlace
  | .functionType row =>
    parseFunctionTypeCursor lib (functionTypeCursor lib row.toFunctionTypePlace) = some row.toFunctionTypePlace

def Valid (bytes : List UInt8) : Prop := ∃ text, utf8 text = bytes

def TypePlace.Texts (place : TypePlace) : Prop :=
  Valid place.declaredType ∧ Valid place.canonicalType ∧ Valid place.typeSymbol ∧ Valid place.path

/-- The strings of the key are UTF-8, and a record has a line and a column. -/
def PageRow.Placed : PageRow → Prop
  | .record row => row.line ≠ 0 ∧ row.column ≠ 0 ∧ Valid row.variant ∧ Valid row.path ∧ Valid row.symbol
  | .symbolType row => row.Texts
  | .functionType row => row.Texts

end Specification
section Digits
variable {c : Char} {d : Nat} {bytes : List UInt8} {encoded : Text}

def digitOf (d : Nat) : Char := hexDigits[d]?.getD '0'

theorem hexDigit_ascii : ∀ n < 128, ∀ d < 16, hexDigit (Char.ofNat n) = some d ↔ (Char.ofNat n).toLower = digitOf d := by
  decide +kernel

theorem hexDigit_small (digit : hexDigit c = some d) : c.toNat < 128 ∧ d < 16 := by
  unfold hexDigit at digit
  simp only [Char.le_def,UInt32.le_iff_toNat_le] at digit
  change (if 48 ≤ c.toNat ∧ c.toNat ≤ 57 then some (c.toNat - 48)
    else if 97 ≤ c.toNat ∧ c.toNat ≤ 102 then some (c.toNat - 87)
    else if 65 ≤ c.toNat ∧ c.toNat ≤ 70 then some (c.toNat - 55) else none) = some d at digit
  split_ifs at digit <;> (cases digit; omega)

theorem digitOf_ascii : ∀ d < 16, (digitOf d).toNat < 128 := by decide

theorem toLower_ascii (small : c.toLower.toNat < 128) : c.toNat < 128 := by
  unfold Char.toLower at small
  split at small
  · rename_i upper
    have : c.toNat ≤ 90 := upper.2
    omega
  · exact small

/-- A digit, in either case. -/
theorem hexDigit_iff (c : Char) (d : Nat) : hexDigit c = some d ↔ d < 16 ∧ c.toLower = digitOf d := by
  constructor
  · intro digit
    obtain ⟨small,value⟩ := hexDigit_small digit
    have same := hexDigit_ascii c.toNat small d value
    rw [Char.ofNat_toNat] at same
    exact ⟨value,same.mp digit⟩
  · intro ⟨value,same⟩
    have small : c.toNat < 128 := toLower_ascii (by rw [same]; exact digitOf_ascii d value)
    have equal := hexDigit_ascii c.toNat small d value
    rw [Char.ofNat_toNat] at equal
    exact equal.mpr same

theorem encodeHex_cons (b : UInt8) (bytes : List UInt8) :
    encodeHex (b::bytes) = digitOf (b.toNat / 16)::digitOf (b.toNat % 16)::encodeHex bytes := rfl

/-- What is decoded is the pairs of digits, and nothing else is. -/
theorem decodeHex_iff : decodeHex encoded = some bytes ↔ HexForm bytes encoded := by
  unfold HexForm
  induction encoded using decodeHex.induct generalizing bytes with
  | case1 => cases bytes <;> simp [decodeHex,encodeHex]
  | case2 c => cases bytes <;> simp [decodeHex,encodeHex]
  | case3 first second rest ih =>
    cases bytes with
    | nil => simp [decodeHex,encodeHex,Option.bind_eq_some_iff]
    | cons b bytes =>
      have size := b.toNat_lt
      rw [encodeHex_cons,List.map_cons,List.map_cons,List.cons.injEq,List.cons.injEq,← ih]
      simp only [decodeHex,Option.bind_eq_bind,Option.bind_eq_some_iff,Option.some.injEq,List.cons.injEq]
      constructor
      · intro facts
        obtain ⟨high,upper,low,lower,others,decoded,value,same⟩ := facts
        obtain ⟨highSmall,first⟩ := (hexDigit_iff _ _).mp upper
        obtain ⟨lowSmall,second⟩ := (hexDigit_iff _ _).mp lower
        have whole : b.toNat = high * 16 + low := by
          rw [← value,UInt8.toNat_ofNat']
          omega
        refine ⟨?_,?_,same ▸ decoded⟩
        · rw [first,show b.toNat / 16 = high by omega]
        · rw [second,show b.toNat % 16 = low by omega]
      · intro facts
        obtain ⟨first,second,decoded⟩ := facts
        refine ⟨b.toNat / 16,(hexDigit_iff _ _).mpr ⟨by omega,first⟩,b.toNat % 16,
          (hexDigit_iff _ _).mpr ⟨by omega,second⟩,bytes,decoded,?_,rfl⟩
        rw [show b.toNat / 16 * 16 + b.toNat % 16 = b.toNat by omega]
        exact UInt8.ofNat_toNat

theorem digitOf_lower : ∀ d < 16, (digitOf d).toLower = digitOf d := by decide

theorem hexForm_encodeHex (bytes : List UInt8) : HexForm bytes (encodeHex bytes) := by
  unfold HexForm
  induction bytes with
  | nil => rfl
  | cons b bytes ih =>
    have size := b.toNat_lt
    rw [encodeHex_cons,List.map_cons,List.map_cons,ih,digitOf_lower _ (by omega),digitOf_lower _ (by omega)]

theorem parseId_idString (id : Id) : parseId (idString id) = some id := by
  have size : (idString id).length = 16 := length_fixedHex 16 _
  have filled : idString id ≠ [] := by
    intro empty
    rw [empty] at size
    cases size
  have value : hexValue (idString id) = some id.toNat := hexValue_fixedHex id.isLt
  unfold parseId
  rw [if_neg (by rw [size]; simpa using filled),value,Option.map_some,BitVec.ofNat_toNat,BitVec.setWidth_eq]

end Digits

section Decoding
variable {lib : JsonLibrary} {encoded : Text} {members others : List (Text × Json)} {name : String}

theorem decodeCursor_iff : decodeCursor lib encoded = some members ↔ Encodes lib encoded members := by
  unfold decodeCursor Encodes
  simp only [← decodeHex_iff]
  constructor
  · intro decoded
    split at decoded
    · rename_i found same
      cases decoded
      exact Option.bind_eq_some_iff.mp same
    · cases decoded
  · intro ⟨bytes,digits,parsed⟩
    rw [digits,Option.bind_some,parsed]

theorem within {low high value : Int} (fails : ¬(decide (value < low) || decide (value > high)) = true) : low ≤ value ∧ value ≤ high := by
  simpa using fails

/-- A string is accepted as this key exactly when it is the hexadecimal form of an
object with its components. -/
theorem parseCursor_iff {place : RecordPlace} :
    parseCursor lib encoded = some place ↔ ∃ members, Encodes lib encoded members ∧ RecordComponents lib members place := by
  simp only [parseCursor,Option.bind_eq_bind,Option.bind_eq_some_iff,decodeCursor_iff]
  constructor
  · intro ⟨members,encodes,variant,hasVariant,path,hasPath,symbol,hasSymbol,line,hasLine,column,hasColumn,record,hasRecord,
      action,hasAction,kind,hasKind,mode,hasMode,accepted⟩
    split_ifs at accepted with outside
    cases accepted
    simp only [Bool.or_eq_true,decide_eq_true_eq,not_or,not_lt,gt_iff_lt] at outside
    obtain ⟨⟨⟨⟨⟨⟨⟨⟨⟨⟨⟨lineLow,lineHigh⟩,columnLow⟩,columnHigh⟩,recordLow⟩,recordHigh⟩,actionLow⟩,actionHigh⟩,kindLow⟩,kindHigh⟩,modeLow⟩,modeHigh⟩ := outside
    exact ⟨members,encodes,⟨_,hasVariant,rfl⟩,⟨_,hasPath,rfl⟩,⟨_,hasSymbol,rfl⟩,⟨hasLine,lineLow,lineHigh⟩,
      ⟨hasColumn,columnLow,columnHigh⟩,⟨hasRecord,recordLow,recordHigh⟩,⟨hasAction,actionLow,actionHigh⟩,
      ⟨hasKind,kindLow,kindHigh⟩,⟨hasMode,modeLow,modeHigh⟩⟩
  · intro ⟨members,encodes,components⟩
    obtain ⟨variant,path,symbol,record,action,kind,mode,line,column⟩ := place
    obtain ⟨⟨_,hasVariant,rfl⟩,⟨_,hasPath,rfl⟩,⟨_,hasSymbol,rfl⟩,⟨hasLine,lineWithin⟩,⟨hasColumn,columnWithin⟩,⟨hasRecord,recordWithin⟩,
      ⟨hasAction,actionWithin⟩,⟨hasKind,kindWithin⟩,⟨hasMode,modeWithin⟩⟩ := components
    refine ⟨members,encodes,_,hasVariant,_,hasPath,_,hasSymbol,_,hasLine,_,hasColumn,_,hasRecord,_,hasAction,_,hasKind,_,hasMode,?_⟩
    refine if_neg ?_
    simp only [Bool.or_eq_true,decide_eq_true_eq,not_or,not_lt,gt_iff_lt]
    exact ⟨⟨⟨⟨⟨⟨⟨⟨⟨⟨⟨lineWithin.1,lineWithin.2⟩,columnWithin.1⟩,columnWithin.2⟩,recordWithin.1⟩,recordWithin.2⟩,actionWithin.1⟩,
      actionWithin.2⟩,kindWithin.1⟩,kindWithin.2⟩,modeWithin.1⟩,modeWithin.2⟩

theorem parseTypeCursor_iff {place : TypePlace} :
    parseTypeCursor lib encoded = some place ↔ ∃ members, Encodes lib encoded members ∧ TypeComponents lib members place := by
  simp only [parseTypeCursor,Option.bind_eq_bind,Option.bind_eq_some_iff,decodeCursor_iff]
  constructor
  · intro ⟨members,encodes,declared,hasDeclared,canonical,hasCanonical,symbol,hasSymbol,kind,hasKind,digits,hasDigits,path,hasPath,
      usrId,parsed,accepted⟩
    split_ifs at accepted with outside
    cases accepted
    exact ⟨members,encodes,⟨_,hasDeclared,rfl⟩,⟨_,hasCanonical,rfl⟩,⟨_,hasSymbol,rfl⟩,⟨hasKind,within outside⟩,⟨_,hasDigits,parsed⟩,
      ⟨_,hasPath,rfl⟩⟩
  · intro ⟨members,encodes,components⟩
    obtain ⟨declared,canonical,symbol,kind,usrId,path⟩ := place
    obtain ⟨⟨_,hasDeclared,rfl⟩,⟨_,hasCanonical,rfl⟩,⟨_,hasSymbol,rfl⟩,⟨hasKind,kindWithin⟩,⟨digits,hasDigits,parsed⟩,⟨_,hasPath,rfl⟩⟩ := components
    refine ⟨members,encodes,_,hasDeclared,_,hasCanonical,_,hasSymbol,_,hasKind,_,hasDigits,_,hasPath,_,parsed,if_neg ?_⟩
    simpa using kindWithin

theorem parseFunctionTypeCursor_iff {place : FunctionTypePlace} :
    parseFunctionTypeCursor lib encoded = some place ↔
      ∃ members, Encodes lib encoded members ∧ FunctionTypeComponents lib members place := by
  simp only [parseFunctionTypeCursor,Option.bind_eq_bind,Option.bind_eq_some_iff,decodeCursor_iff]
  constructor
  · intro ⟨members,encodes,position,hasPosition,declared,hasDeclared,canonical,hasCanonical,symbol,hasSymbol,kind,hasKind,digits,hasDigits,
      path,hasPath,usrId,parsed,accepted⟩
    split_ifs at accepted with beyond outside
    cases accepted
    exact ⟨members,encodes,⟨⟨_,hasDeclared,rfl⟩,⟨_,hasCanonical,rfl⟩,⟨_,hasSymbol,rfl⟩,⟨hasKind,within outside⟩,⟨_,hasDigits,parsed⟩,
      ⟨_,hasPath,rfl⟩⟩,⟨hasPosition,within beyond⟩⟩
  · intro ⟨members,encodes,components⟩
    obtain ⟨⟨declared,canonical,symbol,kind,usrId,path⟩,position⟩ := place
    obtain ⟨⟨⟨_,hasDeclared,rfl⟩,⟨_,hasCanonical,rfl⟩,⟨_,hasSymbol,rfl⟩,⟨hasKind,kindWithin⟩,⟨digits,hasDigits,parsed⟩,⟨_,hasPath,rfl⟩⟩,
      ⟨hasPosition,positionWithin⟩⟩ := components
    refine ⟨members,encodes,_,hasPosition,_,hasDeclared,_,hasCanonical,_,hasSymbol,_,hasKind,_,hasDigits,_,hasPath,_,parsed,?_⟩
    rw [if_neg (by simpa using positionWithin),if_neg (by simpa using kindWithin)]

end Decoding

section Encoding
variable {lib : JsonLibrary} {members others : List (Text × Json)} {name : String} {bytes : List UInt8} {low high value : Int} {i : Nat}

theorem leaf_text (lib : JsonLibrary) (bytes : List UInt8) : Leaf (text lib bytes) := .inl ⟨_,rfl⟩

theorem leaf_number (value : Int) : Leaf (number value) := .inr ⟨_,rfl⟩

/-- A cursor is decoded to an object with the same members. -/
theorem encodes_encodeCursor (distinct : (members.map Prod.fst).Nodup) (plain : ∀ name ∈ members.map Prod.fst, Plain name)
    (leaves : ∀ member ∈ members, Leaf member.2) :
    ∃ others, Encodes lib (encodeCursor lib members) others ∧ ∀ name, Json.get others name = Json.get members name := by
  obtain ⟨others,parsed,same⟩ := lib.parse_serialize members distinct (List.forall_mem_map.mp plain) leaves
  exact ⟨others,⟨_,hexForm_encodeHex _,parsed⟩,same⟩

/-- A cursor has one object. -/
theorem Encodes.only {encoded : Text} {components : List (Text × Json) → Prop} (encodes : Encodes lib encoded others) :
    (∃ members, Encodes lib encoded members ∧ components members) ↔ components others := by
  constructor
  · intro ⟨members,again,held⟩
    have same : some members = some others := (decodeCursor_iff.mpr again).symm.trans (decodeCursor_iff.mpr encodes)
    exact Option.some.inj same ▸ held
  · exact fun held => ⟨others,encodes,held⟩

theorem fixUtf8_iff (lib : JsonLibrary) (bytes : List UInt8) : bytes = utf8 (lib.fixUtf8 bytes) ↔ Valid bytes := by
  constructor
  · intro same
    exact ⟨_,same.symm⟩
  · intro ⟨text,same⟩
    rw [← same,lib.fixUtf8_valid]

theorem hasText_iff (held : Json.get others name = some (text lib bytes)) : HasText others name bytes ↔ Valid bytes := by
  rw [← fixUtf8_iff lib]
  simp [HasText,getString,held,text]

theorem hasInteger_iff (held : Json.get others name = some (number value)) (fits : -2^63 ≤ value ∧ value < 2^63) :
    HasInteger lib others name low high value ↔ low ≤ value ∧ value ≤ high := by
  simp [HasInteger,getInteger,held,number,lib.integer_decimal value fits.1 fits.2]

def recordNames : List Text := ["variant","path","line","column","symbol","record","action","kind","mode"].map String.toList

def typeNames : List Text := ["declaredType","canonicalType","typeSymbol","typeKind","typeUsrId","path"].map String.toList

theorem recordNames_plain : recordNames.Nodup ∧ ∀ name ∈ recordNames, Plain name := ⟨by decide,plain_names (by decide)⟩

theorem typeNames_plain : typeNames.Nodup ∧ ∀ name ∈ typeNames, Plain name := ⟨by decide,plain_names (by decide)⟩

theorem functionTypeNames_plain :
    ("position".toList::typeNames).Nodup ∧ ∀ name ∈ "position".toList::typeNames, Plain name :=
  ⟨by decide,plain_names (by decide)⟩

theorem recordMembers_leaves (record : RecordPlace) : ∀ member ∈ recordMembers lib record, Leaf member.2 := by
  simp [recordMembers,leaf_text,leaf_number]

theorem typeMembers_leaves (record : TypePlace) : ∀ member ∈ typeMembers lib record, Leaf member.2 := by
  have digits : Leaf (.string (idString record.typeUsrId)) := .inl ⟨_,rfl⟩
  simp [typeMembers,leaf_text,leaf_number,digits]

theorem record_components (row : RecordRow) (same : ∀ name, Json.get others name = Json.get (recordMembers lib row.toRecordPlace) name) :
    RecordComponents lib others row.toRecordPlace ↔ (PageRow.record row).Placed := by
  have held {i : Nat} {name : String} {value : Json} (here : (recordMembers lib row.toRecordPlace)[i]? = some (name.toList,value)) :
      Json.get others name = some value := (same name).trans (get_member recordNames_plain.1 here)
  have top : (SymbolKind.template.code : Int) < 100 := by decide
  have word : UINT_MAX < 2^63 := by decide
  obtain ⟨lineLow,lineHigh⟩ := row.line_unsigned
  obtain ⟨columnLow,columnHigh⟩ := row.column_unsigned
  obtain ⟨recordLow,recordHigh⟩ := row.record_known
  obtain ⟨actionLow,actionHigh⟩ := row.action_unsigned
  obtain ⟨kindLow,kindHigh⟩ := row.kind_known
  obtain ⟨modeLow,modeHigh⟩ := row.mode_unsigned
  have variant := hasText_iff (held (i := 0) rfl)
  have path := hasText_iff (held (i := 1) rfl)
  have line := fun low high => @hasInteger_iff lib others _ low high _ (held (i := 2) rfl) (by omega)
  have column := fun low high => @hasInteger_iff lib others _ low high _ (held (i := 3) rfl) (by omega)
  have symbol := hasText_iff (held (i := 4) rfl)
  have record := fun low high => @hasInteger_iff lib others _ low high _ (held (i := 5) rfl) (by omega)
  have action := fun low high => @hasInteger_iff lib others _ low high _ (held (i := 6) rfl) (by omega)
  have kind := fun low high => @hasInteger_iff lib others _ low high _ (held (i := 7) rfl) (by omega)
  have mode := fun low high => @hasInteger_iff lib others _ low high _ (held (i := 8) rfl) (by omega)
  constructor
  · intro components
    have lineFirst := components.line.2.1
    have columnFirst := components.column.2.1
    exact ⟨by omega,by omega,variant.mp components.variant,path.mp components.path,symbol.mp components.symbol⟩
  · intro ⟨lineSet,columnSet,validVariant,validPath,validSymbol⟩
    exact {
      variant := variant.mpr validVariant
      path := path.mpr validPath
      symbol := symbol.mpr validSymbol
      line := (line _ _).mpr ⟨by omega,lineHigh⟩
      column := (column _ _).mpr ⟨by omega,columnHigh⟩
      record := (record _ _).mpr ⟨recordLow,recordHigh⟩
      action := (action _ _).mpr ⟨actionLow,actionHigh⟩
      kind := (kind _ _).mpr ⟨kindLow,kindHigh⟩
      mode := (mode _ _).mpr ⟨modeLow,modeHigh⟩}

theorem type_components {place : TypePlace} (known : -1 ≤ place.typeKind ∧ place.typeKind ≤ SymbolKind.template.code)
    (held : ∀ {i : Nat} {name : String} {value : Json}, (typeMembers lib place)[i]? = some (name.toList,value) →
      Json.get others name = some value) :
    TypeComponents lib others place ↔ place.Texts := by
  have top : (SymbolKind.template.code : Int) < 100 := by decide
  have declared := hasText_iff (held (i := 0) rfl)
  have canonical := hasText_iff (held (i := 1) rfl)
  have symbol := hasText_iff (held (i := 2) rfl)
  have kind := fun low high => @hasInteger_iff lib others _ low high _ (held (i := 3) rfl) (by omega)
  have digits : getString others "typeUsrId" = some (idString place.typeUsrId) := by
    rw [getString,held (i := 4) rfl]
  have path := hasText_iff (held (i := 5) rfl)
  constructor
  · intro components
    exact ⟨declared.mp components.declaredType,canonical.mp components.canonicalType,symbol.mp components.typeSymbol,path.mp components.path⟩
  · intro facts
    obtain ⟨validDeclared,validCanonical,validSymbol,validPath⟩ := facts
    exact {
      declaredType := declared.mpr validDeclared
      canonicalType := canonical.mpr validCanonical
      typeSymbol := symbol.mpr validSymbol
      typeKind := (kind _ _).mpr known
      typeUsrId := ⟨_,digits,parseId_idString _⟩
      path := path.mpr validPath}

end Encoding

section Identify
variable {lib : JsonLibrary}

theorem restored_record (row : RecordRow) : Restored lib (.record row) ↔ (PageRow.record row).Placed := by
  have read : ∃ others, Encodes lib (recordCursor lib row.toRecordPlace) others ∧
      ∀ name, Json.get others name = Json.get (recordMembers lib row.toRecordPlace) name :=
    encodes_encodeCursor recordNames_plain.1 recordNames_plain.2 (recordMembers_leaves _)
  obtain ⟨others,encodes,same⟩ := read
  rw [Restored,parseCursor_iff,encodes.only]
  exact record_components row same

theorem restored_type (row : TypeRow) : Restored lib (.symbolType row) ↔ (PageRow.symbolType row).Placed := by
  have read : ∃ others, Encodes lib (typeCursor lib row.toTypePlace) others ∧
      ∀ name, Json.get others name = Json.get (typeMembers lib row.toTypePlace) name :=
    encodes_encodeCursor typeNames_plain.1 typeNames_plain.2 (typeMembers_leaves _)
  obtain ⟨others,encodes,same⟩ := read
  rw [Restored,parseTypeCursor_iff,encodes.only]
  exact type_components row.typeKind_known (fun here => (same _).trans (get_member typeNames_plain.1 here))

theorem restored_functionType (row : FunctionTypeRow) : Restored lib (.functionType row) ↔ (PageRow.functionType row).Placed := by
  let members := ("position".toList,number row.position)::typeMembers lib row.toTypePlace
  have leaves : ∀ member ∈ members, Leaf member.2 :=
    List.forall_mem_cons.mpr ⟨leaf_number _,typeMembers_leaves _⟩
  have read : ∃ others, Encodes lib (functionTypeCursor lib row.toFunctionTypePlace) others ∧
      ∀ name, Json.get others name = Json.get members name :=
    encodes_encodeCursor functionTypeNames_plain.1 functionTypeNames_plain.2 leaves
  obtain ⟨others,encodes,same⟩ := read
  have held {i : Nat} {name : String} {value : Json} (here : members[i]? = some (name.toList,value)) :
      Json.get others name = some value := (same name).trans (get_member functionTypeNames_plain.1 here)
  have known := @type_components lib others row.toTypePlace row.typeKind_known
    (fun {i _ _} here => held (i := i + 1) here)
  have positioned : HasInteger lib others "position" (-1) INT_MAX row.position := by
    obtain ⟨low,high⟩ := row.position_known
    have word : INT_MAX < 2^63 := by decide
    exact (hasInteger_iff (held (i := 0) rfl) (by omega)).mpr row.position_known
  rw [Restored,parseFunctionTypeCursor_iff,encodes.only,PageRow.Placed,← known]
  constructor
  · exact FunctionTypeComponents.types
  · exact fun types => ⟨types,positioned⟩

theorem restored_iff (row : PageRow) : Restored lib row ↔ row.Placed := by
  cases row with
  | record row => exact restored_record row
  | symbolType row => exact restored_type row
  | functionType row => exact restored_functionType row

/-- The cursor of a row gives its key back exactly when the strings of the key are UTF-8
and a record has a line and a column, and nothing but the form of an object with the
components of a key is a cursor. -/
theorem cursors_identify_iff (lib : JsonLibrary) :
    (∀ row, Restored lib row ↔ row.Placed) ∧
    ∀ encoded,
      (∀ place, parseCursor lib encoded = some place ↔ ∃ members, Encodes lib encoded members ∧ RecordComponents lib members place) ∧
      (∀ place, parseTypeCursor lib encoded = some place ↔ ∃ members, Encodes lib encoded members ∧ TypeComponents lib members place) ∧
      ∀ place, parseFunctionTypeCursor lib encoded = some place ↔
        ∃ members, Encodes lib encoded members ∧ FunctionTypeComponents lib members place :=
  ⟨restored_iff,fun _ => ⟨fun _ => parseCursor_iff,fun _ => parseTypeCursor_iff,fun _ => parseFunctionTypeCursor_iff⟩⟩

/-- A place that is out of reach for `parseCursor`: what the parser records for a
location that no file has. -/
def invalidFileUse : RecordRow where
  variant := utf8 "v".toList
  path := utf8 "<invalid>".toList
  symbol := utf8 "foo".toList
  record := 2
  action := 0
  kind := SymbolKind.function.code
  mode := 0
  line := 0
  column := 0
  record_known := by decide
  action_unsigned := ⟨by decide,by decide⟩
  kind_known := by decide
  mode_unsigned := ⟨by decide,by decide⟩
  line_unsigned := ⟨by decide,by decide⟩
  column_unsigned := ⟨by decide,by decide⟩

end Identify

section Calls
open Semindex.Database (Cursor RecordType cursorOf DbRecord)
variable {lib : JsonLibrary} {a b : Cursor}

def placeOf (cursor : Cursor) : RecordPlace where
  variant := utf8 cursor.variant
  path := utf8 cursor.path
  symbol := utf8 cursor.symbol
  record := cursor.record.code
  action := cursor.action
  kind := cursor.kind
  mode := cursor.mode
  line := cursor.line
  column := cursor.column

def serializeCursor (lib : JsonLibrary) (cursor : Cursor) : List UInt8 := lib.serialize (recordMembers lib (placeOf cursor))

theorem text_injective {x y : Text} (same : text lib (utf8 x) = text lib (utf8 y)) : x = y := by
  have texts := Json.string.inj same
  rwa [lib.fixUtf8_valid,lib.fixUtf8_valid] at texts

theorem number_injective {n m : Nat} (same : number n = number m) : n = m :=
  Int.ofNat_inj.mp (signedDecimal_injective (Json.number.inj same))

theorem code_injective {first second : RecordType} (same : first.code = second.code) : first = second := by
  cases first <;> cases second <;> first | rfl | cases same

/-- What the pages of calls ask of the printed keys: they tell the records apart. -/
theorem serializeCursor_injective (same : serializeCursor lib a = serializeCursor lib b) : a = b := by
  obtain ⟨first,parsed,left⟩ := lib.parse_serialize (recordMembers lib (placeOf a)) recordNames_plain.1
    (List.forall_mem_map.mp recordNames_plain.2) (recordMembers_leaves _)
  obtain ⟨second,again,right⟩ := lib.parse_serialize (recordMembers lib (placeOf b)) recordNames_plain.1
    (List.forall_mem_map.mp recordNames_plain.2) (recordMembers_leaves _)
  unfold serializeCursor at same
  rw [same,again] at parsed
  cases parsed
  have held {i : Nat} {name : String} {v w : Json} (here : (recordMembers lib (placeOf a))[i]? = some (name.toList,v))
      (there : (recordMembers lib (placeOf b))[i]? = some (name.toList,w)) : v = w := by
    have one := (left name).trans (get_member recordNames_plain.1 here)
    have two := (right name).trans (get_member recordNames_plain.1 there)
    exact Option.some.inj (one.symm.trans two)
  have variant := text_injective (held (i := 0) rfl rfl)
  have path := text_injective (held (i := 1) rfl rfl)
  have line := number_injective (held (i := 2) rfl rfl)
  have column := number_injective (held (i := 3) rfl rfl)
  have symbol := text_injective (held (i := 4) rfl rfl)
  have record := code_injective (number_injective (held (i := 5) rfl rfl))
  have action := number_injective (held (i := 6) rfl rfl)
  have kind := number_injective (held (i := 7) rfl rfl)
  have mode := number_injective (held (i := 8) rfl rfl)
  cases a
  cases b
  rw [Cursor.mk.injEq]
  exact ⟨variant,path,symbol,record,kind,action,mode,line,column⟩

-- nothing is no JSON text
theorem serializeCursor_filled (empty : lib.parse [] = none) (cursor : Cursor) : serializeCursor lib cursor ≠ [] := by
  intro none
  obtain ⟨_,parsed,_⟩ := lib.parse_serialize (recordMembers lib (placeOf cursor)) recordNames_plain.1
    (List.forall_mem_map.mp recordNames_plain.2) (recordMembers_leaves _)
  unfold serializeCursor at none
  rw [none,empty] at parsed
  cases parsed

/-- The key of a record with a line and a column. -/
structure InRange (cursor : Cursor) : Prop where
  action : cursor.action < 2^32
  kind : cursor.kind ≤ SymbolKind.template.code
  mode : cursor.mode < 2^32
  line : 0 < cursor.line ∧ cursor.line < 2^32
  column : 0 < cursor.column ∧ cursor.column < 2^32

theorem code_known (record : RecordType) : (0 : Int) ≤ record.code ∧ (record.code : Int) ≤ 2 := by
  cases record <;> decide

theorem InRange.parsed (known : InRange a) : parseCursor lib (recordCursor lib (placeOf a)) = some (placeOf a) := by
  obtain ⟨action,kind,mode,⟨lineSet,line⟩,⟨columnSet,column⟩⟩ := known
  have unsigned {n : Nat} (small : n < 2^32) : Unsigned n := ⟨Int.natCast_nonneg n,by unfold UINT_MAX; omega⟩
  let row : RecordRow := {
    placeOf a with
    record_known := code_known a.record
    action_unsigned := unsigned action
    kind_known := ⟨Int.natCast_nonneg _,Int.ofNat_le.mpr kind⟩
    mode_unsigned := unsigned mode
    line_unsigned := unsigned line
    column_unsigned := unsigned column}
  have placed : (PageRow.record row).Placed :=
    ⟨Int.natCast_ne_zero.mpr lineSet.ne',Int.natCast_ne_zero.mpr columnSet.ne',⟨_,rfl⟩,⟨_,rfl⟩,⟨_,rfl⟩⟩
  exact (restored_record row).mpr placed

end Calls

section Library

def spelling : Json → Text
  | .string text => CommandDb.quoted text
  | .number value => value
  | _ => []

def serialized (members : List (Text × Json)) : Text :=
  objectText (members.map (fun member => (member.1,spelling member.2,member.2)))

def readDecimal (spelling : Text) : Option Int :=
  let value : Int := match spelling with
    | '-'::digits => -(Nat.ofDigitChars 10 digits 0 : Int)
    | digits => Nat.ofDigitChars 10 digits 0
  if signedDecimal value = spelling ∧ -2^63 ≤ value ∧ value < 2^63 then some value else none

theorem readDecimal_decimal (n : Int) (low : -2^63 ≤ n) (high : n < 2^63) : readDecimal (signedDecimal n) = some n := by
  obtain ⟨d,ds,same,_⟩ := toDigits_head n.natAbs
  have digit : isDigit d = true := isDigit_digits (n := n.natAbs) (same ▸ List.mem_cons_self)
  have value : (match signedDecimal n with
      | '-'::digits => -(Nat.ofDigitChars 10 digits 0 : Int)
      | digits => (Nat.ofDigitChars 10 digits 0 : Int)) = n := by
    unfold signedDecimal decimal
    by_cases negative : n < 0
    · simp only [if_pos negative,Nat.ofDigitChars_ten_toDigits]
      rw [Int.ofNat_natAbs_of_nonpos negative.le,Int.neg_neg]
    · rw [if_neg negative]
      split
      · rename_i split
        rw [same] at split
        rw [(List.cons.inj split).1] at digit
        exact absurd digit (by decide)
      · rw [Nat.ofDigitChars_ten_toDigits,Int.natAbs_of_nonneg (not_lt.mp negative)]
  unfold readDecimal
  dsimp only
  rw [value,if_pos ⟨rfl,low,high⟩]

theorem reads_leaf {value : Json} (leaf : Leaf value) : ReadsInside (spelling value) value := by
  obtain ⟨text,rfl⟩ | ⟨n,rfl⟩ := leaf
  · exact (CommandDb.reads_quoted text).inside
  · change ReadsInside (signedDecimal n) (.number (signedDecimal n))
    unfold signedDecimal decimal
    split_ifs
    · exact reads_negative _
    · exact reads_digits _

theorem reads_serialized {members : List (Text × Json)} (plain : ∀ member ∈ members, Plain member.1)
    (leaves : ∀ member ∈ members, Leaf member.2) : readBytes (utf8 (serialized members)) = some (.object members) := by
  have reads : Reads (serialized members) (.object members) := by
    cases members with
    | nil =>
      intro fuel rest enough
      obtain ⟨fuel,rfl⟩ := Nat.exists_eq_succ_of_ne_zero (show fuel ≠ 0 by intro none; simp [none,serialized,objectText] at enough)
      rfl
    | cons member members =>
      have filled : (member::members).map (fun member => (member.1,spelling member.2,member.2)) ≠ [] := by simp
      have read := reads_objectText filled (List.forall_mem_map.mpr plain)
        (List.forall_mem_map.mpr (fun member held => reads_leaf (leaves member held)))
      rw [List.map_map,show (fun part : Text × Text × Json => (part.1,part.2.2)) ∘
        (fun member : Text × Json => (member.1,spelling member.2,member.2)) = id from rfl,List.map_id] at read
      exact read
  exact readBytes_reads reads

/-- A library that writes no white space, and one replacement character for strings that
are not UTF-8. -/
def plainLibrary : JsonLibrary where
  fixUtf8 bytes := (decodeUtf8 bytes).getD [Char.ofNat 0xfffd]
  serialize members := utf8 (serialized members)
  parse := readBytes
  integer := readDecimal
  fixUtf8_valid text := by rw [decode_utf8,Option.getD_some]
  parse_serialize members _ plain leaves := ⟨members,reads_serialized plain leaves,fun _ => rfl⟩
  integer_decimal := readDecimal_decimal

/-- The cursor of a use without a line is refused. -/
theorem invalid_file_cursor_refused : ¬ Restored plainLibrary (.record invalidFileUse) := by
  intro restored
  exact ((restored_record invalidFileUse).mp restored).1 rfl

end Library

end Semindex.Mcp.Cursors
