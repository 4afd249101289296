import Semindex.Support.Utf8
import Semindex.Support.Delimited
import Mathlib.Data.List.TakeWhile

/-! A reader of JSON texts (RFC 8259) and its rules: how texts that are read make
up larger ones. Numbers are kept as they are spelled, and a surrogate stands only
in a pair. -/
namespace Semindex

inductive Json
  | null
  | boolean (value : Bool)
  | number (spelling : Text)
  | string (text : Text)
  | array (items : List Json)
  | object (members : List (Text × Json))

namespace Json

section Strings

def hexDigit (c : Char) : Option Nat :=
  if '0' ≤ c ∧ c ≤ '9' then some (c.toNat - 48)
  else if 'a' ≤ c ∧ c ≤ 'f' then some (c.toNat - 87)
  else if 'A' ≤ c ∧ c ≤ 'F' then some (c.toNat - 55)
  else none

-- the unit of UTF-16 that four digits spell
def hexUnit (a b c d : Char) : Option Nat := do
  let a ← hexDigit a
  let b ← hexDigit b
  let c ← hexDigit c
  let d ← hexDigit d
  some (((a * 16 + b) * 16 + c) * 16 + d)

def unescape (c : Char) : Option Char :=
  if c = '"' ∨ c = '\\' ∨ c = '/' then some c
  else if c = 'b' then some (Char.ofNat 8)
  else if c = 'f' then some (Char.ofNat 12)
  else if c = 'n' then some '\n'
  else if c = 'r' then some '\r'
  else if c = 't' then some '\t'
  else none

def before (c : Char) (read : Option (Text × Text)) : Option (Text × Text) := read.map (fun (text,rest) => (c::text,rest))

-- behind the opening quotation mark
def readString : Text → Option (Text × Text)
  | [] => none
  | c::rest =>
    if c = '"' then some ([],rest)
    else if c.toNat < 0x20 then none
    else if c ≠ '\\' then before c (readString rest)
    else match rest with
      | [] => none
      | e::rest =>
        if e ≠ 'u' then (unescape e).bind (fun c => before c (readString rest))
        else match rest with
          | a::b::c::d::rest =>
            (hexUnit a b c d).bind (fun unit =>
              if unit < 0xd800 ∨ 0xdfff < unit then before (Char.ofNat unit) (readString rest)
              else if 0xdbff < unit then none
              else match rest with
                | '\\' :: 'u' :: a::b::c::d::rest =>
                  (hexUnit a b c d).bind (fun low =>
                    if 0xdc00 ≤ low ∧ low ≤ 0xdfff then
                      before (Char.ofNat (0x10000 + (unit - 0xd800) * 0x400 + (low - 0xdc00))) (readString rest)
                    else none)
                | _ => none)
          | _ => none

end Strings

section Numbers

def isDigit (c : Char) : Bool := '0' ≤ c ∧ c ≤ '9'

-- one digit or more, and what follows
def readDigits (text : Text) : Option (Text × Text) :=
  if (text.takeWhile isDigit) = [] then none else some (text.takeWhile isDigit,text.dropWhile isDigit)

def readInteger : Text → Option (Text × Text)
  | '0'::rest => some (['0'],rest)
  | text => readDigits text

def readFraction : Text → Option (Text × Text)
  | '.'::rest => before '.' (readDigits rest)
  | text => some ([],text)

def readExponent : Text → Option (Text × Text)
  | e::rest =>
    if e = 'e' ∨ e = 'E' then
      match rest with
      | s::more => if s = '+' ∨ s = '-' then before e (before s (readDigits more)) else before e (readDigits rest)
      | [] => none
    else some ([],e::rest)
  | [] => some ([],[])

def readNumber (text : Text) : Option (Text × Text) := do
  let (sign,text) := match text with
    | '-'::rest => (['-'],rest)
    | text => ([],text)
  let (whole,text) ← readInteger text
  let (fraction,text) ← readFraction text
  let (exponent,text) ← readExponent text
  some (sign ++ whole ++ fraction ++ exponent,text)

end Numbers

section Values

def isSpace (c : Char) : Bool := c = ' ' ∨ c = '\t' ∨ c = '\n' ∨ c = '\r'

def skipSpace (text : Text) : Text := text.dropWhile isSpace

def literal (word : String) (value : Json) (text : Text) : Option (Json × Text) :=
  if word.toList.isPrefixOf text then some (value,text.drop word.length) else none

def readPlain (text : Text) : Option (Json × Text) :=
  (literal "null" .null text).or ((literal "true" (.boolean true) text).or
    ((literal "false" (.boolean false) text).or ((readNumber text).map (fun (spelling,rest) => (.number spelling,rest)))))

mutual

def readValue : Nat → Text → Option (Json × Text)
  | 0, _ => none
  | fuel+1, text =>
    match skipSpace text with
    | '"'::rest => (readString rest).map (fun (text,rest) => (.string text,rest))
    | '['::rest =>
      match skipSpace rest with
      | ']'::rest => some (.array [],rest)
      | _ => (readItems fuel rest).map (fun (items,rest) => (.array items,rest))
    | '{'::rest =>
      match skipSpace rest with
      | '}'::rest => some (.object [],rest)
      | _ => (readMembers fuel rest).map (fun (members,rest) => (.object members,rest))
    | rest => readPlain rest

def readItems : Nat → Text → Option (List Json × Text)
  | 0, _ => none
  | fuel+1, text =>
    (readValue fuel text).bind (fun (value,rest) =>
      match skipSpace rest with
      | ','::rest => (readItems fuel rest).map (fun (items,rest) => (value::items,rest))
      | ']'::rest => some ([value],rest)
      | _ => none)

def readMembers : Nat → Text → Option (List (Text × Json) × Text)
  | 0, _ => none
  | fuel+1, text =>
    match skipSpace text with
    | '"'::rest =>
      (readString rest).bind (fun (name,rest) =>
        match skipSpace rest with
        | ':'::rest =>
          (readValue fuel rest).bind (fun (value,rest) =>
            match skipSpace rest with
            | ','::rest => (readMembers fuel rest).map (fun (members,rest) => ((name,value)::members,rest))
            | '}'::rest => some ([(name,value)],rest)
            | _ => none)
        | _ => none)
    | _ => none

end

def readText (text : Text) : Option Json :=
  (readValue (2 * text.length) text).bind (fun (value,rest) => if skipSpace rest = [] then some value else none)

-- strict about UTF-8
def readBytes (bytes : List UInt8) : Option Json := (decodeUtf8 bytes).bind readText

end Values
section Spelling
variable {c e : Char} {text rest : Text} {spell : Char → Text}

/-- The spelling of a character in a string. -/
def Spells (spelling : Text) (c : Char) : Prop := ∀ rest, readString (spelling ++ rest) = before c (readString rest)

theorem spells_plain (quote : c ≠ '"') (escape : c ≠ '\\') (printed : 0x20 ≤ c.toNat) : Spells [c] c := by
  intro rest
  rw [List.singleton_append,readString.eq_def]
  dsimp only
  rw [if_neg quote,if_neg (by omega),if_pos escape]

theorem spells_escape (plain : e ≠ 'u') (known : unescape e = some c) : Spells ['\\',e] c := by
  intro rest
  rw [List.cons_append,List.singleton_append,readString.eq_def]
  dsimp only
  rw [if_neg (by decide),if_neg (by decide),if_neg (by decide),if_pos plain,known,Option.bind_some]

theorem spells_unit {a b c d : Char} {unit : Nat} (known : hexUnit a b c d = some unit) (low : unit < 0xd800) :
    Spells ['\\','u',a,b,c,d] (Char.ofNat unit) := by
  intro rest
  simp only [List.cons_append,List.nil_append]
  rw [readString.eq_def]
  dsimp only
  rw [if_neg (by decide),if_neg (by decide),if_neg (by decide),if_neg (by decide)]
  rw [known,Option.bind_some,if_pos (.inl low)]

theorem readString_spelled (spelled : ∀ c ∈ text, Spells (spell c) c) (rest : Text) :
    readString (text.flatMap spell ++ '"'::rest) = some (text,rest) := by
  induction text with
  | nil =>
    rw [List.flatMap_nil,List.nil_append,readString.eq_def]
    simp
  | cons c text ih =>
    rw [List.flatMap_cons,List.append_assoc,spelled c List.mem_cons_self,
      ih (fun other member => spelled other (List.mem_cons_of_mem _ member))]
    rfl

end Spelling

section Rules
variable {space text more : Text} {value : Json} {items : List Json} {members : List (Text × Json)}

def Spaces (space : Text) : Prop := ∀ c ∈ space, isSpace c

theorem skipSpace_append (spaces : Spaces space) (text : Text) : skipSpace (space ++ text) = skipSpace text :=
  List.dropWhile_append_of_pos spaces

theorem skipSpace_cons {c : Char} (printed : isSpace c = false) (rest : Text) : skipSpace (c::rest) = c::rest := by
  simp [skipSpace,printed]

theorem skipSpace_to {c : Char} (spaces : Spaces space) (printed : isSpace c = false) (rest : Text) :
    skipSpace (space ++ c::rest) = c::rest := by rw [skipSpace_append spaces,skipSpace_cons printed]

/-- The text of a value, whatever follows it. -/
def Reads (text : Text) (value : Json) : Prop :=
  ∀ fuel rest, 2 * text.length ≤ fuel → readValue fuel (text ++ rest) = some (value,rest)

-- with the bracket that closes the array, and the brace that closes the object
def ReadsItems (text : Text) (items : List Json) : Prop :=
  ∀ fuel rest, 2 * text.length ≤ fuel → readItems fuel (text ++ rest) = some (items,rest)

def ReadsMembers (text : Text) (members : List (Text × Json)) : Prop :=
  ∀ fuel rest, 2 * text.length ≤ fuel → readMembers fuel (text ++ rest) = some (members,rest)

-- the name of a member with its quotation marks
def ReadsName (text name : Text) : Prop :=
  ∀ rest, ∃ body, skipSpace (text ++ rest) = '"'::body ∧ readString body = some (name,rest)

theorem readValue_space (spaces : Spaces space) (fuel : Nat) (text : Text) :
    readValue fuel (space ++ text) = readValue fuel text := by
  cases fuel with
  | zero => rfl
  | succ fuel => rw [readValue,readValue,skipSpace_append spaces]

theorem readValue_string (fuel : Nat) (rest : Text) :
    readValue (fuel+1) ('"'::rest) = (readString rest).map (fun (text,rest) => (.string text,rest)) := by
  rw [readValue,skipSpace_cons (by decide)]
  rfl

-- what follows an opening bracket is no closing one where an item is read
theorem readValue_close {fuel : Nat} {rest : Text} (closes : skipSpace text = ']'::rest) : readValue fuel text = none := by
  cases fuel with
  | zero => rfl
  | succ fuel =>
    rw [readValue,closes]
    rfl

theorem readValue_items {fuel : Nat} {rest : Text} (read : readItems fuel text = some (items,rest)) :
    readValue (fuel+1) ('['::text) = some (.array items,rest) := by
  have opened : readValue (fuel+1) ('['::text) = match skipSpace text with
      | ']'::rest => some (.array [],rest)
      | _ => (readItems fuel text).map (fun (items,rest) => (.array items,rest)) := by
    rw [readValue,skipSpace_cons (by decide)]
    rfl
  rw [opened]
  split
  · rename_i closes
    cases fuel with
    | zero => cases read
    | succ fuel =>
      rw [readItems,readValue_close closes] at read
      cases read
  · rw [read]
    rfl

theorem readMembers_close {fuel : Nat} {rest : Text} (closes : skipSpace text = '}'::rest) :
    readMembers fuel text = none := by
  cases fuel with
  | zero => rfl
  | succ fuel =>
    rw [readMembers,closes]
    rfl

theorem readValue_members {fuel : Nat} {rest : Text} (read : readMembers fuel text = some (members,rest)) :
    readValue (fuel+1) ('{'::text) = some (.object members,rest) := by
  have opened : readValue (fuel+1) ('{'::text) = match skipSpace text with
      | '}'::rest => some (.object [],rest)
      | _ => (readMembers fuel text).map (fun (members,rest) => (.object members,rest)) := by
    rw [readValue,skipSpace_cons (by decide)]
    rfl
  rw [opened]
  split
  · rename_i closes
    rw [readMembers_close closes] at read
    cases read
  · rw [read]
    rfl

theorem Reads.behind (spaces : Spaces space) (reads : Reads text value) : Reads (space ++ text) value := by
  intro fuel rest enough
  rw [List.append_assoc,readValue_space spaces]
  exact reads fuel rest (by rw [List.length_append] at enough; omega)

theorem reads_string {spell : Char → Text} (spelled : ∀ c ∈ text, Spells (spell c) c) :
    Reads ('"'::text.flatMap spell ++ ['"']) (.string text) := by
  intro fuel rest enough
  have positive : fuel ≠ 0 := by
    intro none
    simp [none] at enough
  obtain ⟨fuel,rfl⟩ := Nat.exists_eq_succ_of_ne_zero positive
  rw [List.append_assoc,List.cons_append,readValue_string,List.singleton_append,readString_spelled spelled]
  rfl

theorem readsName_string {spell : Char → Text} (spaces : Spaces space) (spelled : ∀ c ∈ text, Spells (spell c) c) :
    ReadsName (space ++ '"'::text.flatMap spell ++ ['"']) text := by
  intro rest
  refine ⟨_,?_,readString_spelled spelled rest⟩
  rw [List.append_assoc,List.append_assoc,skipSpace_append spaces,List.cons_append,skipSpace_cons (by decide)]
  rfl

theorem readsItems_last (reads : Reads text value) (spaces : Spaces space) : ReadsItems (text ++ (space ++ [']'])) [value] := by
  intro fuel rest enough
  simp only [List.length_append,List.length_singleton] at enough
  obtain ⟨fuel,rfl⟩ := Nat.exists_eq_succ_of_ne_zero (show fuel ≠ 0 by omega)
  rw [readItems,List.append_assoc,reads fuel _ (by omega),Option.bind_some,List.append_assoc,List.singleton_append]
  dsimp only
  rw [skipSpace_to spaces (by decide)]
  rfl

theorem readsItems_cons (reads : Reads text value) (spaces : Spaces space) (others : ReadsItems more items) :
    ReadsItems (text ++ (space ++ ','::more)) (value::items) := by
  intro fuel rest enough
  simp only [List.length_append,List.length_cons] at enough
  obtain ⟨fuel,rfl⟩ := Nat.exists_eq_succ_of_ne_zero (show fuel ≠ 0 by omega)
  rw [readItems,List.append_assoc,reads fuel _ (by omega),Option.bind_some,List.append_assoc,List.cons_append]
  dsimp only
  rw [skipSpace_to spaces (by decide)]
  exact congrArg (Option.map _) (others fuel rest (by omega))

theorem reads_array (reads : ReadsItems text items) : Reads ('['::text) (.array items) := by
  intro fuel rest enough
  rw [List.length_cons] at enough
  obtain ⟨fuel,rfl⟩ := Nat.exists_eq_succ_of_ne_zero (show fuel ≠ 0 by omega)
  exact readValue_items (reads fuel rest (by omega))

theorem reads_nothing (spaces : Spaces space) : Reads ('['::(space ++ [']'])) (.array []) := by
  intro fuel rest enough
  rw [List.length_cons] at enough
  obtain ⟨fuel,rfl⟩ := Nat.exists_eq_succ_of_ne_zero (show fuel ≠ 0 by omega)
  rw [List.cons_append,readValue,skipSpace_cons (by decide)]
  have closes : skipSpace (space ++ [']'] ++ rest) = ']'::rest := by
    rw [List.append_assoc,List.singleton_append,skipSpace_to spaces (by decide)]
  change (match skipSpace (space ++ [']'] ++ rest) with
    | ']'::rest => some (Json.array [],rest)
    | _ => _) = _
  rw [closes]
  rfl

theorem reads_object (reads : ReadsMembers text members) : Reads ('{'::text) (.object members) := by
  intro fuel rest enough
  rw [List.length_cons] at enough
  obtain ⟨fuel,rfl⟩ := Nat.exists_eq_succ_of_ne_zero (show fuel ≠ 0 by omega)
  exact readValue_members (reads fuel rest (by omega))

variable {left right opening closing : Text} {parts : List (Text × Json)}

theorem readsItems_listed (leftSpaces : Spaces left) (rightSpaces : Spaces right) (closingSpaces : Spaces closing)
    (reads : Reads text value) (others : ∀ part ∈ parts, Reads part.1 part.2) :
    ReadsItems (text ++ (Delimited.listed (left ++ ','::right) false (parts.map Prod.fst) ++ (closing ++ [']'])))
      (value::parts.map Prod.snd) := by
  induction parts generalizing text value with
  | nil => exact readsItems_last reads closingSpaces
  | cons part parts ih =>
    have next := (others part List.mem_cons_self).behind rightSpaces
    have rest := readsItems_cons reads leftSpaces (ih next (fun other member => others other (List.mem_cons_of_mem _ member)))
    simpa [Delimited.listed] using rest

/-- An array of texts that are read, with white space around the commas and inside the brackets. -/
theorem reads_listed (leftSpaces : Spaces left) (rightSpaces : Spaces right) (openingSpaces : Spaces opening)
    (closingSpaces : Spaces closing) (reads : ∀ part ∈ parts, Reads part.1 part.2) :
    Reads ('['::(opening ++ (Delimited.listed (left ++ ','::right) true (parts.map Prod.fst) ++ (closing ++ [']']))))
      (.array (parts.map Prod.snd)) := by
  cases parts with
  | nil =>
    have spaces : Spaces (opening ++ closing) := fun c member =>
      (List.mem_append.mp member).elim (openingSpaces c) (closingSpaces c)
    simpa [Delimited.listed] using reads_nothing spaces
  | cons part parts =>
    have first := (reads part List.mem_cons_self).behind openingSpaces
    have items := readsItems_listed leftSpaces rightSpaces closingSpaces first
      (fun other member => reads other (List.mem_cons_of_mem _ member))
    simpa [Delimited.listed] using reads_array items

variable {name label : Text}

theorem readsMembers_last (named : ReadsName label name) (reads : Reads text value) (spaces : Spaces space) :
    ReadsMembers (label ++ ':'::(text ++ (space ++ ['}']))) [(name,value)] := by
  intro fuel rest enough
  simp only [List.length_append,List.length_cons] at enough
  obtain ⟨fuel,rfl⟩ := Nat.exists_eq_succ_of_ne_zero (show fuel ≠ 0 by omega)
  obtain ⟨body,opened,read⟩ := named (':'::(text ++ (space ++ ('}'::rest))))
  have whole : label ++ ':'::(text ++ (space ++ ['}'])) ++ rest = label ++ ':'::(text ++ (space ++ '}'::rest)) := by simp
  rw [readMembers,whole,opened]
  change (readString body).bind _ = _
  rw [read,Option.bind_some]
  dsimp only
  rw [skipSpace_cons (by decide)]
  change (readValue fuel (text ++ (space ++ '}'::rest))).bind _ = _
  rw [reads fuel _ (by omega),Option.bind_some]
  dsimp only
  rw [skipSpace_to spaces (by decide)]
  rfl

theorem readsMembers_cons (named : ReadsName label name) (reads : Reads text value) (spaces : Spaces space)
    (others : ReadsMembers more members) :
    ReadsMembers (label ++ ':'::(text ++ (space ++ ','::more))) ((name,value)::members) := by
  intro fuel rest enough
  simp only [List.length_append,List.length_cons] at enough
  obtain ⟨fuel,rfl⟩ := Nat.exists_eq_succ_of_ne_zero (show fuel ≠ 0 by omega)
  obtain ⟨body,opened,read⟩ := named (':'::(text ++ (space ++ (','::(more ++ rest)))))
  have whole : label ++ ':'::(text ++ (space ++ ','::more)) ++ rest =
      label ++ ':'::(text ++ (space ++ ','::(more ++ rest))) := by simp
  rw [readMembers,whole,opened]
  change (readString body).bind _ = _
  rw [read,Option.bind_some]
  dsimp only
  rw [skipSpace_cons (by decide)]
  change (readValue fuel (text ++ (space ++ ','::(more ++ rest)))).bind _ = _
  rw [reads fuel _ (by omega),Option.bind_some]
  dsimp only
  rw [skipSpace_to spaces (by decide)]
  exact congrArg (Option.map _) (others fuel rest (by omega))

/-- A text is a value with white space behind it. -/
theorem readText_reads (reads : Reads text value) (spaces : Spaces space) : readText (text ++ space) = some value := by
  have none : skipSpace space = [] := List.dropWhile_eq_nil_iff.mpr spaces
  rw [readText,reads _ space (by rw [List.length_append]; omega),Option.bind_some]
  simp [none]

end Rules

section Members

/-- The member of an object by its name; the last one where the text has several. -/
def get (members : List (Text × Json)) (name : String) : Option Json :=
  (members.reverse.find? (fun member => member.1 = name.toList)).map Prod.snd

def getString (members : List (Text × Json)) (name : String) : Option Text :=
  match get members name with
  | some (.string text) => some text
  | _ => none

def getObject (members : List (Text × Json)) (name : String) : Option (List (Text × Json)) :=
  match get members name with
  | some (.object members) => some members
  | _ => none

def getArray (members : List (Text × Json)) (name : String) : Option (List Json) :=
  match get members name with
  | some (.array items) => some items
  | _ => none

def getBoolean (members : List (Text × Json)) (name : String) : Option Bool :=
  match get members name with
  | some (.boolean value) => some value
  | _ => none

end Members
end Json
end Semindex
