import Semindex.Support.Json
import Mathlib.Data.List.Nodup
import Mathlib.Data.Nat.Digits.Defs

/-! Values behind which a container goes on or ends: words and decimal numbers,
and objects whose members are written one after the other without white space. -/
namespace Semindex.Json

section Closed
variable {text : Text} {value : Json} {c : Char}

theorem readBytes_reads (reads : Reads text value) : readBytes (utf8 text) = some value := by
  have nothing : Spaces [] := fun _ member => absurd member List.not_mem_nil
  have whole := readText_reads reads nothing
  rw [List.append_nil] at whole
  rw [readBytes,decode_utf8,Option.bind_some,whole]

-- what stands behind a value in a container
def Closes (c : Char) : Prop := c = ',' ∨ c = '\x7d' ∨ c = ']'

/-- The text of a value inside a container. -/
def ReadsInside (text : Text) (value : Json) : Prop :=
  ∀ c, Closes c → ∀ fuel rest, 2 * text.length ≤ fuel → readValue fuel (text ++ c::rest) = some (value,c::rest)

theorem Reads.inside (reads : Reads text value) : ReadsInside text value := fun _ _ fuel _ enough => reads fuel _ enough

theorem ReadsInside.behind {space : Text} (spaces : Spaces space) (reads : ReadsInside text value) :
    ReadsInside (space ++ text) value := by
  intro c closes fuel rest enough
  rw [List.append_assoc,readValue_space spaces]
  exact reads c closes fuel rest (by rw [List.length_append] at enough; omega)

theorem reads_null : Reads "null".toList .null := by
  intro fuel rest enough
  obtain ⟨fuel,rfl⟩ := Nat.exists_eq_succ_of_ne_zero (show fuel ≠ 0 by intro none; simp [none] at enough)
  rfl

def ofBoolean (value : Bool) : Text := if value then "true".toList else "false".toList

theorem reads_boolean (value : Bool) : Reads (ofBoolean value) (.boolean value) := by
  intro fuel rest enough
  obtain ⟨fuel,rfl⟩ := Nat.exists_eq_succ_of_ne_zero (show fuel ≠ 0 by intro none; cases value <;> simp [none,ofBoolean] at enough)
  cases value <;> rfl

end Closed

section Decimal
variable {n : Nat} {c : Char}

theorem isDigit_digits (member : c ∈ Nat.toDigits 10 n) : isDigit c = true := by
  have digit := Nat.isDigit_of_mem_toDigits (by decide) (by decide) member
  simpa [Char.isDigit,isDigit,Char.le_def] using digit

/-- Only zero starts with the digit zero. -/
theorem toDigits_head (n : Nat) : ∃ d ds, Nat.toDigits 10 n = d::ds ∧ (d = '0' → n = 0 ∧ ds = []) := by
  induction n using Nat.strong_induction_on with
  | _ n ih =>
    by_cases small : n < 10
    · refine ⟨n.digitChar,[],Nat.toDigits_of_lt_base small,fun zero => ⟨?_,rfl⟩⟩
      have every : ∀ n < 10, n.digitChar = '0' → n = 0 := by decide
      exact every n small zero
    · obtain ⟨d,ds,same,head⟩ := ih (n / 10) (by omega)
      refine ⟨d,ds ++ [Nat.digitChar (n % 10)],?_,fun zero => ?_⟩
      · rw [Nat.toDigits_of_base_le (by decide) (by omega),same]
        rfl
      · have none := (head zero).1
        omega

theorem Closes.plain (closes : Closes c) : isDigit c = false ∧ c ≠ '.' ∧ c ≠ 'e' ∧ c ≠ 'E' := by
  rcases closes with rfl | rfl | rfl <;> decide

theorem Closes.integral (closes : Closes c) (rest : Text) :
    readFraction (c::rest) = some ([],c::rest) ∧ readExponent (c::rest) = some ([],c::rest) := by
  constructor
  · unfold readFraction
    split
    · rename_i split
      exact absurd (List.cons.inj split).1 closes.plain.2.1
    · rfl
  · unfold readExponent
    exact if_neg (not_or.mpr closes.plain.2.2)

theorem readInteger_digits (n : Nat) (closes : Closes c) (rest : Text) :
    readInteger (Nat.toDigits 10 n ++ c::rest) = some (Nat.toDigits 10 n,c::rest) := by
  obtain ⟨d,ds,same,head⟩ := toDigits_head n
  have digits : ∀ x ∈ d::ds, isDigit x = true := fun x member => isDigit_digits (n := n) (same ▸ member)
  have other := closes.plain.1
  rw [same]
  by_cases zero : d = '0'
  · rw [zero,(head zero).2]
    rfl
  · have whole : readInteger (d::ds ++ c::rest) = readDigits (d::ds ++ c::rest) := by
      rw [List.cons_append]
      unfold readInteger
      split
      · rename_i split
        exact absurd (List.cons.inj split).1 zero
      · rfl
    have taken : (d::ds ++ c::rest).takeWhile isDigit = d::ds := by
      rw [List.takeWhile_append_of_pos digits,List.takeWhile_cons_of_neg (by simp [other]),List.append_nil]
    have dropped : (d::ds ++ c::rest).dropWhile isDigit = c::rest := by
      rw [List.dropWhile_append_of_pos digits,List.dropWhile_cons_of_neg (by simp [other])]
    rw [whole,readDigits,taken,dropped]
    rfl

theorem readNumber_digits (n : Nat) (closes : Closes c) (rest : Text) :
    readNumber (Nat.toDigits 10 n ++ c::rest) = some (Nat.toDigits 10 n,c::rest) := by
  obtain ⟨d,ds,same,_⟩ := toDigits_head n
  have digit : isDigit d = true := isDigit_digits (n := n) (same ▸ List.mem_cons_self)
  have whole := readInteger_digits n closes rest
  obtain ⟨fraction,exponent⟩ := closes.integral rest
  rw [same,List.cons_append] at whole ⊢
  unfold readNumber
  split
  rename_i sign text signed
  split at signed
  · rename_i split
    rw [(List.cons.inj split).1] at digit
    exact absurd digit (by decide)
  · cases signed
    simp [whole,fraction,exponent]

/-- A minus may stand in front. -/
theorem readNumber_negative (n : Nat) (closes : Closes c) (rest : Text) :
    readNumber ('-'::(Nat.toDigits 10 n ++ c::rest)) = some ('-'::Nat.toDigits 10 n,c::rest) := by
  obtain ⟨fraction,exponent⟩ := closes.integral rest
  unfold readNumber
  simp [readInteger_digits n closes rest,fraction,exponent]

theorem readPlain_digits (n : Nat) (closes : Closes c) (rest : Text) :
    readPlain (Nat.toDigits 10 n ++ c::rest) = some (.number (Nat.toDigits 10 n),c::rest) := by
  have number := readNumber_digits n closes rest
  obtain ⟨d,ds,same,_⟩ := toDigits_head n
  have digit : isDigit d = true := isDigit_digits (n := n) (same ▸ List.mem_cons_self)
  have other (e : Char) (letter : isDigit e = false) : (e == d) = false := by
    refine beq_false_of_ne (fun same => ?_)
    rw [same,digit] at letter
    cases letter
  unfold readPlain
  rw [number,same]
  simp [literal,List.isPrefixOf,other 'n' (by decide),other 't' (by decide),other 'f' (by decide)]

/-- A decimal number is read up to what closes it. -/
theorem reads_digits (n : Nat) : ReadsInside (Nat.toDigits 10 n) (.number (Nat.toDigits 10 n)) := by
  intro c closes fuel rest enough
  have read := readPlain_digits n closes rest
  obtain ⟨d,ds,same,_⟩ := toDigits_head n
  have digit : isDigit d = true := isDigit_digits (n := n) (same ▸ List.mem_cons_self)
  have other (e : Char) (mark : isDigit e = false) : d ≠ e := by
    intro same
    rw [same,mark] at digit
    cases digit
  have printed : isSpace d = false := by
    simp [isSpace,other ' ' (by decide),other '\t' (by decide),other '\n' (by decide),other '\r' (by decide)]
  obtain ⟨fuel,rfl⟩ := Nat.exists_eq_succ_of_ne_zero (show fuel ≠ 0 by intro none; rw [same] at enough; simp [none] at enough)
  rw [same,List.cons_append] at read ⊢
  rw [readValue,skipSpace_cons printed]
  split
  · rename_i split
    exact absurd (List.cons.inj split).1 (other '"' (by decide))
  · rename_i split
    exact absurd (List.cons.inj split).1 (other '[' (by decide))
  · rename_i split
    exact absurd (List.cons.inj split).1 (other '\x7b' (by decide))
  · exact read

theorem reads_negative (n : Nat) : ReadsInside ('-'::Nat.toDigits 10 n) (.number ('-'::Nat.toDigits 10 n)) := by
  intro c closes fuel rest enough
  have read := readNumber_negative n closes rest
  obtain ⟨fuel,rfl⟩ := Nat.exists_eq_succ_of_ne_zero (show fuel ≠ 0 by intro none; simp [none] at enough)
  rw [List.cons_append,readValue,skipSpace_cons (by decide)]
  change readPlain ('-'::(Nat.toDigits 10 n ++ c::rest)) = _
  unfold readPlain
  rw [read]
  rfl

end Decimal

section Objects
variable {parts : List (Text × Text × Json)} {label name text more : Text} {value : Json} {members : List (Text × Json)}

def key (name : Text) : Text := '"'::name ++ ['"']

-- a name that stands for itself between its quotation marks
def Plain (name : Text) : Prop := ∀ c ∈ name, c ≠ '"' ∧ c ≠ '\\' ∧ 0x20 ≤ c.toNat

def plainName (name : Text) : Bool := name.all (fun c => c ≠ '"' && c ≠ '\\' && 0x20 ≤ c.toNat)

theorem plain_names {names : List Text} (checked : names.all plainName = true) : ∀ name ∈ names, Plain name := by
  intro name member c inside
  have every := List.all_eq_true.mp (List.all_eq_true.mp checked name member) c inside
  simpa [and_assoc] using every

theorem reads_key (space : Text) (spaces : Spaces space) (plain : Plain name) : ReadsName (space ++ key name) name := by
  have spelled : ∀ c ∈ name, Spells [c] c := fun c member => spells_plain (plain c member).1 (plain c member).2.1 (plain c member).2.2
  have read := readsName_string spaces spelled
  rw [List.flatMap_singleton',List.append_assoc] at read
  exact read

theorem readsMembers_more (named : ReadsName label name) (reads : ReadsInside text value) (others : ReadsMembers more members) :
    ReadsMembers (label ++ ':'::(text ++ ','::more)) ((name,value)::members) := by
  intro fuel rest enough
  simp only [List.length_append,List.length_cons] at enough
  obtain ⟨fuel,rfl⟩ := Nat.exists_eq_succ_of_ne_zero (show fuel ≠ 0 by omega)
  obtain ⟨body,opened,read⟩ := named (':'::(text ++ (','::(more ++ rest))))
  have whole : label ++ ':'::(text ++ ','::more) ++ rest = label ++ ':'::(text ++ ','::(more ++ rest)) := by simp
  rw [readMembers,whole,opened]
  change (readString body).bind _ = _
  rw [read,Option.bind_some]
  dsimp only
  rw [skipSpace_cons (by decide)]
  change (readValue fuel (text ++ ','::(more ++ rest))).bind _ = _
  rw [reads ',' (.inl rfl) fuel _ (by omega),Option.bind_some]
  dsimp only
  rw [skipSpace_cons (by decide)]
  exact congrArg (Option.map _) (others fuel rest (by omega))

theorem readsMembers_end (named : ReadsName label name) (reads : ReadsInside text value) :
    ReadsMembers (label ++ ':'::(text ++ ['\x7d'])) [(name,value)] := by
  intro fuel rest enough
  simp only [List.length_append,List.length_cons] at enough
  obtain ⟨fuel,rfl⟩ := Nat.exists_eq_succ_of_ne_zero (show fuel ≠ 0 by omega)
  obtain ⟨body,opened,read⟩ := named (':'::(text ++ ('\x7d'::rest)))
  have whole : label ++ ':'::(text ++ ['\x7d']) ++ rest = label ++ ':'::(text ++ '\x7d'::rest) := by simp
  rw [readMembers,whole,opened]
  change (readString body).bind _ = _
  rw [read,Option.bind_some]
  dsimp only
  rw [skipSpace_cons (by decide)]
  change (readValue fuel (text ++ '\x7d'::rest)).bind _ = _
  rw [reads '\x7d' (.inr (.inl rfl)) fuel _ (by omega),Option.bind_some]
  dsimp only
  rw [skipSpace_cons (by decide)]
  rfl

-- the name, the text and the value of each member
def membersText : List (Text × Text × Json) → Text
  | [] => ['\x7d']
  | [part] => key part.1 ++ ':'::(part.2.1 ++ ['\x7d'])
  | part::other::parts => key part.1 ++ ':'::(part.2.1 ++ ','::membersText (other::parts))

def objectText (parts : List (Text × Text × Json)) : Text := '\x7b'::membersText parts

/-- A character of the text is one of a name or of a value, or stands between these. -/
theorem mem_membersText {c : Char} (member : c ∈ membersText parts) :
    (∃ part ∈ parts, c ∈ part.1 ∨ c ∈ part.2.1) ∨ c = '"' ∨ c = ':' ∨ c = ',' ∨ c = '\x7d' := by
  induction parts with
  | nil => exact .inr (.inr (.inr (.inr (List.mem_singleton.mp member))))
  | cons part parts ih =>
    cases parts with
    | nil =>
      simp only [membersText,key,List.cons_append,List.mem_cons,List.mem_append,List.not_mem_nil,or_false] at member
      simp only [List.mem_cons,List.not_mem_nil,or_false,exists_eq_left]
      tauto
    | cons other parts =>
      simp only [membersText,key,List.cons_append,List.mem_cons,List.mem_append,List.not_mem_nil,or_false] at member
      by_cases later : c ∈ membersText (other::parts)
      · obtain ⟨next,inside,here⟩ | mark := ih later
        · exact .inl ⟨next,List.mem_cons_of_mem _ inside,here⟩
        · exact .inr mark
      · by_cases here : c ∈ part.1 ∨ c ∈ part.2.1
        · exact .inl ⟨part,List.mem_cons_self,here⟩
        · tauto

theorem reads_members (present : parts ≠ []) (plain : ∀ part ∈ parts, Plain part.1) (reads : ∀ part ∈ parts, ReadsInside part.2.1 part.2.2) :
    ReadsMembers (membersText parts) (parts.map (fun part => (part.1,part.2.2))) := by
  induction parts with
  | nil => exact absurd rfl present
  | cons part parts ih =>
    have named := reads_key [] (by simp [Spaces]) (plain part List.mem_cons_self)
    have value := reads part List.mem_cons_self
    cases parts with
    | nil => exact readsMembers_end named value
    | cons other parts =>
      exact readsMembers_more named value (ih (by simp) (fun next member => plain next (List.mem_cons_of_mem _ member))
        (fun next member => reads next (List.mem_cons_of_mem _ member)))

theorem reads_objectText (present : parts ≠ []) (plain : ∀ part ∈ parts, Plain part.1)
    (reads : ∀ part ∈ parts, ReadsInside part.2.1 part.2.2) :
    Reads (objectText parts) (.object (parts.map (fun part => (part.1,part.2.2)))) := reads_object (reads_members present plain reads)

end Objects
section Members
variable {members : List (Text × Json)} {name : String}

theorem get_member {i : Nat} {value : Json} (distinct : (members.map Prod.fst).Nodup)
    (here : members[i]? = some (name.toList,value)) : get members name = some value := by
  have inside : (name.toList,value) ∈ members := List.mem_of_getElem? here
  unfold Json.get
  cases found : members.reverse.find? (fun member => member.1 = name.toList) with
  | none => exact absurd (decide_eq_true rfl) (List.find?_eq_none.mp found _ (List.mem_reverse.mpr inside))
  | some member =>
    have same : member.1 = name.toList := of_decide_eq_true (List.find?_some (p := fun member : Text × Json => decide (member.1 = name.toList)) found)
    have held := List.mem_reverse.mp (List.mem_of_find?_eq_some found)
    rw [List.inj_on_of_nodup_map distinct held inside same]
    rfl

theorem getString_member {i : Nat} {text : Text} (distinct : (members.map Prod.fst).Nodup)
    (here : members[i]? = some (name.toList,.string text)) : getString members name = some text := by
  rw [getString,get_member distinct here]

theorem getBoolean_member {i : Nat} {value : Bool} (distinct : (members.map Prod.fst).Nodup)
    (here : members[i]? = some (name.toList,.boolean value)) : getBoolean members name = some value := by
  rw [getBoolean,get_member distinct here]

end Members
end Semindex.Json
