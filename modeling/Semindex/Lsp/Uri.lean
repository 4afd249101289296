import Semindex.Source.Resolver
import Semindex.Support.InputStream
import Mathlib.Data.Nat.Bitwise

/-! `pathFromUri` and `uriFromPath`. A path is the bytes of its name, of any
encoding; the operations of `std::filesystem::path` only look at its separators
and dots, so that a byte stands for the character of its number there. -/
namespace Semindex.Lsp
open Semindex.Support Semindex.Source

section Codec

def uriBytes (text : String) : List Byte := utf8 text.toList

def percent : Byte := 37

def unlatin (text : Text) : List Byte := text.map (fun c => UInt8.ofNat c.toNat)

-- `path.lexically_normal().string()`
def normalBytes (path : List Byte) : List Byte := unlatin (normalize (latin path)).text

def hexDigit (value : Byte) : Option Nat :=
  if 48 ≤ value ∧ value ≤ 57 then some (value.toNat-48)
  else if 97 ≤ value ∧ value ≤ 102 then some (value.toNat-97+10)
  else if 65 ≤ value ∧ value ≤ 70 then some (value.toNat-65+10)
  else none

def decodeUri : List Byte → Option (List Byte)
  | [] => some []
  | b::rest =>
    if b ≠ percent then (decodeUri rest).map (fun decoded => b::decoded)
    else match rest with
      | high::low::rest =>
        match hexDigit high,hexDigit low with
        | some h,some l =>
          if h = 0 && l = 0 then none
          else (decodeUri rest).map (fun decoded => UInt8.ofNat (h <<< 4 ||| l)::decoded)
        | _,_ => none
      | _ => none

def scheme : List Byte := uriBytes "file://"
def localhost : List Byte := uriBytes "localhost"

def pathFromUri (uri : List Byte) : Option (List Byte) :=
  if !scheme.isPrefixOf uri then none
  else
    let uri := uri.drop scheme.length
    if uri.head? = some slash then (decodeUri uri).map normalBytes
    else
      let authority := uri.takeWhile (fun b => b ≠ slash)
      if slash ∉ uri || authority ≠ localhost then none
      else (decodeUri (uri.drop authority.length)).map normalBytes

def hexDigits : List Byte := uriBytes "0123456789ABCDEF"

def unreserved (value : Byte) : Bool :=
  (97 ≤ value && value ≤ 122) || (65 ≤ value && value ≤ 90) || (48 ≤ value && value ≤ 57) || value = slash ||
    value = 45 || value = 95 || value = 46 || value = 126

def encodeByte (value : Byte) : List Byte :=
  if unreserved value then [value]
  else [percent,(hexDigits[value.toNat >>> 4]?).getD 0,(hexDigits[value.toNat &&& 0xf]?).getD 0]

def uriFromPath (path : List Byte) : List Byte := scheme ++ path.flatMap encodeByte

end Codec

section Spelling

/-- Every percent sign starts an escape, which is not that of NUL. -/
def EscapesValid (text : List Byte) : Prop := ∀ before after, text = before ++ percent::after →
  ∃ high low rest h l, after = high::low::rest ∧ hexDigit high = some h ∧ hexDigit low = some l ∧ (h ≠ 0 ∨ l ≠ 0)

/-- The text spells the bytes, each by itself or by an escape. -/
inductive Spells : List Byte → List Byte → Prop where
  | nil : Spells [] []
  | raw {b : Byte} {text bytes : List Byte} (plain : b ≠ percent) (rest : Spells text bytes) :
      Spells (b::text) (b::bytes)
  | escaped {high low : Byte} {h l : Nat} {text bytes : List Byte} (first : hexDigit high = some h)
      (second : hexDigit low = some l) (rest : Spells text bytes) :
      Spells (percent::high::low::text) (UInt8.ofNat (16 * h + l)::bytes)

/-- What stands before the path. -/
def fronts : List (List Byte) := [scheme,scheme ++ localhost]

/-- The URI is a spelling of the path with these bytes. -/
def Encodes (uri bytes : List Byte) : Prop :=
  ∃ front ∈ fronts, ∃ text, uri = front ++ text ∧ text.head? = some slash ∧ Spells text bytes

def WellFormed (uri : List Byte) : Prop :=
  ∃ front ∈ fronts, ∃ text, uri = front ++ text ∧ text.head? = some slash ∧ EscapesValid text

/-- Another scheme, a foreign authority, or an escape that is cut off, not of digits, or of NUL. -/
def Malformed (uri : List Byte) : Prop :=
  ¬ scheme <+: uri ∨
  (∃ rest, uri = scheme ++ rest ∧ rest.head? ≠ some slash ∧ rest.takeWhile (fun b => b ≠ slash) ≠ localhost) ∨
  ∃ front ∈ fronts, ∃ text, uri = front ++ text ∧ ¬ EscapesValid text

/-- A path as `lexically_normal` leaves it, absolute and without NUL. -/
structure NormalPath (path : List Byte) : Prop where
  absolute : path.head? = some slash
  normal : normalBytes path = path
  ends : nul ∉ path

structure RoundTrips (path : List Byte) : Prop where
  back : pathFromUri (uriFromPath path) = some path
  injective : ∀ other, NormalPath other → uriFromPath other = uriFromPath path → other = path

structure UriSound (uri : List Byte) : Prop where
  normal : ∀ path, pathFromUri uri = some path → NormalPath path
  spelled : ∀ path bytes other, pathFromUri uri = some path → Encodes uri bytes → Encodes other bytes →
    pathFromUri other = some path
  rejects : Malformed uri → pathFromUri uri = none

end Spelling

section Digits

theorem hexDigit_small {value : Byte} {digit : Nat} (found : hexDigit value = some digit) : digit < 16 ∧ value ≠ percent ∧ value ≠ nul := by
  unfold hexDigit at found
  have bound (low high : Byte) (inside : low ≤ value ∧ value ≤ high) : low.toNat ≤ value.toNat ∧ value.toNat ≤ high.toNat :=
    ⟨UInt8.le_iff_toNat_le.mp inside.1,UInt8.le_iff_toNat_le.mp inside.2⟩
  have apart {other : Byte} (differs : value.toNat ≠ other.toNat) : value ≠ other := fun same => differs (congrArg UInt8.toNat same)
  split at found
  · rename_i inside
    have between := bound 48 57 inside
    simp at between
    cases Option.some.inj found
    exact ⟨by omega,apart (by simp [percent]; omega),apart (by simp [nul]; omega)⟩
  · split at found
    · rename_i inside
      have between := bound 97 102 inside
      simp at between
      cases Option.some.inj found
      exact ⟨by omega,apart (by simp [percent]; omega),apart (by simp [nul]; omega)⟩
    · split at found
      · rename_i inside
        have between := bound 65 70 inside
        simp at between
        cases Option.some.inj found
        exact ⟨by omega,apart (by simp [percent]; omega),apart (by simp [nul]; omega)⟩
      · cases found

theorem hexDigit_digits : ∀ n < 16, hexDigit ((hexDigits[n]?).getD 0) = some n := by decide

theorem nibbles {h l : Nat} (low : l < 16) : h <<< 4 ||| l = 16 * h + l := by
  rw [← Nat.shiftLeft_add_eq_or_of_lt (i := 4) low,Nat.shiftLeft_eq]
  omega

end Digits

section Decode
variable {text bytes : List Byte}

theorem decode_escape {high low : Byte} {h l : Nat} (first : hexDigit high = some h) (second : hexDigit low = some l)
    (rest : List Byte) : decodeUri (percent::high::low::rest) =
      if h = 0 ∧ l = 0 then none else (decodeUri rest).map (fun decoded => UInt8.ofNat (16 * h + l)::decoded) := by
  rw [decodeUri,if_neg (by simp)]
  simp only [first,second,nibbles (hexDigit_small second).1,Bool.and_eq_true,decide_eq_true_eq]

theorem decode_raw {b : Byte} (plain : b ≠ percent) (rest : List Byte) :
    decodeUri (b::rest) = (decodeUri rest).map (fun decoded => b::decoded) := by
  rw [decodeUri.eq_def]
  simp only [ne_eq,plain,not_false_eq_true,if_true]

theorem decode_cut {rest : List Byte} (short : ∀ high low more, rest = high::low::more → hexDigit high = none ∨ hexDigit low = none) :
    decodeUri (percent::rest) = none := by
  rw [decodeUri.eq_def]
  simp only [ne_eq,not_true_eq_false,if_false]
  split
  · rename_i high low more
    rcases short high low more rfl with none | none
    · rw [none]
    · rw [none]
      cases hexDigit high <;> rfl
  · rfl

-- the first byte of a text that is decoded, with what decoding leaves behind it
theorem decode_cases (text : List Byte) : text = [] ∨ (∃ b rest, text = b::rest ∧ b ≠ percent) ∨
    (∃ high low rest h l, text = percent::high::low::rest ∧ hexDigit high = some h ∧ hexDigit low = some l) ∨
    ∃ rest, text = percent::rest ∧ ∀ high low more, rest = high::low::more → hexDigit high = none ∨ hexDigit low = none := by
  cases text with
  | nil => exact .inl rfl
  | cons b rest =>
    by_cases sign : b = percent
    · subst sign
      match rest with
      | [] => exact .inr (.inr (.inr ⟨[],rfl,by simp⟩))
      | [high] => exact .inr (.inr (.inr ⟨[high],rfl,by simp⟩))
      | high::low::rest =>
        cases first : hexDigit high with
        | none =>
          refine .inr (.inr (.inr ⟨_,rfl,?_⟩))
          intro a b more same
          rw [← (List.cons.inj same).1]
          exact .inl first
        | some h =>
          cases second : hexDigit low with
          | none =>
            refine .inr (.inr (.inr ⟨_,rfl,?_⟩))
            intro a b more same
            rw [← (List.cons.inj (List.cons.inj same).2).1]
            exact .inr second
          | some l => exact .inr (.inr (.inl ⟨high,low,rest,h,l,rfl,first,second⟩))
    · exact .inr (.inl ⟨b,rest,rfl,sign⟩)

theorem escapes_nil : EscapesValid [] := by
  intro before after split
  simp at split

theorem escapes_raw {b : Byte} (plain : b ≠ percent) (rest : List Byte) : EscapesValid (b::rest) ↔ EscapesValid rest := by
  constructor
  · intro valid before after split
    exact valid (b::before) after (by rw [split]; rfl)
  · intro valid before after split
    cases before with
    | nil => exact absurd (List.cons.inj split).1 plain
    | cons c before => exact valid before after (List.cons.inj split).2

theorem escapes_escape {high low : Byte} {h l : Nat} (first : hexDigit high = some h) (second : hexDigit low = some l)
    (rest : List Byte) : EscapesValid (percent::high::low::rest) ↔ (h ≠ 0 ∨ l ≠ 0) ∧ EscapesValid rest := by
  constructor
  · intro valid
    refine ⟨?_,fun before after split => valid (percent::high::low::before) after (by rw [split]; rfl)⟩
    obtain ⟨a,b,more,x,y,same,digitA,digitB,value⟩ := valid [] _ rfl
    obtain ⟨sameA,same⟩ := List.cons.inj same
    obtain ⟨sameB,_⟩ := List.cons.inj same
    rw [← sameA,first] at digitA
    rw [← sameB,second] at digitB
    cases digitA
    cases digitB
    exact value
  · intro ⟨value,valid⟩ before after split
    match before with
    | [] => exact ⟨high,low,rest,h,l,(List.cons.inj split).2.symm,first,second,value⟩
    | [_] =>
      obtain ⟨_,same⟩ := List.cons.inj split
      exact absurd (List.cons.inj same).1 (hexDigit_small first).2.1
    | [_,_] =>
      obtain ⟨_,same⟩ := List.cons.inj split
      obtain ⟨_,same⟩ := List.cons.inj same
      exact absurd (List.cons.inj same).1 (hexDigit_small second).2.1
    | _::_::_::before =>
      obtain ⟨_,same⟩ := List.cons.inj split
      obtain ⟨_,same⟩ := List.cons.inj same
      exact valid before after (List.cons.inj same).2

theorem escapes_cut {rest : List Byte} (short : ∀ high low more, rest = high::low::more → hexDigit high = none ∨ hexDigit low = none) :
    ¬ EscapesValid (percent::rest) := by
  intro valid
  obtain ⟨high,low,more,h,l,same,first,second,_⟩ := valid [] rest rfl
  rcases short high low more same with none | none
  · rw [none] at first
    cases first
  · rw [none] at second
    cases second

-- decoding is defined exactly on valid escapes
theorem decode_isSome (text : List Byte) : (decodeUri text).isSome ↔ EscapesValid text := by
  induction size : text.length using Nat.strongRecOn generalizing text with
  | ind n ih =>
    rcases decode_cases text with rfl | ⟨b,rest,rfl,plain⟩ | ⟨high,low,rest,h,l,rfl,first,second⟩ | ⟨rest,rfl,short⟩
    · exact iff_of_true rfl escapes_nil
    · rw [decode_raw plain,Option.isSome_map,escapes_raw plain]
      exact ih rest.length (by simp [← size]) rest rfl
    · rw [decode_escape first second,escapes_escape first second]
      have tail := ih rest.length (by simp [← size]; omega) rest rfl
      by_cases zero : h = 0 ∧ l = 0
      · rw [if_pos zero]
        exact iff_of_false (by simp) (fun both => both.1.elim (fun other => other zero.1) (fun other => other zero.2))
      · rw [if_neg zero,Option.isSome_map,tail]
        exact ⟨fun valid => ⟨by omega,valid⟩,And.right⟩
    · rw [decode_cut short]
      exact iff_of_false (by simp) (escapes_cut short)

theorem decode_spells (decoded : decodeUri text = some bytes) : Spells text bytes := by
  induction size : text.length using Nat.strongRecOn generalizing text bytes with
  | ind n ih =>
    rcases decode_cases text with rfl | ⟨b,rest,rfl,plain⟩ | ⟨high,low,rest,h,l,rfl,first,second⟩ | ⟨rest,rfl,short⟩
    · cases Option.some.inj decoded
      exact .nil
    · rw [decode_raw plain] at decoded
      obtain ⟨more,found,rfl⟩ := Option.map_eq_some_iff.mp decoded
      exact .raw plain (ih rest.length (by simp [← size]) found rfl)
    · rw [decode_escape first second] at decoded
      split at decoded
      · cases decoded
      · obtain ⟨more,found,rfl⟩ := Option.map_eq_some_iff.mp decoded
        exact .escaped first second (ih rest.length (by simp [← size]; omega) found rfl)
    · rw [decode_cut short] at decoded
      cases decoded

theorem spells_decoded (spells : Spells text bytes) {other : List Byte} (decoded : decodeUri text = some other) : other = bytes := by
  induction spells generalizing other with
  | nil => exact (Option.some.inj decoded).symm
  | raw plain rest ih =>
    rw [decode_raw plain] at decoded
    obtain ⟨more,found,rfl⟩ := Option.map_eq_some_iff.mp decoded
    rw [ih found]
  | escaped first second rest ih =>
    rw [decode_escape first second] at decoded
    split at decoded
    · cases decoded
    · obtain ⟨more,found,rfl⟩ := Option.map_eq_some_iff.mp decoded
      rw [ih found]

theorem byte_zero {h l : Nat} (high : h < 16) (low : l < 16) : UInt8.ofNat (16 * h + l) = nul ↔ h = 0 ∧ l = 0 := by
  rw [← UInt8.toNat_inj]
  simp [nul]
  omega

/-- A spelling is decoded to what it spells, unless that has a NUL. -/
theorem spells_decode (spells : Spells text bytes) (ends : nul ∉ bytes) : decodeUri text = some bytes := by
  induction spells with
  | nil => rfl
  | raw plain rest ih =>
    rw [decode_raw plain,ih (fun inside => ends (List.mem_cons_of_mem _ inside))]
    rfl
  | escaped first second rest ih =>
    have value := (not_congr (byte_zero (hexDigit_small first).1 (hexDigit_small second).1)).mp
      (fun zero => ends (zero ▸ List.mem_cons_self))
    rw [decode_escape first second,if_neg value,ih (fun inside => ends (List.mem_cons_of_mem _ inside))]
    rfl

-- what has no NUL is decoded without one
theorem decode_ends (decoded : decodeUri text = some bytes) (ends : nul ∉ text) : nul ∉ bytes := by
  have spells := decode_spells decoded
  induction spells with
  | nil => exact ends
  | raw plain rest ih =>
    rw [decode_raw plain] at decoded
    obtain ⟨more,found,same⟩ := Option.map_eq_some_iff.mp decoded
    cases (List.cons.inj same).2
    intro inside
    rcases List.mem_cons.mp inside with rfl | later
    · exact ends List.mem_cons_self
    · exact ih found (fun within => ends (List.mem_cons_of_mem _ within)) later
  | escaped first second rest ih =>
    rw [decode_escape first second] at decoded
    split at decoded
    · cases decoded
    · rename_i value
      obtain ⟨more,found,same⟩ := Option.map_eq_some_iff.mp decoded
      cases (List.cons.inj same).2
      intro inside
      rcases List.mem_cons.mp inside with zero | later
      · exact value ((byte_zero (hexDigit_small first).1 (hexDigit_small second).1).mp zero.symm)
      · exact ih found (fun within => ends (by simp [within])) later

/-- A NUL that stands for itself has another spelling, by its escape, which is refused. -/
theorem spells_refused (spells : Spells text bytes) (inside : nul ∈ text) :
    ∃ other, Spells other bytes ∧ decodeUri other = none ∧ (text.head? = some slash → other.head? = some slash) := by
  induction spells with
  | nil => cases inside
  | @raw b text bytes plain rest ih =>
    by_cases zero : b = nul
    · have digit : hexDigit 48 = some 0 := by decide
      refine ⟨percent::48::48::text,?_,by rw [decode_escape digit digit,if_pos ⟨rfl,rfl⟩],?_⟩
      · have escape := Spells.escaped digit digit rest
        rw [zero]
        exact escape
      · intro head
        rw [zero] at head
        exact absurd (Option.some.inj head) (by decide)
    · obtain ⟨other,spelled,refused,_⟩ := ih ((List.mem_cons.mp inside).resolve_left (fun same => zero same.symm))
      exact ⟨b::other,.raw plain spelled,by rw [decode_raw plain,refused]; rfl,fun head => head⟩
  | @escaped high low h l text bytes first second rest ih =>
    have later : nul ∈ text := by
      rcases List.mem_cons.mp inside with same | inside
      · exact absurd same (by decide)
      · rcases List.mem_cons.mp inside with same | inside
        · exact absurd same.symm (hexDigit_small first).2.2
        · rcases List.mem_cons.mp inside with same | inside
          · exact absurd same.symm (hexDigit_small second).2.2
          · exact inside
    obtain ⟨other,spelled,refused,_⟩ := ih later
    refine ⟨percent::high::low::other,.escaped first second spelled,?_,fun head => head⟩
    rw [decode_escape first second,refused]
    simp

end Decode

section Bytes

theorem toNat_latin (b : Byte) : (Char.ofNat b.toNat).toNat = b.toNat := by
  have small : b.toNat < 256 := b.toNat_lt
  have valid : b.toNat.isValidChar := by
    left
    omega
  rw [Char.ofNat,dif_pos valid]
  rfl

theorem char_byte (b : Byte) : UInt8.ofNat (Char.ofNat b.toNat).toNat = b := by
  rw [toNat_latin]
  simp

theorem latin_unlatin {text : Text} (small : ∀ c ∈ text, c.toNat < 256) : latin (unlatin text) = text := by
  unfold unlatin latin
  rw [List.map_map]
  refine (List.map_congr_left (fun c member => ?_)).trans (List.map_id _)
  simp [Nat.mod_eq_of_lt (small c member)]

theorem latin_small {bytes : List Byte} {c : Char} (member : c ∈ latin bytes) : c.toNat < 256 := by
  obtain ⟨b,_,rfl⟩ := List.mem_map.mp member
  rw [toNat_latin]
  exact b.toNat_lt

theorem latin_head {bytes : List Byte} (absolute : bytes.head? = some slash) : (latin bytes).head? = some '/' := by
  unfold latin
  rw [List.head?_map,absolute]
  rfl

theorem mem_intercalate {names : List Text} {c : Char} (member : c ∈ ['/'].intercalate names) :
    c = '/' ∨ ∃ name ∈ names, c ∈ name := by
  induction names with
  | nil => simp [List.intercalate] at member
  | cons name names ih =>
    by_cases last : names = []
    · rw [last,List.intercalate_singleton] at member
      exact .inr ⟨name,List.mem_cons_self,member⟩
    · rw [List.intercalate_cons_of_ne_nil last] at member
      simp only [List.append_assoc,List.mem_append,List.mem_singleton] at member
      rcases member with here | separator | later
      · exact .inr ⟨name,List.mem_cons_self,here⟩
      · exact .inl separator
      · rcases ih later with slash | ⟨other,listed,inside⟩
        · exact .inl slash
        · exact .inr ⟨other,List.mem_cons_of_mem _ listed,inside⟩

theorem mem_text {path : Pathname} {c : Char} (member : c ∈ path.text) : c = '/' ∨ ∃ name ∈ path.names, c ∈ name := by
  unfold Pathname.text at member
  rcases List.mem_append.mp member with front | names
  · split at front
    · exact .inl (List.mem_singleton.mp front)
    · cases front
  · exact mem_intercalate names

/-- The names are bytes, and hold no separator. -/
def ByteNames (path : Pathname) : Prop := ∀ name ∈ path.names, ∀ c ∈ name, c.toNat < 256 ∧ c ≠ '/'

theorem ofText_bytes (bytes : List Byte) : ByteNames (Pathname.ofText (latin bytes)) := by
  intro name listed c inside
  have found := Canonical.mem_ofText listed c inside
  exact ⟨latin_small found.1,found.2⟩

theorem latin_rooted {bytes : List Byte} (absolute : bytes.head? = some slash) :
    (Pathname.ofText (latin bytes)).rooted = true := by
  simp [Pathname.ofText,latin_head absolute]

section Normal
variable {path : Pathname} (rooted : path.rooted = true) (bytes : ByteNames path)
include rooted bytes

theorem normal_form : ∃ file separated, path.lexicallyNormal = Canonical.form file separated ∧ file.names ⊆ path.names :=
  Canonical.normal_form rooted (fun name listed inside => (bytes name listed _ inside).2 rfl)

theorem normal_rooted : path.lexicallyNormal.rooted = true := by
  obtain ⟨file,separated,same,_⟩ := normal_form rooted bytes
  rw [same]
  rfl

theorem mem_normal {name : Text} (listed : name ∈ path.lexicallyNormal.names) : name = [] ∨ name ∈ path.names := by
  obtain ⟨file,separated,same,within⟩ := normal_form rooted bytes
  rw [same] at listed
  unfold Canonical.form at listed
  rcases List.mem_append.mp listed with kept | last
  · exact .inr (within kept)
  · split at last
    · exact .inl (List.mem_singleton.mp last)
    · cases last

theorem normal_bytes : ByteNames path.lexicallyNormal := by
  intro name listed c inside
  rcases mem_normal rooted bytes listed with rfl | own
  · cases inside
  · exact bytes name own c inside

theorem latin_normal : latin (unlatin path.lexicallyNormal.text) = path.lexicallyNormal.text := by
  apply latin_unlatin
  intro c member
  rcases mem_text member with rfl | ⟨name,listed,inside⟩
  · decide
  · exact (normal_bytes rooted bytes name listed c inside).1

theorem normal_absolute : (unlatin path.lexicallyNormal.text).head? = some slash := by
  obtain ⟨file,separated,same,_⟩ := normal_form rooted bytes
  rw [same]
  rfl

theorem normal_again : normalBytes (unlatin path.lexicallyNormal.text) = unlatin path.lexicallyNormal.text := by
  unfold normalBytes Source.normalize
  rw [latin_normal rooted bytes,Canonical.normal_text rooted (fun name listed inside => (bytes name listed _ inside).2 rfl)]

end Normal

/-- Normal forms are absolute, their own normal forms, and without a NUL where the path is. -/
theorem normal_path {bytes : List Byte} (absolute : bytes.head? = some slash) (ends : nul ∉ bytes) : NormalPath (normalBytes bytes) := by
  have rooted := latin_rooted absolute
  have names := ofText_bytes bytes
  refine ⟨normal_absolute rooted names,normal_again rooted names,?_⟩
  intro inside
  obtain ⟨c,member,zero⟩ := List.mem_map.mp inside
  rcases mem_text member with rfl | ⟨name,listed,within⟩
  · exact absurd zero (by decide)
  · rcases mem_normal rooted names listed with rfl | own
    · cases within
    · obtain ⟨b,origin,rfl⟩ := List.mem_map.mp (Canonical.mem_ofText own c within).1
      rw [char_byte] at zero
      exact ends (zero ▸ origin)

end Bytes

section Parts
variable {uri path bytes : List Byte}

theorem local_authority {text : List Byte} (rooted : text.head? = some slash) :
    (localhost ++ text).takeWhile (fun b => decide (b ≠ slash)) = localhost := by
  have apart : localhost.all (fun b => decide (b ≠ slash)) = true := by decide
  rw [List.takeWhile_append_of_pos (List.all_eq_true.mp apart)]
  cases text with
  | nil => cases rooted
  | cons b text =>
    obtain rfl := Option.some.inj rooted
    simp

/-- What is accepted, and what for. -/
theorem pathFromUri_iff : pathFromUri uri = some path ↔ ∃ front ∈ fronts, ∃ text bytes, uri = front ++ text ∧
    text.head? = some slash ∧ decodeUri text = some bytes ∧ path = normalBytes bytes := by
  unfold pathFromUri
  constructor
  · intro found
    split at found
    · cases found
    · rename_i prefixed
      have starts : scheme <+: uri := by simpa using prefixed
      obtain ⟨rest,rfl⟩ := starts
      dsimp only at found
      rw [List.drop_left] at found
      split at found
      · rename_i rooted
        obtain ⟨bytes,decoded,same⟩ := Option.map_eq_some_iff.mp found
        exact ⟨scheme,by simp [fronts],rest,bytes,rfl,rooted,decoded,same.symm⟩
      · split at found
        · cases found
        · rename_i accepted
          simp only [Bool.or_eq_true,decide_eq_true_eq,not_or,not_not] at accepted
          obtain ⟨bytes,decoded,same⟩ := Option.map_eq_some_iff.mp found
          have cut := List.takeWhile_append_dropWhile (p := fun b => decide (b ≠ slash)) (l := rest)
          rw [← cut,List.drop_left' (by rw [cut])] at decoded
          have head : (rest.dropWhile (fun b => decide (b ≠ slash))).head? = some slash := by
            cases tail : rest.dropWhile (fun b => decide (b ≠ slash)) with
            | nil =>
              have all := List.dropWhile_eq_nil_iff.mp tail slash accepted.1
              simp at all
            | cons b more =>
              have stop := List.head?_dropWhile_not (fun b => decide (b ≠ slash)) rest
              rw [tail] at stop
              simpa using stop
          refine ⟨scheme ++ localhost,by simp [fronts],_,bytes,?_,head,decoded,same.symm⟩
          rw [← accepted.2,List.append_assoc,cut]
  · intro ⟨front,listed,text,bytes,split,rooted,decoded,same⟩
    have prefixed (rest : List Byte) : (!scheme.isPrefixOf (scheme ++ rest)) = false := by simp
    subst split
    rcases List.mem_cons.mp listed with rfl | other
    · rw [prefixed,if_neg Bool.false_ne_true]
      dsimp only
      rw [List.drop_left,if_pos rooted,decoded,same]
      rfl
    · rw [List.mem_singleton.mp other,List.append_assoc,prefixed,if_neg Bool.false_ne_true]
      dsimp only
      have foreign : (localhost ++ text).head? ≠ some slash := by
        rw [List.head?_append_of_ne_nil _ (by decide)]
        decide
      have inside : slash ∈ localhost ++ text := List.mem_append_right _ (List.mem_of_head? rooted)
      rw [List.drop_left,if_neg foreign,local_authority rooted,if_neg (by simp [inside]),List.drop_left,decoded,same]
      rfl

theorem fronts_unique {front other text rest : List Byte} (listed : front ∈ fronts) (among : other ∈ fronts)
    (same : front ++ text = other ++ rest) (rooted : text.head? = some slash) (ahead : rest.head? = some slash) : text = rest := by
  have apart {text rest : List Byte} (rooted : text.head? = some slash) : scheme ++ text ≠ (scheme ++ localhost) ++ rest := by
    intro same
    rw [List.append_assoc] at same
    rw [List.append_cancel_left same,List.head?_append_of_ne_nil _ (by decide)] at rooted
    exact absurd rooted (by decide)
  rcases List.mem_cons.mp listed with rfl | listed
  · rcases List.mem_cons.mp among with rfl | among
    · exact List.append_cancel_left same
    · rw [List.mem_singleton.mp among] at same
      exact absurd same (apart rooted)
  · rw [List.mem_singleton.mp listed] at same
    rcases List.mem_cons.mp among with rfl | among
    · exact absurd same.symm (apart ahead)
    · rw [List.mem_singleton.mp among] at same
      exact List.append_cancel_left same

theorem fronts_plain {front : List Byte} (listed : front ∈ fronts) : percent ∉ front ∧ nul ∉ front ∧ scheme <+: front := by
  rcases List.mem_cons.mp listed with rfl | listed
  · exact ⟨by decide,by decide,List.prefix_refl _⟩
  · rw [List.mem_singleton.mp listed]
    exact ⟨by decide,by decide,List.prefix_append _ _⟩

theorem escapes_append {front text : List Byte} (plain : percent ∉ front) : EscapesValid (front ++ text) ↔ EscapesValid text := by
  induction front with
  | nil => rfl
  | cons b front ih =>
    rw [List.cons_append,escapes_raw (fun same => plain (same ▸ List.mem_cons_self)),
      ih (fun inside => plain (List.mem_cons_of_mem _ inside))]

theorem wellFormed_iff : WellFormed uri ↔ ∃ path, pathFromUri uri = some path := by
  constructor
  · intro ⟨front,listed,text,split,rooted,valid⟩
    obtain ⟨bytes,decoded⟩ := Option.isSome_iff_exists.mp ((decode_isSome text).mpr valid)
    exact ⟨_,pathFromUri_iff.mpr ⟨front,listed,text,bytes,split,rooted,decoded,rfl⟩⟩
  · intro ⟨path,found⟩
    obtain ⟨front,listed,text,bytes,split,rooted,decoded,_⟩ := pathFromUri_iff.mp found
    exact ⟨front,listed,text,split,rooted,(decode_isSome text).mp (by rw [decoded]; rfl)⟩

theorem malformed_refused (malformed : Malformed uri) : pathFromUri uri = none := by
  cases found : pathFromUri uri with
  | none => rfl
  | some path =>
    exfalso
    obtain ⟨front,listed,text,split,rooted,valid⟩ := wellFormed_iff.mpr ⟨path,found⟩
    rcases malformed with foreign | ⟨rest,same,apart,foreign⟩ | ⟨other,among,rest,same,invalid⟩
    · apply foreign
      rw [split]
      exact (fronts_plain listed).2.2.trans (List.prefix_append _ _)
    · rw [same] at split
      rcases List.mem_cons.mp listed with rfl | listed
      · rw [List.append_cancel_left split] at apart
        exact apart rooted
      · rw [List.mem_singleton.mp listed,List.append_assoc] at split
        rw [List.append_cancel_left split] at foreign
        exact foreign (local_authority rooted)
    · apply invalid
      rw [← escapes_append (fronts_plain among).1,← same,split,escapes_append (fronts_plain listed).1]
      exact valid

end Parts

section Encode
variable {path : List Byte}

theorem unreserved_plain {value : Byte} (kept : unreserved value) : value ≠ percent := by
  intro sign
  rw [sign] at kept
  exact absurd kept (by decide)

theorem encode_spells (path : List Byte) : Spells (path.flatMap encodeByte) path := by
  induction path with
  | nil => exact .nil
  | cons value path ih =>
    rw [List.flatMap_cons]
    unfold encodeByte
    split
    · rename_i kept
      exact .raw (unreserved_plain kept) ih
    · have small : value.toNat < 256 := value.toNat_lt
      have high : value.toNat >>> 4 < 16 := by
        rw [Nat.shiftRight_eq_div_pow]
        omega
      have low : value.toNat &&& 0xf = value.toNat % 16 := Nat.and_two_pow_sub_one_eq_mod _ 4
      have back : UInt8.ofNat (16 * (value.toNat >>> 4) + (value.toNat &&& 0xf)) = value := by
        rw [low,Nat.shiftRight_eq_div_pow,Nat.div_add_mod]
        exact UInt8.ofNat_toNat
      have escape := Spells.escaped (hexDigit_digits _ high) (hexDigit_digits (value.toNat &&& 0xf) (by omega)) ih
      rw [back] at escape
      exact escape

theorem encode_head (absolute : path.head? = some slash) : (path.flatMap encodeByte).head? = some slash := by
  cases path with
  | nil => cases absolute
  | cons value path =>
    cases Option.some.inj absolute
    rfl

theorem path_uri (normal : NormalPath path) : pathFromUri (uriFromPath path) = some path :=
  pathFromUri_iff.mpr ⟨scheme,by simp [fronts],_,path,rfl,encode_head normal.absolute,
    spells_decode (encode_spells path) normal.ends,normal.normal.symm⟩

-- a path whose URI is accepted is what it is accepted for
theorem path_unique {other : List Byte} (absolute : path.head? = some slash) (normal : normalBytes path = path)
    (found : pathFromUri (uriFromPath path) = some other) : path = other := by
  obtain ⟨front,listed,text,bytes,split,rooted,decoded,rfl⟩ := pathFromUri_iff.mp found
  have single := fronts_unique (by simp [fronts]) listed split (encode_head absolute) rooted
  rw [← single] at decoded
  rw [spells_decoded (encode_spells path) decoded,normal]

theorem roundTrips (normal : NormalPath path) : RoundTrips path := by
  refine ⟨path_uri normal,?_⟩
  intro other sound same
  have back := path_uri sound
  rw [same,path_uri normal] at back
  exact (Option.some.inj back).symm

end Encode

section Sound
variable {uri : List Byte}

theorem decoded_head {text bytes : List Byte} (rooted : text.head? = some slash) (decoded : decodeUri text = some bytes) :
    bytes.head? = some slash := by
  cases text with
  | nil => cases rooted
  | cons b text =>
    cases Option.some.inj rooted
    rw [decode_raw (by decide)] at decoded
    obtain ⟨more,_,rfl⟩ := Option.map_eq_some_iff.mp decoded
    rfl

theorem uri_sound (ends : nul ∈ uri → ¬ WellFormed uri) : UriSound uri := by
  have plain {path : List Byte} (found : pathFromUri uri = some path) : nul ∉ uri :=
    fun inside => ends inside (wellFormed_iff.mpr ⟨path,found⟩)
  refine ⟨?_,?_,malformed_refused⟩
  · intro path found
    obtain ⟨front,_,text,bytes,split,rooted,decoded,rfl⟩ := pathFromUri_iff.mp found
    apply normal_path (decoded_head rooted decoded)
    apply decode_ends decoded
    intro inside
    exact plain found (split ▸ List.mem_append_right _ inside)
  · intro path bytes other found ⟨origin,own,spelling,same,starts,spells⟩ ⟨front',listed',text',split',rooted',spells'⟩
    obtain ⟨front,listed,text,decodedBytes,split,rooted,decoded,rfl⟩ := pathFromUri_iff.mp found
    have single := fronts_unique listed own (split.symm.trans same) rooted starts
    rw [single] at decoded
    obtain rfl := spells_decoded spells decoded
    have free : nul ∉ decodedBytes := decode_ends decoded
      (fun inside => plain found (same ▸ List.mem_append_right _ inside))
    exact pathFromUri_iff.mpr ⟨front',listed',text',decodedBytes,split',rooted',spells_decode spells' free,rfl⟩

theorem sound_ends (sound : UriSound uri) (inside : nul ∈ uri) : ¬ WellFormed uri := by
  intro ⟨front,listed,text,split,rooted,valid⟩
  obtain ⟨bytes,decoded⟩ := Option.isSome_iff_exists.mp ((decode_isSome text).mpr valid)
  have found := pathFromUri_iff.mpr ⟨front,listed,text,bytes,split,rooted,decoded,rfl⟩
  have spells := decode_spells decoded
  have later : nul ∈ text := by
    rw [split] at inside
    exact (List.mem_append.mp inside).resolve_left (fronts_plain listed).2.1
  obtain ⟨other,spelled,refused,head⟩ := spells_refused spells later
  have accepted := sound.spelled _ bytes (front ++ other) found ⟨front,listed,text,split,rooted,spells⟩
    ⟨front,listed,other,rfl,head rooted,spelled⟩
  obtain ⟨front',listed',text',bytes',split',rooted',decoded',_⟩ := pathFromUri_iff.mp accepted
  have single := fronts_unique listed listed' split' (head rooted) rooted'
  rw [← single,refused] at decoded'
  cases decoded'

/-- Paths survive their URIs; a URI has one meaning with its spellings unless it
has a NUL byte and is accepted with it. -/
theorem uri_codec_iff (path uri : List Byte) : ((NormalPath path → RoundTrips path) ∧ UriSound uri) ↔
    (nul ∈ uri → ¬ WellFormed uri) :=
  ⟨fun holds => sound_ends holds.2,fun ends => ⟨roundTrips,uri_sound ends⟩⟩

/-- A URI with the NUL as it is. -/
def withNul : List Byte := scheme ++ [slash,97,nul,98]

theorem raw_nul_accepted : ¬ ((∀ path, NormalPath path → RoundTrips path) ∧ ∀ uri, UriSound uri) := by
  intro holds
  have valid : pathFromUri withNul = some [slash,97,nul,98] := by decide
  exact (holds.2 withNul |>.normal _ valid).ends (by decide)

end Sound

end Semindex.Lsp
