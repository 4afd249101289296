import Semindex.Database.Leaf

/-! `LspSourceMapper::range` and the conversions between the byte columns of the
database and the UTF-16 columns of the protocol. A line is a list of bytes that
need not be UTF-8. -/
namespace Semindex.Lsp
open Semindex.Database

section Utf16

abbrev Bytes := List UInt8

-- the code point of a sequence, where every byte but the first continues it
def continued : Nat → Nat → Bytes → Option (Nat × Bytes)
  | codepoint,0,text => some (codepoint,text)
  | _,_ + 1,[] => none
  | codepoint,n + 1,byte::text =>
    if byte &&& 0xc0 ≠ 0x80 then none else continued (codepoint <<< 6 ||| (byte &&& 0x3f).toNat) n text

-- how many bytes follow the first, and what the first one contributes
def leadByte (first : UInt8) : Option (Nat × Nat) :=
  if first < 0x80 then some (0,first.toNat)
  else if first &&& 0xe0 = 0xc0 then some (1,(first &&& 0x1f).toNat)
  else if first &&& 0xf0 = 0xe0 then some (2,(first &&& 0x0f).toNat)
  else if first &&& 0xf8 = 0xf0 then some (3,(first &&& 0x07).toNat)
  else none

def scalar (codepoint : Nat) : Bool := codepoint ≤ 0x10ffff && !(0xd800 ≤ codepoint && codepoint ≤ 0xdfff)

def nextCodePoint : Bytes → Option (Nat × Bytes)
  | [] => none
  | first::text => do
    let (length,lead) ← leadByte first
    let (codepoint,rest) ← continued lead length text
    if scalar codepoint then some (codepoint,rest) else none

def width (codepoint : Nat) : Nat := if 0xffff < codepoint then 2 else 1

-- how many bytes are `units` UTF-16 columns of the text
def byteOffset : Nat → Bytes → Option Nat
  | 0,_ => some 0
  | units + 1,text =>
    match nextCodePoint text with
    | none => none
    | some (codepoint,rest) =>
      if width codepoint = 1 then (byteOffset units rest).map (fun offset => text.length - rest.length + offset)
      else match units with
        | 0 => none
        | units + 1 => (byteOffset units rest).map (fun offset => text.length - rest.length + offset)

def utf16Units : Nat → Bytes → Option Nat
  | _,[] => some 0
  | 0,_::_ => none
  | fuel + 1,text =>
    match nextCodePoint text with
    | none => none
    | some (codepoint,rest) => (utf16Units fuel rest).map (fun units => width codepoint + units)

-- the length in bytes where the text is not UTF-8
def utf16Length (text : Bytes) : Nat := (utf16Units text.length text).getD text.length

end Utf16

section Range

structure LspRange where
  line : Nat
  start : Nat
  stop : Nat
  deriving DecidableEq

/-- The range of a record in a file of the given lines. -/
def range (lines : List Bytes) (record : DbRecord) : LspRange :=
  let start := record.column - 1
  let start := match (if record.line = 0 then none else lines[record.line-1]?) with
    | some line => utf16Length (line.take (min start line.length))
    | none => start
  ⟨record.line-1,start,start + utf16Length (utf8 (qualifiedLeaf record.symbol))⟩

end Range

section Decodes

/-- The bytes are a sequence of code points of so many UTF-16 units. -/
inductive Decodes : Bytes → Nat → Prop where
  | nil : Decodes [] 0
  | cons (text rest : Bytes) (codepoint units : Nat) (first : nextCodePoint text = some (codepoint,rest))
      (tail : Decodes rest units) : Decodes text (width codepoint + units)

theorem continued_append {codepoint n result : Nat} {text rest : Bytes} (more : Bytes)
    (found : continued codepoint n text = some (result,rest)) :
    continued codepoint n (text ++ more) = some (result,rest ++ more) := by
  induction n generalizing codepoint text with
  | zero =>
    simp only [continued,Option.some.injEq,Prod.mk.injEq] at found ⊢
    exact ⟨found.1,by rw [found.2]⟩
  | succ n ih =>
    cases text with
    | nil => simp [continued] at found
    | cons byte text =>
      rw [continued] at found
      rw [List.cons_append,continued]
      split at found
      · contradiction
      · rename_i follows
        rw [if_neg follows]
        exact ih found

theorem continued_split {codepoint n result : Nat} {text rest : Bytes}
    (found : continued codepoint n text = some (result,rest)) :
    ∃ used, text = used ++ rest ∧ continued codepoint n used = some (result,[]) := by
  induction n generalizing codepoint text with
  | zero =>
    simp only [continued,Option.some.injEq,Prod.mk.injEq] at found
    exact ⟨[],by simp [found.2],by simp [continued,found.1]⟩
  | succ n ih =>
    cases text with
    | nil => simp [continued] at found
    | cons byte text =>
      rw [continued] at found
      split at found
      · contradiction
      · rename_i follows
        obtain ⟨used,rfl,again⟩ := ih found
        exact ⟨byte::used,rfl,by rw [continued,if_neg follows,again]⟩

theorem nextCodePoint_cons {first : UInt8} {text rest : Bytes} {codepoint : Nat} :
    nextCodePoint (first::text) = some (codepoint,rest) ↔ ∃ length lead, leadByte first = some (length,lead) ∧
      continued lead length text = some (codepoint,rest) ∧ scalar codepoint = true := by
  simp only [nextCodePoint,bind,Option.bind_eq_some_iff,Prod.exists]
  refine exists₂_congr (fun length lead => and_congr_right (fun _ => ?_))
  constructor
  · intro ⟨c,r,found,accepted⟩
    split at accepted
    · rename_i valid
      cases Option.some.inj accepted
      exact ⟨found,valid⟩
    · contradiction
  · intro ⟨found,valid⟩
    exact ⟨codepoint,rest,found,by rw [if_pos valid]⟩

theorem nextCodePoint_append {codepoint : Nat} {text rest : Bytes} (more : Bytes)
    (found : nextCodePoint text = some (codepoint,rest)) :
    nextCodePoint (text ++ more) = some (codepoint,rest ++ more) := by
  cases text with
  | nil => contradiction
  | cons first text =>
    obtain ⟨length,lead,led,follows,valid⟩ := nextCodePoint_cons.mp found
    exact nextCodePoint_cons.mpr ⟨length,lead,led,continued_append more follows,valid⟩

theorem nextCodePoint_split {codepoint : Nat} {text rest : Bytes}
    (found : nextCodePoint text = some (codepoint,rest)) :
    ∃ used, used ≠ [] ∧ text = used ++ rest ∧ nextCodePoint used = some (codepoint,[]) := by
  cases text with
  | nil => contradiction
  | cons first text =>
    obtain ⟨length,lead,led,follows,valid⟩ := nextCodePoint_cons.mp found
    obtain ⟨used,rfl,alone⟩ := continued_split follows
    exact ⟨first::used,by simp,rfl,nextCodePoint_cons.mpr ⟨length,lead,led,alone,valid⟩⟩

theorem nextCodePoint_length {codepoint : Nat} {text rest : Bytes}
    (found : nextCodePoint text = some (codepoint,rest)) : rest.length < text.length := by
  obtain ⟨used,present,rfl,_⟩ := nextCodePoint_split found
  have positive := List.length_pos_iff.mpr present
  rw [List.length_append]
  omega

theorem width_cases (codepoint : Nat) : width codepoint = 1 ∨ width codepoint = 2 := by
  unfold width
  split <;> simp

theorem Decodes.append {first second : Bytes} {m n : Nat} (left : Decodes first m) (right : Decodes second n) :
    Decodes (first ++ second) (m+n) := by
  induction left with
  | nil => simpa using right
  | cons text rest codepoint units found _ ih =>
    rw [Nat.add_assoc]
    exact .cons _ _ codepoint _ (nextCodePoint_append second found) ih

theorem Decodes.advance {text rest : Bytes} {codepoint k : Nat} (decoded : Decodes text k)
    (first : nextCodePoint text = some (codepoint,rest)) : ∃ n, k = width codepoint + n ∧ Decodes rest n := by
  cases decoded with
  | nil => contradiction
  | cons _ rest' codepoint' n found tail =>
    cases Option.some.inj (first.symm.trans found)
    exact ⟨n,rfl,tail⟩

/-- Decoding goes from left to right, so what follows a decoded text decodes on its own. -/
theorem Decodes.rest {first second : Bytes} {m k : Nat} (left : Decodes first m) (whole : Decodes (first ++ second) k) :
    ∃ n, k = m+n ∧ Decodes second n := by
  induction left generalizing k with
  | nil => exact ⟨k,by simp,whole⟩
  | cons text rest codepoint units found _ ih =>
    obtain ⟨middle,rfl,tail⟩ := whole.advance (nextCodePoint_append second found)
    obtain ⟨n,rfl,decoded⟩ := ih tail
    exact ⟨n,by rw [Nat.add_assoc],decoded⟩

theorem decodes_nil {units : Nat} : Decodes [] units ↔ units = 0 := by
  constructor
  · intro decoded
    cases decoded with
    | nil => rfl
    | cons _ _ _ _ found => contradiction
  · intro none
    subst none
    exact .nil

theorem decodes_undecodable {text : Bytes} (present : text ≠ []) (stuck : nextCodePoint text = none) (units : Nat) :
    ¬ Decodes text units := by
  intro decoded
  cases decoded with
  | nil => exact present rfl
  | cons _ _ _ _ found => rw [stuck] at found; contradiction

theorem utf16Units_iff {fuel : Nat} {text : Bytes} (enough : text.length ≤ fuel) {units : Nat} :
    utf16Units fuel text = some units ↔ Decodes text units := by
  induction fuel generalizing text units with
  | zero =>
    obtain rfl := List.length_eq_zero_iff.mp (Nat.le_zero.mp enough)
    simp [utf16Units,decodes_nil,eq_comm]
  | succ fuel ih =>
    cases text with
    | nil => simp [utf16Units,decodes_nil,eq_comm]
    | cons first text =>
      simp only [utf16Units]
      cases found : nextCodePoint (first::text) with
      | none => simp [decodes_undecodable (by simp) found]
      | some pair =>
        obtain ⟨codepoint,rest⟩ := pair
        have shorter := nextCodePoint_length found
        simp only [Option.map_eq_some_iff]
        constructor
        · intro ⟨n,tail,same⟩
          subst same
          exact .cons _ rest codepoint n found ((ih (by omega)).mp tail)
        · intro decoded
          obtain ⟨n,rfl,tail⟩ := decoded.advance found
          exact ⟨n,(ih (by omega)).mpr tail,rfl⟩

theorem utf16Length_decodes {text : Bytes} {units : Nat} (decoded : Decodes text units) : utf16Length text = units := by
  rw [utf16Length,(utf16Units_iff (Nat.le_refl _)).mpr decoded,Option.getD_some]

theorem decodes_zero {text : Bytes} : Decodes text 0 ↔ text = [] := by
  constructor
  · intro decoded
    generalize none : 0 = units at decoded
    cases decoded with
    | nil => rfl
    | cons _ _ codepoint units _ _ =>
      have wide := width_cases codepoint
      omega
  · intro empty
    subst empty
    exact .nil

/-- A text of at least one unit starts with a code point. -/
theorem Decodes.first {text : Bytes} {units : Nat} (decoded : Decodes text units) (positive : 0 < units) :
    ∃ codepoint rest n, nextCodePoint text = some (codepoint,rest) ∧ units = width codepoint + n ∧ Decodes rest n := by
  cases decoded with
  | nil => omega
  | cons _ rest codepoint n found tail => exact ⟨codepoint,rest,n,found,rfl,tail⟩

-- the columns of a text are those of its first code point and, behind it, those of the rest
theorem byteOffset_step {units codepoint : Nat} {text rest : Bytes} (positive : 0 < units)
    (found : nextCodePoint text = some (codepoint,rest)) : byteOffset units text =
      if width codepoint ≤ units then
        (byteOffset (units - width codepoint) rest).map (fun offset => text.length - rest.length + offset)
      else none := by
  obtain ⟨units,rfl⟩ := Nat.exists_eq_add_one_of_ne_zero (Nat.ne_of_gt positive)
  simp only [byteOffset,found]
  obtain one | two := width_cases codepoint
  · simp [one]
  · cases units with
    | zero => simp [two]
    | succ units => simp [two]

/-- A column is at an offset just where the bytes before it decode to so many units. -/
theorem byteOffset_iff {units : Nat} {text : Bytes} {offset : Nat} : byteOffset units text = some offset ↔
    ∃ before after, text = before ++ after ∧ before.length = offset ∧ Decodes before units := by
  induction units using Nat.strong_induction_on generalizing text offset with
  | _ units ih =>
    obtain rfl | positive := Nat.eq_zero_or_pos units
    · constructor
      · intro found
        cases found
        exact ⟨[],text,rfl,rfl,.nil⟩
      · intro ⟨before,after,shape,length,decoded⟩
        obtain rfl := decodes_zero.mp decoded
        subst length
        rfl
    · cases found : nextCodePoint text with
      | none =>
        have stuck : byteOffset units text = none := by
          obtain ⟨units,rfl⟩ := Nat.exists_eq_add_one_of_ne_zero (Nat.ne_of_gt positive)
          simp only [byteOffset,found]
        simp only [stuck,reduceCtorEq,false_iff]
        intro ⟨before,after,shape,_,decoded⟩
        obtain ⟨codepoint,rest,n,first,_,_⟩ := decoded.first positive
        rw [shape,nextCodePoint_append after first] at found
        contradiction
      | some pair =>
        obtain ⟨codepoint,rest⟩ := pair
        have wide := width_cases codepoint
        obtain ⟨used,_,shape,alone⟩ := nextCodePoint_split found
        rw [byteOffset_step positive found]
        constructor
        · intro located
          split at located
          · rename_i room
            obtain ⟨behind,inner,same⟩ := Option.map_eq_some_iff.mp located
            obtain ⟨before,after,split,length,decoded⟩ := (ih _ (by omega)).mp inner
            subst shape split length
            refine ⟨used ++ before,after,by simp,by simp at same ⊢; omega,?_⟩
            have whole := Decodes.cons _ _ codepoint _ (nextCodePoint_append before alone) decoded
            rwa [Nat.add_sub_cancel' room] at whole
          · contradiction
        · intro ⟨before,after,split,length,decoded⟩
          obtain ⟨codepoint',rest',n,first,rfl,tail⟩ := decoded.first positive
          have same := nextCodePoint_append after first
          rw [← split,found] at same
          cases Option.some.inj same
          have inner := (ih n (by omega)).mpr ⟨rest',after,rfl,rfl,tail⟩
          have shorter := nextCodePoint_length first
          rw [if_pos (Nat.le_add_right _ _),Nat.add_sub_cancel_left,inner,Option.map_some,split,← length]
          congr 1
          simp only [List.length_append]
          omega

end Decodes

end Semindex.Lsp
