import Semindex.Support.Utf8

/-! UTF-16: the units of a text, and which of them may start a character. -/
namespace Semindex

def utf16Char (c : Char) : List Nat :=
  if c.toNat ≤ 0xffff then [c.toNat]
  else [0xd800 + (c.toNat - 0x10000) / 0x400,0xdc00 + (c.toNat - 0x10000) % 0x400]

def utf16 (text : Text) : List Nat := text.flatMap utf16Char

/-- The second unit of a surrogate pair. -/
def LowSurrogate (unit : Nat) : Prop := 0xdc00 ≤ unit ∧ unit ≤ 0xdfff

/-- The offset lies between the units of a surrogate pair. -/
def SplitsPair (text : Text) (offset : Nat) : Prop := ∃ unit, (utf16 text)[offset]? = some unit ∧ LowSurrogate unit

section Units
variable {c : Char} {text : Text} {offset : Nat}

theorem utf16_cons (c : Char) (text : Text) : utf16 (c::text) = utf16Char c ++ utf16 text := rfl

theorem utf16_append (first second : Text) : utf16 (first ++ second) = utf16 first ++ utf16 second := List.flatMap_append

theorem char_scalar (c : Char) : c.toNat < 0xd800 ∨ 0xdfff < c.toNat ∧ c.toNat < 0x110000 := c.valid

theorem utf16Char_cases (c : Char) :
    (c.toNat ≤ 0xffff ∧ utf16Char c = [c.toNat] ∧ ¬ LowSurrogate c.toNat) ∨
      ∃ high low, 0xffff < c.toNat ∧ utf16Char c = [high,low] ∧ ¬ LowSurrogate high ∧ LowSurrogate low := by
  have scalar := char_scalar c
  unfold utf16Char
  by_cases small : c.toNat ≤ 0xffff
  · rw [if_pos small]
    exact .inl ⟨small,rfl,by unfold LowSurrogate; omega⟩
  · rw [if_neg small]
    refine .inr ⟨_,_,by omega,rfl,?_,?_⟩
    · unfold LowSurrogate
      omega
    · unfold LowSurrogate
      omega

/-- No character starts with the second unit of a pair. -/
theorem boundary_whole (first second : Text) : ¬ SplitsPair (first ++ second) (utf16 first).length := by
  intro ⟨unit,found,low⟩
  rw [utf16_append,List.getElem?_append_right (Nat.le_refl _),Nat.sub_self] at found
  cases second with
  | nil => cases found
  | cons c second =>
    rw [utf16_cons] at found
    rcases utf16Char_cases c with ⟨_,single,plain⟩ | ⟨high,_,_,pair,plain,_⟩
    · rw [single] at found
      exact plain (Option.some.inj found ▸ low)
    · rw [pair] at found
      exact plain (Option.some.inj found ▸ low)

/-- An offset is that of a character or of the end, lies in a pair, or is too large. -/
theorem offset_cases (text : Text) (offset : Nat) :
    (∃ first second, text = first ++ second ∧ (utf16 first).length = offset) ∨ SplitsPair text offset ∨
      (utf16 text).length < offset := by
  induction text generalizing offset with
  | nil =>
    rcases Nat.eq_zero_or_pos offset with rfl | positive
    · exact .inl ⟨[],[],rfl,rfl⟩
    · exact .inr (.inr positive)
  | cons c text ih =>
    rcases Nat.eq_zero_or_pos offset with rfl | positive
    · exact .inl ⟨[],c::text,rfl,rfl⟩
    · by_cases inner : (utf16Char c).length ≤ offset
      · rcases ih (offset - (utf16Char c).length) with ⟨first,second,split,units⟩ | ⟨unit,found,low⟩ | large
        · refine .inl ⟨c::first,second,by rw [split]; rfl,?_⟩
          rw [utf16_cons,List.length_append]
          omega
        · refine .inr (.inl ⟨unit,?_,low⟩)
          rw [utf16_cons,List.getElem?_append_right inner]
          exact found
        · refine .inr (.inr ?_)
          rw [utf16_cons,List.length_append]
          omega
      · rcases utf16Char_cases c with ⟨_,single,_⟩ | ⟨high,low,_,pair,_,second⟩
        · rw [single,List.length_singleton] at inner
          omega
        · rw [pair] at inner
          obtain rfl : offset = 1 := by
            simp at inner
            omega
          refine .inr (.inl ⟨low,?_,second⟩)
          rw [utf16_cons,pair]
          rfl

end Units
end Semindex
