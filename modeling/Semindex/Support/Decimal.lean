import Semindex.Text
import Mathlib.Algebra.Order.Group.Unbundled.Int
import Mathlib.Data.Nat.Digits.Defs

/-! Numbers in decimal digits, without zeros in front. -/
namespace Semindex

def decimal (n : Nat) : Text := Nat.toDigits 10 n

def decimalBytes (n : Nat) : List UInt8 := utf8 (decimal n)

-- `%d` and `std::to_string`
def signedDecimal (n : Int) : Text := if n < 0 then '-'::decimal n.natAbs else decimal n.natAbs

/-- The numerals of the numbers, digit by digit. -/
inductive Numeral : Nat → Text → Prop
  | digit {d : Nat} (small : d < 10) : Numeral d [Char.ofNat (48 + d)]
  | behind {n d : Nat} {text : Text} (front : Numeral n text) (positive : 0 < n) (small : d < 10) :
    Numeral (10 * n + d) (text ++ [Char.ofNat (48 + d)])

/-- The numerals of the integers. -/
inductive SignedNumeral : Int → Text → Prop
  | natural {n : Nat} {text : Text} (numeral : Numeral n text) : SignedNumeral n text
  | negative {n : Nat} {text : Text} (numeral : Numeral n text) (positive : 0 < n) : SignedNumeral (-n) ('-'::text)

variable {n m : Nat} {text : Text}

theorem digitChar_digit : ∀ d < 10, Nat.digitChar d = Char.ofNat (48 + d) := by decide

theorem decimal_numeral (n : Nat) : Numeral n (decimal n) := by
  unfold decimal
  induction n using Nat.strongRecOn with
  | ind n ih =>
    by_cases small : n < 10
    · rw [Nat.toDigits_of_lt_base small,digitChar_digit n small]
      exact .digit small
    · have last : n % 10 < 10 := Nat.mod_lt n (by decide)
      have front := ih (n / 10) (by omega)
      have whole := Numeral.behind front (by omega) last
      rw [Nat.toDigits_of_base_le (by decide) (by omega),digitChar_digit _ last]
      rwa [Nat.div_add_mod] at whole

theorem numeral_iff : Numeral n text ↔ text = decimal n := by
  constructor
  · intro numeral
    unfold decimal
    induction numeral with
    | digit small => rw [Nat.toDigits_of_lt_base small,digitChar_digit _ small]
    | behind _ positive small ih =>
      rw [← Nat.toDigits_append_toDigits (by decide) positive small,Nat.toDigits_of_lt_base small,digitChar_digit _ small,ih]
  · intro same
    rw [same]
    exact decimal_numeral n

theorem signedNumeral_iff {n : Int} : SignedNumeral n text ↔ text = signedDecimal n := by
  unfold signedDecimal
  constructor
  · intro numeral
    cases numeral with
    | natural numeral => rw [if_neg (by omega),Int.natAbs_natCast,numeral_iff.mp numeral]
    | negative numeral positive => rw [if_pos (by omega),Int.natAbs_neg,Int.natAbs_natCast,numeral_iff.mp numeral]
  · intro same
    rw [same]
    split_ifs with negative
    · have absolute : n = -(n.natAbs : Int) := by omega
      conv => arg 1; rw [absolute]
      exact .negative (decimal_numeral _) (by omega)
    · have absolute : n = (n.natAbs : Int) := by omega
      conv => arg 1; rw [absolute]
      exact .natural (decimal_numeral _)

theorem decimal_injective (same : decimal n = decimal m) : n = m := by
  unfold decimal at same
  rw [← @Nat.ofDigitChars_toDigits 10 n (by decide) (by decide),same,
    Nat.ofDigitChars_toDigits (by decide) (by decide)]

theorem decimal_unsigned {rest : Text} : decimal n ≠ '-'::rest := by
  intro same
  have digit := @Nat.isDigit_of_mem_toDigits 10 n '-' (by decide) (by decide) (by rw [← decimal,same]; exact List.mem_cons_self)
  simp at digit

theorem signedDecimal_injective {n m : Int} (same : signedDecimal n = signedDecimal m) : n = m := by
  unfold signedDecimal at same
  split_ifs at same
  · have digits := decimal_injective (List.cons.inj same).2
    omega
  · exact absurd same.symm decimal_unsigned
  · exact absurd same decimal_unsigned
  · have digits := decimal_injective same
    omega

end Semindex
