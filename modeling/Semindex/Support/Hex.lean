import Semindex.Support.Json
import Mathlib.Algebra.Group.Nat.Defs

/-! Numbers as hexadecimal digits, with zeros in front. -/
namespace Semindex.Hex
open Semindex.Json

-- `%0*llx`, for so many digits
def fixedHex : Nat → Nat → Text
  | 0,_ => []
  | k+1,n => fixedHex k (n / 16) ++ [Nat.digitChar (n % 16)]

def hexValue (text : Text) : Option Nat := text.foldlM (fun value c => (hexDigit c).map (value * 16 + ·)) 0

variable {k n : Nat}

theorem hexDigit_digitChar : ∀ d < 16, hexDigit (Nat.digitChar d) = some d := by decide

@[simp] theorem length_fixedHex (k n : Nat) : (fixedHex k n).length = k := by
  induction k generalizing n with
  | zero => rfl
  | succ k ih => rw [fixedHex,List.length_append,ih,List.length_singleton]

theorem hexValue_fixedHex (fits : n < 16 ^ k) : hexValue (fixedHex k n) = some n := by
  induction k generalizing n with
  | zero =>
    rw [Nat.lt_one_iff.mp fits]
    rfl
  | succ k ih =>
    have front : hexValue (fixedHex k (n / 16)) = some (n / 16) := ih (by rw [Nat.pow_succ] at fits; omega)
    unfold hexValue at front
    rw [fixedHex,hexValue,List.foldlM_append,front]
    simp [hexDigit_digitChar (n % 16) (Nat.mod_lt n (by decide))]
    omega

end Semindex.Hex
