import Mathlib.Data.Int.ModEq
import Mathlib.Data.Nat.ModEq

/-!
# Counts in machine words

A counter that only grows is kept in a word of `w` bits, so that the word is the count modulo
`2 ^ w`.  Two counts that are close are compared by the sign of the difference of their words.

* `ofNat_inj` — the words of counts that are less than `2 ^ w` apart are equal only for equal
  counts.
* `toInt_sub_lt_zero`, `toInt_sub_eq_zero` — the sign of the difference.
* `and_mask` — a mask of ones is a remainder.
-/

set_option autoImplicit false

namespace Ticket

theorem eq_of_mod_eq {a b n : Nat} (h : a % n = b % n) (hab : a < b + n) (hba : b < a + n) :
    a = b := by
  rcases Nat.le_total a b with hle | hle
  · have hdvd : n ∣ b - a := (Nat.modEq_iff_dvd' hle).mp h
    have hzero : b - a = 0 := Nat.eq_zero_of_dvd_of_lt hdvd (by omega)
    omega
  · have hdvd : n ∣ a - b := (Nat.modEq_iff_dvd' hle).mp h.symm
    have hzero : a - b = 0 := Nat.eq_zero_of_dvd_of_lt hdvd (by omega)
    omega

theorem succ_mod_ne {a n : Nat} (hn : 2 ≤ n) : (a + 1) % n ≠ a % n := by
  intro h
  have := eq_of_mod_eq h (by omega) (by omega)
  omega

variable {w : Nat}

theorem ofNat_inj {a b : Nat} (h : BitVec.ofNat w a = BitVec.ofNat w b) (hab : a < b + 2 ^ w)
    (hba : b < a + 2 ^ w) : a = b := by
  have hmod := congrArg BitVec.toNat h
  rw [BitVec.toNat_ofNat, BitVec.toNat_ofNat] at hmod
  exact eq_of_mod_eq hmod hab hba

theorem ofNat_succ (a : Nat) : BitVec.ofNat w a + 1 = BitVec.ofNat w (a + 1) :=
  (BitVec.ofNat_add a 1).symm

theorem toInt_sub (a b : Nat) :
    (BitVec.ofNat w a - BitVec.ofNat w b).toInt = ((a : Int) - b).bmod (2 ^ w) := by
  rw [BitVec.toInt_sub, BitVec.toInt_ofNat', BitVec.toInt_ofNat', ← Int.sub_bmod]

/-- The difference of close counts. -/
theorem toInt_sub_of_near {a b : Nat} (hle : b ≤ a + 2 ^ w) (hlt : a < b + 2 ^ w) :
    (BitVec.ofNat (w + 1) a - BitVec.ofNat (w + 1) b).toInt = (a : Int) - b := by
  rw [toInt_sub]
  refine Int.bmod_eq_of_le_mul_two ?_ ?_
  · rw [pow_succ]
    push_cast
    have : (b : Int) ≤ a + 2 ^ w := by exact_mod_cast hle
    omega
  · rw [pow_succ]
    push_cast
    have : (a : Int) < b + 2 ^ w := by exact_mod_cast hlt
    omega

theorem toInt_sub_eq_zero {x y : BitVec w} : (x - y).toInt = 0 ↔ x = y := by
  rw [← BitVec.toInt_zero (w := w), BitVec.toInt_inj, BitVec.sub_eq_iff_eq_add, BitVec.zero_add]

/-- A mask of ones is a remainder. -/
theorem and_mask {k : Nat} (hk : k ≤ w) (a : Nat) :
    (BitVec.ofNat w a &&& BitVec.ofNat w (2 ^ k - 1)).toNat = a % 2 ^ k := by
  have hpow : 2 ^ k ≤ 2 ^ w := Nat.pow_le_pow_right (by decide) hk
  have hpos : 0 < 2 ^ k := Nat.two_pow_pos k
  rw [BitVec.toNat_and, BitVec.toNat_ofNat, BitVec.toNat_ofNat,
    Nat.mod_eq_of_lt (show 2 ^ k - 1 < 2 ^ w by omega), Nat.and_two_pow_sub_one_eq_mod,
    Nat.mod_mod_of_dvd _ (Nat.pow_dvd_pow 2 hk)]

end Ticket
