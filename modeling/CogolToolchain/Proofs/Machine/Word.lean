import CogolToolchain.Machine.Basic
import CogolToolchain.Text.Numeral
import Mathlib.Tactic.Common

/-!
Machine words that come from integers: the word of an integer is the integer modulo 2^16.
-/

namespace CogolToolchain

namespace Numeral

lemma wrap32_of_fits {v : Int} (h : Fits32 v) : wrap32 v = v := by
  have := h.1
  have := h.2
  exact Int.bmod_eq_of_le (by omega) (by omega)

lemma wrap32_inj {m n : Nat} (hm : m < 4294967296) (hn : n < 4294967296)
    (h : wrap32 m = wrap32 n) : m = n := by
  simp only [wrap32, Int.bmod] at h
  split at h <;> split at h <;> omega

end Numeral

namespace Word

lemma toNat_ofInt (n : Int) : (UInt16.ofInt n).toNat = (n % 65536).toNat := by
  have h : (n % 65536).toNat < 65536 := by omega
  simp only [UInt16.ofInt, Int.reducePow, UInt16.toNat_ofNat', Nat.reducePow]
  exact Nat.mod_eq_of_lt h

lemma ofInt_eq_iff {n k : Int} : UInt16.ofInt n = UInt16.ofInt k ↔ n % 65536 = k % 65536 := by
  rw [← UInt16.toNat_inj, toNat_ofInt, toNat_ofInt]
  omega

lemma ofInt_natCast (n : Nat) : UInt16.ofInt n = UInt16.ofNat n := by
  rw [← UInt16.toNat_inj, toNat_ofInt, UInt16.toNat_ofNat']
  omega

lemma ofNat_inj {a b : Nat} (ha : a < 65536) (hb : b < 65536)
    (h : UInt16.ofNat a = UInt16.ofNat b) : a = b := by
  have := congrArg UInt16.toNat h
  rw [UInt16.toNat_ofNat', UInt16.toNat_ofNat'] at this
  omega

lemma ofNat_ne_of_lt {a b : Nat} (hlt : b < a) (ha : a < 65536) : UInt16.ofNat a ≠ UInt16.ofNat b :=
  fun h => absurd (ofNat_inj ha (by omega) h) (by omega)

@[simp] lemma ofInt_wrap32 (n : Int) : UInt16.ofInt (Numeral.wrap32 n) = UInt16.ofInt n := by
  rw [ofInt_eq_iff, Numeral.wrap32, Int.bmod]
  split <;> omega

lemma isNegative_iff (w : Word) : isNegative w = true ↔ 32768 ≤ w.toNat := by
  simp [isNegative, UInt16.le_iff_toNat_le]

/-- Of a constant the sign bit is that of its last 16 bits. -/
lemma isNegative_ofInt_iff (n : Int) : isNegative (UInt16.ofInt n) = true ↔ 32768 ≤ n % 65536 := by
  rw [isNegative_iff, toNat_ofInt]
  omega

lemma isNegative_ofInt {n : Int} (h : -32768 ≤ n ∧ n ≤ 32767) :
    isNegative (UInt16.ofInt n) = decide (n < 0) := by
  rw [Bool.eq_iff_iff, isNegative_ofInt_iff, decide_eq_true_eq]
  omega

lemma ofInt_eq_zero_iff (n : Int) : UInt16.ofInt n = 0 ↔ n % 65536 = 0 := by
  rw [← UInt16.toNat_inj, toNat_ofInt, UInt16.toNat_zero]
  omega

/-- `y - x - 1` is the complement of `x - y`. -/
lemma isNegative_sub_sub_one (x y : Word) : isNegative (y - x - 1) = !isNegative (x - y) := by
  have hx := x.toNat_lt
  have hy := y.toNat_lt
  rw [Bool.eq_iff_iff, Bool.not_eq_true', Bool.eq_false_iff, ne_eq, isNegative_iff, isNegative_iff,
    UInt16.toNat_sub, UInt16.toNat_sub, UInt16.toNat_sub, UInt16.toNat_one]
  omega

/-- Only for zero does `(d - 1) & ~d` have its sign bit set. -/
lemma isNegative_sub_one_and_not (d : Word) : isNegative ((d - 1) &&& ~~~d) = decide (d = 0) := by
  have hmsb : ∀ w : Word, isNegative w = w.toBitVec.msb := fun w => by
    rw [BitVec.msb_eq_decide, Bool.eq_iff_iff, isNegative_iff]
    simp
  have hand : isNegative ((d - 1) &&& ~~~d) = (isNegative (d - 1) && !isNegative d) := by
    simp [hmsb]
  have hd := d.toNat_lt
  rw [hand, Bool.eq_iff_iff, Bool.and_eq_true, Bool.not_eq_true', Bool.eq_false_iff, ne_eq,
    isNegative_iff, isNegative_iff, decide_eq_true_eq, ← UInt16.toNat_inj, UInt16.toNat_sub,
    UInt16.toNat_one, UInt16.toNat_zero]
  omega

end Word
end CogolToolchain
