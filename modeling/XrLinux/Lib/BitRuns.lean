import Mathlib.Data.BitVec
import Mathlib.Tactic.Common

/-!
# Runs of bits

What a run of bits says about a word as a number: zeros at the lower end say that it is a multiple,
zeros at the upper end that it is small, and equal bits at the upper end that it is small with its
sign.
-/

namespace BitRuns

variable {n : Nat}

/-- The bits below `s` are zero. -/
theorem dvd_toNat_iff (x : BitVec n) (s : Nat) :
    2 ^ s ∣ x.toNat ↔ ∀ i < s, x.getLsbD i = false := by
  constructor
  · intro ⟨q, hq⟩ i hi
    rw [BitVec.getLsbD, hq, Nat.testBit_two_pow_mul, decide_eq_false (show ¬ i ≥ s by omega),
      Bool.false_and]
  · intro h
    apply Nat.dvd_of_mod_eq_zero
    apply Nat.eq_of_testBit_eq
    intro i
    rw [Nat.testBit_mod_two_pow, Nat.zero_testBit]
    by_cases hi : i < s
    · rw [decide_eq_true hi, Bool.true_and]
      exact h i hi
    · rw [decide_eq_false hi, Bool.false_and]

/-- The bits from `k` on are zero. -/
theorem toNat_lt_iff (x : BitVec n) (k : Nat) :
    x.toNat < 2 ^ k ↔ ∀ i, k ≤ i → x.getLsbD i = false := by
  constructor
  · intro h i hi
    have hpow : 2 ^ k ≤ 2 ^ i := Nat.pow_le_pow_right (by decide) hi
    exact Nat.testBit_lt_two_pow (by omega)
  · exact fun h => Nat.lt_pow_two_of_testBit _ h

/-- The bits from `k` on are all the same. -/
theorem sshiftRight_iff (x : BitVec n) {k : Nat} (hk : k < n) :
    x.sshiftRight k = 0 ∨ x.sshiftRight k = BitVec.allOnes n ↔
      ∀ i, k ≤ i → i < n → x.getLsbD i = x.getLsbD (n - 1) := by
  constructor
  · intro h i hki hi
    have hbit : ∀ j, k ≤ j → j < n → x.getLsbD j = (x.sshiftRight k).getLsbD (j - k) := by
      intro j hkj hj
      rw [BitVec.getLsbD_sshiftRight, if_pos (show k + (j - k) < n by omega),
        Nat.add_sub_cancel' hkj, decide_eq_false (show ¬ n ≤ j - k by omega), Bool.not_false,
        Bool.true_and]
    rw [hbit i hki hi, hbit (n - 1) (by omega) (by omega)]
    rcases h with h | h
    · rw [h]
      exact BitVec.getLsbD_zero.trans BitVec.getLsbD_zero.symm
    · rw [h, BitVec.getLsbD_allOnes, BitVec.getLsbD_allOnes, decide_eq_true (by omega),
        decide_eq_true (by omega)]
  · intro h
    have hall : ∀ i < n, (x.sshiftRight k).getLsbD i = x.msb := by
      intro i hi
      rw [BitVec.getLsbD_sshiftRight, decide_eq_false (show ¬ n ≤ i by omega), Bool.not_false,
        Bool.true_and]
      split_ifs with hin
      · rw [BitVec.msb_eq_getLsbD_last, h (k + i) (by omega) hin]
      · rfl
    cases hsign : x.msb with
    | false =>
      left
      apply BitVec.eq_of_getLsbD_eq
      intro i hi
      rw [hall i hi, hsign]
      exact BitVec.getLsbD_zero.symm
    | true =>
      right
      apply BitVec.eq_of_getLsbD_eq
      intro i hi
      rw [hall i hi, hsign, BitVec.getLsbD_allOnes, decide_eq_true hi]

/-- The bits from `k` on are those of the sign. -/
theorem toInt_range_iff (x : BitVec n) {k : Nat} (hk : k < n) :
    -(2 ^ k : Int) ≤ x.toInt ∧ x.toInt < 2 ^ k ↔
      ∀ i, k ≤ i → i < n → x.getLsbD i = x.getLsbD (n - 1) := by
  have hshift : (x.sshiftRight k).toInt = x.toInt / 2 ^ k := by
    rw [BitVec.toInt_sshiftRight, Int.shiftRight_eq_div_pow]
    norm_cast
  have hpos : (0 : Int) < 2 ^ k := by exact_mod_cast Nat.two_pow_pos k
  have hzero : (0 : BitVec n).toInt = 0 := BitVec.toInt_zero
  have hones : (BitVec.allOnes n).toInt = -1 := by rw [BitVec.toInt_allOnes, if_pos (by omega)]
  rw [← sshiftRight_iff x hk, ← BitVec.toInt_inj, ← BitVec.toInt_inj, hzero, hones, hshift]
  -- the quotient is 0 or -1
  constructor
  · intro ⟨hlo, hhi⟩
    have hle : -1 ≤ x.toInt / 2 ^ k := (Int.le_ediv_iff_mul_le hpos).mpr (by omega)
    have hlt : x.toInt / 2 ^ k < 1 := Int.ediv_lt_of_lt_mul hpos (by omega)
    omega
  · intro h
    have hdiv := Int.mul_ediv_add_emod x.toInt (2 ^ k)
    have hmod := Int.emod_nonneg x.toInt hpos.ne'
    have hmod_lt := Int.emod_lt_of_pos x.toInt hpos
    rcases h with h | h <;> rw [h] at hdiv <;> omega

end BitRuns
