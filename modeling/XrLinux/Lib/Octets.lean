import Mathlib.Data.Nat.Bitwise
import Mathlib.Tactic.Common

/-!
# Octets

The bytes of a number, the lowest one first. A number is known by its octets, and an expression of
masks and shifts by whole bytes is known by what each octet of it is.
-/

namespace Octets

def octet (i x : Nat) : Nat := x / 2 ^ (8 * i) % 2 ^ 8

variable {x y : Nat}

theorem testBit_octet (i x j : Nat) :
    (octet i x).testBit j = (decide (j < 8) && x.testBit (8 * i + j)) := by
  rw [octet, Nat.testBit_mod_two_pow, Nat.testBit_div_two_pow, Nat.add_comm j]

/-- Where a bit of a number is. -/
theorem testBit_eq (x j : Nat) : x.testBit j = (octet (j / 8) x).testBit (j % 8) := by
  have hpos : 8 * (j / 8) + j % 8 = j := Nat.div_add_mod j 8
  have hlt : j % 8 < 8 := Nat.mod_lt _ (by decide)
  rw [testBit_octet, hpos, decide_eq_true hlt, Bool.true_and]

theorem octet_of_lt {n i : Nat} (hx : x < 256 ^ n) (hi : n ≤ i) : octet i x = 0 := by
  have hle : 256 ^ n ≤ 2 ^ (8 * i) := by
    rw [Nat.pow_mul]
    exact Nat.pow_le_pow_right (by decide) hi
  rw [octet, Nat.div_eq_of_lt (by omega), Nat.zero_mod]

theorem lt_of_octets {n : Nat} (h : ∀ i, n ≤ i → octet i x = 0) : x < 256 ^ n := by
  have hlt : x < 2 ^ (8 * n) := by
    apply Nat.lt_pow_two_of_testBit
    intro j hj
    rw [testBit_eq, h (j / 8) (by omega), Nat.zero_testBit]
  rwa [Nat.pow_mul] at hlt

/-- A number is known by its octets. -/
theorem eq_of_octets {n : Nat} (hx : x < 256 ^ n) (hy : y < 256 ^ n)
    (h : ∀ i < n, octet i x = octet i y) : x = y := by
  apply Nat.eq_of_testBit_eq
  intro j
  rw [testBit_eq x, testBit_eq y]
  rcases Nat.lt_or_ge (j / 8) n with hlt | hge
  · rw [h _ hlt]
  · rw [octet_of_lt hx hge, octet_of_lt hy hge]

/-! ## Masks and shifts -/

theorem octet_or (i x y : Nat) : octet i (x ||| y) = octet i x ||| octet i y := by
  apply Nat.eq_of_testBit_eq
  intro j
  simp only [testBit_octet, Nat.testBit_or, Bool.and_or_distrib_left]

theorem octet_shiftRight (i x d : Nat) : octet i (x >>> (8 * d)) = octet (i + d) x := by
  apply Nat.eq_of_testBit_eq
  intro j
  rw [testBit_octet, testBit_octet, Nat.testBit_shiftRight]
  congr 2
  omega

theorem octet_shiftLeft (i x d : Nat) :
    octet i (x <<< (8 * d)) = if d ≤ i then octet (i - d) x else 0 := by
  apply Nat.eq_of_testBit_eq
  intro j
  rw [testBit_octet, Nat.testBit_shiftLeft]
  by_cases hj : j < 8
  · by_cases hd : d ≤ i
    · rw [if_pos hd, testBit_octet, decide_eq_true (show 8 * i + j ≥ 8 * d by omega), Bool.true_and,
        show 8 * i + j - 8 * d = 8 * (i - d) + j by omega]
    · rw [if_neg hd, decide_eq_false (show ¬ 8 * i + j ≥ 8 * d by omega), Nat.zero_testBit,
        Bool.false_and, Bool.and_false]
  · have hno : ∀ z, (octet (i - d) z).testBit j = false := fun z => by
      rw [testBit_octet, decide_eq_false hj, Bool.false_and]
    rw [decide_eq_false hj, Bool.false_and]
    split
    · exact (hno x).symm
    · exact (Nat.zero_testBit j).symm

/-- A mask that leaves one octet. -/
theorem octet_and_mask (i x k : Nat) :
    octet i (x &&& 255 <<< (8 * k)) = if i = k then octet k x else 0 := by
  apply Nat.eq_of_testBit_eq
  intro j
  have hones : (255 : Nat).testBit (8 * i + j - 8 * k) = decide (8 * i + j - 8 * k < 8) :=
    Nat.testBit_two_pow_sub_one 8 _
  rw [testBit_octet, Nat.testBit_and, Nat.testBit_shiftLeft, hones]
  by_cases hi : i = k
  · subst hi
    rw [if_pos rfl, testBit_octet]
    by_cases hj : j < 8
    · simp [hj]
    · simp [hj]
  · rw [if_neg hi, Nat.zero_testBit]
    by_cases hj : j < 8
    · -- the bit is below the mask or above it
      have hmask : ¬ (8 * i + j ≥ 8 * k ∧ 8 * i + j - 8 * k < 8) := by omega
      simp only [← Bool.decide_and, decide_eq_false hmask, Bool.and_false]
    · simp [hj]

/-- An octet that is moved up. -/
theorem octet_up (i x k d : Nat) :
    octet i ((x &&& 255 <<< (8 * k)) <<< (8 * d)) = if i = k + d then octet k x else 0 := by
  rw [octet_shiftLeft, octet_and_mask]
  split_ifs <;> first | rfl | omega

end Octets
