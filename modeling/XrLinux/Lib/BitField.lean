import Mathlib.Data.BitVec
import Mathlib.Tactic.Common

/-!
# Bit fields of a word

A field is a run of consecutive bits of an `n`-bit word: `get` reads it, and `Replaces` says that
a word is another one with the field, and nothing else, replaced. The read-modify-write idioms on
words are here as lemmas: masking and merging (`replaces_merge`), and arithmetic on a field
through arithmetic on the word (`get_add_shiftLeft`).
-/

structure BitField (n : Nat) where
  shift : Nat
  width : Nat
  fits : shift + width ≤ n

namespace BitField

variable {n : Nat} (f : BitField n)

/-- Bit `i` of the word belongs to the field. -/
def Covers (i : Nat) : Prop := f.shift ≤ i ∧ i < f.shift + f.width

instance (i : Nat) : Decidable (f.Covers i) := by unfold Covers; infer_instance

def get (w : BitVec n) : BitVec f.width := w.extractLsb' f.shift f.width

/-- All ones in the field, zeros elsewhere. -/
def mask : BitVec n := (BitVec.allOnes f.width).setWidth n <<< f.shift

/-- `w'` is `w` with the field set to `v`. -/
def Replaces (v : BitVec f.width) (w w' : BitVec n) : Prop :=
  f.get w' = v ∧ ∀ i, ¬ f.Covers i → w'.getLsbD i = w.getLsbD i

theorem getLsbD_mask (i : Nat) : f.mask.getLsbD i = decide (f.Covers i) := by
  have hfits := f.fits
  simp only [mask, BitVec.getLsbD_shiftLeft, BitVec.getLsbD_setWidth, BitVec.getLsbD_allOnes,
    Covers]
  by_cases h : f.shift ≤ i ∧ i < f.shift + f.width
  · simp [h]
    omega
  · simp [h]
    omega

@[simp] theorem getElem_mask {i : Nat} (h : i < n) : f.mask[i] = decide (f.Covers i) := by
  rw [← BitVec.getLsbD_eq_getElem h, getLsbD_mask]

theorem getLsbD_get (w : BitVec n) (i : Nat) :
    (f.get w).getLsbD i = (decide (i < f.width) && w.getLsbD (f.shift + i)) := by
  simp [get, BitVec.getLsbD_extractLsb']

@[simp] theorem getElem_get (w : BitVec n) {i : Nat} (h : i < f.width) :
    (f.get w)[i] = w.getLsbD (f.shift + i) := by
  simp [← BitVec.getLsbD_eq_getElem, getLsbD_get, h]

/-- Two words with the same bits in the field have the same field. -/
theorem get_eq_get_iff {w w' : BitVec n} :
    f.get w = f.get w' ↔ ∀ i, f.Covers i → w.getLsbD i = w'.getLsbD i := by
  constructor
  · intro h i hi
    have hbit := congrArg (fun v => v.getLsbD (i - f.shift)) h
    have hlt : i - f.shift < f.width := by have := hi.1; have := hi.2; omega
    simpa [hlt, Nat.add_sub_cancel' hi.1] using hbit
  · intro h
    apply BitVec.eq_of_getLsbD_eq
    intro i hi
    simp [hi, h (f.shift + i) ⟨by omega, by omega⟩]

/-- Comparing fields is comparing masked words. -/
theorem and_mask_eq_iff {w w' : BitVec n} :
    w &&& f.mask = w' &&& f.mask ↔ f.get w = f.get w' := by
  rw [get_eq_get_iff]
  constructor
  · intro h i hi
    have hbit := congrArg (fun v => v.getLsbD i) h
    simpa [getLsbD_mask, hi] using hbit
  · intro h
    apply BitVec.eq_of_getLsbD_eq
    intro i _
    by_cases hi : f.Covers i
    · simp [getLsbD_mask, hi, h i hi]
    · simp [getLsbD_mask, hi]

/-- Two words agree outside the field. -/
theorem and_not_mask_eq_iff {w w' : BitVec n} :
    w &&& ~~~f.mask = w' &&& ~~~f.mask ↔ ∀ i, ¬ f.Covers i → w.getLsbD i = w'.getLsbD i := by
  constructor
  · intro h i hi
    by_cases hn : i < n
    · have hbit := congrArg (fun v => v.getLsbD i) h
      simpa [hi, hn] using hbit
    · rw [BitVec.getLsbD_of_ge _ _ (by omega), BitVec.getLsbD_of_ge _ _ (by omega)]
  · intro h
    apply BitVec.eq_of_getLsbD_eq
    intro i hn
    by_cases hi : f.Covers i
    · simp [getLsbD_mask, hi]
    · simp [getLsbD_mask, hi, h i hi]

theorem replaces_iff {v : BitVec f.width} {w w' : BitVec n} :
    f.Replaces v w w' ↔ f.get w' = v ∧ w' &&& ~~~f.mask = w &&& ~~~f.mask := by
  rw [Replaces, and_not_mask_eq_iff]

theorem Replaces.unique {f : BitField n} {v : BitVec f.width} {w w₁ w₂ : BitVec n}
    (h₁ : f.Replaces v w w₁) (h₂ : f.Replaces v w w₂) : w₁ = w₂ := by
  apply BitVec.eq_of_getLsbD_eq
  intro i _
  by_cases hi : f.Covers i
  · exact (f.get_eq_get_iff.1 (h₁.1.trans h₂.1.symm)) i hi
  · rw [h₁.2 i hi, h₂.2 i hi]

/-- Clear the field, then merge another word's field in. -/
theorem replaces_merge (w x : BitVec n) :
    f.Replaces (f.get x) w ((w &&& ~~~f.mask) ||| (x &&& f.mask)) := by
  constructor
  · rw [get_eq_get_iff]
    intro i hi
    simp [getLsbD_mask, hi]
  · intro i hi
    by_cases hn : i < n
    · simp [hi, hn]
    · rw [BitVec.getLsbD_of_ge _ _ (by omega), BitVec.getLsbD_of_ge _ _ (by omega)]

/-! ## A field of a computed word -/

@[simp] theorem get_and (w x : BitVec n) : f.get (w &&& x) = f.get w &&& f.get x := by
  apply BitVec.eq_of_getLsbD_eq
  intro i hi
  simp [hi]

@[simp] theorem get_or (w x : BitVec n) : f.get (w ||| x) = f.get w ||| f.get x := by
  apply BitVec.eq_of_getLsbD_eq
  intro i hi
  simp [hi]

@[simp] theorem get_xor (w x : BitVec n) : f.get (w ^^^ x) = f.get w ^^^ f.get x := by
  apply BitVec.eq_of_getLsbD_eq
  intro i hi
  simp [hi]

@[simp] theorem get_not (w : BitVec n) : f.get (~~~w) = ~~~(f.get w) := by
  have hfits := f.fits
  apply BitVec.eq_of_getLsbD_eq
  intro i hi
  have hn : f.shift + i < n := by omega
  simp [hi, hn]

@[simp] theorem get_mask : f.get f.mask = BitVec.allOnes f.width := by
  apply BitVec.eq_of_getLsbD_eq
  intro i hi
  simp [getLsbD_mask, hi, Covers]

/-- A value moved up to the field. -/
@[simp] theorem get_shiftLeft (v : BitVec n) : f.get (v <<< f.shift) = v.setWidth f.width := by
  have hfits := f.fits
  apply BitVec.eq_of_getLsbD_eq
  intro i hi
  have hn : f.shift + i < n := by omega
  have hi' : i < n := by omega
  simp [hi, hn, BitVec.getLsbD_eq_getElem hi']

/-- The field moved down, whichever bits the shift brings in from above. -/
@[simp] theorem setWidth_sshiftRight (w : BitVec n) :
    (w.sshiftRight f.shift).setWidth f.width = f.get w := by
  have hfits := f.fits
  apply BitVec.eq_of_getLsbD_eq
  intro i hi
  have hn : f.shift + i < n := by omega
  have hi' : i < n := by omega
  simp [BitVec.getElem_sshiftRight, hi, hn, hi']

theorem toNat_get (w : BitVec n) : (f.get w).toNat = w.toNat / 2 ^ f.shift % 2 ^ f.width := by
  simp [get, BitVec.extractLsb'_toNat, Nat.shiftRight_eq_div_pow]

/-- Adding a value moved up to the field adds to the field, modulo its width: below the field
there is nothing to carry from. -/
theorem get_add_shiftLeft (w v : BitVec n) :
    f.get (w + v <<< f.shift) = f.get w + v.setWidth f.width := by
  have hfits := f.fits
  apply BitVec.eq_of_toNat_eq
  have hmod : ∀ a : Nat, a % 2 ^ n / 2 ^ f.shift % 2 ^ f.width
      = a / 2 ^ f.shift % 2 ^ f.width := by
    intro a
    have hsplit : 2 ^ n = 2 ^ f.shift * 2 ^ (n - f.shift) := by
      rw [← Nat.pow_add, Nat.add_sub_cancel' (by omega)]
    rw [hsplit, Nat.mod_mul_right_div_self,
      Nat.mod_mod_of_dvd _ (Nat.pow_dvd_pow 2 (by omega))]
  have hsum : (w + v <<< f.shift).toNat % 2 ^ n
      = (w.toNat + 2 ^ f.shift * v.toNat) % 2 ^ n := by
    rw [BitVec.toNat_add, BitVec.toNat_shiftLeft, Nat.shiftLeft_eq, Nat.mod_mod, Nat.add_mod_mod,
      Nat.mul_comm v.toNat]
  rw [toNat_get, ← hmod, hsum, hmod, Nat.add_mul_div_left _ _ (Nat.two_pow_pos _),
    BitVec.toNat_add, toNat_get, BitVec.toNat_setWidth, ← Nat.add_mod]

/-! ### One bit of a 32-bit word -/

theorem getLsbD_oneShift {k j : Nat} (hk : k < 32) (hj : j < 32) :
    ((1 : BitVec 32) <<< k).getLsbD j = decide (j = k) := by
  have hone : (1 : BitVec 32).getLsbD (j - k) = decide (j - k = 0) := by
    rw [show (1 : BitVec 32) = 1#32 from rfl, BitVec.getLsbD_one]
    simp
  rw [BitVec.getLsbD_shiftLeft, hone]
  by_cases hjk : j = k
  · subst hjk
    simp [hj]
  · rw [decide_eq_false hjk]
    by_cases hlt : j < k
    · simp [hlt]
    · have hsub : ¬ j - k = 0 := by omega
      simp [hsub]

/-- Testing one bit. -/
theorem and_oneShift_eq_zero {w : BitVec 32} {k : Nat} (hk : k < 32) :
    w &&& (1 : BitVec 32) <<< k = 0 ↔ w.getLsbD k = false := by
  constructor
  · intro h
    have hbit : (w &&& (1 : BitVec 32) <<< k).getLsbD k = (0 : BitVec 32).getLsbD k := by rw [h]
    rw [BitVec.getLsbD_and, getLsbD_oneShift hk hk, decide_eq_true rfl, Bool.and_true] at hbit
    rw [hbit]
    exact BitVec.getLsbD_zero
  · intro h
    refine BitVec.eq_of_getLsbD_eq fun j hj => ?_
    rw [BitVec.getLsbD_and, getLsbD_oneShift hk hj]
    by_cases hjk : j = k
    · subst hjk
      simp [h]
    · simp [hjk]

end BitField
