import XrLinux.Lib.BitRuns
import XrLinux.Binutils.Imm

/-!
# Binutils — every kind of immediate

The `XR_IMM_*` macros have the width of what they are given: that of an instruction or an address, or
that of a `bfd_vma`. So here they are for words of any width from 32 bits on; those of the linker are
the ones of 64 bits.
-/

namespace XrLinux.Binutils.ImmFields

open BitRuns

variable {w : Nat}

/-- `XR_X`. -/
def xrX (x : BitVec w) (s n : Nat) : BitVec w := x >>> s &&& ((1 : BitVec w) <<< n - 1)

/-- `XR_IMM_SIGN`. -/
def xrImmSign (x : BitVec w) : BitVec w := -(x >>> 31 &&& (1 : BitVec w))

/-- The `n` bits from `s` on, in the field at `pos`. -/
def encodeField (s n pos : Nat) (x : BitVec w) : BitVec w := xrX x s n <<< pos

/-- The field at `pos`, as the `n` bits from `s` on. -/
def extractField (pos n s : Nat) (x : BitVec w) : BitVec w := xrX x pos n <<< s

def xrImmEncodeJ : BitVec w → BitVec w := encodeField 2 29 3
def xrImmEncodeB : BitVec w → BitVec w := encodeField 2 21 11
def xrImmEncodeI : BitVec w → BitVec w := encodeField 0 16 16
def xrImmEncodeI1 : BitVec w → BitVec w := encodeField 1 16 16
def xrImmEncodeI2 : BitVec w → BitVec w := encodeField 2 16 16
def xrImmEncodeI16 : BitVec w → BitVec w := encodeField 16 16 16
def xrImmEncodeIS : BitVec w → BitVec w := xrImmEncodeI
def xrImmEncodeS : BitVec w → BitVec w := encodeField 0 5 11
def xrImmEncodeR : BitVec w → BitVec w := encodeField 0 5 21

def xrImmExtractJ (x pc : BitVec w) : BitVec w := extractField 3 29 2 x ||| pc &&& 0x80000000
def xrImmExtractB (x : BitVec w) : BitVec w := extractField 11 21 2 x ||| xrImmSign x <<< 23
def xrImmExtractI : BitVec w → BitVec w := extractField 16 16 0
def xrImmExtractI1 : BitVec w → BitVec w := extractField 16 16 1
def xrImmExtractI2 : BitVec w → BitVec w := extractField 16 16 2
def xrImmExtractI16 : BitVec w → BitVec w := extractField 16 16 16
def xrImmExtractIS (x : BitVec w) : BitVec w := extractField 16 16 0 x ||| xrImmSign x <<< 16
def xrImmExtractS : BitVec w → BitVec w := extractField 11 5 0
def xrImmExtractR : BitVec w → BitVec w := extractField 21 5 0

inductive ImmKind where
  | j | b | i | i1 | i2 | i16 | iS | s | r
  deriving DecidableEq, Repr

namespace ImmKind

/-- The immediate is a multiple of `2 ^ scale`. -/
def scale : ImmKind → Nat
  | j | b | i2 => 2
  | i1 => 1
  | i16 => 16
  | i | iS | s | r => 0

/-- The field in the instruction. -/
def bits : ImmKind → Nat
  | j => 29
  | b => 21
  | i | i1 | i2 | i16 | iS => 16
  | s | r => 5

def pos : ImmKind → Nat
  | j => 3
  | b | s => 11
  | i | i1 | i2 | i16 | iS => 16
  | r => 21

/-- `XR_IMM_ENCODE_*`. -/
def encode : ImmKind → BitVec w → BitVec w
  | j => xrImmEncodeJ
  | b => xrImmEncodeB
  | i => xrImmEncodeI
  | i1 => xrImmEncodeI1
  | i2 => xrImmEncodeI2
  | i16 => xrImmEncodeI16
  | iS => xrImmEncodeIS
  | s => xrImmEncodeS
  | r => xrImmEncodeR

/-- `XR_IMM_EXTRACT_*`; jumps use the `pc`. -/
def extract (kind : ImmKind) (x pc : BitVec w) : BitVec w :=
  match kind with
  | j => xrImmExtractJ x pc
  | b => xrImmExtractB x
  | i => xrImmExtractI x
  | i1 => xrImmExtractI1 x
  | i2 => xrImmExtractI2 x
  | i16 => xrImmExtractI16 x
  | iS => xrImmExtractIS x
  | s => xrImmExtractS x
  | r => xrImmExtractR x

/-- `XR_IMM_VALID_*`. There is none for `s`, where it would be the same. -/
def Valid (kind : ImmKind) (x pc : BitVec w) : Prop := kind.extract (kind.encode x) pc = x

/-- The multiples of the scale in the range of the kind. -/
def InRange (kind : ImmKind) (x pc : BitVec w) : Prop :=
  match kind with
  | j => 4 ∣ x.toNat ∧ x.toNat / 2 ^ 31 = pc.toNat / 2 ^ 31 % 2
  | b => 4 ∣ x.toNat ∧ -(2 ^ 22 : Int) ≤ x.toInt ∧ x.toInt < 2 ^ 22
  | iS => -(2 ^ 15 : Int) ≤ x.toInt ∧ x.toInt < 2 ^ 15
  | kind => 2 ^ kind.scale ∣ x.toNat ∧ x.toNat < 2 ^ (kind.scale + kind.bits)

/-- What the macros of a kind are for. -/
structure Exact (kind : ImmKind) (x pc insn : BitVec w) : Prop where
  valid_iff : kind.Valid x pc ↔ kind.InRange x pc
  within : ∀ i, (kind.encode x).getLsbD i = true → kind.pos ≤ i ∧ i < kind.pos + kind.bits
  restored : ∀ i, kind.pos ≤ i → i < kind.pos + kind.bits →
    (kind.encode (kind.extract insn pc)).getLsbD i = insn.getLsbD i

end ImmKind

/-! ## Bits -/

section
variable {x pc : BitVec w} {s n pos i : Nat}

theorem getLsbD_ones (hn : n < w) (i : Nat) :
    ((1 : BitVec w) <<< n - 1).getLsbD i = decide (i < n) := by
  have hlt : 2 ^ n < 2 ^ w := Nat.pow_lt_pow_right (by decide) hn
  have hpos : 0 < 2 ^ n := Nat.two_pow_pos n
  have hone : (1 : BitVec w).toNat = 1 := by
    show 1 % 2 ^ w = 1
    exact Nat.mod_eq_of_lt (by omega)
  have hshift : ((1 : BitVec w) <<< n).toNat = 2 ^ n := by
    rw [BitVec.toNat_shiftLeft, hone, Nat.shiftLeft_eq, Nat.one_mul, Nat.mod_eq_of_lt hlt]
  have hmask : ((1 : BitVec w) <<< n - 1).toNat = 2 ^ n - 1 := by
    rw [BitVec.toNat_sub, hshift, hone, show 2 ^ w - 1 + 2 ^ n = 2 ^ n - 1 + 2 ^ w by omega,
      Nat.add_mod_right, Nat.mod_eq_of_lt (by omega)]
  rw [BitVec.getLsbD, hmask, Nat.testBit_two_pow_sub_one]

theorem getLsbD_xrX (x : BitVec w) (s : Nat) (hn : n < w) (i : Nat) :
    (xrX x s n).getLsbD i = (decide (i < n) && x.getLsbD (s + i)) := by
  rw [xrX, BitVec.getLsbD_and, BitVec.getLsbD_ushiftRight, getLsbD_ones hn, Bool.and_comm]

theorem getLsbD_encodeField (x : BitVec w) (s : Nat) (hn : n < w) (hfits : pos + n ≤ w) (i : Nat) :
    (encodeField s n pos x).getLsbD i =
      (decide (pos ≤ i ∧ i < pos + n) && x.getLsbD (s + (i - pos))) := by
  rw [encodeField, BitVec.getLsbD_shiftLeft, getLsbD_xrX x s hn]
  by_cases hin : pos ≤ i ∧ i < pos + n
  · simp [hin, show i < w by omega, show ¬ i < pos by omega, show i - pos < n by omega]
  · by_cases hlow : i < pos
    · simp [hlow, show ¬ pos ≤ i by omega]
    · simp [hin, show ¬ i - pos < n by omega]

theorem getLsbD_extractField (x : BitVec w) (pos : Nat) (hn : n < w) (hfits : s + n ≤ w) (i : Nat) :
    (extractField pos n s x).getLsbD i =
      (decide (s ≤ i ∧ i < s + n) && x.getLsbD (pos + (i - s))) :=
  getLsbD_encodeField x pos hn hfits i

theorem getLsbD_xrImmSign (x : BitVec w) (hw : 32 ≤ w) (i : Nat) :
    (xrImmSign x).getLsbD i = (decide (i < w) && x.getLsbD 31) := by
  have hbit : ∀ j, (x >>> 31 &&& (1 : BitVec w)).getLsbD j = (decide (j = 0) && x.getLsbD 31) := by
    intro j
    have hone : (1 : BitVec w).getLsbD j = decide (j = 0) := by
      show (1#w).getLsbD j = _
      rw [BitVec.getLsbD_one, decide_eq_true (show 0 < w by omega), Bool.true_and]
    rw [BitVec.getLsbD_and, BitVec.getLsbD_ushiftRight, hone, Bool.and_comm]
    by_cases hj : j = 0
    · rw [hj]
    · rw [decide_eq_false hj, Bool.false_and, Bool.false_and]
  cases hsign : x.getLsbD 31 with
  | false =>
    have hzero : x >>> 31 &&& (1 : BitVec w) = 0#w := by
      apply BitVec.eq_of_getLsbD_eq
      intro j _
      rw [hbit, hsign, Bool.and_false, BitVec.getLsbD_zero]
    rw [xrImmSign, hzero, BitVec.neg_zero, BitVec.getLsbD_zero, Bool.and_false]
  | true =>
    have hone : x >>> 31 &&& (1 : BitVec w) = 1#w := by
      apply BitVec.eq_of_getLsbD_eq
      intro j _
      rw [hbit, hsign, Bool.and_true, BitVec.getLsbD_one, decide_eq_true (show 0 < w by omega),
        Bool.true_and]
    rw [xrImmSign, hone, BitVec.neg_one_eq_allOnes, BitVec.getLsbD_allOnes, Bool.and_true]

/-- The way into the field and back. -/
theorem getLsbD_extract_encode (x : BitVec w) (hn : n < w) (hpos : pos + n ≤ w) (hs : s + n ≤ w)
    (i : Nat) :
    (extractField pos n s (encodeField s n pos x)).getLsbD i =
      (decide (s ≤ i ∧ i < s + n) && x.getLsbD i) := by
  rw [getLsbD_extractField _ pos hn hs, getLsbD_encodeField x s hn hpos]
  by_cases hin : s ≤ i ∧ i < s + n
  · rw [decide_eq_true hin, decide_eq_true (show pos ≤ pos + (i - s) ∧ pos + (i - s) < pos + n by omega),
      show s + (pos + (i - s) - pos) = i by omega, Bool.true_and]
  · rw [decide_eq_false hin, Bool.false_and, Bool.false_and]

/-! ## Numbers -/

/-- A word of which the bits from `s` to `m` are kept is the same one if the bits below are zero and
those above are what they are set to. -/
theorem eq_iff_of_bits {m : Nat} {y : BitVec w} {above : Nat → Bool} (hsm : s ≤ m)
    (hbits : ∀ i < w, y.getLsbD i =
      if m ≤ i then above i else decide (s ≤ i) && x.getLsbD i) :
    y = x ↔ 2 ^ s ∣ x.toNat ∧ ∀ i, m ≤ i → i < w → x.getLsbD i = above i := by
  rw [dvd_toNat_iff]
  constructor
  · rintro rfl
    constructor
    · intro i hi
      by_cases hw : i < w
      · rw [hbits i hw, if_neg (by omega), decide_eq_false (by omega), Bool.false_and]
      · exact BitVec.getLsbD_of_ge y i (by omega)
    · intro i hm hw
      rw [hbits i hw, if_pos hm]
  · intro ⟨hlow, habove⟩
    apply BitVec.eq_of_getLsbD_eq
    intro i hw
    rw [hbits i hw]
    split_ifs with hm
    · exact (habove i hm hw).symm
    · by_cases hs : s ≤ i
      · rw [decide_eq_true hs, Bool.true_and]
      · rw [hlow i (by omega), Bool.and_false]

/-- The kinds without a sign. -/
theorem valid_plain_iff (x : BitVec w) (hn : n < w) (hpos : pos + n ≤ w) (hs : s + n ≤ w) :
    extractField pos n s (encodeField s n pos x) = x ↔
      2 ^ s ∣ x.toNat ∧ x.toNat < 2 ^ (s + n) := by
  rw [toNat_lt_iff, @eq_iff_of_bits w x s (s + n) _ (fun _ => false) (by omega)]
  · apply and_congr_right
    intro _
    refine ⟨fun h i hi => ?_, fun h i hi _ => h i hi⟩
    by_cases hw : i < w
    · exact h i hi hw
    · exact BitVec.getLsbD_of_ge x i (by omega)
  · intro i _
    rw [getLsbD_extract_encode x hn hpos hs]
    split_ifs with hi
    · rw [decide_eq_false (by omega), Bool.false_and]
    · by_cases hlow : s ≤ i
      · rw [decide_eq_true (show s ≤ i ∧ i < s + n by omega), decide_eq_true hlow]
      · rw [decide_eq_false (show ¬ (s ≤ i ∧ i < s + n) by omega), decide_eq_false hlow]

/-- The kinds with a sign, whose field is at the upper end of the instruction. -/
theorem valid_signed_iff (x : BitVec w) (hw : 32 ≤ w) (hn : 0 < n) (hn32 : n < 32)
    (hpos : pos + n = 32) (hs : s + n < 32) :
    extractField pos n s (encodeField s n pos x) |||
        xrImmSign (encodeField s n pos x) <<< (s + n) = x ↔
      2 ^ s ∣ x.toNat ∧ -(2 ^ (s + n - 1) : Int) ≤ x.toInt ∧ x.toInt < 2 ^ (s + n - 1) := by
  have hsign : (encodeField s n pos x).getLsbD 31 = x.getLsbD (s + n - 1) := by
    rw [getLsbD_encodeField x s (by omega) (by omega),
      decide_eq_true (show pos ≤ 31 ∧ 31 < pos + n by omega), Bool.true_and]
    congr 1
    omega
  rw [toInt_range_iff x (show s + n - 1 < w by omega),
    @eq_iff_of_bits w x s (s + n) _ (fun _ => x.getLsbD (s + n - 1)) (by omega)]
  · apply and_congr_right
    intro _
    constructor
    · intro h i hi hlt
      have hlast := h (w - 1) (by omega) (by omega)
      by_cases heq : i = s + n - 1
      · rw [heq, hlast]
      · rw [h i (by omega) hlt, hlast]
    · intro h i hi hlt
      rw [h i (by omega) hlt, h (s + n - 1) le_rfl (by omega)]
  · intro i hi
    rw [BitVec.getLsbD_or, getLsbD_extract_encode x (by omega) (by omega) (by omega),
      BitVec.getLsbD_shiftLeft, getLsbD_xrImmSign _ hw, hsign, decide_eq_true hi,
      decide_eq_true (show i - (s + n) < w by omega)]
    split_ifs with hhigh
    · rw [decide_eq_false (show ¬ (s ≤ i ∧ i < s + n) by omega),
        decide_eq_false (show ¬ i < s + n by omega)]
      rfl
    · rw [decide_eq_true (show i < s + n by omega)]
      simp only [Bool.not_true, Bool.and_false, Bool.false_and, Bool.or_false]
      by_cases hlow : s ≤ i
      · rw [decide_eq_true (show s ≤ i ∧ i < s + n by omega), decide_eq_true hlow]
      · rw [decide_eq_false (show ¬ (s ≤ i ∧ i < s + n) by omega), decide_eq_false hlow]

/-- Jumps, which stay in the half of the `pc`. -/
theorem valid_jump_iff (x pc : BitVec w) (hw : 32 ≤ w) :
    xrImmExtractJ (xrImmEncodeJ x) pc = x ↔
      4 ∣ x.toNat ∧ x.toNat / 2 ^ 31 = pc.toNat / 2 ^ 31 % 2 := by
  have hhalf : ∀ i, i < w → (0x80000000 : BitVec w).getLsbD i = decide (31 = i) := by
    intro i hi
    show (BitVec.ofNat w (2 ^ 31)).getLsbD i = _
    rw [BitVec.getLsbD_ofNat, decide_eq_true hi, Bool.true_and, Nat.testBit_two_pow]
  rw [@eq_iff_of_bits w x 2 31 _ (fun i => decide (31 = i) && pc.getLsbD 31) (by decide)]
  · apply and_congr_right
    intro _
    constructor
    · intro h
      apply Nat.eq_of_testBit_eq
      intro j
      show _ = (pc.toNat / 2 ^ 31 % 2 ^ 1).testBit j
      rw [Nat.testBit_div_two_pow, Nat.testBit_mod_two_pow, Nat.testBit_div_two_pow]
      show x.getLsbD (j + 31) = (decide (j < 1) && pc.getLsbD (j + 31))
      by_cases hj : j + 31 < w
      · rw [h (j + 31) (by omega) hj]
        by_cases hzero : j = 0
        · rw [hzero]
          rfl
        · rw [decide_eq_false (show ¬ 31 = j + 31 by omega), decide_eq_false (show ¬ j < 1 by omega),
            Bool.false_and, Bool.false_and]
      · rw [BitVec.getLsbD_of_ge x _ (by omega), BitVec.getLsbD_of_ge pc _ (by omega), Bool.and_false]
    · intro h i hi _
      have hbit : (x.toNat / 2 ^ 31).testBit (i - 31) = (pc.toNat / 2 ^ 31 % 2 ^ 1).testBit (i - 31) :=
        congrArg (Nat.testBit · (i - 31)) h
      rw [Nat.testBit_div_two_pow, Nat.testBit_mod_two_pow, Nat.testBit_div_two_pow,
        Nat.sub_add_cancel hi] at hbit
      by_cases heq : 31 = i
      · subst heq
        exact hbit
      · rw [decide_eq_false (show ¬ i - 31 < 1 by omega), Bool.false_and] at hbit
        rw [decide_eq_false heq, Bool.false_and]
        exact hbit
  · intro i hi
    rw [xrImmExtractJ, xrImmEncodeJ, BitVec.getLsbD_or, BitVec.getLsbD_and, hhalf i hi,
      getLsbD_extract_encode x (by omega) (by omega) (by omega)]
    split_ifs with hhigh
    · rw [decide_eq_false (show ¬ (2 ≤ i ∧ i < 2 + 29) by omega), Bool.false_and, Bool.false_or,
        Bool.and_comm]
      by_cases heq : 31 = i
      · rw [heq]
      · rw [decide_eq_false heq, Bool.false_and, Bool.false_and]
    · rw [decide_eq_false (show ¬ 31 = i by omega), Bool.and_false, Bool.or_false]
      by_cases hlow : 2 ≤ i
      · rw [decide_eq_true (show 2 ≤ i ∧ i < 2 + 29 by omega), decide_eq_true hlow]
      · rw [decide_eq_false (show ¬ (2 ≤ i ∧ i < 2 + 29) by omega), decide_eq_false hlow]

/-! ## Fields -/

/-- What is above the immediate does not come into the field. -/
theorem restored_of {insn above : BitVec w} (hn : n < w) (hpos : pos + n ≤ w) (hs : s + n ≤ w)
    (habove : ∀ j < s + n, above.getLsbD j = false) (hlo : pos ≤ i) (hhi : i < pos + n) :
    (encodeField s n pos (extractField pos n s insn ||| above)).getLsbD i = insn.getLsbD i := by
  rw [getLsbD_encodeField _ s hn hpos, BitVec.getLsbD_or, getLsbD_extractField _ pos hn hs,
    habove _ (by omega), Bool.or_false, decide_eq_true (show pos ≤ i ∧ i < pos + n from ⟨hlo, hhi⟩),
    decide_eq_true (show s ≤ s + (i - pos) ∧ s + (i - pos) < s + n by omega),
    show pos + (s + (i - pos) - s) = i by omega, Bool.true_and, Bool.true_and]

theorem restored_plain {insn : BitVec w} (hn : n < w) (hpos : pos + n ≤ w) (hs : s + n ≤ w)
    (hlo : pos ≤ i) (hhi : i < pos + n) :
    (encodeField s n pos (extractField pos n s insn)).getLsbD i = insn.getLsbD i := by
  have h := @restored_of w s n pos i insn 0#w hn hpos hs (fun _ _ => BitVec.getLsbD_zero) hlo hhi
  rwa [BitVec.or_zero] at h

/-- The sign is above. -/
theorem getLsbD_sign_below (x : BitVec w) {k j : Nat} (hj : j < k) :
    (xrImmSign x <<< k).getLsbD j = false := by
  rw [BitVec.getLsbD_shiftLeft, decide_eq_true hj, Bool.not_true, Bool.and_false, Bool.false_and]

theorem within_of (x : BitVec w) (hn : n < w) (hpos : pos + n ≤ w)
    (h : (encodeField s n pos x).getLsbD i = true) : pos ≤ i ∧ i < pos + n := by
  rw [getLsbD_encodeField x s hn hpos, Bool.and_eq_true, decide_eq_true_eq] at h
  exact h.1

end

namespace ImmKind

variable (kind : ImmKind) (x pc insn : BitVec w) (hw : 32 ≤ w)
include hw

theorem encode_within (i : Nat) (h : (kind.encode x).getLsbD i = true) :
    kind.pos ≤ i ∧ i < kind.pos + kind.bits := by
  cases kind <;> exact within_of x (by simp only [bits]; omega) (by simp only [pos, bits]; omega) h

theorem encode_extract (i : Nat) (hlo : kind.pos ≤ i) (hhi : i < kind.pos + kind.bits) :
    (kind.encode (kind.extract insn pc)).getLsbD i = insn.getLsbD i := by
  cases kind with
  | j =>
    refine restored_of (by omega) (by omega) (by omega) (fun k hk => ?_) hlo hhi
    have hhalf : (0x80000000 : BitVec w).getLsbD k = false := by
      show (BitVec.ofNat w (2 ^ 31)).getLsbD k = _
      rw [BitVec.getLsbD_ofNat, Nat.testBit_two_pow, decide_eq_false (show ¬ 31 = k by omega),
        Bool.and_false]
    rw [BitVec.getLsbD_and, hhalf, Bool.and_false]
  | b => exact restored_of (by omega) (by omega) (by omega) (fun k hk => getLsbD_sign_below insn hk) hlo hhi
  | iS => exact restored_of (by omega) (by omega) (by omega) (fun k hk => getLsbD_sign_below insn hk) hlo hhi
  | i => exact restored_plain (by omega) (by omega) (by omega) hlo hhi
  | i1 => exact restored_plain (by omega) (by omega) (by omega) hlo hhi
  | i2 => exact restored_plain (by omega) (by omega) (by omega) hlo hhi
  | i16 => exact restored_plain (by omega) (by omega) (by omega) hlo hhi
  | s => exact restored_plain (by omega) (by omega) (by omega) hlo hhi
  | r => exact restored_plain (by omega) (by omega) (by omega) hlo hhi

theorem valid_iff_inRange : kind.Valid x pc ↔ kind.InRange x pc := by
  cases kind with
  | j => exact valid_jump_iff x pc hw
  | b =>
    exact @valid_signed_iff w 2 21 11 x hw (by decide) (by decide) (by decide) (by decide)
  | iS =>
    have h := @valid_signed_iff w 0 16 16 x hw (by decide) (by decide) (by decide) (by decide)
    exact h.trans (and_iff_right (one_dvd _))
  | i => exact valid_plain_iff x (by omega) (by omega) (by omega)
  | i1 => exact valid_plain_iff x (by omega) (by omega) (by omega)
  | i2 => exact valid_plain_iff x (by omega) (by omega) (by omega)
  | i16 => exact valid_plain_iff x (by omega) (by omega) (by omega)
  | s => exact valid_plain_iff x (by omega) (by omega) (by omega)
  | r => exact valid_plain_iff x (by omega) (by omega) (by omega)

end ImmKind

/-- The macros as the linker uses them. -/
theorem vma_valid (x pc : Vma) :
    (Binutils.xrImmValidJ x pc ↔ ImmKind.j.Valid x pc) ∧
    (Binutils.xrImmValidB x ↔ ImmKind.b.Valid x pc) ∧
    (Binutils.xrImmValidI x ↔ ImmKind.i.Valid x pc) ∧
    (Binutils.xrImmValidI1 x ↔ ImmKind.i1.Valid x pc) ∧
    (Binutils.xrImmValidI2 x ↔ ImmKind.i2.Valid x pc) ∧
    (Binutils.xrImmValidI16 x ↔ ImmKind.i16.Valid x pc) ∧
    (Binutils.xrImmValidIS x ↔ ImmKind.iS.Valid x pc) := by
  refine ⟨.rfl, .rfl, .rfl, .rfl, .rfl, .rfl, ?_⟩
  have hfield : extractField 16 16 0 (xrImmEncodeIS x) = Binutils.xrX (xrImmEncodeIS x) 16 16 :=
    BitVec.shiftLeft_zero _
  show _ ↔ extractField 16 16 0 (xrImmEncodeIS x) ||| xrImmSign (xrImmEncodeIS x) <<< 16 = x
  rw [hfield]
  exact .rfl

/-- **Immediate fields.** On words of 32 bits, and of more, for every kind of immediate: a value is
valid if and only if it is a multiple of the scale in the range of the kind, no bit outside the field
is set by any value, and a field comes back from what was extracted. -/
theorem immFields_exact (k : Nat) (kind : ImmKind) (x pc insn : BitVec (32 + k)) :
    kind.Exact x pc insn where
  valid_iff := kind.valid_iff_inRange x pc (Nat.le_add_right 32 k)
  within := kind.encode_within x (Nat.le_add_right 32 k)
  restored := kind.encode_extract pc insn (Nat.le_add_right 32 k)

end XrLinux.Binutils.ImmFields
