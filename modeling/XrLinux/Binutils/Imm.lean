import Mathlib.Data.BitVec
import Mathlib.Tactic.Common

/-!
# Binutils — immediate fields

The `XR_IMM_*` macros, which the assembler, the linker and the disassembler share. They are
evaluated on a `bfd_vma`, 64 bits on every host here, though addresses have 32.
-/

namespace XrLinux.Binutils

/-- `bfd_vma`. -/
abbrev Vma := BitVec 64

/-- `XR_X`. -/
def xrX (x : Vma) (s n : Nat) : Vma := x >>> s &&& ((1 : Vma) <<< n - 1)

/-- `XR_IMM_SIGN`. -/
def xrImmSign (x : Vma) : Vma := -(x >>> 31 &&& (1 : Vma))

/-- `XR_IMM_EXTRACT_J`. -/
def xrImmExtractJ (x pc : Vma) : Vma := xrX x 3 29 <<< 2 ||| pc &&& 0x80000000

/-- `XR_IMM_EXTRACT_B`. -/
def xrImmExtractB (x : Vma) : Vma := xrX x 11 21 <<< 2 ||| xrImmSign x <<< 23

/-- `XR_IMM_EXTRACT_I` and its siblings, for an immediate that is a multiple of `2 ^ s`. -/
def extractImm (s : Nat) (x : Vma) : Vma := xrX x 16 16 <<< s

def xrImmExtractI : Vma → Vma := extractImm 0
def xrImmExtractI1 : Vma → Vma := extractImm 1
def xrImmExtractI2 : Vma → Vma := extractImm 2
def xrImmExtractI16 : Vma → Vma := extractImm 16

/-- `XR_IMM_EXTRACT_I_S`. -/
def xrImmExtractIS (x : Vma) : Vma := xrX x 16 16 ||| xrImmSign x <<< 16

/-- `XR_IMM_ENCODE_J`. -/
def xrImmEncodeJ (x : Vma) : Vma := xrX x 2 29 <<< 3

/-- `XR_IMM_ENCODE_B`. -/
def xrImmEncodeB (x : Vma) : Vma := xrX x 2 21 <<< 11

/-- `XR_IMM_ENCODE_I` and its siblings. -/
def encodeImm (s : Nat) (x : Vma) : Vma := xrX x s 16 <<< 16

def xrImmEncodeI : Vma → Vma := encodeImm 0
def xrImmEncodeI1 : Vma → Vma := encodeImm 1
def xrImmEncodeI2 : Vma → Vma := encodeImm 2
def xrImmEncodeI16 : Vma → Vma := encodeImm 16
def xrImmEncodeIS : Vma → Vma := xrImmEncodeI

/-- `XR_IMM_VALID_J`. -/
def xrImmValidJ (x pc : Vma) : Prop := xrImmExtractJ (xrImmEncodeJ x) pc = x

/-- `XR_IMM_VALID_B`. -/
def xrImmValidB (x : Vma) : Prop := xrImmExtractB (xrImmEncodeB x) = x

/-- `XR_IMM_VALID_I` and its siblings. -/
def validImm (s : Nat) (x : Vma) : Prop := extractImm s (encodeImm s x) = x

def xrImmValidI : Vma → Prop := validImm 0
def xrImmValidI1 : Vma → Prop := validImm 1
def xrImmValidI2 : Vma → Prop := validImm 2
def xrImmValidI16 : Vma → Prop := validImm 16

/-- `XR_IMM_VALID_I_S`. -/
def xrImmValidIS (x : Vma) : Prop := xrImmExtractIS (xrImmEncodeIS x) = x

instance (x pc : Vma) : Decidable (xrImmValidJ x pc) := by unfold xrImmValidJ; infer_instance
instance (x : Vma) : Decidable (xrImmValidB x) := by unfold xrImmValidB; infer_instance
instance (s : Nat) (x : Vma) : Decidable (validImm s x) := by unfold validImm; infer_instance
instance (x : Vma) : Decidable (xrImmValidIS x) := by unfold xrImmValidIS; infer_instance

/-- `XR_IMM_HIGH_PART`. -/
def xrImmHighPart (x : Vma) : Vma := x &&& 0xffff0000

/-- `XR_IMM_LOW_PART`. -/
def xrImmLowPart (x : Vma) : Vma := x &&& 0xffff

/-! ## Fields as numbers -/

theorem xrX_toNat (x : Vma) (s : Nat) {n : Nat} (hn : n < 64) :
    (xrX x s n).toNat = x.toNat / 2 ^ s % 2 ^ n := by
  have hmask : ((1 : Vma) <<< n - 1).toNat = 2 ^ n - 1 := by
    have hlt : 2 ^ n < 2 ^ 64 := Nat.pow_lt_pow_right (by omega) hn
    have hpos : 0 < 2 ^ n := Nat.two_pow_pos n
    have hone : ((1 : Vma) <<< n).toNat = 2 ^ n := by
      rw [BitVec.toNat_shiftLeft, Nat.shiftLeft_eq]
      show 1 * 2 ^ n % 2 ^ 64 = _
      rw [Nat.one_mul, Nat.mod_eq_of_lt hlt]
    rw [BitVec.toNat_sub, hone]
    show (2 ^ 64 - 1 + 2 ^ n) % 2 ^ 64 = _
    omega
  rw [xrX, BitVec.toNat_and, BitVec.toNat_ushiftRight, hmask, Nat.and_two_pow_sub_one_eq_mod,
    Nat.shiftRight_eq_div_pow]

theorem xrX_lt (x : Vma) (s : Nat) {n : Nat} (hn : n < 64) : (xrX x s n).toNat < 2 ^ n := by
  rw [xrX_toNat x s hn]
  exact Nat.mod_lt _ (Nat.two_pow_pos n)

theorem encodeImm_toNat (s : Nat) (x : Vma) :
    (encodeImm s x).toNat = x.toNat / 2 ^ s % 65536 * 65536 := by
  have hlt := xrX_lt x s (show 16 < 64 by omega)
  rw [encodeImm, BitVec.toNat_shiftLeft, Nat.shiftLeft_eq, xrX_toNat x s (by omega)] at *
  omega

/-- The field of a word. -/
theorem xrX_word (x : Vma) : (xrX x 16 16).toNat = x.toNat / 65536 % 65536 :=
  xrX_toNat x 16 (by omega)

theorem extractImm_toNat {s : Nat} (hs : s ≤ 16) (x : Vma) :
    (extractImm s x).toNat = x.toNat / 65536 % 65536 * 2 ^ s := by
  have hpow : 2 ^ s ≤ 2 ^ 16 := Nat.pow_le_pow_right (by omega) hs
  have hfield : x.toNat / 65536 % 65536 < 65536 := Nat.mod_lt _ (by omega)
  rw [extractImm, BitVec.toNat_shiftLeft, Nat.shiftLeft_eq, xrX_word]
  apply Nat.mod_eq_of_lt
  calc x.toNat / 65536 % 65536 * 2 ^ s ≤ 65536 * 2 ^ 16 := Nat.mul_le_mul (by omega) hpow
    _ < 2 ^ 64 := by decide

/-- What is left of a number after the way into the field and back. -/
theorem extract_encode {s : Nat} (hs : s ≤ 16) (x : Vma) :
    (extractImm s (encodeImm s x)).toNat = x.toNat / 2 ^ s % 65536 * 2 ^ s := by
  rw [extractImm_toNat hs, encodeImm_toNat]
  congr 1
  omega

/-- A number survives if it is a multiple that is not too large. -/
theorem validImm_iff {s : Nat} (hs : s ≤ 16) (x : Vma) :
    validImm s x ↔ x.toNat < 65536 * 2 ^ s ∧ 2 ^ s ∣ x.toNat := by
  have hpos : 0 < 2 ^ s := Nat.two_pow_pos s
  rw [validImm, ← BitVec.toNat_inj, extract_encode hs]
  constructor
  · intro h
    refine ⟨?_, h ▸ Nat.dvd_mul_left _ _⟩
    rw [← h]
    exact Nat.mul_lt_mul_of_pos_right (Nat.mod_lt _ (by omega)) hpos
  · intro ⟨hlt, hdvd⟩
    have hquot : x.toNat / 2 ^ s < 65536 := Nat.div_lt_of_lt_mul (by rwa [Nat.mul_comm])
    rw [Nat.mod_eq_of_lt hquot, Nat.div_mul_cancel hdvd]

@[simp] theorem xrImmLowPart_toNat (x : Vma) : (xrImmLowPart x).toNat = x.toNat % 65536 := by
  rw [xrImmLowPart, BitVec.toNat_and]
  exact Nat.and_two_pow_sub_one_eq_mod x.toNat 16

@[simp] theorem xrImmHighPart_toNat (x : Vma) :
    (xrImmHighPart x).toNat = x.toNat / 65536 % 65536 * 65536 := by
  have hmask : (0xffff0000 : Vma) = (0xffff : Vma) <<< 16 := by decide
  have hsplit : xrImmHighPart x = (x >>> 16 &&& 0xffff) <<< 16 := by
    rw [xrImmHighPart, hmask]
    apply BitVec.eq_of_getLsbD_eq
    intro i hi
    simp only [BitVec.getLsbD_and, BitVec.getLsbD_shiftLeft, BitVec.getLsbD_ushiftRight, hi,
      decide_true, Bool.true_and]
    by_cases h : i < 16
    · simp [h]
    · simp [h, show 16 + (i - 16) = i by omega]
  have hmod : (x >>> 16 &&& 0xffff).toNat = x.toNat / 65536 % 65536 := by
    rw [BitVec.toNat_and, BitVec.toNat_ushiftRight, Nat.shiftRight_eq_div_pow]
    exact Nat.and_two_pow_sub_one_eq_mod _ 16
  rw [hsplit, BitVec.toNat_shiftLeft, Nat.shiftLeft_eq, hmod]
  omega

/-- The upper half is what the shifted access keeps. -/
theorem encodeImm_highPart (x : Vma) : xrImmEncodeI16 (xrImmHighPart x) = xrImmEncodeI16 x := by
  have hlt := x.isLt
  rw [← BitVec.toNat_inj]
  simp only [xrImmEncodeI16, encodeImm_toNat, xrImmHighPart_toNat]
  omega

theorem validImm_highPart (x : Vma) : xrImmValidI16 (xrImmHighPart x) := by
  rw [xrImmValidI16, validImm_iff (by omega), xrImmHighPart_toNat]
  omega

/-- The sign of a field is spread over everything above it. -/
theorem xrImmValidIS_iff (x : Vma) :
    xrImmValidIS x ↔ x.toNat < 32768 ∨ 2 ^ 64 - 32768 ≤ x.toNat := by
  have hx := x.isLt
  have henc : (xrImmEncodeIS x).toNat = x.toNat % 65536 * 65536 := by
    rw [xrImmEncodeIS, xrImmEncodeI, encodeImm_toNat, Nat.pow_zero, Nat.div_one]
  have hfield : (xrX (xrImmEncodeIS x) 16 16).toNat = x.toNat % 65536 := by
    rw [xrX_word, henc]
    omega
  have hbit : (xrImmEncodeIS x >>> 31 &&& (1 : Vma)).toNat = x.toNat / 32768 % 2 := by
    rw [BitVec.toNat_and, BitVec.toNat_ushiftRight, henc, Nat.shiftRight_eq_div_pow]
    show _ &&& 1 = _
    rw [Nat.and_one_is_mod]
    omega
  rw [xrImmValidIS, xrImmExtractIS]
  by_cases hsign : x.toNat / 32768 % 2 = 0
  · have hzero : xrImmSign (xrImmEncodeIS x) = 0#64 := by
      rw [xrImmSign, BitVec.eq_of_toNat_eq (hbit.trans hsign : _ = (0 : Vma).toNat)]
      rfl
    rw [hzero, BitVec.zero_shiftLeft, BitVec.or_zero, ← BitVec.toNat_inj, hfield]
    omega
  · have hones : xrImmSign (xrImmEncodeIS x) = BitVec.allOnes 64 := by
      have hone : x.toNat / 32768 % 2 = 1 := by omega
      rw [xrImmSign, BitVec.eq_of_toNat_eq (hbit.trans hone : _ = (1 : Vma).toNat)]
      rfl
    have hor : (xrX (xrImmEncodeIS x) 16 16 ||| BitVec.allOnes 64 <<< 16).toNat =
        (2 ^ 48 - 1) * 65536 + x.toNat % 65536 := by
      have hshift : (BitVec.allOnes 64 <<< 16).toNat = (2 ^ 48 - 1) <<< 16 := by decide
      rw [BitVec.toNat_or, Nat.or_comm, hfield, hshift,
        ← Nat.shiftLeft_add_eq_or_of_lt (show x.toNat % 65536 < 2 ^ 16 by omega), Nat.shiftLeft_eq]
    rw [hones, ← BitVec.toNat_inj, hor]
    omega

end XrLinux.Binutils
