import XrLinux.Lib.BitField
import XrLinux.Machine.Instr

/-!
# Linux — swap entries

The entries of `asm/pgtable.h` for pages that are in swap: a type, an offset and the bit that says
that the page is exclusive. That bit is the lowest one of the type.
-/

namespace XrLinux.Linux.SwapEntry

open Machine BitField

def pagePresent : Word := 1 <<< 0

/-- `_PAGE_PROT_NONE`, which is `_PAGE_GLOBAL`. -/
def pageProtNone : Word := 1 <<< 4

def pageSwpExclusive : Word := 1 <<< 5

def swpTypeShift : Nat := 5

def swpTypeBits : Nat := 6

def swpTypeMask : Word := (1 <<< swpTypeBits) - 1

def swpOffsetShift : Nat := swpTypeBits + swpTypeShift

def swpType (x : Word) : Word := x >>> swpTypeShift &&& swpTypeMask

def swpOffset (x : Word) : Word := x >>> swpOffsetShift

def swpEntry (type offset : Word) : Word :=
  (type &&& swpTypeMask) <<< swpTypeShift ||| offset <<< swpOffsetShift

/-- `__pte_to_swp_entry`. -/
def pteToSwpEntry (pte : Word) : Word := pte

/-- `__swp_entry_to_pte`. -/
def swpEntryToPte (x : Word) : Word := x

def pteSwpExclusive (pte : Word) : Bool := pte &&& pageSwpExclusive ≠ 0

def pteSwpClearExclusive (pte : Word) : Word := pte &&& ~~~pageSwpExclusive

def pteSwpMkexclusive (pte : Word) : Word := pte ||| pageSwpExclusive

def ptePresent (pte : Word) : Bool := pte &&& (pagePresent ||| pageProtNone) ≠ 0

/-- The bit set or cleared. -/
def setExclusive (exclusive : Bool) (pte : Word) : Word :=
  if exclusive then pteSwpMkexclusive pte else pteSwpClearExclusive pte

/-- `pte` is for a page in swap, with this type, offset and bit. -/
structure Decodes (type offset : Word) (exclusive : Bool) (pte : Word) : Prop where
  type_eq : swpType (pteToSwpEntry pte) = type
  offset_eq : swpOffset (pteToSwpEntry pte) = offset
  exclusive_eq : pteSwpExclusive pte = exclusive
  not_present : ptePresent pte = false

section
variable {type offset pte : Word} {i : Nat}

/-! ## Bits -/

theorem getLsbD_swpTypeMask (i : Nat) : swpTypeMask.getLsbD i = decide (i < 6) := by
  show (63 : Nat).testBit i = _
  exact Nat.testBit_two_pow_sub_one 6 i

theorem getLsbD_swpType (x : Word) (i : Nat) :
    (swpType x).getLsbD i = (decide (i < 6) && x.getLsbD (5 + i)) := by
  rw [swpType, BitVec.getLsbD_and, BitVec.getLsbD_ushiftRight, getLsbD_swpTypeMask, Bool.and_comm]
  rfl

theorem getLsbD_swpOffset (x : Word) (i : Nat) : (swpOffset x).getLsbD i = x.getLsbD (11 + i) :=
  BitVec.getLsbD_ushiftRight x 11 i

/-- The five lowest bits are zero, then comes the type. -/
theorem getLsbD_swpEntry (type offset : Word) (hi : i < 32) :
    (swpEntry type offset).getLsbD i =
      if i < 5 then false else if i < 11 then type.getLsbD (i - 5) else offset.getLsbD (i - 11) := by
  rw [swpEntry, BitVec.getLsbD_or, BitVec.getLsbD_shiftLeft, BitVec.getLsbD_shiftLeft,
    BitVec.getLsbD_and, getLsbD_swpTypeMask, decide_eq_true hi]
  show ((true && !decide (i < 5)) && (type.getLsbD (i - 5) && decide (i - 5 < 6)) ||
    (true && !decide (i < 11)) && offset.getLsbD (i - 11)) = _
  split_ifs with hlow htype
  · simp [hlow, show i < 11 by omega]
  · simp [hlow, htype, show i - 5 < 6 by omega]
  · simp [hlow, htype, show ¬ i - 5 < 6 by omega]

theorem getLsbD_setExclusive (exclusive : Bool) (pte : Word) (hi : i < 32) :
    (setExclusive exclusive pte).getLsbD i = if i = 5 then exclusive else pte.getLsbD i := by
  have hbit : pageSwpExclusive.getLsbD i = decide (i = 5) := getLsbD_oneShift (by decide) hi
  cases exclusive with
  | true =>
    show (pte ||| pageSwpExclusive).getLsbD i = _
    rw [BitVec.getLsbD_or, hbit]
    split_ifs with h5 <;> simp [h5]
  | false =>
    show (pte &&& ~~~pageSwpExclusive).getLsbD i = _
    rw [BitVec.getLsbD_and, BitVec.getLsbD_not, hbit, decide_eq_true hi]
    split_ifs with h5 <;> simp [h5]

theorem setExclusive_setExclusive (exclusive exclusive' : Bool) (pte : Word) :
    setExclusive exclusive' (setExclusive exclusive pte) = setExclusive exclusive' pte := by
  apply BitVec.eq_of_getLsbD_eq
  intro i hi
  rw [getLsbD_setExclusive _ _ hi, getLsbD_setExclusive _ _ hi, getLsbD_setExclusive _ _ hi]
  split_ifs <;> rfl

theorem pteSwpExclusive_eq (pte : Word) : pteSwpExclusive pte = pte.getLsbD 5 := by
  have hzero : pte &&& pageSwpExclusive = 0 ↔ pte.getLsbD 5 = false := and_oneShift_eq_zero (by decide)
  rw [pteSwpExclusive]
  cases hbit : pte.getLsbD 5 with
  | false => exact decide_eq_false (not_not_intro (hzero.mpr hbit))
  | true =>
    refine decide_eq_true fun h => ?_
    rw [hzero.mp h] at hbit
    cases hbit

/-! ## Decoding -/

theorem ptePresent_swap (type offset : Word) (exclusive : Bool) :
    ptePresent (setExclusive exclusive (swpEntry type offset)) = false := by
  refine decide_eq_false (not_not_intro (BitVec.eq_of_getLsbD_eq fun i hi => ?_))
  have hmask : (pagePresent ||| pageProtNone).getLsbD i = (decide (i = 0) || decide (i = 4)) := by
    rw [BitVec.getLsbD_or]
    exact congrArg₂ _ (getLsbD_oneShift (by decide) hi) (getLsbD_oneShift (by decide) hi)
  rw [BitVec.getLsbD_and, hmask, getLsbD_setExclusive _ _ hi, getLsbD_swpEntry _ _ hi]
  by_cases hlow : i < 5
  · simp [hlow, show i ≠ 5 by omega]
  · simp [show i ≠ 0 by omega, show i ≠ 4 by omega]

/-- The offset is always the same. -/
theorem swpOffset_swap (type : Word) (exclusive : Bool) (hoffset : offset.toNat < 2 ^ 21) :
    swpOffset (setExclusive exclusive (swpEntry type offset)) = offset := by
  apply BitVec.eq_of_getLsbD_eq
  intro i hi
  rw [getLsbD_swpOffset]
  by_cases hin : i < 21
  · rw [getLsbD_setExclusive _ _ (by omega), getLsbD_swpEntry _ _ (by omega), if_neg (by omega),
      if_neg (by omega), if_neg (by omega), Nat.add_sub_cancel_left]
  · have hpow : 2 ^ 21 ≤ 2 ^ i := Nat.pow_le_pow_right (by decide) (by omega)
    rw [BitVec.getLsbD_of_ge _ _ (by omega)]
    exact (Nat.testBit_lt_two_pow (show offset.toNat < 2 ^ i by omega)).symm

/-- The type has the bit for its lowest one. -/
theorem swpType_swap_iff (offset : Word) (exclusive : Bool) (htype : type.toNat < 2 ^ 6) :
    swpType (setExclusive exclusive (swpEntry type offset)) = type ↔ type.getLsbD 0 = exclusive := by
  constructor
  · intro h
    rw [← h, getLsbD_swpType, getLsbD_setExclusive _ _ (by decide)]
    rfl
  · intro h
    apply BitVec.eq_of_getLsbD_eq
    intro i hi
    rw [getLsbD_swpType]
    by_cases hin : i < 6
    · rw [decide_eq_true hin, Bool.true_and, getLsbD_setExclusive _ _ (by omega),
        getLsbD_swpEntry _ _ (by omega), if_neg (show ¬ 5 + i < 5 by omega),
        if_pos (show 5 + i < 11 by omega), Nat.add_sub_cancel_left]
      split_ifs with h5
      · rw [show i = 0 by omega, h]
      · rfl
    · have hpow : 2 ^ 6 ≤ 2 ^ i := Nat.pow_le_pow_right (by decide) (by omega)
      rw [decide_eq_false hin, Bool.false_and]
      exact (Nat.testBit_lt_two_pow (show type.toNat < 2 ^ i by omega)).symm

theorem decodes_swap_iff (exclusive : Bool) (htype : type.toNat < 2 ^ 6)
    (hoffset : offset.toNat < 2 ^ 21) :
    Decodes type offset exclusive (setExclusive exclusive (swpEntryToPte (swpEntry type offset))) ↔
      type.getLsbD 0 = exclusive := by
  constructor
  · intro h
    exact (swpType_swap_iff offset exclusive htype).mp h.type_eq
  · intro h
    exact {
      type_eq := (swpType_swap_iff offset exclusive htype).mpr h
      offset_eq := swpOffset_swap type exclusive hoffset
      exclusive_eq := by
        rw [pteSwpExclusive_eq, getLsbD_setExclusive _ _ (by decide), if_pos rfl]
      not_present := ptePresent_swap type offset exclusive }

end

/-- What is put into an entry comes back, and after the bit has been set or cleared too. -/
def SwapCorrect (type offset : Word) (exclusive exclusive' : Bool) : Prop :=
  let pte := setExclusive exclusive (swpEntryToPte (swpEntry type offset))
  Decodes type offset exclusive pte ∧ Decodes type offset exclusive' (setExclusive exclusive' pte)

/-- **Swap entries.** Type, offset and bit come back from an entry, and from what setting or clearing
the bit makes of it, if and only if both settings of the bit are the lowest bit of the type. -/
theorem swapCorrect_iff (type offset : Word) (exclusive exclusive' : Bool)
    (htype : type.toNat < 2 ^ 6) (hoffset : offset.toNat < 2 ^ 21) :
    SwapCorrect type offset exclusive exclusive' ↔
      type.getLsbD 0 = exclusive ∧ type.getLsbD 0 = exclusive' := by
  rw [SwapCorrect, setExclusive_setExclusive]
  exact and_congr (decodes_swap_iff exclusive htype hoffset)
    (decodes_swap_iff exclusive' htype hoffset)

theorem swapCorrect_iff_odd :
    SwapCorrect 3 7 true true ↔ (3 : Word).getLsbD 0 = true ∧ (3 : Word).getLsbD 0 = true :=
  swapCorrect_iff 3 7 true true (by decide) (by decide)

/-- The first swap file becomes the second. -/
theorem swapEntry_changes_type : ¬ SwapCorrect 0 7 false true := by
  intro h
  exact absurd h.2.type_eq (by decide)

end XrLinux.Linux.SwapEntry
