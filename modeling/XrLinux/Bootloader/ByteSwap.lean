import Mathlib.Tactic.IntervalCases
import XrLinux.Lib.Octets
import XrLinux.Bootloader.DeviceTree

/-!
# Bootloader — the byte swaps of `compiler.h`

Each is an expression of masks and shifts. That of 16 bits and that of 32 move every byte to where it
belongs; that of 64 bits moves bytes 5 and 6 with each other's shift.
-/

namespace XrLinux.Bootloader

open ByteMemory Octets

/-- `BlSwap16`. -/
def blSwap16 (x : Nat) : Nat := x >>> 8 ||| (x &&& 0xff) <<< 8

/-- `BlSwap64`. -/
def blSwap64 (x : Nat) : Nat :=
  x >>> 56 ||| (x &&& 0xff) <<< 56 ||| (x &&& 0xff00) <<< 40 ||| (x &&& 0xff0000000000) >>> 40 |||
    (x &&& 0xff0000) <<< 24 ||| (x &&& 0xff000000000000) >>> 24 ||| (x &&& 0xff000000) <<< 8 |||
    (x &&& 0xff00000000) >>> 8

/-- The swap `f` of `n` bytes does with `x` what it is for: the bytes are reversed, the swap undoes
itself, and nothing else that it undoes itself on becomes the same. -/
structure Swaps (n : Nat) (f : Nat → Nat) (x : Nat) : Prop where
  reversed : ∀ i < n, octet i (f x) = octet (n - 1 - i) x
  involutive : f (f x) = x
  injective : ∀ y, f (f y) = y → f y = f x → y = x

section
variable {x : Nat}

theorem Swaps.of_involutive {n : Nat} {f : Nat → Nat}
    (hreversed : ∀ i < n, octet i (f x) = octet (n - 1 - i) x) (hinvolutive : f (f x) = x) :
    Swaps n f x where
  reversed := hreversed
  involutive := hinvolutive
  injective := fun y hy heq => by rw [← hy, heq, hinvolutive]

/-- Where all bytes are reversed, they are back after a second time. -/
theorem Swaps.of_reversed {n : Nat} {f : Nat → Nat} (hlt : ∀ x < 256 ^ n, f x < 256 ^ n)
    (hreversed : ∀ x < 256 ^ n, ∀ i < n, octet i (f x) = octet (n - 1 - i) x) (hx : x < 256 ^ n) :
    Swaps n f x := by
  refine .of_involutive (hreversed x hx) ?_
  apply eq_of_octets (hlt _ (hlt x hx)) hx
  intro i hi
  rw [hreversed _ (hlt x hx) i hi, hreversed x hx _ (by omega),
    show n - 1 - (n - 1 - i) = i by omega]

/-! ## The octets of a swap -/

theorem octet_blSwap16 (i x : Nat) :
    octet i (blSwap16 x) = octet (i + 1) x ||| (if i = 1 then octet 0 x else 0) := by
  have hshape : blSwap16 x = x >>> (8 * 1) ||| (x &&& 255 <<< (8 * 0)) <<< (8 * 1) := rfl
  rw [hshape, octet_or, octet_shiftRight, octet_up]

theorem octet_blSwap32 (i x : Nat) :
    octet i (blSwap32 x) = octet (i + 3) x ||| (if i = 3 then octet 0 x else 0) |||
      (if i = 2 then octet 1 x else 0) ||| (if i = 1 then octet 2 x else 0) := by
  have hshape : blSwap32 x = x >>> (8 * 3) ||| (x &&& 255 <<< (8 * 0)) <<< (8 * 3) |||
      (x &&& 255 <<< (8 * 1)) <<< (8 * 1) ||| (x &&& 255 <<< (8 * 2)) >>> (8 * 1) := rfl
  rw [hshape]
  simp only [octet_or, octet_shiftRight, octet_up, octet_and_mask, Nat.reduceAdd,
    Nat.reduceEqDiff]

/-- Bytes 5 and 6 go to where bytes 7 and 4 go. -/
theorem octet_blSwap64 (i x : Nat) :
    octet i (blSwap64 x) = octet (i + 7) x ||| (if i = 7 then octet 0 x else 0) |||
      (if i = 6 then octet 1 x else 0) ||| (if i = 0 then octet 5 x else 0) |||
      (if i = 5 then octet 2 x else 0) ||| (if i = 3 then octet 6 x else 0) |||
      (if i = 4 then octet 3 x else 0) ||| (if i = 3 then octet 4 x else 0) := by
  have hshape : blSwap64 x = x >>> (8 * 7) ||| (x &&& 255 <<< (8 * 0)) <<< (8 * 7) |||
      (x &&& 255 <<< (8 * 1)) <<< (8 * 5) ||| (x &&& 255 <<< (8 * 5)) >>> (8 * 5) |||
      (x &&& 255 <<< (8 * 2)) <<< (8 * 3) ||| (x &&& 255 <<< (8 * 6)) >>> (8 * 3) |||
      (x &&& 255 <<< (8 * 3)) <<< (8 * 1) ||| (x &&& 255 <<< (8 * 4)) >>> (8 * 1) := rfl
  rw [hshape]
  simp only [octet_or, octet_shiftRight, octet_up, octet_and_mask, Nat.reduceAdd,
    Nat.reduceEqDiff, Nat.add_eq_right]

theorem blSwap64_lt (hx : x < 256 ^ 8) : blSwap64 x < 256 ^ 8 := by
  apply lt_of_octets
  intro i hi
  have hhigh : octet (i + 7) x = 0 := octet_of_lt hx (by omega)
  rw [octet_blSwap64, hhigh]
  simp only [show i ≠ 7 by omega, show i ≠ 6 by omega, show i ≠ 5 by omega, show i ≠ 4 by omega,
    show i ≠ 3 by omega, show i ≠ 0 by omega, if_false, Nat.or_zero]

/-! ## Correct swaps -/

theorem swaps_blSwap16 (hx : x < 256 ^ 2) : Swaps 2 blSwap16 x := by
  apply Swaps.of_reversed _ _ hx
  · intro x hx
    apply lt_of_octets
    intro i hi
    rw [octet_blSwap16, octet_of_lt hx (by omega), if_neg (by omega), Nat.or_zero]
  · intro x hx i hi
    have hhigh : octet 2 x = 0 := octet_of_lt hx le_rfl
    rw [octet_blSwap16]
    interval_cases i <;> simp [hhigh]

theorem swaps_blSwap32 (hx : x < 256 ^ 4) : Swaps 4 blSwap32 x := by
  apply Swaps.of_reversed _ _ hx
  · intro x hx
    apply lt_of_octets
    intro i hi
    rw [octet_blSwap32, octet_of_lt hx (by omega), if_neg (by omega), if_neg (by omega),
      if_neg (by omega), Nat.or_zero, Nat.or_zero, Nat.or_zero]
  · intro x hx i hi
    have hhigh : ∀ k, octet (k + 4) x = 0 := fun k => octet_of_lt hx (by omega)
    rw [octet_blSwap32]
    interval_cases i <;> simp [hhigh 0, hhigh 1, hhigh 2]

/-- The bytes that have to be zero. -/
theorem swaps_blSwap64_iff (hx : x < 256 ^ 8) :
    Swaps 8 blSwap64 x ↔ octet 1 x = 0 ∧ octet 2 x = 0 ∧ octet 5 x = 0 ∧ octet 6 x = 0 := by
  have hhigh : ∀ k, octet (k + 8) x = 0 := fun k => octet_of_lt hx (by omega)
  -- bytes 1 and 2 of the result are zero whatever the argument is
  have hlost : ∀ y < 256 ^ 8, octet 1 (blSwap64 y) = 0 ∧ octet 2 (blSwap64 y) = 0 := by
    intro y hy
    have hyhigh : ∀ k, octet (k + 8) y = 0 := fun k => octet_of_lt hy (by omega)
    rw [octet_blSwap64, octet_blSwap64]
    simp [hyhigh 0, hyhigh 1]
  have hlt := blSwap64_lt hx
  constructor
  · intro h
    have hback := hlost (blSwap64 x) hlt
    rw [h.involutive] at hback
    have h6 := h.reversed 1 (by decide)
    have h5 := h.reversed 2 (by decide)
    rw [(hlost x hx).1] at h6
    rw [(hlost x hx).2] at h5
    exact ⟨hback.1, hback.2, h5.symm, h6.symm⟩
  · intro ⟨h1, h2, h5, h6⟩
    have hreversed : ∀ i < 8, octet i (blSwap64 x) = octet (8 - 1 - i) x := by
      intro i hi
      rw [octet_blSwap64]
      interval_cases i <;>
        simp [hhigh 0, hhigh 1, hhigh 2, hhigh 3, hhigh 4, hhigh 5, hhigh 6, h1, h2, h5, h6]
    refine .of_involutive hreversed ?_
    apply eq_of_octets (blSwap64_lt hlt) hx
    intro i hi
    have hbytes : ∀ k < 8, octet k (blSwap64 x) = octet (7 - k) x := hreversed
    have hover : ∀ k, octet (k + 8) (blSwap64 x) = 0 := fun k => octet_of_lt hlt (by omega)
    rw [octet_blSwap64]
    interval_cases i <;>
      simp [hover 0, hover 1, hover 2, hover 3, hover 4, hover 5, hover 6, hbytes, h1, h2, h5, h6]

/-- The bytes of a field of the blob. -/
theorem writeBe32_octet (m : ByteMemory) (a x : Nat) (hx : x < 256 ^ 4) {i : Nat} (hi : i < 4) :
    (writeBe32 m a x (a + i)).toNat = octet (3 - i) x := by
  have hbyte : (writeBe32 m a x (a + i)).toNat = octet i (blSwap32 x) := by
    interval_cases i <;> simp [writeBe32, write32, write8, octet]
  rw [hbyte]
  exact (swaps_blSwap32 hx).reversed i hi

end

/-- The helpers do what they are for with `x₁`, `x₂` and `x₃`, and a field of the device tree that is
written with them is big-endian. -/
structure SwapHelpers (x₁ : BitVec 16) (x₂ : BitVec 32) (x₃ : BitVec 64) : Prop where
  swap16 : Swaps 2 blSwap16 x₁.toNat
  swap32 : Swaps 4 blSwap32 x₂.toNat
  swap64 : Swaps 8 blSwap64 x₃.toNat
  field : ∀ m a, ∀ i < 4, (writeBe32 m a x₂.toNat (a + i)).toNat = octet (3 - i) x₂.toNat

/-- **Byte swaps.** The bytes are reversed, and back after a second time, for every value of 16 and of
32 bits, and for one of 64 bits if and only if bytes 1, 2, 5 and 6 of it are zero. -/
theorem swapHelpers_iff (x₁ : BitVec 16) (x₂ : BitVec 32) (x₃ : BitVec 64) :
    SwapHelpers x₁ x₂ x₃ ↔ octet 1 x₃.toNat = 0 ∧ octet 2 x₃.toNat = 0 ∧ octet 5 x₃.toNat = 0 ∧
      octet 6 x₃.toNat = 0 := by
  constructor
  · intro h
    exact (swaps_blSwap64_iff x₃.isLt).mp h.swap64
  · intro h
    exact {
      swap16 := swaps_blSwap16 x₁.isLt
      swap32 := swaps_blSwap32 x₂.isLt
      swap64 := (swaps_blSwap64_iff x₃.isLt).mpr h
      field := fun m a _ hi => writeBe32_octet m a x₂.toNat x₂.isLt hi }

/-- Byte 6 comes out as byte 3. -/
theorem blSwap64_misplaces : ¬ SwapHelpers 0 0 0x00cd000000000000 := by
  intro h
  exact absurd (h.swap64.reversed 1 (by decide)) (by decide)

end XrLinux.Bootloader
