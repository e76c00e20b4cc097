import XrLinux.Gcc.Operand
import XrLinux.Lib.BitField
import XrLinux.Machine.Solo

/-!
# GCC port — sub-word locations

The machine links and stores whole words only, so the atomic patterns on `QImode` and `HImode`
work on the aligned word around the location. `xr17032_subword_address` and
`xr17032_lshift_subword` (`gcc/config/xr17032/xr17032.cc`) compute the word's address, the shift
and the two masks; here they are connected to the `BitField` of the word that the location is.
-/

namespace XrLinux.Gcc

open XrLinux.Machine

/-- The integer modes `QI`, `HI` and `SI`. -/
inductive MachineMode where
  | qi | hi | si
  deriving DecidableEq, Repr

/-- `GET_MODE_SIZE`. -/
def MachineMode.size : MachineMode → Nat
  | .qi => 1
  | .hi => 2
  | .si => 4

/-- `GET_MODE_BITSIZE`. -/
abbrev MachineMode.bitsize (mode : MachineMode) : Nat := 8 * mode.size

/-- `GET_MODE_MASK`. -/
def MachineMode.mask : MachineMode → Word
  | .qi => 0xff
  | .hi => 0xffff
  | .si => 0xffffffff

/-- An aligned location in memory. -/
structure Location where
  mode : MachineMode
  addr : Word
  aligned : addr.toNat % mode.size = 0

/-- The bits of the word around it that a location is, on a little-endian machine. -/
def Location.field (l : Location) : BitField 32 where
  shift := 8 * (l.addr.toNat % 4)
  width := l.mode.bitsize
  fits := by
    have haligned := l.aligned
    cases hmode : l.mode <;>
      simp only [hmode, MachineMode.bitsize, MachineMode.size] at haligned ⊢ <;> omega

/-- What the location holds when the word around it is `w`. -/
def Location.get (l : Location) (w : Word) : BitVec l.mode.bitsize := l.field.get w

/-- `w'` is `w` with the location set to `new` and the rest of the word unchanged. -/
def Location.Replaces (l : Location) (new : BitVec l.mode.bitsize) (w w' : Word) : Prop :=
  l.field.Replaces new w w'

/-- The outputs of `xr17032_subword_address`. -/
structure SubwordAddress where
  alignedMem : Word
  shift : Word
  mask : Word
  notMask : Word

def xr17032SubwordAddress (mode : MachineMode) (addr : Word) : SubwordAddress :=
  let addrOffset := addr &&& 3
  let alignedAddr := addr - addrOffset
  let shift := addrOffset <<< 3
  let mask := ShiftOp.lsh.eval mode.mask shift
  { alignedMem := alignedAddr, shift, mask, notMask := ~~~mask }

/-- The `xr17032_subword_address` of a location. -/
abbrev Location.subword (l : Location) : SubwordAddress := xr17032SubwordAddress l.mode l.addr

/-- `xr17032_lshift_subword`: the whole register is shifted, whatever stands above its low
part. -/
def xr17032LshiftSubword (value shift : Word) : Word := ShiftOp.lsh.eval value shift

/-- How the expanders turn the old word into the value they return: an arithmetic right shift,
then `gen_lowpart`. -/
def subwordLowpart (mode : MachineMode) (old shift : Word) : BitVec mode.bitsize :=
  (ShiftOp.ash.eval old shift).setWidth mode.bitsize

theorem Location.subword_shift (l : Location) : l.subword.shift.toNat = l.field.shift := by
  have hoff : (l.addr &&& 3).toNat = l.addr.toNat % 4 := by
    rw [BitVec.toNat_and]
    exact Nat.and_two_pow_sub_one_eq_mod _ 2
  simp only [xr17032SubwordAddress, Location.field, BitVec.toNat_shiftLeft, hoff]
  omega

theorem Location.shift_lt (l : Location) : l.field.shift < 32 := by
  simp only [Location.field]
  omega

theorem MachineMode.mask_eq (mode : MachineMode) :
    mode.mask = (BitVec.allOnes mode.bitsize).setWidth 32 := by
  cases mode <;> decide

/-- `*mask` covers the location. -/
theorem Location.subword_mask (l : Location) : l.subword.mask = l.field.mask := by
  show ShiftOp.lsh.eval l.mode.mask l.subword.shift = l.field.mask
  simp only [ShiftOp.eval, l.subword_shift, Nat.mod_eq_of_lt l.shift_lt, MachineMode.mask_eq]
  rfl

/-- `*not_mask` covers the rest of the word. -/
theorem Location.subword_notMask (l : Location) : l.subword.notMask = ~~~l.field.mask := by
  rw [← l.subword_mask]
  rfl

theorem Location.lshiftSubword (l : Location) (value : Word) :
    xr17032LshiftSubword value l.subword.shift = value <<< l.field.shift := by
  simp [xr17032LshiftSubword, ShiftOp.eval, l.subword_shift, Nat.mod_eq_of_lt l.shift_lt]

/-- The low part of the shifted word is the location's value. -/
theorem Location.lowpart (l : Location) (old : Word) :
    subwordLowpart l.mode old l.subword.shift = l.get old := by
  simp only [subwordLowpart, ShiftOp.eval, l.subword_shift, Nat.mod_eq_of_lt l.shift_lt]
  exact l.field.setWidth_sshiftRight old

/-- A value moved up to the location is, in the location, the value's low part. -/
theorem Location.get_lshiftSubword (l : Location) (value : Word) :
    l.get (xr17032LshiftSubword value l.subword.shift) = value.setWidth l.mode.bitsize := by
  rw [l.lshiftSubword]
  exact l.field.get_shiftLeft value

@[simp] theorem Location.get_and (l : Location) (w x : Word) :
    l.get (w &&& x) = l.get w &&& l.get x := l.field.get_and w x

@[simp] theorem Location.get_or (l : Location) (w x : Word) :
    l.get (w ||| x) = l.get w ||| l.get x := l.field.get_or w x

@[simp] theorem Location.get_xor (l : Location) (w x : Word) :
    l.get (w ^^^ x) = l.get w ^^^ l.get x := l.field.get_xor w x

@[simp] theorem Location.get_notMask (l : Location) : l.get l.subword.notMask = 0 := by
  rw [l.subword_notMask]
  show l.field.get (~~~l.field.mask) = 0#l.field.width
  simp

theorem Location.replaces_iff (l : Location) {new : BitVec l.mode.bitsize} {w w' : Word} :
    l.Replaces new w w' ↔
      l.get w' = new ∧ w' &&& l.subword.notMask = w &&& l.subword.notMask := by
  rw [l.subword_notMask]
  exact l.field.replaces_iff

/-- Clearing the location with `*not_mask` and merging in what `*mask` leaves of another word. -/
theorem Location.replaces_merge (l : Location) (w x : Word) :
    l.Replaces (l.get x) w ((w &&& l.subword.notMask) ||| (x &&& l.subword.mask)) := by
  rw [l.subword_notMask, l.subword_mask]
  exact l.field.replaces_merge w x

/-! ## A word location is the whole word -/

theorem Location.addr_of_si {l : Location} (hl : l.mode = .si) : l.addr.toNat % 4 = 0 := by
  have haligned := l.aligned
  rwa [hl] at haligned

theorem Location.get_of_si {l : Location} (hl : l.mode = .si) (w : Word) :
    l.get w = w.setWidth l.mode.bitsize := by
  have hshifted := l.field.get_shiftLeft w
  rw [show l.field.shift = 0 by simp [field, addr_of_si hl], BitVec.shiftLeft_zero] at hshifted
  exact hshifted

/-- An aligned word is its own aligned word. -/
theorem Location.alignedMem_of_si {l : Location} (hl : l.mode = .si) :
    l.subword.alignedMem = l.addr := by
  have hoff : l.addr &&& 3#32 = 0#32 := by
    apply BitVec.eq_of_toNat_eq
    rw [BitVec.toNat_and]
    exact (Nat.and_two_pow_sub_one_eq_mod _ 2).trans (addr_of_si hl)
  simp [xr17032SubwordAddress, hoff]

/-- Setting a word location is storing the value. -/
theorem Location.replaces_iff_of_si {l : Location} (hl : l.mode = .si) (v w w' : Word) :
    l.Replaces (v.setWidth l.mode.bitsize) w w' ↔ w' = v := by
  have hcovers : ∀ i, ¬ l.field.Covers i → 32 ≤ i := by
    intro i
    simp only [BitField.Covers, field, addr_of_si hl, hl, MachineMode.bitsize, MachineMode.size]
    omega
  have hinj : ∀ x : Word, (x.setWidth l.mode.bitsize).setWidth 32 = x := by
    intro x
    rw [hl]
    exact x.setWidth_eq
  constructor
  · rintro ⟨hw', -⟩
    have hsame : w'.setWidth l.mode.bitsize = v.setWidth l.mode.bitsize :=
      (get_of_si hl w').symm.trans hw'
    rw [← hinj w', hsame, hinj]
  · rintro rfl
    refine ⟨get_of_si hl w', fun i hi => ?_⟩
    rw [BitVec.getLsbD_of_ge _ _ (hcovers i hi), BitVec.getLsbD_of_ge _ _ (hcovers i hi)]

/-! ## Updating a location -/

/-- The sequence changes the location, and no other bit of the word, from what the last
load-linked found to `new`, after any number of lost attempts, and `returned` is what the
location held there. -/
def Location.Updates (l : Location) (base : Word) (prog : List Instr) (regs : RegFile)
    (lost : List Word) (w : Word) (new : BitVec l.mode.bitsize)
    (returned : RegFile → BitVec l.mode.bitsize) : Prop :=
  ∃ w', l.Replaces new w w' ∧
    Finishes l.subword.alignedMem base prog regs (lost.map .lost ++ [.kept w]) [w']
      (fun out => returned out = l.get w)

/-- What a loop stores decides whether it updates the location. -/
theorem Location.updates_iff {l : Location} {base : Word} {prog : List Instr} {regs : RegFile}
    {lost : List Word} {w stored : Word} {new : BitVec l.mode.bitsize}
    {returned : RegFile → BitVec l.mode.bitsize}
    (hfin : Finishes l.subword.alignedMem base prog regs (lost.map .lost ++ [.kept w]) [stored]
      (fun out => returned out = l.get w)) :
    l.Updates base prog regs lost w new returned ↔ l.Replaces new w stored := by
  constructor
  · rintro ⟨w', hreplaces, hfin'⟩
    obtain ⟨hstored, -⟩ := hfin.unique hfin'
    rw [List.cons.injEq] at hstored
    rwa [hstored.1]
  · intro hreplaces
    exact ⟨stored, hreplaces, hfin⟩

end XrLinux.Gcc
