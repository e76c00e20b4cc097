import XrLinux.Binutils.Gas
import XrLinux.Gcc.Frame

/-!
# GCC port — constants

How `xr17032_move_integer` loads a constant, down to the instruction words. `xr17032_output_move`
and the template of `iorsi3` print a number, the assembler puts it into the field of the immediate
with `xr17032_apply_const_reloc`, and the processor reads it from there.
-/

namespace XrLinux.Gcc

open XrLinux.Machine XrLinux.Binutils

/-! ## Printing -/

inductive Mnemonic where
  | addi | subi | ori | lui
  deriving DecidableEq, Repr

/-- A printed instruction, with the number that its last operand stands for. -/
structure Printed where
  mnemonic : Mnemonic
  rd : Reg
  ra : Reg
  imm : Int
  deriving DecidableEq, Repr

/-- `xr17032_output_move` of a constant, which goes to a register. It may `abort`. -/
def outputMove (dest : Reg) (value : Int) : Option Printed :=
  if smallOperand value then some ⟨.addi, dest, zero, value⟩
  -- written as `-(value)`
  else if smallOperand (-value) then some ⟨.subi, dest, zero, -value⟩
  else if luiOperand value then some ⟨.lui, dest, zero, value⟩
  else none

/-- What is printed of the insns that load a constant. -/
def Insn.output : Insn → Option Printed
  | .set dest value => outputMove dest value
  | .ior dest src value => some ⟨.ori, dest, src, value⟩
  | _ => none

/-- `xr17032_const_insns` of a `CONST_INT`. -/
def constInsns (value : Int) : Nat := (!intSingleMov value).toNat + 1

/-! ## Assembling -/

/-- The relocation of an immediate, `XR_OP_IMM_16` or `XR_OP_IMM`. -/
def Mnemonic.reloc : Mnemonic → RelocType
  | .lui => .imm16_16
  | _ => .imm16

/-- By how much the processor shifts the field to the left. -/
def Mnemonic.shift : Mnemonic → Nat
  | .lui => 16
  | _ => 0

def Mnemonic.op : Mnemonic → AluOp
  | .addi => .add
  | .subi => .sub
  | .ori | .lui => .or

/-- What the assembler puts into the instruction word for the number. -/
def Printed.bits (p : Printed) : Option (BitVec 32) :=
  applyConstReloc p.mnemonic.reloc (BitVec.ofInt 64 p.imm)

/-- What the processor reads from the field of the instruction word. -/
def Mnemonic.immediate (m : Mnemonic) (bits : BitVec 32) : Word :=
  (extractImm m.shift (bits.setWidth 64)).setWidth 32

/-- The number in the field: the upper half of a signed number, or an unsigned one. -/
def Mnemonic.number (m : Mnemonic) (bits : BitVec 32) : Int :=
  match m with
  | .lui => (m.immediate bits).toInt
  | _ => (m.immediate bits).toNat

/-- The field holds the number that was printed. -/
def Printed.Fits (p : Printed) : Prop := p.bits.map p.mnemonic.number = some p.imm

/-- Assembling and executing. -/
def Printed.exec (p : Printed) (regs : RegFile) : Option RegFile :=
  p.bits.map fun bits =>
    regs.set p.rd (p.mnemonic.op.eval (regs.get p.ra) (p.mnemonic.immediate bits))

def execPrinted (lines : List Printed) (regs : RegFile) : Option RegFile :=
  lines.foldlM (fun regs p => p.exec regs) regs

theorem Mnemonic.immediate_toNat (m : Mnemonic) (bits : BitVec 32) :
    (m.immediate bits).toNat = bits.toNat / 65536 * 2 ^ m.shift := by
  have hbits := bits.isLt
  have hs : m.shift ≤ 16 := by cases m <;> decide
  have hpow : 2 ^ m.shift ≤ 2 ^ 16 := Nat.pow_le_pow_right (by omega) hs
  have hfield : bits.toNat / 65536 % 65536 = bits.toNat / 65536 := by omega
  have hwide : (bits.setWidth 64).toNat = bits.toNat := by
    rw [BitVec.toNat_setWidth]
    omega
  rw [immediate, BitVec.toNat_setWidth, extractImm_toNat hs, hwide, hfield]
  apply Nat.mod_eq_of_lt
  calc bits.toNat / 65536 * 2 ^ m.shift ≤ 65535 * 2 ^ 16 := Nat.mul_le_mul (by omega) hpow
    _ < 2 ^ 32 := by decide

/-- The number read is, modulo `2 ^ 32`, what the processor computes with. -/
theorem Mnemonic.ofInt_number (m : Mnemonic) (bits : BitVec 32) :
    BitVec.ofInt 32 (m.number bits) = m.immediate bits := by
  cases m <;> simp [Mnemonic.number]

/-- What an instruction computes when its number fits. -/
theorem Printed.exec_of_fits {p : Printed} (hfits : p.Fits) (regs : RegFile) :
    p.exec regs =
      some (regs.set p.rd (p.mnemonic.op.eval (regs.get p.ra) (BitVec.ofInt 32 p.imm))) := by
  obtain ⟨bits, hbits, hnumber⟩ := Option.map_eq_some_iff.mp hfits
  rw [Printed.exec, hbits, ← hnumber, Mnemonic.ofInt_number]
  rfl

theorem applyConstReloc_small {value : Int} (hsmall : smallOperand value) :
    ∃ bits, applyConstReloc .imm16 (BitVec.ofInt 64 value) = some bits ∧
      bits.toNat = value.toNat * 65536 := by
  rw [smallOperand_iff] at hsmall
  refine ⟨_, rfl, ?_⟩
  rw [BitVec.toNat_setWidth, xrImmEncodeI, encodeImm_toNat, xrImmLowPart_toNat, BitVec.toNat_ofInt]
  omega

theorem applyConstReloc_high {value : Int} (hlui : luiOperand value) :
    ∃ bits, applyConstReloc .imm16_16 (BitVec.ofInt 64 value) = some bits ∧
      bits.toNat = (value % 4294967296).toNat := by
  simp only [luiOperand, Bool.and_eq_true, decide_eq_true_eq] at hlui
  refine ⟨_, rfl, ?_⟩
  rw [encodeImm_highPart, BitVec.toNat_setWidth, xrImmEncodeI16, encodeImm_toNat,
    BitVec.toNat_ofInt]
  omega

/-- All but `lui` read an unsigned number. -/
theorem Mnemonic.unsigned {m : Mnemonic} (hm : m ≠ .lui) (bits : BitVec 32) :
    m.number bits = (m.immediate bits).toNat ∧ m.shift = 0 ∧ m.reloc = .imm16 := by
  cases m with
  | lui => exact absurd rfl hm
  | addi | subi | ori => exact ⟨rfl, rfl, rfl⟩

/-- An unsigned immediate takes a `SMALL_OPERAND`. -/
theorem fits_of_small {m : Mnemonic} {rd ra : Reg} {value : Int} (hm : m ≠ .lui)
    (hsmall : smallOperand value) : Printed.Fits ⟨m, rd, ra, value⟩ := by
  obtain ⟨bits, hbits, htoNat⟩ := applyConstReloc_small hsmall
  obtain ⟨hnumber, hshift, hreloc⟩ := Mnemonic.unsigned hm bits
  rw [smallOperand_iff] at hsmall
  have hvalue : m.number bits = value := by
    rw [hnumber, Mnemonic.immediate_toNat, hshift, htoNat]
    omega
  show (applyConstReloc m.reloc (BitVec.ofInt 64 value)).map m.number = some value
  rw [hreloc, hbits, Option.map_some, hvalue]

/-- `lui` takes a `LUI_OPERAND`. -/
theorem fits_of_lui {rd ra : Reg} {value : Int} (hlui : luiOperand value) :
    Printed.Fits ⟨.lui, rd, ra, value⟩ := by
  obtain ⟨bits, hbits, htoNat⟩ := applyConstReloc_high hlui
  simp only [luiOperand, Bool.and_eq_true, decide_eq_true_eq] at hlui
  have hnat : (Mnemonic.lui.immediate bits).toNat = (value % 4294967296).toNat := by
    rw [Mnemonic.immediate_toNat, htoNat]
    show (value % 4294967296).toNat / 65536 * 65536 = _
    omega
  have hnumber : Mnemonic.lui.number bits = value := by
    show (Mnemonic.lui.immediate bits).toInt = value
    rw [BitVec.toInt_eq_toNat_bmod, hnat, Int.bmod_def]
    omega
  show (applyConstReloc .imm16_16 (BitVec.ofInt 64 value)).map _ = _
  rw [hbits, Option.map_some, hnumber]

/-! ## One move -/

theorem splittableConstInt_iff (value : Int) :
    splittableConstInt value ↔
      ¬luiOperand value ∧ ¬smallOperand value ∧ ¬smallOperand (-value) := by
  simp [splittableConstInt, and_assoc]

/-- The reach of `xr17032_int_single_mov` ends at two constants that `lui` loads. -/
theorem intSingleMov_iff (value : Int) : intSingleMov value ↔ ¬splittableConstInt value := by
  simp only [splittableConstInt_iff, intSingleMov, luiOperand, smallOperand, Bool.and_eq_true,
    Bool.or_eq_true, decide_eq_true_eq]
  omega

/-- A move that its pattern takes is printed without reaching `abort`, and its number fits. -/
theorem outputMove_of_not_splittable (dest : Reg) {value : Int} (h : ¬splittableConstInt value) :
    ∃ p, outputMove dest value = some p ∧ p.Fits ∧
      ∀ regs, p.exec regs = some (regs.set dest (BitVec.ofInt 32 value)) := by
  rw [splittableConstInt_iff] at h
  unfold outputMove
  split
  next hsmall =>
    have hfits : Printed.Fits ⟨.addi, dest, zero, value⟩ := fits_of_small (by decide) hsmall
    refine ⟨_, rfl, hfits, fun regs => ?_⟩
    rw [Printed.exec_of_fits hfits]
    simp [Mnemonic.op]
  next hsmall =>
    split
    next hneg =>
      have hfits : Printed.Fits ⟨.subi, dest, zero, -value⟩ := fits_of_small (by decide) hneg
      refine ⟨_, rfl, hfits, fun regs => ?_⟩
      rw [Printed.exec_of_fits hfits]
      simp [Mnemonic.op, BitVec.ofInt_neg]
    next hneg =>
      have hlui : luiOperand value := by
        by_contra hlui
        exact h ⟨hlui, hsmall, hneg⟩
      have hfits : Printed.Fits ⟨.lui, dest, zero, value⟩ := fits_of_lui hlui
      rw [if_pos hlui]
      refine ⟨_, rfl, hfits, fun regs => ?_⟩
      rw [Printed.exec_of_fits hfits]
      simp [Mnemonic.op]

/-! ## Loading a constant -/

/-- The high half of a constant is moved on its own. -/
theorem luiOperand_high (value : Int) (hlow : -2147483648 ≤ value) (hhigh : value < 2147483648) :
    luiOperand (value / 65536 * 65536) := by
  simp only [luiOperand, Bool.and_eq_true, decide_eq_true_eq]
  omega

theorem smallOperand_low (value : Int) : smallOperand (value % 65536) := by
  rw [smallOperand_iff]
  omega

theorem not_splittable_of_lui {value : Int} (hlui : luiOperand value) :
    ¬splittableConstInt value := by
  rw [splittableConstInt_iff]
  exact fun h => h.1 hlui

theorem accepted_set {dest : Reg} {value : Int} (hlow : -2147483648 ≤ value)
    (hhigh : value < 2147483648) (h : ¬splittableConstInt value) :
    Insn.accepted (.set dest value) := by
  simp [Insn.accepted, moveOperand, hlow, hhigh, h]

/-- A list of insns loads a constant: as RTL, and as it is printed, assembled and executed. -/
structure Loads (insns : List Insn) (dest : Reg) (value : Word) : Prop where
  length_le : insns.length ≤ 2
  exec_eq : ∀ st, (exec insns st).regs.get dest = value
  accepted : ∀ insn ∈ insns, insn.accepted
  printed : ∃ lines, insns.mapM Insn.output = some lines ∧ (∀ p ∈ lines, p.Fits) ∧
    ∀ regs, ∃ regs', execPrinted lines regs = some regs' ∧ regs'.get dest = value

/-- One move of a constant that is not split. -/
theorem loads_set {dest : Reg} (hdest : dest ≠ zero) (value : Word)
    (h : ¬splittableConstInt value.toInt) : Loads [.set dest value.toInt] dest value := by
  have hlow := value.le_toInt
  have hhigh := value.toInt_lt
  have hvalue : BitVec.ofInt 32 value.toInt = value := BitVec.ofInt_toInt
  obtain ⟨p, houtput, hfits, hexec⟩ := outputMove_of_not_splittable dest h
  refine ⟨by simp, fun st => ?_, ?_, [p], ?_, ?_, fun regs => ?_⟩
  · show (st.set dest _).regs.get dest = value
    rw [St.get_set_self st hdest, hvalue]
  · intro insn hinsn
    rw [List.mem_singleton.mp hinsn]
    exact accepted_set (by omega) (by omega) h
  · simp [Insn.output, houtput]
  · intro q hq
    rwa [List.mem_singleton.mp hq]
  · refine ⟨regs.set dest value, ?_, RegFile.get_set_self hdest⟩
    simp [execPrinted, hexec, hvalue]

/-- `lui` of the upper half, and `ori` of the lower one. -/
theorem loads_lui_ori {temp dest : Reg} (htemp : temp ≠ zero) (hdest : dest ≠ zero)
    (value : Word) :
    Loads [.set temp (value.toInt / 65536 * 65536), .ior dest temp (value.toInt % 65536)] dest
      value := by
  have hlow := value.le_toInt
  have hhigh := value.toInt_lt
  have hvalue : BitVec.ofInt 32 value.toInt = value := BitVec.ofInt_toInt
  have hhalves := ofInt_high_or_low value.toInt
  have hsplit := not_splittable_of_lui (luiOperand_high value.toInt (by omega) (by omega))
  obtain ⟨p, houtput, hfits, hexec⟩ := outputMove_of_not_splittable temp hsplit
  have hori : Printed.Fits ⟨.ori, dest, temp, value.toInt % 65536⟩ :=
    fits_of_small (by decide) (smallOperand_low _)
  refine ⟨by simp, fun st => ?_, ?_, [p, ⟨.ori, dest, temp, value.toInt % 65536⟩], ?_, ?_,
    fun regs => ?_⟩
  · show ((st.set temp _).set dest ((st.set temp _).regs.get temp ||| _)).regs.get dest = value
    rw [St.get_set_self _ hdest, St.get_set_self _ htemp, hhalves, hvalue]
  · intro insn hinsn
    rcases List.mem_pair.mp hinsn with rfl | rfl
    · exact accepted_set (by omega) (by omega) hsplit
    · exact smallOperand_low _
  · simp [Insn.output, houtput]
  · intro q hq
    rcases List.mem_pair.mp hq with rfl | rfl
    · exact hfits
    · exact hori
  · let regs' := regs.set temp (BitVec.ofInt 32 (value.toInt / 65536 * 65536))
    refine ⟨regs'.set dest value, ?_, RegFile.get_set_self hdest⟩
    have hset : regs'.get temp = BitVec.ofInt 32 (value.toInt / 65536 * 65536) :=
      RegFile.get_set_self htemp
    simp [execPrinted, hexec, Printed.exec_of_fits hori, Mnemonic.op, regs', hset, hhalves, hvalue]

/-- `xr17032_move_integer` loads any constant. The predicates and the cost say with how many
insns. -/
theorem moveInteger_loads (temp dest : Reg) (htemp : temp ≠ zero) (hdest : dest ≠ zero)
    (value : Word) :
    Loads (moveInteger temp dest value.toInt) dest value ∧
      (intSingleMov value.toInt ↔ (moveInteger temp dest value.toInt).length = 1) ∧
      (splittableConstInt value.toInt ↔ (moveInteger temp dest value.toInt).length = 2) ∧
      constInsns value.toInt = (moveInteger temp dest value.toInt).length := by
  have hiff := intSingleMov_iff value.toInt
  unfold moveInteger constInsns
  split
  next hsingle => exact ⟨loads_set hdest value (hiff.mp hsingle), by simp_all⟩
  next hsingle => exact ⟨loads_lui_ori htemp hdest value, by simp_all⟩

/-- -65537, the first constant below the reach of `subi` and `lui`, through another register. -/
theorem moveInteger_loads_below :
    Loads (moveInteger 1 5 (-65537)) 5 0xfffeffff ∧ constInsns (-65537) = 2 :=
  have h := moveInteger_loads 1 5 (by decide) (by decide) 0xfffeffff
  ⟨h.1, by decide⟩

end XrLinux.Gcc
