import Mathlib.Data.List.TakeWhile

/-!
# Binutils — the instruction table

`xr17032_opcodes` and the names of the registers, as `gas` reads them.
-/

namespace XrLinux.Binutils

/-! ## Entries -/

/-- The sizes of a memory operand, by the shift. -/
inductive MemSize where
  | byte | int | long
  deriving DecidableEq, Repr

/-- `enum xr17032_operand`; an entry's list ends before `XR_OP_NONE`. -/
inductive Operand where
  | jump | branch
  | imm | imm1 | imm2 | imm16 | immSign | immSmall
  | regA | regB | regC | regCShift
  | creg
  | memImm (size : MemSize)
  | memReg (size : MemSize)
  deriving DecidableEq, Repr

def Operand.isMem : Operand → Bool
  | memImm _ | memReg _ => true
  | _ => false

/-- `xr17032_opcode`, without the mask, which is for the disassembler. -/
structure Opcode where
  mnemonic : List Char
  opcodeBits : BitVec 32
  operands : List Operand
  deriving DecidableEq

namespace Opcode

/-- The first members of an initializer in the table. -/
def insn (mnemonic : String) (opcodeBits : BitVec 32) (operands : List Operand) : Opcode :=
  ⟨mnemonic.toList, opcodeBits, operands⟩

end Opcode

open Operand in
/-- `xr17032_opcodes`. -/
def xr17032Opcodes : List Opcode :=
  [.insn "j" 6 [jump],
   .insn "jal" 7 [jump],
   .insn "beq" 0x3d [regA, branch],
   .insn "bne" 0x35 [regA, branch],
   .insn "blt" 0x2d [regA, branch],
   .insn "bgt" 0x25 [regA, branch],
   .insn "bge" 0x15 [regA, branch],
   .insn "ble" 0x1d [regA, branch],
   .insn "bpe" 0x0d [regA, branch],
   .insn "bpo" 0x05 [regA, branch],
   .insn "addi" 0x3c [regA, regB, imm],
   .insn "subi" 0x34 [regA, regB, imm],
   .insn "slti" 0x2c [regA, regB, imm],
   .insn "slti signed" 0x24 [regA, regB, immSign],
   .insn "andi" 0x1c [regA, regB, imm],
   .insn "xori" 0x14 [regA, regB, imm],
   .insn "ori" 0x0c [regA, regB, imm],
   .insn "lui" 0x04 [regA, regB, imm16],
   .insn "mov" 0xf0000039 [regA, memReg .byte],
   .insn "mov" 0xe0000039 [regA, memReg .int],
   .insn "mov" 0xd0000039 [regA, memReg .long],
   .insn "mov" 0xb0000039 [memReg .byte, regA],
   .insn "mov" 0xa0000039 [memReg .int, regA],
   .insn "mov" 0x90000039 [memReg .long, regA],
   .insn "mov" 0x3b [regA, memImm .byte],
   .insn "mov" 0x33 [regA, memImm .int],
   .insn "mov" 0x2b [regA, memImm .long],
   .insn "mov" 0x3a [memImm .byte, regB],
   .insn "mov" 0x32 [memImm .int, regB],
   .insn "mov" 0x2a [memImm .long, regB],
   .insn "mov" 0x1a [memImm .byte, immSmall],
   .insn "mov" 0x12 [memImm .int, immSmall],
   .insn "mov" 0x0a [memImm .long, immSmall],
   .insn "jalr" 0x38 [regA, regB, imm2],
   .insn "adr" 0x30 [regA, imm16],
   .insn "lsh" 0x80000039 [regA, regC, regB],
   .insn "rsh" 0x84000039 [regA, regC, regB],
   .insn "ash" 0x88000039 [regA, regC, regB],
   .insn "ror" 0x8c000039 [regA, regC, regB],
   .insn "add" 0x70000039 [regA, regB, regCShift],
   .insn "sub" 0x60000039 [regA, regB, regCShift],
   .insn "slt" 0x50000039 [regA, regB, regCShift],
   .insn "slt signed" 0x40000039 [regA, regB, regCShift],
   .insn "and" 0x30000039 [regA, regB, regCShift],
   .insn "xor" 0x20000039 [regA, regB, regCShift],
   .insn "or" 0x10000039 [regA, regB, regCShift],
   .insn "nor" 0x00000039 [regA, regB, regCShift],
   .insn "mul" 0xf0000031 [regA, regB, regCShift],
   .insn "div" 0xd0000031 [regA, regB, regCShift],
   .insn "div signed" 0xc0000031 [regA, regB, regCShift],
   .insn "mod" 0xb0000031 [regA, regB, regCShift],
   .insn "ll" 0x90000031 [regA, regB],
   .insn "sc" 0x80000031 [regA, regB, regC],
   .insn "pause" 0x60000031 [],
   .insn "mb" 0x60000031 [],
   .insn "wmb" 0x20000031 [],
   .insn "brk" 0x10000031 [],
   .insn "sys" 0x00000031 [],
   .insn "mfcr" 0xf0000029 [regA, creg],
   .insn "mtcr" 0xe0000029 [creg, regB],
   .insn "hlt" 0xc0000029 [],
   .insn "rfe" 0xb0000029 []]

/-- The entries of a mnemonic. `init_opcode_hash` knows where they begin, and they end where the
next mnemonic begins. -/
def findInsn (mnemonic : List Char) : List Opcode :=
  (xr17032Opcodes.dropWhile (·.mnemonic ≠ mnemonic)).takeWhile (·.mnemonic = mnemonic)

/-- The entries of a mnemonic follow one another. -/
theorem findInsn_eq (mnemonic : List Char) :
    findInsn mnemonic = xr17032Opcodes.filter (·.mnemonic = mnemonic) := by
  by_cases hmem : ∃ e ∈ xr17032Opcodes, e.mnemonic = mnemonic
  · obtain ⟨e, he, rfl⟩ := hmem
    have hall : ∀ e ∈ xr17032Opcodes,
        findInsn e.mnemonic = xr17032Opcodes.filter (·.mnemonic = e.mnemonic) := by decide +kernel
    exact hall e he
  · have hnone : ∀ e ∈ xr17032Opcodes, e.mnemonic ≠ mnemonic := by
      intro e he heq
      exact hmem ⟨e, he, heq⟩
    rw [findInsn, List.dropWhile_eq_nil_iff.2 (by simpa using hnone), List.takeWhile_nil]
    symm
    exact List.filter_eq_nil_iff.2 (by simpa using hnone)

/-! ## Names -/

/-- What one of the tables of names has for a name. -/
abbrev NameTable := List (List Char × Nat)

/-- `xr17032_reg_names`. -/
def regNames : NameTable :=
  ["zero", "t0", "t1", "t2", "t3", "t4", "t5", "a0", "a1", "a2", "a3", "s0", "s1", "s2", "s3",
    "s4", "s5", "s6", "s7", "s8", "s9", "s10", "s11", "s12", "s13", "s14", "s15", "s16", "s17",
    "tp", "sp", "lr"].map String.toList |>.zipIdx

/-- `XR_REGISTER_ZERO`. -/
def regZero : Nat := 0

/-- `xr17032_control_reg_names`. -/
def controlRegNames : NameTable :=
  [("rs", 0), ("whami", 1), ("eb", 5), ("epc", 6), ("ebadaddr", 7), ("tbmissaddr", 9),
    ("tbpc", 10), ("scratch0", 11), ("scratch1", 12), ("scratch2", 13), ("scratch3", 14),
    ("scratch4", 15), ("itbpte", 16), ("itbtag", 17), ("itbindex", 18), ("itbctrl", 19),
    ("icachectrl", 20), ("itbaddr", 21), ("dtbpte", 24), ("dtbtag", 25), ("dtbindex", 26),
    ("dtbctrl", 27), ("dcachectrl", 28), ("dtbaddr", 29)].map fun (name, n) => (name.toList, n)

/-- `shift_op_names_hash`. -/
def shiftOpNames : NameTable := ["LSH", "RSH", "ASH", "ROR"].map String.toList |>.zipIdx

/-- `mem_size_names_hash`. -/
def memSizeNames : NameTable := ["byte", "int", "long"].map String.toList |>.zipIdx

/-- `wanted_shift`. -/
def MemSize.shift : MemSize → Nat
  | byte => 0
  | int => 1
  | long => 2

end XrLinux.Binutils
