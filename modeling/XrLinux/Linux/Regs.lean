import XrLinux.Machine.Instr

/-!
# Linux — registers and `struct pt_regs`

The general registers by their numbers, and `struct pt_regs` of `asm/ptrace.h`. In `struct pt_regs`
the general registers other than `zero` stand in the order of their numbers, `t0` to `lr`, after
`pc`; that part is `struct user_regs_struct`. After it come `rs` and `orig_a3`.
-/

namespace XrLinux.Linux

open Machine

def t0 : Reg := 1

def t1 : Reg := 2

def t2 : Reg := 3

def t3 : Reg := 4

def t4 : Reg := 5

/-- `t5`, which has the number of a system call. -/
def t5 : Reg := 6

def a0 : Reg := 7

def a1 : Reg := 8

def a2 : Reg := 9

def a3 : Reg := 10

instance neZeroSavedRegs : NeZero 18 := ⟨by decide⟩

/-- `s0` to `s17`. -/
def sReg (i : Fin 18) : Reg := ⟨11 + i, by omega⟩

def tp : Reg := 29

def sp : Reg := 30

/-! ## `asm/cr.h` -/

def rsM : Word := 0x4

def rsOldU : Word := 0x100

def rsOldI : Word := 0x200

def rsOldM : Word := 0x400

def rsEcause : Word := 0xf0000000

def rsEcauseSys : Word := 0x20000000

/-- `struct pt_regs`. The general registers are by number; there is none for `zero`. -/
structure PtRegs where
  pc : Word
  gpr : Reg → Word
  rs : Word
  origA3 : Word

/-- Writing a general register. -/
def PtRegs.set (regs : PtRegs) (r : Reg) (value : Word) : PtRegs :=
  { regs with gpr := Function.update regs.gpr r value }

@[simp] theorem PtRegs.set_gpr_self (regs : PtRegs) (r : Reg) (value : Word) :
    (regs.set r value).gpr r = value := Function.update_self _ _ _

theorem PtRegs.set_gpr_of_ne (regs : PtRegs) {r q : Reg} (value : Word) (h : q ≠ r) :
    (regs.set r value).gpr q = regs.gpr q := Function.update_of_ne h _ _

@[simp] theorem PtRegs.set_pc (regs : PtRegs) (r : Reg) (value : Word) :
    (regs.set r value).pc = regs.pc := rfl

@[simp] theorem PtRegs.set_rs (regs : PtRegs) (r : Reg) (value : Word) :
    (regs.set r value).rs = regs.rs := rfl

/-- `user_mode`. -/
def PtRegs.userMode (regs : PtRegs) : Bool := regs.rs &&& rsOldU != 0

/-- `PT_SIZE_ON_STACK`: 34 words, which are a multiple of `STACK_ALIGN`. -/
def ptSizeOnStack : Word := 136

end XrLinux.Linux
