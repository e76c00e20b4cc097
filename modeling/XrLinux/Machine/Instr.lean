import Mathlib.Data.BitVec
import Mathlib.Logic.Function.Basic
import Mathlib.Tactic.Common

/-!
# XR/17032 — the instructions the ports emit

The part of the instruction set that the emitted sequences of the GCC port use, under the
mnemonics of `opcodes/xr17032-opc.c`: register and immediate arithmetic, branches on one
register's relation to zero, the pc-relative `adr`/`jalr` pair, and load-linked and
store-conditional.

An instruction sequence is a list; a branch inside it names the index of the instruction its
numeric label stands before, and control leaves the sequence either past its end or to an
address (`Cpu.left`).
-/

namespace XrLinux.Machine

abbrev Word := BitVec 32

/-- A general register, numbered as `XR_REGISTER_*`. -/
abbrev Reg := Fin 32

/-- Register numerals. -/
instance neZeroRegs : NeZero 32 := ⟨by decide⟩

/-- `XR_REGISTER_ZERO`: reads as zero whatever is written to it. -/
def zero : Reg := 0

/-- `XR_REGISTER_LR`. -/
def lr : Reg := 31

structure RegFile where
  raw : Reg → Word

def RegFile.get (regs : RegFile) (r : Reg) : Word :=
  if r = zero then 0 else regs.raw r

def RegFile.set (regs : RegFile) (r : Reg) (value : Word) : RegFile :=
  ⟨Function.update regs.raw r value⟩

@[simp] theorem RegFile.get_zero (regs : RegFile) : regs.get zero = 0 := by
  simp [RegFile.get]

theorem RegFile.get_set_self {regs : RegFile} {r : Reg} {value : Word} (hr : r ≠ zero) :
    (regs.set r value).get r = value := by
  simp [RegFile.get, RegFile.set, hr]

theorem RegFile.get_set_of_ne {regs : RegFile} {r q : Reg} {value : Word} (hne : q ≠ r) :
    (regs.set r value).get q = regs.get q := by
  simp [RegFile.get, RegFile.set, hne]

/-- The inline shifts of the last register operand, and the `lsh` … `ror` instructions. -/
inductive ShiftOp where
  | lsh | rsh | ash | ror
  deriving DecidableEq, Repr

/-- Only the low five bits of a shift amount count. -/
def ShiftOp.eval (op : ShiftOp) (value amount : Word) : Word :=
  let n := amount.toNat % 32
  match op with
  | .lsh => value <<< n
  | .rsh => value >>> n
  | .ash => value.sshiftRight n
  | .ror => value.rotateRight n

/-- The two-operand operations. -/
inductive AluOp where
  | add | sub | slt | sltSigned | and | xor | or | nor
  deriving DecidableEq, Repr

def AluOp.eval (op : AluOp) (a b : Word) : Word :=
  match op with
  | .add => a + b
  | .sub => a - b
  | .slt => if a.ult b then 1 else 0
  | .sltSigned => if a.slt b then 1 else 0
  | .and => a &&& b
  | .xor => a ^^^ b
  | .or => a ||| b
  | .nor => ~~~(a ||| b)

@[simp] theorem AluOp.eval_add (a b : Word) : AluOp.add.eval a b = a + b := rfl

@[simp] theorem AluOp.eval_sub (a b : Word) : AluOp.sub.eval a b = a - b := rfl

@[simp] theorem AluOp.eval_and (a b : Word) : AluOp.and.eval a b = a &&& b := rfl

@[simp] theorem AluOp.eval_xor (a b : Word) : AluOp.xor.eval a b = a ^^^ b := rfl

@[simp] theorem AluOp.eval_or (a b : Word) : AluOp.or.eval a b = a ||| b := rfl

@[simp] theorem AluOp.eval_nor (a b : Word) : AluOp.nor.eval a b = ~~~(a ||| b) := rfl

/-- How an immediate form extends its sixteen bits: `slti signed` alone sign-extends. -/
def AluOp.extend (op : AluOp) (imm : BitVec 16) : Word :=
  match op with
  | .sltSigned => imm.signExtend 32
  | _ => imm.zeroExtend 32

/-- The last operand: a register with its inline shift, or an immediate. -/
inductive Src where
  | reg (r : Reg) (shift : ShiftOp) (amount : Fin 32)
  | imm (value : BitVec 16)
  deriving DecidableEq, Repr

/-- A plain register, `LSH 0`. -/
abbrev Src.plain (r : Reg) : Src := .reg r .lsh 0

/-- What a branch tests of its register, as a signed number. -/
inductive Cond where
  | eq | ne | lt | gt | ge | le
  deriving DecidableEq, Repr

def Cond.test (cond : Cond) (value : Word) : Bool :=
  match cond with
  | .eq => value.toInt == 0
  | .ne => value.toInt != 0
  | .lt => value.toInt < 0
  | .gt => value.toInt > 0
  | .ge => value.toInt ≥ 0
  | .le => value.toInt ≤ 0

/-- Where a branch goes: to the instruction a numeric label of the same sequence stands before,
or to a label elsewhere. -/
inductive Dest where
  | label (index : Nat)
  | address (addr : Word)
  deriving DecidableEq, Repr

inductive Instr where
  | alu (op : AluOp) (rd ra : Reg) (src : Src)
  /-- `lsh rd, rc, rb` and its siblings: `rc` shifted by `rb`. -/
  | shift (op : ShiftOp) (rd rc rb : Reg)
  | branch (cond : Cond) (ra : Reg) (dest : Dest)
  /-- `adr rd, imm`: the instruction's own address plus a multiple of 2^16. -/
  | adr (rd : Reg) (high : Word)
  | jalr (rd ra : Reg) (offset : Word)
  | ll (rd ra : Reg)
  | sc (rd ra rb : Reg)
  deriving DecidableEq, Repr

/-- One processor inside a sequence: the index of the next instruction, the registers, and the
address control has left the sequence for, once it has. -/
structure Cpu where
  pc : Nat
  regs : RegFile
  left : Option Word := none

def Src.value (src : Src) (op : AluOp) (regs : RegFile) : Word :=
  match src with
  | .reg r shift amount => shift.eval (regs.get r) (BitVec.ofNat 32 amount)
  | .imm value => op.extend value

@[simp] theorem Src.value_plain (r : Reg) (op : AluOp) (regs : RegFile) :
    (Src.plain r).value op regs = regs.get r := by
  simp [Src.value, ShiftOp.eval]

/-- What one instruction asks of the machine: an internal step, or an access to memory. -/
inductive Effect where
  | done (cpu : Cpu)
  | loadLinked (rd : Reg) (addr : Word)
  | storeConditional (rd : Reg) (addr value : Word)

/-- The next instruction in sequence. -/
def Cpu.next (cpu : Cpu) (regs : RegFile) : Cpu := { cpu with pc := cpu.pc + 1, regs := regs }

/-- The effect of `instr` on a processor whose sequence starts at `base`. -/
def Instr.effect (base : Word) (instr : Instr) (cpu : Cpu) : Effect :=
  match instr with
  | .alu op rd ra src =>
    .done (cpu.next (cpu.regs.set rd (op.eval (cpu.regs.get ra) (src.value op cpu.regs))))
  | .shift op rd rc rb =>
    .done (cpu.next (cpu.regs.set rd (op.eval (cpu.regs.get rc) (cpu.regs.get rb))))
  | .branch cond ra dest =>
    if cond.test (cpu.regs.get ra) then
      match dest with
      | .label index => .done { cpu with pc := index }
      | .address addr => .done { cpu with left := some addr }
    else .done (cpu.next cpu.regs)
  | .adr rd high =>
    .done (cpu.next (cpu.regs.set rd (base + BitVec.ofNat 32 (4 * cpu.pc) + high)))
  | .jalr rd ra offset =>
    .done { cpu with
      regs := cpu.regs.set rd (base + BitVec.ofNat 32 (4 * cpu.pc) + 4)
      left := some (cpu.regs.get ra + offset) }
  | .ll rd ra => .loadLinked rd (cpu.regs.get ra)
  | .sc rd ra rb => .storeConditional rd (cpu.regs.get ra) (cpu.regs.get rb)

/-- The instruction a processor is about to execute, unless it has left the sequence. -/
def fetch (prog : List Instr) (cpu : Cpu) : Option Instr :=
  match cpu.left with
  | some _ => none
  | none => prog[cpu.pc]?

/-- One instruction of a sequence that accesses no memory. -/
def stepStraight (base : Word) (prog : List Instr) (cpu : Cpu) : Option Cpu :=
  match fetch prog cpu with
  | none => none
  | some instr =>
    match instr.effect base cpu with
    | .done cpu' => some cpu'
    | _ => none

/-- An arithmetic instruction writes its destination and goes on. -/
theorem stepStraight_alu {base : Word} {prog : List Instr} {pc : Nat} {regs : RegFile}
    {op : AluOp} {rd ra : Reg} {src : Src} (h : prog[pc]? = some (.alu op rd ra src)) :
    stepStraight base prog { pc, regs } =
      some { pc := pc + 1, regs := regs.set rd (op.eval (regs.get ra) (src.value op regs)) } := by
  simp [stepStraight, fetch, h, Instr.effect, Cpu.next]

end XrLinux.Machine
