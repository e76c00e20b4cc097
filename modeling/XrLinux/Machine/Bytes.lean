import Mathlib.Tactic.IntervalCases
import XrLinux.Lib.ByteMemory
import XrLinux.Lib.Iterate
import XrLinux.Machine.Memory

/-!
# XR/17032 — routines that load and store bytes

Hand-written assembly that goes over memory in bytes, halves and words: the memory is by bytes, and
an instruction that accesses it traps if the access is not aligned or not allowed. Where it has an
entry in the exception table it goes on at the fixup then, elsewhere nowhere. What a routine is
allowed to access is a parameter, so that a run to its end also says which accesses there were.
-/

namespace XrLinux.Machine

/-- `byte`, `int` and `long` of `mov`. -/
inductive Size where
  | byte | int | long
  deriving DecidableEq, Repr

def Size.bytes : Size → Nat
  | .byte => 1
  | .int => 2
  | .long => 4

def Size.read (m : ByteMemory) (addr : Nat) : Size → Nat
  | .byte => (m addr).toNat
  | .int => m.read16 addr
  | .long => m.read32 addr

def Size.write (m : ByteMemory) (addr value : Nat) : Size → ByteMemory
  | .byte => m.write8 addr (BitVec.ofNat 8 value)
  | .int => m.write16 addr value
  | .long => m.write32 addr value

structure Access where
  isStore : Bool
  addr : Nat
  size : Size
  deriving DecidableEq, Repr

def Access.isAligned (access : Access) : Bool := access.addr % access.size.bytes == 0

structure ByteState where
  regs : RegFile
  mem : ByteMemory

/-- An instruction after which comes the next one. -/
inductive ByteOp where
  | alu (op : AluOp) (rd ra : Reg) (src : Src)
  /-- `mov rd, size [ra + offset]` -/
  | load (size : Size) (rd ra : Reg) (offset : Word)
  /-- `mov size [ra + offset], rb` -/
  | store (size : Size) (ra : Reg) (offset : Word) (rb : Reg)
  /-- `adr rd, …`, with what the linker makes of it. -/
  | adr (rd : Reg) (value : Word)
  deriving DecidableEq

def ByteOp.access (regs : RegFile) : ByteOp → Option Access
  | .load size _ ra offset => some ⟨false, (regs.get ra + offset).toNat, size⟩
  | .store size ra offset _ => some ⟨true, (regs.get ra + offset).toNat, size⟩
  | _ => none

namespace ByteState

def setReg (c : ByteState) (r : Reg) (value : Word) : ByteState :=
  { c with regs := c.regs.set r value }

/-- An instruction that does not trap. -/
def exec (c : ByteState) : ByteOp → ByteState
  | .alu op rd ra src => c.setReg rd (op.eval (c.regs.get ra) (src.value op c.regs))
  | .load size rd ra offset =>
    c.setReg rd (BitVec.ofNat 32 (size.read c.mem (c.regs.get ra + offset).toNat))
  | .store size ra offset rb =>
    { c with mem := size.write c.mem (c.regs.get ra + offset).toNat (c.regs.get rb).toNat }
  | .adr rd value => c.setReg rd value

def execAll (c : ByteState) (code : List ByteOp) : ByteState := code.foldl exec c

@[simp] theorem execAll_nil (c : ByteState) : c.execAll [] = c := rfl

@[simp] theorem execAll_cons (c : ByteState) (op : ByteOp) (code : List ByteOp) :
    c.execAll (op :: code) = (c.exec op).execAll code := rfl

theorem execAll_append (c : ByteState) (code code' : List ByteOp) :
    c.execAll (code ++ code') = (c.execAll code).execAll code' := List.foldl_append

end ByteState

/-- A line of a routine. Labels are by the index of the line they stand before. -/
inductive ByteLine where
  | op (op : ByteOp)
  /-- An instruction with an entry in the exception table. -/
  | fixup (op : ByteOp) (label : Nat)
  | branch (cond : Cond) (ra : Reg) (label : Nat)
  /-- `bpo ra, label` -/
  | branchOdd (ra : Reg) (label : Nat)
  /-- `jalr zero, ra, 0` into the routine. -/
  | goto (ra : Reg)
  /-- `jalr zero, ra, 0` to the caller. -/
  | jump (ra : Reg)
  deriving DecidableEq

/-- A routine at `base`, with what it may access. -/
structure ByteRoutine where
  code : List ByteLine
  base : Word
  allowed : Access → Bool

/-- A routine at line `pc`, or left for an address. -/
structure ByteCpu where
  pc : Nat
  state : ByteState
  left : Option Word

namespace ByteRoutine

/-- An instruction does not trap. -/
def Goes (routine : ByteRoutine) (c : ByteState) (op : ByteOp) : Prop :=
  ∀ access ∈ op.access c.regs, access.isAligned = true ∧ routine.allowed access = true

instance (routine : ByteRoutine) (c : ByteState) (op : ByteOp) : Decidable (routine.Goes c op) :=
  inferInstanceAs (Decidable (∀ access ∈ op.access c.regs, _))

/-- One line. -/
def step (routine : ByteRoutine) (cpu : ByteCpu) : Option ByteCpu :=
  match cpu.left with
  | some _ => none
  | none =>
    match routine.code[cpu.pc]? with
    | none => none
    | some (.op op) =>
      if routine.Goes cpu.state op then some ⟨cpu.pc + 1, cpu.state.exec op, none⟩ else none
    | some (.fixup op label) =>
      if routine.Goes cpu.state op then some ⟨cpu.pc + 1, cpu.state.exec op, none⟩
      else some ⟨label, cpu.state, none⟩
    | some (.branch cond ra label) =>
      if cond.test (cpu.state.regs.get ra) then some ⟨label, cpu.state, none⟩
      else some ⟨cpu.pc + 1, cpu.state, none⟩
    | some (.branchOdd ra label) =>
      if (cpu.state.regs.get ra).toNat % 2 = 1 then some ⟨label, cpu.state, none⟩
      else some ⟨cpu.pc + 1, cpu.state, none⟩
    | some (.goto ra) =>
      let offset := (cpu.state.regs.get ra - routine.base).toNat
      if offset % 4 = 0 then some ⟨offset / 4, cpu.state, none⟩ else none
    | some (.jump ra) => some ⟨cpu.pc, cpu.state, some (cpu.state.regs.get ra)⟩

/-- From line `pc` the routine comes to a state with `Q`, and there to a line or to where it leaves
for. -/
def Comes (routine : ByteRoutine) (pc : Nat) (c : ByteState) (Q : ByteCpu → Prop) : Prop :=
  Iterate.Reaches routine.step ⟨pc, c, none⟩ Q

/-- From its first line the routine returns, with `Q`. -/
def Returns (routine : ByteRoutine) (c : ByteState) (Q : ByteState → Prop) : Prop :=
  routine.Comes 0 c fun cpu => cpu.left = some (c.regs.get lr) ∧ Q cpu.state

variable {routine : ByteRoutine} {pc : Nat} {c : ByteState} {Q : ByteCpu → Prop}
  {instr : ByteOp} {ra : Reg} {label : Nat}

/-! ## One line -/

theorem Comes.op (hline : routine.code[pc]? = some (.op instr)) (hgoes : routine.Goes c instr)
    (rest : routine.Comes (pc + 1) (c.exec instr) Q) : routine.Comes pc c Q :=
  .head (by simp [step, hline, hgoes]) rest

theorem Comes.fixup_goes (hline : routine.code[pc]? = some (.fixup instr label))
    (hgoes : routine.Goes c instr) (rest : routine.Comes (pc + 1) (c.exec instr) Q) :
    routine.Comes pc c Q :=
  .head (by simp [step, hline, hgoes]) rest

theorem Comes.fixup_traps (hline : routine.code[pc]? = some (.fixup instr label))
    (hgoes : ¬ routine.Goes c instr) (rest : routine.Comes label c Q) : routine.Comes pc c Q :=
  .head (by simp [step, hline, hgoes]) rest

theorem Comes.taken {cond : Cond} (hline : routine.code[pc]? = some (.branch cond ra label))
    (htest : cond.test (c.regs.get ra) = true) (rest : routine.Comes label c Q) :
    routine.Comes pc c Q :=
  .head (by simp [step, hline, htest]) rest

theorem Comes.not_taken {cond : Cond} (hline : routine.code[pc]? = some (.branch cond ra label))
    (htest : cond.test (c.regs.get ra) = false) (rest : routine.Comes (pc + 1) c Q) :
    routine.Comes pc c Q :=
  .head (by simp [step, hline, htest]) rest

theorem Comes.odd (hline : routine.code[pc]? = some (.branchOdd ra label))
    (hodd : (c.regs.get ra).toNat % 2 = 1) (rest : routine.Comes label c Q) :
    routine.Comes pc c Q :=
  .head (by simp [step, hline, hodd]) rest

theorem Comes.even (hline : routine.code[pc]? = some (.branchOdd ra label))
    (heven : (c.regs.get ra).toNat % 2 = 0) (rest : routine.Comes (pc + 1) c Q) :
    routine.Comes pc c Q :=
  .head (by simp [step, hline, heven]) rest

theorem Comes.goto (hline : routine.code[pc]? = some (.goto ra))
    (htarget : c.regs.get ra = routine.base + BitVec.ofNat 32 (4 * label))
    (hlabel : label < 2 ^ 30) (rest : routine.Comes label c Q) : routine.Comes pc c Q := by
  have hoffset : (c.regs.get ra - routine.base).toNat = 4 * label := by
    rw [htarget, BitVec.add_comm, BitVec.add_sub_cancel, BitVec.toNat_ofNat]
    omega
  have hmod : 4 * label % 4 = 0 := by omega
  have hdiv : 4 * label / 4 = label := by omega
  exact .head (by simp only [step, hline, hoffset, hmod, hdiv, if_true]) rest

theorem Comes.jump (hline : routine.code[pc]? = some (.jump ra))
    (h : Q ⟨pc, c, some (c.regs.get ra)⟩) : routine.Comes pc c Q :=
  .head (by simp only [step, hline]) (.here h)

/-! ## Accesses -/

theorem goes_alu {aluOp : AluOp} {rd : Reg} {src : Src} : routine.Goes c (.alu aluOp rd ra src) :=
  fun _ haccess => by cases haccess

theorem goes_adr {rd : Reg} {value : Word} : routine.Goes c (.adr rd value) :=
  fun _ haccess => by cases haccess

theorem goes_load_iff {size : Size} {rd : Reg} {offset : Word} {addr : Nat}
    (haddr : (c.regs.get ra + offset).toNat = addr) :
    routine.Goes c (.load size rd ra offset) ↔
      addr % size.bytes = 0 ∧ routine.allowed ⟨false, addr, size⟩ = true := by
  simp [Goes, ByteOp.access, Access.isAligned, haddr]

theorem goes_store_iff {size : Size} {rb : Reg} {offset : Word} {addr : Nat}
    (haddr : (c.regs.get ra + offset).toNat = addr) :
    routine.Goes c (.store size ra offset rb) ↔
      addr % size.bytes = 0 ∧ routine.allowed ⟨true, addr, size⟩ = true := by
  simp [Goes, ByteOp.access, Access.isAligned, haddr]

/-- Instructions in a row none of which traps. -/
def GoesAll (routine : ByteRoutine) : ByteState → List ByteOp → Prop
  | _, [] => True
  | c, instr :: code => routine.Goes c instr ∧ routine.GoesAll (c.exec instr) code

theorem goesAll_append {code code' : List ByteOp} :
    routine.GoesAll c (code ++ code') ↔
      routine.GoesAll c code ∧ routine.GoesAll (c.execAll code) code' := by
  induction code generalizing c with
  | nil => exact ⟨fun h => ⟨trivial, h⟩, fun h => h.2⟩
  | cons instr code ih =>
    show _ ∧ routine.GoesAll _ (code ++ code') ↔ (_ ∧ routine.GoesAll _ code) ∧ _
    rw [ih, and_assoc]
    exact Iff.rfl

/-- Instructions in a row, somewhere in a routine. -/
theorem Comes.ops (ops : List ByteOp) {tail : List ByteLine}
    (hcode : routine.code.drop pc = ops.map .op ++ tail) (hgoes : routine.GoesAll c ops)
    (rest : routine.Comes (pc + ops.length) (c.execAll ops) Q) : routine.Comes pc c Q := by
  induction ops generalizing pc c with
  | nil => exact rest
  | cons instr ops ih =>
    have hline : routine.code[pc]? = some (.op instr) := by
      rw [← List.head?_drop, hcode]
      rfl
    have hdrop : routine.code.drop (pc + 1) = ops.map .op ++ tail := by
      rw [← List.tail_drop, hcode]
      rfl
    rw [List.length_cons, Nat.add_comm ops.length, ← Nat.add_assoc] at rest
    exact .op hline hgoes.1 (ih hdrop hgoes.2 rest)

/-- Nothing comes after a return. -/
theorem step_of_left {cpu : ByteCpu} {target : Word} (h : cpu.left = some target) :
    routine.step cpu = none := by
  simp [step, h]

theorem Returns.mono {P Q : ByteState → Prop} (h : routine.Returns c P) (hPQ : ∀ s, P s → Q s) :
    routine.Returns c Q :=
  Iterate.Reaches.mono h fun _ hcpu => ⟨hcpu.1, hPQ _ hcpu.2⟩

/-- A routine returns in one state only. -/
theorem Returns.exists_and {P Q : ByteState → Prop} (h : routine.Returns c P)
    (h' : routine.Returns c Q) : ∃ s, P s ∧ Q s := by
  obtain ⟨cpu, hsteps, hleft, hP⟩ := h
  have hhalts : Iterate.Halts routine.step ⟨0, c, none⟩ cpu := ⟨hsteps, step_of_left hleft⟩
  have hcomes : Iterate.Reaches routine.step ⟨0, c, none⟩
      fun cpu => routine.step cpu = none ∧ Q cpu.state :=
    Iterate.Reaches.mono h' fun _ hcpu => ⟨step_of_left hcpu.1, hcpu.2⟩
  have hQ := @Iterate.Reaches.of_halts _ routine.step _ cpu (fun cpu => Q cpu.state) hhalts hcomes
  exact ⟨cpu.state, hP, hQ⟩

end ByteRoutine

/-! ## Registers -/

/-- The register an instruction writes. -/
def ByteOp.rd : ByteOp → Option Reg
  | .alu _ rd _ _ | .load _ rd _ _ | .adr rd _ => some rd
  | .store _ _ _ _ => none

theorem ByteState.exec_get (c : ByteState) {op : ByteOp} {r : Reg} (h : op.rd ≠ some r) :
    (c.exec op).regs.get r = c.regs.get r := by
  cases op with
  | alu _ rd _ _ | load _ rd _ _ | adr rd _ =>
    exact RegFile.get_set_of_ne fun heq => h (congrArg some heq.symm)
  | store _ _ _ _ => rfl

theorem ByteState.execAll_get (c : ByteState) {code : List ByteOp} {r : Reg}
    (h : ∀ op ∈ code, op.rd ≠ some r) : (c.execAll code).regs.get r = c.regs.get r := by
  induction code generalizing c with
  | nil => rfl
  | cons op code ih =>
    rw [ByteState.execAll_cons, ih _ fun op' hop' => h op' (List.mem_cons_of_mem _ hop')]
    exact c.exec_get (h op List.mem_cons_self)

theorem ByteState.setReg_get_self (c : ByteState) {r : Reg} (value : Word) (hr : r ≠ zero) :
    (c.setReg r value).regs.get r = value := RegFile.get_set_self hr

/-! ## Comparisons and rounding -/

theorem slt_eq_zero_iff (a b : Word) : AluOp.slt.eval a b = 0 ↔ b.toNat ≤ a.toNat := by
  rw [← Nat.not_lt, ← BitVec.lt_def, ← BitVec.ult_iff_lt]
  show (if a.ult b then 1 else 0 : Word) = 0 ↔ ¬ a.ult b = true
  cases a.ult b with
  | true => decide
  | false => decide

theorem test_ne_slt (a b : Word) :
    Cond.ne.test (AluOp.slt.eval a b) = decide (a.toNat < b.toNat) := by
  rw [Bool.eq_iff_iff, Cond.test_ne_iff, Ne, slt_eq_zero_iff, Nat.not_le, decide_eq_true_iff]

theorem test_eq_slt (a b : Word) :
    Cond.eq.test (AluOp.slt.eval a b) = decide (b.toNat ≤ a.toNat) := by
  rw [Bool.eq_iff_iff, Cond.test_eq_iff, slt_eq_zero_iff, decide_eq_true_iff]

theorem toNat_and_mask (w : Word) {bits : Nat} {mask : Word} (hmask : mask.toNat = 2 ^ bits - 1) :
    (w &&& mask).toNat = w.toNat % 2 ^ bits := by
  rw [BitVec.toNat_and, hmask, Nat.and_two_pow_sub_one_eq_mod]

/-- Rounding down. -/
theorem toNat_and_high (w : Word) {low high : Nat} {mask : Word} (hsum : low + high = 32)
    (hmask : mask.toNat = (2 ^ high - 1) * 2 ^ low) :
    (w &&& mask).toNat = w.toNat / 2 ^ low * 2 ^ low := by
  rw [BitVec.toNat_and, hmask]
  apply Nat.eq_of_testBit_eq
  intro i
  rw [Nat.testBit_and, Nat.testBit_mul_two_pow, Nat.testBit_two_pow_sub_one,
    Nat.testBit_mul_two_pow, Nat.testBit_div_two_pow]
  by_cases hlow : low ≤ i
  · rw [Nat.sub_add_cancel hlow]
    by_cases hhigh : i < 32
    · simp [hlow, show i - low < high by omega]
    · have hbit : w.toNat.testBit i = false :=
        Nat.testBit_lt_two_pow
          (Nat.lt_of_lt_of_le w.isLt (Nat.pow_le_pow_right (by decide) (by omega)))
      simp [hbit]
  · simp [hlow]

theorem toNat_and_neg_four (w : Word) : (w &&& (0 - 4)).toNat = w.toNat / 4 * 4 :=
  @toNat_and_high w 2 30 _ rfl (by decide)

/-! ## Memory -/

namespace Size

theorem bytes_pos (size : Size) : 0 < size.bytes := by
  cases size <;> decide

/-- What a store leaves, byte by byte. -/
theorem write_eq_put (m : ByteMemory) (addr value : Nat) (size : Size) :
    size.write m addr value =
      m.put addr size.bytes fun i => BitVec.ofNat 8 (value / 256 ^ i) := by
  funext x
  by_cases hx : addr ≤ x ∧ x < addr + size.bytes
  · obtain ⟨i, rfl⟩ := Nat.exists_eq_add_of_le hx.1
    have hi : i < size.bytes := by omega
    rw [ByteMemory.put_byte m _ hi]
    cases size with
    | byte =>
      obtain rfl : i = 0 := by
        have : i < 1 := hi
        omega
      simp [write, ByteMemory.write8]
    | int =>
      have hi : i < 2 := hi
      interval_cases i <;> simp [write, ByteMemory.write16, ByteMemory.write8]
    | long =>
      have hi : i < 4 := hi
      interval_cases i <;> simp [write, ByteMemory.write32, ByteMemory.write8]
  · have hout : x < addr ∨ addr + size.bytes ≤ x := by omega
    rw [ByteMemory.put_of_not_mem m _ hout]
    cases size with
    | byte => exact ByteMemory.write8_of_ne m _ (by simp only [bytes] at hout; omega)
    | int =>
      simp only [bytes] at hout
      rw [write, ByteMemory.write16, ByteMemory.write8_of_ne _ _ (by omega),
        ByteMemory.write8_of_ne _ _ (by omega)]
    | long => exact ByteMemory.write32_of_not_mem m _ hout

/-- The bytes of what is loaded. -/
theorem read_byte (m : ByteMemory) (addr : Nat) {size : Size} {i : Nat} (hi : i < size.bytes) :
    BitVec.ofNat 8 (size.read m addr / 256 ^ i) = m (addr + i) := by
  have hbyte : ∀ k, (m (addr + k)).toNat < 256 := fun k => (m (addr + k)).isLt
  have h0 := hbyte 0
  have h1 := hbyte 1
  have h2 := hbyte 2
  have h3 := hbyte 3
  rw [Nat.add_zero] at h0
  apply BitVec.eq_of_toNat_eq
  rw [BitVec.toNat_ofNat]
  cases size with
  | byte =>
    obtain rfl : i = 0 := by
      have : i < 1 := hi
      omega
    simp only [read, Nat.pow_zero, Nat.div_one, Nat.add_zero]
    omega
  | int =>
    have hi : i < 2 := hi
    interval_cases i <;> simp only [read, ByteMemory.read16, Nat.add_zero] <;> omega
  | long =>
    have hi : i < 4 := hi
    interval_cases i <;> simp only [read, ByteMemory.read32, Nat.add_zero] <;> omega

theorem read_lt (m : ByteMemory) (addr : Nat) (size : Size) : size.read m addr < 2 ^ 32 := by
  cases size with
  | byte => exact Nat.lt_of_lt_of_le (m addr).isLt (by decide)
  | int =>
    have h := m.read16_eq addr
    rw [read, h]
    omega
  | long => exact m.read32_lt addr

/-- What is loaded somewhere, stored somewhere. -/
theorem write_read (m m' : ByteMemory) (addr addr' : Nat) (size : Size) :
    size.write m addr (BitVec.ofNat 32 (size.read m' addr')).toNat =
      m.put addr size.bytes fun i => m' (addr' + i) := by
  rw [BitVec.toNat_ofNat, Nat.mod_eq_of_lt (read_lt m' addr' size), write_eq_put]
  exact ByteMemory.put_congr m fun i hi => read_byte m' addr' hi

theorem read_congr {m m' : ByteMemory} {addr : Nat} {size : Size}
    (h : ByteMemory.SameOn m m' addr size.bytes) : size.read m' addr = size.read m addr := by
  cases size with
  | byte => exact congrArg BitVec.toNat (h.byte (by decide))
  | int =>
    simp only [read, ByteMemory.read16]
    rw [h addr (by omega) (by simp [bytes]), h (addr + 1) (by omega) (by simp [bytes])]
  | long => exact ByteMemory.SameOn.read32 h

end Size

end XrLinux.Machine
