import XrLinux.Machine.Memory
import XrLinux.Linux.Switch

/-!
# Linux — entry to a trap and return from it

`trap_entry` of `kernel/head.S`, instruction by instruction, and `return_from_trap` and `__switch_to`
on the same memory: `struct pt_regs` is words on the kernel's stacks here, so that what is saved for
one trap can be written over by the next one.
-/

namespace XrLinux.Linux

open Machine

/-- `RS_U`. -/
def rsU : Word := 0x1

/-- `RS_U`, `RS_I`, `RS_M` and `RS_T`: the mode that the processor is in. -/
def rsModes : Word := 0xf

/-! ## The machine -/

/-- `PT_…`. -/
def PtField.offset : PtField → Word
  | .pc => 0
  | .gpr r => BitVec.ofNat 32 (4 * r)
  | .rs => 128

/-- The control registers that traps have to do with. -/
inductive TrapReg where
  | rs
  | epc
  | scratch0
  | scratch1
  | scratch2
  deriving DecidableEq

/-- A processor and the memory, with `thread` of the tasks apart from it. -/
structure TrapCpu extends State where
  pc : Word
  rs : Word
  epc : Word
  scratch0 : Word
  scratch1 : Word
  scratch2 : Word
  thread : Word → ThreadStruct

inductive TrapOp where
  | op (op : Op)
  | mfcr (rd : Reg) (cr : TrapReg)
  | mtcr (cr : TrapReg) (ra : Reg)
  deriving DecidableEq

/-- `struct pt_regs` in memory. -/
def ptRegsAt (mem : Word → Word) (addr : Word) : PtRegs where
  pc := mem (addr + PtField.pc.offset)
  gpr r := mem (addr + (PtField.gpr r).offset)
  rs := mem (addr + PtField.rs.offset)
  origA3 := mem (addr + 132)

namespace TrapCpu

def control (c : TrapCpu) : TrapReg → Word
  | .rs => c.rs
  | .epc => c.epc
  | .scratch0 => c.scratch0
  | .scratch1 => c.scratch1
  | .scratch2 => c.scratch2

def setControl (c : TrapCpu) (cr : TrapReg) (value : Word) : TrapCpu :=
  match cr with
  | .rs => { c with rs := value }
  | .epc => { c with epc := value }
  | .scratch0 => { c with scratch0 := value }
  | .scratch1 => { c with scratch1 := value }
  | .scratch2 => { c with scratch2 := value }

def setReg (c : TrapCpu) (r : Reg) (value : Word) : TrapCpu :=
  { c with toState := c.toState.setReg r value }

def exec (c : TrapCpu) : TrapOp → TrapCpu
  | .op instr => { c with toState := c.toState.exec instr }
  | .mfcr rd cr => c.setReg rd (c.control cr)
  | .mtcr cr ra => c.setControl cr (c.regs.get ra)

def execAll (c : TrapCpu) (code : List TrapOp) : TrapCpu := code.foldl exec c

theorem execAll_append (c : TrapCpu) (code code' : List TrapOp) :
    c.execAll (code ++ code') = (c.execAll code).execAll code' := List.foldl_append

/-- Instructions that leave the control registers alone. -/
theorem execAll_ops (c : TrapCpu) (ops : List Op) :
    c.execAll (ops.map .op) = { c with toState := c.toState.execAll ops } := by
  induction ops generalizing c with
  | nil => rfl
  | cons instr ops ih => exact ih (c.exec (.op instr))

/-- The same processor as `return_from_trap` and `__switch_to` see it. -/
def kernel (c : TrapCpu) : Kernel where
  regs := c.regs
  scratch1 := c.scratch1
  scratch2 := c.scratch2
  rs := c.rs
  epc := c.epc
  thread := c.thread
  pt := ptRegsAt c.mem

/-- Neither of them writes to the stacks. -/
def withKernel (c : TrapCpu) (k : Kernel) : TrapCpu :=
  { c with
    regs := k.regs
    scratch1 := k.scratch1
    scratch2 := k.scratch2
    rs := k.rs
    epc := k.epc
    thread := k.thread }

def returnFromTrap (c : TrapCpu) : TrapCpu := c.withKernel (Linux.returnFromTrap c.kernel)

def switchTo (c : TrapCpu) : TrapCpu := c.withKernel (Linux.switchTo c.kernel)

end TrapCpu

/-! ## `trap_entry` -/

/-- `t3` to `s17` and `tp`, in the order in which they are saved. -/
def savedInOrder : List Reg :=
  [4, 5, 6, 7, 8, 9, 10, 11, 12, 13, 14, 15, 16, 17, 18, 19, 20, 21, 22, 23, 24, 25, 26, 27, 28, 29]

/-- Up to the branch. -/
def trapEntryStart : List TrapOp := [.mtcr .scratch0 sp, .mfcr sp .scratch1]

/-- What is skipped if there is a stack in `scratch1`. -/
def trapEntryKernel : List TrapOp := [.mfcr sp .scratch0]

/-- `mov long [sp + PT_…], r` -/
def storePt (field : PtField) (r : Reg) : Op := .store sp field.offset r

/-- What is saved before the registers that are needed for the rest. -/
def trapEntryFirst : List TrapOp :=
  [.mtcr .scratch1 zero, .op (.alu .sub sp sp (.imm 136)),
    .op (storePt (.gpr t0) t0), .mfcr t0 .scratch0,
    .op (storePt (.gpr t1) t1), .mfcr t1 .epc,
    .op (storePt (.gpr t2) t2), .mfcr t2 .rs]

def trapEntryStores : List (PtField × Reg) :=
  savedInOrder.map (fun r => (.gpr r, r)) ++ [(.gpr sp, t0), (.gpr lr, lr), (.pc, t1), (.rs, t2)]

/-- The environment of the C function, and its argument. -/
def trapEntryEnd : List TrapOp :=
  [.op (.alu .add (sReg 0) zero (.imm 0)), .mfcr tp .scratch2, .op (.alu .add a0 sp (.plain zero))]

/-- `trap_entry` up to the call. -/
def trapEntry (c : TrapCpu) : TrapCpu :=
  let c := c.execAll trapEntryStart
  let c := if c.regs.get sp ≠ 0 then c else c.execAll trapEntryKernel
  c.execAll (trapEntryFirst ++ (trapEntryStores.map fun x => .op (storePt x.1 x.2)) ++ trapEntryEnd)

/-! ## What is saved -/

/-- What a program is interrupted with. -/
structure Context where
  gpr : Reg → Word
  pc : Word
  rs : Word

/-- It is in `struct pt_regs` at the address. -/
structure HoldsContext (mem : Word → Word) (addr : Word) (context : Context) : Prop where
  gpr : ∀ r, r ≠ zero → mem (addr + (PtField.gpr r).offset) = context.gpr r
  pc : mem (addr + PtField.pc.offset) = context.pc
  rs : mem (addr + PtField.rs.offset) = context.rs

/-- The words of `struct pt_regs`. -/
def InFrame (addr x : Word) : Prop := (x - addr).toNat < 136

instance (addr x : Word) : Decidable (InFrame addr x) := inferInstanceAs (Decidable (_ < _))

theorem PtField.offset_lt (field : PtField) : field.offset.toNat < 136 := by
  cases field with
  | pc => decide
  | gpr r =>
    have hr := r.isLt
    rw [PtField.offset, BitVec.toNat_ofNat]
    omega
  | rs => decide

theorem inFrame_offset (addr : Word) (field : PtField) : InFrame addr (addr + field.offset) := by
  rw [InFrame, BitVec.add_comm, BitVec.add_sub_cancel]
  exact field.offset_lt

/-- The context is where nothing else is written. -/
theorem HoldsContext.congr {mem mem' : Word → Word} {addr : Word} {context : Context}
    (h : HoldsContext mem addr context) (hsame : ∀ x, InFrame addr x → mem' x = mem x) :
    HoldsContext mem' addr context where
  gpr r hr := (hsame _ (inFrame_offset addr _)).trans (h.gpr r hr)
  pc := (hsame _ (inFrame_offset addr _)).trans h.pc
  rs := (hsame _ (inFrame_offset addr _)).trans h.rs

/-- Where `trap_entry` begins its frame from. -/
def TrapCpu.stackTop (c : TrapCpu) : Word := if c.scratch1 ≠ 0 then c.scratch1 else c.regs.get sp

/-- What `trap_entry` leaves. -/
structure Entered (c c' : TrapCpu) : Prop where
  sp_eq : c'.regs.get sp = c.stackTop - 136
  a0_eq : c'.regs.get a0 = c.stackTop - 136
  s0_eq : c'.regs.get (sReg 0) = 0
  tp_eq : c'.regs.get tp = c.scratch2
  scratch1_eq : c'.scratch1 = 0
  scratch2_eq : c'.scratch2 = c.scratch2
  rs_eq : c'.rs = c.rs
  thread_eq : c'.thread = c.thread
  holds : HoldsContext c'.mem (c.stackTop - 136) ⟨c.regs.get, c.epc, c.rs⟩
  other : ∀ x, ¬ InFrame (c.stackTop - 136) x → c'.mem x = c.mem x

theorem trapEntryStores_offsets : (trapEntryStores.map fun x => x.1.offset).Nodup := by decide

theorem trapEntryFirst_eq (c : TrapCpu) :
    let frame := c.regs.get sp - 136
    ∃ c₁ : TrapCpu, c.execAll trapEntryFirst = c₁ ∧ c₁.regs.get t0 = c.scratch0 ∧
      c₁.regs.get t1 = c.epc ∧ c₁.regs.get t2 = c.rs ∧ c₁.regs.get sp = frame ∧
      (∀ r, r ≠ t0 → r ≠ t1 → r ≠ t2 → r ≠ sp → c₁.regs.get r = c.regs.get r) ∧
      c₁.mem = Function.update (Function.update (Function.update c.mem
        (frame + (PtField.gpr t0).offset) (c.regs.get t0))
        (frame + (PtField.gpr t1).offset) (c.regs.get t1))
        (frame + (PtField.gpr t2).offset) (c.regs.get t2) ∧
      c₁.scratch1 = 0 ∧ c₁.scratch2 = c.scratch2 ∧ c₁.rs = c.rs ∧ c₁.thread = c.thread := by
  intro frame
  -- the registers as they become
  let regs₁ := c.regs.set sp frame
  let regs₂ := regs₁.set t0 c.scratch0
  let regs₃ := regs₂.set t1 c.epc
  let regs₄ := regs₃.set t2 c.rs
  have hsp₁ : regs₁.get sp = frame := RegFile.get_set_self (by decide)
  have hsp₂ : regs₂.get sp = frame := (RegFile.get_set_of_ne (by decide)).trans hsp₁
  have hsp₃ : regs₃.get sp = frame := (RegFile.get_set_of_ne (by decide)).trans hsp₂
  have ht0 : regs₁.get t0 = c.regs.get t0 := RegFile.get_set_of_ne (by decide)
  have ht1 : regs₂.get t1 = c.regs.get t1 :=
    (RegFile.get_set_of_ne (by decide)).trans (RegFile.get_set_of_ne (by decide))
  have ht2 : regs₃.get t2 = c.regs.get t2 :=
    (RegFile.get_set_of_ne (by decide)).trans ((RegFile.get_set_of_ne (by decide)).trans
      (RegFile.get_set_of_ne (by decide)))
  have hexec : c.execAll trapEntryFirst =
      { c with
        regs := regs₄
        mem := Function.update (Function.update (Function.update c.mem
          (regs₁.get sp + (PtField.gpr t0).offset) (regs₁.get t0))
          (regs₂.get sp + (PtField.gpr t1).offset) (regs₂.get t1))
          (regs₃.get sp + (PtField.gpr t2).offset) (regs₃.get t2)
        scratch1 := c.regs.get zero } := rfl
  refine ⟨_, hexec, ?_, ?_, @RegFile.get_set_self regs₃ t2 c.rs (by decide), ?_, ?_, ?_,
    c.regs.get_zero, rfl, rfl, rfl⟩
  · exact (RegFile.get_set_of_ne (by decide)).trans <| (RegFile.get_set_of_ne (by decide)).trans <|
      RegFile.get_set_self (by decide)
  · exact (RegFile.get_set_of_ne (by decide)).trans (RegFile.get_set_self (by decide))
  · exact (RegFile.get_set_of_ne (by decide)).trans hsp₃
  · intro r h0 h1 h2 hsp
    exact (RegFile.get_set_of_ne h2).trans <| (RegFile.get_set_of_ne h1).trans <|
      (RegFile.get_set_of_ne h0).trans (RegFile.get_set_of_ne hsp)
  · rw [← hsp₁, ← ht0, ← ht1, ← ht2]
    show Function.update (Function.update (Function.update c.mem
        (regs₁.get sp + (PtField.gpr t0).offset) (regs₁.get t0))
        (regs₂.get sp + (PtField.gpr t1).offset) (regs₂.get t1))
        (regs₃.get sp + (PtField.gpr t2).offset) (regs₃.get t2) = _
    rw [hsp₂, hsp₃, hsp₁]

theorem trapEntry_entered (c : TrapCpu) : Entered c (trapEntry c) := by
  -- the stack is chosen
  obtain ⟨c₀, hc₀, hsp₀, hscratch₀, hregs₀, hkept₀⟩ : ∃ c₀ : TrapCpu,
      trapEntry c = c₀.execAll
        (trapEntryFirst ++ (trapEntryStores.map fun x => .op (storePt x.1 x.2)) ++ trapEntryEnd) ∧
      c₀.regs.get sp = c.stackTop ∧ c₀.scratch0 = c.regs.get sp ∧
      (∀ r, r ≠ sp → c₀.regs.get r = c.regs.get r) ∧
      c₀.mem = c.mem ∧ c₀.epc = c.epc ∧ c₀.rs = c.rs ∧ c₀.scratch2 = c.scratch2 ∧
      c₀.thread = c.thread := by
    have hstart : (c.execAll trapEntryStart).regs.get sp = c.scratch1 := RegFile.get_set_self (by decide)
    by_cases hzero : c.scratch1 = 0
    · refine ⟨(c.execAll trapEntryStart).execAll trapEntryKernel, ?_, ?_, rfl, fun r hr => ?_, rfl, rfl,
        rfl, rfl, rfl⟩
      · unfold trapEntry
        dsimp only
        rw [hstart, if_neg (not_not.mpr hzero)]
      · rw [TrapCpu.stackTop, if_neg (not_not.mpr hzero)]
        exact RegFile.get_set_self (by decide)
      · exact (RegFile.get_set_of_ne hr).trans (RegFile.get_set_of_ne hr)
    · refine ⟨c.execAll trapEntryStart, ?_, ?_, rfl, fun r hr => RegFile.get_set_of_ne hr, rfl, rfl, rfl,
        rfl, rfl⟩
      · unfold trapEntry
        dsimp only
        rw [hstart, if_pos hzero]
      · rw [TrapCpu.stackTop, if_pos hzero]
        exact hstart
  obtain ⟨hmem₀, hepc₀, hrs₀, hscratch2₀, hthread₀⟩ := hkept₀
  obtain ⟨frame, hframe⟩ : ∃ frame, c.stackTop - 136 = frame := ⟨_, rfl⟩
  obtain ⟨c₁, hc₁, h₁t0, h₁t1, h₁t2, h₁sp, h₁regs, h₁mem, h₁scratch1, h₁scratch2, h₁rs, h₁thread⟩ :=
    trapEntryFirst_eq c₀
  rw [hsp₀, hframe] at h₁sp h₁mem
  -- the stores
  obtain ⟨mem, hstores, hstored, hother⟩ := c₁.toState.execAll_stores sp
    (trapEntryStores.map fun x => (x.1.offset, x.2)) (by rw [List.map_map]; exact trapEntryStores_offsets)
  rw [h₁sp] at hstored hother
  have hcode : c₁.execAll (trapEntryStores.map fun x => .op (storePt x.1 x.2)) = { c₁ with mem } := by
    have hmap : (trapEntryStores.map fun x => TrapOp.op (storePt x.1 x.2)) =
        ((trapEntryStores.map fun x => (x.1.offset, x.2)).map fun x => Op.store sp x.1 x.2).map
          TrapOp.op := by
      rw [List.map_map, List.map_map]
      rfl
    rw [hmap, TrapCpu.execAll_ops, hstores]
  have hall : trapEntry c = ({ c₁ with mem } : TrapCpu).execAll trapEntryEnd := by
    rw [hc₀, TrapCpu.execAll_append, TrapCpu.execAll_append, hc₁, hcode]
  have hsaved : ∀ field r, (field, r) ∈ trapEntryStores →
      mem (frame + PtField.offset field) = c₁.regs.get r := fun field r hmem =>
    hstored (field.offset, r) (List.mem_map_of_mem (f := fun x => (PtField.offset x.1, x.2)) hmem)
  have hfirst : ∀ offset, offset ∉ (trapEntryStores.map fun x => x.1.offset) →
      mem (frame + offset) = c₁.mem (frame + offset) := by
    intro offset hnot
    refine hother _ fun x hx heq => hnot ?_
    rw [BitVec.add_right_inj] at heq
    obtain ⟨y, hy, rfl⟩ := List.mem_map.mp hx
    rw [heq]
    exact List.mem_map_of_mem hy
  -- the registers for the C function
  have hend : ∀ r, r ≠ sReg 0 → r ≠ tp → r ≠ a0 →
      (({ c₁ with mem } : TrapCpu).execAll trapEntryEnd).regs.get r = c₁.regs.get r := fun r h0 h1 h2 =>
    (RegFile.get_set_of_ne h2).trans <| (RegFile.get_set_of_ne h1).trans (RegFile.get_set_of_ne h0)
  have hlast : ∀ r, (({ c₁ with mem } : TrapCpu).execAll trapEntryEnd).regs.get r =
      (((c₁.regs.set (sReg 0) (c₁.regs.get zero + 0)).set tp c₁.scratch2).set a0
        (((c₁.regs.set (sReg 0) (c₁.regs.get zero + 0)).set tp c₁.scratch2).get sp +
          (Src.plain zero).value .add
            ((c₁.regs.set (sReg 0) (c₁.regs.get zero + 0)).set tp c₁.scratch2))).get r := fun _ => rfl
  have hspEnd : ((c₁.regs.set (sReg 0) (c₁.regs.get zero + 0)).set tp c₁.scratch2).get sp = frame :=
    (RegFile.get_set_of_ne (by decide)).trans ((RegFile.get_set_of_ne (by decide)).trans h₁sp)
  rw [hall]
  exact {
    sp_eq := by
      rw [hend sp (by decide) (by decide) (by decide), h₁sp, hframe]
    a0_eq := by
      rw [hlast, RegFile.get_set_self (by decide), hspEnd, Src.value_plain, RegFile.get_zero, add_zero,
        hframe]
    s0_eq := by
      rw [hlast]
      refine (RegFile.get_set_of_ne (by decide)).trans <| (RegFile.get_set_of_ne (by decide)).trans <|
        (RegFile.get_set_self (by decide)).trans ?_
      rw [RegFile.get_zero, add_zero]
    tp_eq := by
      rw [hlast]
      refine (RegFile.get_set_of_ne (by decide)).trans <| (RegFile.get_set_self (by decide)).trans ?_
      rw [h₁scratch2, hscratch2₀]
    scratch1_eq := h₁scratch1
    scratch2_eq := h₁scratch2.trans hscratch2₀
    rs_eq := h₁rs.trans hrs₀
    thread_eq := h₁thread.trans hthread₀
    holds := by
      rw [hframe]
      refine ⟨fun r hr => ?_, ?_, ?_⟩
      · show mem (frame + (PtField.gpr r).offset) = c.regs.get r
        by_cases hin : r ∈ savedInOrder ∨ r = lr
        · have hstore : (PtField.gpr r, r) ∈ trapEntryStores := by
            revert r
            decide
          have hne : r ≠ t0 ∧ r ≠ t1 ∧ r ≠ t2 ∧ r ≠ sp := by
            revert r
            decide
          rw [hsaved _ r hstore, h₁regs r hne.1 hne.2.1 hne.2.2.1 hne.2.2.2, hregs₀ r hne.2.2.2]
        · have hrest : r = t0 ∨ r = t1 ∨ r = t2 ∨ r = sp := by
            revert r
            decide
          -- the three that are saved first stay where they are
          rcases hrest with rfl | rfl | rfl | rfl
          · rw [hfirst _ (by decide), h₁mem, Function.update_of_ne (by simp [PtField.offset, t0, t2]), Function.update_of_ne (by simp [PtField.offset, t0, t1]),
              Function.update_self, hregs₀ t0 (by decide)]
          · rw [hfirst _ (by decide), h₁mem, Function.update_of_ne (by simp [PtField.offset, t1, t2]),
              Function.update_self, hregs₀ t1 (by decide)]
          · rw [hfirst _ (by decide), h₁mem, Function.update_self, hregs₀ t2 (by decide)]
          · rw [hsaved (.gpr sp) t0 (by decide), h₁t0, hscratch₀]
      · show mem (frame + PtField.pc.offset) = c.epc
        rw [hsaved .pc t1 (by decide), h₁t1, hepc₀]
      · show mem (frame + PtField.rs.offset) = c.rs
        rw [hsaved .rs t2 (by decide), h₁t2, hrs₀]
    other := by
      intro x hx
      rw [hframe] at hx
      have hne : ∀ field, x ≠ frame + PtField.offset field := by
        rintro field rfl
        exact hx (inFrame_offset frame field)
      show mem x = c.mem x
      rw [hother x fun y hy => ?_, h₁mem, Function.update_of_ne (hne _), Function.update_of_ne (hne _),
        Function.update_of_ne (hne _), hmem₀]
      obtain ⟨z, _, rfl⟩ := List.mem_map.mp hy
      exact hne z.1 }

/-! ## What the other routines leave alone -/

/-- Whether an instruction writes to a task. -/
def Asm.writesThread : Asm → Bool
  | .storeThread _ _ _ => true
  | _ => false

/-- The control register that an instruction writes. -/
def Asm.control : Asm → Option ControlReg
  | .mtcr cr _ => some cr
  | _ => none

namespace Kernel

theorem execAll_keeps {α : Type*} (part : Kernel → α) {code : List Asm}
    (h : ∀ instr ∈ code, ∀ k : Kernel, part (k.exec instr) = part k) (k : Kernel) :
    part (k.execAll code) = part k := by
  induction code generalizing k with
  | nil => rfl
  | cons instr code ih =>
    rw [execAll_cons, ih fun i hi => h i (List.mem_cons_of_mem _ hi)]
    exact h instr List.mem_cons_self k

theorem exec_thread {instr : Asm} (h : instr.writesThread = false) (k : Kernel) :
    (k.exec instr).thread = k.thread := by
  cases instr with
  | storeThread => cases h
  | mtcr cr => cases cr <;> rfl
  | _ => rfl

theorem exec_scratch1 {instr : Asm} (h : instr.control ≠ some .scratch1) (k : Kernel) :
    (k.exec instr).scratch1 = k.scratch1 := by
  cases instr with
  | mtcr cr =>
    cases cr with
    | scratch1 => exact absurd rfl h
    | _ => rfl
  | _ => rfl

theorem exec_rs {instr : Asm} (h : instr.control ≠ some .rs) (k : Kernel) :
    (k.exec instr).rs = k.rs := by
  cases instr with
  | mtcr cr =>
    cases cr with
    | rs => exact absurd rfl h
    | _ => rfl
  | _ => rfl

end Kernel

theorem returnFromTrap_thread (k : Kernel) : (returnFromTrap k).thread = k.thread := by
  have hstart : ∀ k : Kernel, (k.execAll returnFromTrapStart).thread = k.thread :=
    Kernel.execAll_keeps Kernel.thread fun instr hi => Kernel.exec_thread <| by
      revert instr
      decide
  have huser : ∀ k : Kernel, (k.execAll returnFromTrapUser).thread = k.thread :=
    Kernel.execAll_keeps Kernel.thread fun instr hi => Kernel.exec_thread <| by
      revert instr
      decide
  have hend : ∀ k : Kernel, (k.execAll returnFromTrapEnd).thread = k.thread :=
    Kernel.execAll_keeps Kernel.thread fun instr hi => Kernel.exec_thread <| by
      revert instr
      decide
  unfold returnFromTrap
  dsimp only
  rw [hend]
  split
  · exact hstart k
  · rw [huser, hstart]

/-- What `return_from_trap` makes of a context, up to `rfe`. -/
theorem returnFromTrap_context (c : TrapCpu) {context : Context}
    (h : HoldsContext c.mem (c.regs.get sp) context) :
    (∀ r, r ≠ zero → c.returnFromTrap.regs.get r = context.gpr r) ∧
      c.returnFromTrap.epc = context.pc ∧ c.returnFromTrap.rs = context.rs ∧
      (c.returnFromTrap.scratch1 =
        if context.rs &&& rsOldU = 0 then c.scratch1 else c.regs.get sp + ptSizeOnStack) ∧
      c.returnFromTrap.scratch2 = c.scratch2 ∧ c.returnFromTrap.thread = c.thread ∧
      c.returnFromTrap.mem = c.mem := by
  have hreturned : Returned c.kernel (Linux.returnFromTrap c.kernel)
      (ptRegsAt c.mem (c.regs.get sp)) := returnFromTrap_returned c.kernel
  have hrs : (ptRegsAt c.mem (c.regs.get sp)).rs = context.rs := h.rs
  refine ⟨fun r hr => ?_, ?_, ?_, ?_, hreturned.scratch2_eq, returnFromTrap_thread c.kernel, rfl⟩
  · exact (hreturned.gpr_eq r hr).trans (h.gpr r hr)
  · exact hreturned.epc_eq.trans h.pc
  · exact hreturned.rs_eq.trans hrs
  · rw [← hrs]
    exact hreturned.scratch1_eq

theorem switchTo_control (k : Kernel) :
    (switchTo k).scratch1 = k.scratch1 ∧ (switchTo k).rs = k.rs :=
  ⟨Kernel.execAll_keeps Kernel.scratch1 (fun instr hi => Kernel.exec_scratch1 <| by
      revert instr
      decide) k,
    Kernel.execAll_keeps Kernel.rs (fun instr hi => Kernel.exec_rs <| by
      revert instr
      decide) k⟩

theorem switchTo_context (c : TrapCpu) :
    c.switchTo.thread = Function.update c.thread (c.regs.get a0) c.kernel.context ∧
      (∀ i, c.switchTo.regs.get (sReg i) = c.switchTo.thread (c.regs.get a1) (.s i)) ∧
      c.switchTo.regs.get sp = c.switchTo.thread (c.regs.get a1) .sp ∧
      c.switchTo.scratch2 = c.regs.get a1 ∧ c.switchTo.scratch1 = c.scratch1 ∧ c.switchTo.rs = c.rs ∧
      c.switchTo.mem = c.mem := by
  have hswitched := switchTo_switched c.kernel
  obtain ⟨hscratch1, hrs⟩ := switchTo_control c.kernel
  unfold TrapCpu.switchTo
  generalize switchTo c.kernel = k at hswitched hscratch1 hrs ⊢
  exact ⟨hswitched.saved, fun i => congrFun hswitched.restored (.s i), congrFun hswitched.restored .sp,
    hswitched.scratch2_eq, hscratch1, hrs, rfl⟩

end XrLinux.Linux
