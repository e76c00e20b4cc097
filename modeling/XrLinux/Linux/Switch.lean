import XrLinux.Linux.Regs

/-!
# Linux — `__switch_to` and the way out of a trap

The assembly of `kernel/head.S` that saves and restores registers, instruction by instruction. The
memory it works on is the `thread` of each task and the `struct pt_regs` on the stacks, by address;
`asm-offsets.c` gives the offsets by the names of the fields, and so does this.
-/

namespace XrLinux.Linux

open Machine

/-- A word of `struct thread_struct`, `TASK_THREAD_S0` to `TASK_THREAD_LR`. -/
inductive ThreadSlot where
  | s (i : Fin 18)
  | sp
  | lr
  deriving DecidableEq

/-- `struct thread_struct`. -/
abbrev ThreadStruct := ThreadSlot → Word

/-- The kernel, as far as switching tasks is concerned. -/
structure Kernel where
  regs : RegFile
  scratch1 : Word
  scratch2 : Word
  rs : Word
  epc : Word
  /-- `thread` of the task at an address. -/
  thread : Word → ThreadStruct
  /-- `struct pt_regs` at an address. -/
  pt : Word → PtRegs

/-- The fields of `struct pt_regs` that assembly reads. -/
inductive PtField where
  | pc
  | gpr (r : Reg)
  | rs
  deriving DecidableEq

def PtRegs.get (regs : PtRegs) : PtField → Word
  | .pc => regs.pc
  | .gpr r => regs.gpr r
  | .rs => regs.rs

/-- A word in memory, by the structure it is in. -/
inductive Place where
  /-- `TASK_THREAD_…` -/
  | thread (slot : ThreadSlot)
  /-- `PT_…` -/
  | pt (field : PtField)
  deriving DecidableEq

/-- The control registers that are written. -/
inductive ControlReg where
  | rs
  | epc
  | scratch1
  | scratch2
  deriving DecidableEq

/-- The instructions of these routines, but for those that leave them. -/
inductive Asm where
  /-- `mov long [base + TASK_THREAD_…], r` -/
  | storeThread (base : Reg) (slot : ThreadSlot) (r : Reg)
  /-- `mov r, long [base + …]` -/
  | load (r base : Reg) (place : Place)
  | add (rd ra rb : Reg)
  | addi (rd ra : Reg) (imm : Word)
  | andi (rd ra : Reg) (imm : Word)
  | mtcr (cr : ControlReg) (r : Reg)
  deriving DecidableEq

namespace Kernel

def setReg (k : Kernel) (r : Reg) (value : Word) : Kernel :=
  { k with regs := k.regs.set r value }

def setControl (k : Kernel) (cr : ControlReg) (value : Word) : Kernel :=
  match cr with
  | .rs => { k with rs := value }
  | .epc => { k with epc := value }
  | .scratch1 => { k with scratch1 := value }
  | .scratch2 => { k with scratch2 := value }

def read (k : Kernel) (addr : Word) : Place → Word
  | .thread slot => k.thread addr slot
  | .pt field => (k.pt addr).get field

def exec (k : Kernel) : Asm → Kernel
  | .storeThread base slot r =>
    let task := k.regs.get base
    { k with
      thread := Function.update k.thread task
        (Function.update (k.thread task) slot (k.regs.get r)) }
  | .load r base place => k.setReg r (k.read (k.regs.get base) place)
  | .add rd ra rb => k.setReg rd (k.regs.get ra + k.regs.get rb)
  | .addi rd ra imm => k.setReg rd (k.regs.get ra + imm)
  | .andi rd ra imm => k.setReg rd (k.regs.get ra &&& imm)
  | .mtcr cr r => k.setControl cr (k.regs.get r)

/-- A sequence without branches. -/
def execAll (k : Kernel) (code : List Asm) : Kernel := code.foldl exec k

/-- What a task waits with: the registers that the C compiler keeps over a call, and where to
return to. -/
def context (k : Kernel) : ThreadStruct
  | .s i => k.regs.get (sReg i)
  | .sp => k.regs.get sp
  | .lr => k.regs.get lr

end Kernel

/-- The registers that are switched, with their slots. -/
def switchedRegs : List (ThreadSlot × Reg) :=
  (List.finRange 18).map (fun i => (.s i, sReg i)) ++ [(.sp, sp), (.lr, lr)]

def saveRegs : List Asm := switchedRegs.map fun x => .storeThread a0 x.1 x.2

def restoreRegs : List Asm := switchedRegs.map fun x => .load x.2 a1 (.thread x.1)

/-- `__switch_to` up to its return through `lr`. The old task is in `a0` and the new one in `a1`. -/
def switchTo (k : Kernel) : Kernel :=
  k.execAll (saveRegs ++ ([.add tp a1 zero, .mtcr .scratch2 tp] ++ restoreRegs))

/-- The registers that `return_from_trap` restores first: `t1` to `s17` and `lr`. -/
def restoredFirst : List Reg :=
  [2, 3, 4, 5, 6, 7, 8, 9, 10, 11, 12, 13, 14, 15, 16, 17, 18, 19, 20, 21, 22, 23, 24, 25, 26, 27,
    28, 31]

/-- `return_from_trap` before its branch. -/
def returnFromTrapStart : List Asm :=
  restoredFirst.map (fun r => .load r sp (.pt (.gpr r))) ++
    [.load t0 sp (.pt .rs), .mtcr .rs t0, .andi t0 t0 rsOldU]

/-- What is skipped on the way to the kernel. -/
def returnFromTrapUser : List Asm := [.addi t0 sp ptSizeOnStack, .mtcr .scratch1 t0]

/-- `return_from_trap` after the branch, up to `rfe`. -/
def returnFromTrapEnd : List Asm :=
  [.load tp sp (.pt (.gpr tp)), .load t0 sp (.pt .pc), .mtcr .epc t0, .load t0 sp (.pt (.gpr t0)),
    .load sp sp (.pt (.gpr sp))]

def returnFromTrap (k : Kernel) : Kernel :=
  let k := k.execAll returnFromTrapStart
  let k := if k.regs.get t0 = 0 then k else k.execAll returnFromTrapUser
  k.execAll returnFromTrapEnd

/-! ## Loads and stores in a row -/

namespace Kernel

@[simp] theorem execAll_nil (k : Kernel) : k.execAll [] = k := rfl

@[simp] theorem execAll_cons (k : Kernel) (instr : Asm) (code : List Asm) :
    k.execAll (instr :: code) = (k.exec instr).execAll code := rfl

theorem execAll_append (k : Kernel) (code code' : List Asm) :
    k.execAll (code ++ code') = (k.execAll code).execAll code' := List.foldl_append

/-- Loads into different registers, none of which is the base. -/
theorem execAll_loads (k : Kernel) (base : Reg) (loads : List (Place × Reg))
    (hnodup : (loads.map Prod.snd).Nodup) (hbase : base ∉ loads.map Prod.snd)
    (hzero : zero ∉ loads.map Prod.snd) :
    ∃ regs, k.execAll (loads.map fun x => .load x.2 base x.1) = { k with regs } ∧
      (∀ x ∈ loads, regs.get x.2 = k.read (k.regs.get base) x.1) ∧
      ∀ r, r ∉ loads.map Prod.snd → regs.get r = k.regs.get r := by
  induction loads generalizing k with
  | nil => exact ⟨k.regs, rfl, fun x hx => absurd hx List.not_mem_nil, fun r _ => rfl⟩
  | cons load loads ih =>
    rw [List.map_cons, List.nodup_cons] at hnodup
    rw [List.map_cons, List.mem_cons, not_or] at hbase hzero
    let k' := k.exec (.load load.2 base load.1)
    have hkept : ∀ r, r ≠ load.2 → k'.regs.get r = k.regs.get r :=
      fun r hne => RegFile.get_set_of_ne hne
    have hread : ∀ place, k'.read (k'.regs.get base) place = k.read (k.regs.get base) place := by
      intro place
      rw [hkept base hbase.1]
      cases place <;> rfl
    obtain ⟨regs, hexec, hloaded, hother⟩ := ih k' hnodup.2 hbase.2 hzero.2
    refine ⟨regs, hexec, ?_, ?_⟩
    · intro x hx
      rcases List.mem_cons.mp hx with rfl | hx
      · rw [hother _ hnodup.1]
        exact RegFile.get_set_self (Ne.symm hzero.1)
      · rw [hloaded x hx, hread]
    · intro r hr
      rw [List.map_cons, List.mem_cons, not_or] at hr
      rw [hother r hr.2, hkept r hr.1]

/-- Stores to different slots of a task. -/
theorem execAll_stores (k : Kernel) (base : Reg) (stores : List (ThreadSlot × Reg))
    (hnodup : (stores.map Prod.fst).Nodup) :
    ∃ slots, k.execAll (stores.map fun x => .storeThread base x.1 x.2) =
        { k with thread := Function.update k.thread (k.regs.get base) slots } ∧
      (∀ x ∈ stores, slots x.1 = k.regs.get x.2) ∧
      ∀ slot, slot ∉ stores.map Prod.fst → slots slot = k.thread (k.regs.get base) slot := by
  induction stores generalizing k with
  | nil =>
    refine ⟨k.thread (k.regs.get base), ?_, fun x hx => absurd hx List.not_mem_nil, fun _ _ => rfl⟩
    rw [Function.update_eq_self]
    rfl
  | cons store stores ih =>
    rw [List.map_cons, List.nodup_cons] at hnodup
    let k' := k.exec (.storeThread base store.1 store.2)
    have hthread : k'.thread (k.regs.get base) =
        Function.update (k.thread (k.regs.get base)) store.1 (k.regs.get store.2) :=
      Function.update_self _ _ _
    obtain ⟨slots, hexec, hstored, hother⟩ := ih k' hnodup.2
    refine ⟨slots, ?_, ?_, ?_⟩
    · rw [List.map_cons, execAll_cons, hexec]
      show { k' with thread := Function.update k'.thread (k.regs.get base) slots } = _
      rw [show k'.thread = Function.update k.thread (k.regs.get base) _ from rfl,
        Function.update_idem]
      rfl
    · intro x hx
      rcases List.mem_cons.mp hx with rfl | hx
      · rw [hother _ hnodup.1, show k'.regs = k.regs from rfl, hthread]
        exact Function.update_self _ _ _
      · exact hstored x hx
    · intro slot hslot
      rw [List.map_cons, List.mem_cons, not_or] at hslot
      rw [hother slot hslot.2, show k'.regs = k.regs from rfl, hthread]
      exact Function.update_of_ne hslot.1 _ _

end Kernel

/-! ## `__switch_to` -/

theorem mem_switchedRegs (slot : ThreadSlot) : ∃ r, (slot, r) ∈ switchedRegs := by
  cases slot with
  | s i =>
    exact ⟨sReg i, List.mem_append_left _ (List.mem_map_of_mem (List.mem_finRange i))⟩
  | sp => exact ⟨sp, List.mem_append_right _ List.mem_cons_self⟩
  | lr => exact ⟨lr, List.mem_append_right _ (List.mem_cons_of_mem _ List.mem_cons_self)⟩

theorem context_eq (k : Kernel) {x : ThreadSlot × Reg} (hx : x ∈ switchedRegs) :
    k.context x.1 = k.regs.get x.2 := by
  rcases List.mem_append.mp hx with hx | hx
  · obtain ⟨i, _, rfl⟩ := List.mem_map.mp hx
    rfl
  · rcases List.mem_cons.mp hx with rfl | hx
    · rfl
    · rw [List.mem_singleton.mp hx]
      rfl

/-- What `__switch_to` leaves behind. -/
structure Switched (k k' : Kernel) : Prop where
  saved : k'.thread = Function.update k.thread (k.regs.get a0) k.context
  restored : k'.context = k'.thread (k.regs.get a1)
  tp_eq : k'.regs.get tp = k.regs.get a1
  scratch2_eq : k'.scratch2 = k.regs.get a1
  /-- The tasks, among others, are still there for what comes next. -/
  kept : ∀ r, r ≠ tp → r ∉ switchedRegs.map Prod.snd → k'.regs.get r = k.regs.get r
  pt_eq : k'.pt = k.pt

theorem switchTo_switched (k : Kernel) : Switched k (switchTo k) := by
  obtain ⟨slots, hsave, hstored, _⟩ := k.execAll_stores a0 switchedRegs (by decide)
  have hslots : slots = k.context := by
    funext slot
    obtain ⟨r, hr⟩ := mem_switchedRegs slot
    exact (hstored _ hr).trans (context_eq k hr).symm
  subst hslots
  let k₁ : Kernel :=
    { k with thread := Function.update k.thread (k.regs.get a0) k.context }
  let k₂ : Kernel := k₁.execAll [.add tp a1 zero, .mtcr .scratch2 tp]
  have htp : k₂.regs.get tp = k.regs.get a1 := by
    show (k.regs.set tp (k.regs.get a1 + k.regs.get zero)).get tp = _
    rw [RegFile.get_set_self (by decide), RegFile.get_zero, add_zero]
  have hother : ∀ r, r ≠ tp → k₂.regs.get r = k.regs.get r := fun r hr => RegFile.get_set_of_ne hr
  obtain ⟨regs, hrestore, hloaded, hkept⟩ :=
    k₂.execAll_loads a1 (switchedRegs.map fun x => (.thread x.1, x.2)) (by decide) (by decide)
      (by decide)
  have hswitch : switchTo k = { k₂ with regs } := by
    rw [switchTo, Kernel.execAll_append, Kernel.execAll_append, saveRegs, hsave, restoreRegs,
      ← hrestore, List.map_map]
    rfl
  rw [hswitch]
  exact
    { saved := rfl
      restored := by
        funext slot
        obtain ⟨r, hr⟩ := mem_switchedRegs slot
        rw [context_eq { k₂ with regs } hr]
        have hread := hloaded _ (List.mem_map_of_mem hr)
        rw [hother a1 (by decide)] at hread
        exact hread
      tp_eq := (hkept tp (by decide)).trans htp
      scratch2_eq := htp
      kept := fun r htp hr => (hkept r hr).trans (hother r htp)
      pt_eq := rfl }

/-! ## `return_from_trap` -/

/-- What is in the machine at `rfe`. -/
structure Returned (k k' : Kernel) (regs : PtRegs) : Prop where
  gpr_eq : ∀ r, r ≠ zero → k'.regs.get r = regs.gpr r
  epc_eq : k'.epc = regs.pc
  rs_eq : k'.rs = regs.rs
  /-- The stack for the next trap, from user mode only. -/
  scratch1_eq : k'.scratch1 =
    if regs.rs &&& rsOldU = 0 then k.scratch1 else k.regs.get sp + ptSizeOnStack
  scratch2_eq : k'.scratch2 = k.scratch2

theorem returnFromTrapEnd_spec (k : Kernel) :
    let k' := k.execAll returnFromTrapEnd
    let regs := k.pt (k.regs.get sp)
    (∀ r, r ≠ tp → r ≠ t0 → r ≠ sp → k'.regs.get r = k.regs.get r) ∧
      k'.regs.get tp = regs.gpr tp ∧ k'.regs.get t0 = regs.gpr t0 ∧
      k'.regs.get sp = regs.gpr sp ∧ k'.epc = regs.pc ∧ k'.rs = k.rs ∧
      k'.scratch1 = k.scratch1 ∧ k'.scratch2 = k.scratch2 := by
  intro k' regs
  let k₁ := k.setReg tp (regs.gpr tp)
  have hsp : k₁.regs.get sp = k.regs.get sp := RegFile.get_set_of_ne (by decide)
  let k₂ := k₁.setReg t0 regs.pc
  have hsp₂ : k₂.regs.get sp = k.regs.get sp := (RegFile.get_set_of_ne (by decide)).trans hsp
  let k₃ : Kernel := { k₂ with epc := regs.pc }
  let k₄ := k₃.setReg t0 (regs.gpr t0)
  have hsp₄ : k₄.regs.get sp = k.regs.get sp := (RegFile.get_set_of_ne (by decide)).trans hsp₂
  have hend : k' = k₄.setReg sp (regs.gpr sp) := by
    have hpc : k₁.exec (.load t0 sp (.pt .pc)) = k₂ := by
      show k₁.setReg t0 (k.pt (k₁.regs.get sp)).pc = k₂
      rw [hsp]
    have hepc : k₂.exec (.mtcr .epc t0) = k₃ := by
      show { k₂ with epc := k₂.regs.get t0 } = k₃
      rw [show k₂.regs.get t0 = regs.pc from RegFile.get_set_self (by decide)]
    have ht0 : k₃.exec (.load t0 sp (.pt (.gpr t0))) = k₄ := by
      show k₃.setReg t0 ((k.pt (k₂.regs.get sp)).gpr t0) = k₄
      rw [hsp₂]
    have hlast : k₄.exec (.load sp sp (.pt (.gpr sp))) = k₄.setReg sp (regs.gpr sp) := by
      show k₄.setReg sp ((k.pt (k₄.regs.get sp)).gpr sp) = _
      rw [hsp₄]
    rw [← hlast, ← ht0, ← hepc, ← hpc]
    rfl
  rw [hend]
  refine ⟨?_, ?_, ?_, RegFile.get_set_self (by decide), rfl, rfl, rfl, rfl⟩
  · intro r htp ht0 hsp
    exact (RegFile.get_set_of_ne hsp).trans <| (RegFile.get_set_of_ne ht0).trans <|
      (RegFile.get_set_of_ne ht0).trans (RegFile.get_set_of_ne htp)
  · exact (RegFile.get_set_of_ne (by decide)).trans <| (RegFile.get_set_of_ne (by decide)).trans <|
      (RegFile.get_set_of_ne (by decide)).trans (RegFile.get_set_self (by decide))
  · exact (RegFile.get_set_of_ne (by decide)).trans (RegFile.get_set_self (by decide))

theorem returnFromTrap_returned (k : Kernel) :
    Returned k (returnFromTrap k) (k.pt (k.regs.get sp)) := by
  obtain ⟨regs, hfirst, hloaded, hkept⟩ :=
    k.execAll_loads sp (restoredFirst.map fun r => (.pt (.gpr r), r)) (by decide) (by decide)
      (by decide)
  let pt := k.pt (k.regs.get sp)
  let k₂ : Kernel :=
    { k with
      regs := (regs.set t0 pt.rs).set t0 (pt.rs &&& rsOldU)
      rs := pt.rs }
  have hsp : regs.get sp = k.regs.get sp := hkept sp (by decide)
  have hstart : k.execAll returnFromTrapStart = k₂ := by
    have hfirst' : k.execAll (restoredFirst.map fun r => .load r sp (.pt (.gpr r))) =
        { k with regs } := by
      rw [← hfirst, List.map_map]
      rfl
    rw [returnFromTrapStart, Kernel.execAll_append, hfirst']
    show ({ k with
      regs := (regs.set t0 (k.pt (regs.get sp)).rs).set t0
        ((regs.set t0 (k.pt (regs.get sp)).rs).get t0 &&& rsOldU)
      rs := (regs.set t0 (k.pt (regs.get sp)).rs).get t0 } : Kernel) = k₂
    rw [RegFile.get_set_self (by decide), hsp]
  have ht0 : k₂.regs.get t0 = pt.rs &&& rsOldU := RegFile.get_set_self (by decide)
  have hregs₂ : ∀ r, r ≠ t0 → k₂.regs.get r = regs.get r := fun r hr =>
    (RegFile.get_set_of_ne hr).trans (RegFile.get_set_of_ne hr)
  -- The branch only makes a difference to `t0`, which is loaded again, and to `scratch1`.
  obtain ⟨k₃, hbranch, hregs₃, hpt₃, hrs₃, hscratch₃, hscratch2₃⟩ : ∃ k₃ : Kernel,
      (if k₂.regs.get t0 = 0 then k₂ else k₂.execAll returnFromTrapUser) = k₃ ∧
      (∀ r, r ≠ t0 → k₃.regs.get r = regs.get r) ∧ k₃.pt = k.pt ∧ k₃.rs = pt.rs ∧
      (k₃.scratch1 =
        if pt.rs &&& rsOldU = 0 then k.scratch1 else k.regs.get sp + ptSizeOnStack) ∧
      k₃.scratch2 = k.scratch2 := by
    by_cases huser : pt.rs &&& rsOldU = 0
    · rw [ht0, if_pos huser, if_pos huser]
      exact ⟨k₂, rfl, hregs₂, rfl, rfl, rfl, rfl⟩
    · rw [ht0, if_neg huser, if_neg huser]
      refine ⟨_, rfl, ?_, rfl, rfl, ?_, rfl⟩
      · intro r hr
        exact (RegFile.get_set_of_ne hr).trans (hregs₂ r hr)
      · show (k₂.regs.set t0 (k₂.regs.get sp + ptSizeOnStack)).get t0 = _
        rw [RegFile.get_set_self (by decide), hregs₂ sp (by decide), hsp]
  have hend : returnFromTrap k = k₃.execAll returnFromTrapEnd := by
    rw [← hbranch, ← hstart]
    rfl
  have hspec := returnFromTrapEnd_spec k₃
  rw [hregs₃ sp (by decide), hsp, hpt₃] at hspec
  obtain ⟨hother, htp, ht0', hsp', hepc, hrs, hscratch, hscratch2⟩ := hspec
  rw [hend]
  exact
    { gpr_eq := by
        intro r hzero
        by_cases hmem : r ∈ restoredFirst
        · have hne : r ≠ tp ∧ r ≠ t0 ∧ r ≠ sp := by
            revert r
            decide
          rw [hother r hne.1 hne.2.1 hne.2.2, hregs₃ r hne.2.1]
          exact hloaded _ (List.mem_map_of_mem hmem)
        · have hlast : r = tp ∨ r = t0 ∨ r = sp := by
            revert r
            decide
          rcases hlast with rfl | rfl | rfl
          · exact htp
          · exact ht0'
          · exact hsp'
      epc_eq := hepc
      rs_eq := hrs.trans hrs₃
      scratch1_eq := hscratch.trans hscratch₃
      scratch2_eq := hscratch2.trans hscratch2₃ }

end XrLinux.Linux
