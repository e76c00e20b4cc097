import XrLinux.Machine.Memory
import XrLinux.Linux.Regs
import XrLinux.Glibc.Setjmp

/-!
# glibc — the wrappers of `clone`

`clone.S` and `clone3.S` line by line, each with the `__syscall_error` that it jumps to. What is
between a `sys` and the next line is the kernel, in the parent or in the child, and it comes in by
what it does to the registers; so does the function of the child.
-/

namespace XrLinux.Glibc

open Machine (Reg RegFile State Op Line Departure depart zero lr)
open Linux

/-- `__NR_clone`. -/
def nrClone : Machine.Word := 220

/-- `__NR_clone3`. -/
def nrClone3 : Machine.Word := 435

/-- `__NR_exit`. -/
def nrExit : Machine.Word := 93

/-- `EINVAL`. -/
def einval : BitVec 16 := 22

/-- How the code of `__syscall_error` gets at `errno`. -/
inductive ErrnoAccess where
  /-- `RTLD_PRIVATE_ERRNO` -/
  | rtld (rtldErrno pcrelLo : Machine.Word)
  /-- `__PIC__`, through the word of the GOT at `slot`. -/
  | pic (slot pcrelLo : Machine.Word)
  | static (tprel tprelLo : Machine.Word)

/-- The address of `errno`. -/
def ErrnoAccess.errno (access : ErrnoAccess) (c : State) : Machine.Word :=
  match access with
  | .rtld rtldErrno _ => rtldErrno
  | .pic slot _ => c.mem slot + c.regs.get tp
  | .static tprel _ => tprel + c.regs.get tp

/-- The store of `a3` to `errno`. -/
def ErrnoAccess.store : ErrnoAccess → List Line
  | .rtld rtldErrno pcrelLo =>
    [.op (.adr t1 (rtldErrno - pcrelLo)), .op (.store t1 pcrelLo a3)]
  | .pic slot pcrelLo =>
    [.op (.adr t1 (slot - pcrelLo)), .op (.load t1 t1 pcrelLo), .op (.storeIndexed t1 tp a3)]
  | .static tprel tprelLo =>
    [.op (.lui t1 (tprel - tprelLo)), .op (.alu .add t1 t1 (.plain tp)),
      .op (.store t1 tprelLo a3)]

/-- Where `1f` is: in two of the three the `adr` has a label `1` too. -/
def ErrnoAccess.label1 : ErrnoAccess → Nat
  | .rtld _ _ => 4
  | .pic _ _ => 4
  | .static _ _ => 8

/-- Where `__syscall_error` returns a result that is no error. -/
def ErrnoAccess.isStatic : ErrnoAccess → Bool
  | .static _ _ => true
  | _ => false

/-- `__syscall_error`, with its first line at `start`. -/
def syscallErrorCode (access : ErrnoAccess) (start : Nat) : List Line :=
  [.op (.alu .add t0 lr (.plain zero)), .op (.alu .sltSigned t1 a0 (.imm (-4095))),
    .branch .ne t1 (start + access.label1), .op (.alu .sub a3 zero (.plain a0))] ++
  access.store ++ [.op (.alu .sub a3 zero (.imm 1)), .jump t0 0]

/-- `__clone` up to its `sys`, after the checks. -/
def cloneOps : List Op :=
  [.alu .sub a1 a1 (.imm 8), .store a1 0 a0, .store a1 4 a3, .alu .add a0 a2 (.plain zero),
    .load a2 sp 0, .load a3 sp 4, .load t0 sp 8, .alu .add t5 zero (.imm 220)]

/-- `__clone`, and `__syscall_error` from line 23 on. -/
def cloneCode (access : ErrnoAccess) (t1Value : Machine.Word) : List Line :=
  [.branch .eq a0 14, .branch .eq a1 14] ++ cloneOps.map .op ++
  [.sys, .branch .lt a3 15, .branch .eq a3 17, .jump lr 0] ++
  -- `L (invalid)` and `L (error)`
  [.op (.alu .sub a3 zero (.imm einval)), .op (.adr t1 t1Value), .goto 23] ++
  -- `L (thread_start)`
  [.op (.load a1 sp 0), .op (.load a0 sp 4), .call a1, .op (.alu .add t5 zero (.imm 93)),
    .op (.alu .add a0 a3 (.plain zero)), .sys] ++
  syscallErrorCode access 23

/-- `__clone3`, and `__syscall_error` from line 16 on. -/
def clone3Code (access : ErrnoAccess) (t1Value : Machine.Word) : List Line :=
  [.branch .eq a0 7, .branch .eq a2 7, .op (.alu .add t5 zero (.imm 435)), .sys,
    .branch .lt t5 8, .branch .eq t5 11, .jump lr 0] ++
  -- `L (invalid)` and `L (error)`
  [.op (.alu .sub a3 zero (.imm einval)), .op (.alu .add a0 a3 (.plain zero)),
    .op (.adr t1 t1Value), .goto 16] ++
  -- `L (thread_start)`
  [.op (.alu .add a0 a3 (.plain zero)), .call a2, .op (.alu .add t5 zero (.imm 93)),
    .op (.alu .add a0 a3 (.plain zero)), .sys] ++
  syscallErrorCode access 16

/-! ## What the wrappers are for -/

/-- The arguments of the kernel's `clone`, for a port that selects no `CLONE_BACKWARDS`. -/
structure SysClone where
  cloneFlags : Machine.Word
  newsp : Machine.Word
  parentTidptr : Machine.Word
  childTidptr : Machine.Word
  tls : Machine.Word

def sysClone (c : State) : SysClone :=
  { cloneFlags := c.regs.get a0, newsp := c.regs.get a1, parentTidptr := c.regs.get a2,
    childTidptr := c.regs.get a3, tls := c.regs.get t0 }

/-- The results that stand for errors. -/
def isError (r : Machine.Word) : Prop := -4095 ≤ r.toInt ∧ r.toInt < 0

/-- The task, or the new one when `r` is 0, goes on at `c'` after a system call at `c`. `newsp` is
the stack pointer that the new task was to have (`copy_thread`). -/
structure KernelReturns (newsp : Machine.Word) (c : State) (r : Machine.Word) (c' : State) :
    Prop where
  result : c'.regs.get a3 = r
  kept : ∀ reg, reg ≠ a3 → (r = 0 → reg ≠ sp ∧ reg ≠ tp) → c'.regs.get reg = c.regs.get reg
  child_sp : r = 0 → c'.regs.get sp = if newsp = 0 then c.regs.get sp else newsp
  child_mem : r = 0 → c'.mem (c'.regs.get sp) = c.mem (c'.regs.get sp) ∧
    c'.mem (c'.regs.get sp + 4) = c.mem (c'.regs.get sp + 4)
  error_mem : isError r → c'.mem = c.mem

/-- What a wrapper called at `c` is to do from line `next` on, where it is at `c'` with `r`. -/
structure Finishes (access : ErrnoAccess) (code : List Line) (c : State) (fn arg r : Machine.Word)
    (next : Nat) (c' : State) : Prop where
  error : isError r → ∃ out, depart code code.length next c' = some (.jump (c.regs.get lr) out) ∧
    out.regs.get a3 = -1 ∧ out.mem (access.errno c') = -r
  /-- The function is called, and what it leaves in `a3` goes to `exit`. -/
  child : r = 0 → ∃ next' out, depart code code.length next c' = some (.call fn next' out) ∧
    out.regs.get a0 = arg ∧ ∀ back, ∃ last out', depart code code.length next' back =
      some (.sys last out') ∧ out'.regs.get t5 = nrExit ∧ out'.regs.get a0 = back.regs.get a3
  parent : 0 < r.toInt → ∃ out,
    depart code code.length next c' = some (.jump (c.regs.get lr) out) ∧ out.regs.get a3 = r ∧
      ∀ reg ∈ calleeSaved, out.regs.get reg = c.regs.get reg

/-- `__clone (fn, child_stack, flags, arg, parent_tidptr, tls, child_tidptr)` called at `c`, where
the kernel's result is `r`. -/
def CloneCorrect (access : ErrnoAccess) (t1Value : Machine.Word) (c : State) (r : Machine.Word) :
    Prop :=
  ∃ next c₁, depart (cloneCode access t1Value) (cloneCode access t1Value).length 0 c =
      some (.sys next c₁) ∧
    c₁.regs.get t5 = nrClone ∧
    sysClone c₁ =
      { cloneFlags := c.regs.get a2
        newsp := c.regs.get a1 - 8
        parentTidptr := c.mem (c.regs.get sp)
        childTidptr := c.mem (c.regs.get sp + 8)
        tls := c.mem (c.regs.get sp + 4) } ∧
    ∀ c₂, KernelReturns (sysClone c₁).newsp c₁ r c₂ →
      Finishes access (cloneCode access t1Value) c (c.regs.get a0) (c.regs.get a3) r next c₂

/-- `__clone3 (cl_args, size, func, arg)` called at `c`, where the kernel's result is `r`. -/
def Clone3Correct (access : ErrnoAccess) (t1Value : Machine.Word) (c : State) (r : Machine.Word) :
    Prop :=
  ∃ next c₁, depart (clone3Code access t1Value) (clone3Code access t1Value).length 0 c =
      some (.sys next c₁) ∧
    c₁.regs.get t5 = nrClone3 ∧ c₁.regs.get a0 = c.regs.get a0 ∧ c₁.regs.get a1 = c.regs.get a1 ∧
    ∀ newsp c₂, KernelReturns newsp c₁ r c₂ →
      Finishes access (clone3Code access t1Value) c (c.regs.get a2) (c.regs.get a3) r next c₂

/-! ## `__syscall_error` -/

theorem isError.ne_zero {r : Machine.Word} (h : isError r) : r ≠ 0 := by
  rintro rfl
  exact absurd h.2 (by decide)

theorem isError.ne_neg {r : Machine.Word} (h : isError r) : r ≠ -r := by
  intro hneg
  have hint := congrArg BitVec.toInt hneg
  rw [BitVec.toInt_neg, Int.bmod_def] at hint
  have hlow := h.1
  have hhigh := h.2
  omega

section
variable {prog : List Line} {access : ErrnoAccess} {start : Nat}

theorem syscallError_line (hprog : prog.drop start = syscallErrorCode access start) (k : Nat) :
    prog[start + k]? = (syscallErrorCode access start)[k]? := by
  rw [← hprog, List.getElem?_drop]

/-- The comparison that tells errors from other results. -/
theorem sltSigned_eval (value : Machine.Word) :
    (Machine.AluOp.sltSigned.eval value (Machine.AluOp.sltSigned.extend (-4095)) ≠ 0) ↔
      value.toInt < -4095 := by
  have hbound : (Machine.AluOp.sltSigned.extend (-4095)).toInt = -4095 := by decide
  show (if value.slt (Machine.AluOp.sltSigned.extend (-4095)) then (1 : Machine.Word) else 0) ≠ 0 ↔ _
  rw [BitVec.slt, hbound]
  by_cases hlt : value.toInt < -4095 <;> simp [hlt]

/-- The registers that the code for `errno` reads, and `a3`. -/
structure AtStore (c c' : State) (value : Machine.Word) : Prop where
  tp_eq : c'.regs.get tp = c.regs.get tp
  t0_eq : c'.regs.get t0 = c.regs.get lr
  a3_eq : c'.regs.get a3 = value
  mem_eq : c'.mem = c.mem

/-- From the store on. -/
theorem depart_errnoStore (hprog : prog.drop start = syscallErrorCode access start) {c c' : State}
    {value : Machine.Word} (h : AtStore c c' value) (fuel : Nat) :
    ∃ out, depart prog (fuel + 5) (start + 4) c' = some (.jump (c.regs.get lr) out) ∧
      out.regs.get a3 = -1 ∧ out.mem (access.errno c) = value := by
  have hline := syscallError_line hprog
  cases access with
  | rtld rtldErrno pcrelLo =>
    let c₁ := c'.exec (.adr t1 (rtldErrno - pcrelLo))
    let c₂ := c₁.exec (.store t1 pcrelLo a3)
    let c₃ := c₂.exec (.alu .sub a3 zero (.imm 1))
    have ht1 : c₁.regs.get t1 = rtldErrno - pcrelLo := RegFile.get_set_self (by decide)
    have hregs : ∀ r, r ≠ t1 → r ≠ a3 → c₃.regs.get r = c'.regs.get r := fun r ht1 ha3 =>
      (RegFile.get_set_of_ne ha3).trans (RegFile.get_set_of_ne ht1)
    refine ⟨c₃, ?_, RegFile.get_set_self (by decide), ?_⟩
    · rw [Machine.depart_op (hline 4), Machine.depart_op (hline 5), Machine.depart_op (hline 6),
        Machine.depart_jump (hline 7)]
      show some (Departure.jump (c₃.regs.get t0 + 0) c₃) = _
      rw [hregs t0 (by decide) (by decide), h.t0_eq]
      exact congrArg (fun target => some (Departure.jump target c₃)) (BitVec.add_zero _)
    · show Function.update c₁.mem (c₁.regs.get t1 + pcrelLo) (c₁.regs.get a3) rtldErrno = value
      rw [ht1, BitVec.sub_add_cancel, Function.update_self]
      exact (RegFile.get_set_of_ne (by decide)).trans h.a3_eq
  | pic slot pcrelLo =>
    let c₁ := c'.exec (.adr t1 (slot - pcrelLo))
    let c₂ := c₁.exec (.load t1 t1 pcrelLo)
    let c₃ := c₂.exec (.storeIndexed t1 tp a3)
    let c₄ := c₃.exec (.alu .sub a3 zero (.imm 1))
    have ht1 : c₁.regs.get t1 = slot - pcrelLo := RegFile.get_set_self (by decide)
    have ht1' : c₂.regs.get t1 = c.mem slot := by
      show (c₁.regs.set t1 (c₁.mem (c₁.regs.get t1 + pcrelLo))).get t1 = _
      rw [RegFile.get_set_self (by decide), ht1, BitVec.sub_add_cancel, ← h.mem_eq]
      rfl
    have hregs₂ : ∀ r, r ≠ t1 → c₂.regs.get r = c'.regs.get r := fun r ht1 =>
      (RegFile.get_set_of_ne ht1).trans (RegFile.get_set_of_ne ht1)
    refine ⟨c₄, ?_, RegFile.get_set_self (by decide), ?_⟩
    · rw [Machine.depart_op (hline 4), Machine.depart_op (hline 5), Machine.depart_op (hline 6),
        Machine.depart_op (hline 7), Machine.depart_jump (hline 8)]
      show some (Departure.jump (c₄.regs.get t0 + 0) c₄) = _
      have ht0 : c₄.regs.get t0 = c.regs.get lr :=
        (RegFile.get_set_of_ne (by decide)).trans <| (hregs₂ t0 (by decide)).trans h.t0_eq
      rw [ht0]
      exact congrArg (fun target => some (Departure.jump target c₄)) (BitVec.add_zero _)
    · show Function.update c₂.mem (c₂.regs.get t1 + c₂.regs.get tp) (c₂.regs.get a3)
        (c.mem slot + c.regs.get tp) = value
      rw [ht1', hregs₂ tp (by decide), h.tp_eq, Function.update_self, hregs₂ a3 (by decide)]
      exact h.a3_eq
  | static tprel tprelLo =>
    let c₁ := c'.exec (.lui t1 (tprel - tprelLo))
    let c₂ := c₁.exec (.alu .add t1 t1 (.plain tp))
    let c₃ := c₂.exec (.store t1 tprelLo a3)
    let c₄ := c₃.exec (.alu .sub a3 zero (.imm 1))
    have ht1 : c₁.regs.get t1 = tprel - tprelLo := RegFile.get_set_self (by decide)
    have htp : c₁.regs.get tp = c.regs.get tp :=
      (RegFile.get_set_of_ne (by decide)).trans h.tp_eq
    have ht1' : c₂.regs.get t1 = tprel - tprelLo + c.regs.get tp := by
      show (c₁.regs.set t1 (c₁.regs.get t1 + (Machine.Src.plain tp).value .add c₁.regs)).get t1 = _
      rw [RegFile.get_set_self (by decide), Machine.Src.value_plain, ht1, htp]
    have hregs₂ : ∀ r, r ≠ t1 → c₂.regs.get r = c'.regs.get r := fun r ht1 =>
      (RegFile.get_set_of_ne ht1).trans (RegFile.get_set_of_ne ht1)
    refine ⟨c₄, ?_, RegFile.get_set_self (by decide), ?_⟩
    · rw [Machine.depart_op (hline 4), Machine.depart_op (hline 5), Machine.depart_op (hline 6),
        Machine.depart_op (hline 7), Machine.depart_jump (hline 8)]
      show some (Departure.jump (c₄.regs.get t0 + 0) c₄) = _
      have ht0 : c₄.regs.get t0 = c.regs.get lr :=
        (RegFile.get_set_of_ne (by decide)).trans <| (hregs₂ t0 (by decide)).trans h.t0_eq
      rw [ht0]
      exact congrArg (fun target => some (Departure.jump target c₄)) (BitVec.add_zero _)
    · show Function.update c₂.mem (c₂.regs.get t1 + tprelLo) (c₂.regs.get a3)
        (tprel + c.regs.get tp) = value
      have haddr : tprel - tprelLo + c.regs.get tp + tprelLo = tprel + c.regs.get tp := by
        rw [BitVec.add_assoc, BitVec.add_comm (c.regs.get tp), ← BitVec.add_assoc,
          BitVec.sub_add_cancel]
      rw [ht1', haddr, Function.update_self, hregs₂ a3 (by decide)]
      exact h.a3_eq

/-- Up to the branch to `1f`. -/
def syscallErrorStart : List Op :=
  [.alu .add t0 lr (.plain zero), .alu .sltSigned t1 a0 (.imm (-4095))]

theorem syscallErrorStart_spec (c : State) :
    let c' := c.execAll syscallErrorStart
    AtStore c c' (c.regs.get a3) ∧ c'.regs.get a0 = c.regs.get a0 ∧
      (Machine.Cond.ne.test (c'.regs.get t1) = true ↔ (c.regs.get a0).toInt < -4095) := by
  intro c'
  let c₁ := c.exec (.alu .add t0 lr (.plain zero))
  have hregs₁ : ∀ r, r ≠ t0 → c₁.regs.get r = c.regs.get r := fun r hr => RegFile.get_set_of_ne hr
  have hregs : ∀ r, r ≠ t1 → c'.regs.get r = c₁.regs.get r := fun r hr => RegFile.get_set_of_ne hr
  have ht0 : c₁.regs.get t0 = c.regs.get lr := by
    show (c.regs.set t0 (c.regs.get lr + (Machine.Src.plain zero).value .add c.regs)).get t0 = _
    rw [RegFile.get_set_self (by decide), Machine.Src.value_plain, RegFile.get_zero]
    exact BitVec.add_zero _
  refine ⟨?_, ?_, ?_⟩
  · exact
      { tp_eq := (hregs tp (by decide)).trans (hregs₁ tp (by decide))
        t0_eq := (hregs t0 (by decide)).trans ht0
        a3_eq := (hregs a3 (by decide)).trans (hregs₁ a3 (by decide))
        mem_eq := rfl }
  · exact (hregs a0 (by decide)).trans (hregs₁ a0 (by decide))
  · have ht1 : c'.regs.get t1 = Machine.AluOp.sltSigned.eval (c.regs.get a0)
        (Machine.AluOp.sltSigned.extend (-4095)) := by
      rw [← hregs₁ a0 (by decide)]
      exact RegFile.get_set_self (by decide)
    rw [Machine.Cond.test_ne_iff, ht1, sltSigned_eval]

theorem depart_syscallErrorStart (hprog : prog.drop start = syscallErrorCode access start)
    (c : State) (fuel : Nat) : depart prog (fuel + 2) start c =
      depart prog fuel (start + 2) (c.execAll syscallErrorStart) := by
  have hdrop : prog.drop start =
      syscallErrorStart.map .op ++ (syscallErrorCode access start).drop 2 := by
    rw [hprog]
    rfl
  rw [Nat.add_comm fuel]
  exact Machine.depart_ops syscallErrorStart hdrop fuel

/-- The negation in between. -/
theorem AtStore.negate {c c' : State} {value : Machine.Word} (h : AtStore c c' value) :
    AtStore c (c'.exec (.alu .sub a3 zero (.plain a0))) (-c'.regs.get a0) := by
  have hregs : ∀ r, r ≠ a3 → (c'.exec (.alu .sub a3 zero (.plain a0))).regs.get r = c'.regs.get r :=
    fun r hr => RegFile.get_set_of_ne hr
  refine ⟨(hregs tp (by decide)).trans h.tp_eq, (hregs t0 (by decide)).trans h.t0_eq, ?_, h.mem_eq⟩
  show (c'.regs.set a3 (c'.regs.get zero - (Machine.Src.plain a0).value .sub c'.regs)).get a3 = _
  rw [RegFile.get_set_self (by decide), RegFile.get_zero, Machine.Src.value_plain, zero_sub]

/-- A result down to -4095 in `a0` becomes `errno`. -/
theorem syscallError_inRange (hprog : prog.drop start = syscallErrorCode access start) {c : State}
    (hrange : -4095 ≤ (c.regs.get a0).toInt) (fuel : Nat) :
    ∃ out, depart prog (fuel + 9) start c = some (.jump (c.regs.get lr) out) ∧
      out.regs.get a3 = -1 ∧ out.mem (access.errno c) = -c.regs.get a0 := by
  have hline := syscallError_line hprog
  obtain ⟨hat, ha0, htest⟩ := syscallErrorStart_spec c
  have hnot : Machine.Cond.ne.test ((c.execAll syscallErrorStart).regs.get t1) = false := by
    rw [← Bool.not_eq_true, htest]
    exact not_lt.2 hrange
  have hat₂ := hat.negate
  rw [ha0] at hat₂
  obtain ⟨out, hdepart, hout⟩ := depart_errnoStore hprog hat₂ fuel
  refine ⟨out, ?_, hout⟩
  rw [← hdepart, depart_syscallErrorStart hprog, Machine.depart_not_taken (hline 2) hnot,
    show start + 2 + 1 = start + 3 from rfl, Machine.depart_op (hline 3)]

/-- Any other result goes to `errno` as it is, where the label of the `adr` is in the way. -/
theorem syscallError_shared (hprog : prog.drop start = syscallErrorCode access start) {c : State}
    (hrange : (c.regs.get a0).toInt < -4095) (hlabel : access.label1 = 4) (fuel : Nat) :
    ∃ out, depart prog (fuel + 9) start c = some (.jump (c.regs.get lr) out) ∧
      out.regs.get a3 = -1 ∧ out.mem (access.errno c) = c.regs.get a3 := by
  have hline := syscallError_line hprog
  obtain ⟨hat, -, htest⟩ := syscallErrorStart_spec c
  obtain ⟨out, hdepart, hout⟩ := depart_errnoStore hprog hat (fuel + 1)
  refine ⟨out, ?_, hout⟩
  rw [← hdepart, depart_syscallErrorStart hprog, Machine.depart_taken (hline 2) (htest.2 hrange),
    hlabel]

/-- In a static program it is returned. -/
theorem syscallError_static {tprel tprelLo : Machine.Word}
    (hprog : prog.drop start = syscallErrorCode (.static tprel tprelLo) start) {c : State}
    (hrange : (c.regs.get a0).toInt < -4095) (fuel : Nat) :
    ∃ out, depart prog (fuel + 9) start c = some (.jump (c.regs.get lr) out) ∧
      out.regs.get a3 = c.regs.get a3 ∧ out.mem = c.mem := by
  have hline := syscallError_line hprog
  obtain ⟨hat, -, htest⟩ := syscallErrorStart_spec c
  refine ⟨c.execAll syscallErrorStart, ?_, hat.a3_eq, hat.mem_eq⟩
  rw [depart_syscallErrorStart hprog, Machine.depart_taken (hline 2) (htest.2 hrange),
    show (ErrnoAccess.static tprel tprelLo).label1 = 8 from rfl, Machine.depart_jump (hline 8)]
  exact congrArg (fun target => some (Departure.jump target _))
    ((BitVec.add_zero _).trans hat.t0_eq)

/-- An error `r` that is in `a3` gets to `errno` by way of `a0`. -/
theorem syscallError_iff (hprog : prog.drop start = syscallErrorCode access start) {c : State}
    {r : Machine.Word} (hr : isError r) (ha3 : c.regs.get a3 = r) (fuel : Nat) :
    (∃ out, depart prog (fuel + 9) start c = some (.jump (c.regs.get lr) out) ∧
        out.regs.get a3 = -1 ∧ out.mem (access.errno c) = -r) ↔
      c.regs.get a0 = r ∨ access.isStatic ∧ (c.regs.get a0).toInt < -4095 ∧ r = -1 ∧
        c.mem (access.errno c) = 1 := by
  by_cases hrange : -4095 ≤ (c.regs.get a0).toInt
  · obtain ⟨out, hdepart, hresult, herrno⟩ := syscallError_inRange hprog hrange fuel
    constructor
    · rintro ⟨out', hdepart', -, herrno'⟩
      rw [hdepart, Option.some.injEq, Departure.jump.injEq] at hdepart'
      obtain ⟨-, rfl⟩ := hdepart'
      exact .inl (neg_injective (herrno.symm.trans herrno'))
    · rintro (ha0 | ⟨-, hlow, -⟩)
      · exact ⟨out, hdepart, hresult, ha0 ▸ herrno⟩
      · exact absurd hlow (not_lt.2 hrange)
  · have hlow := not_le.1 hrange
    have hne : c.regs.get a0 ≠ r := fun ha0 => hrange (ha0 ▸ hr.1)
    cases hstatic : access.isStatic with
    | false =>
      have hlabel : access.label1 = 4 := by
        cases access with
        | rtld _ _ => rfl
        | pic _ _ => rfl
        | static _ _ => cases hstatic
      obtain ⟨out, hdepart, -, herrno⟩ := syscallError_shared hprog hlow hlabel fuel
      constructor
      · rintro ⟨out', hdepart', -, herrno'⟩
        rw [hdepart, Option.some.injEq, Departure.jump.injEq] at hdepart'
        obtain ⟨-, rfl⟩ := hdepart'
        -- The store is of the result, not of its negation.
        exact absurd (ha3.symm.trans (herrno.symm.trans herrno')) hr.ne_neg
      · rintro (ha0 | ⟨hstatic, -⟩)
        · exact absurd ha0 hne
        · cases hstatic
    | true =>
      cases access with
      | rtld _ _ => cases hstatic
      | pic _ _ => cases hstatic
      | static tprel tprelLo =>
        obtain ⟨out, hdepart, hresult, hmem⟩ := syscallError_static hprog hlow fuel
        constructor
        · rintro ⟨out', hdepart', hresult', herrno'⟩
          rw [hdepart, Option.some.injEq, Departure.jump.injEq] at hdepart'
          obtain ⟨-, rfl⟩ := hdepart'
          have hone : r = -1 := ha3.symm.trans (hresult.symm.trans hresult')
          rw [hmem, hone, neg_neg] at herrno'
          exact .inr ⟨rfl, hlow, hone, herrno'⟩
        · rintro (ha0 | ⟨-, -, hone, herrno⟩)
          · exact absurd ha0 hne
          · refine ⟨out, hdepart, hresult.trans (ha3.trans hone), ?_⟩
            rw [hmem, hone, neg_neg]
            exact herrno

/-- In every case control goes to where `lr` says. -/
theorem syscallError_jumps (hprog : prog.drop start = syscallErrorCode access start) (c : State)
    (fuel : Nat) : ∃ out, depart prog (fuel + 9) start c = some (.jump (c.regs.get lr) out) := by
  by_cases hrange : -4095 ≤ (c.regs.get a0).toInt
  · obtain ⟨out, hdepart, -⟩ := syscallError_inRange hprog hrange fuel
    exact ⟨out, hdepart⟩
  · rw [not_le] at hrange
    cases access with
    | rtld _ _ =>
      obtain ⟨out, hdepart, -⟩ := syscallError_shared hprog hrange rfl fuel
      exact ⟨out, hdepart⟩
    | pic _ _ =>
      obtain ⟨out, hdepart, -⟩ := syscallError_shared hprog hrange rfl fuel
      exact ⟨out, hdepart⟩
    | static _ _ =>
      obtain ⟨out, hdepart, -⟩ := syscallError_static hprog hrange fuel
      exact ⟨out, hdepart⟩

end

/-! ## `__clone` -/

/-- The memory once the function and its argument are at the top of the new stack. -/
def onNewStack (c : State) : Machine.Word → Machine.Word :=
  Function.update (Function.update c.mem (c.regs.get a1 - 8) (c.regs.get a0))
    (c.regs.get a1 - 8 + 4) (c.regs.get a3)

/-- The registers at the `sys` of `__clone`. -/
structure AtSysClone (c c' : State) : Prop where
  t5_eq : c'.regs.get t5 = nrClone
  a0_eq : c'.regs.get a0 = c.regs.get a2
  a1_eq : c'.regs.get a1 = c.regs.get a1 - 8
  a2_eq : c'.regs.get a2 = onNewStack c (c.regs.get sp)
  a3_eq : c'.regs.get a3 = onNewStack c (c.regs.get sp + 4)
  t0_eq : c'.regs.get t0 = onNewStack c (c.regs.get sp + 8)
  mem_eq : c'.mem = onNewStack c
  kept : ∀ r, r ∉ [a0, a1, a2, a3, t0, t5] → c'.regs.get r = c.regs.get r

theorem cloneOps_spec (c : State) : AtSysClone c (c.execAll cloneOps) := by
  let c₁ := c.execAll (cloneOps.take 3)
  have hregs₁ : ∀ r, r ≠ a1 → c₁.regs.get r = c.regs.get r := fun r hr => RegFile.get_set_of_ne hr
  have ha1 : c₁.regs.get a1 = c.regs.get a1 - 8 := RegFile.get_set_self (by decide)
  have hmem : c₁.mem = onNewStack c := by
    show Function.update (Function.update c.mem (c₁.regs.get a1 + 0) (c₁.regs.get a0))
      (c₁.regs.get a1 + 4) (c₁.regs.get a3) = _
    rw [ha1, hregs₁ a0 (by decide), hregs₁ a3 (by decide), add_zero]
    rfl
  -- What comes after the stores changes registers only.
  obtain ⟨regs, hregs, hrest⟩ : ∃ regs : RegFile,
      c.execAll cloneOps = { c₁ with regs } ∧
        regs = ((((c₁.regs.set a0 (c₁.regs.get a2 + c₁.regs.get zero)).set a2
          (c₁.mem (c₁.regs.get sp + 0))).set a3 (c₁.mem (c₁.regs.get sp + 4))).set t0
          (c₁.mem (c₁.regs.get sp + 8))).set t5 (0 + 220) := by
    refine ⟨_, rfl, ?_⟩
    simp (disch := decide) only [State.exec, State.setReg, RegFile.get_set_of_ne,
      Machine.Src.value_plain]
    rfl
  rw [hregs, hrest]
  exact
    { t5_eq := RegFile.get_set_self (by decide)
      a0_eq := by
        simp (disch := decide) only [RegFile.get_set_of_ne, RegFile.get_set_self, RegFile.get_zero,
          hregs₁, add_zero]
      a1_eq := by
        simp (disch := decide) only [RegFile.get_set_of_ne]
        exact ha1
      a2_eq := by
        simp (disch := decide) only [RegFile.get_set_of_ne, RegFile.get_set_self, hmem, hregs₁,
          add_zero]
      a3_eq := by
        simp (disch := decide) only [RegFile.get_set_of_ne, RegFile.get_set_self, hmem, hregs₁]
      t0_eq := by
        simp (disch := decide) only [RegFile.get_set_of_ne, RegFile.get_set_self, hmem, hregs₁]
      mem_eq := hmem
      kept := fun r hr => by
        simp only [List.mem_cons, List.not_mem_nil, or_false, not_or] at hr
        obtain ⟨h0, h1, h2, h3, ht0, ht5⟩ := hr
        simp only [RegFile.get_set_of_ne ht5, RegFile.get_set_of_ne ht0, RegFile.get_set_of_ne h3,
          RegFile.get_set_of_ne h2, RegFile.get_set_of_ne h0, hregs₁ r h1] }

section
variable {access : ErrnoAccess} {t1Value : Machine.Word}

theorem cloneCode_drop (access : ErrnoAccess) (t1Value : Machine.Word) :
    (cloneCode access t1Value).drop 23 = syscallErrorCode access 23 := rfl

theorem cloneCode_length : ∃ n, (cloneCode access t1Value).length = n + 31 := by
  cases access <;> exact ⟨_, rfl⟩

theorem depart_cloneSys {c : State} (hfn : c.regs.get a0 ≠ 0) (hstack : c.regs.get a1 ≠ 0)
    (fuel : Nat) : depart (cloneCode access t1Value) (fuel + 11) 0 c =
      some (.sys 11 (c.execAll cloneOps)) := by
  have hfn' : Machine.Cond.eq.test (c.regs.get a0) = false := by
    rwa [← Bool.not_eq_true, Machine.Cond.test_eq_iff]
  have hstack' : Machine.Cond.eq.test (c.regs.get a1) = false := by
    rwa [← Bool.not_eq_true, Machine.Cond.test_eq_iff]
  have hops := @Machine.depart_ops (cloneCode access t1Value) cloneOps _ 2 c rfl (fuel + 1)
  rw [Machine.depart_not_taken rfl hfn', Machine.depart_not_taken rfl hstack']
  rw [show cloneOps.length + (fuel + 1) = fuel + 9 by rw [Nat.add_comm]; rfl] at hops
  rw [hops]
  exact Machine.depart_sys rfl

/-- A null pointer does not get to the `sys`. -/
theorem depart_cloneInvalid {c : State} (h : c.regs.get a0 = 0 ∨ c.regs.get a1 = 0) (fuel : Nat) :
    ∃ target out, depart (cloneCode access t1Value) (fuel + 14) 0 c = some (.jump target out) := by
  -- From `L (invalid)` on.
  have hinvalid : ∀ fuel c, ∃ target out,
      depart (cloneCode access t1Value) (fuel + 12) 14 c = some (.jump target out) := by
    intro fuel c
    rw [Machine.depart_op rfl, Machine.depart_op rfl, Machine.depart_goto rfl]
    obtain ⟨out, hout⟩ := syscallError_jumps (cloneCode_drop access t1Value) _ fuel
    exact ⟨_, out, hout⟩
  cases hfn : Machine.Cond.eq.test (c.regs.get a0) with
  | true =>
    rw [Machine.depart_taken rfl hfn]
    exact hinvalid (fuel + 1) c
  | false =>
    have hstack : Machine.Cond.eq.test (c.regs.get a1) = true := by
      rw [← Bool.not_eq_true, Machine.Cond.test_eq_iff] at hfn
      exact (Machine.Cond.test_eq_iff _).2 (h.resolve_left hfn)
    rw [Machine.depart_not_taken rfl hfn, Machine.depart_taken rfl hstack]
    exact hinvalid fuel c

theorem depart_cloneError {c : State} (h : (c.regs.get a3).toInt < 0) (fuel : Nat) :
    depart (cloneCode access t1Value) (fuel + 12) 11 c =
      depart (cloneCode access t1Value) (fuel + 9) 23 (c.setReg t1 t1Value) := by
  rw [Machine.depart_taken rfl ((Machine.Cond.test_lt_iff _).2 h), Machine.depart_op rfl,
    Machine.depart_goto rfl]
  rfl

theorem depart_cloneChild {c : State} (h : c.regs.get a3 = 0) (fuel : Nat) :
    ∃ out, depart (cloneCode access t1Value) (fuel + 5) 11 c =
        some (.call (c.mem (c.regs.get sp)) 20 out) ∧
      out.regs.get a0 = c.mem (c.regs.get sp + 4) := by
  have hlt : Machine.Cond.lt.test (c.regs.get a3) = false := by
    rw [h]
    rfl
  have heq : Machine.Cond.eq.test (c.regs.get a3) = true := (Machine.Cond.test_eq_iff _).2 h
  let c₁ := c.exec (.load a1 sp 0)
  let c₂ := c₁.exec (.load a0 sp 4)
  have ha1 : c₂.regs.get a1 = c.mem (c.regs.get sp) := by
    refine (RegFile.get_set_of_ne (by decide)).trans ((RegFile.get_set_self (by decide)).trans ?_)
    rw [add_zero]
  have ha0 : c₂.regs.get a0 = c.mem (c.regs.get sp + 4) := by
    refine (RegFile.get_set_self (by decide)).trans ?_
    show c.mem (c₁.regs.get sp + 4) = _
    rw [show c₁.regs.get sp = c.regs.get sp from RegFile.get_set_of_ne (by decide)]
  refine ⟨c₂, ?_, ha0⟩
  rw [Machine.depart_not_taken rfl hlt, Machine.depart_taken rfl heq, Machine.depart_op rfl,
    Machine.depart_op rfl, Machine.depart_call rfl, ← ha1]

theorem depart_cloneParent {c : State} (h : 0 < (c.regs.get a3).toInt) (fuel : Nat) :
    depart (cloneCode access t1Value) (fuel + 3) 11 c = some (.jump (c.regs.get lr) c) := by
  have hlt : Machine.Cond.lt.test (c.regs.get a3) = false := by
    rw [← Bool.not_eq_true, Machine.Cond.test_lt_iff]
    exact not_lt.2 h.le
  have heq : Machine.Cond.eq.test (c.regs.get a3) = false := by
    rw [← Bool.not_eq_true, Machine.Cond.test_eq_iff]
    intro hzero
    rw [hzero] at h
    exact absurd h (by decide)
  rw [Machine.depart_not_taken rfl hlt, Machine.depart_not_taken rfl heq, Machine.depart_jump rfl,
    add_zero]

/-- The way out of the child, whatever its function leaves behind. -/
theorem depart_cloneExit (back : State) (fuel : Nat) :
    ∃ out, depart (cloneCode access t1Value) (fuel + 3) 20 back = some (.sys 23 out) ∧
      out.regs.get t5 = nrExit ∧ out.regs.get a0 = back.regs.get a3 := by
  let c₁ := back.exec (.alu .add t5 zero (.imm 93))
  let c₂ := c₁.exec (.alu .add a0 a3 (.plain zero))
  refine ⟨c₂, ?_, ?_, ?_⟩
  · rw [Machine.depart_op rfl, Machine.depart_op rfl, Machine.depart_sys rfl]
  · exact (RegFile.get_set_of_ne (by decide)).trans (RegFile.get_set_self (by decide))
  · show (c₁.regs.set a0 (c₁.regs.get a3 + (Machine.Src.plain zero).value .add c₁.regs)).get a0 = _
    rw [RegFile.get_set_self (by decide), Machine.Src.value_plain, RegFile.get_zero, add_zero]
    exact RegFile.get_set_of_ne (by decide)

end

/-- When `__clone` called at `c` is right for the result `r`. -/
structure CloneHolds (access : ErrnoAccess) (c : State) (r : Machine.Word) : Prop where
  fn_ne : c.regs.get a0 ≠ 0
  stack_ne : c.regs.get a1 ≠ 0
  parentTid : onNewStack c (c.regs.get sp) = c.mem (c.regs.get sp)
  /-- Off the new stack, the thread pointer and the child's id pointer are the same. -/
  childTid : onNewStack c (c.regs.get sp + 4) = c.mem (c.regs.get sp + 8)
  tls : onNewStack c (c.regs.get sp + 8) = c.mem (c.regs.get sp + 4)
  /-- The kernel takes a null stack pointer for the caller's. -/
  child : r = 0 → c.regs.get a1 - 8 = 0 →
    onNewStack c (c.regs.get sp) = c.regs.get a0 ∧ onNewStack c (c.regs.get sp + 4) = c.regs.get a3
  /-- It is the flags that are taken for the result. -/
  error : isError r → c.regs.get a2 = r ∨
    access.isStatic ∧ (c.regs.get a2).toInt < -4095 ∧ r = -1 ∧
      onNewStack c (access.errno { c with mem := onNewStack c }) = 1

theorem ErrnoAccess.errno_congr (access : ErrnoAccess) {c c' : State} (hmem : c'.mem = c.mem)
    (htp : c'.regs.get tp = c.regs.get tp) : access.errno c' = access.errno c := by
  cases access with
  | rtld _ _ => rfl
  | pic slot _ =>
    show c'.mem slot + c'.regs.get tp = _
    rw [hmem, htp]
    rfl
  | static tprel _ =>
    show tprel + c'.regs.get tp = _
    rw [htp]
    rfl

/-- The kernel's answer in the simplest case. -/
theorem kernelReturns_setReg {newsp : Machine.Word} (c : State) {r : Machine.Word}
    (hr : r = 0 → newsp = 0) : KernelReturns newsp c r (c.setReg a3 r) :=
  { result := State.setReg_get_self c r (by decide)
    kept := fun _ hreg _ => State.setReg_get_of_ne c r hreg
    child_sp := fun hzero => by
      rw [if_pos (hr hzero)]
      exact State.setReg_get_of_ne c r (by decide)
    child_mem := fun _ => ⟨rfl, rfl⟩
    error_mem := fun _ => rfl }

theorem calleeSaved_kept : ∀ r ∈ calleeSaved, r ∉ [a0, a1, a2, a3, t0, t5] := by decide

/-- What the words at the top of the new stack are. -/
theorem onNewStack_top (c : State) :
    onNewStack c (c.regs.get a1 - 8) = c.regs.get a0 ∧
      onNewStack c (c.regs.get a1 - 8 + 4) = c.regs.get a3 := by
  have hne : c.regs.get a1 - 8 ≠ c.regs.get a1 - 8 + 4 := by
    intro heq
    rw [left_eq_add] at heq
    exact absurd heq (by decide)
  exact ⟨(Function.update_of_ne hne _ _).trans (Function.update_self _ _ _),
    Function.update_self _ _ _⟩

theorem CloneCorrect.holds {access : ErrnoAccess} {t1Value r : Machine.Word} {c : State}
    (h : CloneCorrect access t1Value c r) : CloneHolds access c r := by
  obtain ⟨n, hlen⟩ := @cloneCode_length access t1Value
  obtain ⟨next, c₁, hdepart, -, hargs, hfinishes⟩ := h
  have hnull : ¬ (c.regs.get a0 = 0 ∨ c.regs.get a1 = 0) := by
    intro hnull
    obtain ⟨target, out, hjump⟩ := @depart_cloneInvalid access t1Value c hnull (n + 17)
    rw [hlen, hjump] at hdepart
    cases hdepart
  rw [not_or] at hnull
  have hsys := @depart_cloneSys access t1Value c hnull.1 hnull.2 (n + 20)
  rw [hlen, hsys, Option.some.injEq, Departure.sys.injEq] at hdepart
  obtain ⟨rfl, rfl⟩ := hdepart
  have hspec := cloneOps_spec c
  have hmem := hspec.mem_eq
  have hlr : (c.execAll cloneOps).regs.get lr = c.regs.get lr := hspec.kept lr (by decide)
  have hsp : (c.execAll cloneOps).regs.get sp = c.regs.get sp := hspec.kept sp (by decide)
  have htp : (c.execAll cloneOps).regs.get tp = c.regs.get tp := hspec.kept tp (by decide)
  have ha0 := hspec.a0_eq
  have ha1 := hspec.a1_eq
  have hargs' : sysClone (c.execAll cloneOps) = ⟨c.regs.get a2, c.regs.get a1 - 8,
      onNewStack c (c.regs.get sp), onNewStack c (c.regs.get sp + 4),
      onNewStack c (c.regs.get sp + 8)⟩ := by
    rw [sysClone, hspec.a0_eq, hspec.a1_eq, hspec.a2_eq, hspec.a3_eq, hspec.t0_eq]
  rw [hargs', SysClone.mk.injEq] at hargs
  obtain ⟨-, -, hparent, hchild, htls⟩ := hargs
  rw [hargs'] at hfinishes
  -- From here on the `sys` is all that matters of the code before it.
  generalize c.execAll cloneOps = c₁ at hmem hlr hsp htp ha0 ha1 hfinishes
  refine ⟨hnull.1, hnull.2, hparent, hchild, htls, ?_, ?_⟩
  · rintro rfl hnewsp
    have hcall := (hfinishes _ (kernelReturns_setReg c₁ fun _ => hnewsp)).child rfl
    obtain ⟨next', out, hcall, harg, -⟩ := hcall
    have hzero : (c₁.setReg a3 0).regs.get a3 = 0 := State.setReg_get_self c₁ 0 (by decide)
    obtain ⟨out', hcall', harg'⟩ := @depart_cloneChild access t1Value _ hzero (n + 26)
    have hsp' : (c₁.setReg a3 0).regs.get sp = c.regs.get sp :=
      (State.setReg_get_of_ne c₁ 0 (by decide)).trans hsp
    rw [hlen, hcall', Option.some.injEq, Departure.call.injEq] at hcall
    obtain ⟨htarget, -, rfl⟩ := hcall
    rw [hsp', State.setReg_mem, hmem] at htarget harg'
    exact ⟨htarget, harg'.symm.trans harg⟩
  · intro hr
    have herror := (hfinishes _ (kernelReturns_setReg c₁ fun hzero => absurd hzero hr.ne_zero)).error
      hr
    have hresult : (c₁.setReg a3 r).regs.get a3 = r := State.setReg_get_self c₁ r (by decide)
    have hother : ∀ reg, reg ≠ a3 → reg ≠ t1 →
        ((c₁.setReg a3 r).setReg t1 t1Value).regs.get reg = c₁.regs.get reg := fun reg ha3 ht1 =>
      (State.setReg_get_of_ne _ _ ht1).trans (State.setReg_get_of_ne _ _ ha3)
    have herrno : access.errno (c₁.setReg a3 r) =
        access.errno ((c₁.setReg a3 r).setReg t1 t1Value) :=
      (access.errno_congr rfl (State.setReg_get_of_ne _ _ (by decide))).symm
    have herrno' : access.errno ((c₁.setReg a3 r).setReg t1 t1Value) =
        access.errno { c with mem := onNewStack c } :=
      access.errno_congr hmem ((hother tp (by decide) (by decide)).trans htp)
    have hstart := @depart_cloneError access t1Value (c₁.setReg a3 r) (hresult.symm ▸ hr.2) (n + 19)
    rw [hlen, hstart, herrno, ← hlr, ← hother lr (by decide) (by decide)] at herror
    have hcases := (syscallError_iff (cloneCode_drop access t1Value) hr
      ((State.setReg_get_of_ne _ _ (by decide)).trans hresult) (n + 19)).1 herror
    rw [hother a0 (by decide) (by decide), ha0, herrno'] at hcases
    rw [State.setReg_mem, State.setReg_mem, hmem] at hcases
    exact hcases

theorem CloneHolds.correct {access : ErrnoAccess} {t1Value r : Machine.Word} {c : State}
    (h : CloneHolds access c r) : CloneCorrect access t1Value c r := by
  obtain ⟨n, hlen⟩ := @cloneCode_length access t1Value
  have hspec := cloneOps_spec c
  have hargs : sysClone (c.execAll cloneOps) = ⟨c.regs.get a2, c.regs.get a1 - 8,
      c.mem (c.regs.get sp), c.mem (c.regs.get sp + 8), c.mem (c.regs.get sp + 4)⟩ := by
    rw [sysClone, hspec.a0_eq, hspec.a1_eq, hspec.a2_eq, hspec.a3_eq, hspec.t0_eq, h.parentTid,
      h.childTid, h.tls]
  refine ⟨11, c.execAll cloneOps, ?_, hspec.t5_eq, hargs, ?_⟩
  · rw [hlen]
    exact depart_cloneSys h.fn_ne h.stack_ne (n + 20)
  rw [hargs]
  intro c₂ hreturns
  generalize c.execAll cloneOps = c₁ at hspec hreturns
  have hlr : c₂.regs.get lr = c.regs.get lr :=
    (hreturns.kept lr (by decide) fun _ => by decide).trans (hspec.kept lr (by decide))
  refine ⟨fun hr => ?_, fun hr => ?_, fun hr => ?_⟩
  · have hne := hr.ne_zero
    have hregs : ∀ reg, reg ≠ a3 → reg ≠ t1 →
        (c₂.setReg t1 t1Value).regs.get reg = c₁.regs.get reg := fun reg ha3 ht1 =>
      (State.setReg_get_of_ne _ _ ht1).trans (hreturns.kept reg ha3 fun hzero => absurd hzero hne)
    have ha3 : (c₂.setReg t1 t1Value).regs.get a3 = r :=
      (State.setReg_get_of_ne _ _ (by decide)).trans hreturns.result
    have hmem : (c₂.setReg t1 t1Value).mem = onNewStack c :=
      (hreturns.error_mem hr).trans hspec.mem_eq
    have htp : (c₂.setReg t1 t1Value).regs.get tp = c₂.regs.get tp :=
      State.setReg_get_of_ne _ _ (by decide)
    have herrno : access.errno c₂ = access.errno (c₂.setReg t1 t1Value) :=
      (access.errno_congr rfl htp).symm
    have herrno' : access.errno (c₂.setReg t1 t1Value) =
        access.errno { c with mem := onNewStack c } :=
      access.errno_congr hmem
        ((hregs tp (by decide) (by decide)).trans (hspec.kept tp (by decide)))
    have hcases : (c₂.setReg t1 t1Value).regs.get a0 = r ∨ access.isStatic ∧
        ((c₂.setReg t1 t1Value).regs.get a0).toInt < -4095 ∧ r = -1 ∧
          (c₂.setReg t1 t1Value).mem (access.errno (c₂.setReg t1 t1Value)) = 1 := by
      rw [hregs a0 (by decide) (by decide), hspec.a0_eq, herrno', hmem]
      exact h.error hr
    have hout := (syscallError_iff (cloneCode_drop access t1Value) hr ha3 (n + 19)).2 hcases
    have hlr' : (c₂.setReg t1 t1Value).regs.get lr = c.regs.get lr :=
      (State.setReg_get_of_ne _ _ (by decide)).trans hlr
    have hstart := @depart_cloneError access t1Value c₂ (hreturns.result.symm ▸ hr.2) (n + 19)
    rw [hlen, hstart, herrno, ← hlr']
    exact hout
  · subst hr
    obtain ⟨hfn, harg⟩ : c₂.mem (c₂.regs.get sp) = c.regs.get a0 ∧
        c₂.mem (c₂.regs.get sp + 4) = c.regs.get a3 := by
      rw [(hreturns.child_mem rfl).1, (hreturns.child_mem rfl).2, hspec.mem_eq,
        hreturns.child_sp rfl, hspec.kept sp (by decide)]
      by_cases hnewsp : c.regs.get a1 - 8 = 0
      · rw [if_pos hnewsp]
        exact h.child rfl hnewsp
      · rw [if_neg hnewsp]
        exact onNewStack_top c
    obtain ⟨out, hcall, ha0⟩ := @depart_cloneChild access t1Value c₂ hreturns.result (n + 26)
    refine ⟨20, out, ?_, ha0.trans harg, fun back => ?_⟩
    · rw [hlen, ← hfn]
      exact hcall
    · obtain ⟨out', hexit, hnumber, hvalue⟩ := @depart_cloneExit access t1Value back (n + 28)
      exact ⟨23, out', hlen ▸ hexit, hnumber, hvalue⟩
  · have hne : r ≠ 0 := by
      rintro rfl
      exact absurd hr (by decide)
    refine ⟨c₂, ?_, hreturns.result, fun reg hreg => ?_⟩
    · rw [hlen, ← hlr]
      exact depart_cloneParent (hreturns.result.symm ▸ hr) (n + 28)
    · exact (hreturns.kept reg (calleeSaved_ne reg hreg).2.2 fun hzero => absurd hzero hne).trans
        (hspec.kept reg (calleeSaved_kept reg hreg))

/-! ## `__clone3` -/

/-- When `__clone3` called at `c` is right for the result `r`. -/
structure Clone3Holds (access : ErrnoAccess) (c : State) (r : Machine.Word) : Prop where
  args_ne : c.regs.get a0 ≠ 0
  fn_ne : c.regs.get a2 ≠ 0
  /-- The new task is not told from its parent. -/
  parent : r ≠ 0
  /-- Neither is an error told from the number of a new task. -/
  error : isError r → r = -1 ∧ c.mem (access.errno c) = 1

section
variable {access : ErrnoAccess} {t1Value : Machine.Word}

theorem clone3Code_drop (access : ErrnoAccess) (t1Value : Machine.Word) :
    (clone3Code access t1Value).drop 16 = syscallErrorCode access 16 := rfl

theorem clone3Code_length : ∃ n, (clone3Code access t1Value).length = n + 24 := by
  cases access <;> exact ⟨_, rfl⟩

theorem depart_clone3Sys {c : State} (hargs : c.regs.get a0 ≠ 0) (hfn : c.regs.get a2 ≠ 0)
    (fuel : Nat) : depart (clone3Code access t1Value) (fuel + 4) 0 c =
      some (.sys 4 (c.setReg t5 nrClone3)) := by
  have hargs' : Machine.Cond.eq.test (c.regs.get a0) = false := by
    rwa [← Bool.not_eq_true, Machine.Cond.test_eq_iff]
  have hfn' : Machine.Cond.eq.test (c.regs.get a2) = false := by
    rwa [← Bool.not_eq_true, Machine.Cond.test_eq_iff]
  rw [Machine.depart_not_taken rfl hargs', Machine.depart_not_taken rfl hfn', Machine.depart_op rfl,
    Machine.depart_sys rfl]
  have hexec : c.exec (.alu .add t5 zero (.imm 435)) = c.setReg t5 nrClone3 := by
    show c.setReg t5 (c.regs.get zero + 435) = _
    rw [RegFile.get_zero, zero_add]
    rfl
  rw [hexec]

theorem depart_clone3Invalid {c : State} (h : c.regs.get a0 = 0 ∨ c.regs.get a2 = 0) (fuel : Nat) :
    ∃ target out, depart (clone3Code access t1Value) (fuel + 15) 0 c = some (.jump target out) := by
  have hinvalid : ∀ fuel c, ∃ target out,
      depart (clone3Code access t1Value) (fuel + 13) 7 c = some (.jump target out) := by
    intro fuel c
    rw [Machine.depart_op rfl, Machine.depart_op rfl, Machine.depart_op rfl,
      Machine.depart_goto rfl]
    obtain ⟨out, hout⟩ := syscallError_jumps (clone3Code_drop access t1Value) _ fuel
    exact ⟨_, out, hout⟩
  cases hargs : Machine.Cond.eq.test (c.regs.get a0) with
  | true =>
    rw [Machine.depart_taken rfl hargs]
    exact hinvalid (fuel + 1) c
  | false =>
    have hfn : Machine.Cond.eq.test (c.regs.get a2) = true := by
      rw [← Bool.not_eq_true, Machine.Cond.test_eq_iff] at hargs
      exact (Machine.Cond.test_eq_iff _).2 (h.resolve_left hargs)
    rw [Machine.depart_not_taken rfl hargs, Machine.depart_taken rfl hfn]
    exact hinvalid fuel c

/-- It is the number of the call that is tested, so control goes to the caller every time. -/
theorem depart_clone3Back {c : State} (h : c.regs.get t5 = nrClone3) (fuel : Nat) :
    depart (clone3Code access t1Value) (fuel + 3) 4 c = some (.jump (c.regs.get lr) c) := by
  have hlt : Machine.Cond.lt.test (c.regs.get t5) = false := by
    rw [h]
    decide
  have heq : Machine.Cond.eq.test (c.regs.get t5) = false := by
    rw [h]
    decide
  rw [Machine.depart_not_taken rfl hlt, Machine.depart_not_taken rfl heq, Machine.depart_jump rfl,
    add_zero]

end

theorem Clone3Correct.holds {access : ErrnoAccess} {t1Value r : Machine.Word} {c : State}
    (h : Clone3Correct access t1Value c r) : Clone3Holds access c r := by
  obtain ⟨n, hlen⟩ := @clone3Code_length access t1Value
  obtain ⟨next, c₁, hdepart, -, -, -, hfinishes⟩ := h
  have hnull : ¬ (c.regs.get a0 = 0 ∨ c.regs.get a2 = 0) := by
    intro hnull
    obtain ⟨target, out, hjump⟩ := @depart_clone3Invalid access t1Value c hnull (n + 9)
    rw [hlen, hjump] at hdepart
    cases hdepart
  rw [not_or] at hnull
  have hsys := @depart_clone3Sys access t1Value c hnull.1 hnull.2 (n + 20)
  rw [hlen, hsys, Option.some.injEq, Departure.sys.injEq] at hdepart
  obtain ⟨rfl, rfl⟩ := hdepart
  have hregs : ∀ reg, reg ≠ a3 → reg ≠ t5 →
      ((c.setReg t5 nrClone3).setReg a3 r).regs.get reg = c.regs.get reg := fun reg ha3 ht5 =>
    (State.setReg_get_of_ne _ _ ha3).trans (State.setReg_get_of_ne _ _ ht5)
  have hfin := hfinishes 0 _ (kernelReturns_setReg (r := r) _ fun _ => rfl)
  have ht5 : ((c.setReg t5 nrClone3).setReg a3 r).regs.get t5 = nrClone3 :=
    (State.setReg_get_of_ne _ _ (by decide)).trans (State.setReg_get_self _ _ (by decide))
  have hback := @depart_clone3Back access t1Value _ ht5 (n + 21)
  refine ⟨hnull.1, hnull.2, ?_, ?_⟩
  · rintro rfl
    obtain ⟨next', out, hcall, -⟩ := hfin.child rfl
    rw [hlen, hback] at hcall
    cases hcall
  · intro hr
    obtain ⟨out, hjump, hresult, herrno⟩ := hfin.error hr
    rw [hlen, hback, Option.some.injEq, Departure.jump.injEq] at hjump
    obtain ⟨-, rfl⟩ := hjump
    have hr' : ((c.setReg t5 nrClone3).setReg a3 r).regs.get a3 = r :=
      State.setReg_get_self _ _ (by decide)
    have hone : r = -1 := hr'.symm.trans hresult
    rw [access.errno_congr rfl (hregs tp (by decide) (by decide)), hone, neg_neg] at herrno
    exact ⟨hone, herrno⟩

theorem Clone3Holds.correct {access : ErrnoAccess} {t1Value r : Machine.Word} {c : State}
    (h : Clone3Holds access c r) : Clone3Correct access t1Value c r := by
  obtain ⟨n, hlen⟩ := @clone3Code_length access t1Value
  refine ⟨4, c.setReg t5 nrClone3, ?_, State.setReg_get_self _ _ (by decide),
    State.setReg_get_of_ne _ _ (by decide), State.setReg_get_of_ne _ _ (by decide), ?_⟩
  · rw [hlen]
    exact depart_clone3Sys h.args_ne h.fn_ne (n + 20)
  intro newsp c₂ hreturns
  have hregs : ∀ reg, reg ≠ a3 → reg ≠ t5 → c₂.regs.get reg = c.regs.get reg := fun reg ha3 ht5 =>
    (hreturns.kept reg ha3 fun hzero => absurd hzero h.parent).trans
      (State.setReg_get_of_ne _ _ ht5)
  have ht5 : c₂.regs.get t5 = nrClone3 :=
    (hreturns.kept t5 (by decide) fun hzero => absurd hzero h.parent).trans
      (State.setReg_get_self _ _ (by decide))
  have hback : depart (clone3Code access t1Value) (clone3Code access t1Value).length 4 c₂ =
      some (.jump (c.regs.get lr) c₂) := by
    rw [hlen, ← hregs lr (by decide) (by decide)]
    exact depart_clone3Back ht5 (n + 21)
  refine ⟨fun hr => ?_, fun hr => absurd hr h.parent, fun _ => ?_⟩
  · obtain ⟨hone, herrno⟩ := h.error hr
    have hmem : c₂.mem = c.mem := hreturns.error_mem hr
    refine ⟨c₂, hback, hreturns.result.trans hone, ?_⟩
    rw [access.errno_congr hmem (hregs tp (by decide) (by decide)), hmem, hone, neg_neg]
    exact herrno
  · refine ⟨c₂, hback, hreturns.result, fun reg hreg => hregs reg (calleeSaved_ne reg hreg).2.2 ?_⟩
    revert reg
    decide

/-- When the two wrappers are right. `__clone` passes the thread pointer and the child's id pointer
in each other's places and the flags as the error; `__clone3` tests the number of the call for the
result. -/
theorem cloneWrappers_correct_iff (access : ErrnoAccess) (t1Value : Machine.Word) (c : State)
    (r : Machine.Word) :
    (CloneCorrect access t1Value c r ↔ CloneHolds access c r) ∧
      (Clone3Correct access t1Value c r ↔ Clone3Holds access c r) :=
  ⟨⟨CloneCorrect.holds, CloneHolds.correct⟩, ⟨Clone3Correct.holds, Clone3Holds.correct⟩⟩

/-- A call with its three last arguments at `0x7000`: the thread pointer is `0x5000` and the child's
id goes to `0x6004`. -/
def demoClone : State :=
  { regs := ⟨fun r => if r = a0 then 0x400 else if r = a1 then 0x8000 else if r = a2 then 0x3d0f00
      else if r = a3 then 0x1234 else if r = sp then 0x7000 else 0⟩
    mem := fun addr => if addr = 0x7000 then 0x6000 else if addr = 0x7004 then 0x5000
      else if addr = 0x7008 then 0x6004 else 0 }

/-- `__clone` gives the kernel the two in each other's places, and the new task of `__clone3`
returns to the caller. -/
theorem cloneWrappers_demo_wrong :
    ¬ CloneCorrect (.rtld 0 0) 0 demoClone 42 ∧ ¬ Clone3Correct (.rtld 0 0) 0 demoClone 0 :=
  ⟨fun h => absurd h.holds.childTid (by decide), fun h => h.holds.parent rfl⟩

end XrLinux.Glibc
