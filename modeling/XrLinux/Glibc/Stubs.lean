import XrLinux.Glibc.Clone

/-!
# glibc — the stubs of system calls

`PSEUDO` and `PSEUDO_END` of `sysdep.h`, with `ret` between them, and `sysdep.S`. In `libc` the stubs
go to `__syscall_error` with an error, elsewhere they have the code for `errno` themselves. The
kernel comes in by the registers after `sys`, of which only `a3` has changed.

The stubs tell the results apart by themselves, and go on with errors only. `__syscall_error` looks
again, and there `1f` is the label of the `adr` in a shared object or in `ld.so`.
-/

namespace XrLinux.Glibc.Stub

open Machine (Reg RegFile State Op Line Departure depart zero lr)
open Linux

/-! ## The stubs -/

/-- The arguments on the stack, for `args` of them in all. -/
def stackArgs (args : Nat) : List Op :=
  (if args ≥ 5 then [.load t0 sp 0] else []) ++ if args ≥ 6 then [.load t1 sp 4] else []

/-- `PSEUDO (name, syscall_name, args)`, and `ret`. The label `1` is that of `ret`, and what follows
is `.Lsyscall_error`. -/
def pseudo (args : Nat) (nr : BitVec 16) : List Line :=
  let start := (stackArgs args).length
  (stackArgs args).map .op ++
    [.op (.alu .add t5 zero (.imm nr)), .sys, .branch .ge a3 (start + 5),
      .op (.alu .add t5 a3 (.imm 4096)), .branch .gt t5 (start + 6), .jump lr 0]

/-- The store of `a3` to `errno` in `SYSCALL_ERROR_HANDLER`. -/
def errnoOps : ErrnoAccess → List Op
  | .rtld rtldErrno pcrelLo => [.adr t1 (rtldErrno - pcrelLo), .store t1 pcrelLo a3]
  | .pic slot pcrelLo =>
    [.adr t1 (slot - pcrelLo), .load t1 t1 pcrelLo, .storeIndexed tp t1 a3]
  | .static tprel tprelLo =>
    [.lui t1 (tprel - tprelLo), .alu .add t1 t1 (.plain tp), .store t1 tprelLo a3]

/-- `SYSCALL_ERROR_HANDLER` outside `libc`. -/
def errorOps (access : ErrnoAccess) : List Op :=
  .alu .sub a3 zero (.plain a3) :: (errnoOps access ++ [.alu .sub a3 zero (.imm 1)])

/-- A stub outside `libc`: `PSEUDO_END` returns once more. -/
def stub (access : ErrnoAccess) (args : Nat) (nr : BitVec 16) : List Line :=
  pseudo args nr ++ (errorOps access).map .op ++ [.jump lr 0]

/-- A stub in `libc`, which goes to `__syscall_error` behind it. -/
def libcStub (access : ErrnoAccess) (t1Value : Machine.Word) (args : Nat) (nr : BitVec 16) :
    List Line :=
  let start := (stackArgs args).length + 10
  pseudo args nr ++
    [.op (.alu .add a0 a3 (.plain zero)), .op (.adr t1 t1Value), .goto start, .jump lr 0] ++
    syscallErrorCode access start

/-! ## The convention -/

/-- What a system call leaves alone. -/
def kept : List Reg := calleeSaved ++ [tp, lr]

/-- From line `pc` on, at `c`, with the kernel's result `r`: control goes to `back`, with `errno` and
the C return register by the convention. -/
structure Returns (access : ErrnoAccess) (code : List Line) (pc : Nat) (back r : Machine.Word)
    (c : State) (out : State) : Prop where
  back : ∃ fuel, depart code fuel pc c = some (.jump back out)
  error : isError r → out.regs.get a3 = -1 ∧ out.mem (access.errno c) = -r
  result : ¬ isError r →
    out.regs.get a3 = r ∧ out.mem (access.errno c) = c.mem (access.errno c)
  kept : ∀ reg ∈ Stub.kept, out.regs.get reg = c.regs.get reg

/-- A stub called at `c`: the kernel gets the number of the system call and its arguments, and
whatever the result is, the stub returns by the convention. -/
def StubCorrect (access : ErrnoAccess) (code : List Line) (args : Nat) (nr : BitVec 16) (c : State) :
    Prop :=
  ∃ next c₁, (∃ fuel, depart code fuel 0 c = some (.sys next c₁)) ∧
    c₁.regs.get t5 = nr.setWidth 32 ∧ c₁.mem = c.mem ∧
    (∀ reg, reg ≠ t0 → reg ≠ t1 → reg ≠ t5 → c₁.regs.get reg = c.regs.get reg) ∧
    (args ≥ 5 → c₁.regs.get t0 = c.mem (c.regs.get sp)) ∧
    (args ≥ 6 → c₁.regs.get t1 = c.mem (c.regs.get sp + 4)) ∧
    ∀ (r : Machine.Word) (c₂ : State), c₂.regs.get a3 = r →
      (∀ reg, reg ≠ a3 → c₂.regs.get reg = c₁.regs.get reg) →
      ∃ out, Returns access code next (c.regs.get lr) r c₂ out

/-- `__syscall_error` entered with `r` in `a0`. -/
def ErrorCorrect (access : ErrnoAccess) (c : State) (r : Machine.Word) : Prop :=
  ∃ out, Returns access (syscallErrorCode access 0) 0 (c.regs.get lr) r c out

/-- `__syscall_set_errno`, behind the first line, entered with `r` in `a0` and the return address in
`t0`. -/
def SetErrnoCorrect (access : ErrnoAccess) (c : State) (r : Machine.Word) : Prop :=
  ∃ out, Returns access (syscallErrorCode access 0) 1 (c.regs.get t0) r c out

/-! ## What the lines write -/

/-- The registers that the stubs and `__syscall_error` write. -/
def scratch : List Reg := [t0, t1, t5, a0, a3]

theorem kept_not_scratch : ∀ r ∈ kept, r ∉ scratch := by decide

section
variable (access : ErrnoAccess)

theorem stackArgs_writes (args : Nat) : ∀ op ∈ stackArgs args, ∃ r ∈ scratch, op.rd = some r := by
  intro op hop
  have hload : op = .load t0 sp 0 ∨ op = .load t1 sp 4 := by
    rcases List.mem_append.1 hop with hop | hop
    · left
      split at hop
      · exact List.mem_singleton.1 hop
      · cases hop
    · right
      split at hop
      · exact List.mem_singleton.1 hop
      · cases hop
  rcases hload with rfl | rfl
  · exact ⟨t0, by decide, rfl⟩
  · exact ⟨t1, by decide, rfl⟩

theorem pseudo_writes (args : Nat) (nr : BitVec 16) {r : Reg} (hr : r ∉ scratch) :
    ∀ line ∈ pseudo args nr, line.rd ≠ some r := by
  intro line hline
  rcases List.mem_append.1 hline with hline | hline
  · obtain ⟨op, hop, rfl⟩ := List.mem_map.1 hline
    obtain ⟨q, hq, hrd⟩ := stackArgs_writes args op hop
    intro h
    rw [show Line.rd (.op op) = some q from hrd, Option.some.injEq] at h
    exact hr (h ▸ hq)
  · have h5 : t5 ≠ r := fun h => hr (h ▸ by decide)
    simp only [List.mem_cons, List.not_mem_nil, or_false] at hline
    rcases hline with rfl | rfl | rfl | rfl | rfl | rfl <;> simp [Line.rd, Op.rd, h5]

theorem syscallErrorCode_writes (start : Nat) {r : Reg} (hr : r ∉ scratch) :
    ∀ line ∈ syscallErrorCode access start, line.rd ≠ some r := by
  have h0 : t0 ≠ r := fun h => hr (h ▸ by decide)
  have h1 : t1 ≠ r := fun h => hr (h ▸ by decide)
  have h3 : a3 ≠ r := fun h => hr (h ▸ by decide)
  cases access <;>
    simp [syscallErrorCode, ErrnoAccess.store, Line.rd, Op.rd, h0, h1, h3]

theorem stub_writes (args : Nat) (nr : BitVec 16) {r : Reg} (hr : r ∉ scratch) :
    ∀ line ∈ stub access args nr, line.rd ≠ some r := by
  have h1 : t1 ≠ r := fun h => hr (h ▸ by decide)
  have h3 : a3 ≠ r := fun h => hr (h ▸ by decide)
  have hrest : ∀ line ∈ (errorOps access).map .op ++ [Line.jump lr 0], line.rd ≠ some r := by
    cases access <;> simp [errorOps, errnoOps, Line.rd, Op.rd, h1, h3]
  intro line hline
  rw [stub, List.append_assoc] at hline
  rcases List.mem_append.1 hline with hline | hline
  · exact pseudo_writes args nr hr line hline
  · exact hrest line hline

theorem libcStub_writes (t1Value : Machine.Word) (args : Nat) (nr : BitVec 16) {r : Reg}
    (hr : r ∉ scratch) : ∀ line ∈ libcStub access t1Value args nr, line.rd ≠ some r := by
  have h0 : a0 ≠ r := fun h => hr (h ▸ by decide)
  have h1 : t1 ≠ r := fun h => hr (h ▸ by decide)
  intro line hline
  rw [libcStub, List.append_assoc] at hline
  rcases List.mem_append.1 hline with hline | hline
  · exact pseudo_writes args nr hr line hline
  · rcases List.mem_append.1 hline with hline | hline
    · simp only [List.mem_cons, List.not_mem_nil, or_false] at hline
      rcases hline with rfl | rfl | rfl | rfl <;> simp [Line.rd, Op.rd, h0, h1]
    · exact syscallErrorCode_writes access _ hr line hline

end

/-! ## Up to `sys` -/

theorem stackArgs_spec (args : Nat) (c : State) :
    let c' := c.execAll (stackArgs args)
    c'.mem = c.mem ∧ (∀ reg, reg ≠ t0 → reg ≠ t1 → c'.regs.get reg = c.regs.get reg) ∧
      (args ≥ 5 → c'.regs.get t0 = c.mem (c.regs.get sp)) ∧
      (args ≥ 6 → c'.regs.get t1 = c.mem (c.regs.get sp + 4)) := by
  have hsp : ∀ value, (c.setReg t0 value).regs.get sp = c.regs.get sp :=
    fun value => c.setReg_get_of_ne value (by decide)
  have hadd : c.regs.get sp + 0 = c.regs.get sp := BitVec.add_zero _
  unfold stackArgs
  by_cases h5 : args ≥ 5
  · rw [if_pos h5]
    by_cases h6 : args ≥ 6
    · rw [if_pos h6]
      let c₁ := c.setReg t0 (c.mem (c.regs.get sp + 0))
      refine ⟨rfl, ?_, fun _ => ?_, fun _ => ?_⟩
      · intro reg h0 h1
        exact (c₁.setReg_get_of_ne _ h1).trans (c.setReg_get_of_ne _ h0)
      · show (c₁.setReg t1 _).regs.get t0 = _
        rw [c₁.setReg_get_of_ne _ (by decide), c.setReg_get_self _ (by decide), hadd]
      · show (c₁.setReg t1 (c₁.mem (c₁.regs.get sp + 4))).regs.get t1 = _
        rw [c₁.setReg_get_self _ (by decide), hsp]
        rfl
    · rw [if_neg h6]
      refine ⟨rfl, fun reg h0 _ => c.setReg_get_of_ne _ h0, fun _ => ?_, fun h => absurd h h6⟩
      show (c.setReg t0 (c.mem (c.regs.get sp + 0))).regs.get t0 = _
      rw [c.setReg_get_self _ (by decide), hadd]
  · rw [if_neg h5, if_neg fun h6 => h5 (by omega)]
    exact ⟨rfl, fun _ _ _ => rfl, fun h => absurd h h5, fun h => absurd h fun h6 => h5 (by omega)⟩

/-- The state in which the kernel finds the system call. -/
def atSys (args : Nat) (nr : BitVec 16) (c : State) : State :=
  c.execAll (stackArgs args ++ [.alu .add t5 zero (.imm nr)])

theorem atSys_spec (args : Nat) (nr : BitVec 16) (c : State) :
    (atSys args nr c).regs.get t5 = nr.setWidth 32 ∧ (atSys args nr c).mem = c.mem ∧
      (∀ reg, reg ≠ t0 → reg ≠ t1 → reg ≠ t5 →
        (atSys args nr c).regs.get reg = c.regs.get reg) ∧
      (args ≥ 5 → (atSys args nr c).regs.get t0 = c.mem (c.regs.get sp)) ∧
      (args ≥ 6 → (atSys args nr c).regs.get t1 = c.mem (c.regs.get sp + 4)) := by
  let c' := c.execAll (stackArgs args)
  obtain ⟨hmem, hregs, h0, h1⟩ := stackArgs_spec args c
  have hsys : atSys args nr c = c'.setReg t5 (c'.regs.get zero + nr.setWidth 32) := by
    rw [atSys, State.execAll_append]
    rfl
  rw [hsys]
  refine ⟨?_, hmem, ?_, ?_, ?_⟩
  · rw [c'.setReg_get_self _ (by decide), RegFile.get_zero]
    exact BitVec.zero_add _
  · intro reg hne0 hne1 hne5
    rw [c'.setReg_get_of_ne _ hne5]
    exact hregs reg hne0 hne1
  · intro h
    rw [c'.setReg_get_of_ne _ (by decide)]
    exact h0 h
  · intro h
    rw [c'.setReg_get_of_ne _ (by decide)]
    exact h1 h

/-! ## Behind `sys` -/

theorem isError_iff (r : Machine.Word) :
    isError r ↔ r.toInt < 0 ∧ 0 < (r + 4096).toInt := by
  have hlow : -2147483648 ≤ r.toInt := BitVec.le_toInt r
  have hadd : (r + 4096).toInt = (r.toInt + 4096).bmod 4294967296 := BitVec.toInt_add r 4096
  unfold isError
  constructor
  · intro ⟨hge, hlt⟩
    rw [hadd, Int.bmod_eq_of_le (by omega) (by omega)]
    exact ⟨hlt, by omega⟩
  · intro ⟨hlt, hpos⟩
    rw [hadd, Int.bmod_eq_of_le (by omega) (by omega)] at hpos
    exact ⟨by omega, hlt⟩

section
variable {code rest : List Line} {args : Nat} {nr : BitVec 16} {c : State} {r : Machine.Word}

theorem pseudo_length (args : Nat) (nr : BitVec 16) :
    (pseudo args nr).length = (stackArgs args).length + 6 := by
  simp [pseudo]

/-- A line of the stub behind the loads. -/
theorem pseudo_line (args : Nat) (nr : BitVec 16) (rest : List Line) (k : Nat) :
    (pseudo args nr ++ rest)[(stackArgs args).length + k]? =
      ([.op (.alu .add t5 zero (.imm nr)), .sys, .branch .ge a3 ((stackArgs args).length + 5),
        .op (.alu .add t5 a3 (.imm 4096)), .branch .gt t5 ((stackArgs args).length + 6),
        .jump lr 0] ++ rest)[k]? := by
  rw [pseudo, List.append_assoc]
  exact Machine.getElem?_after_ops _ _ k

theorem depart_pseudo_sys (args : Nat) (nr : BitVec 16) (rest : List Line) (c : State) :
    depart (pseudo args nr ++ rest) ((stackArgs args).length + 2) 0 c =
      some (.sys ((stackArgs args).length + 2) (atSys args nr c)) := by
  let ops := stackArgs args ++ [.alu .add t5 zero (.imm nr)]
  have hlen : ops.length = (stackArgs args).length + 1 := by simp [ops]
  have hdrop : (pseudo args nr ++ rest).drop 0 = ops.map .op ++
      ([.sys, .branch .ge a3 ((stackArgs args).length + 5), .op (.alu .add t5 a3 (.imm 4096)),
        .branch .gt t5 ((stackArgs args).length + 6), .jump lr 0] ++ rest) := by
    simp [pseudo, ops]
  rw [show (stackArgs args).length + 2 = ops.length + 1 from by rw [hlen],
    Machine.depart_ops ops hdrop 1, Nat.zero_add,
    Machine.depart_sys ((congrArg _ hlen).trans ((pseudo_line args nr rest 1).trans rfl))]
  rfl

theorem exec_addi (c : State) :
    c.exec (.alu .add t5 a3 (.imm 4096)) = c.setReg t5 (c.regs.get a3 + 4096) := by
  have hext : (4096 : BitVec 16).zeroExtend 32 = 4096 := by decide
  rw [← hext]
  rfl

/-- A result that is no error is returned as it is. -/
theorem depart_pseudo_result (args : Nat) (nr : BitVec 16) (rest : List Line)
    (ha3 : c.regs.get a3 = r) (hr : ¬ isError r) :
    ∃ out, depart (pseudo args nr ++ rest) 4 ((stackArgs args).length + 2) c =
        some (Departure.jump (c.regs.get lr) out) ∧ out.regs.get a3 = r ∧ out.mem = c.mem ∧
      out.regs.get tp = c.regs.get tp := by
  have hline := pseudo_line args nr rest
  by_cases hnonneg : 0 ≤ r.toInt
  · have htest : Machine.Cond.ge.test (c.regs.get a3) = true := by
      rw [ha3]
      exact decide_eq_true hnonneg
    refine ⟨c, ?_, ha3, rfl, rfl⟩
    rw [Machine.depart_taken ((hline 2).trans rfl) htest,
      Machine.depart_jump ((hline 5).trans rfl)]
    exact congrArg (fun target => some (Departure.jump target c)) (BitVec.add_zero _)
  · -- Too small for an error: `addi` does not bring it above 0.
    have htest : Machine.Cond.ge.test (c.regs.get a3) = false := by
      rwa [ha3, ← Bool.not_eq_true, Machine.Cond.test_ge_iff]
    let c' := c.setReg t5 (c.regs.get a3 + 4096)
    have ht5 : c'.regs.get t5 = r + 4096 := by
      rw [← ha3]
      exact c.setReg_get_self _ (by decide)
    have htest' : Machine.Cond.gt.test (c'.regs.get t5) = false := by
      rw [ht5, ← Bool.not_eq_true, Machine.Cond.test_gt_iff]
      exact fun hpos => hr ((isError_iff r).2 ⟨not_le.1 hnonneg, hpos⟩)
    have hregs : ∀ reg, reg ≠ t5 → c'.regs.get reg = c.regs.get reg :=
      fun reg hne => c.setReg_get_of_ne _ hne
    refine ⟨c', ?_, (hregs a3 (by decide)).trans ha3, rfl, hregs tp (by decide)⟩
    rw [Machine.depart_not_taken ((hline 2).trans rfl) htest,
      Machine.depart_op ((hline 3).trans rfl), exec_addi,
      Machine.depart_not_taken ((hline 4).trans rfl) htest',
      Machine.depart_jump ((hline 5).trans rfl)]
    show some (Departure.jump (c'.regs.get lr + 0) c') = _
    rw [hregs lr (by decide)]
    exact congrArg (fun target => some (Departure.jump target c')) (BitVec.add_zero _)

/-- An error goes on behind `ret`. -/
theorem depart_pseudo_error (args : Nat) (nr : BitVec 16) (rest : List Line)
    (ha3 : c.regs.get a3 = r) (hr : isError r) :
    ∃ c', (∀ reg, reg ≠ t5 → c'.regs.get reg = c.regs.get reg) ∧ c'.mem = c.mem ∧
      ∀ fuel, depart (pseudo args nr ++ rest) (fuel + 3) ((stackArgs args).length + 2) c =
        depart (pseudo args nr ++ rest) fuel ((stackArgs args).length + 6) c' := by
  have hline := pseudo_line args nr rest
  obtain ⟨hneg, hpos⟩ := (isError_iff r).1 hr
  have htest : Machine.Cond.ge.test (c.regs.get a3) = false := by
    rw [ha3, ← Bool.not_eq_true, Machine.Cond.test_ge_iff]
    exact not_le.2 hneg
  let c' := c.setReg t5 (c.regs.get a3 + 4096)
  have ht5 : c'.regs.get t5 = r + 4096 := by
    rw [← ha3]
    exact c.setReg_get_self _ (by decide)
  have htest' : Machine.Cond.gt.test (c'.regs.get t5) = true := by
    rwa [ht5, Machine.Cond.test_gt_iff]
  refine ⟨c', fun reg hne => c.setReg_get_of_ne _ hne, rfl, fun fuel => ?_⟩
  rw [Machine.depart_not_taken ((hline 2).trans rfl) htest,
    Machine.depart_op ((hline 3).trans rfl), exec_addi,
    Machine.depart_taken ((hline 4).trans rfl) htest']

end

/-! ## Stubs outside `libc` -/

theorem errnoOps_spec (access : ErrnoAccess) {c c' : State}
    (htp : c'.regs.get tp = c.regs.get tp) (hmem : c'.mem = c.mem) :
    (c'.execAll (errnoOps access)).mem (access.errno c) = c'.regs.get a3 := by
  have hself : ∀ (d : State) (value : Machine.Word), (d.setReg t1 value).regs.get t1 = value :=
    fun d value => d.setReg_get_self value (by decide)
  have hother : ∀ (d : State) (value : Machine.Word), ∀ reg, reg ≠ t1 →
      (d.setReg t1 value).regs.get reg = d.regs.get reg :=
    fun d value reg hne => d.setReg_get_of_ne value hne
  cases access with
  | rtld rtldErrno pcrelLo =>
    let c₁ := c'.setReg t1 (rtldErrno - pcrelLo)
    show (c₁.setMem (c₁.regs.get t1 + pcrelLo) (c₁.regs.get a3)).mem rtldErrno = _
    rw [hself, BitVec.sub_add_cancel, State.setMem_self, hother _ _ a3 (by decide)]
  | pic slot pcrelLo =>
    let c₁ := c'.setReg t1 (slot - pcrelLo)
    let c₂ := c₁.setReg t1 (c₁.mem (c₁.regs.get t1 + pcrelLo))
    have ht1 : c₂.regs.get t1 = c.mem slot := by
      rw [hself, hself, BitVec.sub_add_cancel, ← hmem]
      rfl
    show (c₂.setMem (c₂.regs.get tp + c₂.regs.get t1) (c₂.regs.get a3)).mem
      (c.mem slot + c.regs.get tp) = _
    rw [ht1, hother _ _ tp (by decide), hother _ _ tp (by decide), htp,
      BitVec.add_comm (c.regs.get tp), State.setMem_self, hother _ _ a3 (by decide),
      hother _ _ a3 (by decide)]
  | static tprel tprelLo =>
    let c₁ := c'.setReg t1 (tprel - tprelLo)
    let c₂ := c₁.setReg t1 (c₁.regs.get t1 + (Machine.Src.plain tp).value .add c₁.regs)
    have ht1 : c₂.regs.get t1 + tprelLo = tprel + c.regs.get tp := by
      rw [hself, hself, Machine.Src.value_plain, hother _ _ tp (by decide), htp, BitVec.add_assoc,
        BitVec.add_comm (c.regs.get tp), ← BitVec.add_assoc, BitVec.sub_add_cancel]
    show (c₂.setMem (c₂.regs.get t1 + tprelLo) (c₂.regs.get a3)).mem (tprel + c.regs.get tp) = _
    rw [ht1, State.setMem_self, hother _ _ a3 (by decide), hother _ _ a3 (by decide)]

/-- The last line before the return. -/
theorem exec_minusOne (c : State) :
    c.exec (.alu .sub a3 zero (.imm 1)) = c.setReg a3 (-1) := by
  show c.setReg a3 (c.regs.get zero - (1 : BitVec 16).zeroExtend 32) = _
  rw [RegFile.get_zero]
  rfl

theorem errorOps_spec (access : ErrnoAccess) (c : State) :
    (c.execAll (errorOps access)).regs.get a3 = -1 ∧
      (c.execAll (errorOps access)).mem (access.errno c) = -c.regs.get a3 := by
  let c₁ := c.setReg a3 (-c.regs.get a3)
  have hneg : c.exec (.alu .sub a3 zero (.plain a3)) = c₁ := by
    show c.setReg a3 (c.regs.get zero - (Machine.Src.plain a3).value .sub c.regs) = c₁
    rw [RegFile.get_zero, Machine.Src.value_plain]
    exact congrArg (c.setReg a3) (zero_sub _)
  have htp : c₁.regs.get tp = c.regs.get tp := c.setReg_get_of_ne _ (by decide)
  rw [errorOps, State.execAll_cons, hneg, State.execAll_append, State.execAll_cons,
    State.execAll_nil, exec_minusOne]
  refine ⟨State.setReg_get_self _ _ (by decide), ?_⟩
  exact (errnoOps_spec access htp rfl).trans (c.setReg_get_self _ (by decide))

/-- A stub is right if what comes behind `ret` is, for an error in `a3`. -/
theorem stubCorrect_of_error {access : ErrnoAccess} {code rest : List Line} (args : Nat)
    (nr : BitVec 16) (hcode : code = pseudo args nr ++ rest)
    (hwrites : ∀ r ∉ scratch, ∀ line ∈ code, line.rd ≠ some r)
    (herror : ∀ c, isError (c.regs.get a3) → ∃ out fuel,
      depart code fuel ((stackArgs args).length + 6) c = some (Departure.jump (c.regs.get lr) out) ∧
        out.regs.get a3 = -1 ∧ out.mem (access.errno c) = -c.regs.get a3)
    (c : State) : StubCorrect access code args nr c := by
  obtain ⟨ht5, hmem, hregs, h0, h1⟩ := atSys_spec args nr c
  have hsys : depart code ((stackArgs args).length + 2) 0 c =
      some (.sys ((stackArgs args).length + 2) (atSys args nr c)) := by
    rw [hcode]
    exact depart_pseudo_sys args nr rest c
  refine ⟨(stackArgs args).length + 2, atSys args nr c, ⟨_, hsys⟩, ht5, hmem, hregs, h0, h1, ?_⟩
  intro r c₂ hr hkept
  have hlr : c₂.regs.get lr = c.regs.get lr :=
    (hkept lr (by decide)).trans (hregs lr (by decide) (by decide) (by decide))
  have hframe : ∀ fuel out, depart code fuel ((stackArgs args).length + 2) c₂ =
      some (Departure.jump (c.regs.get lr) out) → ∀ reg ∈ Stub.kept,
      out.regs.get reg = c₂.regs.get reg := fun fuel out hdepart reg hreg =>
    Machine.depart_get (hwrites reg (kept_not_scratch reg hreg)) fuel hdepart
  by_cases hiserror : isError r
  · obtain ⟨c₃, hregs₃, hmem₃, hdepart₃⟩ := depart_pseudo_error args nr rest hr hiserror
    have ha3 : c₃.regs.get a3 = r := (hregs₃ a3 (by decide)).trans hr
    obtain ⟨out, fuel, hdepart, hminus, herrno⟩ := herror c₃ (ha3 ▸ hiserror)
    rw [hregs₃ lr (by decide), hlr, hcode, ← hdepart₃, ← hcode] at hdepart
    refine ⟨out, ⟨_, hdepart⟩, fun _ => ⟨hminus, ?_⟩, fun h => absurd hiserror h,
      hframe _ out hdepart⟩
    rw [← access.errno_congr hmem₃ (hregs₃ tp (by decide)), herrno, ha3]
  · obtain ⟨out, hdepart, ha3, hmemOut, -⟩ := depart_pseudo_result args nr rest hr hiserror
    rw [hlr, ← hcode] at hdepart
    exact ⟨out, ⟨_, hdepart⟩, fun h => absurd h hiserror, fun _ => ⟨ha3, congrFun hmemOut _⟩,
      hframe _ out hdepart⟩

theorem stub_correct (access : ErrnoAccess) (args : Nat) (nr : BitVec 16) (c : State) :
    StubCorrect access (stub access args nr) args nr c := by
  have hstub : stub access args nr =
      pseudo args nr ++ ((errorOps access).map .op ++ [.jump lr 0]) := by
    rw [stub, List.append_assoc]
  have hdrop : (stub access args nr).drop ((stackArgs args).length + 6) =
      (errorOps access).map .op ++ [.jump lr 0] := by
    rw [hstub, ← pseudo_length args nr, List.drop_left]
  apply stubCorrect_of_error args nr hstub fun _ hr => stub_writes access args nr hr
  intro c _
  obtain ⟨hminus, herrno⟩ := errorOps_spec access c
  refine ⟨c.execAll (errorOps access), (errorOps access).length + 1, ?_, hminus, herrno⟩
  have hlast : (stub access args nr)[(stackArgs args).length + 6 + (errorOps access).length]? =
      some (Line.jump lr 0) := by
    rw [← List.getElem?_drop, hdrop]
    exact (Machine.getElem?_after_ops _ _ 0).trans rfl
  have hlr : (c.execAll (errorOps access)).regs.get lr = c.regs.get lr := by
    apply c.execAll_get
    cases access <;> simp [errorOps, errnoOps, Op.rd, a3, t1, lr]
  rw [Machine.depart_ops _ hdrop, Machine.depart_jump hlast, hlr]
  exact congrArg (fun target => some (Departure.jump target _)) (BitVec.add_zero _)

/-! ## Stubs in `libc` -/

theorem libcStub_correct (access : ErrnoAccess) (t1Value : Machine.Word) (args : Nat) (nr : BitVec 16)
    (c : State) : StubCorrect access (libcStub access t1Value args nr) args nr c := by
  let k := (stackArgs args).length
  let tail : List Line :=
    [.op (.alu .add a0 a3 (.plain zero)), .op (.adr t1 t1Value), .goto (k + 10), .jump lr 0]
  have hstub : libcStub access t1Value args nr =
      pseudo args nr ++ (tail ++ syscallErrorCode access (k + 10)) := by
    rw [libcStub, List.append_assoc]
  have hdrop : (libcStub access t1Value args nr).drop (k + 6) =
      tail ++ syscallErrorCode access (k + 10) := by
    rw [hstub, ← pseudo_length args nr, List.drop_left]
  have hcode : (libcStub access t1Value args nr).drop (k + 10) =
      syscallErrorCode access (k + 10) := by
    rw [show k + 10 = k + 6 + 4 from rfl, ← List.drop_drop, hdrop]
    rfl
  have hline : ∀ j, (libcStub access t1Value args nr)[k + 6 + j]? =
      (tail ++ syscallErrorCode access (k + 10))[j]? := by
    intro j
    rw [← List.getElem?_drop, hdrop]
  apply stubCorrect_of_error args nr hstub fun _ hr => libcStub_writes access t1Value args nr hr
  intro c herror
  let c₁ := c.exec (.alu .add a0 a3 (.plain zero))
  let c₂ := c₁.exec (.adr t1 t1Value)
  have ha0 : c₂.regs.get a0 = c.regs.get a3 := by
    show (c₁.setReg t1 t1Value).regs.get a0 = _
    rw [c₁.setReg_get_of_ne _ (by decide)]
    show (c.setReg a0 (c.regs.get a3 + (Machine.Src.plain zero).value .add c.regs)).regs.get a0 = _
    rw [c.setReg_get_self _ (by decide), Machine.Src.value_plain, RegFile.get_zero]
    exact BitVec.add_zero _
  have hregs : ∀ reg, reg ≠ a0 → reg ≠ t1 → c₂.regs.get reg = c.regs.get reg :=
    fun reg hne0 hne1 => (c₁.setReg_get_of_ne _ hne1).trans (c.setReg_get_of_ne _ hne0)
  obtain ⟨out, hdepart, hminus, herrno⟩ :=
    syscallError_inRange hcode (show -4095 ≤ (c₂.regs.get a0).toInt from ha0 ▸ herror.1) 0
  refine ⟨out, 12, ?_, hminus, ?_⟩
  · rw [Machine.depart_op ((hline 0).trans rfl), Machine.depart_op ((hline 1).trans rfl),
      Machine.depart_goto ((hline 2).trans rfl)]
    rw [hregs lr (by decide) (by decide)] at hdepart
    exact hdepart
  · have hsame : access.errno c₂ = access.errno c :=
      access.errno_congr rfl (hregs tp (by decide) (by decide))
    rw [← hsame, herrno, ha0]

/-! ## `__syscall_error` and `__syscall_set_errno` -/

section
variable {access : ErrnoAccess} {c : State}

/-- The comparison, with the return address in `t0`. -/
theorem setErrno_compare (c : State) :
    let c' := c.exec (.alu .sltSigned t1 a0 (.imm (-4095)))
    AtStore (c.setReg lr (c.regs.get t0)) c' (c.regs.get a3) ∧ c'.regs.get a0 = c.regs.get a0 ∧
      (Machine.Cond.ne.test (c'.regs.get t1) = true ↔ (c.regs.get a0).toInt < -4095) := by
  intro c'
  have hregs : ∀ r, r ≠ t1 → c'.regs.get r = c.regs.get r := fun r hr => c.setReg_get_of_ne _ hr
  refine ⟨⟨?_, ?_, hregs a3 (by decide), rfl⟩, hregs a0 (by decide), ?_⟩
  · rw [hregs tp (by decide), c.setReg_get_of_ne _ (by decide)]
  · rw [hregs t0 (by decide), c.setReg_get_self _ (by decide)]
  · have ht1 : c'.regs.get t1 = Machine.AluOp.sltSigned.eval (c.regs.get a0)
        (Machine.AluOp.sltSigned.extend (-4095)) := c.setReg_get_self _ (by decide)
    rw [Machine.Cond.test_ne_iff, ht1, sltSigned_eval]

theorem errno_setReg_lr (value : Machine.Word) : access.errno (c.setReg lr value) = access.errno c :=
  access.errno_congr rfl (c.setReg_get_of_ne value (by decide))

theorem errorCode_drop (access : ErrnoAccess) :
    (syscallErrorCode access 0).drop 0 = syscallErrorCode access 0 := rfl

/-- The comparison and the branch behind it. -/
theorem setErrno_start (access : ErrnoAccess) (c : State) (fuel : Nat) :
    let c' := c.exec (.alu .sltSigned t1 a0 (.imm (-4095)))
    depart (syscallErrorCode access 0) (fuel + 2) 1 c =
      if (c.regs.get a0).toInt < -4095 then
        depart (syscallErrorCode access 0) fuel access.label1 c'
      else depart (syscallErrorCode access 0) fuel 3 c' := by
  intro c'
  have hcompare : (syscallErrorCode access 0)[1]? =
      some (Line.op (.alu .sltSigned t1 a0 (.imm (-4095)))) := rfl
  have hbranch : (syscallErrorCode access 0)[2]? =
      some (Line.branch .ne t1 (0 + access.label1)) := rfl
  obtain ⟨-, -, htest⟩ := setErrno_compare c
  rw [Machine.depart_op hcompare]
  split
  · next hlt => rw [Machine.depart_taken hbranch (htest.2 hlt), Nat.zero_add]
  · next hge =>
    have hnot : Machine.Cond.ne.test (c'.regs.get t1) = false := by
      rwa [← Bool.not_eq_true, htest]
    rw [Machine.depart_not_taken hbranch hnot]

/-- A result of -4095 or more is taken for an error. -/
theorem setErrno_inRange (access : ErrnoAccess) (hrange : -4095 ≤ (c.regs.get a0).toInt) :
    ∃ out, depart (syscallErrorCode access 0) 8 1 c = some (Departure.jump (c.regs.get t0) out) ∧
      out.regs.get a3 = -1 ∧ out.mem (access.errno c) = -c.regs.get a0 := by
  obtain ⟨hat, ha0, -⟩ := setErrno_compare c
  have hsub : (syscallErrorCode access 0)[3]? =
      some (Line.op (.alu .sub a3 zero (.plain a0))) := rfl
  have hneg := hat.negate
  rw [ha0] at hneg
  obtain ⟨out, hdepart, hminus, herrno⟩ := depart_errnoStore (errorCode_drop access) hneg 0
  rw [c.setReg_get_self _ (by decide)] at hdepart
  rw [errno_setReg_lr] at herrno
  refine ⟨out, ?_, hminus, herrno⟩
  rw [setErrno_start access c 6, if_neg (not_lt.2 hrange), Machine.depart_op hsub]
  exact hdepart

/-- Any other goes to `errno` as `a3` has it, where the label of the `adr` is in the way. -/
theorem setErrno_shared (access : ErrnoAccess) (hrange : (c.regs.get a0).toInt < -4095)
    (hlabel : access.label1 = 4) :
    ∃ out, depart (syscallErrorCode access 0) 8 1 c = some (Departure.jump (c.regs.get t0) out) ∧
      out.regs.get a3 = -1 := by
  obtain ⟨hat, -, -⟩ := setErrno_compare c
  obtain ⟨out, hdepart, hminus, -⟩ := depart_errnoStore (errorCode_drop access) hat 1
  rw [c.setReg_get_self _ (by decide)] at hdepart
  refine ⟨out, ?_, hminus⟩
  rw [setErrno_start access c 6, if_pos hrange, hlabel]
  exact hdepart

/-- In a static program it is returned. -/
theorem setErrno_static {tprel tprelLo : Machine.Word} (hrange : (c.regs.get a0).toInt < -4095) :
    ∃ out, depart (syscallErrorCode (.static tprel tprelLo) 0) 8 1 c =
        some (Departure.jump (c.regs.get t0) out) ∧
      out.regs.get a3 = c.regs.get a3 ∧ out.mem = c.mem := by
  obtain ⟨hat, -, -⟩ := setErrno_compare c
  have hjump : (syscallErrorCode (.static tprel tprelLo) 0)[8]? = some (Line.jump t0 0) := rfl
  have ht0 := hat.t0_eq
  rw [c.setReg_get_self _ (by decide)] at ht0
  refine ⟨c.exec (.alu .sltSigned t1 a0 (.imm (-4095))), ?_, hat.a3_eq, rfl⟩
  rw [setErrno_start _ c 6, if_pos hrange,
    show (ErrnoAccess.static tprel tprelLo).label1 = 8 from rfl, Machine.depart_jump hjump]
  exact congrArg (fun target => some (Departure.jump target _)) ((BitVec.add_zero _).trans ht0)

/-- What both have to find in `a0`, and in a static program in `a3` too. -/
def TellsApart (access : ErrnoAccess) (c : State) (r : Machine.Word) : Prop :=
  isError r ∨ (access.isStatic = true ∧ r.toInt < -4095 ∧ c.regs.get a3 = r)

theorem setErrnoCorrect_iff {r : Machine.Word} (ha0 : c.regs.get a0 = r) :
    SetErrnoCorrect access c r ↔ TellsApart access c r := by
  have hframe : ∀ fuel out, depart (syscallErrorCode access 0) fuel 1 c =
      some (Departure.jump (c.regs.get t0) out) → ∀ reg ∈ Stub.kept,
      out.regs.get reg = c.regs.get reg := fun fuel out hdepart reg hreg =>
    Machine.depart_get (syscallErrorCode_writes access 0 (kept_not_scratch reg hreg)) fuel hdepart
  have hunique : ∀ out out', depart (syscallErrorCode access 0) 8 1 c =
      some (Departure.jump (c.regs.get t0) out) →
      Returns access (syscallErrorCode access 0) 1 (c.regs.get t0) r c out' → out = out' := by
    intro out out' hdepart hreturns
    obtain ⟨fuel, hback⟩ := hreturns.back
    exact (Departure.jump.inj (Machine.depart_unique hdepart hback)).2
  by_cases hrange : -4095 ≤ r.toInt
  · obtain ⟨out, hdepart, hminus, herrno⟩ :=
      setErrno_inRange access (show -4095 ≤ (c.regs.get a0).toInt from ha0 ▸ hrange)
    constructor
    · intro ⟨out', hreturns⟩
      obtain rfl := hunique out out' hdepart hreturns
      by_cases herror : isError r
      · exact .inl herror
      · -- -1 is returned, for a result that is not negative.
        have hminus' := (hreturns.result herror).1
        rw [hminus] at hminus'
        have hneg : isError r := by
          rw [← hminus']
          exact ⟨by decide, by decide⟩
        exact absurd hneg herror
    · intro htells
      have herror : isError r := htells.resolve_right fun h => absurd h.2.1 (not_lt.2 hrange)
      exact ⟨out, ⟨8, hdepart⟩, fun _ => ⟨hminus, by rw [herrno, ha0]⟩, fun h => absurd herror h,
        hframe 8 out hdepart⟩
  · have hlow := not_le.1 hrange
    have hno : ¬ isError r := fun h => hrange h.1
    have hshared : access.label1 = 4 → ¬ SetErrnoCorrect access c r := by
      intro hlabel ⟨out', hreturns⟩
      obtain ⟨out, hdepart, hminus⟩ :=
        setErrno_shared access (show (c.regs.get a0).toInt < -4095 from ha0 ▸ hlow) hlabel
      obtain rfl := hunique out out' hdepart hreturns
      have hminus' := (hreturns.result hno).1
      rw [hminus] at hminus'
      rw [← hminus'] at hlow
      exact absurd hlow (by decide)
    cases access with
    | rtld _ _ | pic _ _ =>
      refine iff_of_false (hshared rfl) fun htells => ?_
      rcases htells with herror | hstatic
      · exact hno herror
      · cases hstatic.1
    | static tprel tprelLo =>
      obtain ⟨out, hdepart, hresult, hmem⟩ :=
        setErrno_static (show (c.regs.get a0).toInt < -4095 from ha0 ▸ hlow)
      constructor
      · intro ⟨out', hreturns⟩
        obtain rfl := hunique out out' hdepart hreturns
        exact .inr ⟨rfl, hlow, hresult.symm.trans (hreturns.result hno).1⟩
      · intro htells
        have ha3 := (htells.resolve_left hno).2.2
        exact ⟨out, ⟨8, hdepart⟩, fun h => absurd h hno,
          fun _ => ⟨hresult.trans ha3, congrFun hmem _⟩, hframe 8 out hdepart⟩

/-- `__syscall_error` puts the return address into `t0` and falls through. -/
theorem errorCorrect_iff {r : Machine.Word} (ha0 : c.regs.get a0 = r) :
    ErrorCorrect access c r ↔ TellsApart access c r := by
  let c' := c.exec (.alu .add t0 lr (.plain zero))
  have hregs : ∀ reg, reg ≠ t0 → c'.regs.get reg = c.regs.get reg :=
    fun reg hne => c.setReg_get_of_ne _ hne
  have ht0 : c'.regs.get t0 = c.regs.get lr := by
    show (c.setReg t0 (c.regs.get lr + (Machine.Src.plain zero).value .add c.regs)).regs.get t0 = _
    rw [c.setReg_get_self _ (by decide), Machine.Src.value_plain, RegFile.get_zero]
    exact BitVec.add_zero _
  have hfirst : (syscallErrorCode access 0)[0]? =
      some (Line.op (.alu .add t0 lr (.plain zero))) := rfl
  have herrno : access.errno c' = access.errno c :=
    access.errno_congr rfl (hregs tp (by decide))
  have hreturns : ∀ out, Returns access (syscallErrorCode access 0) 0 (c.regs.get lr) r c out ↔
      Returns access (syscallErrorCode access 0) 1 (c'.regs.get t0) r c' out := by
    intro out
    constructor
    · intro h
      obtain ⟨fuel, hback⟩ := h.back
      have hnext : depart (syscallErrorCode access 0) fuel 1 c' =
          some (Departure.jump (c'.regs.get t0) out) := by
        rw [ht0, ← Machine.depart_op hfirst]
        exact Machine.depart_mono (Nat.le_succ fuel) hback
      refine ⟨⟨fuel, hnext⟩, ?_, ?_, ?_⟩
      · rw [herrno]
        exact h.error
      · rw [herrno]
        exact h.result
      · intro reg hreg
        rw [h.kept reg hreg, hregs reg fun heq => kept_not_scratch reg hreg (heq ▸ by decide)]
    · intro h
      obtain ⟨fuel, hback⟩ := h.back
      have hbefore : depart (syscallErrorCode access 0) (fuel + 1) 0 c =
          some (Departure.jump (c.regs.get lr) out) := by
        rw [Machine.depart_op hfirst, ← ht0]
        exact hback
      refine ⟨⟨fuel + 1, hbefore⟩, ?_, ?_, ?_⟩
      · rw [← herrno]
        exact h.error
      · rw [← herrno]
        exact h.result
      · intro reg hreg
        rw [h.kept reg hreg, hregs reg fun heq => kept_not_scratch reg hreg (heq ▸ by decide)]
  have htells : TellsApart access c' r ↔ TellsApart access c r := by
    unfold TellsApart
    rw [hregs a3 (by decide)]
  rw [← htells, ← setErrnoCorrect_iff ((hregs a0 (by decide)).trans ha0)]
  exact exists_congr hreturns

end

/-- **The error convention.** Every stub returns every result by the convention, in `libc` and
outside, in every kind of build. `__syscall_error` and `__syscall_set_errno` do *if and only if* the
result is an error, or in a static program, where `a3` has it too, if it is below them. -/
theorem syscallConvention_iff (access : ErrnoAccess) (c : State) :
    (∀ (args : Nat) (nr : BitVec 16), StubCorrect access (stub access args nr) args nr c) ∧
    (∀ (t1Value : Machine.Word) (args : Nat) (nr : BitVec 16),
      StubCorrect access (libcStub access t1Value args nr) args nr c) ∧
    ∀ r, c.regs.get a0 = r →
      (ErrorCorrect access c r ↔
        isError r ∨ (access.isStatic = true ∧ r.toInt < -4095 ∧ c.regs.get a3 = r)) ∧
      (SetErrnoCorrect access c r ↔
        isError r ∨ (access.isStatic = true ∧ r.toInt < -4095 ∧ c.regs.get a3 = r)) := by
  refine ⟨fun args nr => stub_correct access args nr c,
    fun t1Value args nr => libcStub_correct access t1Value args nr c, ?_⟩
  intro r ha0
  exact ⟨errorCorrect_iff ha0, setErrnoCorrect_iff ha0⟩

/-- -5000 in every register. -/
def demoError : State := ⟨⟨fun _ => -5000⟩, fun _ => 0⟩

/-- `errno` of `ld.so`. -/
def demoErrno : ErrnoAccess := .rtld 0x3000 0

theorem syscallConvention_iff_demoError :
    ErrorCorrect demoErrno demoError (-5000) ↔
      isError (-5000) ∨ (demoErrno.isStatic = true ∧ (-5000 : Machine.Word).toInt < -4095 ∧
        demoError.regs.get a3 = -5000) :=
  ((syscallConvention_iff demoErrno demoError).2.2 (-5000) rfl).1

/-- `ld.so` takes -5000 for an error. -/
theorem syscallError_mislabelled :
    ¬ ∀ (access : ErrnoAccess) (c : State) (r : Machine.Word), c.regs.get a0 = r → c.regs.get a3 = r →
      r.toInt < 0 → ErrorCorrect access c r := by
  intro hall
  have htells := (errorCorrect_iff rfl).1 (hall demoErrno demoError (-5000) rfl rfl (by decide))
  rcases htells with herror | hstatic
  · exact absurd herror.1 (by decide)
  · cases hstatic.1

end XrLinux.Glibc.Stub
