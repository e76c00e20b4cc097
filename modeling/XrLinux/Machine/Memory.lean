import XrLinux.Machine.Instr

/-!
# XR/17032 — routines that load and store words

Hand-written assembly as the ports have it: instructions that go on to the next one (`Op`), and
routines of those with branches, calls and system calls in between (`Line`). The memory is by the
addresses of its words.
-/

namespace XrLinux.Machine

/-- The registers, and the memory by the addresses of its words. -/
structure State where
  regs : RegFile
  mem : Word → Word

/-- An instruction after which comes the next one. -/
inductive Op where
  | alu (op : AluOp) (rd ra : Reg) (src : Src)
  /-- `mov rd, long [ra + offset]` -/
  | load (rd ra : Reg) (offset : Word)
  /-- `mov long [ra + offset], rb` -/
  | store (ra : Reg) (offset : Word) (rb : Reg)
  /-- `mov long [ra + rx], rb` -/
  | storeIndexed (ra rx rb : Reg)
  /-- `adr rd, …`, with what the linker makes of it. -/
  | adr (rd : Reg) (value : Word)
  /-- `lui rd, …`, with what the linker makes of it. -/
  | lui (rd : Reg) (value : Word)
  deriving DecidableEq

namespace State

def setReg (c : State) (r : Reg) (value : Word) : State := { c with regs := c.regs.set r value }

def setMem (c : State) (addr value : Word) : State :=
  { c with mem := Function.update c.mem addr value }

def exec (c : State) : Op → State
  | .alu op rd ra src => c.setReg rd (op.eval (c.regs.get ra) (src.value op c.regs))
  | .load rd ra offset => c.setReg rd (c.mem (c.regs.get ra + offset))
  | .store ra offset rb => c.setMem (c.regs.get ra + offset) (c.regs.get rb)
  | .storeIndexed ra rx rb => c.setMem (c.regs.get ra + c.regs.get rx) (c.regs.get rb)
  | .adr rd value => c.setReg rd value
  | .lui rd value => c.setReg rd value

/-- Instructions in a row. -/
def execAll (c : State) (code : List Op) : State := code.foldl exec c

@[simp] theorem execAll_nil (c : State) : c.execAll [] = c := rfl

@[simp] theorem execAll_cons (c : State) (op : Op) (code : List Op) :
    c.execAll (op :: code) = (c.exec op).execAll code := rfl

theorem execAll_append (c : State) (code code' : List Op) :
    c.execAll (code ++ code') = (c.execAll code).execAll code' := List.foldl_append

@[simp] theorem setReg_mem (c : State) (r : Reg) (value : Word) : (c.setReg r value).mem = c.mem :=
  rfl

@[simp] theorem setMem_regs (c : State) (addr value : Word) : (c.setMem addr value).regs = c.regs :=
  rfl

theorem setReg_get_self (c : State) {r : Reg} (value : Word) (hr : r ≠ zero) :
    (c.setReg r value).regs.get r = value := RegFile.get_set_self hr

theorem setReg_get_of_ne (c : State) {r q : Reg} (value : Word) (hne : q ≠ r) :
    (c.setReg r value).regs.get q = c.regs.get q := RegFile.get_set_of_ne hne

@[simp] theorem setMem_self (c : State) (addr value : Word) : (c.setMem addr value).mem addr = value :=
  Function.update_self _ _ _

theorem setMem_of_ne (c : State) {addr addr' : Word} (value : Word) (hne : addr' ≠ addr) :
    (c.setMem addr value).mem addr' = c.mem addr' := Function.update_of_ne hne _ _

/-- Loads into different registers, none of which is the base. -/
theorem execAll_loads (c : State) (base : Reg) (loads : List (Reg × Word))
    (hnodup : (loads.map Prod.fst).Nodup) (hbase : base ∉ loads.map Prod.fst)
    (hzero : zero ∉ loads.map Prod.fst) :
    ∃ regs, c.execAll (loads.map fun x => .load x.1 base x.2) = { c with regs } ∧
      (∀ x ∈ loads, regs.get x.1 = c.mem (c.regs.get base + x.2)) ∧
      ∀ r, r ∉ loads.map Prod.fst → regs.get r = c.regs.get r := by
  induction loads generalizing c with
  | nil => exact ⟨c.regs, rfl, fun x hx => absurd hx List.not_mem_nil, fun _ _ => rfl⟩
  | cons load loads ih =>
    rw [List.map_cons, List.nodup_cons] at hnodup
    rw [List.map_cons, List.mem_cons, not_or] at hbase hzero
    let c' := c.exec (.load load.1 base load.2)
    have hkept : ∀ r, r ≠ load.1 → c'.regs.get r = c.regs.get r :=
      fun r hne => RegFile.get_set_of_ne hne
    obtain ⟨regs, hexec, hloaded, hother⟩ := ih c' hnodup.2 hbase.2 hzero.2
    refine ⟨regs, hexec, ?_, ?_⟩
    · intro x hx
      rcases List.mem_cons.mp hx with rfl | hx
      · -- The first load is not written over by the rest.
        rw [hother _ hnodup.1]
        exact RegFile.get_set_self (Ne.symm hzero.1)
      · rw [hloaded x hx, hkept base hbase.1]
        rfl
    · intro r hr
      rw [List.map_cons, List.mem_cons, not_or] at hr
      rw [hother r hr.2, hkept r hr.1]

/-- Stores at different offsets from one base. -/
theorem execAll_stores (c : State) (base : Reg) (stores : List (Word × Reg))
    (hnodup : (stores.map Prod.fst).Nodup) :
    ∃ mem, c.execAll (stores.map fun x => .store base x.1 x.2) = { c with mem } ∧
      (∀ x ∈ stores, mem (c.regs.get base + x.1) = c.regs.get x.2) ∧
      ∀ addr, (∀ x ∈ stores, addr ≠ c.regs.get base + x.1) → mem addr = c.mem addr := by
  induction stores generalizing c with
  | nil => exact ⟨c.mem, rfl, fun x hx => absurd hx List.not_mem_nil, fun _ _ => rfl⟩
  | cons store stores ih =>
    rw [List.map_cons, List.nodup_cons] at hnodup
    let c' := c.exec (.store base store.1 store.2)
    obtain ⟨mem, hexec, hstored, hother⟩ := ih c' hnodup.2
    refine ⟨mem, hexec, ?_, ?_⟩
    · intro x hx
      rcases List.mem_cons.mp hx with rfl | hx
      · have hne : ∀ y ∈ stores, c.regs.get base + x.1 ≠ c.regs.get base + y.1 := by
          intro y hy heq
          rw [BitVec.add_right_inj] at heq
          exact hnodup.1 (heq ▸ List.mem_map_of_mem hy)
        rw [hother _ hne]
        exact setMem_self _ _ _
      · exact hstored x hx
    · intro addr haddr
      rw [hother addr fun x hx => haddr x (List.mem_cons_of_mem _ hx)]
      exact setMem_of_ne _ _ (haddr store List.mem_cons_self)

end State

/-! ## Routines -/

theorem Cond.test_eq_iff (value : Word) : Cond.eq.test value = true ↔ value = 0 := by
  rw [← BitVec.toInt_inj]
  simp [Cond.test]

theorem Cond.test_ne_iff (value : Word) : Cond.ne.test value = true ↔ value ≠ 0 := by
  rw [ne_eq, ← BitVec.toInt_inj]
  simp [Cond.test]

theorem Cond.test_lt_iff (value : Word) : Cond.lt.test value = true ↔ value.toInt < 0 := by
  simp [Cond.test]

theorem Cond.test_gt_iff (value : Word) : Cond.gt.test value = true ↔ 0 < value.toInt := by
  simp [Cond.test]

theorem Cond.test_ge_iff (value : Word) : Cond.ge.test value = true ↔ 0 ≤ value.toInt := by
  simp [Cond.test]

/-- A line of a routine. Labels are by the index of the line they stand before. -/
inductive Line where
  | op (op : Op)
  | branch (cond : Cond) (ra : Reg) (label : Nat)
  /-- `jalr zero, t1, %pcrel_lo(…)`, to a line of what is linked together. -/
  | goto (label : Nat)
  /-- `jalr zero, ra, offset` -/
  | jump (ra : Reg) (offset : Word)
  /-- `jalr lr, ra, 0` -/
  | call (ra : Reg)
  | sys
  deriving DecidableEq

/-- How control leaves a routine, for good or until it comes back to line `next`. -/
inductive Departure where
  | jump (target : Word) (state : State)
  | call (target : Word) (next : Nat) (state : State)
  | sys (next : Nat) (state : State)

/-- A routine from line `pc` until control leaves it. -/
def depart (prog : List Line) : Nat → Nat → State → Option Departure
  | 0, _, _ => none
  | fuel + 1, pc, c =>
    match prog[pc]? with
    | none => none
    | some (.op op) => depart prog fuel (pc + 1) (c.exec op)
    | some (.branch cond ra label) =>
      if cond.test (c.regs.get ra) then depart prog fuel label c else depart prog fuel (pc + 1) c
    | some (.goto label) => depart prog fuel label c
    | some (.jump ra offset) => some (.jump (c.regs.get ra + offset) c)
    | some (.call ra) => some (.call (c.regs.get ra) (pc + 1) c)
    | some .sys => some (.sys (pc + 1) c)

section
variable {prog : List Line} {fuel pc : Nat} {c : State}

theorem depart_op {op : Op} (h : prog[pc]? = some (.op op)) :
    depart prog (fuel + 1) pc c = depart prog fuel (pc + 1) (c.exec op) := by
  simp [depart, h]

theorem depart_taken {cond : Cond} {ra : Reg} {label : Nat}
    (h : prog[pc]? = some (.branch cond ra label)) (htest : cond.test (c.regs.get ra) = true) :
    depart prog (fuel + 1) pc c = depart prog fuel label c := by
  simp [depart, h, htest]

theorem depart_not_taken {cond : Cond} {ra : Reg} {label : Nat}
    (h : prog[pc]? = some (.branch cond ra label)) (htest : cond.test (c.regs.get ra) = false) :
    depart prog (fuel + 1) pc c = depart prog fuel (pc + 1) c := by
  simp [depart, h, htest]

theorem depart_goto {label : Nat} (h : prog[pc]? = some (.goto label)) :
    depart prog (fuel + 1) pc c = depart prog fuel label c := by
  simp [depart, h]

theorem depart_jump {ra : Reg} {offset : Word} (h : prog[pc]? = some (.jump ra offset)) :
    depart prog (fuel + 1) pc c = some (.jump (c.regs.get ra + offset) c) := by
  simp [depart, h]

theorem depart_call {ra : Reg} (h : prog[pc]? = some (.call ra)) :
    depart prog (fuel + 1) pc c = some (.call (c.regs.get ra) (pc + 1) c) := by
  simp [depart, h]

theorem depart_sys (h : prog[pc]? = some .sys) :
    depart prog (fuel + 1) pc c = some (.sys (pc + 1) c) := by
  simp [depart, h]

end

/-- Instructions in a row, somewhere in a routine. -/
theorem depart_ops {prog : List Line} (ops : List Op) {tail : List Line} {pc : Nat} {c : State}
    (hprog : prog.drop pc = ops.map .op ++ tail) (fuel : Nat) :
    depart prog (ops.length + fuel) pc c =
      depart prog fuel (pc + ops.length) (c.execAll ops) := by
  induction ops generalizing pc c with
  | nil => rw [List.length_nil, Nat.zero_add, Nat.add_zero, State.execAll_nil]
  | cons op ops ih =>
    have hline : prog[pc]? = some (.op op) := by
      rw [← List.head?_drop, hprog]
      rfl
    have hrest : prog.drop (pc + 1) = ops.map .op ++ tail := by
      rw [← List.tail_drop, hprog]
      rfl
    rw [List.length_cons, Nat.add_right_comm, depart_op hline, ih hrest, Nat.add_right_comm]
    rfl

/-- The line after instructions in a row. -/
theorem getElem?_after_ops (ops : List Op) (tail : List Line) (i : Nat) :
    (ops.map .op ++ tail)[ops.length + i]? = tail[i]? := by
  rw [List.getElem?_append_right (by simp), List.length_map, Nat.add_sub_cancel_left]

/-! ## What a routine leaves alone -/

/-- The register an instruction writes. -/
def Op.rd : Op → Option Reg
  | .alu _ rd _ _ | .load rd _ _ | .adr rd _ | .lui rd _ => some rd
  | .store _ _ _ | .storeIndexed _ _ _ => none

def Line.rd : Line → Option Reg
  | .op instr => instr.rd
  | _ => none

def Departure.state : Departure → State
  | .jump _ c | .call _ _ c | .sys _ c => c

theorem State.exec_get (c : State) {op : Op} {r : Reg} (h : op.rd ≠ some r) :
    (c.exec op).regs.get r = c.regs.get r := by
  cases op with
  | alu _ rd _ _ | load rd _ _ | adr rd _ | lui rd _ =>
    exact RegFile.get_set_of_ne fun heq => h (congrArg some heq.symm)
  | store _ _ _ | storeIndexed _ _ _ => rfl

theorem State.execAll_get (c : State) {code : List Op} {r : Reg}
    (h : ∀ op ∈ code, op.rd ≠ some r) : (c.execAll code).regs.get r = c.regs.get r := by
  induction code generalizing c with
  | nil => rfl
  | cons op code ih =>
    rw [State.execAll_cons, ih _ fun op' hop' => h op' (List.mem_cons_of_mem _ hop')]
    exact c.exec_get (h op List.mem_cons_self)

/-- A register that no line writes. -/
theorem depart_get {prog : List Line} {r : Reg} (hr : ∀ line ∈ prog, line.rd ≠ some r) (fuel : Nat)
    {pc : Nat} {c : State} {d : Departure} (h : depart prog fuel pc c = some d) :
    d.state.regs.get r = c.regs.get r := by
  induction fuel generalizing pc c with
  | zero => cases h
  | succ fuel ih =>
    unfold depart at h
    split at h
    · cases h
    · next op hline =>
      rw [ih h]
      exact c.exec_get (hr _ (List.mem_of_getElem? hline))
    · split at h
      · exact ih h
      · exact ih h
    · exact ih h
    · cases h
      rfl
    · cases h
      rfl
    · cases h
      rfl

/-- More fuel makes no difference to a routine that has departed. -/
theorem depart_mono {prog : List Line} {fuel fuel' : Nat} (hle : fuel ≤ fuel') {pc : Nat}
    {c : State} {d : Departure} (h : depart prog fuel pc c = some d) :
    depart prog fuel' pc c = some d := by
  induction fuel generalizing fuel' pc c with
  | zero => cases h
  | succ fuel ih =>
    obtain ⟨fuel', rfl⟩ := Nat.exists_eq_add_of_lt (Nat.lt_of_lt_of_le (Nat.succ_pos fuel) hle)
    rw [Nat.zero_add] at hle ⊢
    have hle' : fuel ≤ fuel' := by omega
    unfold depart at h ⊢
    split at h
    · cases h
    · exact ih hle' h
    · split at h
      · next htest =>
        rw [if_pos htest]
        exact ih hle' h
      · next htest =>
        rw [if_neg htest]
        exact ih hle' h
    · exact ih hle' h
    · exact h
    · exact h
    · exact h

/-- A routine departs in one way only. -/
theorem depart_unique {prog : List Line} {fuel fuel' pc : Nat} {c : State} {d d' : Departure}
    (h : depart prog fuel pc c = some d) (h' : depart prog fuel' pc c = some d') : d = d' := by
  have hmax := depart_mono (Nat.le_max_left fuel fuel') h
  rw [depart_mono (Nat.le_max_right fuel fuel') h', Option.some.injEq] at hmax
  exact hmax.symm

end XrLinux.Machine
