import XrLinux.Gcc.Operand
import XrLinux.Lib.Iterate

/-!
# GCC port — compiled integer comparisons

`cbranchsi4`, `cstoresi4`, `*set_eq_zero` and the `*b<code>` patterns of
`gcc/config/xr17032/xr17032.md`. The machine branches only on one register's relation to
zero, so a comparison of two operands is first reduced to one register:

* unsigned orders go through `slt`, with the operands exchanged for `gtu` and `leu`;
* equalities and *signed* orders go through a subtraction.

A 32-bit difference has the sign of the true difference only when the subtraction does not
overflow, and `cbranchsi4_correct_iff` says that this is exactly when a signed branch is right.
-/

namespace XrLinux.Gcc

open XrLinux.Machine
open Iterate

/-! ## Comparison codes -/

inductive RtxCode where
  | eq | ne | lt | le | gt | ge | ltu | leu | gtu | geu
  deriving DecidableEq, Repr

/-- The comparison of two 32-bit integers a code stands for. -/
def RtxCode.holds (code : RtxCode) (a b : Word) : Prop :=
  match code with
  | .eq => a = b
  | .ne => a ≠ b
  | .lt => a.toInt < b.toInt
  | .le => a.toInt ≤ b.toInt
  | .gt => a.toInt > b.toInt
  | .ge => a.toInt ≥ b.toInt
  | .ltu => a.toNat < b.toNat
  | .leu => a.toNat ≤ b.toNat
  | .gtu => a.toNat > b.toNat
  | .geu => a.toNat ≥ b.toNat

instance (code : RtxCode) (a b : Word) : Decidable (code.holds a b) := by
  unfold RtxCode.holds; cases code <;> infer_instance

/-- The codes that order their operands as signed numbers. -/
def RtxCode.signedOrder : RtxCode → Bool
  | .lt | .le | .gt | .ge => true
  | _ => false

/-! ## The expanders -/

/-- `xr17032_sltu`: `slt%i2 %0,%z1,%2`. -/
def xr17032Sltu (dest : Reg) (op1 op2 : Operand) : Instr :=
  .alu .slt dest op1.z op2.src

/-- `xr17032_slt`: `slt%i2 signed %0,%z1,%2`. -/
def xr17032Slt (dest : Reg) (op1 op2 : Operand) : Instr :=
  .alu .sltSigned dest op1.z op2.src

/-- `subsi3`: `sub%i2 %0,%z1,%2`. -/
def subsi3 (dest : Reg) (op1 op2 : Operand) : Instr :=
  .alu .sub dest op1.z op2.src

/-- `force_reg`: the operand in a register, and the move that puts a constant there
(`xr17032_output_move`, `addi %0,zero,%1` for a small operand). -/
def forceReg (temp : Reg) : Operand → List Instr × Operand
  | .reg r => ([], .reg r)
  | .const value => ([.alu .add temp zero (.imm (BitVec.ofInt 16 value))], .reg temp)

/-- The condition of a code whose second operand is zero. The unsigned codes have been rewritten
to `NE` and `EQ` before this is asked. -/
def RtxCode.cond : RtxCode → Cond
  | .eq | .leu | .geu => .eq
  | .ne | .ltu | .gtu => .ne
  | .lt => .lt
  | .le => .le
  | .gt => .gt
  | .ge => .ge

/-- `cbranchsi4`: the instructions before the branch, the condition of the branch, and the
operand it compares with zero. `reg` is the fresh register of the expander and `forced` the one
of its `force_reg`. -/
def cbranchsi4 (code : RtxCode) (op1 op2 : Operand) (reg forced : Reg) :
    List Instr × Cond × Operand :=
  match code with
  | .ltu | .geu => ([xr17032Sltu reg op1 op2], code.cond, .reg reg)
  | .gtu | .leu =>
    let (move, op2) := forceReg forced op2
    (move ++ [xr17032Sltu reg op2 op1], code.cond, .reg reg)
  | _ =>
    if op2 = .const 0 then ([], code.cond, op1)
    else ([subsi3 reg op1 op2], code.cond, .reg reg)

/-- `<rcode>`: the inverse condition. -/
def rcode : Cond → Cond
  | .eq => .ne
  | .ne => .eq
  | .lt => .ge
  | .gt => .le
  | .ge => .lt
  | .le => .gt

/-- `*b<code>`, as instruction number `index` of a sequence at `base`. The long form inverts the
condition over an `adr`/`jalr` pair with the two halves of the distance to the target. -/
def bCode (base : Word) (index : Nat) (long : Bool) (cond : Cond) (op : Operand)
    (target : Word) : List Instr :=
  if long then
    let delta := target - (base + BitVec.ofNat 32 (4 * (index + 1)))
    [.branch (rcode cond) op.z (.label (index + 3)),
      .adr lr (delta &&& 0xffff0000#32),
      .jalr zero lr (delta &&& 0xffff#32)]
  else [.branch cond op.z (.address target)]

/-- The whole conditional branch. -/
def compareAndBranch (base : Word) (long : Bool) (code : RtxCode) (op1 op2 : Operand)
    (reg forced : Reg) (target : Word) : List Instr :=
  let (before, cond, op) := cbranchsi4 code op1 op2 reg forced
  before ++ bCode base before.length long cond op target

/-- `cstoresi4`: fails for codes other than `LT` and `LTU` and for a third operand the
instruction has no form for. -/
def cstoresi4 (code : RtxCode) (dest : Reg) (op2 op3 : Operand) : Option (List Instr) :=
  match code with
  | .ltu => if op3.arith then some [xr17032Sltu dest op2 op3] else none
  | .lt => if op3.arithSigned then some [xr17032Slt dest op2 op3] else none
  | _ => none

/-- `*set_eq_zero`: `slti %0,%z1,1`. -/
def setEqZero (dest : Reg) (op : Operand) : List Instr :=
  [.alu .slt dest op.z (.imm 1)]

/-! ## A difference and its sign -/

/-- The 32-bit subtraction of two signed words does not overflow. -/
def DifferenceFits (a b : Word) : Prop :=
  -2147483648 ≤ a.toInt - b.toInt ∧ a.toInt - b.toInt < 2147483648

instance (a b : Word) : Decidable (DifferenceFits a b) := by
  unfold DifferenceFits; infer_instance

/-- The signed value of the wrapped difference: the true one, or off by `2^32`. -/
theorem toInt_sub_cases (a b : Word) :
    (DifferenceFits a b ∧ (a - b).toInt = a.toInt - b.toInt) ∨
    (a.toInt - b.toInt < -2147483648 ∧ (a - b).toInt = a.toInt - b.toInt + 4294967296) ∨
    (2147483648 ≤ a.toInt - b.toInt ∧ (a - b).toInt = a.toInt - b.toInt - 4294967296) := by
  have ha := BitVec.two_mul_toInt_lt (x := a)
  have ha' := BitVec.le_two_mul_toInt (x := a)
  have hb := BitVec.two_mul_toInt_lt (x := b)
  have hb' := BitVec.le_two_mul_toInt (x := b)
  rw [BitVec.toInt_sub]
  simp only [DifferenceFits, Int.bmod]
  omega

/-- Branching on the difference: right for the equalities, and for a signed order exactly when
the subtraction does not overflow. When it does, the sign is wrong, so the branch is too. -/
theorem test_sub_iff {code : RtxCode} (hcode : code ∉ [RtxCode.ltu, .leu, .gtu, .geu])
    (a b : Word) :
    (code.cond.test (a - b) = true ↔ code.holds a b) ↔
      (code.signedOrder → DifferenceFits a b) := by
  have hsub := toInt_sub_cases a b
  have heq : a = b ↔ a.toInt = b.toInt := BitVec.toInt_inj.symm
  unfold DifferenceFits at hsub ⊢
  simp only [RtxCode.cond, Cond.test, RtxCode.holds, RtxCode.signedOrder, heq]
  have ha := BitVec.two_mul_toInt_lt (x := a)
  have ha' := BitVec.le_two_mul_toInt (x := a)
  have hb := BitVec.two_mul_toInt_lt (x := b)
  have hb' := BitVec.le_two_mul_toInt (x := b)
  generalize (a - b).toInt = d at *
  generalize a.toInt = x at *
  generalize b.toInt = y at *
  cases code with
  | eq =>
    simp
    omega
  | ne =>
    simp [heq]
    omega
  | lt =>
    simp
    omega
  | le =>
    simp
    omega
  | gt =>
    simp
    omega
  | ge =>
    simp
    omega
  | ltu | leu | gtu | geu => simp at hcode

/-- `slt` and a test of its result against zero. -/
theorem test_slt_eq (a b : Word) :
    Cond.eq.test (AluOp.slt.eval a b) = true ↔ ¬ a.toNat < b.toNat := by
  by_cases hlt : a.toNat < b.toNat <;> simp [Cond.test, AluOp.eval, BitVec.ult, hlt]

theorem test_slt_ne (a b : Word) :
    Cond.ne.test (AluOp.slt.eval a b) = true ↔ a.toNat < b.toNat := by
  by_cases hlt : a.toNat < b.toNat <;> simp [Cond.test, AluOp.eval, BitVec.ult, hlt]

theorem test_rcode (cond : Cond) (value : Word) :
    (rcode cond).test value = !cond.test value := by
  cases cond <;> simp [rcode, Cond.test, ← decide_not, bne]

/-- The two halves of a distance add up to it. -/
theorem halves_add (delta : Word) : (delta &&& 0xffff0000#32) + (delta &&& 0xffff#32) = delta := by
  have hdisj : (delta &&& 0xffff0000#32) &&& (delta &&& 0xffff#32) = 0#32 := by
    rw [BitVec.and_assoc, ← BitVec.and_assoc _ delta, BitVec.and_comm _ delta, BitVec.and_assoc]
    simp
  rw [BitVec.add_eq_or_of_and_eq_zero _ _ hdisj]
  ext i hi
  have hmask : (0xffff0000#32)[i] = !(0xffff#32)[i] := by
    revert i; decide
  simp only [BitVec.getElem_or, BitVec.getElem_and, hmask]
  cases delta[i] <;> cases (0xffff#32)[i] <;> rfl

/-! ## Runs -/

/-- The sequence starting at register contents `regs` goes to `target` if `taken`, and past its
own end otherwise. -/
def Branches (base : Word) (prog : List Instr) (regs : RegFile) (target : Word) (taken : Prop) :
    Prop :=
  ∃ out, Halts (stepStraight base prog) { pc := 0, regs } out ∧
    (taken → out.left = some target) ∧
    (¬ taken → out.left = none ∧ out.pc = prog.length)

/-- A sequence branches on one condition only. -/
theorem Branches.iff {base : Word} {prog : List Instr} {regs : RegFile} {target : Word}
    {p q : Prop} (hp : Branches base prog regs target p) :
    Branches base prog regs target q ↔ (p ↔ q) := by
  constructor
  · rintro ⟨out, hout, hq, hnq⟩
    obtain ⟨out', hout', hp, hnp⟩ := hp
    obtain rfl := hout.unique hout'
    by_cases hp' : p <;> by_cases hq' : q <;> simp_all
  · intro hpq
    rwa [← propext hpq]

/-- `*b<code>` at the end of a sequence, in either form, branches on its condition. -/
theorem bCode_halts {base : Word} {before prog : List Instr} {long : Bool} {cond : Cond}
    {op : Operand} {target : Word} (hop : op.regOr0) (regs : RegFile)
    (hprog : prog = before ++ bCode base before.length long cond op target) :
    ∃ out, Halts (stepStraight base prog) { pc := before.length, regs } out ∧
      (cond.test (op.value regs) = true → out.left = some target) ∧
      (¬ cond.test (op.value regs) = true → out.left = none ∧ out.pc = prog.length) := by
  have hget : ∀ k, prog[before.length + k]? = (bCode base before.length long cond op target)[k]? := by
    intro k
    rw [hprog, List.getElem?_append_right (by omega)]
    simp
  cases long with
  | false =>
    have h0 := hget 0
    simp only [bCode, Bool.false_eq_true, ↓reduceIte, List.getElem?_cons_zero, Nat.add_zero] at h0
    have hlen : prog.length = before.length + 1 := by simp [hprog, bCode]
    by_cases htest : cond.test (op.value regs) = true
    · refine ⟨{ pc := before.length, regs, left := some target }, ⟨.single ?_, ?_⟩, ?_⟩
      · simp [stepStraight, fetch, h0, Instr.effect, Operand.get_z hop, htest]
      · simp [stepStraight, fetch]
      · simp [htest]
    · refine ⟨{ pc := before.length + 1, regs }, ⟨.single ?_, ?_⟩, ?_⟩
      · simp [stepStraight, fetch, h0, Instr.effect, Operand.get_z hop, htest, Cpu.next]
      · simp [stepStraight, fetch, hlen]
      · simp [htest, hlen]
  | true =>
    have h0 := hget 0
    have h1 := hget 1
    have h2 := hget 2
    simp only [bCode, ↓reduceIte, List.getElem?_cons_zero, List.getElem?_cons_succ,
      Nat.add_zero] at h0 h1 h2
    have hlen : prog.length = before.length + 3 := by simp [hprog, bCode]
    by_cases htest : cond.test (op.value regs) = true
    · -- The inverted branch falls through to the pair, which adds the two halves to its own pc.
      set here := base + BitVec.ofNat 32 (4 * (before.length + 1)) with hhere
      set regs₁ := regs.set lr (here + ((target - here) &&& 0xffff0000#32)) with hregs₁
      have hlr : regs₁.get lr + ((target - here) &&& 0xffff#32) = target := by
        rw [hregs₁, RegFile.get_set_self (by decide), BitVec.add_assoc, halves_add]
        exact add_sub_cancel here target
      let out : Cpu := {
        pc := before.length + 2
        regs := regs₁.set zero (base + BitVec.ofNat 32 (4 * (before.length + 2)) + 4)
        left := some target }
      have hbranch : stepStraight base prog { pc := before.length, regs } =
          some { pc := before.length + 1, regs } := by
        simp [stepStraight, fetch, h0, Instr.effect, Operand.get_z hop, test_rcode, htest, Cpu.next]
      have hadr : stepStraight base prog { pc := before.length + 1, regs } =
          some { pc := before.length + 2, regs := regs₁ } := by
        simp [stepStraight, fetch, h1, Instr.effect, Cpu.next, hregs₁, hhere]
      have hjalr : stepStraight base prog { pc := before.length + 2, regs := regs₁ } = some out := by
        simp [stepStraight, fetch, h2, Instr.effect, hlr, out]
      refine ⟨out, ⟨.head hbranch (.head hadr (.single hjalr)), ?_⟩, ?_⟩
      · simp [stepStraight, fetch, out]
      · simp [htest, out]
    · refine ⟨{ pc := before.length + 3, regs }, ⟨.single ?_, ?_⟩, ?_⟩
      · simp [stepStraight, fetch, h0, Instr.effect, Operand.get_z hop, test_rcode, htest]
      · simp [stepStraight, fetch, hlen]
      · simp [htest, hlen]

/-- The fresh registers of an expansion: allocated, so not `zero`, and the register of the
`force_reg`, written while the first operand is still needed, not that operand's. -/
structure FreshRegs (op1 : Operand) where
  reg : Reg
  forced : Reg
  reg_ne_zero : reg ≠ zero
  forced_ne_zero : forced ≠ zero
  forced_ne_op1 : op1 ≠ .reg forced

/-- A sequence that computes the branch's register first. -/
theorem branches_of_steps {base : Word} (before : List Instr) {prog : List Instr} {long : Bool}
    {cond : Cond} (op : Operand) {target : Word} {regs regs' : RegFile} (hop : op.regOr0)
    (hprog : prog = before ++ bCode base before.length long cond op target)
    (hsteps : Steps (stepStraight base prog) { pc := 0, regs } { pc := before.length, regs := regs' }) :
    Branches base prog regs target (cond.test (op.value regs') = true) := by
  obtain ⟨out, hout, hbranch⟩ := bCode_halts hop regs' hprog
  exact ⟨out, hout.of_steps hsteps, hbranch⟩

/-- One arithmetic instruction and a branch on its result. -/
theorem branches_of_alu {base : Word} {prog : List Instr} {long : Bool} {cond : Cond}
    {target : Word} (regs : RegFile) {alu : AluOp} {rd : Reg} (op1 : Operand) {op2 : Operand}
    (hrd : rd ≠ zero) (hop1 : op1.regOr0) (hop2 : op2.arith) (halu : alu ≠ .sltSigned)
    (hprog : prog = [.alu alu rd op1.z op2.src] ++ bCode base 1 long cond (.reg rd) target) :
    Branches base prog regs target
      (cond.test (alu.eval (op1.value regs) (op2.value regs)) = true) := by
  have hstep : stepStraight base prog { pc := 0, regs } = some
      { pc := 1, regs := regs.set rd (alu.eval (regs.get op1.z) (op2.src.value alu regs)) } :=
    stepStraight_alu (by rw [hprog]; rfl)
  have hbranch := branches_of_steps _ (.reg rd) rfl hprog (.single hstep)
  rwa [Operand.value, RegFile.get_set_self hrd, Operand.get_z hop1, Operand.value_src hop2 halu]
    at hbranch

/-- Exchanged operands: the second one is moved to a register if it is a constant. -/
theorem branches_of_exchanged (base : Word) {prog : List Instr} (long : Bool) (cond : Cond)
    (target : Word) (regs : RegFile) {op1 op2 : Operand} (hop1 : op1.regOr0) (hop2 : op2.arith)
    (fresh : FreshRegs op1)
    (hprog : prog = ((forceReg fresh.forced op2).1 ++
        [xr17032Sltu fresh.reg (forceReg fresh.forced op2).2 op1]) ++
      bCode base ((forceReg fresh.forced op2).1 ++
        [xr17032Sltu fresh.reg (forceReg fresh.forced op2).2 op1]).length long cond
        (.reg fresh.reg) target) :
    Branches base prog regs target
      (cond.test (AluOp.slt.eval (op2.value regs) (op1.value regs)) = true) := by
  have harith := Operand.arith_of_regOr0 hop1
  cases op2 with
  | reg r => exact branches_of_alu regs (.reg r) fresh.reg_ne_zero rfl harith (by decide) hprog
  | const value =>
    set regs₁ := regs.set fresh.forced (BitVec.ofInt 32 value) with hregs₁
    have hmove : stepStraight base prog { pc := 0, regs } = some { pc := 1, regs := regs₁ } := by
      rw [stepStraight_alu (by rw [hprog]; rfl)]
      simp [AluOp.eval, Src.value, AluOp.extend, hregs₁,
        ← zeroExtend_ofInt_of_small value hop2]
    have hslt : stepStraight base prog { pc := 1, regs := regs₁ } =
        some { pc := 2, regs := regs₁.set fresh.reg (AluOp.slt.eval (regs₁.get fresh.forced)
          (op1.src.value .slt regs₁)) } :=
      stepStraight_alu (by rw [hprog]; rfl)
    have hbranch := branches_of_steps _ (.reg fresh.reg) rfl hprog (.head hmove (.single hslt))
    -- The move has not touched the first operand.
    have hop1' : op1.src.value .slt regs₁ = op1.value regs := by
      rw [Operand.value_src harith (by decide)]
      cases op1 with
      | reg r =>
        exact RegFile.get_set_of_ne fun h => fresh.forced_ne_op1 (congrArg Operand.reg h)
      | const _ => rfl
    rwa [Operand.value, RegFile.get_set_self fresh.reg_ne_zero, hop1',
      RegFile.get_set_self fresh.forced_ne_zero] at hbranch

/-- What `cbranchsi4` and `*b<code>` together branch on: the relation of the difference to zero
for equalities and signed orders, the right comparison for the unsigned ones. -/
theorem compareAndBranch_branches (base : Word) (long : Bool) (code : RtxCode)
    {op1 op2 : Operand} (hop1 : op1.regOr0) (hop2 : op2.arith) (fresh : FreshRegs op1)
    (target : Word) (regs : RegFile) :
    Branches base (compareAndBranch base long code op1 op2 fresh.reg fresh.forced target) regs
      target
      (if code ∈ [RtxCode.ltu, .leu, .gtu, .geu] then
        code.holds (op1.value regs) (op2.value regs)
      else code.cond.test (op1.value regs - op2.value regs) = true) := by
  have halu : ∀ alu ≠ AluOp.sltSigned, ∀ cond, Branches base
      ([.alu alu fresh.reg op1.z op2.src] ++ bCode base 1 long cond (.reg fresh.reg) target) regs
      target (cond.test (alu.eval (op1.value regs) (op2.value regs)) = true) :=
    fun alu halu cond => branches_of_alu regs op1 fresh.reg_ne_zero hop1 hop2 halu rfl
  have hunsigned := halu .slt (by decide)
  have hsub := halu .sub (by decide)
  have hexchanged := fun cond => branches_of_exchanged base long cond
    target regs hop1 hop2 fresh rfl
  -- A comparison with the constant zero branches on the operand itself.
  have hself : ∀ cond, Branches base (bCode base 0 long cond op1 target) regs target
      (cond.test (op1.value regs) = true) :=
    fun cond => branches_of_steps [] op1 hop1 rfl (.refl _)
  cases code with
  | ltu =>
    simpa [compareAndBranch, cbranchsi4, xr17032Sltu, RtxCode.cond, RtxCode.holds, test_slt_ne]
      using hunsigned .ne
  | geu =>
    simpa [compareAndBranch, cbranchsi4, xr17032Sltu, RtxCode.cond, RtxCode.holds, test_slt_eq]
      using hunsigned .eq
  | gtu =>
    simpa [compareAndBranch, cbranchsi4, RtxCode.cond, RtxCode.holds, test_slt_ne]
      using hexchanged .ne
  | leu =>
    simpa [compareAndBranch, cbranchsi4, RtxCode.cond, RtxCode.holds, test_slt_eq]
      using hexchanged .eq
  | eq | ne | lt | le | gt | ge =>
    all_goals
      simp only [List.mem_cons, reduceCtorEq, List.not_mem_nil, or_self, ↓reduceIte]
      by_cases hzero : op2 = .const 0
      · subst hzero
        simpa [compareAndBranch, cbranchsi4, Operand.value] using hself (RtxCode.cond _)
      · simpa [compareAndBranch, cbranchsi4, hzero, subsi3, AluOp.eval] using
          hsub (RtxCode.cond _)

/-- The registers after a sequence that `cstoresi4` or `*set_eq_zero` gives hold 1 or 0 in the
destination as the comparison says. -/
def Stores (base : Word) (prog : List Instr) (regs : RegFile) (dest : Reg) (holds : Prop) : Prop :=
  ∃ out, Halts (stepStraight base prog) { pc := 0, regs } out ∧
    (holds → out.regs.get dest = 1) ∧ (¬ holds → out.regs.get dest = 0)

theorem stores_of_alu {base : Word} {regs : RegFile} {alu : AluOp} {dest ra : Reg} {src : Src}
    {holds : Prop} (hdest : dest ≠ zero)
    (htrue : holds → alu.eval (regs.get ra) (src.value alu regs) = 1)
    (hfalse : ¬ holds → alu.eval (regs.get ra) (src.value alu regs) = 0) :
    Stores base [.alu alu dest ra src] regs dest holds := by
  refine ⟨_, ⟨.single (stepStraight_alu rfl), by simp [stepStraight, fetch]⟩, ?_, ?_⟩
  · simpa [RegFile.get_set_self hdest] using htrue
  · simpa [RegFile.get_set_self hdest] using hfalse

theorem cstoresi4_stores (base : Word) {code : RtxCode} {dest : Reg} {op2 op3 : Operand}
    {prog : List Instr} (hdest : dest ≠ zero) (hop2 : op2.regOr0)
    (hprog : cstoresi4 code dest op2 op3 = some prog) (regs : RegFile) :
    Stores base prog regs dest (code.holds (op2.value regs) (op3.value regs)) := by
  cases code with
  | ltu =>
    simp only [cstoresi4, Option.ite_none_right_eq_some, Option.some.injEq] at hprog
    obtain ⟨hop3, rfl⟩ := hprog
    have hval := Operand.value_src hop3 (show AluOp.slt ≠ .sltSigned by decide) regs
    refine stores_of_alu hdest ?_ ?_ <;>
      simp [AluOp.eval, hval, Operand.get_z hop2, RtxCode.holds, BitVec.ult]
  | lt =>
    simp only [cstoresi4, Option.ite_none_right_eq_some, Option.some.injEq] at hprog
    obtain ⟨hop3, rfl⟩ := hprog
    have hval := Operand.value_src_signed hop3 regs
    refine stores_of_alu hdest ?_ ?_ <;>
      simp [AluOp.eval, hval, Operand.get_z hop2, RtxCode.holds, BitVec.slt]
  | eq | ne | le | gt | ge | leu | gtu | geu => simp [cstoresi4] at hprog

/-- `x` is zero exactly when it is below one. -/
theorem setEqZero_stores (base : Word) {dest : Reg} {op : Operand} (hdest : dest ≠ zero)
    (hop : op.regOr0) (regs : RegFile) :
    Stores base (setEqZero dest op) regs dest (RtxCode.eq.holds (op.value regs) 0) := by
  have hone : (Src.imm 1).value .slt regs = 1 := by
    show (1#16).zeroExtend 32 = 1#32
    decide
  have hlt : (op.value regs).toNat < 1 ↔ op.value regs = 0 := by
    rw [Nat.lt_one_iff]
    exact BitVec.toNat_inj (y := 0#32)
  refine stores_of_alu hdest ?_ ?_ <;>
    simp only [AluOp.eval, hone, Operand.get_z hop, RtxCode.holds, BitVec.ult, ← hlt] <;>
    simp

/-- **Compiled integer comparisons.** For every code and every pair of operands the predicates
admit, the emitted branch is taken exactly when the comparison holds *if and only if* the code
is not a signed order or the 32-bit difference does not overflow. The stored comparisons are
always right. -/
theorem cbranchsi4_correct_iff (base : Word) (op1 op2 : Operand) (hop1 : op1.regOr0)
    (regs : RegFile) :
    (∀ code (fresh : FreshRegs op1) long target, op2.arith →
      (Branches base (compareAndBranch base long code op1 op2 fresh.reg fresh.forced target) regs
          target (code.holds (op1.value regs) (op2.value regs)) ↔
        (code.signedOrder → DifferenceFits (op1.value regs) (op2.value regs)))) ∧
    (∀ code dest prog, dest ≠ zero → cstoresi4 code dest op1 op2 = some prog →
      Stores base prog regs dest (code.holds (op1.value regs) (op2.value regs))) ∧
    (∀ dest, dest ≠ zero →
      Stores base (setEqZero dest op1) regs dest (RtxCode.eq.holds (op1.value regs) 0)) := by
  refine ⟨fun code fresh long target hop2 => ?_, fun code dest prog hdest hprog => ?_,
    fun dest hdest => setEqZero_stores base hdest hop1 regs⟩
  · rw [(compareAndBranch_branches base long code hop1 hop2 fresh target regs).iff]
    by_cases hcode : code ∈ [RtxCode.ltu, .leu, .gtu, .geu]
    · have horder : code.signedOrder = false := by revert hcode; cases code <;> decide
      simp [hcode, horder]
    · rw [if_neg hcode]
      exact test_sub_iff hcode _ _
  · exact cstoresi4_stores base hdest hop1 hprog regs

/-- Register 1 holds `0x80000000` and register 2 holds 1. -/
def minAndOne : RegFile := ⟨fun r => if r = 1 then 0x80000000#32 else 1#32⟩

/-- The most negative word is less than one, but the compiled `if (a < b)` does not branch. -/
theorem cbranchsi4_lt_fails :
    ¬ ∀ (op1 op2 : Operand) (code : RtxCode) (fresh : FreshRegs op1) (regs : RegFile),
      op1.regOr0 → op2.arith →
      Branches 0 (compareAndBranch 0 false code op1 op2 fresh.reg fresh.forced 0x100#32) regs
        0x100#32 (code.holds (op1.value regs) (op2.value regs)) := by
  intro hall
  have hbranch := hall (.reg 1) (.reg 2) .lt ⟨3, 4, by decide, by decide, by decide⟩ minAndOne
    rfl rfl
  have hregs : Operand.regOr0 (.reg 1) = true ∧ Operand.arith (.reg 2) = true := ⟨rfl, rfl⟩
  rw [(compareAndBranch_branches 0 false .lt hregs.1 hregs.2
    ⟨3, 4, by decide, by decide, by decide⟩ 0x100#32 minAndOne).iff] at hbranch
  exact absurd hbranch (by decide)

theorem cbranchsi4_correct_iff_minAndOne :
    Operand.regOr0 (.reg 1) = true ∧
      (Branches 0 (compareAndBranch 0 false .lt (.reg 2) (.reg 1) 3 4 0x100#32) minAndOne 0x100#32
          (RtxCode.lt.holds 1#32 0x80000000#32) ↔
        (RtxCode.lt.signedOrder → DifferenceFits 1#32 0x80000000#32)) :=
  ⟨rfl, (cbranchsi4_correct_iff 0 (.reg 2) (.reg 1) rfl minAndOne).1 .lt
    ⟨3, 4, by decide, by decide, by decide⟩ false 0x100#32 rfl⟩

end XrLinux.Gcc
