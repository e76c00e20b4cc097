import XrLinux.Machine.Solo

/-!
# GCC port — operands of an emitted sequence

The operands an instruction template is printed with: the predicates of
`gcc/config/xr17032/predicates.md` that admit them, the operand punctuation of the templates
(`%z`, `%i`), and the register choices the constraints leave open. An output marked `=&r` is
written before the last input has been read, so its register is shared with no input and no
other output (`EarlyClobber`); inputs may share registers with each other.
-/

namespace XrLinux.Gcc

open XrLinux.Machine

/-! ## Operands and predicates -/

/-- An RTL operand after register allocation: a hard register, or a `CONST_INT`. -/
inductive Operand where
  | reg (r : Reg)
  | const (value : Int)
  deriving DecidableEq, Repr

/-- `SMALL_OPERAND`: as an unsigned number, below `IMM_REACH`. -/
def smallOperand (value : Int) : Bool := 0 ≤ value && value < 65536

theorem smallOperand_iff (value : Int) : smallOperand value ↔ 0 ≤ value ∧ value < 65536 := by
  simp [smallOperand]

/-- `SMALL_OPERAND_SIGNED`. -/
def smallOperandSigned (value : Int) : Bool := 0 ≤ value + 32768 && value + 32768 < 65536

/-- `xr17032_reg_or_0_operand`. -/
def Operand.regOr0 : Operand → Bool
  | .reg _ => true
  | .const value => value == 0

/-- `xr17032_arith_operand`. -/
def Operand.arith : Operand → Bool
  | .reg _ => true
  | .const value => smallOperand value

/-- `xr17032_arith_operand_signed`. -/
def Operand.arithSigned : Operand → Bool
  | .reg _ => true
  | .const value => smallOperandSigned value

/-- The 32-bit value an operand stands for. -/
def Operand.value (op : Operand) (regs : RegFile) : Word :=
  match op with
  | .reg r => regs.get r
  | .const value => BitVec.ofInt 32 value

/-- `%z`: the register `zero` for the constant zero, the register otherwise. -/
def Operand.z : Operand → Reg
  | .reg r => r
  | .const _ => zero

/-- `%i` and the operand after it: the immediate form of the instruction for a constant. -/
def Operand.src : Operand → Src
  | .reg r => .plain r
  | .const value => .imm (BitVec.ofInt 16 value)

theorem Operand.get_z {op : Operand} (hop : op.regOr0) (regs : RegFile) :
    regs.get op.z = op.value regs := by
  cases op with
  | reg r => rfl
  | const value =>
    have hzero : value = 0 := by simpa [Operand.regOr0] using hop
    subst hzero
    simp [Operand.z, Operand.value]

/-- A small constant survives the sixteen-bit field of an unsigned immediate form. -/
theorem zeroExtend_ofInt_of_small (value : Int) (hsmall : smallOperand value) :
    (BitVec.ofInt 16 value).zeroExtend 32 = BitVec.ofInt 32 value := by
  simp only [smallOperand, Bool.and_eq_true, decide_eq_true_eq] at hsmall
  apply BitVec.eq_of_toNat_eq
  simp only [BitVec.truncate_eq_setWidth, BitVec.toNat_setWidth, BitVec.toNat_ofInt]
  omega

theorem signExtend_ofInt_of_smallSigned (value : Int) (hsmall : smallOperandSigned value) :
    (BitVec.ofInt 16 value).signExtend 32 = BitVec.ofInt 32 value := by
  simp only [smallOperandSigned, Bool.and_eq_true, decide_eq_true_eq] at hsmall
  apply BitVec.eq_of_toInt_eq
  rw [BitVec.toInt_signExtend_of_le (by omega), BitVec.toInt_ofInt, BitVec.toInt_ofInt]
  simp only [Int.bmod]
  omega

theorem Operand.value_src {op : Operand} (hop : op.arith) {alu : AluOp}
    (halu : alu ≠ .sltSigned) (regs : RegFile) :
    op.src.value alu regs = op.value regs := by
  cases op with
  | reg r => exact Src.value_plain r alu regs
  | const value =>
    have hext := zeroExtend_ofInt_of_small value hop
    cases alu <;> first | exact absurd rfl halu | exact hext

theorem Operand.value_src_signed {op : Operand} (hop : op.arithSigned) (regs : RegFile) :
    op.src.value .sltSigned regs = op.value regs := by
  cases op with
  | reg r => exact Src.value_plain r .sltSigned regs
  | const value => exact signExtend_ofInt_of_smallSigned value hop

theorem Operand.arith_of_regOr0 {op : Operand} (hop : op.regOr0) : op.arith := by
  cases op with
  | reg r => rfl
  | const value =>
    have hzero : value = 0 := by simpa [Operand.regOr0] using hop
    subst hzero
    rfl

/-! ## Register choices -/

/-- The registers of the `=&r` operands and of the inputs of a template. -/
def EarlyClobber (outs : List Reg) (ins : List Operand) : Prop :=
  outs.Nodup ∧ zero ∉ outs ∧ ∀ o ∈ outs, Operand.reg o ∉ ins

instance (outs : List Reg) (ins : List Operand) : Decidable (EarlyClobber outs ins) := by
  unfold EarlyClobber; infer_instance

/-- What the inputs of a template hold when it starts. -/
def Reads (ins : List (Operand × Word)) (regs : RegFile) : Prop :=
  ∀ op ∈ ins, op.1.value regs = op.2

instance (ins : List (Operand × Word)) (regs : RegFile) : Decidable (Reads ins regs) := by
  unfold Reads; infer_instance

/-- Writing a register leaves the operands that are not in it. -/
theorem Operand.value_set_of_ne {op : Operand} {o : Reg} (hne : op ≠ .reg o) (regs : RegFile)
    (value : Word) : op.value (regs.set o value) = op.value regs := by
  cases op with
  | reg r => exact RegFile.get_set_of_ne fun h => hne (congrArg Operand.reg h)
  | const _ => rfl

/-- An early-clobber output may be written at any time: the inputs still read the same. -/
theorem Reads.set {outs : List Reg} {ins : List (Operand × Word)} {regs : RegFile}
    (h : Reads ins regs) (hregs : EarlyClobber outs (ins.map Prod.fst)) {o : Reg} (ho : o ∈ outs)
    (value : Word) : Reads ins (regs.set o value) := by
  intro op hop
  have hne : op.1 ≠ .reg o :=
    fun heq => hregs.2.2 o ho (heq ▸ List.mem_map_of_mem hop)
  rw [Operand.value_set_of_ne hne, h op hop]

/-- What a `%z` input reads. -/
theorem Reads.get_z {ins : List (Operand × Word)} {regs : RegFile} (h : Reads ins regs)
    {op : Operand} (hop : op.regOr0) (value : Word) (hmem : (op, value) ∈ ins) :
    regs.get op.z = value := by
  rw [Operand.get_z hop]
  exact h _ hmem

/-- What an input with an immediate form reads. -/
theorem Reads.value_src {ins : List (Operand × Word)} {regs : RegFile} (h : Reads ins regs)
    {op : Operand} (hop : op.arith) (value : Word) (hmem : (op, value) ∈ ins) (alu : AluOp)
    (halu : alu ≠ .sltSigned) : op.src.value alu regs = value := by
  rw [Operand.value_src hop halu]
  exact h _ hmem

/-! ## Read-modify-write templates -/

/-- A body that writes early-clobber outputs only leaves the inputs as they were. -/
theorem Reads.execAll {outs : List Reg} {ins : List (Operand × Word)} {regs : RegFile}
    (h : Reads ins regs) (hregs : EarlyClobber outs (ins.map Prod.fst)) {body : List Alu}
    (hbody : ∀ alu ∈ body, alu.rd ∈ outs) : Reads ins (execAll body regs) := by
  induction body generalizing regs with
  | nil => exact h
  | cons alu body ih =>
    exact ih (h.set hregs (hbody alu (by simp)) _) fun alu' halu' => hbody alu' (by simp [halu'])

/-- A read-modify-write template that writes early-clobber outputs only has its operands intact
at the last attempt, however many were lost. -/
theorem Reads.retryLoop_finishes {outs : List Reg} {ins : List (Operand × Word)} {regs : RegFile}
    (h : Reads ins regs) (hregs : EarlyClobber outs (ins.map Prod.fst)) (loc base : Word)
    (old mem flag stored : Reg) (body : List Alu) (hold : old ∈ outs) (hflag : flag ∈ outs)
    (hbody : ∀ alu ∈ body, alu.rd ∈ outs) (hmem : (.reg mem, loc) ∈ ins) (lost : List Word)
    (w : Word) :
    ∃ last, Reads ins last ∧
      Finishes loc base (retryLoop old mem body flag stored) regs (lost.map .lost ++ [.kept w])
        [(Machine.execAll body (last.set old w)).get stored]
        (· = (Machine.execAll body (last.set old w)).set flag 1) := by
  have hne : flag ≠ zero := fun heq => hregs.2.1 (heq ▸ hflag)
  refine Machine.retryLoop_finishes loc base old mem flag stored body
    (fun (_ : Unit) => Reads ins) (fun _ _ => ()) hne (fun _ _ h => h _ hmem)
    (fun _ regs found h => ?_) () h lost w
  have h' := (h.set hregs hold found).execAll hregs hbody
  exact ⟨h' _ hmem, h'.set hregs hflag 0⟩

end XrLinux.Gcc
