import Mathlib.Data.List.FinRange
import XrLinux.Gcc.Operand

/-!
# GCC port — stack frames

`xr17032_compute_frame_info` of `gcc/config/xr17032/xr17032.cc`, and the insns the prologue and
epilogue expanders hand to the rest of the compiler. From the bottom of a frame, where the stack
pointer ends up:

    outgoing arguments   up to `hardFramePointerOffset`
    local variables      up to `framePointerOffset`
    saved registers      the topmost word at `gpSpOffset`
    varargs, pretend     up to `totalSize`

Each area is rounded up to `STACK_BOUNDARY`. Every insn has an acceptance test, which is the
predicates of its pattern in `xr17032.md`, and an effect on registers and the saved words.
-/

namespace XrLinux.Gcc

open XrLinux.Machine

/-! ## Registers -/

/-- `XR17032_T0`, which is also `XR17032_PROLOGUE_TEMP_REGNUM`. -/
def t0 : Reg := 1

/-- `HARD_FRAME_POINTER_REGNUM`, `XR17032_S0`. -/
def hardFramePointer : Reg := 11

/-- `STACK_POINTER_REGNUM`. -/
def stackPointer : Reg := 30

/-- `FIXED_REGISTERS`: `zero`, `tp`, `sp` and `lr`. -/
def fixedRegister (r : Reg) : Bool := r = 0 || r = 29 || r = 30 || r = 31

/-- `EH_RETURN_DATA_REGNO`: `t0` to `t3`. -/
def ehReturnDataRegno (r : Reg) : Bool := 1 ≤ r.val && r.val < 5

/-! ## What the expanders know of a function -/

/-- What `crtl`, `cfun` and the register tables say of the function being compiled. The middle end
keeps a frame pointer in a function that calls `alloca`, and fixed registers stay fixed. -/
structure Fn where
  naked : Bool
  framePointerNeeded : Bool
  callsAlloca : Bool
  callsEhReturn : Bool
  isLeaf : Bool
  savesAllRegisters : Bool
  /-- What `xr17032_far_jump_used_p` returns. -/
  farJumpUsed : Bool
  globalRegs : Reg → Bool
  callUsedOrFixed : Reg → Bool
  everLive : Reg → Bool
  frameSize : Nat
  outgoingArgsSize : Nat
  varargsSize : Nat
  pretendArgsSize : Nat
  fixed_callUsedOrFixed : ∀ r, fixedRegister r → callUsedOrFixed r
  framePointer_of_alloca : callsAlloca → framePointerNeeded

/-- `xr17032_stack_align`. -/
def stackAlign (value : Int) : Int := (value + 3) / 4 * 4

/-- `xr17032_save_return_addr_reg_p`. -/
def Fn.saveReturnAddrReg (f : Fn) : Bool :=
  !f.isLeaf || f.callsEhReturn || f.farJumpUsed || f.everLive lr
    || (f.framePointerNeeded && f.isLeaf)

/-- `xr17032_save_reg_p`. -/
def Fn.saveReg (f : Fn) (r : Reg) : Bool :=
  let callSaved := !f.globalRegs r && !f.callUsedOrFixed r
  let mightClobber := f.savesAllRegisters || f.everLive r
  (callSaved && mightClobber) || (r = hardFramePointer && f.framePointerNeeded)
    || (r = lr && f.saveReturnAddrReg)

/-- `struct xr17032_frame_info`. -/
structure FrameInfo where
  mask : Reg → Bool
  gpSpOffset : Int
  totalSize : Int
  framePointerOffset : Int
  hardFramePointerOffset : Int
  argPointerOffset : Int

/-- The bits of `frame->mask`. A function that calls `eh_return` saves the EH data registers
too. -/
def Fn.mask (f : Fn) (r : Reg) : Bool :=
  !f.naked && (f.saveReg r || (f.callsEhReturn && ehReturnDataRegno r))

/-- `num_x_saved`, which counts an EH data register twice when it is also saved for itself. -/
def Fn.numXSaved (f : Fn) : Nat :=
  if f.naked then 0
  else (List.finRange 32).countP f.saveReg
    + if f.callsEhReturn then (List.finRange 32).countP ehReturnDataRegno else 0

/-- `frame->mask != 0`. -/
def maskNonzero (mask : Reg → Bool) : Bool := (List.finRange 32).any mask

/-- `xr17032_compute_frame_info`. -/
def Fn.computeFrameInfo (f : Fn) : FrameInfo :=
  let xSaveSize := if maskNonzero f.mask then stackAlign (f.numXSaved * 4) else 0
  let hardFramePointerOffset := stackAlign f.outgoingArgsSize
  let framePointerOffset := hardFramePointerOffset + stackAlign f.frameSize
  let saved := framePointerOffset + xSaveSize
  let offset := saved + stackAlign f.varargsSize + stackAlign f.pretendArgsSize
  { mask := f.mask
    gpSpOffset := saved - 4
    totalSize := offset
    framePointerOffset
    hardFramePointerOffset
    argPointerOffset := offset - f.pretendArgsSize }

theorem countP_or_le (p q : Reg → Bool) (regs : List Reg) :
    regs.countP (fun r => p r || q r) ≤ regs.countP p + regs.countP q := by
  induction regs with
  | nil => simp
  | cons r regs ih =>
    simp only [List.countP_cons]
    cases p r <;> cases q r <;> simp <;> omega

/-- There is a word for every saved register. -/
theorem Fn.countP_mask_le (f : Fn) : (List.finRange 32).countP f.mask ≤ f.numXSaved := by
  unfold Fn.numXSaved
  split
  next hnaked => simp [Fn.mask, hnaked]
  next hnaked =>
    have hmask : f.mask = fun r => f.saveReg r || (f.callsEhReturn && ehReturnDataRegno r) := by
      funext r
      simp [Fn.mask, hnaked]
    have hle := countP_or_le f.saveReg (fun r => f.callsEhReturn && ehReturnDataRegno r)
      (List.finRange 32)
    rw [hmask]
    split <;> simp_all

theorem countP_pos_of_maskNonzero {mask : Reg → Bool} (h : maskNonzero mask) :
    0 < (List.finRange 32).countP mask := by
  rw [List.countP_pos_iff]
  simpa [maskNonzero] using h

theorem countP_eq_zero_of_not_maskNonzero {mask : Reg → Bool} (h : ¬maskNonzero mask) :
    (List.finRange 32).countP mask = 0 := by
  rw [List.countP_eq_zero]
  simpa [maskNonzero] using h

/-- The areas of a frame follow one another, in whole words, and the saved registers fit theirs. -/
structure FrameInfo.Laid (frame : FrameInfo) : Prop where
  hardFramePointerOffset_nonneg : 0 ≤ frame.hardFramePointerOffset
  hard_le : frame.hardFramePointerOffset ≤ frame.framePointerOffset
  saved_le : frame.framePointerOffset + 4 * (List.finRange 32).countP frame.mask ≤
    frame.gpSpOffset + 4
  le_total : frame.gpSpOffset + 4 ≤ frame.totalSize
  hard_aligned : frame.hardFramePointerOffset % 4 = 0
  frame_aligned : frame.framePointerOffset % 4 = 0
  gp_aligned : frame.gpSpOffset % 4 = 0
  total_aligned : frame.totalSize % 4 = 0

theorem Fn.laid (f : Fn) : f.computeFrameInfo.Laid := by
  have hcount := f.countP_mask_le
  have hsave : (4 * (List.finRange 32).countP f.mask : Int) ≤
      if maskNonzero f.mask then stackAlign (f.numXSaved * 4) else 0 := by
    split
    next => simp only [stackAlign]; omega
    next hmask => simp [countP_eq_zero_of_not_maskNonzero hmask]
  have haligned : (if maskNonzero f.mask then stackAlign (f.numXSaved * 4) else 0) % 4 = 0 := by
    split
    next => simp only [stackAlign]; omega
    next => rfl
  constructor <;> simp only [Fn.computeFrameInfo] <;>
    generalize (if maskNonzero f.mask then stackAlign (f.numXSaved * 4) else 0) = xSaveSize
      at hsave haligned ⊢ <;>
    simp only [stackAlign] <;> omega

/-! ## Insns -/

inductive Insn where
  /-- `gen_add3_insn`, `addsi3`. -/
  | add3 (dest src : Reg) (op : Operand)
  /-- `gen_sub3_insn`, `subsi3`. -/
  | sub3 (dest src : Reg) (op : Operand)
  /-- `*movsi_internal` of a constant. -/
  | set (dest : Reg) (value : Int)
  /-- `iorsi3` with a constant. -/
  | ior (dest src : Reg) (value : Int)
  /-- `*movsi_internal` to `[sp + offset]`. -/
  | save (r : Reg) (offset : Int)
  /-- `*movsi_internal` from `[sp + offset]`. -/
  | restore (r : Reg) (offset : Int)
  /-- `xr17032_return`. -/
  | ret
  deriving DecidableEq, Repr

/-- `LUI_OPERAND`: a signed 32-bit number whose low half is zero. -/
def luiOperand (value : Int) : Bool :=
  value % 65536 = 0 && -2147483648 ≤ value && value < 2147483648

/-- `xr17032_splittable_const_int_operand`. -/
def splittableConstInt (value : Int) : Bool :=
  !luiOperand value && !smallOperand value && !smallOperand (-value)

/-- `xr17032_move_operand` of a constant, where `general_operand` asks that it is the sign
extension of its low 32 bits. -/
def moveOperand (value : Int) : Bool :=
  -2147483648 ≤ value && value < 2147483648 && !splittableConstInt value

/-- `xr17032_valid_offset_p` for a word. -/
def validOffset (offset : Int) : Bool := smallOperand offset && offset % 4 = 0

/-- Whether the pattern of an insn takes its operands. -/
def Insn.accepted : Insn → Bool
  | .add3 _ _ op => op.arith
  | .sub3 _ _ op => op.arith
  | .set _ value => moveOperand value
  | .ior _ _ value => smallOperand value
  | .save _ offset => validOffset offset
  | .restore _ offset => validOffset offset
  | .ret => true

/-- `xr17032_int_single_mov`. -/
def intSingleMov (value : Int) : Bool :=
  (-65536 ≤ value && value ≤ 65536) || luiOperand value

/-- `xr17032_move_integer`. -/
def moveInteger (temp dest : Reg) (value : Int) : List Insn :=
  if intSingleMov value then [.set dest value]
  else [.set temp (value / 65536 * 65536), .ior dest temp (value % 65536)]

/-- `xr17032_emit_move` of a constant, through `movsi` and `xr17032_legitimize_move`. -/
def emitMove (dest : Reg) (value : Int) : List Insn :=
  if splittableConstInt value then moveInteger dest dest value else [.set dest value]

/-! ## Execution -/

/-- The registers and the words of memory. -/
structure St where
  regs : RegFile
  mem : Word → Word

def St.set (st : St) (r : Reg) (value : Word) : St := { st with regs := st.regs.set r value }

def Insn.exec (insn : Insn) (st : St) : St :=
  match insn with
  | .add3 dest src op => st.set dest (st.regs.get src + op.value st.regs)
  | .sub3 dest src op => st.set dest (st.regs.get src - op.value st.regs)
  | .set dest value => st.set dest (BitVec.ofInt 32 value)
  | .ior dest src value => st.set dest (st.regs.get src ||| BitVec.ofInt 32 value)
  | .save r offset =>
    let addr := st.regs.get stackPointer + BitVec.ofInt 32 offset
    { st with mem := Function.update st.mem addr (st.regs.get r) }
  | .restore r offset => st.set r (st.mem (st.regs.get stackPointer + BitVec.ofInt 32 offset))
  | .ret => st

/-- A sequence of insns, none of which branches. -/
def exec (insns : List Insn) (st : St) : St := insns.foldl (fun st insn => insn.exec st) st

@[simp] theorem exec_nil (st : St) : exec [] st = st := rfl

@[simp] theorem exec_cons (insn : Insn) (insns : List Insn) (st : St) :
    exec (insn :: insns) st = exec insns (insn.exec st) := rfl

@[simp] theorem exec_append (before after : List Insn) (st : St) :
    exec (before ++ after) st = exec after (exec before st) := by
  simp [exec, List.foldl_append]

theorem St.get_set_self (st : St) {r : Reg} (hr : r ≠ zero) (value : Word) :
    (st.set r value).regs.get r = value := RegFile.get_set_self hr

theorem St.get_set_of_ne (st : St) {r q : Reg} (hne : q ≠ r) (value : Word) :
    (st.set r value).regs.get q = st.regs.get q := RegFile.get_set_of_ne hne

/-! ## Moving a constant -/

/-- The two halves of a constant put together. -/
theorem ofInt_high_or_low (value : Int) :
    BitVec.ofInt 32 (value / 65536 * 65536) ||| BitVec.ofInt 32 (value % 65536) =
      BitVec.ofInt 32 value := by
  apply BitVec.eq_of_toNat_eq
  have hhigh : (BitVec.ofInt 32 (value / 65536 * 65536)).toNat =
      ((value / 65536) % 65536).toNat <<< 16 := by
    rw [BitVec.toNat_ofInt, Nat.shiftLeft_eq]
    omega
  have hlow : (BitVec.ofInt 32 (value % 65536)).toNat = (value % 65536).toNat := by
    rw [BitVec.toNat_ofInt]
    omega
  rw [BitVec.toNat_or, hhigh, hlow, ← Nat.shiftLeft_add_eq_or_of_lt (by omega), Nat.shiftLeft_eq,
    BitVec.toNat_ofInt]
  omega

theorem exec_emitMove_self (st : St) {dest : Reg} (hdest : dest ≠ zero) (value : Int) :
    (exec (emitMove dest value) st).regs.get dest = BitVec.ofInt 32 value := by
  have hset : (exec [.set dest value] st).regs.get dest = BitVec.ofInt 32 value :=
    St.get_set_self st hdest _
  unfold emitMove moveInteger
  split
  · split
    · exact hset
    · -- `lui` and `ori`
      show ((st.set dest _).set dest ((st.set dest _).regs.get dest ||| _)).regs.get dest = _
      rw [St.get_set_self _ hdest, St.get_set_self _ hdest, ofInt_high_or_low]
  · exact hset

theorem exec_emitMove_of_ne (st : St) {dest q : Reg} (hq : q ≠ dest) (value : Int) :
    (exec (emitMove dest value) st).regs.get q = st.regs.get q := by
  have hset : (exec [.set dest value] st).regs.get q = st.regs.get q := St.get_set_of_ne st hq _
  unfold emitMove moveInteger
  split
  · split
    · exact hset
    · show ((st.set dest _).set dest _).regs.get q = _
      rw [St.get_set_of_ne _ hq, St.get_set_of_ne _ hq]
  · exact hset

/-- A constant can be moved exactly when it is a signed 32-bit number. -/
theorem accepted_emitMove (dest : Reg) (value : Int) :
    (∀ insn ∈ emitMove dest value, insn.accepted) ↔
      -2147483648 ≤ value ∧ value < 2147483648 := by
  have hset : Insn.accepted (.set dest value) ↔
      (-2147483648 ≤ value ∧ value < 2147483648) ∧ splittableConstInt value = false := by
    simp [Insn.accepted, moveOperand]
  unfold emitMove
  split
  next hsplit =>
    have hnot : intSingleMov value = false := by
      simp only [splittableConstInt, intSingleMov, luiOperand, smallOperand, Bool.and_eq_true,
        Bool.or_eq_false_iff, Bool.and_eq_false_iff, Bool.not_eq_true', decide_eq_false_iff_not]
        at hsplit ⊢
      omega
    have hlow : Insn.accepted (.ior dest dest (value % 65536)) := by
      simp [Insn.accepted, smallOperand]
      omega
    have hhigh : Insn.accepted (.set dest (value / 65536 * 65536)) ↔
        -2147483648 ≤ value ∧ value < 2147483648 := by
      simp [Insn.accepted, moveOperand, splittableConstInt, luiOperand]
      omega
    simp [moveInteger, hnot, hlow, hhigh]
  next hsplit => simp [hset, hsplit]

end XrLinux.Gcc
