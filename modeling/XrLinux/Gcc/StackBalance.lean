import Mathlib.Tactic.Ring
import XrLinux.Gcc.Frame

/-!
# GCC port — the prologue and the epilogue balance the stack

`xr17032_expand_prologue` and `xr17032_expand_epilogue`. Frames up to sixteen bits are allocated at
once; for a larger frame `xr17032_first_stack_step` picks a first step that covers the saved
registers, and the rest follows in one insn, in two, or through `t0`.

Two of the choices hand an expander an operand it does not take: the first of the two constants of
`xr17032_split_sum_of_two_u16` is 65536, and the frame pointer is set up with a negative constant
when the first step does not reach down to it. `stackBalanced_iff` says for which frames neither
happens.
-/

namespace XrLinux.Gcc

open XrLinux.Machine

/-! ## Expanders -/

/-- `IMM_REACH & ~3`. -/
def immReachAligned : Int := 65536 / 4 * 4

/-- `SUM_OF_TWO_U16_ALGN`. -/
def sumOfTwoU16Algn (value : Int) : Bool :=
  immReachAligned + 1 ≤ value && value ≤ immReachAligned * 2

theorem sumOfTwoU16Algn_iff (value : Int) :
    sumOfTwoU16Algn value ↔ 65537 ≤ value ∧ value ≤ 131072 := by
  simp only [sumOfTwoU16Algn, Bool.and_eq_true, decide_eq_true_eq]
  simp only [immReachAligned]
  omega

/-- `xr17032_split_sum_of_two_u16`, of a value that has passed `SUM_OF_TWO_U16_ALGN`. -/
def splitSumOfTwoU16 (value : Int) : Int × Int := (immReachAligned, value - immReachAligned)

/-- `xr17032_first_stack_step`; none when its assertion fails. -/
def firstStackStep (frame : FrameInfo) (remaining : Int) : Option Int :=
  if smallOperand remaining then some remaining
  else
    let minFirst := stackAlign (remaining - frame.framePointerOffset)
    let maxFirst := 65536 - 4
    let minSecond := remaining - maxFirst
    if minFirst ≤ maxFirst then
      if !smallOperand minSecond && remaining % 65536 ≤ maxFirst && minFirst ≤ remaining % 65536
      then some (remaining % 65536)
      else some maxFirst
    else none

/-- The loop of `xr17032_for_each_saved_reg` and `xr17032_next_saved_reg`. A register that is
skipped keeps its slot. -/
def savedRegInsns (mask skip : Reg → Bool) (fn : Reg → Int → Insn) : List Reg → Int → List Insn
  | [], _ => []
  | r :: regs, offset =>
    if mask r then
      (if skip r then [] else [fn r (offset - 4)]) ++ savedRegInsns mask skip fn regs (offset - 4)
    else savedRegInsns mask skip fn regs offset

/-- `xr17032_for_each_saved_reg`. Nothing is wrapped separately. -/
def forEachSavedReg (frame : FrameInfo) (spOffset : Int) (fn : Reg → Int → Insn)
    (skip : Reg → Bool) : List Insn :=
  savedRegInsns frame.mask skip fn (List.finRange 32) (frame.gpSpOffset - spOffset + 4)

/-- The stack pointer from `base` by `value`, with `gen_add3_insn` or `gen_sub3_insn`. -/
def adjustStack (insn : Reg → Reg → Operand → Insn) (base : Reg) (value : Int) : List Insn :=
  if smallOperand value then [insn stackPointer base (.const value)]
  else if sumOfTwoU16Algn value then
    let (one, two) := splitSumOfTwoU16 value
    [insn stackPointer base (.const one), insn stackPointer stackPointer (.const two)]
  else emitMove t0 value ++ [insn stackPointer base (.reg t0)]

/-- `xr17032_allocate_and_probe_stack_space`. -/
def allocateAndProbeStackSpace (size : Int) : List Insn := adjustStack .sub3 stackPointer size

/-- Where the prologue sets up the frame pointer, with `remaining` bytes still to allocate. -/
def setFramePointer (f : Fn) (remaining : Int) : List Insn :=
  if f.framePointerNeeded then
    [.add3 hardFramePointer stackPointer
      (.const (f.computeFrameInfo.hardFramePointerOffset - remaining))]
  else []

/-- Where the prologue allocates the rest of the frame. -/
def allocateRest (remaining : Int) : List Insn :=
  if remaining > 0 then allocateAndProbeStackSpace remaining else []

/-- `xr17032_expand_prologue`. -/
def expandPrologue (f : Fn) : Option (List Insn) :=
  let frame := f.computeFrameInfo
  if f.naked then some []
  else do
    let (saves, remaining) ←
      if maskNonzero frame.mask then do
        let (step, remaining) ←
          if frame.totalSize > frame.framePointerOffset then do
            let step1 ← firstStackStep frame frame.totalSize
            pure ([Insn.sub3 stackPointer stackPointer (.const step1)], frame.totalSize - step1)
          else pure ([], frame.totalSize)
        pure (step ++ forEachSavedReg frame remaining .save fun _ => false, remaining)
      else pure ([], frame.totalSize)
    pure (saves ++ (setFramePointer f remaining ++ allocateRest remaining))

/-- `enum xr17032_epilogue_style`. -/
inductive EpilogueStyle where
  | normal | ehReturn
  deriving DecidableEq, Repr

/-- Where the epilogue moves past dynamic allocations. -/
def dropAlloca (frame : FrameInfo) : List Insn :=
  adjustStack .add3 hardFramePointer (-frame.hardFramePointerOffset)

/-- The first of the two steps of the epilogue. -/
def releaseStep1 (step1 : Int) : List Insn :=
  if sumOfTwoU16Algn step1 then
    let (one, two) := splitSumOfTwoU16 step1
    [.add3 stackPointer stackPointer (.const one), .add3 stackPointer stackPointer (.const two)]
  else if !smallOperand step1 then
    emitMove t0 step1 ++ [.add3 stackPointer stackPointer (.reg t0)]
  else [.add3 stackPointer stackPointer (.const step1)]

/-- `xr17032_is_eh_return_data_register`. -/
def Fn.isEhReturnDataRegister (f : Fn) (r : Reg) : Bool :=
  f.callsEhReturn && ehReturnDataRegno r

/-- The two steps of the epilogue, with the registers restored between them. -/
def releaseFrame (f : Fn) (style : EpilogueStyle) (step2 : Int) : List Insn :=
  let frame := f.computeFrameInfo
  let step1 := frame.totalSize - step2
  let release := if step1 > 0 then releaseStep1 step1 else []
  let restores := forEachSavedReg frame step1 .restore
    fun r => style ≠ .ehReturn && f.isEhReturnDataRegister r
  let last := if step2 > 0 then [Insn.add3 stackPointer stackPointer (.const step2)] else []
  release ++ (restores ++ last)

/-- `xr17032_expand_epilogue`. -/
def expandEpilogue (f : Fn) (style : EpilogueStyle) : Option (List Insn) :=
  let frame := f.computeFrameInfo
  if f.naked then some []
  else if style = .normal && frame.totalSize = 0 then some [.ret]
  else do
    let alloca := if f.callsAlloca then dropAlloca frame else []
    let step2 ←
      if maskNonzero frame.mask then firstStackStep frame frame.totalSize else some 0
    pure (alloca ++ releaseFrame f style step2 ++ [.ret])

/-! ## Balance -/

/-- What the body of a function leaves alone between its prologue and its epilogue. -/
def BodyKeeps (f : Fn) (before after : St) : Prop :=
  if f.callsAlloca then after.regs.get hardFramePointer = before.regs.get hardFramePointer
  else after.regs.get stackPointer = before.regs.get stackPointer

structure GoodPrologue (f : Fn) (prologue : List Insn) : Prop where
  accepted : ∀ insn ∈ prologue, insn.accepted
  /-- A register is stored between the stack pointer and its value at entry. -/
  allocated : ∀ before r offset after, prologue = before ++ .save r offset :: after → ∀ st : St,
    0 ≤ offset ∧ offset + 4 ≤
      ((st.regs.get stackPointer - (exec before st).regs.get stackPointer).toNat : Int)
  lowers : f.naked = false → ∀ st : St, (exec prologue st).regs.get stackPointer =
    st.regs.get stackPointer - BitVec.ofInt 32 f.computeFrameInfo.totalSize
  framePointer : f.naked = false → f.framePointerNeeded → ∀ st : St,
    (exec prologue st).regs.get hardFramePointer =
      st.regs.get stackPointer - BitVec.ofInt 32 f.computeFrameInfo.totalSize
        + BitVec.ofInt 32 f.computeFrameInfo.hardFramePointerOffset

structure GoodEpilogue (f : Fn) (prologue epilogue : List Insn) : Prop where
  accepted : ∀ insn ∈ epilogue, insn.accepted
  restores : f.naked = false → ∀ st st' : St, BodyKeeps f (exec prologue st) st' →
    (exec epilogue st').regs.get stackPointer = st.regs.get stackPointer

/-- Both expanders succeed, for every kind of return, and the stack comes out even. A naked
function is given neither prologue nor epilogue. -/
def StackBalanced (f : Fn) : Prop :=
  ∃ prologue, expandPrologue f = some prologue ∧ GoodPrologue f prologue ∧
    ∀ style, ∃ epilogue, expandEpilogue f style = some epilogue ∧
      GoodEpilogue f prologue epilogue

/-- The frames the expanders cope with. -/
def Fn.Fits (f : Fn) : Prop :=
  let frame := f.computeFrameInfo
  let saveArea := frame.totalSize - frame.framePointerOffset
  let aboveOutgoing := frame.totalSize - frame.hardFramePointerOffset
  f.naked ∨
    if maskNonzero frame.mask then
      frame.totalSize < 65536 ∨
        saveArea ≤ 65532 ∧ (frame.totalSize < 131072 ∨ 196608 ≤ frame.totalSize) ∧
        (frame.totalSize < 2147483648 ∨
          frame.totalSize < 2147549180 ∧ frame.totalSize % 65536 < saveArea) ∧
        (f.framePointerNeeded → aboveOutgoing ≤ 65532 ∧
          (131072 ≤ frame.totalSize → saveArea ≤ frame.totalSize % 65536 →
            aboveOutgoing ≤ frame.totalSize % 65536)) ∧
        (f.callsAlloca → frame.hardFramePointerOffset ≤ 2147483648)
    else
      frame.totalSize ≤ 65536 ∨ 131072 < frame.totalSize ∧ frame.totalSize < 2147483648

/-! ## The saved registers -/

theorem Fn.mask_stackPointer (f : Fn) : f.mask stackPointer = false := by
  have hfixed := f.fixed_callUsedOrFixed stackPointer (by decide)
  simp [Fn.mask, Fn.saveReg, hfixed, show stackPointer ≠ hardFramePointer by decide,
    show stackPointer ≠ lr by decide, show ehReturnDataRegno stackPointer = false by decide]

/-- A frame pointer is itself a saved register. -/
theorem Fn.maskNonzero_of_framePointer (f : Fn) (hnaked : f.naked = false)
    (hfp : f.framePointerNeeded) : maskNonzero f.mask := by
  simp only [maskNonzero, List.any_eq_true, List.mem_finRange, true_and]
  exact ⟨hardFramePointer, by simp [Fn.mask, Fn.saveReg, hnaked, hfp]⟩

/-- Every slot lies between the lowest one and the first offset. -/
theorem mem_savedRegInsns {mask skip : Reg → Bool} {fn : Reg → Int → Insn} {regs : List Reg}
    {offset : Int} {insn : Insn} (h : insn ∈ savedRegInsns mask skip fn regs offset) :
    ∃ r slot, insn = fn r slot ∧ mask r ∧ offset - 4 * regs.countP mask ≤ slot ∧
      slot + 4 ≤ offset ∧ (offset - slot) % 4 = 0 := by
  induction regs generalizing offset with
  | nil => simp [savedRegInsns] at h
  | cons r regs ih =>
    by_cases hr : mask r
    · simp only [savedRegInsns, hr, if_true, List.mem_append] at h
      simp only [List.countP_cons, hr, if_true]
      cases h with
      | inl hhere =>
        have hinsn : insn = fn r (offset - 4) := by
          split at hhere <;> simp_all
        exact ⟨r, offset - 4, hinsn, hr, by omega, by omega, by omega⟩
      | inr hlater =>
        obtain ⟨q, slot, hinsn, hq, hlow, hhigh, hdvd⟩ := ih hlater
        exact ⟨q, slot, hinsn, hq, by omega, by omega, by omega⟩
    · simp only [savedRegInsns, hr] at h
      simpa [List.countP_cons, hr] using ih h

theorem exec_regs_of_saves {insns : List Insn} (h : ∀ insn ∈ insns, ∃ r slot, insn = .save r slot)
    (st : St) : (exec insns st).regs = st.regs := by
  induction insns generalizing st with
  | nil => rfl
  | cons insn insns ih =>
    obtain ⟨r, slot, rfl⟩ := h insn (by simp)
    rw [exec_cons, ih fun insn hinsn => h insn (by simp [hinsn])]
    rfl

theorem exec_get_of_restores {insns : List Insn} {q : Reg}
    (h : ∀ insn ∈ insns, ∃ r slot, insn = .restore r slot ∧ q ≠ r) (st : St) :
    (exec insns st).regs.get q = st.regs.get q := by
  induction insns generalizing st with
  | nil => rfl
  | cons insn insns ih =>
    obtain ⟨r, slot, rfl, hq⟩ := h insn (by simp)
    rw [exec_cons, ih fun insn hinsn => h insn (by simp [hinsn])]
    exact St.get_set_of_ne st hq _

/-! ## One adjustment -/

/-- The constants by which the stack pointer can be adjusted. -/
def Adjustable (value : Int) : Prop :=
  smallOperand value ∨
    sumOfTwoU16Algn value = false ∧ -2147483648 ≤ value ∧ value < 2147483648

theorem accepted_adjustStack {insn : Reg → Reg → Operand → Insn}
    (hinsn : ∀ dest src op, (insn dest src op).accepted = op.arith) (base : Reg) (value : Int) :
    (∀ i ∈ adjustStack insn base value, i.accepted) ↔ Adjustable value := by
  unfold adjustStack Adjustable
  split
  next hsmall => simp [hinsn, Operand.arith, hsmall]
  next hsmall =>
    split
    next hsum =>
      -- the first constant is 65536
      have hbad : smallOperand immReachAligned = false := by decide
      simp [splitSumOfTwoU16, hinsn, Operand.arith, hsmall, hsum, hbad]
    next hsum =>
      have hmove := accepted_emitMove t0 value
      simp only [List.mem_append, or_imp, forall_and, hmove]
      simp [hinsn, Operand.arith, hsmall, hsum]

/-- `gen_add3_insn` and `gen_sub3_insn` as operations on words. -/
structure Adjusts (insn : Reg → Reg → Operand → Insn) (g : Word → Word → Word) : Prop where
  exec_eq : ∀ dest src op (st : St),
    (insn dest src op).exec st = st.set dest (g (st.regs.get src) (op.value st.regs))
  twice : ∀ a b c, g (g a b) c = g a (b + c)

theorem adjusts_add3 : Adjusts .add3 (· + ·) := ⟨fun _ _ _ _ => rfl, fun a b c => add_assoc a b c⟩

theorem adjusts_sub3 : Adjusts .sub3 (· - ·) :=
  ⟨fun _ _ _ _ => rfl, fun a b c => sub_sub a b c⟩

theorem exec_adjustStack {insn : Reg → Reg → Operand → Insn} {g : Word → Word → Word}
    (h : Adjusts insn g) {base : Reg} (hbase : base ≠ t0) (value : Int) (st : St) :
    (exec (adjustStack insn base value) st).regs.get stackPointer =
      g (st.regs.get base) (BitVec.ofInt 32 value) := by
  have hsp : stackPointer ≠ zero := by decide
  unfold adjustStack
  split
  · rw [exec_cons, exec_nil, h.exec_eq, St.get_set_self _ hsp]
    rfl
  · split
    · have hsum : BitVec.ofInt 32 value =
          BitVec.ofInt 32 immReachAligned + BitVec.ofInt 32 (value - immReachAligned) := by
        rw [← BitVec.ofInt_add, add_sub_cancel]
      rw [hsum, ← h.twice]
      simp only [splitSumOfTwoU16, exec_cons, exec_nil, h.exec_eq]
      rw [St.get_set_self _ hsp, St.get_set_self _ hsp]
      rfl
    · rw [exec_append, exec_cons, exec_nil, h.exec_eq, St.get_set_self _ hsp]
      show g _ (RegFile.get _ t0) = _
      rw [exec_emitMove_self _ (by decide), exec_emitMove_of_ne _ hbase]

/-- Only the stack pointer and the temporary change. -/
theorem exec_adjustStack_of_ne {insn : Reg → Reg → Operand → Insn} {g : Word → Word → Word}
    (h : Adjusts insn g) (base : Reg) {q : Reg} (hq : q ≠ stackPointer) (hq0 : q ≠ t0)
    (value : Int) (st : St) :
    (exec (adjustStack insn base value) st).regs.get q = st.regs.get q := by
  unfold adjustStack
  split
  · rw [exec_cons, exec_nil, h.exec_eq, St.get_set_of_ne _ hq]
  · split
    · simp only [splitSumOfTwoU16, exec_cons, exec_nil, h.exec_eq]
      rw [St.get_set_of_ne _ hq, St.get_set_of_ne _ hq]
    · rw [exec_append, exec_cons, exec_nil, h.exec_eq, St.get_set_of_ne _ hq,
        exec_emitMove_of_ne _ hq0]

/-- The epilogue tests the two ranges, which do not meet, in the other order. -/
theorem releaseStep1_eq (step1 : Int) :
    releaseStep1 step1 = adjustStack .add3 stackPointer step1 := by
  have hdisj : smallOperand step1 → sumOfTwoU16Algn step1 = false := by
    intro hsmall
    rw [← Bool.not_eq_true, sumOfTwoU16Algn_iff]
    rw [smallOperand_iff] at hsmall
    omega
  unfold releaseStep1 adjustStack
  cases hsmall : smallOperand step1 with
  | true => simp [hdisj hsmall]
  | false => simp

/-! ## The first step -/

theorem firstStackStep_small {frame : FrameInfo} (h : frame.Laid)
    (hsmall : frame.totalSize < 65536) :
    firstStackStep frame frame.totalSize = some frame.totalSize := by
  have hnonneg : 0 ≤ frame.totalSize := by
    have := h.hardFramePointerOffset_nonneg
    have := h.hard_le
    have := h.saved_le
    have := h.le_total
    omega
  have hop : smallOperand frame.totalSize := (smallOperand_iff _).2 ⟨hnonneg, hsmall⟩
  simp [firstStackStep, hop]

/-- The first step of a frame of more than sixteen bits. -/
theorem firstStackStep_large {frame : FrameInfo} (h : frame.Laid)
    (hlarge : 65536 ≤ frame.totalSize) :
    firstStackStep frame frame.totalSize =
      if frame.totalSize - frame.framePointerOffset ≤ 65532 then
        some (if 131072 ≤ frame.totalSize ∧
            frame.totalSize - frame.framePointerOffset ≤ frame.totalSize % 65536
          then frame.totalSize % 65536 else 65532)
      else none := by
  have hop : smallOperand frame.totalSize = false := by
    rw [← Bool.not_eq_true, smallOperand_iff]
    omega
  have htotal := h.total_aligned
  have hframe := h.frame_aligned
  have hmin : stackAlign (frame.totalSize - frame.framePointerOffset) =
      frame.totalSize - frame.framePointerOffset := by
    simp only [stackAlign]
    omega
  have hmaxFirst : (65536 - 4 : Int) = 65532 := rfl
  simp only [firstStackStep, hop, hmin, hmaxFirst, Bool.false_eq_true, if_false]
  split
  next hmax =>
    -- from 131068 bytes on the low half is an option; at 131068 it is the maximum anyway
    have hsecond : smallOperand (frame.totalSize - 65532) = false ↔
        131068 ≤ frame.totalSize := by
      rw [← Bool.not_eq_true, smallOperand_iff]
      omega
    simp only [Bool.and_eq_true, Bool.not_eq_true', decide_eq_true_eq, hsecond]
    split <;> split <;> congr 1 <;> omega
  next hmax => rfl

/-- The first step covers the saved registers and is itself a small operand. -/
theorem firstStackStep_spec {frame : FrameInfo} (h : frame.Laid) {step : Int}
    (hstep : firstStackStep frame frame.totalSize = some step) :
    frame.totalSize - frame.framePointerOffset ≤ step ∧ step ≤ frame.totalSize ∧
      smallOperand step ∧ step % 4 = 0 := by
  have hhard := h.hardFramePointerOffset_nonneg
  have hle := h.hard_le
  have hsaved := h.saved_le
  have htotal := h.le_total
  have haligned := h.total_aligned
  rw [smallOperand_iff]
  by_cases hsmall : frame.totalSize < 65536
  · rw [firstStackStep_small h hsmall, Option.some.injEq] at hstep
    omega
  · rw [firstStackStep_large h (by omega)] at hstep
    split at hstep
    next hmax =>
      rw [Option.some.injEq] at hstep
      split at hstep <;> omega
    next hmax => cases hstep

/-! ## The prologue -/

/-- The insns that move a constant. -/
theorem mem_emitMove {dest : Reg} {value : Int} {insn : Insn} (h : insn ∈ emitMove dest value) :
    ∃ v, insn = .set dest v ∨ insn = .ior dest dest v := by
  unfold emitMove moveInteger at h
  split at h
  · split at h
    · exact ⟨_, .inl (List.mem_singleton.1 h)⟩
    · rcases List.mem_pair.1 h with rfl | rfl
      · exact ⟨_, .inl rfl⟩
      · exact ⟨_, .inr rfl⟩
  · exact ⟨_, .inl (List.mem_singleton.1 h)⟩

/-- The insns that adjust the stack pointer. -/
theorem mem_adjustStack {insn : Reg → Reg → Operand → Insn} {base : Reg} {value : Int} {i : Insn}
    (h : i ∈ adjustStack insn base value) :
    (∃ src op, i = insn stackPointer src op) ∨ ∃ v, i = .set t0 v ∨ i = .ior t0 t0 v := by
  unfold adjustStack at h
  split at h
  · exact .inl ⟨_, _, List.mem_singleton.1 h⟩
  · split at h
    · rcases List.mem_pair.1 h with rfl | rfl
      · exact .inl ⟨_, _, rfl⟩
      · exact .inl ⟨_, _, rfl⟩
    · rcases List.mem_append.1 h with hmove | hadd
      · exact .inr (mem_emitMove hmove)
      · exact .inl ⟨_, _, List.mem_singleton.1 hadd⟩

/-- What follows the saved registers stores none. -/
theorem not_save_of_mem_rest {f : Fn} {remaining : Int} {insn : Insn}
    (h : insn ∈ setFramePointer f remaining ++ allocateRest remaining) (r : Reg) (slot : Int) :
    insn ≠ .save r slot := by
  intro heq
  subst heq
  rw [List.mem_append] at h
  cases h with
  | inl hset =>
    unfold setFramePointer at hset
    split at hset <;> simp at hset
  | inr hrest =>
    unfold allocateRest at hrest
    split at hrest
    · obtain ⟨_, _, heq⟩ | ⟨_, heq | heq⟩ := mem_adjustStack hrest <;> cases heq
    · simp at hrest

theorem accepted_rest (f : Fn) {remaining : Int} (hnonneg : 0 ≤ remaining) :
    (∀ insn ∈ setFramePointer f remaining ++ allocateRest remaining, insn.accepted) ↔
      (f.framePointerNeeded →
        smallOperand (f.computeFrameInfo.hardFramePointerOffset - remaining)) ∧
      Adjustable remaining := by
  have hset : (∀ insn ∈ setFramePointer f remaining, insn.accepted) ↔
      (f.framePointerNeeded →
        smallOperand (f.computeFrameInfo.hardFramePointerOffset - remaining)) := by
    unfold setFramePointer
    split
    next hfp => simp [hfp, Insn.accepted, Operand.arith]
    next hfp => simp [hfp]
  have hrest : (∀ insn ∈ allocateRest remaining, insn.accepted) ↔ Adjustable remaining := by
    unfold allocateRest
    split
    next hpos => exact accepted_adjustStack (fun _ _ _ => rfl) stackPointer remaining
    next hpos =>
      obtain rfl : remaining = 0 := by omega
      simp [Adjustable, smallOperand]
  simp only [List.mem_append, or_imp, forall_and, hset, hrest]

theorem exec_setFramePointer_stackPointer (f : Fn) (remaining : Int) (st : St) :
    (exec (setFramePointer f remaining) st).regs.get stackPointer =
      st.regs.get stackPointer := by
  unfold setFramePointer
  split
  · exact St.get_set_of_ne st (by decide) _
  · rfl

theorem exec_allocateRest {remaining : Int} (hnonneg : 0 ≤ remaining) (st : St) :
    (exec (allocateRest remaining) st).regs.get stackPointer =
        st.regs.get stackPointer - BitVec.ofInt 32 remaining ∧
      (exec (allocateRest remaining) st).regs.get hardFramePointer =
        st.regs.get hardFramePointer := by
  unfold allocateRest
  split
  · exact ⟨exec_adjustStack adjusts_sub3 (by decide) remaining st,
      exec_adjustStack_of_ne adjusts_sub3 stackPointer (by decide) (by decide) remaining st⟩
  · obtain rfl : remaining = 0 := by omega
    simp

/-- The end of the prologue, from where `remaining` bytes are still to allocate. -/
theorem exec_rest (f : Fn) {remaining : Int} (hnonneg : 0 ≤ remaining) (st : St) :
    (exec (setFramePointer f remaining ++ allocateRest remaining) st).regs.get stackPointer =
        st.regs.get stackPointer - BitVec.ofInt 32 remaining ∧
      (f.framePointerNeeded →
        (exec (setFramePointer f remaining ++ allocateRest remaining) st).regs.get
            hardFramePointer =
          st.regs.get stackPointer - BitVec.ofInt 32 remaining
            + BitVec.ofInt 32 f.computeFrameInfo.hardFramePointerOffset) := by
  have hset := exec_setFramePointer_stackPointer f remaining st
  have hrest := exec_allocateRest hnonneg (exec (setFramePointer f remaining) st)
  rw [exec_append]
  constructor
  · rw [hrest.1, hset]
  · intro hfp
    have hvalue : (exec (setFramePointer f remaining) st).regs.get hardFramePointer =
        st.regs.get stackPointer +
          BitVec.ofInt 32 (f.computeFrameInfo.hardFramePointerOffset - remaining) := by
      unfold setFramePointer
      rw [if_pos hfp]
      exact St.get_set_self st (by decide) _
    rw [hrest.2, hvalue, sub_eq_add_neg, BitVec.ofInt_add, BitVec.ofInt_neg]
    ring

/-- The prologue of a function that saves registers, with a first step of `step1`. -/
def savingPrologue (f : Fn) (step1 : Int) : List Insn :=
  let frame := f.computeFrameInfo
  let remaining := frame.totalSize - step1
  .sub3 stackPointer stackPointer (.const step1) ::
    (forEachSavedReg frame remaining .save (fun _ => false) ++
      (setFramePointer f remaining ++ allocateRest remaining))

theorem expandPrologue_saving (f : Fn) (hnaked : f.naked = false)
    (hmask : maskNonzero f.mask) :
    expandPrologue f =
      (firstStackStep f.computeFrameInfo f.computeFrameInfo.totalSize).map (savingPrologue f) := by
  have hmask' : maskNonzero f.computeFrameInfo.mask := hmask
  have hgt : f.computeFrameInfo.totalSize > f.computeFrameInfo.framePointerOffset := by
    have hcount : 0 < (List.finRange 32).countP f.computeFrameInfo.mask :=
      countP_pos_of_maskNonzero hmask
    have hsaved := f.laid.saved_le
    have htotal := f.laid.le_total
    omega
  simp only [expandPrologue, hnaked, hmask', hgt, if_true, Bool.false_eq_true, if_false]
  cases firstStackStep f.computeFrameInfo f.computeFrameInfo.totalSize with
  | none => rfl
  | some step1 => simp [savingPrologue]

theorem expandPrologue_not_saving (f : Fn) (hnaked : f.naked = false)
    (hmask : ¬maskNonzero f.mask) :
    expandPrologue f = some (setFramePointer f f.computeFrameInfo.totalSize ++
      allocateRest f.computeFrameInfo.totalSize) := by
  have hmask' : ¬maskNonzero f.computeFrameInfo.mask := hmask
  simp [expandPrologue, hnaked, hmask']

/-- A slot of a saved register, relative to the stack pointer after the first step. -/
theorem slot_of_mem_forEachSavedReg {f : Fn} {step1 : Int}
    (hstep : firstStackStep f.computeFrameInfo f.computeFrameInfo.totalSize = some step1)
    {fn : Reg → Int → Insn} {skip : Reg → Bool} {insn : Insn}
    (h : insn ∈ forEachSavedReg f.computeFrameInfo
      (f.computeFrameInfo.totalSize - step1) fn skip) :
    ∃ r slot, insn = fn r slot ∧ f.mask r ∧ 0 ≤ slot ∧ slot + 4 ≤ step1 ∧ validOffset slot := by
  obtain ⟨hcover, _, hsmall, haligned⟩ := firstStackStep_spec f.laid hstep
  obtain ⟨r, slot, hinsn, hr, hlow, hhigh, hdvd⟩ := mem_savedRegInsns h
  rw [smallOperand_iff] at hsmall
  have hsaved := f.laid.saved_le
  have htotal := f.laid.le_total
  have hgp := f.laid.gp_aligned
  have htotalAligned := f.laid.total_aligned
  refine ⟨r, slot, hinsn, hr, by omega, by omega, ?_⟩
  rw [validOffset, Bool.and_eq_true, smallOperand_iff, decide_eq_true_eq]
  omega

/-- A save stands before the end of the prologue, among the saves. -/
theorem saves_of_append {saves rest before after : List Insn} {r : Reg} {slot : Int}
    (hrest : ∀ insn ∈ rest, insn ≠ .save r slot)
    (h : saves ++ rest = before ++ .save r slot :: after) :
    (∀ insn ∈ before, insn ∈ saves) ∧ Insn.save r slot ∈ saves := by
  rw [List.append_eq_append_iff] at h
  cases h with
  | inl hlate =>
    obtain ⟨middle, _, hmiddle⟩ := hlate
    exact absurd rfl (hrest (.save r slot) (by simp [hmiddle]))
  | inr hearly =>
    obtain ⟨middle, hsaves, hmiddle⟩ := hearly
    cases middle with
    | nil =>
      have hmem : Insn.save r slot ∈ rest := by
        rw [List.nil_append] at hmiddle
        exact hmiddle ▸ List.mem_cons_self
      exact absurd rfl (hrest _ hmem)
    | cons insn middle =>
      obtain ⟨rfl, _⟩ := List.cons.inj hmiddle
      subst hsaves
      exact ⟨fun insn hinsn => by simp [hinsn], by simp⟩

/-- The saves leave the registers alone. -/
theorem exec_regs_of_saved {f : Fn} {step1 : Int}
    (hstep : firstStackStep f.computeFrameInfo f.computeFrameInfo.totalSize = some step1)
    {insns : List Insn} (hinsns : ∀ insn ∈ insns, insn ∈ forEachSavedReg f.computeFrameInfo
      (f.computeFrameInfo.totalSize - step1) .save fun _ => false) (st : St) :
    (exec insns st).regs = st.regs := by
  refine exec_regs_of_saves (fun insn hinsn => ?_) st
  obtain ⟨r, slot, heq, _⟩ := slot_of_mem_forEachSavedReg hstep (hinsns insn hinsn)
  exact ⟨r, slot, heq⟩

theorem exec_savingPrologue {f : Fn} {step1 : Int}
    (hstep : firstStackStep f.computeFrameInfo f.computeFrameInfo.totalSize = some step1)
    (st : St) :
    (exec (savingPrologue f step1) st).regs.get stackPointer =
        st.regs.get stackPointer - BitVec.ofInt 32 f.computeFrameInfo.totalSize ∧
      (f.framePointerNeeded →
        (exec (savingPrologue f step1) st).regs.get hardFramePointer =
          st.regs.get stackPointer - BitVec.ofInt 32 f.computeFrameInfo.totalSize
            + BitVec.ofInt 32 f.computeFrameInfo.hardFramePointerOffset) := by
  obtain ⟨_, hle, _, _⟩ := firstStackStep_spec f.laid hstep
  have hfirst : (Insn.exec (.sub3 stackPointer stackPointer (.const step1)) st).regs.get
      stackPointer = st.regs.get stackPointer - BitVec.ofInt 32 step1 :=
    St.get_set_self st (by decide) _
  have htotal : BitVec.ofInt 32 f.computeFrameInfo.totalSize = BitVec.ofInt 32 step1 +
      BitVec.ofInt 32 (f.computeFrameInfo.totalSize - step1) := by
    rw [← BitVec.ofInt_add, add_sub_cancel]
  simp only [savingPrologue, exec_cons, exec_append]
  rw [← exec_append]
  constructor
  · rw [(exec_rest f (by omega) _).1, exec_regs_of_saved hstep fun _ h => h, hfirst, htotal,
      sub_sub]
  · intro hfp
    rw [(exec_rest f (by omega) _).2 hfp, exec_regs_of_saved hstep fun _ h => h, hfirst, htotal,
      sub_sub]

theorem goodPrologue_saving_iff (f : Fn) {step1 : Int}
    (hstep : firstStackStep f.computeFrameInfo f.computeFrameInfo.totalSize = some step1) :
    GoodPrologue f (savingPrologue f step1) ↔
      (f.framePointerNeeded → smallOperand (f.computeFrameInfo.hardFramePointerOffset
        - (f.computeFrameInfo.totalSize - step1))) ∧
      Adjustable (f.computeFrameInfo.totalSize - step1) := by
  obtain ⟨_, hle, hsmall, _⟩ := firstStackStep_spec f.laid hstep
  have hrest := accepted_rest f (show 0 ≤ f.computeFrameInfo.totalSize - step1 by omega)
  constructor
  · intro h
    refine hrest.1 fun insn hinsn => h.accepted insn ?_
    exact List.mem_cons_of_mem _ (List.mem_append_right _ hinsn)
  · intro h
    have hfirst (st : St) : (Insn.exec (.sub3 stackPointer stackPointer (.const step1)) st).regs.get
        stackPointer = st.regs.get stackPointer - BitVec.ofInt 32 step1 :=
      St.get_set_self st (by decide) _
    constructor
    · intro insn hinsn
      simp only [savingPrologue, List.mem_cons, List.mem_append] at hinsn
      rcases hinsn with rfl | hsave | htail
      · exact hsmall
      · obtain ⟨r, slot, rfl, _, _, _, hvalid⟩ := slot_of_mem_forEachSavedReg hstep hsave
        exact hvalid
      · exact hrest.2 h insn (List.mem_append.2 htail)
    · intro before r offset after heq st
      cases before with
      | nil => cases heq
      | cons insn before =>
        -- a save has the first step and other saves before it
        obtain ⟨rfl, htail⟩ := List.cons.inj heq
        obtain ⟨hbefore, hmem⟩ := saves_of_append
          (fun insn hinsn => not_save_of_mem_rest hinsn r offset) htail
        obtain ⟨r', slot, hslot, _, hlow, hhigh, _⟩ := slot_of_mem_forEachSavedReg hstep hmem
        obtain ⟨rfl, rfl⟩ := Insn.save.inj hslot
        rw [exec_cons, exec_regs_of_saved hstep hbefore, hfirst, sub_sub_cancel, BitVec.toNat_ofInt]
        rw [smallOperand_iff] at hsmall
        omega
    · exact fun _ st => (exec_savingPrologue hstep st).1
    · exact fun _ hfp st => (exec_savingPrologue hstep st).2 hfp

theorem goodPrologue_not_saving_iff (f : Fn) (hfp : f.framePointerNeeded = false) :
    GoodPrologue f (setFramePointer f f.computeFrameInfo.totalSize ++
        allocateRest f.computeFrameInfo.totalSize) ↔
      Adjustable f.computeFrameInfo.totalSize := by
  have hnonneg : 0 ≤ f.computeFrameInfo.totalSize := by
    have := f.laid.hardFramePointerOffset_nonneg
    have := f.laid.hard_le
    have := f.laid.saved_le
    have := f.laid.le_total
    omega
  have hrest := accepted_rest f hnonneg
  constructor
  · intro h
    exact (hrest.1 h.accepted).2
  · intro h
    constructor
    · exact hrest.2 ⟨fun hfp' => by simp [hfp] at hfp', h⟩
    · intro before r offset after heq
      have hmem : Insn.save r offset ∈ setFramePointer f f.computeFrameInfo.totalSize ++
          allocateRest f.computeFrameInfo.totalSize := by simp [heq]
      exact absurd rfl (not_save_of_mem_rest hmem r offset)
    · exact fun _ st => (exec_rest f hnonneg st).1
    · exact fun _ hfp' => by simp [hfp] at hfp'

/-! ## The epilogue -/

/-- The second step of the epilogue is the first step of the prologue, or nothing. -/
def Step2 (f : Fn) (step2 : Int) : Prop :=
  if maskNonzero f.mask then
    firstStackStep f.computeFrameInfo f.computeFrameInfo.totalSize = some step2
  else step2 = 0

theorem Step2.bounds {f : Fn} {step2 : Int} (h : Step2 f step2) :
    0 ≤ step2 ∧ step2 ≤ f.computeFrameInfo.totalSize ∧ smallOperand step2 := by
  have hhard := f.laid.hardFramePointerOffset_nonneg
  have hle := f.laid.hard_le
  have hsaved := f.laid.saved_le
  have htotal := f.laid.le_total
  unfold Step2 at h
  split at h
  next =>
    obtain ⟨_, hstep, hsmall, _⟩ := firstStackStep_spec f.laid h
    exact ⟨((smallOperand_iff _).1 hsmall).1, hstep, hsmall⟩
  next =>
    subst h
    exact ⟨le_refl 0, by omega, by decide⟩

theorem Step2.slot {f : Fn} {step2 : Int} (h : Step2 f step2) {fn : Reg → Int → Insn}
    {skip : Reg → Bool} {insn : Insn} (hinsn : insn ∈ forEachSavedReg f.computeFrameInfo
      (f.computeFrameInfo.totalSize - step2) fn skip) :
    ∃ r slot, insn = fn r slot ∧ f.mask r ∧ validOffset slot := by
  unfold Step2 at h
  split at h
  next =>
    obtain ⟨r, slot, heq, hr, _, _, hvalid⟩ := slot_of_mem_forEachSavedReg h hinsn
    exact ⟨r, slot, heq, hr, hvalid⟩
  next hmask =>
    obtain ⟨r, _, _, hr, _⟩ := mem_savedRegInsns hinsn
    exact absurd (List.any_eq_true.2 ⟨r, List.mem_finRange r, hr⟩) hmask

theorem accepted_releaseFrame {f : Fn} {step2 : Int} (h : Step2 f step2)
    (style : EpilogueStyle) :
    (∀ insn ∈ releaseFrame f style step2, insn.accepted) ↔
      Adjustable (f.computeFrameInfo.totalSize - step2) := by
  obtain ⟨hnonneg, hle, hsmall⟩ := h.bounds
  have hrelease : (∀ insn ∈ if f.computeFrameInfo.totalSize - step2 > 0 then
      releaseStep1 (f.computeFrameInfo.totalSize - step2) else [], insn.accepted) ↔
      Adjustable (f.computeFrameInfo.totalSize - step2) := by
    split
    next =>
      rw [releaseStep1_eq]
      exact accepted_adjustStack (fun _ _ _ => rfl) stackPointer _
    next hpos =>
      obtain hzero : f.computeFrameInfo.totalSize - step2 = 0 := by omega
      simp [hzero, Adjustable, smallOperand]
  have hrestores : ∀ insn ∈ forEachSavedReg f.computeFrameInfo
      (f.computeFrameInfo.totalSize - step2) .restore
      (fun r => style ≠ .ehReturn && f.isEhReturnDataRegister r), insn.accepted := by
    intro insn hinsn
    obtain ⟨r, slot, rfl, _, hvalid⟩ := h.slot hinsn
    exact hvalid
  have hlast : ∀ insn ∈ if step2 > 0 then
      [Insn.add3 stackPointer stackPointer (.const step2)] else [], insn.accepted := by
    split <;> simp [Insn.accepted, Operand.arith, hsmall]
  unfold releaseFrame
  simp only [List.mem_append, or_imp, forall_and, hrelease]
  exact ⟨fun hall => hall.1, fun hadj => ⟨hadj, hrestores, hlast⟩⟩

/-- The first step, also where there is none. -/
theorem exec_releaseStep1 {step1 : Int} (hnonneg : 0 ≤ step1) (st : St) :
    (exec (if step1 > 0 then releaseStep1 step1 else []) st).regs.get stackPointer =
      st.regs.get stackPointer + BitVec.ofInt 32 step1 := by
  split
  next =>
    rw [releaseStep1_eq]
    exact exec_adjustStack adjusts_add3 (by decide) _ st
  next hpos =>
    obtain rfl : step1 = 0 := by omega
    simp

/-- The two steps add up to the frame. -/
theorem exec_releaseFrame {f : Fn} {step2 : Int} (h : Step2 f step2) (style : EpilogueStyle)
    (st : St) :
    (exec (releaseFrame f style step2) st).regs.get stackPointer =
      st.regs.get stackPointer + BitVec.ofInt 32 f.computeFrameInfo.totalSize := by
  obtain ⟨hnonneg, hle, _⟩ := h.bounds
  have hrestores : ∀ st : St, (exec (forEachSavedReg f.computeFrameInfo
      (f.computeFrameInfo.totalSize - step2) .restore
      (fun r => style ≠ .ehReturn && f.isEhReturnDataRegister r)) st).regs.get stackPointer =
      st.regs.get stackPointer := by
    refine exec_get_of_restores fun insn hinsn => ?_
    obtain ⟨r, slot, rfl, hr, _⟩ := h.slot hinsn
    refine ⟨r, slot, rfl, fun heq => ?_⟩
    rw [← heq, f.mask_stackPointer] at hr
    cases hr
  have hlast : ∀ st : St, (exec (if step2 > 0 then
      [Insn.add3 stackPointer stackPointer (.const step2)] else []) st).regs.get stackPointer =
      st.regs.get stackPointer + BitVec.ofInt 32 step2 := by
    intro st
    split
    next => exact St.get_set_self st (by decide) _
    next hpos =>
      obtain rfl : step2 = 0 := by omega
      simp
  have htotal : BitVec.ofInt 32 f.computeFrameInfo.totalSize =
      BitVec.ofInt 32 (f.computeFrameInfo.totalSize - step2) + BitVec.ofInt 32 step2 := by
    rw [← BitVec.ofInt_add, sub_add_cancel]
  unfold releaseFrame
  simp only [exec_append]
  rw [hlast, hrestores, exec_releaseStep1 (by omega), htotal, add_assoc]

/-- After the body, and with dynamic allocations dropped, the stack pointer is where the prologue
has put it. -/
theorem exec_dropAlloca {f : Fn} {st st' before : St} (hbody : BodyKeeps f before st')
    (hlowers : before.regs.get stackPointer =
      st.regs.get stackPointer - BitVec.ofInt 32 f.computeFrameInfo.totalSize)
    (hframe : f.framePointerNeeded → before.regs.get hardFramePointer =
      st.regs.get stackPointer - BitVec.ofInt 32 f.computeFrameInfo.totalSize
        + BitVec.ofInt 32 f.computeFrameInfo.hardFramePointerOffset) :
    (exec (if f.callsAlloca then dropAlloca f.computeFrameInfo else []) st').regs.get
        stackPointer =
      st.regs.get stackPointer - BitVec.ofInt 32 f.computeFrameInfo.totalSize := by
  unfold BodyKeeps at hbody
  cases halloca : f.callsAlloca with
  | true =>
    rw [if_pos halloca] at hbody
    have hfp := hframe (f.framePointer_of_alloca halloca)
    show (exec (dropAlloca f.computeFrameInfo) st').regs.get stackPointer = _
    rw [dropAlloca, exec_adjustStack adjusts_add3 (by decide), hbody, hfp, BitVec.ofInt_neg]
    exact add_neg_cancel_right _ _
  | false =>
    rw [halloca, if_neg Bool.false_ne_true] at hbody
    exact hbody.trans hlowers

theorem goodEpilogue_iff {f : Fn} {prologue : List Insn} (h : GoodPrologue f prologue)
    (hnaked : f.naked = false) {step2 : Int} (hstep : Step2 f step2) (style : EpilogueStyle) :
    GoodEpilogue f prologue ((if f.callsAlloca then dropAlloca f.computeFrameInfo else []) ++
        releaseFrame f style step2 ++ [.ret]) ↔
      (f.callsAlloca → Adjustable (-f.computeFrameInfo.hardFramePointerOffset)) ∧
        Adjustable (f.computeFrameInfo.totalSize - step2) := by
  have halloca : (∀ insn ∈ if f.callsAlloca then dropAlloca f.computeFrameInfo else [],
      insn.accepted) ↔
      (f.callsAlloca → Adjustable (-f.computeFrameInfo.hardFramePointerOffset)) := by
    split
    next hcalls =>
      rw [dropAlloca, accepted_adjustStack fun _ _ _ => rfl]
      simp [hcalls]
    next hcalls => simp [hcalls]
  have hrelease := accepted_releaseFrame hstep style
  constructor
  · intro hgood
    exact ⟨halloca.1 fun insn hinsn => hgood.accepted insn (by simp [hinsn]),
      hrelease.1 fun insn hinsn => hgood.accepted insn (by simp [hinsn])⟩
  · intro hadj
    constructor
    · intro insn hinsn
      rw [List.mem_append, List.mem_append, List.mem_singleton] at hinsn
      rcases hinsn with (hdrop | hsteps) | rfl
      · exact halloca.2 hadj.1 insn hdrop
      · exact hrelease.2 hadj.2 insn hsteps
      · rfl
    · intro _ st st' hbody
      rw [exec_append, exec_append]
      show (exec (releaseFrame f style step2) _).regs.get stackPointer = _
      rw [exec_releaseFrame hstep, exec_dropAlloca hbody (h.lowers hnaked st)
        fun hfp => h.framePointer hnaked hfp st, sub_add_cancel]

/-! ## Both together -/

theorem expandEpilogue_eq {f : Fn} (hnaked : f.naked = false) {step2 : Int}
    (hstep : Step2 f step2) {style : EpilogueStyle}
    (hframe : style = .ehReturn ∨ f.computeFrameInfo.totalSize ≠ 0) :
    expandEpilogue f style = some ((if f.callsAlloca then dropAlloca f.computeFrameInfo else []) ++
      releaseFrame f style step2 ++ [.ret]) := by
  have hearly : (decide (style = .normal) && decide (f.computeFrameInfo.totalSize = 0)) = false := by
    cases hframe with
    | inl hstyle => simp [hstyle]
    | inr htotal => simp [htotal]
  have hmask : f.computeFrameInfo.mask = f.mask := rfl
  simp only [expandEpilogue, hnaked, hearly, hmask, Bool.false_eq_true, if_false]
  unfold Step2 at hstep
  split at hstep
  next hnonzero =>
    rw [if_pos hnonzero, hstep]
    rfl
  next hzero =>
    rw [if_neg hzero, hstep]
    rfl

/-- A function without a frame returns at once. -/
theorem goodEpilogue_return {f : Fn} {prologue : List Insn} (h : GoodPrologue f prologue)
    (htotal : f.computeFrameInfo.totalSize = 0) : GoodEpilogue f prologue [.ret] := by
  constructor
  · simp [Insn.accepted]
  · intro hnaked st st' hbody
    have hmask : ¬maskNonzero f.mask := fun hmask => by
      have hcount : 0 < (List.finRange 32).countP f.computeFrameInfo.mask :=
        countP_pos_of_maskNonzero hmask
      have hhard := f.laid.hardFramePointerOffset_nonneg
      have hle := f.laid.hard_le
      have hsaved := f.laid.saved_le
      have hlast := f.laid.le_total
      omega
    have halloca : f.callsAlloca = false := by
      rw [← Bool.not_eq_true]
      exact fun halloca =>
        hmask (f.maskNonzero_of_framePointer hnaked (f.framePointer_of_alloca halloca))
    rw [BodyKeeps, halloca, if_neg Bool.false_ne_true] at hbody
    have hlowers := h.lowers hnaked st
    rw [htotal] at hlowers
    show st'.regs.get stackPointer = _
    rw [hbody, hlowers]
    exact sub_zero _

/-- The conditions on the operands, by the step that is taken last in the epilogue. -/
def StepsFit (f : Fn) (step2 : Int) : Prop :=
  Step2 f step2 ∧ Adjustable (f.computeFrameInfo.totalSize - step2) ∧
    (f.framePointerNeeded → smallOperand (f.computeFrameInfo.hardFramePointerOffset
      - (f.computeFrameInfo.totalSize - step2))) ∧
    (f.callsAlloca → Adjustable (-f.computeFrameInfo.hardFramePointerOffset))

/-- The prologue there is, and when it is a good one. -/
theorem prologue_cases {f : Fn} (hnaked : f.naked = false) {prologue : List Insn}
    (h : expandPrologue f = some prologue) :
    ∃ step2, Step2 f step2 ∧
      (GoodPrologue f prologue ↔
        (f.framePointerNeeded → smallOperand (f.computeFrameInfo.hardFramePointerOffset
          - (f.computeFrameInfo.totalSize - step2))) ∧
        Adjustable (f.computeFrameInfo.totalSize - step2)) := by
  by_cases hmask : maskNonzero f.mask
  · rw [expandPrologue_saving f hnaked hmask, Option.map_eq_some_iff] at h
    obtain ⟨step2, hstep, rfl⟩ := h
    exact ⟨step2, by rw [Step2, if_pos hmask, hstep], goodPrologue_saving_iff f hstep⟩
  · have hfp : f.framePointerNeeded = false := by
      rw [← Bool.not_eq_true]
      exact fun hfp => hmask (f.maskNonzero_of_framePointer hnaked hfp)
    rw [expandPrologue_not_saving f hnaked hmask, Option.some.injEq] at h
    subst h
    refine ⟨0, by rw [Step2, if_neg hmask], ?_⟩
    rw [goodPrologue_not_saving_iff f hfp, sub_zero]
    simp [hfp]

theorem exists_prologue {f : Fn} (hnaked : f.naked = false) {step2 : Int}
    (hstep : Step2 f step2) : ∃ prologue, expandPrologue f = some prologue := by
  unfold Step2 at hstep
  split at hstep
  next hmask =>
    exact ⟨_, by rw [expandPrologue_saving f hnaked hmask, hstep, Option.map_some]⟩
  next hmask => exact ⟨_, expandPrologue_not_saving f hnaked hmask⟩

theorem Step2.unique {f : Fn} {step step' : Int} (h : Step2 f step) (h' : Step2 f step') :
    step = step' := by
  unfold Step2 at h h'
  split at h
  next hmask =>
    rw [if_pos hmask, h] at h'
    exact Option.some.inj h'
  next hmask =>
    rw [if_neg hmask] at h'
    rw [h, h']

theorem stackBalanced_iff_stepsFit {f : Fn} (hnaked : f.naked = false) :
    StackBalanced f ↔ ∃ step2, StepsFit f step2 := by
  constructor
  · rintro ⟨prologue, hprologue, hgood, hepilogue⟩
    obtain ⟨step2, hstep, hiff⟩ := prologue_cases hnaked hprologue
    obtain ⟨epilogue, heq, hgoodEpilogue⟩ := hepilogue .ehReturn
    rw [expandEpilogue_eq hnaked hstep (.inl rfl), Option.some.injEq] at heq
    subst heq
    have hadj := (goodEpilogue_iff hgood hnaked hstep .ehReturn).1 hgoodEpilogue
    have hset := hiff.1 hgood
    exact ⟨step2, hstep, hset.2, hset.1, hadj.1⟩
  · rintro ⟨step2, hstep, hadj, hset, halloca⟩
    obtain ⟨prologue, hprologue⟩ := exists_prologue hnaked hstep
    obtain ⟨step, hstep', hiff⟩ := prologue_cases hnaked hprologue
    obtain rfl := hstep.unique hstep'
    have hgood := hiff.2 ⟨hset, hadj⟩
    refine ⟨prologue, hprologue, hgood, fun style => ?_⟩
    by_cases hframe : style = .ehReturn ∨ f.computeFrameInfo.totalSize ≠ 0
    · exact ⟨_, expandEpilogue_eq hnaked hstep hframe,
        (goodEpilogue_iff hgood hnaked hstep style).2 ⟨halloca, hadj⟩⟩
    · have hnormal : style = .normal ∧ f.computeFrameInfo.totalSize = 0 := by
        cases style <;> simp_all
      refine ⟨[.ret], ?_, goodEpilogue_return hgood hnormal.2⟩
      simp [expandEpilogue, hnaked, hnormal.1, hnormal.2]

theorem adjustable_iff (value : Int) : Adjustable value ↔
    (0 ≤ value ∧ value < 65536) ∨
      ¬(65537 ≤ value ∧ value ≤ 131072) ∧ -2147483648 ≤ value ∧ value < 2147483648 := by
  rw [Adjustable, smallOperand_iff, ← Bool.not_eq_true, sumOfTwoU16Algn_iff]

/-- The steps fit exactly the frames that do. -/
theorem fits_iff_stepsFit {f : Fn} (hnaked : f.naked = false) :
    f.Fits ↔ ∃ step2, StepsFit f step2 := by
  have hhard := f.laid.hardFramePointerOffset_nonneg
  have hle := f.laid.hard_le
  have hsaved := f.laid.saved_le
  have htotal := f.laid.le_total
  have hframeAligned := f.laid.frame_aligned
  have htotalAligned := f.laid.total_aligned
  have halloca := f.framePointer_of_alloca
  have hmask' : f.computeFrameInfo.mask = f.mask := rfl
  simp only [Fn.Fits, StepsFit, Step2, hnaked, hmask', Bool.false_eq_true, false_or,
    adjustable_iff, smallOperand_iff]
  by_cases hmask : maskNonzero f.mask
  · simp only [hmask, if_true]
    by_cases hsmall : f.computeFrameInfo.totalSize < 65536
    · -- one step
      simp only [firstStackStep_small f.laid hsmall, Option.some.injEq]
      constructor
      · intro _
        exact ⟨_, rfl, by omega, fun _ => by omega, fun _ => by omega⟩
      · exact fun _ => .inl hsmall
    · rw [firstStackStep_large f.laid (by omega)]
      by_cases hmax : f.computeFrameInfo.totalSize - f.computeFrameInfo.framePointerOffset ≤ 65532
      · simp only [if_pos hmax, Option.some.injEq, exists_eq_left']
        by_cases hlow : 131072 ≤ f.computeFrameInfo.totalSize ∧
            f.computeFrameInfo.totalSize - f.computeFrameInfo.framePointerOffset ≤
              f.computeFrameInfo.totalSize % 65536
        · simp only [if_pos hlow]
          cases hcalls : f.callsAlloca <;> cases hfp : f.framePointerNeeded <;>
            simp only [hcalls, hfp, Bool.false_eq_true, false_implies, true_implies, and_true]
              at halloca ⊢ <;> omega
        · simp only [if_neg hlow]
          cases hcalls : f.callsAlloca <;> cases hfp : f.framePointerNeeded <;>
            simp only [hcalls, hfp, Bool.false_eq_true, false_implies, true_implies, and_true]
              at halloca ⊢ <;> omega
      · simp only [if_neg hmax]
        constructor
        · omega
        · rintro ⟨_, hstep, _⟩
          cases hstep
  · have hfp : f.framePointerNeeded = false := by
      rw [← Bool.not_eq_true]
      exact fun hfp => hmask (f.maskNonzero_of_framePointer hnaked hfp)
    have hno : f.callsAlloca = false := by
      rw [← Bool.not_eq_true]
      exact fun hcalls => by simp [hfp] at halloca; simp [halloca] at hcalls
    simp only [hmask, hfp, hno, Bool.false_eq_true, if_false, exists_eq_left, false_implies,
      and_true, sub_zero]
    omega

/-- The generated code balances the stack exactly when the frame fits. -/
theorem stackBalanced_iff (f : Fn) : StackBalanced f ↔ f.Fits := by
  cases hnaked : f.naked with
  | false => rw [stackBalanced_iff_stepsFit hnaked, fits_iff_stepsFit hnaked]
  | true =>
    have hfits : f.Fits := .inl hnaked
    refine ⟨fun _ => hfits, fun _ => ⟨[], by simp [expandPrologue, hnaked], ?_, fun style =>
      ⟨[], by simp [expandEpilogue, hnaked], ?_⟩⟩⟩
    · constructor
      · simp
      · intro before r offset after heq
        simp at heq
      · intro hnot
        simp [hnaked] at hnot
      · intro hnot
        simp [hnaked] at hnot
    · constructor
      · simp
      · intro hnot
        simp [hnaked] at hnot

/-- A leaf function with 65540 bytes of local variables that saves nothing. -/
def leafWithArray : Fn where
  naked := false
  framePointerNeeded := false
  callsAlloca := false
  callsEhReturn := false
  isLeaf := true
  savesAllRegisters := false
  farJumpUsed := false
  globalRegs := fun _ => false
  callUsedOrFixed := fun r => r.val < 11 || fixedRegister r
  everLive := fun _ => false
  frameSize := 65540
  outgoingArgsSize := 0
  varargsSize := 0
  pretendArgsSize := 0
  fixed_callUsedOrFixed := fun r hr => by simp [hr]
  framePointer_of_alloca := fun h => by simp at h

/-- Its prologue begins with `sub sp,sp,65536`. -/
theorem leafWithArray_not_balanced : ¬StackBalanced leafWithArray := by
  rintro ⟨prologue, hprologue, hgood, _⟩
  have heq : expandPrologue leafWithArray =
      some [.sub3 stackPointer stackPointer (.const 65536),
        .sub3 stackPointer stackPointer (.const 4)] := by decide
  rw [heq, Option.some.injEq] at hprologue
  subst hprologue
  have hrejected : Insn.accepted (.sub3 stackPointer stackPointer (.const 65536)) = false := by
    decide
  have haccepted := hgood.accepted (.sub3 stackPointer stackPointer (.const 65536)) (by simp)
  rw [hrejected] at haccepted
  cases haccepted

end XrLinux.Gcc
