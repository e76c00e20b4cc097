import XrLinux.Lib.Intervals
import XrLinux.Gcc.StackBalance

/-!
# GCC port — the layout of a frame

The areas that `xr17032_compute_frame_info` lays out, the slots in which
`xr17032_for_each_saved_reg` finds the registers, and the offsets between the eliminable registers.

Prologue and epilogue walk the same mask with the stack pointer at different heights. Relative to
the bottom of the frame a register has one slot (`Fn.slot`), and either walk comes down to it
(`forEachSavedReg_eq`).
-/

namespace XrLinux.Gcc

open XrLinux.Machine Intervals

/-! ## The areas -/

/-- `x_save_size`. -/
def Fn.xSaveSize (f : Fn) : Int := if maskNonzero f.mask then stackAlign (f.numXSaved * 4) else 0

/-- Outgoing arguments, local variables, saved registers, varargs and pretend arguments, from the
bottom of the frame to the incoming stack pointer. -/
def Fn.areas (f : Fn) : List (Int × Int) :=
  let frame := f.computeFrameInfo
  let varargs := frame.gpSpOffset + 4
  let pretend := varargs + stackAlign f.varargsSize
  [(0, frame.hardFramePointerOffset),
    (frame.hardFramePointerOffset, frame.framePointerOffset),
    (frame.framePointerOffset, varargs),
    (varargs, pretend),
    (pretend, frame.totalSize)]

/-- How many registers with lower numbers are saved. Their slots are above this one's. -/
def savedBelow (mask : Reg → Bool) (regs : List Reg) (r : Reg) : Nat :=
  regs.countP fun q => mask q && decide (q < r)

/-- Where a register is saved, from the bottom of the frame. -/
def Fn.slot (f : Fn) (r : Reg) : Int :=
  f.computeFrameInfo.gpSpOffset - 4 * savedBelow f.mask (List.finRange 32) r

structure Fn.LaidOut (f : Fn) : Prop where
  tiles : Tiles 0 f.areas f.computeFrameInfo.totalSize
  disjoint : f.areas.Pairwise fun i j => i.2 ≤ j.1
  /-- The sizes that were asked for, in whole words. -/
  sizes : f.areas.map (fun area => area.2 - area.1) =
    [stackAlign f.outgoingArgsSize, stackAlign f.frameSize, f.xSaveSize, stackAlign f.varargsSize,
      stackAlign f.pretendArgsSize]
  sum_sizes : (f.areas.map fun area => area.2 - area.1).sum = f.computeFrameInfo.totalSize
  aligned : ∀ area ∈ f.areas, area.1 % 4 = 0 ∧ area.2 % 4 = 0
  /-- The pretend arguments are at the top of their area, below the incoming ones. -/
  argPointer : f.computeFrameInfo.totalSize - stackAlign f.pretendArgsSize ≤
      f.computeFrameInfo.argPointerOffset ∧
    f.computeFrameInfo.argPointerOffset + f.pretendArgsSize = f.computeFrameInfo.totalSize
  slot_mem : ∀ r, f.mask r → f.computeFrameInfo.framePointerOffset ≤ f.slot r ∧
    f.slot r + 4 ≤ f.computeFrameInfo.gpSpOffset + 4 ∧ f.slot r % 4 = 0
  slot_apart : ∀ r q, f.mask r → f.mask q → r ≠ q →
    f.slot r + 4 ≤ f.slot q ∨ f.slot q + 4 ≤ f.slot r

theorem stackAlign_nonneg {value : Int} (h : 0 ≤ value) : 0 ≤ stackAlign value := by
  simp only [stackAlign]
  omega

theorem stackAlign_aligned (value : Int) : stackAlign value % 4 = 0 := by
  simp only [stackAlign]
  omega

theorem Fn.xSaveSize_nonneg (f : Fn) : 0 ≤ f.xSaveSize := by
  unfold Fn.xSaveSize
  split
  · exact stackAlign_nonneg (by omega)
  · exact le_rfl

theorem Fn.hardFramePointerOffset_eq (f : Fn) :
    f.computeFrameInfo.hardFramePointerOffset = stackAlign f.outgoingArgsSize := rfl

theorem Fn.framePointerOffset_eq (f : Fn) : f.computeFrameInfo.framePointerOffset =
    f.computeFrameInfo.hardFramePointerOffset + stackAlign f.frameSize := rfl

theorem Fn.gpSpOffset_eq (f : Fn) : f.computeFrameInfo.gpSpOffset + 4 =
    f.computeFrameInfo.framePointerOffset + f.xSaveSize :=
  sub_add_cancel _ _

theorem Fn.totalSize_eq (f : Fn) : f.computeFrameInfo.totalSize =
    f.computeFrameInfo.gpSpOffset + 4 + stackAlign f.varargsSize + stackAlign f.pretendArgsSize := by
  rw [Fn.gpSpOffset_eq]
  rfl

/-! ## The walk over the saved registers -/

/-- One more register is saved below every register that follows. -/
theorem savedBelow_cons {mask : Reg → Bool} {q r : Reg} {regs : List Reg} (hlt : q < r) :
    savedBelow mask (q :: regs) r = savedBelow mask regs r + if mask q then 1 else 0 := by
  simp [savedBelow, List.countP_cons, hlt]

theorem savedBelow_eq_zero {mask : Reg → Bool} {r : Reg} {regs : List Reg}
    (h : ∀ q ∈ regs, r ≤ q) : savedBelow mask regs r = 0 := by
  rw [savedBelow, List.countP_eq_zero]
  intro q hq
  simp [(h q hq).not_gt]

/-- The loop in closed form. A register that is skipped counts like the others. -/
theorem savedRegInsns_eq (mask skip : Reg → Bool) (fn : Reg → Int → Insn) {regs : List Reg}
    (hsorted : regs.Pairwise (· < ·)) (offset : Int) :
    savedRegInsns mask skip fn regs offset =
      (regs.filter fun r => mask r && !skip r).map
        fun r => fn r (offset - 4 - 4 * savedBelow mask regs r) := by
  induction regs generalizing offset with
  | nil => rfl
  | cons q regs ih =>
    obtain ⟨hq, hsorted⟩ := List.pairwise_cons.1 hsorted
    have hself : savedBelow mask (q :: regs) q = 0 := by
      refine savedBelow_eq_zero fun r hr => ?_
      rcases List.mem_cons.1 hr with rfl | hr
      · exact le_rfl
      · exact (hq r hr).le
    -- the registers that follow have `q` below them
    have hrest (d : Int) (hd : d = if mask q then 4 else 0) :
        (regs.filter fun r => mask r && !skip r).map
            (fun r => fn r (offset - d - 4 - 4 * savedBelow mask regs r)) =
          (regs.filter fun r => mask r && !skip r).map
            fun r => fn r (offset - 4 - 4 * savedBelow mask (q :: regs) r) := by
      refine List.map_congr_left fun r hr => ?_
      rw [savedBelow_cons (hq r (List.mem_of_mem_filter hr)), hd]
      congr 1
      split <;> push_cast <;> ring
    simp only [savedRegInsns]
    cases hmask : mask q with
    | false =>
      rw [if_neg Bool.false_ne_true, ih hsorted, List.filter_cons_of_neg (by simp [hmask]),
        ← hrest 0 (by rw [if_neg (by simp [hmask])]), sub_zero]
    | true =>
      rw [if_pos rfl, ih hsorted, hrest 4 (by rw [if_pos hmask])]
      cases hskip : skip q with
      | false =>
        rw [List.filter_cons_of_pos (by simp [hmask, hskip]), List.map_cons, hself]
        simp
      | true => rw [List.filter_cons_of_neg (by simp [hskip])]; simp

/-- The registers that a walk touches. -/
def Fn.walked (f : Fn) (skip : Reg → Bool) : List Reg :=
  (List.finRange 32).filter fun r => f.mask r && !skip r

/-- `xr17032_for_each_saved_reg` finds every register in its slot, wherever the stack pointer
is. -/
theorem forEachSavedReg_eq (f : Fn) (spOffset : Int) (fn : Reg → Int → Insn) (skip : Reg → Bool) :
    forEachSavedReg f.computeFrameInfo spOffset fn skip =
      (f.walked skip).map fun r => fn r (f.slot r - spOffset) := by
  rw [forEachSavedReg, savedRegInsns_eq _ _ _ (List.pairwise_lt_finRange 32)]
  refine List.map_congr_left fun r _ => ?_
  show fn r _ = fn r (f.computeFrameInfo.gpSpOffset
    - 4 * (savedBelow f.computeFrameInfo.mask (List.finRange 32) r : Int) - spOffset)
  congr 1
  ring

/-! ## The layout -/

/-- There are fewer saved registers below one of them than there are in all. -/
theorem savedBelow_lt (mask : Reg → Bool) {r : Reg} (hr : mask r) :
    savedBelow mask (List.finRange 32) r < (List.finRange 32).countP mask := by
  have hle : savedBelow mask (List.finRange 32) r + (List.finRange 32).countP (· == r) ≤
      (List.finRange 32).countP mask := by
    unfold savedBelow
    induction List.finRange 32 with
    | nil => rfl
    | cons q regs ih =>
      simp only [List.countP_cons]
      by_cases hq : q = r
      · subst hq
        simp only [lt_irrefl, decide_false, Bool.and_false, hr, beq_self_eq_true, if_true,
          Bool.false_eq_true, if_false]
        omega
      · have hne : (q == r) = false := beq_false_of_ne hq
        cases hmask : mask q <;> simp only [hne, Bool.false_and, Bool.true_and,
          Bool.false_eq_true, if_false, if_true] <;> first | omega | (split <;> omega)
  have hone : 0 < (List.finRange 32).countP (· == r) := by
    rw [List.countP_pos_iff]
    exact ⟨r, List.mem_finRange r, beq_self_eq_true r⟩
  omega

theorem savedBelow_lt_of_lt {mask : Reg → Bool} {r q : Reg} (hr : mask r) (hlt : r < q) :
    savedBelow mask (List.finRange 32) r < savedBelow mask (List.finRange 32) q := by
  have hmem : (mask r && decide (r < q)) = true := by simp [hr, hlt]
  have hbelow := savedBelow_lt (fun p => mask p && decide (p < q)) hmem
  refine lt_of_le_of_lt ?_ hbelow
  refine List.countP_mono_left fun p _ hp => ?_
  simp only [Bool.and_eq_true, decide_eq_true_eq] at hp ⊢
  exact ⟨⟨hp.1, hp.2.trans hlt⟩, hp.2⟩

theorem Fn.laidOut (f : Fn) : f.LaidOut := by
  have hargs := stackAlign_nonneg (Int.natCast_nonneg f.outgoingArgsSize)
  have hlocals := stackAlign_nonneg (Int.natCast_nonneg f.frameSize)
  have hvarargs := stackAlign_nonneg (Int.natCast_nonneg f.varargsSize)
  have hpretend := stackAlign_nonneg (Int.natCast_nonneg f.pretendArgsSize)
  have hsave := f.xSaveSize_nonneg
  have hhard := f.hardFramePointerOffset_eq
  have hframe := f.framePointerOffset_eq
  have hgp := f.gpSpOffset_eq
  have htotal := f.totalSize_eq
  have hsizes : f.areas.map (fun area => area.2 - area.1) =
      [stackAlign f.outgoingArgsSize, stackAlign f.frameSize, f.xSaveSize,
        stackAlign f.varargsSize, stackAlign f.pretendArgsSize] := by
    simp only [Fn.areas, List.map_cons, List.map_nil, List.cons.injEq, and_true]
    omega
  have htiles : Tiles 0 f.areas f.computeFrameInfo.totalSize := by
    refine ⟨rfl, ?_, rfl, ?_, rfl, ?_, rfl, ?_, rfl, ?_, rfl⟩ <;> dsimp only <;> omega
  have haligned := f.laid.hard_aligned
  have haligned' := f.laid.frame_aligned
  have haligned'' := f.laid.gp_aligned
  have htotalAligned := f.laid.total_aligned
  have hvarargsAligned := stackAlign_aligned f.varargsSize
  have hround : (f.pretendArgsSize : Int) ≤ stackAlign f.pretendArgsSize := by
    simp only [stackAlign]
    omega
  have harg : f.computeFrameInfo.argPointerOffset =
      f.computeFrameInfo.totalSize - f.pretendArgsSize := rfl
  refine ⟨htiles, htiles.pairwise, hsizes, ?_, ?_, ?_, fun r hr => ?_, fun r q hr hq hne => ?_⟩
  · rw [hsizes]
    simp only [List.sum_cons, List.sum_nil]
    omega
  · simp only [Fn.areas, List.forall_mem_cons, List.not_mem_nil, false_implies, implies_true,
      and_true]
    omega
  · omega
  · have hbelow := savedBelow_lt f.mask hr
    have hsaved : f.computeFrameInfo.framePointerOffset + 4 * (List.finRange 32).countP f.mask ≤
        f.computeFrameInfo.gpSpOffset + 4 := f.laid.saved_le
    simp only [Fn.slot]
    omega
  · simp only [Fn.slot]
    rcases lt_or_gt_of_ne hne with hlt | hlt
    · have := savedBelow_lt_of_lt hr hlt
      omega
    · have := savedBelow_lt_of_lt hq hlt
      omega

/-! ## Saving and restoring -/

/-- The register and the offset of a store of the prologue. -/
def Insn.saved : Insn → Option (Reg × Int)
  | .save r offset => some (r, offset)
  | _ => none

/-- The register and the offset of a load of the epilogue. -/
def Insn.restored : Insn → Option (Reg × Int)
  | .restore r offset => some (r, offset)
  | _ => none

/-- The accesses of a run, each with the address it goes to. -/
def accesses (kind : Insn → Option (Reg × Int)) : List Insn → St → List (Reg × Word)
  | [], _ => []
  | insn :: insns, st =>
    ((kind insn).map fun x => (x.1, st.regs.get stackPointer + BitVec.ofInt 32 x.2)).toList ++
      accesses kind insns (insn.exec st)

theorem accesses_append (kind : Insn → Option (Reg × Int)) (before after : List Insn) (st : St) :
    accesses kind (before ++ after) st =
      accesses kind before st ++ accesses kind after (exec before st) := by
  induction before generalizing st with
  | nil => rfl
  | cons insn before ih => simp [accesses, ih]

theorem accesses_eq_nil {kind : Insn → Option (Reg × Int)} {insns : List Insn}
    (h : ∀ insn ∈ insns, kind insn = none) (st : St) : accesses kind insns st = [] := by
  induction insns generalizing st with
  | nil => rfl
  | cons insn insns ih =>
    simp [accesses, h insn (by simp), ih fun i hi => h i (List.mem_cons_of_mem _ hi)]

/-- A walk does not move the stack pointer, so one value of it makes all the addresses. -/
theorem accesses_walk {kind : Insn → Option (Reg × Int)} {fn : Reg → Int → Insn}
    (hkind : ∀ r offset, kind (fn r offset) = some (r, offset)) {regs : List Reg}
    (hkept : ∀ r ∈ regs, ∀ offset st,
      ((fn r offset).exec st).regs.get stackPointer = st.regs.get stackPointer)
    (slot : Reg → Int) (st : St) :
    accesses kind (regs.map fun r => fn r (slot r)) st =
      regs.map fun r => (r, st.regs.get stackPointer + BitVec.ofInt 32 (slot r)) := by
  induction regs generalizing st with
  | nil => rfl
  | cons r regs ih =>
    have hsp := hkept r (by simp) (slot r) st
    simp only [List.map_cons, accesses, hkind, Option.map_some, Option.toList_some,
      List.singleton_append]
    rw [ih (fun q hq => hkept q (List.mem_cons_of_mem _ hq)) _, hsp]

/-- The slots of a walk, for the stack pointer that the function was entered with. -/
def Fn.slots (f : Fn) (entry : Word) (regs : List Reg) : List (Reg × Word) :=
  regs.map fun r =>
    (r, entry - BitVec.ofInt 32 f.computeFrameInfo.totalSize + BitVec.ofInt 32 (f.slot r))

/-- The registers that an epilogue reads again. -/
def Fn.restoredRegs (f : Fn) (style : EpilogueStyle) : List Reg :=
  f.walked fun r => style ≠ .ehReturn && f.isEhReturnDataRegister r

/-- The registers that the prologue saves. -/
def Fn.savedRegs (f : Fn) : List Reg := f.walked fun _ => false

theorem Fn.walked_eq_nil {f : Fn} (h : ¬maskNonzero f.mask) (skip : Reg → Bool) :
    f.walked skip = [] := by
  rw [Fn.walked, List.filter_eq_nil_iff]
  intro r hr hsaved
  refine h (List.any_eq_true.2 ⟨r, hr, ?_⟩)
  simp only [Bool.and_eq_true] at hsaved
  exact hsaved.1

theorem Fn.not_maskNonzero_of_naked {f : Fn} (hnaked : f.naked) : ¬maskNonzero f.mask := by
  simp [maskNonzero, Fn.mask, hnaked]

theorem accesses_adjustStack {kind : Insn → Option (Reg × Int)}
    {insn : Reg → Reg → Operand → Insn} (hinsn : ∀ dest src op, kind (insn dest src op) = none)
    (hset : ∀ dest value, kind (.set dest value) = none)
    (hior : ∀ dest src value, kind (.ior dest src value) = none) (base : Reg) (value : Int)
    (st : St) : accesses kind (adjustStack insn base value) st = [] := by
  refine accesses_eq_nil (fun i hi => ?_) st
  obtain ⟨src, op, rfl⟩ | ⟨v, rfl | rfl⟩ := mem_adjustStack hi
  · exact hinsn _ _ _
  · exact hset _ _
  · exact hior _ _ _

/-- The stack pointer at a walk, with `spOffset` bytes of the frame below it. -/
theorem accesses_forEachSavedReg (f : Fn) (kind : Insn → Option (Reg × Int))
    (fn : Reg → Int → Insn) (hkind : ∀ r offset, kind (fn r offset) = some (r, offset))
    (hkept : ∀ r, f.mask r → ∀ offset st,
      ((fn r offset).exec st).regs.get stackPointer = st.regs.get stackPointer)
    (skip : Reg → Bool) {entry : Word} {spOffset : Int} {st : St}
    (hsp : st.regs.get stackPointer =
      entry - BitVec.ofInt 32 f.computeFrameInfo.totalSize + BitVec.ofInt 32 spOffset) :
    accesses kind (forEachSavedReg f.computeFrameInfo spOffset fn skip) st =
      f.slots entry (f.walked skip) := by
  have hwalk : ∀ r ∈ f.walked skip, ∀ offset st,
      ((fn r offset).exec st).regs.get stackPointer = st.regs.get stackPointer := by
    intro r hr
    have hmem := (List.mem_filter.1 hr).2
    simp only [Bool.and_eq_true] at hmem
    exact hkept r hmem.1
  rw [forEachSavedReg_eq, accesses_walk hkind hwalk, hsp]
  refine List.map_congr_left fun r _ => ?_
  rw [Int.sub_eq_add_neg, BitVec.ofInt_add, BitVec.ofInt_neg]
  congr 1
  ring

/-- The prologue lowers the stack pointer by the frame, whether its insns are taken or not. -/
theorem exec_prologue {f : Fn} (hnaked : f.naked = false) {prologue : List Insn}
    (h : expandPrologue f = some prologue) (st : St) :
    (exec prologue st).regs.get stackPointer =
        st.regs.get stackPointer - BitVec.ofInt 32 f.computeFrameInfo.totalSize ∧
      (f.framePointerNeeded → (exec prologue st).regs.get hardFramePointer =
        st.regs.get stackPointer - BitVec.ofInt 32 f.computeFrameInfo.totalSize
          + BitVec.ofInt 32 f.computeFrameInfo.hardFramePointerOffset) := by
  by_cases hmask : maskNonzero f.mask
  · rw [expandPrologue_saving f hnaked hmask, Option.map_eq_some_iff] at h
    obtain ⟨step1, hstep, rfl⟩ := h
    exact exec_savingPrologue hstep st
  · rw [expandPrologue_not_saving f hnaked hmask, Option.some.injEq] at h
    have hnonneg : 0 ≤ f.computeFrameInfo.totalSize := f.laidOut.tiles.le
    rw [← h]
    exact exec_rest f hnonneg st

/-- The prologue saves every register of the mask in its slot. -/
theorem saves_prologue {f : Fn} {prologue : List Insn} (h : expandPrologue f = some prologue)
    (st : St) :
    accesses Insn.saved prologue st = f.slots (st.regs.get stackPointer) f.savedRegs := by
  have hrest {remaining : Int} {insn : Insn}
      (hinsn : insn ∈ setFramePointer f remaining ++ allocateRest remaining) :
      insn.saved = none := by
    have hnot := not_save_of_mem_rest hinsn
    cases insn with
    | save r offset => exact absurd rfl (hnot r offset)
    | add3 | sub3 | set | ior | restore | ret => rfl
  cases hnaked : f.naked with
  | true =>
    obtain rfl : prologue = [] := by simpa [expandPrologue, hnaked] using h.symm
    rw [Fn.savedRegs, Fn.walked_eq_nil (Fn.not_maskNonzero_of_naked hnaked)]
    rfl
  | false =>
    by_cases hmask : maskNonzero f.mask
    · rw [expandPrologue_saving f hnaked hmask, Option.map_eq_some_iff] at h
      obtain ⟨step1, hstep, rfl⟩ := h
      let first : Insn := .sub3 stackPointer stackPointer (.const step1)
      have hsp : (first.exec st).regs.get stackPointer = st.regs.get stackPointer
          - BitVec.ofInt 32 f.computeFrameInfo.totalSize
          + BitVec.ofInt 32 (f.computeFrameInfo.totalSize - step1) := by
        have hset : (first.exec st).regs.get stackPointer =
            st.regs.get stackPointer - BitVec.ofInt 32 step1 := St.get_set_self st (by decide) _
        rw [hset, Int.sub_eq_add_neg, BitVec.ofInt_add, BitVec.ofInt_neg]
        ring
      have hwalk := accesses_forEachSavedReg f Insn.saved .save
        (fun _ _ => rfl) (fun _ _ _ _ => rfl) (fun _ => false) hsp
      show accesses _ (first :: (_ ++ (_ ++ _))) st = _
      rw [accesses, accesses_append, hwalk, accesses_eq_nil fun _ hinsn => hrest hinsn]
      simp [first, Insn.saved, Fn.savedRegs]
    · rw [expandPrologue_not_saving f hnaked hmask, Option.some.injEq] at h
      rw [← h, accesses_eq_nil fun _ hinsn => hrest hinsn, Fn.savedRegs, Fn.walked_eq_nil hmask]
      rfl

/-- The two steps of the epilogue, from the bottom of the frame. -/
theorem restores_releaseFrame {f : Fn} {step2 : Int} (hstep : Step2 f step2)
    (style : EpilogueStyle) {entry : Word} {st : St}
    (hsp : st.regs.get stackPointer = entry - BitVec.ofInt 32 f.computeFrameInfo.totalSize) :
    accesses Insn.restored (releaseFrame f style step2) st =
      f.slots entry (f.restoredRegs style) := by
  obtain ⟨-, hle, -⟩ := hstep.bounds
  let step1 := f.computeFrameInfo.totalSize - step2
  have hreleased : (exec (if step1 > 0 then releaseStep1 step1 else []) st).regs.get
      stackPointer = entry - BitVec.ofInt 32 f.computeFrameInfo.totalSize
        + BitVec.ofInt 32 step1 := by
    rw [exec_releaseStep1 (by omega), hsp]
  have hkept : ∀ r, f.mask r → ∀ offset st,
      ((Insn.restore r offset).exec st).regs.get stackPointer = st.regs.get stackPointer := by
    intro r hr offset st
    refine St.get_set_of_ne st (fun heq => ?_) _
    rw [← heq, f.mask_stackPointer] at hr
    cases hr
  have hwalk := accesses_forEachSavedReg f Insn.restored .restore (fun _ _ => rfl) hkept
    (fun r => style ≠ .ehReturn && f.isEhReturnDataRegister r) hreleased
  have hrelease : accesses Insn.restored (if step1 > 0 then releaseStep1 step1 else []) st =
      [] := by
    split
    · rw [releaseStep1_eq]
      exact accesses_adjustStack (fun _ _ _ => rfl) (fun _ _ => rfl) (fun _ _ _ => rfl) _ _ _
    · rfl
  have hlast (st : St) : accesses Insn.restored (if step2 > 0 then
      [Insn.add3 stackPointer stackPointer (.const step2)] else []) st = [] := by
    split <;> rfl
  simp only [releaseFrame]
  rw [accesses_append, accesses_append, hrelease, hwalk, hlast]
  simp [Fn.restoredRegs]

/-- What the epilogue restores comes from those slots. -/
theorem restores_epilogue {f : Fn} {prologue epilogue : List Insn} {style : EpilogueStyle}
    (hprologue : expandPrologue f = some prologue)
    (hepilogue : expandEpilogue f style = some epilogue) {st st' : St}
    (hbody : BodyKeeps f (exec prologue st) st') :
    accesses Insn.restored epilogue st' =
      f.slots (st.regs.get stackPointer) (f.restoredRegs style) := by
  cases hnaked : f.naked with
  | true =>
    obtain rfl : epilogue = [] := by simpa [expandEpilogue, hnaked] using hepilogue.symm
    rw [Fn.restoredRegs, Fn.walked_eq_nil (Fn.not_maskNonzero_of_naked hnaked)]
    rfl
  | false =>
    obtain ⟨step2, hstep, -⟩ := prologue_cases hnaked hprologue
    by_cases hframe : style = .ehReturn ∨ f.computeFrameInfo.totalSize ≠ 0
    · rw [expandEpilogue_eq hnaked hstep hframe, Option.some.injEq] at hepilogue
      obtain ⟨hlowers, hfp⟩ := exec_prologue hnaked hprologue st
      have halloca : accesses Insn.restored
          (if f.callsAlloca then dropAlloca f.computeFrameInfo else []) st' = [] := by
        split
        · exact accesses_adjustStack (fun _ _ _ => rfl) (fun _ _ => rfl) (fun _ _ _ => rfl) _ _ _
        · rfl
      have hrelease := restores_releaseFrame hstep style (exec_dropAlloca hbody hlowers hfp)
      rw [← hepilogue, accesses_append, accesses_append, halloca, hrelease]
      simp [accesses, Insn.restored]
    · have hnormal : style = .normal ∧ f.computeFrameInfo.totalSize = 0 := by
        cases style <;> simp_all
      obtain rfl : epilogue = [.ret] := by
        simpa [expandEpilogue, hnaked, hnormal.1, hnormal.2] using hepilogue.symm
      -- an empty frame has no slots
      have hnone : ¬maskNonzero f.mask := by
        intro hmask
        obtain ⟨r, -, hr⟩ := List.any_eq_true.1 hmask
        have hslot := f.laidOut.slot_mem r hr
        have hhard := f.laid.hardFramePointerOffset_nonneg
        have hle := f.laid.hard_le
        have htotal := f.laid.le_total
        omega
      rw [Fn.restoredRegs, Fn.walked_eq_nil hnone]
      rfl

/-! ## Elimination -/

/-- The registers of the frame, eliminable or not. -/
inductive FrameReg where
  | argPointer | framePointer | hardFramePointer | stackPointer
  deriving DecidableEq, Repr

/-- `ELIMINABLE_REGS`. -/
def eliminableRegs : List (FrameReg × FrameReg) :=
  [(.argPointer, .stackPointer), (.argPointer, .hardFramePointer),
    (.framePointer, .stackPointer), (.framePointer, .hardFramePointer)]

/-- `xr17032_initial_elimination_offset`, where it does not reach `gcc_unreachable`. -/
def Fn.initialEliminationOffset (f : Fn) (src dest : FrameReg) : Option Int := do
  let destOffset ←
    if dest = .hardFramePointer then some f.computeFrameInfo.hardFramePointerOffset
    -- the stack pointer is the base of all offsets
    else if dest = .stackPointer then some 0
    else none
  let srcOffset ←
    if src = .framePointer then some f.computeFrameInfo.framePointerOffset
    else if src = .argPointer then some f.computeFrameInfo.argPointerOffset
    else none
  some (srcOffset - destOffset)

/-- Where in the frame the registers point. -/
def Fn.position (f : Fn) : FrameReg → Int
  | .argPointer => f.computeFrameInfo.argPointerOffset
  | .framePointer => f.computeFrameInfo.framePointerOffset
  | .hardFramePointer => f.computeFrameInfo.hardFramePointerOffset
  | .stackPointer => 0

/-- A way from one register to another over eliminations, in either direction, with the offset
that it comes to. -/
inductive Route (f : Fn) : FrameReg → FrameReg → Int → Prop where
  | here (a : FrameReg) : Route f a a 0
  | eliminate {a b c : FrameReg} {offset rest : Int} (hmem : (a, b) ∈ eliminableRegs)
      (hoffset : f.initialEliminationOffset a b = some offset) (hrest : Route f b c rest) :
      Route f a c (offset + rest)
  | back {a b c : FrameReg} {offset rest : Int} (hmem : (b, a) ∈ eliminableRegs)
      (hoffset : f.initialEliminationOffset b a = some offset) (hrest : Route f b c rest) :
      Route f a c (rest - offset)

/-- The function has an answer for every pair of the table, and for no other. -/
theorem Fn.initialEliminationOffset_eq (f : Fn) (src dest : FrameReg) :
    f.initialEliminationOffset src dest =
      if (src, dest) ∈ eliminableRegs then some (f.position src - f.position dest) else none := by
  cases src <;> cases dest <;> rfl

theorem Route.offset_eq {f : Fn} {a b : FrameReg} {offset : Int} (h : Route f a b offset) :
    offset = f.position a - f.position b := by
  induction h with
  | here a => exact (sub_self _).symm
  | eliminate hmem hoffset _ ih =>
    rw [Fn.initialEliminationOffset_eq, if_pos hmem, Option.some.injEq] at hoffset
    omega
  | back hmem hoffset _ ih =>
    rw [Fn.initialEliminationOffset_eq, if_pos hmem, Option.some.injEq] at hoffset
    omega

/-- The frame of any function: its areas and slots, what the prologue and the epilogue make of the
slots, and the eliminations. -/
theorem frame_layout (f : Fn) :
    f.LaidOut ∧
      (∀ prologue, expandPrologue f = some prologue → ∀ st : St,
        accesses Insn.saved prologue st = f.slots (st.regs.get stackPointer) f.savedRegs ∧
          ∀ style epilogue, expandEpilogue f style = some epilogue →
            ∀ st', BodyKeeps f (exec prologue st) st' →
              accesses Insn.restored epilogue st' =
                f.slots (st.regs.get stackPointer) (f.restoredRegs style)) ∧
      (∀ pair ∈ eliminableRegs, f.initialEliminationOffset pair.1 pair.2 =
        some (f.position pair.1 - f.position pair.2)) ∧
      ∀ a b offset offset', Route f a b offset → Route f a b offset' → offset = offset' := by
  refine ⟨f.laidOut, fun prologue hprologue st => ⟨saves_prologue hprologue st, ?_⟩, ?_, ?_⟩
  · intro style epilogue hepilogue st' hbody
    exact restores_epilogue hprologue hepilogue hbody
  · intro pair hpair
    rw [Fn.initialEliminationOffset_eq, if_pos hpair]
  · intro a b offset offset' hroute hroute'
    rw [hroute.offset_eq, hroute'.offset_eq]

end XrLinux.Gcc
