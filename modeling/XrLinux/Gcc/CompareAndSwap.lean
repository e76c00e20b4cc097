import XrLinux.Gcc.Subword
import XrLinux.Gcc.WordOps

/-!
# GCC port — sub-word compare-and-swap and test-and-set

`atomic_compare_and_swap<mode>` and `atomic_test_and_set` of `gcc/config/xr17032/sync.md`. The
loop compares the masked word with the shifted expected value; the success flag is computed
again behind it, from sign-extended copies of the two values. `atomicCompareAndSwap_correct`
says that both comparisons are the comparison of the location with the expected value.
-/

namespace XrLinux.Gcc

open XrLinux.Machine
open Iterate

/-- `subword_atomic_cas_strong`. The forward label is the end of the sequence. -/
def subwordAtomicCasStrong (op0 mem : Reg) (op2 op3 op4 op5 : Operand) (op6 : Reg) : List Instr :=
  [.ll op0 mem,
    .alu .and op6 op0 op4.src,
    .alu .sub op6 op6 (.plain op2.z),
    .branch .ne op6 (.label 8),
    .alu .and op6 op0 op5.src,
    .alu .or op6 op6 (.plain op3.z),
    .sc op6 mem op6,
    .branch .eq op6 (.label 0)]

/-- An operand of the template: shifted to the location, then masked. -/
def atomicCasShifted (l : Location) (value : Word) : Word :=
  xr17032LshiftSubword value l.subword.shift &&& l.subword.mask

/-- `extend<QIHI:mode><HISI:mode>2`: a shift up and an arithmetic shift down. -/
def extendQIHI (mode : MachineMode) (value : Word) : Word :=
  let amount := BitVec.ofNat 32 (32 - mode.bitsize)
  ShiftOp.ash.eval (ShiftOp.lsh.eval value amount) amount

/-- The success flag of `atomic_compare_and_swap<mode>`: `EQ` against zero of the difference of
the sign-extended values, which `*set_eq_zero` computes as `slti compare,1`. -/
def atomicCasSuccess (mode : MachineMode) (val exp : Word) : Word :=
  AluOp.slt.eval (AluOp.sub.eval (extendQIHI mode val) (extendQIHI mode exp)) 1

/-! ## The two comparisons -/

theorem extendQIHI_eq (mode : MachineMode) (value : Word) :
    extendQIHI mode value =
      (value <<< (32 - mode.bitsize)).sshiftRight (32 - mode.bitsize) := by
  have hmod : (BitVec.ofNat 32 (32 - mode.bitsize)).toNat % 32 = 32 - mode.bitsize := by
    cases mode <;> decide
  simp only [extendQIHI, ShiftOp.eval, hmod]

/-- Sign extension keeps the low part and depends on nothing else. -/
theorem extendQIHI_eq_iff (mode : MachineMode) (a b : Word) :
    extendQIHI mode a = extendQIHI mode b ↔ a.setWidth mode.bitsize = b.setWidth mode.bitsize := by
  have hsize : mode.bitsize ≤ 32 := by cases mode <;> decide
  rw [extendQIHI_eq, extendQIHI_eq]
  let low : BitField 32 := ⟨32 - mode.bitsize, mode.bitsize, by omega⟩
  have hlow : ∀ x : Word, ((x <<< low.shift).sshiftRight low.shift).setWidth low.width =
      x.setWidth low.width := by
    intro x
    rw [low.setWidth_sshiftRight, low.get_shiftLeft]
  constructor
  · intro h
    have hsame := congrArg (fun x : Word => x.setWidth low.width) h
    exact (hlow a).symm.trans (hsame.trans (hlow b))
  · intro h
    have hshift : a <<< low.shift = b <<< low.shift := by
      apply BitVec.eq_of_getLsbD_eq
      intro i hi
      have hn : i < 32 - mode.bitsize ∨ i - low.shift < mode.bitsize := by
        simp only [low]
        omega
      rcases hn with hlow | hn
      · simp [low, hlow]
      · have hbit : a.getLsbD (i - low.shift) = b.getLsbD (i - low.shift) := by
          simpa [BitVec.getLsbD_setWidth, hn] using
            congrArg (fun x => x.getLsbD (i - low.shift)) h
        rw [BitVec.getLsbD_shiftLeft, BitVec.getLsbD_shiftLeft, hbit]
    rw [show 32 - mode.bitsize = low.shift from rfl, hshift]

theorem atomicCasSuccess_eq (mode : MachineMode) (val exp : Word) :
    atomicCasSuccess mode val exp =
      if val.setWidth mode.bitsize = exp.setWidth mode.bitsize then 1 else 0 := by
  have hsub : extendQIHI mode val - extendQIHI mode exp = 0 ↔
      val.setWidth mode.bitsize = exp.setWidth mode.bitsize := by
    rw [← extendQIHI_eq_iff]
    exact sub_eq_zero
  have hlt : ∀ x : Word, x.ult 1 = true ↔ x = 0 := by
    intro x
    simp only [BitVec.ult, decide_eq_true_eq]
    exact Nat.lt_one_iff.trans (BitVec.toNat_inj (y := 0#32))
  simp only [atomicCasSuccess, AluOp.eval_sub]
  show (if (extendQIHI mode val - extendQIHI mode exp).ult 1 = true then (1 : Word) else 0) = _
  simp only [hlt, hsub]

/-- The loop's comparison. -/
theorem Location.sub_shifted_eq_zero_iff (l : Location) (w expected : Word) :
    (w &&& l.subword.mask) - atomicCasShifted l expected = 0 ↔
      l.get w = expected.setWidth l.mode.bitsize := by
  rw [← l.get_lshiftSubword, atomicCasShifted, l.subword_mask, sub_eq_zero]
  exact l.field.and_mask_eq_iff

/-! ## Runs of the template -/

section
variable {l : Location} {op0 mem op6 : Reg} {op2 op3 op4 op5 : Operand}
  {regs : RegFile} {expected desired : Word}

/-- What the operands of the template hold. -/
abbrev casInputs (l : Location) (mem : Reg) (op2 op3 op4 op5 : Operand)
    (expected desired : Word) : List (Operand × Word) :=
  [(.reg mem, l.subword.alignedMem), (op2, atomicCasShifted l expected),
    (op3, atomicCasShifted l desired), (op4, l.subword.mask), (op5, l.subword.notMask)]

/-- The operands admitted by the constraints of the template. -/
structure CasOperands (op0 mem : Reg) (op2 op3 op4 op5 : Operand) (op6 : Reg) : Prop where
  regs : EarlyClobber [op0, op6] [.reg mem, op2, op3, op4, op5]
  op2 : op2.regOr0
  op3 : op3.regOr0
  op4 : op4.arith
  op5 : op5.arith

/-- From the load-linked to the comparison's branch. -/
theorem cas_steps_compare (base : Word) (hops : CasOperands op0 mem op2 op3 op4 op5 op6)
    (hreads : Reads (casInputs l mem op2 op3 op4 op5 expected desired) regs)
    (word : Word) (linked : Bool) (attempt : Attempt) (rest : List Attempt) :
    ∃ regs', Steps (soloStep l.subword.alignedMem base
        (subwordAtomicCasStrong op0 mem op2 op3 op4 op5 op6))
        ⟨{ pc := 0, regs }, word, linked, attempt :: rest, []⟩
        ⟨{ pc := 3, regs := regs' }, attempt.found, attempt.linked, rest, []⟩ ∧
      Reads (casInputs l mem op2 op3 op4 op5 expected desired) regs' ∧
      regs'.get op0 = attempt.found ∧
      regs'.get op6 = (attempt.found &&& l.subword.mask) - atomicCasShifted l expected := by
  obtain ⟨hnodup, hzero, -⟩ := id hops.regs
  have h0 : op0 ≠ zero := fun h => hzero (by simp [h])
  have h6 : op6 ≠ zero := fun h => hzero (by simp [h])
  have h06 : op0 ≠ op6 := by simpa using hnodup
  have hfound := hreads.set hops.regs (o := op0) (by simp) attempt.found
  have hmasked := hfound.set hops.regs (o := op6) (by simp) (attempt.found &&& l.subword.mask)
  refine ⟨_, .head (soloStep_ll rfl (hreads (.reg mem, _) (by simp)))
    (steps_body [⟨.and, op6, op0, op4.src⟩, ⟨.sub, op6, op6, .plain op2.z⟩] rfl),
    hfound.execAll hops.regs (by simp), ?_, ?_⟩
  · simp [execAll, Alu.exec, RegFile.get_set_of_ne h06, RegFile.get_set_self h0]
  · simp only [execAll, List.foldl_cons, List.foldl_nil, Alu.exec, AluOp.eval_and, AluOp.eval_sub,
      Src.value_plain, RegFile.get_set_self h0, RegFile.get_set_self h6,
      hfound.value_src hops.op4 l.subword.mask (by simp) .and (by decide),
      hmasked.get_z hops.op2 (atomicCasShifted l expected) (by simp)]

/-- From a comparison that held to the store-conditional. -/
theorem cas_steps_store (base : Word) (hops : CasOperands op0 mem op2 op3 op4 op5 op6)
    (hreads : Reads (casInputs l mem op2 op3 op4 op5 expected desired) regs)
    (word : Word) (linked : Bool) (rest : List Attempt) {found : Word}
    (h0 : regs.get op0 = found) (h6 : regs.get op6 = 0) :
    ∃ regs', Steps (soloStep l.subword.alignedMem base
        (subwordAtomicCasStrong op0 mem op2 op3 op4 op5 op6))
        ⟨{ pc := 3, regs }, word, linked, rest, []⟩
        ⟨{ pc := 6, regs := regs' }, word, linked, rest, []⟩ ∧
      Reads (casInputs l mem op2 op3 op4 op5 expected desired) regs' ∧
      regs'.get op0 = found ∧
      regs'.get op6 = (found &&& l.subword.notMask) ||| atomicCasShifted l desired := by
  obtain ⟨hnodup, hzero, -⟩ := id hops.regs
  have hn6 : op6 ≠ zero := fun h => hzero (by simp [h])
  have h06 : op0 ≠ op6 := by simpa using hnodup
  have hmasked := hreads.set hops.regs (o := op6) (by simp) (found &&& l.subword.notMask)
  refine ⟨_, .head (soloStep_not_taken rfl ?_)
    (steps_body [⟨.and, op6, op0, op5.src⟩, ⟨.or, op6, op6, .plain op3.z⟩] rfl),
    hreads.execAll hops.regs (by simp), ?_, ?_⟩
  · rw [h6]
    decide
  · simp [execAll, Alu.exec, RegFile.get_set_of_ne h06, h0]
  · simp only [execAll, List.foldl_cons, List.foldl_nil, Alu.exec, AluOp.eval_and, AluOp.eval_or,
      Src.value_plain, RegFile.get_set_self hn6, h0,
      hreads.value_src hops.op5 l.subword.notMask (by simp) .and (by decide),
      hmasked.get_z hops.op3 (atomicCasShifted l desired) (by simp)]

/-- An attempt that found the expected value and lost its link is retried. -/
theorem cas_lostTurn (base : Word) (hops : CasOperands op0 mem op2 op3 op4 op5 op6) :
    LostTurn l.subword.alignedMem base (subwordAtomicCasStrong op0 mem op2 op3 op4 op5 op6)
      (fun (_ : Unit) => Reads (casInputs l mem op2 op3 op4 op5 expected desired))
      (fun _ _ => ()) (fun found => l.get found = expected.setWidth l.mode.bitsize) := by
  intro _ regs word linked found rest hreads hfound
  have hn6 : op6 ≠ zero := fun h => hops.regs.2.1 (by simp [h])
  obtain ⟨regs₁, hsteps₁, hreads₁, h0, h6⟩ :=
    cas_steps_compare base hops hreads word linked (.lost found) rest
  rw [show (Attempt.lost found).found = found from rfl,
    (l.sub_shifted_eq_zero_iff found expected).2 hfound] at h6
  obtain ⟨regs₂, hsteps₂, hreads₂, -, -⟩ :=
    cas_steps_store base hops hreads₁ found false rest h0 h6
  refine ⟨regs₂.set op6 0, found, hsteps₁.trans (hsteps₂.trans
    (.head (soloStep_sc_lost rfl (hreads₂ (.reg mem, _) (by simp)))
      (.single (soloStep_taken rfl ?_)))), hreads₂.set hops.regs (by simp) 0⟩
  rw [RegFile.get_set_self hn6]
  decide

/-- What the sequence does, from the word of the last attempt. -/
theorem cas_finishes (base : Word) (hops : CasOperands op0 mem op2 op3 op4 op5 op6)
    (hreads : Reads (casInputs l mem op2 op3 op4 op5 expected desired) regs) {lost : List Word}
    (hlost : ∀ found ∈ lost, l.get found = expected.setWidth l.mode.bitsize) (last : Attempt)
    (hlast : l.get last.found = expected.setWidth l.mode.bitsize → last.linked) :
    Finishes l.subword.alignedMem base (subwordAtomicCasStrong op0 mem op2 op3 op4 op5 op6) regs
      (lost.map .lost ++ [last])
      (if l.get last.found = expected.setWidth l.mode.bitsize then
        [(last.found &&& l.subword.notMask) ||| atomicCasShifted l desired] else [])
      (fun out => out.get op0 = last.found) := by
  have hn6 : op6 ≠ zero := fun h => hops.regs.2.1 (by simp [h])
  have h06 : op0 ≠ op6 := by simpa using hops.regs.1
  obtain ⟨regs₀, hreads₀, word, linked, hsteps₀⟩ :=
    (cas_lostTurn base hops).steps [last] lost hlost hreads (a := ())
  obtain ⟨regs₁, hsteps₁, hreads₁, h0, h6⟩ :=
    cas_steps_compare base hops hreads₀ word linked last []
  by_cases hequal : l.get last.found = expected.setWidth l.mode.bitsize
  · rw [(l.sub_shifted_eq_zero_iff last.found expected).2 hequal] at h6
    obtain ⟨regs₂, hsteps₂, hreads₂, h0', h6'⟩ :=
      cas_steps_store base hops hreads₁ last.found last.linked [] h0 h6
    have hsc : soloStep l.subword.alignedMem base
          (subwordAtomicCasStrong op0 mem op2 op3 op4 op5 op6)
          ⟨{ pc := 6, regs := regs₂ }, last.found, true, [], []⟩ =
        some ⟨{ pc := 7, regs := regs₂.set op6 1 }, regs₂.get op6, false, [],
          [regs₂.get op6]⟩ :=
      soloStep_sc rfl (hreads₂ (.reg mem, _) (by simp))
    rw [hlast hequal] at hsteps₁ hsteps₂
    rw [h6'] at hsc
    rw [if_pos hequal]
    refine ⟨_, ⟨hsteps₀.trans (hsteps₁.trans (hsteps₂.trans
      (.head hsc (.single (soloStep_not_taken rfl ?_))))), soloStep_end rfl⟩, rfl, rfl, ?_⟩
    · rw [RegFile.get_set_self hn6]
      decide
    · simp [RegFile.get_set_of_ne h06, h0']
  · -- The branch leaves past the store-conditional.
    have hne : Cond.ne.test (regs₁.get op6) = true := by
      have hdiff := mt (l.sub_shifted_eq_zero_iff last.found expected).1 hequal
      rw [← h6] at hdiff
      simpa [Cond.test, ← BitVec.toInt_inj] using hdiff
    rw [if_neg hequal]
    exact ⟨_, ⟨hsteps₀.trans (hsteps₁.trans (.single (soloStep_taken rfl hne))),
      soloStep_end rfl⟩, rfl, rfl, h0⟩

end

/-! ## Compare-and-swap and test-and-set -/

/-- The sequence compares and swaps the location on the word that its last load-linked found:
the store, the value returned and the success flag of the two outcomes. -/
def Location.ComparesAndSwaps (l : Location) (base : Word) (prog : List Instr) (regs : RegFile)
    (lost : List Word) (last : Attempt) (expected desired : BitVec l.mode.bitsize)
    (returned : RegFile → BitVec l.mode.bitsize) (success : RegFile → Word) : Prop :=
  (l.get last.found = expected → ∃ w', l.Replaces desired last.found w' ∧
    Finishes l.subword.alignedMem base prog regs (lost.map .lost ++ [last]) [w']
      (fun out => returned out = l.get last.found ∧ success out = 1)) ∧
  (l.get last.found ≠ expected →
    Finishes l.subword.alignedMem base prog regs (lost.map .lost ++ [last]) []
      (fun out => returned out = l.get last.found ∧ success out = 0))

theorem setWidth_one (mode : MachineMode) :
    (1 : Word).setWidth mode.bitsize = (1 : BitVec mode.bitsize) := by
  cases mode <;> decide

/-- The bit that test-and-set sets is inside the location. -/
theorem Location.shifted_one_and_notMask (l : Location) :
    xr17032LshiftSubword 1 l.subword.shift &&& l.subword.notMask = 0#32 := by
  have hsize : 0 < l.mode.bitsize := by cases l.mode <;> decide
  rw [l.lshiftSubword, l.subword_notMask]
  apply BitVec.eq_of_getLsbD_eq
  intro i hi
  by_cases hcovers : l.field.Covers i
  · simp [hcovers, hi]
  · have hne : i < l.field.shift ∨ i - l.field.shift ≠ 0 := by
      have hwidth : 0 < l.field.width := hsize
      simp only [BitField.Covers] at hcovers
      omega
    rcases hne with hlt | hne
    · simp [hlt]
    · simp [BitVec.getLsbD_shiftLeft, BitVec.getLsbD_one, hne]

/-- The register behind the sequence that both returned value and success flag are taken from. -/
def casOld (l : Location) (old : Word) : Word := ShiftOp.ash.eval old l.subword.shift

/-- **Sub-word compare-and-swap and test-and-set.** Any run of the sequence is some attempts that
found the expected value and lost their link, and one that found another value or kept it. -/
theorem atomicCompareAndSwap_correct (l : Location) (base : Word) (regs : RegFile) :
    (∀ (op0 mem op6 : Reg) (op2 op3 op4 op5 : Operand) (expected desired : Word)
      (lost : List Word) (last : Attempt),
      CasOperands op0 mem op2 op3 op4 op5 op6 →
      Reads (casInputs l mem op2 op3 op4 op5 expected desired) regs →
      (∀ found ∈ lost, l.get found = expected.setWidth l.mode.bitsize) →
      (l.get last.found = expected.setWidth l.mode.bitsize → last.linked) →
      l.ComparesAndSwaps base (subwordAtomicCasStrong op0 mem op2 op3 op4 op5 op6) regs lost last
        (expected.setWidth l.mode.bitsize) (desired.setWidth l.mode.bitsize)
        (fun out => subwordLowpart l.mode (out.get op0) l.subword.shift)
        (fun out => atomicCasSuccess l.mode (casOld l (out.get op0)) expected)) ∧
    (∀ (op0 mem op3 : Reg) (op2 : Operand) (lost : List Word) (w : Word),
      EarlyClobber [op0, op3] [.reg mem, op2] → op2.regOr0 →
      Reads [(.reg mem, l.subword.alignedMem), (op2, xr17032LshiftSubword 1 l.subword.shift)]
        regs →
      l.Updates base (atomicFetchSiInternal .ior op0 mem op2 op3) regs lost w (l.get w ||| 1)
        (fun out => subwordLowpart l.mode (out.get op0) l.subword.shift)) := by
  constructor
  · intro op0 mem op6 op2 op3 op4 op5 expected desired lost last hops hreads hlost hlast
    have hfin := cas_finishes base hops hreads hlost last hlast
    have hsuccess : ∀ old, atomicCasSuccess l.mode (casOld l old) expected =
        if l.get old = expected.setWidth l.mode.bitsize then 1 else 0 := by
      intro old
      rw [atomicCasSuccess_eq, ← l.lowpart old]
      rfl
    constructor
    · intro hequal
      have hmerge := l.replaces_merge last.found (xr17032LshiftSubword desired l.subword.shift)
      rw [l.get_lshiftSubword] at hmerge
      rw [if_pos hequal] at hfin
      refine ⟨_, hmerge, hfin.imp fun out hout => ?_⟩
      simp only [hout, l.lowpart, hsuccess, hequal, ↓reduceIte, and_self]
    · intro hdiffer
      rw [if_neg hdiffer] at hfin
      refine hfin.imp fun out hout => ?_
      simp only [hout, l.lowpart, hsuccess, hdiffer, ↓reduceIte, and_self]
  · intro op0 mem op3 op2 lost w hregs hop2 hreads
    refine ⟨_, ?_, (atomicFetchSi_finishes hregs hop2 hreads lost w).imp fun out hout => ?_⟩
    · rw [l.replaces_iff, AnyAtomic.insn, AluOp.eval_or, l.get_or, l.get_lshiftSubword,
        setWidth_one, BitVec.and_or_distrib_right, l.shifted_one_and_notMask, BitVec.or_zero]
      exact ⟨rfl, rfl⟩
    · simp only [hout, l.lowpart]

/-- The byte at 0x1003. -/
def casByte : Location := ⟨.qi, 0x1003, by decide⟩

/-- Registers 2 to 6 hold what a compare-and-swap of -2 for -1 at `casByte` takes, and register 7
what test-and-set takes. -/
def casRegs : RegFile :=
  ⟨fun r => if r = 2 then 0x1000 else if r = 3 then 0xfe000000 else if r = 4 then 0xff000000
    else if r = 5 then 0xff000000 else if r = 6 then 0xffffff else 0x1000000⟩

theorem atomicCompareAndSwap_correct_casByte :
    casByte.ComparesAndSwaps 0
        (subwordAtomicCasStrong 1 2 (.reg 3) (.reg 4) (.reg 5) (.reg 6) 8) casRegs
        [0xfe000001] (.kept 0xfe000002)
        ((0xfffffffe : Word).setWidth _) ((0xffffffff : Word).setWidth _)
        (fun out => subwordLowpart .qi (out.get 1) casByte.subword.shift)
        (fun out => atomicCasSuccess .qi (casOld casByte (out.get 1)) 0xfffffffe) ∧
      casByte.Updates 0 (atomicFetchSiInternal .ior 1 2 (.reg 7) 8) casRegs [3, 4] 0x80000000
        (casByte.get 0x80000000 ||| 1)
        (fun out => subwordLowpart .qi (out.get 1) casByte.subword.shift) :=
  ⟨(atomicCompareAndSwap_correct casByte 0 casRegs).1 1 2 8 (.reg 3) (.reg 4) (.reg 5) (.reg 6)
      0xfffffffe 0xffffffff [0xfe000001] (.kept 0xfe000002) ⟨by decide, rfl, rfl, rfl, rfl⟩
      (by decide) (List.forall_mem_singleton.2 rfl) (fun _ => rfl),
    (atomicCompareAndSwap_correct casByte 0 casRegs).2 1 2 8 (.reg 7) [3, 4] 0x80000000 (by decide)
      rfl (by decide)⟩

end XrLinux.Gcc
