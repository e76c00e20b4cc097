import XrLinux.Gcc.Subword

/-!
# GCC port — atomic exchange

`atomic_exchangesi` and `atomic_exchange<mode>` of `gcc/config/xr17032/sync.md`. The sub-word
sequence keeps its scratch apart from the value it stores and is right on every run. The word
sequence has the caller's value in the register that receives the result of the
store-conditional, so a failed one leaves zero there and the next turn stores the zero
(`atomicExchange_correct_iff`).
-/

namespace XrLinux.Gcc

open XrLinux.Machine
open Iterate

/-- `atomic_exchangesi_internal`. Operand 2, the new value, is matched to operand 0. -/
def atomicExchangesiInternal (op0 mem op3 : Reg) : List Instr :=
  [.ll op3 mem,
    .sc op0 mem op0,
    .branch .eq op0 (.label 0),
    .alu .add op0 op3 (.plain zero)]

/-- The value `atomic_exchange<mode>` hands to its template. -/
def atomicExchangeShifted (l : Location) (value : Word) : Word :=
  xr17032LshiftSubword value l.subword.shift &&& l.subword.mask

/-- `subword_atomic_exchange_strong`. -/
def subwordAtomicExchangeStrong (op0 mem : Reg) (op2 op3 : Operand) (op4 : Reg) : List Instr :=
  [.ll op0 mem,
    .alu .and op4 op0 (.plain op3.z),
    .alu .or op4 op4 (.plain op2.z),
    .sc op4 mem op4,
    .branch .eq op4 (.label 0)]

/-! ## The word sequence -/

/-- A lost turn of the word sequence: the store-conditional's zero replaces the value. -/
theorem atomicExchangesi_lostTurn {loc : Word} (base : Word) {op0 mem op3 : Reg}
    (hregs : EarlyClobber [op0, op3] [.reg mem]) :
    LostTurn loc base (atomicExchangesiInternal op0 mem op3)
      (fun value regs => regs.get mem = loc ∧ regs.get op0 = value) (fun _ _ => 0)
      fun _ => True := by
  obtain ⟨hnodup, hzero, hins⟩ := hregs
  have h0 : op0 ≠ zero := fun h => hzero (by simp [h])
  have h03 : op0 ≠ op3 := by simpa using hnodup
  have hm0 : mem ≠ op0 := by simpa [eq_comm] using hins op0 (by simp)
  have hm3 : mem ≠ op3 := by simpa [eq_comm] using hins op3 (by simp)
  rintro value regs word linked found rest ⟨hloc, hvalue⟩ -
  have hmem : (regs.set op3 found).get mem = loc := by rw [RegFile.get_set_of_ne hm3, hloc]
  refine ⟨(regs.set op3 found).set op0 0, found, .head (soloStep_ll rfl hloc)
    (.head (soloStep_sc_lost rfl hmem) (.single (soloStep_taken rfl ?_))), ?_, ?_⟩
  · rw [RegFile.get_set_self h0]
    decide
  · rw [RegFile.get_set_of_ne hm0, hmem]
  · rw [RegFile.get_set_self h0]

/-- What the word sequence stores: the caller's value if no attempt was lost, zero otherwise. -/
theorem atomicExchangesi_finishes {loc base : Word} {op0 mem op3 : Reg}
    (hregs : EarlyClobber [op0, op3] [.reg mem]) {regs : RegFile} (hloc : regs.get mem = loc)
    (lost : List Word) (w : Word) :
    Finishes loc base (atomicExchangesiInternal op0 mem op3) regs
      (lost.map .lost ++ [.kept w]) [if lost = [] then regs.get op0 else 0]
      (fun out => out.get op0 = w) := by
  obtain ⟨last, ⟨hlastloc, hlast⟩, word, linked, hsteps⟩ :=
    (atomicExchangesi_lostTurn base hregs).steps [.kept w] lost (fun _ _ => trivial) ⟨hloc, rfl⟩
  obtain ⟨hnodup, hzero, hins⟩ := hregs
  have h0 : op0 ≠ zero := fun h => hzero (by simp [h])
  have h03 : op0 ≠ op3 := by simpa using hnodup
  have h3 : op3 ≠ zero := fun h => hzero (by simp [h])
  have hm3 : mem ≠ op3 := by simpa [eq_comm] using hins op3 (by simp)
  have hmem : (last.set op3 w).get mem = loc := by rw [RegFile.get_set_of_ne hm3, hlastloc]
  have hvalue : last.get op0 = if lost = [] then regs.get op0 else 0 := by
    rw [hlast]
    rcases List.eq_nil_or_concat lost with rfl | ⟨lost, found, rfl⟩
    · rfl
    · simp
  have hsc : soloStep loc base (atomicExchangesiInternal op0 mem op3)
        ⟨{ pc := 1, regs := last.set op3 w }, w, true, [], []⟩ =
      some ⟨{ pc := 2, regs := (last.set op3 w).set op0 1 },
        (last.set op3 w).get op0, false, [], [(last.set op3 w).get op0]⟩ :=
    soloStep_sc rfl hmem
  rw [RegFile.get_set_of_ne h03, hvalue] at hsc
  refine ⟨_, ⟨hsteps.trans (.head (soloStep_ll rfl hlastloc) (.head hsc
    (.head (soloStep_not_taken rfl ?_) (.single (soloStep_alu rfl))))), soloStep_end rfl⟩,
    rfl, rfl, ?_⟩
  · rw [RegFile.get_set_self h0]
    decide
  · simp [RegFile.get_set_self h0, RegFile.get_set_of_ne (Ne.symm h03), RegFile.get_set_self h3,
      AluOp.eval]

/-! ## The sub-word sequence -/

/-- The sub-word sequence as a read-modify-write loop. -/
theorem subwordAtomicExchangeStrong_eq (op0 mem : Reg) (op2 op3 : Operand) (op4 : Reg) :
    subwordAtomicExchangeStrong op0 mem op2 op3 op4 =
      retryLoop op0 mem [⟨.and, op4, op0, .plain op3.z⟩, ⟨.or, op4, op4, .plain op2.z⟩] op4 op4 :=
  rfl

theorem subwordAtomicExchange_finishes {loc base : Word} {op0 mem op4 : Reg} {op2 op3 : Operand}
    (hregs : EarlyClobber [op0, op4] [.reg mem, op2, op3]) (hop2 : op2.regOr0)
    (hop3 : op3.regOr0) {regs : RegFile} {value notMask : Word}
    (hreads : Reads [(.reg mem, loc), (op2, value), (op3, notMask)] regs)
    (lost : List Word) (w : Word) :
    Finishes loc base (subwordAtomicExchangeStrong op0 mem op2 op3 op4) regs
      (lost.map .lost ++ [.kept w]) [(w &&& notMask) ||| value] (fun out => out.get op0 = w) := by
  obtain ⟨last, hlast, out, hout, hpc, hstored, hpost⟩ := hreads.retryLoop_finishes hregs
    loc base op0 mem op4 op4 [⟨.and, op4, op0, .plain op3.z⟩, ⟨.or, op4, op4, .plain op2.z⟩]
    (by simp) (by simp) (by simp) (by simp) lost w
  have hfound := hlast.set hregs (o := op0) (by simp) w
  have hmasked := hfound.set hregs (o := op4) (by simp) (w &&& notMask)
  obtain ⟨hnodup, hzero, -⟩ := hregs
  have h0 : op0 ≠ zero := fun h => hzero (by simp [h])
  have h4 : op4 ≠ zero := fun h => hzero (by simp [h])
  have h04 : op0 ≠ op4 := by simpa using hnodup
  have hbody : execAll [⟨.and, op4, op0, .plain op3.z⟩, ⟨.or, op4, op4, .plain op2.z⟩]
        (last.set op0 w) =
      ((last.set op0 w).set op4 (w &&& notMask)).set op4 ((w &&& notMask) ||| value) := by
    simp only [execAll, List.foldl_cons, List.foldl_nil, Alu.exec, Src.value_plain, AluOp.eval,
      hfound.get_z hop3 notMask (by simp), RegFile.get_set_self h0,
      hmasked.get_z hop2 value (by simp), RegFile.get_set_self h4]
  rw [hbody] at hstored hpost
  refine ⟨out, hout, hpc, ?_, ?_⟩
  · rw [hstored, RegFile.get_set_self h4]
  · simp [hpost, RegFile.get_set_of_ne h04, RegFile.get_set_self h0]

/-! ## Exchange of every width -/

/-- **Atomic exchange.** The sub-word sequences exchange on every run. The word sequence does
*if and only if* no store-conditional failed or the caller's value is zero: after a failed one
it stores the zero that the failure left in the operand's register. -/
theorem atomicExchange_correct_iff (l : Location) (base : Word) (regs : RegFile)
    (lost : List Word) (w : Word) :
    (∀ (op0 mem op4 : Reg) (op2 op3 : Operand) (value : Word),
      EarlyClobber [op0, op4] [.reg mem, op2, op3] → op2.regOr0 → op3.regOr0 →
      Reads [(.reg mem, l.subword.alignedMem), (op2, atomicExchangeShifted l value),
        (op3, l.subword.notMask)] regs →
      l.Updates base (subwordAtomicExchangeStrong op0 mem op2 op3 op4) regs lost w
        (value.setWidth l.mode.bitsize)
        (fun out => subwordLowpart l.mode (out.get op0) l.subword.shift)) ∧
    (∀ op0 mem op3 : Reg, l.mode = .si →
      EarlyClobber [op0, op3] [.reg mem] → regs.get mem = l.addr →
      (l.Updates base (atomicExchangesiInternal op0 mem op3) regs lost w
          ((regs.get op0).setWidth l.mode.bitsize)
          (fun out => (out.get op0).setWidth l.mode.bitsize) ↔
        lost = [] ∨ regs.get op0 = 0)) := by
  constructor
  · intro op0 mem op4 op2 op3 value hregs hop2 hop3 hreads
    have hmerge := l.replaces_merge w (xr17032LshiftSubword value l.subword.shift)
    rw [l.get_lshiftSubword] at hmerge
    refine ⟨_, hmerge, (subwordAtomicExchange_finishes hregs hop2 hop3 hreads lost w).imp ?_⟩
    intro out hout
    simp only [hout, l.lowpart]
  · intro op0 mem op3 hl hregs hmem
    rw [← Location.alignedMem_of_si hl] at hmem
    rw [Location.updates_iff ((atomicExchangesi_finishes hregs hmem lost w).imp ?_),
      Location.replaces_iff_of_si hl]
    · cases lost with
      | nil => simp
      | cons found lost => simp [eq_comm]
    · intro out hout
      simp only [hout, Location.get_of_si hl]

/-- Register 1 holds the word 5, register 2 the address 0x1000, and registers 4 and 5 what the
exchange of -1 into the byte at 0x1002 takes. -/
def exchangeRegs : RegFile :=
  ⟨fun r => if r = 2 then 0x1000 else if r = 4 then 0xff0000 else if r = 5 then 0xff00ffff else 5⟩

/-- The word at 0x1000. -/
def exchangeWord : Location := ⟨.si, 0x1000, by decide⟩

/-- The byte at 0x1002. -/
def exchangeByte : Location := ⟨.qi, 0x1002, by decide⟩

theorem atomicExchange_correct_iff_exchangeRegs :
    exchangeByte.Updates 0 (subwordAtomicExchangeStrong 1 2 (.reg 4) (.reg 5) 3) exchangeRegs [7]
        0x1020304 ((0xffffffff#32).setWidth _)
        (fun out => subwordLowpart .qi (out.get 1) exchangeByte.subword.shift) ∧
      (exchangeWord.Updates 0 (atomicExchangesiInternal 1 2 3) exchangeRegs [] 7
          ((exchangeRegs.get 1).setWidth _) (fun out => (out.get 1).setWidth _) ↔
        ([] : List Word) = [] ∨ exchangeRegs.get 1 = 0) :=
  ⟨(atomicExchange_correct_iff exchangeByte 0 exchangeRegs [7] 0x1020304).1 1 2 3 (.reg 4) (.reg 5)
      0xffffffff (by decide) rfl rfl (by decide),
    (atomicExchange_correct_iff exchangeWord 0 exchangeRegs [] 7).2 1 2 3 rfl (by decide) rfl⟩

/-- One failed store-conditional, and the word exchange stores 0 for the caller's 5. -/
theorem atomicExchangesi_fails :
    ¬ ∀ (l : Location) (base : Word) (regs : RegFile) (lost : List Word) (w : Word)
      (op0 mem op3 : Reg), l.mode = .si → EarlyClobber [op0, op3] [.reg mem] →
      regs.get mem = l.addr →
      l.Updates base (atomicExchangesiInternal op0 mem op3) regs lost w
        ((regs.get op0).setWidth l.mode.bitsize)
        (fun out => (out.get op0).setWidth l.mode.bitsize) := by
  intro hall
  obtain ⟨w', hreplaces, hfin⟩ :=
    hall exchangeWord 0 exchangeRegs [7] 7 1 2 3 rfl (by decide) (by decide)
  have hregs : EarlyClobber [1, 3] [.reg 2] := by decide
  obtain ⟨hstored, -⟩ := hfin.unique (atomicExchangesi_finishes hregs (by decide) [7] 7)
  rw [Location.replaces_iff_of_si rfl] at hreplaces
  rw [hreplaces] at hstored
  exact absurd hstored (by decide)

end XrLinux.Gcc
