import XrLinux.Gcc.Subword

/-!
# GCC port — sub-word fetch-and-op

`atomic_fetch_<atomic_optab><mode>` and `atomic_fetch_nand<mode>` of
`gcc/config/xr17032/sync.md`. The four codes of `any_atomic` share a template that computes on
the whole word, masks the result and merges it with the rest of the loaded word. The template of
nand masks the rest of the word into `%5`, over the nand it has just computed there, and then
stores from `%6`, which it never loaded: the sequence is right only by accident, and
`atomicFetch_correct_iff` says by which one.
-/

namespace XrLinux.Gcc

open XrLinux.Machine

inductive FetchOp where
  | add | sub | and | or | xor | nand
  deriving DecidableEq, Repr

/-- The operation on the location's own width. -/
def FetchOp.result {n : Nat} (op : FetchOp) (old value : BitVec n) : BitVec n :=
  match op with
  | .add => old + value
  | .sub => old - value
  | .and => old &&& value
  | .or => old ||| value
  | .xor => old ^^^ value
  | .nand => ~~~(old &&& value)

/-- The operand as the expander receives it. The port has no subtraction, and the middle end
adds the negated value instead. -/
def FetchOp.operand {n : Nat} (op : FetchOp) (value : BitVec n) : BitVec n :=
  match op with
  | .sub => -value
  | _ => value

/-- `<insn>`. -/
def FetchOp.insn : FetchOp → AluOp
  | .add | .sub => .add
  | .or => .or
  | .xor => .xor
  | .and | .nand => .and

/-- `subword_atomic_fetch_strong_<atomic_optab>`. -/
def subwordAtomicFetchStrong (insn : AluOp) (op0 mem : Reg) (op2 op3 op4 : Operand)
    (op5 op6 : Reg) : List Instr :=
  [.ll op0 mem,
    .alu insn op5 op0 (.plain op2.z),
    .alu .and op5 op5 op3.src,
    .alu .and op6 op0 op4.src,
    .alu .or op6 op6 (.plain op5),
    .sc op5 mem op6,
    .branch .eq op5 (.label 0)]

/-- `subword_atomic_fetch_strong_nand`. -/
def subwordAtomicFetchStrongNand (op0 mem : Reg) (op2 op3 op4 : Operand) (op5 op6 : Reg) :
    List Instr :=
  [.ll op0 mem,
    .alu .and op5 op0 (.plain op2.z),
    .alu .nor op5 op5 (.plain zero),
    .alu .and op5 op5 op3.src,
    .alu .and op5 op0 op4.src,
    .alu .or op6 op6 (.plain op5),
    .sc op5 mem op6,
    .branch .eq op5 (.label 0)]

/-- The template an operation expands to. -/
def FetchOp.template (op : FetchOp) (op0 mem : Reg) (op2 op3 op4 : Operand) (op5 op6 : Reg) :
    List Instr :=
  match op with
  | .nand => subwordAtomicFetchStrongNand op0 mem op2 op3 op4 op5 op6
  | _ => subwordAtomicFetchStrong op.insn op0 mem op2 op3 op4 op5 op6

/-! ## The operations of `any_atomic` -/

/-- The operation on the shifted operand does, in the location, the operation on its own width:
nothing carries into it from below, and what carries out of it is masked off. -/
theorem FetchOp.get_insn {op : FetchOp} (hop : op ≠ .nand) (l : Location) (w held : Word)
    {value : BitVec l.mode.bitsize} (hheld : held.setWidth l.mode.bitsize = op.operand value) :
    l.get (op.insn.eval w (xr17032LshiftSubword held l.subword.shift)) =
      op.result (l.get w) value := by
  have hshifted := l.get_lshiftSubword held
  have hadd : l.get (w + xr17032LshiftSubword held l.subword.shift) =
      l.get w + held.setWidth l.mode.bitsize := by
    rw [l.lshiftSubword]
    exact l.field.get_add_shiftLeft w held
  rw [hheld] at hshifted hadd
  cases op with
  | add => exact hadd
  | sub => exact hadd.trans (BitVec.sub_eq_add_neg _ _).symm
  | and => simp [FetchOp.insn, hshifted, FetchOp.operand, FetchOp.result]
  | or => simp [FetchOp.insn, hshifted, FetchOp.operand, FetchOp.result]
  | xor => simp [FetchOp.insn, hshifted, FetchOp.operand, FetchOp.result]
  | nand => exact absurd rfl hop

/-- Registers 5 and 6 are written before they are read, so nothing survives a lost attempt. -/
theorem subwordAtomicFetch_finishes (insn : AluOp) {loc : Word} (base : Word) {op0 mem op5 op6 : Reg} {op2 op3 op4 : Operand}
    (hregs : EarlyClobber [op0, op5, op6] [.reg mem, op2, op3, op4]) (hop2 : op2.regOr0)
    (hop3 : op3.arith) (hop4 : op4.arith) {regs : RegFile} {value mask notMask : Word}
    (hreads : Reads [(.reg mem, loc), (op2, value), (op3, mask), (op4, notMask)] regs)
    (lost : List Word) (w : Word) :
    Finishes loc base (subwordAtomicFetchStrong insn op0 mem op2 op3 op4 op5 op6) regs
      (lost.map .lost ++ [.kept w]) [(w &&& notMask) ||| (insn.eval w value &&& mask)]
      (fun out => out.get op0 = w) := by
  obtain ⟨last, hlast, hfin⟩ := hreads.retryLoop_finishes hregs
    loc base op0 mem op5 op6 [⟨insn, op5, op0, .plain op2.z⟩, ⟨.and, op5, op5, op3.src⟩,
      ⟨.and, op6, op0, op4.src⟩, ⟨.or, op6, op6, .plain op5⟩]
    (by simp) (by simp) (by simp) (by simp) lost w
  have h₀ := hlast.set hregs (o := op0) (by simp) w
  have h₁ := h₀.set hregs (o := op5) (by simp) (insn.eval w value)
  have h₂ := h₁.set hregs (o := op5) (by simp) (insn.eval w value &&& mask)
  obtain ⟨hnodup, hzero, -⟩ := hregs
  have hn0 : op0 ≠ zero := fun h => hzero (by simp [h])
  have hn5 : op5 ≠ zero := fun h => hzero (by simp [h])
  have hn6 : op6 ≠ zero := fun h => hzero (by simp [h])
  obtain ⟨⟨h05, h06⟩, h56⟩ : (op0 ≠ op5 ∧ op0 ≠ op6) ∧ op5 ≠ op6 := by simpa using hnodup
  have hbody : execAll [⟨insn, op5, op0, .plain op2.z⟩, ⟨.and, op5, op5, op3.src⟩,
        ⟨.and, op6, op0, op4.src⟩, ⟨.or, op6, op6, .plain op5⟩] (last.set op0 w) =
      ((((last.set op0 w).set op5 (insn.eval w value)).set op5 (insn.eval w value &&& mask)).set
        op6 (w &&& notMask)).set op6 ((w &&& notMask) ||| (insn.eval w value &&& mask)) := by
    simp only [execAll, List.foldl_cons, List.foldl_nil, Alu.exec, Src.value_plain, AluOp.eval_and,
      AluOp.eval_or, h₀.get_z hop2 value (by simp), RegFile.get_set_self hn0,
      RegFile.get_set_self hn5, RegFile.get_set_self hn6, RegFile.get_set_of_ne h05,
      RegFile.get_set_of_ne h56,
      h₁.value_src hop3 mask (by simp) .and (by decide),
      h₂.value_src hop4 notMask (by simp) .and (by decide)]
  rw [hbody, RegFile.get_set_self hn6] at hfin
  refine hfin.imp ?_
  rintro out rfl
  simp [RegFile.get_set_of_ne h05, RegFile.get_set_of_ne h06, RegFile.get_set_self hn0]

/-! ## Nand -/

section
variable {loc : Word} {op0 mem op5 op6 : Reg} {op2 op3 op4 : Operand} {value mask notMask : Word}

/-- The arithmetic of the nand template. -/
def nandBody (op0 : Reg) (op2 op3 op4 : Operand) (op5 op6 : Reg) : List Alu :=
  [⟨.and, op5, op0, .plain op2.z⟩, ⟨.nor, op5, op5, .plain zero⟩, ⟨.and, op5, op5, op3.src⟩,
    ⟨.and, op5, op0, op4.src⟩, ⟨.or, op6, op6, .plain op5⟩]

/-- One turn of nand: the fourth instruction drops what the first three have computed, and
register 6 gathers the rest of the loaded word on top of what it held. -/
theorem nandBody_exec (hregs : EarlyClobber [op0, op5, op6] [.reg mem, op2, op3, op4])
    (hop4 : op4.arith) {regs : RegFile}
    (hreads : Reads [(.reg mem, loc), (op2, value), (op3, mask), (op4, notMask)] regs)
    (found : Word) :
    let out := execAll (nandBody op0 op2 op3 op4 op5 op6) (regs.set op0 found)
    Reads [(.reg mem, loc), (op2, value), (op3, mask), (op4, notMask)] out ∧
      out.get op6 = regs.get op6 ||| (found &&& notMask) ∧ out.get op0 = found := by
  have hfound := hreads.set hregs (o := op0) (by simp) found
  set dropped := execAll ((nandBody op0 op2 op3 op4 op5 op6).take 3) (regs.set op0 found)
    with hdropped
  have hreads' : Reads [(.reg mem, loc), (op2, value), (op3, mask), (op4, notMask)] dropped :=
    hfound.execAll hregs (by simp [nandBody])
  obtain ⟨hnodup, hzero, -⟩ := id hregs
  have hn0 : op0 ≠ zero := fun h => hzero (by simp [h])
  have hn5 : op5 ≠ zero := fun h => hzero (by simp [h])
  have hn6 : op6 ≠ zero := fun h => hzero (by simp [h])
  obtain ⟨⟨h05, h06⟩, h56⟩ : (op0 ≠ op5 ∧ op0 ≠ op6) ∧ op5 ≠ op6 := by simpa using hnodup
  have h0 : dropped.get op0 = found := by
    simp [hdropped, nandBody, execAll, Alu.exec, RegFile.get_set_of_ne h05,
      RegFile.get_set_self hn0]
  have h6 : dropped.get op6 = regs.get op6 := by
    simp [hdropped, nandBody, execAll, Alu.exec, RegFile.get_set_of_ne h56.symm,
      RegFile.get_set_of_ne h06.symm]
  refine ⟨hfound.execAll hregs (by simp [nandBody]), ?_, ?_⟩
  · show (execAll [⟨.and, op5, op0, op4.src⟩, ⟨.or, op6, op6, .plain op5⟩] dropped).get op6 = _
    simp only [execAll, List.foldl_cons, List.foldl_nil, Alu.exec, AluOp.eval_and, AluOp.eval_or,
      Src.value_plain, RegFile.get_set_self hn6, RegFile.get_set_self hn5,
      RegFile.get_set_of_ne h56.symm, h0, h6,
      hreads'.value_src hop4 notMask (by simp) .and (by decide)]
  · simp [nandBody, execAll, Alu.exec, RegFile.get_set_of_ne h05, RegFile.get_set_of_ne h06,
      RegFile.get_set_self hn0]

/-- What nand stores, from the contents of register 6 before the sequence. -/
def nandStored (scratch notMask : Word) (lost : List Word) (w : Word) : Word :=
  lost.foldl (fun acc found => acc ||| (found &&& notMask)) scratch ||| (w &&& notMask)

theorem subwordAtomicFetchNand_finishes (base : Word)
    (hregs : EarlyClobber [op0, op5, op6] [.reg mem, op2, op3, op4]) (hop4 : op4.arith)
    {regs : RegFile}
    (hreads : Reads [(.reg mem, loc), (op2, value), (op3, mask), (op4, notMask)] regs)
    (lost : List Word) (w : Word) :
    Finishes loc base (subwordAtomicFetchStrongNand op0 mem op2 op3 op4 op5 op6) regs
      (lost.map .lost ++ [.kept w]) [nandStored (regs.get op6) notMask lost w]
      (fun out => out.get op0 = w) := by
  have hn5 : op5 ≠ zero := fun h => hregs.2.1 (by simp [h])
  have hnodup := hregs.1
  obtain ⟨⟨h05, -⟩, h56⟩ : (op0 ≠ op5 ∧ op0 ≠ op6) ∧ op5 ≠ op6 := by simpa using hnodup
  obtain ⟨last, ⟨hlast, hacc⟩, hfin⟩ := retryLoop_finishes loc base op0 mem op5 op6
    (nandBody op0 op2 op3 op4 op5 op6)
    (fun acc regs =>
      Reads [(.reg mem, loc), (op2, value), (op3, mask), (op4, notMask)] regs ∧
        regs.get op6 = acc)
    (fun acc found => acc ||| (found &&& notMask)) hn5
    (fun _ _ h => h.1 (.reg mem, loc) (by simp))
    (fun acc regs found ⟨h, hacc⟩ => by
      obtain ⟨h', h6, -⟩ := nandBody_exec hregs hop4 h found
      refine ⟨h' (.reg mem, loc) (by simp), h'.set hregs (by simp) 0, ?_⟩
      rw [RegFile.get_set_of_ne h56.symm, h6, hacc])
    (regs.get op6) ⟨hreads, rfl⟩ lost w
  obtain ⟨-, h6, h0⟩ := nandBody_exec hregs hop4 hlast w
  rw [h6, hacc] at hfin
  refine hfin.imp ?_
  rintro out rfl
  rw [RegFile.get_set_of_ne h05, h0]

end

/-- The accident that makes nand right: register 6 happens to hold the nand of the location in
the location's bits, and outside them neither it nor a lost attempt's word has a bit that the
last loaded word lacks. -/
def NandAccident (l : Location) (scratch : Word) (lost : List Word) (w : Word)
    (value : BitVec l.mode.bitsize) : Prop :=
  l.get scratch = ~~~(l.get w &&& value) ∧
    (lost.foldl (· ||| ·) scratch ||| w) &&& l.subword.notMask = w &&& l.subword.notMask

instance (l : Location) (scratch : Word) (lost : List Word) (w : Word)
    (value : BitVec l.mode.bitsize) : Decidable (NandAccident l scratch lost w value) := by
  unfold NandAccident; infer_instance

theorem get_nandStored (l : Location) (scratch : Word) (lost : List Word) (w : Word) :
    l.get (nandStored scratch l.subword.notMask lost w) = l.get scratch := by
  suffices h : ∀ acc, l.get (lost.foldl
      (fun acc found => acc ||| (found &&& l.subword.notMask)) acc) = l.get acc by
    simp [nandStored, h]
  induction lost with
  | nil => simp
  | cons found lost ih => simp [ih]

/-- Outside the location nand stores every bit it has ever loaded. -/
theorem nandStored_and_notMask (notMask scratch : Word) (lost : List Word) (w : Word) :
    nandStored scratch notMask lost w &&& notMask =
      (lost.foldl (· ||| ·) scratch ||| w) &&& notMask := by
  have hor : ∀ a b : Word, (a ||| (b &&& notMask)) &&& notMask = (a ||| b) &&& notMask := by
    intro a b
    ext i hi
    simp only [BitVec.getElem_and, BitVec.getElem_or]
    cases a[i] <;> cases b[i] <;> cases notMask[i] <;> rfl
  suffices h : ∀ acc acc' : Word, acc &&& notMask = acc' &&& notMask →
      lost.foldl (fun acc found => acc ||| (found &&& notMask)) acc &&& notMask =
        lost.foldl (· ||| ·) acc' &&& notMask by
    rw [nandStored, hor, BitVec.and_or_distrib_right, BitVec.and_or_distrib_right, h _ _ rfl]
  induction lost with
  | nil => exact fun _ _ h => h
  | cons found lost ih =>
    intro acc acc' h
    apply ih
    rw [hor, BitVec.and_or_distrib_right, BitVec.and_or_distrib_right, h]

/-- **Sub-word fetch-and-op.** For every location, operand (whatever stands in its register
above the location's width), operation and number of failed store-conditionals, the sequence
updates the location to the operation's result and returns the old value *if and only if* the
operation is not nand, or register 6 makes nand right by accident. -/
theorem atomicFetch_correct_iff (l : Location) (base : Word) (op : FetchOp)
    {op0 mem op5 op6 : Reg} {op2 op3 op4 : Operand}
    (hregs : EarlyClobber [op0, op5, op6] [.reg mem, op2, op3, op4]) (hop2 : op2.regOr0)
    (hop3 : op3.arith) (hop4 : op4.arith) {value : BitVec l.mode.bitsize} {held : Word}
    (hheld : held.setWidth l.mode.bitsize = op.operand value) {regs : RegFile}
    (hreads : Reads [(.reg mem, l.subword.alignedMem),
      (op2, xr17032LshiftSubword held l.subword.shift), (op3, l.subword.mask),
      (op4, l.subword.notMask)] regs)
    (lost : List Word) (w : Word) :
    l.Updates base (op.template op0 mem op2 op3 op4 op5 op6) regs lost w
        (op.result (l.get w) value)
        (fun out => subwordLowpart l.mode (out.get op0) l.subword.shift) ↔
      (op = .nand → NandAccident l (regs.get op6) lost w value) := by
  have hreturned : ∀ out : RegFile, out.get op0 = w →
      subwordLowpart l.mode (out.get op0) l.subword.shift = l.get w := by
    intro out hout
    rw [hout, l.lowpart]
  by_cases hop : op = .nand
  · subst hop
    have hfin := subwordAtomicFetchNand_finishes base hregs hop4 hreads lost w
    rw [FetchOp.template, Location.updates_iff (hfin.imp hreturned), l.replaces_iff,
      get_nandStored, nandStored_and_notMask]
    simp [NandAccident, FetchOp.result]
  · have hfin := subwordAtomicFetch_finishes op.insn base hregs hop2 hop3 hop4
      hreads lost w
    have htemplate : op.template op0 mem op2 op3 op4 op5 op6 =
        subwordAtomicFetchStrong op.insn op0 mem op2 op3 op4 op5 op6 := by
      cases op <;> first | rfl | exact absurd rfl hop
    have hmerge := l.replaces_merge w
      (op.insn.eval w (xr17032LshiftSubword held l.subword.shift))
    rw [FetchOp.get_insn hop l w held hheld] at hmerge
    rw [htemplate, Location.updates_iff (hfin.imp hreturned)]
    simp [hop, hmerge]

/-- Register 2 holds 0x1000, registers 3, 4 and 5 what a fetch-and-op of -1 on the byte at
0x1001 takes, and the scratch registers nothing in particular. -/
def fetchOpRegs : RegFile :=
  ⟨fun r => if r = 2 then 0x1000 else if r = 3 then 0xffffff00 else if r = 4 then 0xff00
    else if r = 5 then 0xffff00ff else 0⟩

/-- The byte at 0x1001. -/
def fetchOpByte : Location := ⟨.qi, 0x1001, by decide⟩

theorem atomicFetch_correct_iff_byte :
    fetchOpByte.Updates 0 (FetchOp.nand.template 1 2 (.reg 3) (.reg 4) (.reg 5) 6 7) fetchOpRegs
        [1, 2] 0x01020304 (FetchOp.nand.result (fetchOpByte.get 0x01020304) (BitVec.allOnes 8))
        (fun out => subwordLowpart .qi (out.get 1) fetchOpByte.subword.shift) ↔
      (FetchOp.nand = .nand → NandAccident fetchOpByte 0 [1, 2] 0x01020304 (BitVec.allOnes 8)) :=
  atomicFetch_correct_iff fetchOpByte 0 .nand (by decide) rfl rfl rfl
    (show (0xffffffff : Word).setWidth 8 = BitVec.allOnes 8 by decide) (by decide) [1, 2] 0x01020304

/-- Nand of the byte 3 with -1 stores 0 for the 0xfc that is due, with no contention at all. -/
theorem atomicFetchNand_fails :
    ¬ ∀ (l : Location) (base : Word) (op : FetchOp) (op0 mem op5 op6 : Reg)
      (op2 op3 op4 : Operand) (value : BitVec l.mode.bitsize) (held : Word) (regs : RegFile)
      (lost : List Word) (w : Word),
      EarlyClobber [op0, op5, op6] [.reg mem, op2, op3, op4] → op2.regOr0 → op3.arith →
      op4.arith → held.setWidth l.mode.bitsize = op.operand value →
      Reads [(.reg mem, l.subword.alignedMem),
        (op2, xr17032LshiftSubword held l.subword.shift), (op3, l.subword.mask),
        (op4, l.subword.notMask)] regs →
      l.Updates base (op.template op0 mem op2 op3 op4 op5 op6) regs lost w
        (op.result (l.get w) value)
        (fun out => subwordLowpart l.mode (out.get op0) l.subword.shift) := by
  intro hall
  obtain ⟨w', hreplaces, hfin⟩ := hall fetchOpByte 0 .nand 1 2 6 7 (.reg 3) (.reg 4) (.reg 5)
    (BitVec.allOnes 8) 0xffffffff fetchOpRegs [] 0x01020304 (by decide) rfl rfl rfl (by decide)
    (by decide)
  have hregs : EarlyClobber [1, 6, 7] [.reg 2, .reg 3, .reg 4, .reg 5] := by decide
  have hreads : Reads [(.reg 2, 0x1000), (.reg 3, 0xffffff00), (.reg 4, 0xff00),
      (.reg 5, 0xffff00ff)] fetchOpRegs := by decide
  obtain ⟨hstored, -⟩ :=
    hfin.unique (subwordAtomicFetchNand_finishes 0 hregs rfl hreads [] 0x01020304)
  rw [List.cons.injEq] at hstored
  rw [hstored.1, Location.replaces_iff] at hreplaces
  exact absurd hreplaces.1 (by decide)

end XrLinux.Gcc
