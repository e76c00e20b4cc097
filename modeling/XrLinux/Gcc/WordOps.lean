import XrLinux.Gcc.Operand

/-!
# GCC port — word atomics

The templates of `gcc/config/xr17032/sync.md` that work on whole words: `atomic op`,
`fetch-and-op` and `compare-and-swap`.
-/

namespace XrLinux.Gcc

open XrLinux.Machine

/-- The codes of `any_atomic`. -/
inductive AnyAtomic where
  | plus | ior | xor | and
  deriving DecidableEq, Repr

/-- `<insn>`. -/
def AnyAtomic.insn : AnyAtomic → AluOp
  | .plus => .add
  | .ior => .or
  | .xor => .xor
  | .and => .and

/-- `atomic_<atomic_optab>si_internal`. -/
def atomicSiInternal (code : AnyAtomic) (mem : Reg) (op1 : Operand) (op2 : Reg) : List Instr :=
  [.ll op2 mem,
    .alu code.insn op2 op2 (.plain op1.z),
    .sc op2 mem op2,
    .branch .eq op2 (.label 0)]

/-- `atomic_fetch_<atomic_optab>si_internal`. -/
def atomicFetchSiInternal (code : AnyAtomic) (op0 mem : Reg) (op2 : Operand) (op3 : Reg) :
    List Instr :=
  [.ll op0 mem,
    .alu code.insn op3 op0 (.plain op2.z),
    .sc op3 mem op3,
    .branch .eq op3 (.label 0)]

/-- `atomic_cas_value_strongsi_internal`. The forward label is the end of the sequence. -/
def atomicCasValueStrongsiInternal (op0 mem : Reg) (op2 op3 : Operand) (op4 : Reg) : List Instr :=
  [.ll op0 mem,
    .alu .sub op4 op0 (.plain op2.z),
    .branch .ne op4 (.label 5),
    .sc op4 mem op3.z,
    .branch .eq op4 (.label 0)]

/-- Fetch-and-op by one processor, whatever happens between its attempts. -/
theorem atomicFetchSi_finishes {code : AnyAtomic} {loc base : Word} {op0 mem op3 : Reg}
    {op2 : Operand} (hregs : EarlyClobber [op0, op3] [.reg mem, op2]) (hop2 : op2.regOr0)
    {regs : RegFile} {value : Word} (hreads : Reads [(.reg mem, loc), (op2, value)] regs)
    (lost : List Word) (w : Word) :
    Finishes loc base (atomicFetchSiInternal code op0 mem op2 op3) regs
      (lost.map .lost ++ [.kept w]) [code.insn.eval w value] (fun out => out.get op0 = w) := by
  obtain ⟨last, hlast, hfin⟩ := hreads.retryLoop_finishes hregs
    loc base op0 mem op3 op3 [⟨code.insn, op3, op0, .plain op2.z⟩]
    (by simp) (by simp) (by simp) (by simp) lost w
  have hfound := hlast.set hregs (o := op0) (by simp) w
  obtain ⟨hnodup, hzero, -⟩ := hregs
  have h0 : op0 ≠ zero := fun h => hzero (by simp [h])
  have h3 : op3 ≠ zero := fun h => hzero (by simp [h])
  have h03 : op0 ≠ op3 := by simpa using hnodup
  have hbody : execAll [⟨code.insn, op3, op0, .plain op2.z⟩] (last.set op0 w) =
      (last.set op0 w).set op3 (code.insn.eval w value) := by
    simp only [execAll, List.foldl_cons, List.foldl_nil, Alu.exec, Src.value_plain,
      hfound.get_z hop2 value (by simp), RegFile.get_set_self h0]
  rw [hbody, RegFile.get_set_self h3] at hfin
  refine hfin.imp ?_
  rintro out rfl
  simp [RegFile.get_set_of_ne h03, RegFile.get_set_self h0]

end XrLinux.Gcc
