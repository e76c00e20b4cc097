import XrLinux.Gcc.WordOps
import XrLinux.Machine.Smp

/-!
# GCC port — word atomics are linearizable

Any number of processors call the word templates of `Gcc/WordOps.lean` on one word, in any
interleaving and with any spurious failures. An atomic operation and a successful
compare-and-swap take effect at their store-conditional; a compare-and-swap that finds another
value than the expected one takes effect, storing nothing, at the load-linked that found it.
-/

namespace XrLinux.Gcc

open XrLinux.Machine
open Run

/-- The operation a code stands for. -/
def AnyAtomic.eval (code : AnyAtomic) (old value : Word) : Word :=
  match code with
  | .plus => old + value
  | .ior => old ||| value
  | .xor => old ^^^ value
  | .and => old &&& value

theorem AnyAtomic.eval_insn (code : AnyAtomic) (old value : Word) :
    code.insn.eval old value = code.eval old value := by
  cases code <;> rfl

/-- A template with the operands chosen for it. -/
inductive WordTemplate where
  | atomic (code : AnyAtomic) (mem : Reg) (op1 : Operand) (op2 : Reg)
  | fetch (code : AnyAtomic) (op0 mem : Reg) (op2 : Operand) (op3 : Reg)
  | cas (op0 mem : Reg) (op2 op3 : Operand) (op4 : Reg)

namespace WordTemplate

def prog : WordTemplate → List Instr
  | .atomic code mem op1 op2 => atomicSiInternal code mem op1 op2
  | .fetch code op0 mem op2 op3 => atomicFetchSiInternal code op0 mem op2 op3
  | .cas op0 mem op2 op3 op4 => atomicCasValueStrongsiInternal op0 mem op2 op3 op4

def mem : WordTemplate → Reg
  | .atomic _ mem _ _ => mem
  | .fetch _ _ mem _ _ => mem
  | .cas _ mem _ _ _ => mem

/-- The operands marked `=&r`. -/
def outs : WordTemplate → List Reg
  | .atomic _ _ _ op2 => [op2]
  | .fetch _ op0 _ _ op3 => [op0, op3]
  | .cas op0 _ _ _ op4 => [op0, op4]

/-- The `xr17032_reg_or_0_operand` inputs. -/
def inputs : WordTemplate → List Operand
  | .atomic _ _ op1 _ => [op1]
  | .fetch _ _ _ op2 _ => [op2]
  | .cas _ _ op2 op3 _ => [op2, op3]

/-- The operand the old value is returned in. -/
def result : WordTemplate → RegFile → Option Word
  | .atomic _ _ _ _, _ => none
  | .fetch _ op0 _ _ _, regs => some (regs.get op0)
  | .cas op0 _ _ _ _, regs => some (regs.get op0)

end WordTemplate

/-- A call of a template on the word at `loc`: any admitted operands, whatever they hold. -/
structure WordCall (loc : Word) where
  template : WordTemplate
  base : Word
  regs : RegFile
  earlyClobber : EarlyClobber template.outs (.reg template.mem :: template.inputs)
  regOr0 : ∀ op ∈ template.inputs, op.regOr0
  addressed : regs.get template.mem = loc

def WordCall.routine {loc : Word} (call : WordCall loc) : Routine where
  base := call.base
  prog := call.template.prog
  regs := call.regs
  result := call.template.result

/-- What the calls mean. A compare-and-swap stores the desired value if it finds the expected
one, and nothing otherwise. -/
def wordSpec (loc : Word) : AtomicSpec (WordCall loc) where
  apply call old :=
    match call.template with
    | .atomic code _ op1 _ => code.eval old (op1.value call.regs)
    | .fetch code _ _ op2 _ => code.eval old (op2.value call.regs)
    | .cas _ _ op2 op3 _ => if old = op2.value call.regs then op3.value call.regs else old
  returns call old :=
    match call.template with
    | .atomic _ _ _ _ => none
    | .fetch _ _ _ _ _ => some old
    | .cas _ _ _ _ _ => some old
  stores call old :=
    match call.template with
    | .atomic code _ op1 _ => [code.eval old (op1.value call.regs)]
    | .fetch code _ _ op2 _ => [code.eval old (op2.value call.regs)]
    | .cas _ _ op2 op3 _ => if old = op2.value call.regs then [op3.value call.regs] else []

/-! ## What holds before each instruction -/

/-- The registers of a call before instruction `pc`, by its phase. -/
def WordCall.Stands {loc : Word} (call : WordCall loc) (phase : Phase) (pc : Nat)
    (regs : RegFile) : Prop :=
  match call.template with
  | .atomic code _ op1 op2 =>
    match pc, phase with
    | 0, .fresh => True
    | 1, .linked seen => regs.get op2 = seen
    | 2, .linked seen => regs.get op2 = code.eval seen (op1.value call.regs)
    | 3, .fresh => regs.get op2 = 0
    | 3, .settled _ => regs.get op2 = 1
    | 4, .settled _ => True
    | _, _ => False
  | .fetch code op0 _ op2 op3 =>
    match pc, phase with
    | 0, .fresh => True
    | 1, .linked seen => regs.get op0 = seen
    | 2, .linked seen =>
      regs.get op0 = seen ∧ regs.get op3 = code.eval seen (op2.value call.regs)
    | 3, .fresh => regs.get op3 = 0
    | 3, .settled seen => regs.get op0 = seen ∧ regs.get op3 = 1
    | 4, .settled seen => regs.get op0 = seen
    | _, _ => False
  | .cas op0 _ op2 _ op4 =>
    match pc, phase with
    | 0, .fresh => True
    | 1, .linked seen => regs.get op0 = seen ∧ seen = op2.value call.regs
    | 1, .settled seen => regs.get op0 = seen ∧ seen ≠ op2.value call.regs
    | 2, .linked seen =>
      regs.get op0 = seen ∧ seen = op2.value call.regs ∧ regs.get op4 = 0
    | 2, .settled seen =>
      regs.get op0 = seen ∧ seen ≠ op2.value call.regs ∧ regs.get op4 ≠ 0
    | 3, .linked seen => regs.get op0 = seen ∧ seen = op2.value call.regs
    | 4, .fresh => regs.get op4 = 0
    | 4, .settled seen => regs.get op0 = seen ∧ regs.get op4 = 1
    | 5, .settled seen => regs.get op0 = seen
    | _, _ => False

/-- What the inputs of a call hold, throughout. -/
def WordCall.reads {loc : Word} (call : WordCall loc) : List (Operand × Word) :=
  (.reg call.template.mem, loc) :: call.template.inputs.map fun op => (op, op.value call.regs)

structure WordCall.At {loc : Word} (phase : Phase) (r : Running (WordCall loc)) : Prop where
  left : r.cpu.left = none
  reads : Reads r.call.reads r.cpu.regs
  stored : r.stored = match phase with
    | .settled seen => (wordSpec loc).stores r.call seen
    | _ => []
  stands : r.call.Stands phase r.cpu.pc r.cpu.regs

theorem WordCall.at_start {loc : Word} (call : WordCall loc) :
    WordCall.At .fresh { call, cpu := { pc := 0, regs := call.routine.regs }, stored := [] } := by
  refine ⟨rfl, ?_, rfl, ?_⟩
  · intro op hop
    rcases List.mem_cons.1 hop with rfl | hop
    · exact call.addressed
    · obtain ⟨op, -, rfl⟩ := List.mem_map.1 hop
      rfl
  · unfold WordCall.Stands
    cases call.template <;> trivial

section
variable {loc : Word}

/-- The early-clobber condition in terms of the inputs' readings. -/
theorem WordCall.reads_set (call : WordCall loc) {regs : RegFile} (h : Reads call.reads regs)
    {o : Reg} (ho : o ∈ call.template.outs) (value : Word) :
    Reads call.reads (regs.set o value) := by
  refine h.set ?_ ho value
  have hfst : call.reads.map Prod.fst = .reg call.template.mem :: call.template.inputs := by
    simp [WordCall.reads, Function.comp_def]
  rw [hfst]
  exact call.earlyClobber

theorem WordCall.out_ne_zero (call : WordCall loc) {o : Reg} (ho : o ∈ call.template.outs) :
    o ≠ zero :=
  fun h => call.earlyClobber.2.1 (h ▸ ho)

/-- A `%z` input of a running call. -/
theorem WordCall.get_z (call : WordCall loc) {regs : RegFile} (h : Reads call.reads regs)
    {op : Operand} (hop : op ∈ call.template.inputs) :
    regs.get op.z = op.value call.regs :=
  h.get_z (call.regOr0 op hop) _ (List.mem_cons_of_mem _ (List.mem_map.2 ⟨op, hop, rfl⟩))

theorem WordCall.get_mem (call : WordCall loc) {regs : RegFile} (h : Reads call.reads regs) :
    regs.get call.template.mem = loc :=
  h (.reg call.template.mem, loc) List.mem_cons_self

/-- Every instruction of an atomic operation. -/
theorem atomic_turn {phase : Phase} {r : Running (WordCall loc)} {code : AnyAtomic} {mem op2 : Reg}
    {op1 : Operand} (htemplate : r.call.template = .atomic code mem op1 op2)
    (h : WordCall.At phase r) :
    Turn WordCall.routine loc (wordSpec loc) WordCall.At phase r := by
  obtain ⟨call, ⟨pc, regs, left⟩, stored⟩ := r
  obtain ⟨rfl, hreads, hstored, hstands⟩ := h
  simp only at hreads hstored hstands htemplate
  have hout : op2 ∈ call.template.outs := by simp [htemplate, WordTemplate.outs]
  have hin : op1 ∈ call.template.inputs := by simp [htemplate, WordTemplate.inputs]
  have hset := fun value => call.reads_set hreads hout value
  have hself : ∀ value, (regs.set op2 value).get op2 = value :=
    fun _ => RegFile.get_set_self (call.out_ne_zero hout)
  have hmem : regs.get mem = loc := by simpa [htemplate, WordTemplate.mem] using call.get_mem hreads
  have hop1 := call.get_z hreads hin
  have hprog : call.routine.prog = atomicSiInternal code mem op1 op2 := by
    simp [WordCall.routine, htemplate, WordTemplate.prog]
  have happly : ∀ old, (wordSpec loc).apply call old = code.eval old (op1.value call.regs) := by
    simp [wordSpec, htemplate]
  simp only [WordCall.Stands, htemplate] at hstands
  rcases pc with _ | _ | _ | _ | _ | pc
  · cases phase <;> simp only at hstands
    refine turn_ll op2 (by rw [hprog]; rfl) hmem rfl fun w => .inl ?_
    exact ⟨rfl, hset w, hstored, by simp [WordCall.Stands, htemplate, hself]⟩
  · cases phase with
    | linked seen =>
      change regs.get op2 = seen at hstands
      refine turn_alu op2 (by rw [hprog]; rfl) ⟨rfl, hset _, hstored, ?_⟩
      simp [WordCall.Stands, htemplate, hself, hstands, hop1, AnyAtomic.eval_insn]
    | fresh | settled _ => exact hstands.elim
  · cases phase with
    | linked seen =>
      have hvalue : regs.get op2 = (wordSpec loc).apply call seen := by rw [hstands, happly]
      refine turn_sc op2 (by rw [hprog]; rfl) hmem rfl hvalue
        ⟨rfl, hset 0, hstored, ?_⟩ ⟨rfl, hset 1, ?_, ?_⟩
      · simp [WordCall.Stands, htemplate, hself]
      · simp [hstored, wordSpec, htemplate]
      · simp [WordCall.Stands, htemplate, hself]
    | fresh | settled _ => exact hstands.elim
  · refine turn_branch .eq op2 0 (by rw [hprog]; rfl)
      ⟨rfl, hreads, hstored, ?_⟩
    cases phase with
    | fresh =>
      change regs.get op2 = 0 at hstands
      simp [WordCall.Stands, htemplate, Cond.test, hstands]
    | settled seen =>
      change regs.get op2 = 1 at hstands
      simp [WordCall.Stands, htemplate, Cond.test, hstands]
    | linked _ => exact hstands.elim
  · cases phase with
    | settled seen =>
      refine turn_end (by rw [hprog]; rfl) rfl ?_ hstored
      simp [WordCall.routine, wordSpec, htemplate, WordTemplate.result]
    | fresh | linked _ => exact hstands.elim
  · cases phase <;> exact hstands.elim

/-- Every instruction of a fetch-and-op. -/
theorem fetch_turn {phase : Phase} {r : Running (WordCall loc)} {code : AnyAtomic}
    {op0 mem op3 : Reg} {op2 : Operand} (htemplate : r.call.template = .fetch code op0 mem op2 op3)
    (h : WordCall.At phase r) :
    Turn WordCall.routine loc (wordSpec loc) WordCall.At phase r := by
  obtain ⟨call, ⟨pc, regs, left⟩, stored⟩ := r
  obtain ⟨rfl, hreads, hstored, hstands⟩ := h
  simp only at hreads hstored hstands htemplate
  have hout0 : op0 ∈ call.template.outs := by simp [htemplate, WordTemplate.outs]
  have hout3 : op3 ∈ call.template.outs := by simp [htemplate, WordTemplate.outs]
  have hin : op2 ∈ call.template.inputs := by simp [htemplate, WordTemplate.inputs]
  have hset := fun o ho value => call.reads_set (o := o) hreads ho value
  have hself : ∀ o ∈ call.template.outs, ∀ value, (regs.set o value).get o = value :=
    fun _ ho _ => RegFile.get_set_self (call.out_ne_zero ho)
  have h03 : op0 ≠ op3 := by
    have hnodup := call.earlyClobber.1
    simpa [htemplate, WordTemplate.outs] using hnodup
  have hkeep : ∀ value, (regs.set op3 value).get op0 = regs.get op0 :=
    fun _ => RegFile.get_set_of_ne h03
  have hmem : regs.get mem = loc := by simpa [htemplate, WordTemplate.mem] using call.get_mem hreads
  have hop2 := call.get_z hreads hin
  have hprog : call.routine.prog = atomicFetchSiInternal code op0 mem op2 op3 := by
    simp [WordCall.routine, htemplate, WordTemplate.prog]
  have happly : ∀ old, (wordSpec loc).apply call old = code.eval old (op2.value call.regs) := by
    simp [wordSpec, htemplate]
  simp only [WordCall.Stands, htemplate] at hstands
  rcases pc with _ | _ | _ | _ | _ | pc
  · cases phase <;> simp only at hstands
    refine turn_ll op0 (by rw [hprog]; rfl) hmem rfl fun w => .inl ?_
    exact ⟨rfl, hset op0 hout0 w, hstored,
      by simp [WordCall.Stands, htemplate, hself op0 hout0]⟩
  · cases phase with
    | linked seen =>
      change regs.get op0 = seen at hstands
      refine turn_alu op3 (by rw [hprog]; rfl) ⟨rfl, hset op3 hout3 _, hstored, ?_⟩
      simp [WordCall.Stands, htemplate, hself op3 hout3, hkeep, hstands, hop2,
        AnyAtomic.eval_insn]
    | fresh | settled _ => exact hstands.elim
  · cases phase with
    | linked seen =>
      obtain ⟨h0, h3⟩ := hstands
      have hvalue : regs.get op3 = (wordSpec loc).apply call seen := by rw [h3, happly]
      refine turn_sc op3 (by rw [hprog]; rfl) hmem rfl hvalue
        ⟨rfl, hset op3 hout3 0, hstored, ?_⟩ ⟨rfl, hset op3 hout3 1, ?_, ?_⟩
      · simp [WordCall.Stands, htemplate, hself op3 hout3]
      · simp [hstored, wordSpec, htemplate]
      · simp [WordCall.Stands, htemplate, hself op3 hout3, hkeep, h0]
    | fresh | settled _ => exact hstands.elim
  · refine turn_branch .eq op3 0 (by rw [hprog]; rfl)
      ⟨rfl, hreads, hstored, ?_⟩
    cases phase with
    | fresh =>
      change regs.get op3 = 0 at hstands
      simp [WordCall.Stands, htemplate, Cond.test, hstands]
    | settled seen =>
      obtain ⟨h0, h3⟩ := hstands
      simp [WordCall.Stands, htemplate, Cond.test, h0, h3]
    | linked _ => exact hstands.elim
  · cases phase with
    | settled seen =>
      change regs.get op0 = seen at hstands
      refine turn_end (by rw [hprog]; rfl) rfl ?_ hstored
      simp [WordCall.routine, wordSpec, htemplate, WordTemplate.result, hstands]
    | fresh | linked _ => exact hstands.elim
  · cases phase <;> exact hstands.elim

/-- Every instruction of a compare-and-swap. -/
theorem cas_turn {phase : Phase} {r : Running (WordCall loc)} {op0 mem op4 : Reg}
    {op2 op3 : Operand} (htemplate : r.call.template = .cas op0 mem op2 op3 op4)
    (h : WordCall.At phase r) :
    Turn WordCall.routine loc (wordSpec loc) WordCall.At phase r := by
  obtain ⟨call, ⟨pc, regs, left⟩, stored⟩ := r
  obtain ⟨rfl, hreads, hstored, hstands⟩ := h
  simp only at hreads hstored hstands htemplate
  have hout0 : op0 ∈ call.template.outs := by simp [htemplate, WordTemplate.outs]
  have hout4 : op4 ∈ call.template.outs := by simp [htemplate, WordTemplate.outs]
  have hin2 : op2 ∈ call.template.inputs := by simp [htemplate, WordTemplate.inputs]
  have hin3 : op3 ∈ call.template.inputs := by simp [htemplate, WordTemplate.inputs]
  have hset := fun o ho value => call.reads_set (o := o) hreads ho value
  have hself : ∀ o ∈ call.template.outs, ∀ value, (regs.set o value).get o = value :=
    fun _ ho _ => RegFile.get_set_self (call.out_ne_zero ho)
  have h04 : op0 ≠ op4 := by
    have hnodup := call.earlyClobber.1
    simpa [htemplate, WordTemplate.outs] using hnodup
  have hkeep : ∀ value, (regs.set op4 value).get op0 = regs.get op0 :=
    fun _ => RegFile.get_set_of_ne h04
  have hmem : regs.get mem = loc := by simpa [htemplate, WordTemplate.mem] using call.get_mem hreads
  have hop2 := call.get_z hreads hin2
  have hop3 := call.get_z hreads hin3
  have hprog : call.routine.prog = atomicCasValueStrongsiInternal op0 mem op2 op3 op4 := by
    simp [WordCall.routine, htemplate, WordTemplate.prog]
  have hsub : ∀ a b : Word, a - b = 0 ↔ a = b := fun a b => sub_eq_zero
  simp only [WordCall.Stands, htemplate] at hstands
  rcases pc with _ | _ | _ | _ | _ | _ | pc
  · cases phase <;> simp only at hstands
    refine turn_ll op0 (by rw [hprog]; rfl) hmem rfl fun w => ?_
    by_cases hequal : w = op2.value call.regs
    · exact .inl ⟨rfl, hset op0 hout0 w, hstored,
        by simp [WordCall.Stands, htemplate, hself op0 hout0, hequal]⟩
    · refine .inr ⟨by simp [wordSpec, htemplate, hequal], rfl, hset op0 hout0 w, ?_, ?_⟩
      · simp [hstored, wordSpec, htemplate, hequal]
      · simp [WordCall.Stands, htemplate, hself op0 hout0, hequal]
  · refine turn_alu op4 (by rw [hprog]; rfl) ⟨rfl, hset op4 hout4 _, hstored, ?_⟩
    cases phase with
    | linked seen =>
      obtain ⟨h0, hequal⟩ := hstands
      simp [WordCall.Stands, htemplate, hself op4 hout4, hkeep, h0, ← hequal, hop2]
    | settled seen =>
      obtain ⟨h0, hdiffer⟩ := hstands
      have hdiff := mt (hsub seen (op2.value call.regs)).1 hdiffer
      simpa [WordCall.Stands, htemplate, hself op4 hout4, hkeep, h0, hdiffer, hop2] using hdiff
    | fresh => exact hstands.elim
  · refine turn_branch .ne op4 5 (by rw [hprog]; rfl)
      ⟨rfl, hreads, hstored, ?_⟩
    cases phase with
    | linked seen =>
      obtain ⟨h0, hequal, h4⟩ := hstands
      simp [WordCall.Stands, htemplate, Cond.test, h0, hequal, h4]
    | settled seen =>
      obtain ⟨h0, -, h4⟩ := hstands
      have htest : (regs.get op4).toInt ≠ 0 := fun h => h4 (BitVec.toInt_inj.1 h)
      simp [WordCall.Stands, htemplate, Cond.test, h0, htest]
    | fresh => exact hstands.elim
  · cases phase with
    | linked seen =>
      obtain ⟨h0, hequal⟩ := hstands
      have hvalue : regs.get op3.z = (wordSpec loc).apply call seen := by
        simp [wordSpec, htemplate, hequal, hop3]
      refine turn_sc op4 (by rw [hprog]; rfl) hmem rfl hvalue
        ⟨rfl, hset op4 hout4 0, hstored, ?_⟩ ⟨rfl, hset op4 hout4 1, ?_, ?_⟩
      · simp [WordCall.Stands, htemplate, hself op4 hout4]
      · simp [hstored, wordSpec, htemplate, hequal]
      · simp [WordCall.Stands, htemplate, hself op4 hout4, hkeep, h0]
    | fresh | settled _ => exact hstands.elim
  · refine turn_branch .eq op4 0 (by rw [hprog]; rfl)
      ⟨rfl, hreads, hstored, ?_⟩
    cases phase with
    | fresh =>
      change regs.get op4 = 0 at hstands
      simp [WordCall.Stands, htemplate, Cond.test, hstands]
    | settled seen =>
      obtain ⟨h0, h4⟩ := hstands
      simp [WordCall.Stands, htemplate, Cond.test, h0, h4]
    | linked _ => exact hstands.elim
  · cases phase with
    | settled seen =>
      change regs.get op0 = seen at hstands
      refine turn_end (by rw [hprog]; rfl) rfl ?_ hstored
      simp [WordCall.routine, wordSpec, htemplate, WordTemplate.result, hstands]
    | fresh | linked _ => exact hstands.elim
  · cases phase <;> exact hstands.elim

/-- The templates implement their operations. -/
theorem wordCall_implements (loc : Word) :
    Implements WordCall.routine loc (wordSpec loc) WordCall.At where
  start := WordCall.at_start
  turn phase r h := by
    cases htemplate : r.call.template with
    | atomic code mem op1 op2 => exact atomic_turn htemplate h
    | fetch code op0 mem op2 op3 => exact fetch_turn htemplate h
    | cas op0 mem op2 op3 op4 => exact cas_turn htemplate h

end

/-- A returned compare-and-swap that did not find its expected value has stored nothing. -/
theorem stored_of_cas_mismatch {ι : Type*} {loc : Word} {c : Completed (WordCall loc)}
    {e : Entry ι (WordCall loc)} (h : Matches (wordSpec loc) c e) {op0 mem op4 : Reg}
    {op2 op3 : Operand} (htemplate : c.call.template = .cas op0 mem op2 op3 op4)
    (hresult : c.result ≠ some (op2.value c.call.regs)) : c.stored = [] := by
  obtain ⟨hcall, hreturned, hstored⟩ := h
  rw [← hcall] at hreturned hstored
  have hseen : e.seen ≠ op2.value c.call.regs := by
    intro hseen
    apply hresult
    rw [hreturned, ← hseen]
    simp [wordSpec, htemplate]
  rw [hstored]
  simp [wordSpec, htemplate, hseen]

/-- **Word fetch-and-op and compare-and-swap are linearizable.** Every run of any number of
processors calling the word templates has a sequential order of the calls, growing at its end
only, that at every moment replays to the shared word and in which each returned call stands
exactly once, with the value it returned and the words it stored; and a compare-and-swap that
returns another value than the expected one has stored nothing. -/
theorem wordAtomics_linearizable {ι : Type*} [DecidableEq ι] {loc w₀ : Word}
    {events : List (Event ι (WordCall loc))} {s : Smp ι (WordCall loc)}
    (hrun : run (smpStep WordCall.routine loc) (.start ι _ w₀) events = some s) :
    (∃ orderAt : Nat → List (Entry ι (WordCall loc)),
      Linearizes (wordSpec loc) w₀ s (orderAt events.length) ∧
      (∀ n, n ≤ events.length → ∃ u,
        run (smpStep WordCall.routine loc) (.start ι _ w₀) (events.take n) = some u ∧
          Linearizes (wordSpec loc) w₀ u (orderAt n)) ∧
      ∀ m n, m ≤ n → n ≤ events.length → orderAt m <+: orderAt n) ∧
    ∀ i, ∀ c ∈ (s.core i).done, ∀ op0 mem op2 op3 op4,
      c.call.template = .cas op0 mem op2 op3 op4 → c.result ≠ some (op2.value c.call.regs) →
        c.stored = [] := by
  obtain ⟨orderAt, hinv, hgrow⟩ := (wordCall_implements loc).linearizable hrun
  have hend : Linearizes (wordSpec loc) w₀ s (orderAt events.length) := by
    obtain ⟨u, hu, hlin⟩ := hinv _ le_rfl
    rw [List.take_length, hrun, Option.some.injEq] at hu
    exact hu ▸ hlin
  refine ⟨⟨orderAt, hend, hinv, hgrow⟩, fun i c hc op0 mem op2 op3 op4 htemplate hresult => ?_⟩
  obtain ⟨returned, -, -, hreturned, -⟩ := hend.accounts i
  obtain ⟨k, hk, rfl⟩ := List.getElem_of_mem hc
  exact stored_of_cas_mismatch (hreturned.get hk (hreturned.length_eq ▸ hk)) htemplate hresult

/-- Register 2 holds the address, 3 the operand or expected value 5, and 5 the desired value 9. -/
def wordRegs : RegFile := ⟨fun r => if r = 2 then 0x1000 else if r = 5 then 9 else 5⟩

def fetchAddCall : WordCall 0x1000 where
  template := .fetch .plus 1 2 (.reg 3) 4
  base := 0
  regs := wordRegs
  earlyClobber := by decide
  regOr0 := by decide
  addressed := by decide

def casCall : WordCall 0x1000 where
  template := .cas 1 2 (.reg 3) (.reg 5) 4
  base := 0
  regs := wordRegs
  earlyClobber := by decide
  regOr0 := by decide
  addressed := by decide

/-- Processor 1 swaps between processor 0's load-linked and its store-conditional, whose next
turn then fails spuriously. -/
def contendedEvents : List (Event (Fin 2) (WordCall 0x1000)) :=
  [.call 0 fetchAddCall, .call 1 casCall, .instr 0 false] ++
    List.replicate 5 (.instr 1 false) ++ [.ret 1] ++ List.replicate 5 (.instr 0 false) ++
    [.instr 0 true] ++ List.replicate 5 (.instr 0 false) ++ [.ret 0]

theorem contendedEvents_run :
    (run (smpStep WordCall.routine 0x1000) (.start (Fin 2) _ 5) contendedEvents).isSome := by
  decide +kernel

theorem wordAtomics_linearizable_contended :
    ∃ orderAt : Nat → List (Entry (Fin 2) (WordCall 0x1000)),
      Linearizes (wordSpec 0x1000) 5 (Option.get _ contendedEvents_run)
        (orderAt contendedEvents.length) := by
  obtain ⟨⟨orderAt, hend, -, -⟩, -⟩ :=
    wordAtomics_linearizable (Option.some_get contendedEvents_run).symm
  exact ⟨orderAt, hend⟩

end XrLinux.Gcc
