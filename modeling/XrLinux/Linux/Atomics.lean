import XrLinux.Gcc.Operand
import XrLinux.Machine.Smp

/-!
# Linux — `asm/atomic.h`

The functions that `__ATOMIC_OP`, `__ATOMIC_OP_RETURN` and `__ATOMIC_FETCH_OP` generate, each with
the registers that the compiler has chosen for its `asm` statement. `ret` and `scratch` are outputs
marked `=&r`; `&v->counter` and `i` are inputs, of which `i` may be the constant zero.

A function takes effect at the store-conditional that succeeds, on the word of the load-linked
before it. That is so whatever other processors store between the attempts of one call
(`Machine/Solo.lean`), and for any interleaving of calls by any processors (`Machine/Smp.lean`).
-/

namespace XrLinux.Linux.Atomic

open XrLinux.Machine
open XrLinux.Gcc (Operand EarlyClobber Reads)
open Run

/-! ## The functions -/

/-- The loop of `__ATOMIC_OP`. -/
def atomicOp (asmOp : AluOp) (ret scratch counter : Reg) (i : Operand) : List Instr :=
  [.ll ret counter,
    .alu asmOp ret ret (.plain i.z),
    .sc scratch counter ret,
    .branch .eq scratch (.label 0)]

/-- The loop of `__ATOMIC_OP_RETURN`. -/
def atomicOpReturn (asmOp : AluOp) (ret scratch counter : Reg) (i : Operand) : List Instr :=
  [.ll ret counter,
    .alu asmOp ret ret (.plain i.z),
    .sc scratch counter ret,
    .branch .eq scratch (.label 0)]

/-- The loop of `__ATOMIC_FETCH_OP`. -/
def atomicFetchOp (asmOp : AluOp) (ret scratch counter : Reg) (i : Operand) : List Instr :=
  [.ll ret counter,
    .alu asmOp scratch ret (.plain i.z),
    .sc scratch counter scratch,
    .branch .eq scratch (.label 0)]

/-- `arch_atomic_add`, `arch_atomic_add_return_relaxed`, `arch_atomic_fetch_add_relaxed`, and so
on. -/
inductive ArchAtomic where
  | addReturn | subReturn
  | fetchAdd | fetchSub | fetchAnd | fetchOr | fetchXor
  | add | sub | and | or | xor
  deriving DecidableEq, Repr

namespace ArchAtomic

/-- The invocations of the three macros. -/
def code : ArchAtomic → Reg → Reg → Reg → Operand → List Instr
  | .addReturn => atomicOpReturn .add
  | .subReturn => atomicOpReturn .sub
  | .fetchAdd => atomicFetchOp .add
  | .fetchSub => atomicFetchOp .sub
  | .fetchAnd => atomicFetchOp .and
  | .fetchOr => atomicFetchOp .or
  | .fetchXor => atomicFetchOp .xor
  | .add => atomicOp .add
  | .sub => atomicOp .sub
  | .and => atomicOp .and
  | .or => atomicOp .or
  | .xor => atomicOp .xor

/-- `return ret`, in the functions that return an `int`. -/
def returned (f : ArchAtomic) (ret : Reg) (regs : RegFile) : Option Word :=
  match f with
  | .add | .sub | .and | .or | .xor => none
  | _ => some (regs.get ret)

/-- The operation that a function is named after. -/
def eval (f : ArchAtomic) (old i : Word) : Word :=
  match f with
  | .addReturn | .fetchAdd | .add => old + i
  | .subReturn | .fetchSub | .sub => old - i
  | .fetchAnd | .and => old &&& i
  | .fetchOr | .or => old ||| i
  | .fetchXor | .xor => old ^^^ i

/-- What a function is to return: nothing, the new value, or the old one. -/
def result (f : ArchAtomic) (old i : Word) : Option Word :=
  match f with
  | .add | .sub | .and | .or | .xor => none
  | .addReturn | .subReturn => some (f.eval old i)
  | .fetchAdd | .fetchSub | .fetchAnd | .fetchOr | .fetchXor => some old

/-! ## One loop for all of them -/

/-- The functions that keep the old value in `ret`. -/
def fetches : ArchAtomic → Bool
  | .fetchAdd | .fetchSub | .fetchAnd | .fetchOr | .fetchXor => true
  | _ => false

def asmOp : ArchAtomic → AluOp
  | .addReturn | .fetchAdd | .add => .add
  | .subReturn | .fetchSub | .sub => .sub
  | .fetchAnd | .and => .and
  | .fetchOr | .or => .or
  | .fetchXor | .xor => .xor

/-- The register of the new value. -/
def target (f : ArchAtomic) (ret scratch : Reg) : Reg := if f.fetches then scratch else ret

/-- What `ret` has once the new value has been computed. -/
def kept (f : ArchAtomic) (old i : Word) : Word := if f.fetches then old else f.eval old i

theorem code_eq (f : ArchAtomic) (ret scratch counter : Reg) (i : Operand) :
    f.code ret scratch counter i =
      retryLoop ret counter [⟨f.asmOp, f.target ret scratch, ret, .plain i.z⟩] scratch
        (f.target ret scratch) := by
  cases f <;> rfl

theorem eval_asmOp (f : ArchAtomic) (old i : Word) : f.asmOp.eval old i = f.eval old i := by
  cases f <;> rfl

/-- The register is returned exactly where something is to be returned. -/
theorem returned_eq (f : ArchAtomic) (old i : Word) {ret : Reg} {regs : RegFile}
    (h : regs.get ret = f.kept old i) : f.returned ret regs = f.result old i := by
  cases f <;> simp [returned, result, kept, fetches] at h ⊢ <;> exact h

theorem target_mem (f : ArchAtomic) (ret scratch : Reg) :
    f.target ret scratch ∈ [ret, scratch] := by
  cases h : f.fetches <;> simp [target, h]

end ArchAtomic

/-! ## Calls -/

/-- A call on the counter at `loc`: any registers that the constraints admit, whatever they hold. -/
structure AtomicCall (loc : Word) where
  function : ArchAtomic
  base : Word
  regs : RegFile
  ret : Reg
  scratch : Reg
  counter : Reg
  i : Operand
  earlyClobber : EarlyClobber [ret, scratch] [.reg counter, i]
  regOr0 : i.regOr0
  addressed : regs.get counter = loc

section
variable {loc : Word}

namespace AtomicCall

def code (call : AtomicCall loc) : List Instr :=
  call.function.code call.ret call.scratch call.counter call.i

/-- The operand `i`. -/
def value (call : AtomicCall loc) : Word := call.i.value call.regs

def returned (call : AtomicCall loc) : RegFile → Option Word :=
  call.function.returned call.ret

def eval (call : AtomicCall loc) (old : Word) : Word := call.function.eval old call.value

def result (call : AtomicCall loc) (old : Word) : Option Word :=
  call.function.result old call.value

def routine (call : AtomicCall loc) : Routine where
  base := call.base
  prog := call.code
  regs := call.regs
  result := call.returned

end AtomicCall

/-- What the calls mean. -/
def atomicSpec (loc : Word) : AtomicSpec (AtomicCall loc) where
  apply call old := call.eval old
  returns call old := call.result old
  stores call old := [call.eval old]

namespace AtomicCall

/-- What the inputs hold, throughout. -/
def reads (call : AtomicCall loc) : List (Operand × Word) :=
  [(.reg call.counter, loc), (call.i, call.value)]

theorem reads_start (call : AtomicCall loc) : Reads call.reads call.regs := by
  intro op hop
  simp only [reads, List.mem_cons, List.not_mem_nil, or_false] at hop
  rcases hop with rfl | rfl
  · exact call.addressed
  · rfl

theorem reads_set (call : AtomicCall loc) {regs : RegFile} (h : Reads call.reads regs) {o : Reg}
    (ho : o ∈ [call.ret, call.scratch]) (value : Word) : Reads call.reads (regs.set o value) :=
  h.set call.earlyClobber ho value

theorem get_i (call : AtomicCall loc) {regs : RegFile} (h : Reads call.reads regs) :
    regs.get call.i.z = call.value :=
  h.get_z call.regOr0 _ (by simp [reads])

theorem get_counter (call : AtomicCall loc) {regs : RegFile} (h : Reads call.reads regs) :
    regs.get call.counter = loc :=
  h (.reg call.counter, loc) (by simp [reads])

theorem out_ne_zero (call : AtomicCall loc) {o : Reg} (ho : o ∈ [call.ret, call.scratch]) :
    o ≠ zero :=
  fun h => call.earlyClobber.2.1 (h ▸ ho)

theorem ret_ne_scratch (call : AtomicCall loc) : call.ret ≠ call.scratch := by
  simpa using call.earlyClobber.1

abbrev target (call : AtomicCall loc) : Reg := call.function.target call.ret call.scratch

theorem target_ne_zero (call : AtomicCall loc) : call.target ≠ zero :=
  call.out_ne_zero (call.function.target_mem _ _)

/-- The arithmetic instruction, on registers that have the loaded word in `ret`: the new value is
in its register, and `ret` has what the function returns. -/
theorem set_target (call : AtomicCall loc) {regs : RegFile} {seen : Word}
    (hseen : regs.get call.ret = seen) :
    let regs' := regs.set call.target (call.eval seen)
    regs'.get call.target = call.eval seen ∧
      regs'.get call.ret = call.function.kept seen call.value := by
  intro regs'
  refine ⟨RegFile.get_set_self call.target_ne_zero, ?_⟩
  cases hfetches : call.function.fetches with
  | true =>
    have htarget : call.target = call.scratch := by simp [target, ArchAtomic.target, hfetches]
    show (regs.set call.target _).get call.ret = _
    rw [htarget, RegFile.get_set_of_ne call.ret_ne_scratch, hseen]
    simp [ArchAtomic.kept, hfetches]
  | false =>
    have htarget : call.target = call.ret := by simp [target, ArchAtomic.target, hfetches]
    show (regs.set call.target _).get call.ret = _
    rw [htarget, RegFile.get_set_self (call.out_ne_zero (by simp))]
    simp [ArchAtomic.kept, hfetches, eval]

/-! ## One call -/

/-- Whatever other processors store between the attempts, the function is applied once, to the word
of the last load-linked. -/
theorem finishes (call : AtomicCall loc) (lost : List Word) (w : Word) :
    Finishes loc call.base call.code call.regs (lost.map .lost ++ [.kept w]) [call.eval w]
      (fun out => call.returned out = call.result w) := by
  obtain ⟨last, hlast, hfin⟩ := call.reads_start.retryLoop_finishes call.earlyClobber
    loc call.base call.ret call.counter call.scratch call.target
    [⟨call.function.asmOp, call.target, call.ret, .plain call.i.z⟩]
    (by simp) (by simp) (by simpa using call.function.target_mem _ _) (by simp [reads]) lost w
  rw [← ArchAtomic.code_eq] at hfin
  have hret : (last.set call.ret w).get call.ret = w :=
    RegFile.get_set_self (call.out_ne_zero (by simp))
  have hi := call.get_i (call.reads_set hlast (o := call.ret) (by simp) w)
  have hbody : execAll [⟨call.function.asmOp, call.target, call.ret, .plain call.i.z⟩]
      (last.set call.ret w) = (last.set call.ret w).set call.target (call.eval w) := by
    simp only [execAll, List.foldl_cons, List.foldl_nil, Alu.exec, Src.value_plain, hret, hi,
      ArchAtomic.eval_asmOp]
    rfl
  obtain ⟨htarget, hkept⟩ := call.set_target hret
  rw [hbody, htarget] at hfin
  refine hfin.imp ?_
  intro out hout
  apply call.function.returned_eq
  rw [hout, RegFile.get_set_of_ne call.ret_ne_scratch]
  exact hkept

/-! ## Any interleaving -/

/-- The registers of a call before instruction `pc`, by its phase. -/
def Stands (call : AtomicCall loc) (phase : Phase) (pc : Nat) (regs : RegFile) : Prop :=
  match pc, phase with
  | 0, .fresh => True
  | 1, .linked seen => regs.get call.ret = seen
  | 2, .linked seen =>
    regs.get call.target = call.eval seen ∧
      regs.get call.ret = call.function.kept seen call.value
  | 3, .fresh => regs.get call.scratch = 0
  | 3, .settled seen =>
    regs.get call.ret = call.function.kept seen call.value ∧ regs.get call.scratch = 1
  | 4, .settled seen => regs.get call.ret = call.function.kept seen call.value
  | _, _ => False

structure At (phase : Phase) (r : Running (AtomicCall loc)) : Prop where
  left : r.cpu.left = none
  reads : Reads r.call.reads r.cpu.regs
  stored : r.stored = match phase with
    | .settled seen => [r.call.eval seen]
    | _ => []
  stands : r.call.Stands phase r.cpu.pc r.cpu.regs

theorem at_start (call : AtomicCall loc) :
    At .fresh { call, cpu := { pc := 0, regs := call.routine.regs }, stored := [] } :=
  ⟨rfl, call.reads_start, rfl, trivial⟩

/-- Every instruction of a function. -/
theorem at_turn {phase : Phase} {r : Running (AtomicCall loc)} (h : At phase r) :
    Turn routine loc (atomicSpec loc) At phase r := by
  obtain ⟨call, ⟨pc, regs, left⟩, stored⟩ := r
  obtain ⟨rfl, hreads, hstored, hstands⟩ := h
  simp only at hreads hstored hstands
  have hset := fun o ho value => call.reads_set (o := o) hreads ho value
  have hret : ∀ value, (regs.set call.ret value).get call.ret = value :=
    fun _ => RegFile.get_set_self (call.out_ne_zero (by simp))
  have hscratch : ∀ value, (regs.set call.scratch value).get call.scratch = value :=
    fun _ => RegFile.get_set_self (call.out_ne_zero (by simp))
  have hkeep : ∀ value, (regs.set call.scratch value).get call.ret = regs.get call.ret :=
    fun _ => RegFile.get_set_of_ne call.ret_ne_scratch
  have hprog : call.routine.prog = retryLoop call.ret call.counter
      [⟨call.function.asmOp, call.target, call.ret, .plain call.i.z⟩] call.scratch call.target :=
    call.function.code_eq _ _ _ _
  rcases pc with _ | _ | _ | _ | _ | pc
  · cases phase with
    | fresh =>
      apply turn_ll call.ret (by rw [hprog]; rfl) (call.get_counter hreads) rfl
      intro w
      exact .inl ⟨rfl, hset _ (by simp) w, hstored, hret w⟩
    | linked _ | settled _ => exact hstands.elim
  · cases phase with
    | linked seen =>
      apply turn_alu call.target (by rw [hprog]; rfl)
      have hvalue : call.function.asmOp.eval (regs.get call.ret)
          ((Src.plain call.i.z).value call.function.asmOp regs) = call.eval seen := by
        rw [show regs.get call.ret = seen from hstands, Src.value_plain, call.get_i hreads,
          ArchAtomic.eval_asmOp]
        rfl
      rw [hvalue]
      exact ⟨rfl, hset _ (call.function.target_mem _ _) _, hstored, call.set_target hstands⟩
    | fresh | settled _ => exact hstands.elim
  · cases phase with
    | linked seen =>
      -- The store-conditional writes `scratch` only, so that `ret` keeps what is to be returned.
      obtain ⟨htarget, hkept⟩ := hstands
      apply turn_sc call.scratch (by rw [hprog]; rfl) (call.get_counter hreads) rfl htarget
      · exact ⟨rfl, hset _ (by simp) 0, hstored, hscratch 0⟩
      · refine ⟨rfl, hset _ (by simp) 1, ?_, (hkeep 1).trans hkept, hscratch 1⟩
        show stored ++ [call.eval seen] = [call.eval seen]
        rw [hstored]
        rfl
    | fresh | settled _ => exact hstands.elim
  · apply turn_branch .eq call.scratch 0 (by rw [hprog]; rfl)
    cases phase with
    | fresh =>
      have htest : Cond.eq.test (regs.get call.scratch) = true := by
        rw [show regs.get call.scratch = 0 from hstands]
        rfl
      rw [if_pos htest]
      exact ⟨rfl, hreads, hstored, trivial⟩
    | settled seen =>
      obtain ⟨hkept, hone⟩ := hstands
      have htest : ¬ Cond.eq.test (regs.get call.scratch) = true := by
        rw [hone]
        decide
      rw [if_neg htest]
      exact ⟨rfl, hreads, hstored, hkept⟩
    | linked _ => exact hstands.elim
  · cases phase with
    | settled seen =>
      apply turn_end (by rw [hprog]; rfl) rfl _ hstored
      exact call.function.returned_eq seen call.value hstands
    | fresh | linked _ => exact hstands.elim
  · cases phase <;> exact hstands.elim

/-- The functions implement their operations. -/
theorem implements (loc : Word) : Implements routine loc (atomicSpec loc) At where
  start := at_start
  turn _ _ h := at_turn h

end AtomicCall

end

/-- **The LL/SC atomics.** A call whose store-conditionals fail any number of times, with any words
stored by other processors in between, stores the operation's result on the word of its last
load-linked and nothing else, and returns what it is to return for that word. In a run of any
number of processors calling the functions, the calls have a sequential order, growing at its end
only, that at every moment replays to the counter and in which each call stands exactly once. -/
theorem archAtomics_linearizable {ι : Type*} [DecidableEq ι] (loc : Word) :
    (∀ (call : AtomicCall loc) (lost : List Word) (w : Word),
      Finishes loc call.base call.code call.regs (lost.map .lost ++ [.kept w])
        [call.function.eval w call.value]
        (fun out => call.returned out = call.function.result w call.value)) ∧
    ∀ (w₀ : Word) (events : List (Machine.Event ι (AtomicCall loc))) (s : Smp ι (AtomicCall loc)),
      run (smpStep AtomicCall.routine loc) (.start ι _ w₀) events = some s →
      ∃ orderAt : Nat → List (Entry ι (AtomicCall loc)),
        Linearizes (atomicSpec loc) w₀ s (orderAt events.length) ∧
        (∀ n, n ≤ events.length → ∃ u,
          run (smpStep AtomicCall.routine loc) (.start ι _ w₀) (events.take n) = some u ∧
            Linearizes (atomicSpec loc) w₀ u (orderAt n)) ∧
        ∀ m n, m ≤ n → n ≤ events.length → orderAt m <+: orderAt n := by
  refine ⟨AtomicCall.finishes, ?_⟩
  intro w₀ events s hrun
  obtain ⟨orderAt, hinv, hgrow⟩ := (AtomicCall.implements loc).linearizable hrun
  refine ⟨orderAt, ?_, hinv, hgrow⟩
  obtain ⟨u, hu, hlin⟩ := hinv _ le_rfl
  rw [List.take_length, hrun, Option.some.injEq] at hu
  exact hu ▸ hlin

/-- Register 3 has the address of the counter, and the others 5. -/
def counterRegs : RegFile := ⟨fun r => if r = 3 then 0x1000 else 5⟩

def subReturnCall : AtomicCall 0x1000 where
  function := .subReturn
  base := 0
  regs := counterRegs
  ret := 1
  scratch := 2
  counter := 3
  i := .reg 4
  earlyClobber := by decide
  regOr0 := by decide
  addressed := by decide

def fetchXorCall : AtomicCall 0x1000 := { subReturnCall with function := .fetchXor }

/-- The second of two processors changes the counter between the first one's load-linked and its
store-conditional. -/
def counterEvents : List (Machine.Event Bool (AtomicCall 0x1000)) :=
  [.call false subReturnCall, .call true fetchXorCall, .instr false false] ++
    List.replicate 4 (.instr true false) ++ [.ret true] ++
    List.replicate 7 (.instr false false) ++ [.ret false]

theorem counterEvents_run :
    (run (smpStep AtomicCall.routine 0x1000) (.start Bool _ 12) counterEvents).isSome := by
  decide +kernel

theorem archAtomics_linearizable_counter :
    ∃ orderAt : Nat → List (Entry Bool (AtomicCall 0x1000)),
      Linearizes (atomicSpec 0x1000) 12 (Option.get _ counterEvents_run)
        (orderAt counterEvents.length) := by
  obtain ⟨orderAt, hend, -, -⟩ := (archAtomics_linearizable 0x1000).2 12 counterEvents
    (Option.get _ counterEvents_run) (Option.some_get counterEvents_run).symm
  exact ⟨orderAt, hend⟩

end XrLinux.Linux.Atomic
