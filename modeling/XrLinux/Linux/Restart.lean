import XrLinux.Linux.SignalRuns

/-!
# Linux — system calls that are made again

`xr17032_handle_syscall` of `kernel/entry.c` from user mode, for any system call but `rt_sigreturn`,
and the way out of it. The table of system calls is a parameter.

The first round decides with its own signal what becomes of the call, and takes the system call out
of `RS`. Later rounds of the same return only deliver to the registers that it has left, as after
any other trap.
-/

namespace XrLinux.Linux

open Machine

/-- `__NR_rt_sigreturn`. -/
def nrRtSigreturn : Word := 139

/-- `sys_call_table`. A system call gets a `const struct pt_regs *`. `execve` writes the registers
all the same, and is not made again then. -/
structure SysCallTable (M : Type) where
  /-- `NR_syscalls`. -/
  nrSyscalls : Nat
  call : Word → Process M → Process M × Word
  regs_eq : ∀ nr p, nr ≠ nrRtSigreturn → (call nr p).2 ∈ restartCodes → (call nr p).1.regs = p.regs

/-- What becomes of a system call. -/
inductive Outcome where
  | returned
  | interrupted
  | again
  | restartSyscall
  deriving DecidableEq

/-- What is to become of a system call, by its result and by the signal of the first round, if any.
Without a round no signal is pending; the generic code returns none of the codes then. -/
def Outcome.of (result : Word) : List (Option KSignal) → Outcome
  | [] => .returned
  | none :: _ =>
    if result = erestartRestartblock then .restartSyscall
    else if result = erestartnohand ∨ result = erestartsys ∨ result = erestartnointr then .again
    else .returned
  | some ksig :: _ =>
    if result = erestartsys then if ksig.restart then .again else .interrupted
    else if result = erestartnointr then .again
    else if result = erestartnohand ∨ result = erestartRestartblock then .interrupted
    else .returned

/-- The registers of the program then, from those that it has made the call with and those that the
call has left. -/
def Outcome.regs (call left : PtRegs) : Outcome → PtRegs
  | .returned => left
  | .interrupted => call.set a3 eintr
  | .again => { call with pc := call.pc - 4 }
  | .restartSyscall => { call.set t5 nrRestartSyscall with pc := call.pc - 4 }

namespace Process

variable {M : Type} (um : UserMemory M) (table : SysCallTable M)

/-- `xr17032_handle_syscall`, before it goes back to user mode. -/
def handleSyscall (p : Process M) : Process M :=
  let syscall := p.regs.gpr t5
  let p : Process M := { p with regs := { p.regs with origA3 := p.regs.gpr a3 }.set a3 enosys }
  if 0 ≤ syscall.toInt ∧ syscall.toInt < table.nrSyscalls then
    let q := (table.call syscall p).1
    { q with regs := q.regs.set a3 (table.call syscall p).2 }
  else p

/-- The result that the system call leaves. -/
def result (p : Process M) : Word := (p.handleSyscall table).regs.gpr a3

/-- The program after the system call, with the registers of its outcome. -/
def decided (p : Process M) (rounds : List (Option KSignal)) : Process M :=
  { p.handleSyscall table with
    regs := (Outcome.of (p.result table) rounds).regs p.regs (p.handleSyscall table).regs }

/-- The signals find the program as the outcome of its system call has it, and nothing else is made
of it. -/
structure RestartCorrect (p : Process M) (rounds : List (Option KSignal)) : Prop where
  frames_eq : ((p.handleSyscall table).exitToUserMode um rounds).2 =
    ((p.decided table rounds).deliverAll um rounds).2
  user_eq : ((p.handleSyscall table).exitToUserMode um rounds).1.regs.user =
    ((p.decided table rounds).deliverAll um rounds).1.regs.user
  blocked_eq : ((p.handleSyscall table).exitToUserMode um rounds).1.blocked =
    ((p.decided table rounds).deliverAll um rounds).1.blocked
  saved_eq : ((p.handleSyscall table).exitToUserMode um rounds).1.savedSigmask =
    ((p.decided table rounds).deliverAll um rounds).1.savedSigmask
  mem_eq : ((p.handleSyscall table).exitToUserMode um rounds).1.mem =
    ((p.decided table rounds).deliverAll um rounds).1.mem

variable {um table} {p q : Process M} {ksig : KSignal} {signal : Option KSignal}
  {rounds : List (Option KSignal)}

/-! ## The first round -/

/-- The registers that a system call has left, as it asks to be made again. -/
structure Asking (call left : PtRegs) : Prop where
  pc_eq : left.pc = call.pc
  gpr_eq : ∀ value, Function.update left.gpr a3 value = Function.update call.gpr a3 value
  origA3_eq : left.origA3 = call.gpr a3

theorem prepareRestart_user {call : PtRegs} (hsyscall : q.fromSyscall = true)
    (hresult : q.regs.gpr a3 ∈ restartCodes) (hcall : Asking call q.regs) :
    q.prepareRestart.user = ⟨call.pc - 4, call.gpr⟩ := by
  have hgpr : Function.update q.regs.gpr a3 q.regs.origA3 = call.gpr := by
    rw [hcall.gpr_eq, hcall.origA3_eq, Function.update_eq_self]
  rw [prepareRestart, if_pos hsyscall, if_pos hresult, ← hcall.pc_eq, ← hgpr]
  rfl

theorem prepareRestart_pc (hsyscall : q.fromSyscall = true)
    (hresult : q.regs.gpr a3 ∈ restartCodes) : q.prepareRestart.pc = q.restartAddr := by
  rw [prepareRestart, restartAddr, if_pos hsyscall, if_pos hsyscall, if_pos hresult]

theorem signalRegs_eq (hsyscall : q.fromSyscall = true) (hresult : q.regs.gpr a3 ∈ restartCodes) :
    q.signalRegs ksig =
      if q.regs.gpr a3 = erestartnohand ∨ q.regs.gpr a3 = erestartRestartblock ∨
          (q.regs.gpr a3 = erestartsys ∧ ¬ ksig.restart) then
        { q.prepareRestart.set a3 eintr with pc := q.continueAddr }
      else q.prepareRestart := by
  have hretval : q.retval = q.regs.gpr a3 := if_pos hsyscall
  simp only [signalRegs, hretval, prepareRestart_pc hsyscall hresult, true_and]

theorem noSignalRegs_eq (hsyscall : q.fromSyscall = true)
    (hresult : q.regs.gpr a3 ∈ restartCodes) :
    q.noSignalRegs =
      if q.regs.gpr a3 = erestartRestartblock then q.prepareRestart.set t5 nrRestartSyscall
      else q.prepareRestart := by
  have hretval : q.retval = q.regs.gpr a3 := if_pos hsyscall
  simp only [noSignalRegs, hretval, hsyscall, prepareRestart_pc hsyscall hresult, true_and]

/-- What a signal finds of a call that asks to be made again. -/
theorem signalRegs_user {call : PtRegs} (hsyscall : q.fromSyscall = true)
    (hresult : q.regs.gpr a3 ∈ restartCodes) (hcall : Asking call q.regs) :
    (q.signalRegs ksig).user =
      ((Outcome.of (q.regs.gpr a3) (some ksig :: rounds)).regs call q.regs).user := by
  have hprepare := prepareRestart_user hsyscall hresult hcall
  have hinterrupted : ({ q.prepareRestart.set a3 eintr with pc := q.continueAddr } : PtRegs).user =
      (call.set a3 eintr).user := by
    have hgpr : q.prepareRestart.gpr = call.gpr := congrArg UserRegs.gpr hprepare
    have hpc : q.continueAddr = call.pc := (if_pos hsyscall).trans hcall.pc_eq
    simp only [PtRegs.user, PtRegs.set, hgpr, hpc]
  have hagain : q.prepareRestart.user = ({ call with pc := call.pc - 4 } : PtRegs).user := hprepare
  rw [signalRegs_eq hsyscall hresult, Outcome.of]
  -- One of the four codes at a time.
  rcases List.mem_cons.mp hresult with hcode | hcode
  · rw [hcode, if_pos (.inl rfl), if_neg (by decide), if_neg (by decide), if_pos (.inl rfl)]
    exact hinterrupted
  rcases List.mem_cons.mp hcode with hcode | hcode
  · rw [hcode, if_pos rfl]
    cases hrestart : ksig.restart with
    | true =>
      rw [if_neg (by decide)]
      exact hagain
    | false =>
      rw [if_pos (by decide)]
      exact hinterrupted
  rcases List.mem_cons.mp hcode with hcode | hcode
  · have hno : ¬ (erestartnointr = erestartnohand ∨ erestartnointr = erestartRestartblock ∨
        (erestartnointr = erestartsys ∧ ¬ ksig.restart)) := by
      rw [not_or, not_or]
      exact ⟨by decide, by decide, fun h => absurd h.1 (by decide)⟩
    rw [hcode, if_neg hno, if_neg (by decide), if_pos rfl]
    exact hagain
  · rw [List.mem_singleton.mp hcode, if_pos (.inr (.inl rfl)), if_neg (by decide),
      if_neg (by decide), if_pos (.inr rfl)]
    exact hinterrupted

/-- What a round without a signal leaves of it. -/
theorem noSignalRegs_user {call : PtRegs} (hsyscall : q.fromSyscall = true)
    (hresult : q.regs.gpr a3 ∈ restartCodes) (hcall : Asking call q.regs) :
    q.noSignalRegs.user =
      ((Outcome.of (q.regs.gpr a3) (none :: rounds)).regs call q.regs).user := by
  have hprepare := prepareRestart_user hsyscall hresult hcall
  rw [noSignalRegs_eq hsyscall hresult, Outcome.of]
  by_cases hblock : q.regs.gpr a3 = erestartRestartblock
  · rw [if_pos hblock, if_pos hblock]
    have hgpr : q.prepareRestart.gpr = call.gpr := congrArg UserRegs.gpr hprepare
    have hpc : q.prepareRestart.pc = call.pc - 4 := congrArg UserRegs.pc hprepare
    simp only [Outcome.regs, PtRegs.user, PtRegs.set, hgpr, hpc]
  · have hagain : q.regs.gpr a3 = erestartnohand ∨ q.regs.gpr a3 = erestartsys ∨
        q.regs.gpr a3 = erestartnointr := by
      simpa [restartCodes, hblock] using hresult
    rw [if_neg hblock, if_neg hblock, if_pos hagain]
    exact hprepare

/-! ## The rounds -/

/-- After the first round there are only deliveries. -/
theorem exitToUserMode_of_round {regs : PtRegs}
    (hround : q.archDoSignalOrRestart um signal = ({ q with regs } : Process M).deliver um signal) :
    q.exitToUserMode um (signal :: rounds) =
      ({ q with regs } : Process M).deliverAll um (signal :: rounds) := by
  have hnext := @fromSyscall_archDoSignalOrRestart M um q signal
  rw [exitToUserMode_cons, deliverAll_cons, exitToUserMode_eq_of_not_syscall hnext, hround]

theorem withRegs_of_user {regs regs' : PtRegs} (h : regs.user = regs'.user) :
    ({ q with regs } : Process M) =
      ({ q with regs := regs' } : Process M).withTrap regs.rs regs.origA3 := by
  have hpc : regs.pc = regs'.pc := congrArg UserRegs.pc h
  have hgpr : regs.gpr = regs'.gpr := congrArg UserRegs.gpr h
  cases regs
  cases regs'
  cases hpc
  cases hgpr
  rfl

/-- The registers that the first round delivers to. -/
theorem exists_round {call : PtRegs}
    (hsyscall : q.regs.gpr a3 ∈ restartCodes → q.fromSyscall = true)
    (hasking : q.regs.gpr a3 ∈ restartCodes → Asking call q.regs) :
    ∃ regs, q.archDoSignalOrRestart um signal = ({ q with regs } : Process M).deliver um signal ∧
      regs.user = ((Outcome.of (q.regs.gpr a3) (signal :: rounds)).regs call q.regs).user := by
  by_cases hresult : q.regs.gpr a3 ∈ restartCodes
  · cases signal with
    | some ksig =>
      exact ⟨q.signalRegs ksig, rfl, signalRegs_user (hsyscall hresult) hresult (hasking hresult)⟩
    | none =>
      exact ⟨q.noSignalRegs, rfl, noSignalRegs_user (hsyscall hresult) hresult (hasking hresult)⟩
  · refine ⟨(q.withTrap q.rsAfter q.regs.origA3).regs,
      archDoSignalOrRestart_eq fun _ => hresult, ?_⟩
    have hreturned : Outcome.of (q.regs.gpr a3) (signal :: rounds) = .returned := by
      simp only [restartCodes, List.mem_cons, List.not_mem_nil, or_false, not_or] at hresult
      obtain ⟨hnohand, hsys, hnointr, hblock⟩ := hresult
      cases signal with
      | none =>
        rw [Outcome.of, if_neg hblock, if_neg (not_or.mpr ⟨hnohand, not_or.mpr ⟨hsys, hnointr⟩⟩)]
      | some ksig =>
        rw [Outcome.of, if_neg hsys, if_neg hnointr, if_neg (not_or.mpr ⟨hnohand, hblock⟩)]
    rw [hreturned]
    rfl

/-! ## The system call -/

theorem handleSyscall_eq (p : Process M) :
    (∃ q : Process M, ∃ ret, (ret ∈ restartCodes → p.regs.gpr t5 ≠ nrRtSigreturn →
        q.regs = { p.regs with origA3 := p.regs.gpr a3 }.set a3 enosys) ∧
      p.handleSyscall table = { q with regs := q.regs.set a3 ret }) ∨
    p.handleSyscall table =
      { p with regs := { p.regs with origA3 := p.regs.gpr a3 }.set a3 enosys } := by
  unfold handleSyscall
  dsimp only
  split
  · exact .inl ⟨_, _, fun hret hnr => table.regs_eq _ _ hnr hret, rfl⟩
  · exact .inr rfl

/-- What a system call has left that asks to be made again. -/
theorem handleSyscall_asking (hnr : p.regs.gpr t5 ≠ nrRtSigreturn)
    (hresult : p.result table ∈ restartCodes) :
    Asking p.regs (p.handleSyscall table).regs ∧
      (p.handleSyscall table).regs.rs = p.regs.rs := by
  unfold result at hresult
  rcases @handleSyscall_eq M table p with ⟨q, ret, hkept, heq⟩ | heq
  · rw [heq] at hresult ⊢
    have hret : ret ∈ restartCodes := (PtRegs.set_gpr_self q.regs a3 ret) ▸ hresult
    have hregs := hkept hret hnr
    refine ⟨⟨?_, ?_, ?_⟩, ?_⟩
    · show q.regs.pc = p.regs.pc
      rw [hregs]
      rfl
    · intro value
      show Function.update (Function.update q.regs.gpr a3 ret) a3 value = _
      rw [Function.update_idem, hregs]
      exact Function.update_idem _ _ _
    · show q.regs.origA3 = p.regs.gpr a3
      rw [hregs]
      rfl
    · show q.regs.rs = p.regs.rs
      rw [hregs]
      rfl
  · -- There is no such system call, and `-ENOSYS` asks for nothing.
    rw [heq] at hresult
    have henosys : enosys ∈ restartCodes :=
      (PtRegs.set_gpr_self { p.regs with origA3 := p.regs.gpr a3 } a3 enosys) ▸ hresult
    exact absurd henosys (by decide)

theorem restartCorrect_of_withTrap {rs origA3 : Word}
    (h : (p.handleSyscall table).exitToUserMode um rounds =
      ((p.decided table rounds).withTrap rs origA3).deliverAll um rounds) :
    RestartCorrect um table p rounds := by
  rw [deliverAll_withTrap] at h
  constructor
  · rw [h]
  · rw [h]
    rfl
  · rw [h]
    rfl
  · rw [h]
    rfl
  · rw [h]
    rfl

theorem handleSyscall_restartCorrect (hsyscall : p.fromSyscall = true)
    (hnr : p.regs.gpr t5 ≠ nrRtSigreturn) (rounds : List (Option KSignal)) :
    RestartCorrect um table p rounds := by
  cases rounds with
  | nil => exact ⟨rfl, rfl, rfl, rfl, rfl⟩
  | cons signal rounds =>
    let q := p.handleSyscall table
    have hfrom : q.regs.gpr a3 ∈ restartCodes → q.fromSyscall = true := by
      intro hresult
      unfold fromSyscall
      rw [(handleSyscall_asking hnr hresult).2]
      exact hsyscall
    obtain ⟨regs, hround, huser⟩ := @exists_round M um q signal rounds p.regs hfrom
      fun hresult => (handleSyscall_asking hnr hresult).1
    apply restartCorrect_of_withTrap
    show q.exitToUserMode um (signal :: rounds) = _
    rw [exitToUserMode_of_round hround, withRegs_of_user huser]
    rfl

end Process

/-- **System call restart.** After any system call but `rt_sigreturn`, whatever it has returned and
whatever signals there are, the program is as the outcome of the call has it: with the result, with
`-EINTR`, or at the call again with all the registers that it has been made with, or with those but
for the number of `restart_syscall`. What the signals find after any other trap is the program as it
was. -/
theorem restart_correct {M : Type} (um : UserMemory M) (table : SysCallTable M) (p : Process M)
    (rounds : List (Option KSignal)) :
    (p.fromSyscall = true → p.regs.gpr t5 ≠ nrRtSigreturn → p.RestartCorrect um table rounds) ∧
      (p.fromSyscall = false → p.exitToUserMode um rounds = p.deliverAll um rounds) := by
  constructor
  · intro hsyscall hnr
    exact Process.handleSyscall_restartCorrect hsyscall hnr rounds
  · exact Process.exitToUserMode_eq_of_not_syscall

/-- Every system call is interrupted. -/
def interruptedTable : SysCallTable (Word → SigFrame) where
  nrSyscalls := 463
  call _ p := (p, erestartsys)
  regs_eq _ _ _ _ := rfl

/-- `loopProcess` in a system call. -/
def callingProcess : Process (Word → SigFrame) :=
  { loopProcess with regs := { loopProcess.regs with rs := rsEcauseSys } }

theorem restart_correct_callingProcess :
    callingProcess.RestartCorrect frameMemory interruptedTable [some handledSignal, none] ∧
      loopProcess.exitToUserMode frameMemory [some handledSignal, none] =
        loopProcess.deliverAll frameMemory [some handledSignal, none] :=
  ⟨(restart_correct frameMemory interruptedTable callingProcess _).1 (by decide) (by decide),
    (restart_correct frameMemory interruptedTable loopProcess _).2 (by decide)⟩

/-- The handler finds the call at its end, with `-EINTR`. -/
example : (callingProcess.decided interruptedTable [some handledSignal, none]).regs.gpr a3 = eintr ∧
    (callingProcess.decided interruptedTable [some handledSignal, none]).regs.pc = 0x100 := by decide

end XrLinux.Linux
