import XrLinux.Linux.Signal

/-!
# Linux — what a program is resumed with

A frame that is returned from is to resume the program as it was interrupted: signals that are
pending then set up further frames for that very state. `deliverAll` says so without a word of
system calls, and the way out of `rt_sigreturn` is compared with it.
-/

namespace XrLinux.Linux

open Machine

namespace Process

variable {M : Type} (um : UserMemory M)

/-- A round that only delivers. -/
def deliver (p : Process M) : Option KSignal → Process M × List (Word × SigFrame)
  | some ksig => p.handleSignal um ksig
  | none => (p.restoreSavedSigmask, [])

def deliverAll (p : Process M) : List (Option KSignal) → Process M × List (Word × SigFrame)
  | [] => (p, [])
  | signal :: rounds =>
    let (p, frames) := p.deliver um signal
    let (p, frames') := p.deliverAll rounds
    (p, frames ++ frames')

/-- The part of `struct pt_regs` that the user does not see. -/
def withTrap (p : Process M) (rs origA3 : Word) : Process M :=
  { p with regs := { p.regs with rs, origA3 } }

/-- The program that is resumed from a frame. -/
def resumed (p : Process M) (frame : SigFrame) : Process M :=
  { p with
    regs := p.regs.withUser frame.regs
    blocked := frame.sigmask
    sigStack := frame.stack }

variable {um} {p q : Process M} {ksig : KSignal} {signal : Option KSignal}
  {rounds : List (Option KSignal)}

theorem exitToUserMode_cons :
    p.exitToUserMode um (signal :: rounds) =
      (((p.archDoSignalOrRestart um signal).1.exitToUserMode um rounds).1,
        (p.archDoSignalOrRestart um signal).2 ++
          ((p.archDoSignalOrRestart um signal).1.exitToUserMode um rounds).2) := rfl

theorem deliverAll_cons :
    p.deliverAll um (signal :: rounds) =
      (((p.deliver um signal).1.deliverAll um rounds).1,
        (p.deliver um signal).2 ++ ((p.deliver um signal).1.deliverAll um rounds).2) := rfl

/-! ## What the user does not see makes no difference -/

theorem handleSignal_withTrap (rs origA3 : Word) :
    (p.withTrap rs origA3).handleSignal um ksig =
      ((p.handleSignal um ksig).1.withTrap rs origA3, (p.handleSignal um ksig).2) := by
  have haddr : (p.withTrap rs origA3).sigframeAddr ksig = p.sigframeAddr ksig := rfl
  have hmapping : (p.withTrap rs origA3).mapping = p.mapping := rfl
  unfold handleSignal
  rw [haddr, hmapping]
  split
  · rfl
  · rfl

theorem deliver_withTrap (rs origA3 : Word) :
    (p.withTrap rs origA3).deliver um signal =
      ((p.deliver um signal).1.withTrap rs origA3, (p.deliver um signal).2) := by
  cases signal with
  | some ksig => exact handleSignal_withTrap rs origA3
  | none =>
    unfold deliver restoreSavedSigmask
    rw [show (p.withTrap rs origA3).savedSigmask = p.savedSigmask from rfl]
    cases p.savedSigmask with
    | none => rfl
    | some set => rfl

/-! ## A round of `arch_do_signal_or_restart` -/

/-- `RS` after a round. -/
def rsAfter (p : Process M) : Word :=
  if p.fromSyscall then p.regs.rs &&& ~~~rsEcause else p.regs.rs

theorem not_restartCodes {value : Word} (h : value ∉ restartCodes) :
    ¬ (value = erestartnohand ∨ value = erestartRestartblock ∨ value = erestartsys) := by
  intro hcode
  apply h
  rcases hcode with rfl | rfl | rfl
  · decide
  · decide
  · decide

theorem retval_not_restartCodes (h : p.fromSyscall = true → p.regs.gpr a3 ∉ restartCodes) :
    p.retval ∉ restartCodes := by
  unfold retval
  cases hsyscall : p.fromSyscall with
  | true => exact h hsyscall
  | false =>
    rw [if_neg Bool.false_ne_true]
    decide

/-- Without a result that asks for it, a round only delivers. -/
theorem archDoSignalOrRestart_eq (h : p.fromSyscall = true → p.regs.gpr a3 ∉ restartCodes) :
    p.archDoSignalOrRestart um signal = (p.withTrap p.rsAfter p.regs.origA3).deliver um signal := by
  have hno := not_restartCodes (retval_not_restartCodes h)
  rw [not_or, not_or] at hno
  have hregs : p.prepareRestart = (p.withTrap p.rsAfter p.regs.origA3).regs := by
    unfold prepareRestart rsAfter
    cases hsyscall : p.fromSyscall with
    | true =>
      rw [if_pos rfl, if_pos rfl, if_neg (h hsyscall)]
      rfl
    | false => rfl
  cases signal with
  | some ksig =>
    have hsignal : p.signalRegs ksig = p.prepareRestart := if_neg fun hrestart =>
      hrestart.2.elim hno.1 fun hrest => hrest.elim hno.2.1 fun hsys => hno.2.2 hsys.1
    rw [archDoSignalOrRestart, hsignal, hregs]
    rfl
  | none =>
    have hnone : p.noSignalRegs = p.prepareRestart := if_neg fun hrestart => hno.2.1 hrestart.2.2
    rw [archDoSignalOrRestart, hnone, hregs]
    rfl

theorem handleSignal_rs : (p.handleSignal um ksig).1.regs.rs = p.regs.rs := by
  unfold handleSignal
  split
  · rfl
  · rfl

theorem restoreSavedSigmask_regs : p.restoreSavedSigmask.regs = p.regs := by
  unfold restoreSavedSigmask
  split
  · rfl
  · rfl

theorem prepareRestart_rs : p.prepareRestart.rs = p.rsAfter := by
  unfold prepareRestart rsAfter
  split
  · dsimp only
    split
    · rfl
    · rfl
  · rfl

/-- `RS` depends on nothing that the user can write. -/
theorem archDoSignalOrRestart_rs : (p.archDoSignalOrRestart um signal).1.regs.rs = p.rsAfter := by
  cases signal with
  | some ksig =>
    rw [archDoSignalOrRestart, handleSignal_rs, ← prepareRestart_rs]
    dsimp only
    unfold signalRegs
    split
    · rfl
    · rfl
  | none =>
    rw [archDoSignalOrRestart, restoreSavedSigmask_regs, ← prepareRestart_rs]
    dsimp only
    unfold noSignalRegs
    split
    · rfl
    · rfl

/-- The second round knows of no system call. -/
theorem fromSyscall_archDoSignalOrRestart :
    (p.archDoSignalOrRestart um signal).1.fromSyscall = false := by
  unfold fromSyscall
  rw [archDoSignalOrRestart_rs, rsAfter]
  cases hsyscall : p.fromSyscall with
  | true =>
    have hmask : ~~~rsEcause &&& rsEcause = 0#32 := by decide
    rw [if_pos rfl, BitVec.and_assoc, hmask, BitVec.and_zero]
    decide
  | false =>
    rw [if_neg Bool.false_ne_true]
    exact hsyscall

theorem exitToUserMode_rs :
    (p.exitToUserMode um rounds).1.regs.rs = if rounds = [] then p.regs.rs else p.rsAfter := by
  have hno : ∀ (q : Process M) rounds, q.fromSyscall = false →
      (q.exitToUserMode um rounds).1.regs.rs = q.regs.rs := by
    intro q rounds hq
    induction rounds generalizing q with
    | nil => rfl
    | cons signal rounds ih =>
      rw [exitToUserMode_cons]
      dsimp only
      rw [ih _ fromSyscall_archDoSignalOrRestart, archDoSignalOrRestart_rs, rsAfter,
        if_neg (by rw [hq]; exact Bool.false_ne_true)]
  cases rounds with
  | nil => rfl
  | cons signal rounds =>
    rw [exitToUserMode_cons, if_neg (List.cons_ne_nil _ _)]
    dsimp only
    rw [hno _ _ fromSyscall_archDoSignalOrRestart, archDoSignalOrRestart_rs]

/-- From anything but a system call the rounds only deliver. -/
theorem exitToUserMode_eq_of_not_syscall (h : p.fromSyscall = false) :
    p.exitToUserMode um rounds = p.deliverAll um rounds := by
  induction rounds generalizing p with
  | nil => rfl
  | cons signal rounds ih =>
    have hround : p.archDoSignalOrRestart um signal = p.deliver um signal := by
      have hno : p.fromSyscall = true → p.regs.gpr a3 ∉ restartCodes := by
        intro hsyscall
        rw [h] at hsyscall
        cases hsyscall
      rw [archDoSignalOrRestart_eq hno, rsAfter, if_neg (by rw [h]; exact Bool.false_ne_true)]
      rfl
    have hnext := @fromSyscall_archDoSignalOrRestart M um p signal
    rw [hround] at hnext
    rw [exitToUserMode_cons, deliverAll_cons, hround, ih hnext]

theorem deliverAll_withTrap (rs origA3 : Word) :
    (p.withTrap rs origA3).deliverAll um rounds =
      ((p.deliverAll um rounds).1.withTrap rs origA3, (p.deliverAll um rounds).2) := by
  induction rounds generalizing p with
  | nil => rfl
  | cons signal rounds ih =>
    rw [deliverAll_cons, deliverAll_cons, deliver_withTrap, ih]

theorem deliverAll_none (hsaved : p.savedSigmask = none) (h : ∀ signal ∈ rounds, signal = none) :
    p.deliverAll um rounds = (p, []) := by
  induction rounds with
  | nil => rfl
  | cons signal rounds ih =>
    have hsignal : signal = none := h signal List.mem_cons_self
    have hround : p.deliver um signal = (p, []) := by
      rw [hsignal, deliver, restoreSavedSigmask, hsaved]
    rw [deliverAll_cons, hround, ih fun signal hmem => h signal (List.mem_cons_of_mem _ hmem)]
    rfl

/-! ## What can be told from the rounds -/

/-- Where the next frames go. -/
structure SameStack (p q : Process M) : Prop where
  sp_eq : p.regs.gpr sp = q.regs.gpr sp
  sigStack_eq : p.sigStack = q.sigStack
  mapping_eq : p.mapping = q.mapping

theorem SameStack.addr_eq (h : SameStack p q) : p.sigframeAddr ksig = q.sigframeAddr ksig := by
  unfold sigframeAddr getSigframe
  rw [h.sp_eq, h.sigStack_eq]

theorem restoreSavedSigmask_sigStack : p.restoreSavedSigmask.sigStack = p.sigStack := by
  unfold restoreSavedSigmask
  split
  · rfl
  · rfl

theorem restoreSavedSigmask_mapping : p.restoreSavedSigmask.mapping = p.mapping := by
  unfold restoreSavedSigmask
  split
  · rfl
  · rfl

/-- The registers that the rounds start with are in the first frame or in the program. -/
theorem user_eq_of_deliverAll (hstack : SameStack p q)
    (hframes : (p.deliverAll um rounds).2 = (q.deliverAll um rounds).2)
    (huser : (p.deliverAll um rounds).1.regs.user = (q.deliverAll um rounds).1.regs.user) :
    p.regs.user = q.regs.user := by
  induction rounds generalizing p q with
  | nil => exact huser
  | cons signal rounds ih =>
    rw [deliverAll_cons, deliverAll_cons] at hframes huser
    cases signal with
    | none =>
      have hsame : SameStack p.restoreSavedSigmask q.restoreSavedSigmask :=
        { sp_eq := by rw [restoreSavedSigmask_regs, restoreSavedSigmask_regs, hstack.sp_eq]
          sigStack_eq := by
            rw [restoreSavedSigmask_sigStack, restoreSavedSigmask_sigStack, hstack.sigStack_eq]
          mapping_eq := by
            rw [restoreSavedSigmask_mapping, restoreSavedSigmask_mapping, hstack.mapping_eq] }
      have heq := ih hsame hframes huser
      rwa [restoreSavedSigmask_regs, restoreSavedSigmask_regs] at heq
    | some ksig =>
      have haddr : p.sigframeAddr ksig = q.sigframeAddr ksig := hstack.addr_eq
      simp only [deliver, handleSignal, haddr, hstack.mapping_eq] at hframes huser
      by_cases hwritable : q.mapping.writable (q.sigframeAddr ksig) = true
      · rw [if_pos hwritable, if_pos hwritable] at hframes
        have hframe := (Prod.mk.inj (List.cons.inj hframes).1).2
        exact congrArg SigFrame.regs hframe
      · rw [if_neg hwritable, if_neg hwritable] at hframes huser
        exact @ih (p.setUpFaulted um ksig) (q.setUpFaulted um ksig)
          ⟨hstack.sp_eq, hstack.sigStack_eq, hstack.mapping_eq⟩ hframes huser

/-- A result that asks for it makes the system call again, or an error of it. -/
theorem archDoSignalOrRestart_restart (hsyscall : p.fromSyscall = true)
    (ha3 : p.regs.gpr a3 ∈ restartCodes) :
    ∃ regs : PtRegs, p.archDoSignalOrRestart um signal =
        ({ p with regs } : Process M).deliver um signal ∧
      regs.user ≠ p.regs.user ∧ regs.gpr sp = p.regs.gpr sp := by
  have hprepare : p.prepareRestart =
      { PtRegs.set { p.regs with rs := p.regs.rs &&& ~~~rsEcause } a3 p.regs.origA3 with
        pc := p.regs.pc - 4 } := by
    unfold prepareRestart
    rw [if_pos hsyscall]
    exact if_pos ha3
  have hpc : p.prepareRestart.pc ≠ p.regs.pc := by
    rw [hprepare]
    intro heq
    exact absurd (sub_eq_self.mp heq) (by decide)
  have hsp : p.prepareRestart.gpr sp = p.regs.gpr sp := by
    have hne : sp ≠ a3 := by decide
    rw [hprepare]
    exact PtRegs.set_gpr_of_ne p.regs p.regs.origA3 hne
  have hsp_eintr : (p.prepareRestart.set a3 eintr).gpr sp = p.regs.gpr sp :=
    (PtRegs.set_gpr_of_ne _ _ (by decide)).trans hsp
  have hsp_t5 : (p.prepareRestart.set t5 nrRestartSyscall).gpr sp = p.regs.gpr sp :=
    (PtRegs.set_gpr_of_ne _ _ (by decide)).trans hsp
  cases signal with
  | some ksig =>
    refine ⟨p.signalRegs ksig, rfl, ?_, ?_⟩
    · intro huser
      unfold signalRegs at huser
      split at huser
      · -- The call fails with `EINTR`, which is none of the results.
        have heintr : eintr = p.regs.gpr a3 :=
          (PtRegs.set_gpr_self p.prepareRestart a3 eintr).symm.trans
            (congrFun (congrArg UserRegs.gpr huser) a3)
        rw [← heintr] at ha3
        exact absurd ha3 (by decide)
      · exact hpc (congrArg UserRegs.pc huser)
    · unfold signalRegs
      split
      · exact hsp_eintr
      · exact hsp
  | none =>
    refine ⟨p.noSignalRegs, rfl, ?_, ?_⟩
    · intro huser
      apply hpc
      have hpc' : p.noSignalRegs.pc = p.prepareRestart.pc := by
        unfold noSignalRegs
        split
        · rfl
        · rfl
      rw [← hpc']
      exact congrArg UserRegs.pc huser
    · unfold noSignalRegs
      split
      · exact hsp_t5
      · exact hsp

/-! ## `rt_sigreturn` -/

/-- A handler starts with its frame at the top of the stack. -/
theorem setUp_frame (h : p.mapping.writable (p.sigframeAddr ksig) = true) :
    (p.setUp um ksig).regs.gpr sp = p.sigframeAddr ksig ∧
      um.read (p.setUp um ksig).mem (p.sigframeAddr ksig) = p.frame ∧
      (p.setUp um ksig).mapping.fault (p.sigframeAddr ksig) = none := by
  refine ⟨?_, um.read_write _ _ _, p.mapping.readable _ h⟩
  show ((((PtRegs.set _ sp (p.sigframeAddr ksig)).set a0 _).set a1 _).set a2 _).gpr sp = _
  rw [PtRegs.set_gpr_of_ne _ _ (by decide), PtRegs.set_gpr_of_ne _ _ (by decide),
    PtRegs.set_gpr_of_ne _ _ (by decide), PtRegs.set_gpr_self]


theorem syscallRtSigreturn_rs : (p.syscallRtSigreturn um).regs.rs = p.regs.rs := by
  unfold syscallRtSigreturn rtSigreturn
  dsimp only
  split
  · rfl
  · rfl
  · rfl
  · rfl

/-- From a frame that can be read, the program is what is in the frame. -/
theorem syscallRtSigreturn_eq (hfault : p.mapping.fault (p.regs.gpr sp) = none)
    (hmask : Blockable (um.read p.mem (p.regs.gpr sp)).sigmask) :
    p.syscallRtSigreturn um =
      (p.resumed (um.read p.mem (p.regs.gpr sp))).withTrap p.regs.rs (p.regs.gpr a3) := by
  let frame := um.read p.mem (p.regs.gpr sp)
  have hsp : (({ p.regs with origA3 := p.regs.gpr a3 } : PtRegs).set a3 enosys).gpr sp =
      p.regs.gpr sp := PtRegs.set_gpr_of_ne _ _ (by decide)
  have hblocked : frame.sigmask &&& ~~~sigKillStop = frame.sigmask := hmask
  have hgpr : Function.update frame.regs.gpr a3 (frame.regs.gpr a3) = frame.regs.gpr :=
    Function.update_eq_self _ _
  unfold syscallRtSigreturn rtSigreturn
  dsimp only
  rw [hsp, hfault]
  dsimp only
  unfold setBlocked resumed withTrap PtRegs.withUser PtRegs.set
  dsimp only
  rw [hgpr, hblocked]

end Process

/-- The program goes on from a frame as it was interrupted, if not for further signals, and the
kernel keeps its own part of the registers. -/
structure SigreturnCorrect {M : Type} (um : UserMemory M) (p : Process M) (frame : SigFrame)
    (rounds : List (Option KSignal)) : Prop where
  /-- Without further signals. -/
  alone : (∀ signal ∈ rounds, signal = none) →
    ((p.syscallRtSigreturn um).exitToUserMode um rounds).1.regs.user = frame.regs ∧
      ((p.syscallRtSigreturn um).exitToUserMode um rounds).1.blocked = frame.sigmask
  frames_eq : ((p.syscallRtSigreturn um).exitToUserMode um rounds).2 =
    ((p.resumed frame).deliverAll um rounds).2
  user_eq : ((p.syscallRtSigreturn um).exitToUserMode um rounds).1.regs.user =
    ((p.resumed frame).deliverAll um rounds).1.regs.user
  blocked_eq : ((p.syscallRtSigreturn um).exitToUserMode um rounds).1.blocked =
    ((p.resumed frame).deliverAll um rounds).1.blocked
  rs_eq : ∀ m, (({ p with mem := m }.syscallRtSigreturn um).exitToUserMode um rounds).1.regs.rs =
    ((p.syscallRtSigreturn um).exitToUserMode um rounds).1.regs.rs

section
variable {M : Type} {um : UserMemory M} {p : Process M} {frame : SigFrame}
  {rounds : List (Option KSignal)}

/-- The rounds after `rt_sigreturn`, if the first one does not take `a3` for a result. -/
theorem exitToUserMode_sigreturn (hreturn : p.syscallRtSigreturn um =
      (p.resumed frame).withTrap p.regs.rs (p.regs.gpr a3))
    (h : rounds = [] ∨ frame.regs.gpr a3 ∉ restartCodes) :
    ∃ rs, (p.syscallRtSigreturn um).exitToUserMode um rounds =
      (((p.resumed frame).deliverAll um rounds).1.withTrap rs (p.regs.gpr a3),
        ((p.resumed frame).deliverAll um rounds).2) := by
  cases rounds with
  | nil => exact ⟨p.regs.rs, by rw [hreturn]; rfl⟩
  | cons signal rounds =>
    have ha3 := h.resolve_left (List.cons_ne_nil _ _)
    let q := p.syscallRtSigreturn um
    have hq : q.regs.gpr a3 = frame.regs.gpr a3 := by
      show (p.syscallRtSigreturn um).regs.gpr a3 = _
      rw [hreturn]
      rfl
    refine ⟨q.rsAfter, ?_⟩
    have hround : q.archDoSignalOrRestart um signal =
        (((p.resumed frame).deliver um signal).1.withTrap q.rsAfter (p.regs.gpr a3),
          ((p.resumed frame).deliver um signal).2) := by
      rw [Process.archDoSignalOrRestart_eq fun _ => by rw [hq]; exact ha3,
        ← Process.deliver_withTrap]
      show (Process.withTrap (p.syscallRtSigreturn um) q.rsAfter
        (p.syscallRtSigreturn um).regs.origA3).deliver um signal = _
      rw [hreturn]
      rfl
    have hnext := @Process.fromSyscall_archDoSignalOrRestart M um q signal
    rw [hround] at hnext
    rw [Process.exitToUserMode_cons, hround, Process.exitToUserMode_eq_of_not_syscall hnext,
      Process.deliverAll_withTrap, Process.deliverAll_cons]

theorem sigreturnCorrect_iff_a3 (hsyscall : p.fromSyscall = true) (hsaved : p.savedSigmask = none)
    (hfault : p.mapping.fault (p.regs.gpr sp) = none)
    (hintact : um.read p.mem (p.regs.gpr sp) = frame) (hmask : Blockable frame.sigmask) :
    SigreturnCorrect um p frame rounds ↔ rounds = [] ∨ frame.regs.gpr a3 ∉ restartCodes := by
  have hreturn := Process.syscallRtSigreturn_eq hfault (hintact ▸ hmask)
  rw [hintact] at hreturn
  constructor
  · intro h
    by_contra hno
    rw [not_or, not_not] at hno
    obtain ⟨signal, rounds, rfl⟩ := List.exists_cons_of_ne_nil hno.1
    have hfrom : (p.syscallRtSigreturn um).fromSyscall = true := by
      unfold Process.fromSyscall
      rw [Process.syscallRtSigreturn_rs]
      exact hsyscall
    have ha3 : (p.syscallRtSigreturn um).regs.gpr a3 ∈ restartCodes := by
      rw [hreturn]
      exact hno.2
    obtain ⟨regs, hround, huser, hsp⟩ :=
      @Process.archDoSignalOrRestart_restart M um (p.syscallRtSigreturn um) signal hfrom ha3
    -- The rounds go on as if the program had been interrupted with other registers.
    let q : Process M := { p.syscallRtSigreturn um with regs }
    have hnext := @Process.fromSyscall_archDoSignalOrRestart M um (p.syscallRtSigreturn um) signal
    have hexit : (p.syscallRtSigreturn um).exitToUserMode um (signal :: rounds) =
        q.deliverAll um (signal :: rounds) := by
      rw [Process.exitToUserMode_cons, Process.exitToUserMode_eq_of_not_syscall hnext, hround,
        Process.deliverAll_cons]
    have hframes := h.frames_eq
    have huser' := h.user_eq
    rw [hexit] at hframes huser'
    have hstack : q.SameStack (p.resumed frame) := by
      have hregs : (p.syscallRtSigreturn um).regs.gpr sp = frame.regs.gpr sp := by
        rw [hreturn]
        rfl
      have hsigStack : (p.syscallRtSigreturn um).sigStack = frame.stack := by
        rw [hreturn]
        rfl
      have hmapping : (p.syscallRtSigreturn um).mapping = p.mapping := by
        rw [hreturn]
        rfl
      exact ⟨hsp.trans hregs, hsigStack, hmapping⟩
    have heq := Process.user_eq_of_deliverAll hstack hframes huser'
    apply huser
    rw [hreturn]
    exact heq
  · intro h
    obtain ⟨rs, hexit⟩ := exitToUserMode_sigreturn hreturn h
    exact
      { alone := by
          intro hnone
          have hsaved' : (p.resumed frame).savedSigmask = none := hsaved
          rw [hexit, Process.deliverAll_none hsaved' hnone]
          exact ⟨rfl, rfl⟩
        frames_eq := by rw [hexit]
        user_eq := by
          rw [hexit]
          rfl
        blocked_eq := by
          rw [hexit]
          rfl
        rs_eq := by
          intro m
          rw [Process.exitToUserMode_rs, Process.exitToUserMode_rs, Process.rsAfter,
            Process.rsAfter, Process.fromSyscall, Process.fromSyscall,
            Process.syscallRtSigreturn_rs, Process.syscallRtSigreturn_rs] }

end

/-! ## Runs -/

/-- A program, with all frames that have been set up for it so far. -/
structure SigSystem (M : Type) where
  process : Process M
  frames : List (Word × SigFrame)

def SigSystem.exit {M : Type} (um : UserMemory M) (σ : SigSystem M) (p : Process M)
    (rounds : List (Option KSignal)) : SigSystem M where
  process := (p.exitToUserMode um rounds).1
  frames := σ.frames ++ (p.exitToUserMode um rounds).2

/-- From user mode to user mode. -/
inductive SigStep {M : Type} (um : UserMemory M) : SigSystem M → SigSystem M → Prop where
  /-- The program runs. -/
  | user {σ : SigSystem M} (regs : UserRegs) (mapping : Mapping) (mem : M) :
      SigStep um σ { σ with
        process := { σ.process with regs := σ.process.regs.withUser regs, mapping, mem } }
  /-- An interrupt, a fault or a system call other than `rt_sigreturn`, with all that it does.
  `TIF_RESTORE_SIGMASK` is not left set. -/
  | trap {σ : SigSystem M} (p : Process M) (rounds : List (Option KSignal))
      (hblocked : Blockable p.blocked) (hsaved : ∀ set, p.savedSigmask = some set → Blockable set)
      (hcleared : (p.exitToUserMode um rounds).1.savedSigmask = none) :
      SigStep um σ (σ.exit um p rounds)
  | sigreturn {σ : SigSystem M} (rs : Word) (rounds : List (Option KSignal))
      (hrs : rs &&& rsEcause = rsEcauseSys) :
      SigStep um σ (σ.exit um
        ({ σ.process with regs := { σ.process.regs with rs } }.syscallRtSigreturn um) rounds)

/-- What holds whenever the program is in user mode. -/
structure SigInv {M : Type} (σ : SigSystem M) : Prop where
  blocked : Blockable σ.process.blocked
  saved : σ.process.savedSigmask = none
  frames : ∀ x ∈ σ.frames, Blockable x.2.sigmask

namespace Process

variable {M : Type} {um : UserMemory M} {p : Process M} {signal : Option KSignal}

/-- The masks of a program in the kernel. -/
structure MasksOk (p : Process M) : Prop where
  blocked : Blockable p.blocked
  saved : ∀ set, p.savedSigmask = some set → Blockable set

theorem MasksOk.frame (h : p.MasksOk) : Blockable p.frame.sigmask := by
  show Blockable (p.savedSigmask.getD p.blocked)
  cases hsaved : p.savedSigmask with
  | none => exact h.blocked
  | some set => exact h.saved set hsaved

theorem MasksOk.handleSignal (h : p.MasksOk) (ksig : KSignal) :
    (p.handleSignal um ksig).1.MasksOk ∧
      ∀ x ∈ (p.handleSignal um ksig).2, Blockable x.2.sigmask := by
  unfold Process.handleSignal
  split
  · refine ⟨⟨blockable_and_not _, fun set hset => by cases hset⟩, fun x hx => ?_⟩
    rw [List.mem_singleton.mp hx]
    exact h.frame
  · exact ⟨⟨h.blocked.and _, h.saved⟩, fun x hx => absurd hx List.not_mem_nil⟩

theorem MasksOk.restoreSavedSigmask (h : p.MasksOk) : p.restoreSavedSigmask.MasksOk := by
  unfold Process.restoreSavedSigmask
  split
  · exact ⟨blockable_and_not _, fun set hset => by cases hset⟩
  · exact h

/-- A round delivers, whatever it makes of the registers first. -/
theorem archDoSignalOrRestart_deliver :
    ∃ regs, p.archDoSignalOrRestart um signal = ({ p with regs } : Process M).deliver um signal := by
  cases signal with
  | some ksig => exact ⟨p.signalRegs ksig, rfl⟩
  | none => exact ⟨p.noSignalRegs, rfl⟩

theorem MasksOk.deliver (h : p.MasksOk) :
    (p.deliver um signal).1.MasksOk ∧ ∀ x ∈ (p.deliver um signal).2, Blockable x.2.sigmask := by
  cases signal with
  | some ksig => exact h.handleSignal ksig
  | none => exact ⟨h.restoreSavedSigmask, fun x hx => absurd hx List.not_mem_nil⟩

theorem MasksOk.exit (h : p.MasksOk) (rounds : List (Option KSignal)) :
    (p.exitToUserMode um rounds).1.MasksOk ∧
      ∀ x ∈ (p.exitToUserMode um rounds).2, Blockable x.2.sigmask := by
  induction rounds generalizing p with
  | nil => exact ⟨h, fun x hx => absurd hx List.not_mem_nil⟩
  | cons signal rounds ih =>
    rw [exitToUserMode_cons]
    obtain ⟨regs, hregs⟩ := @archDoSignalOrRestart_deliver M um p signal
    have hround := @MasksOk.deliver M um { p with regs } signal ⟨h.blocked, h.saved⟩
    rw [hregs]
    have hrest := ih hround.1
    exact ⟨hrest.1, fun x hx => (List.mem_append.mp hx).elim (hround.2 x) (hrest.2 x)⟩

theorem deliver_saved (h : p.savedSigmask = none) :
    (p.deliver um signal).1.savedSigmask = none := by
  cases signal with
  | some ksig =>
    rw [Process.deliver, Process.handleSignal]
    split
    · rfl
    · exact h
  | none =>
    rw [Process.deliver, Process.restoreSavedSigmask, h]
    exact h

/-- A mask that is not set is not set by the rounds. -/
theorem exit_saved (h : p.savedSigmask = none) (rounds : List (Option KSignal)) :
    (p.exitToUserMode um rounds).1.savedSigmask = none := by
  induction rounds generalizing p with
  | nil => exact h
  | cons signal rounds ih =>
    obtain ⟨regs, hregs⟩ := @archDoSignalOrRestart_deliver M um p signal
    rw [exitToUserMode_cons, hregs]
    exact ih (@deliver_saved M um { p with regs } signal h)

theorem sigreturn_saved : (p.syscallRtSigreturn um).savedSigmask = p.savedSigmask := by
  unfold syscallRtSigreturn rtSigreturn
  dsimp only
  split <;> rfl

theorem sigreturn_blocked (h : Blockable p.blocked) :
    Blockable (p.syscallRtSigreturn um).blocked := by
  unfold syscallRtSigreturn rtSigreturn
  dsimp only
  split
  · exact h.and _
  · exact (blockable_and_not _).and _
  · exact (blockable_and_not _).and _
  · exact blockable_and_not _

end Process

section
variable {M : Type} {um : UserMemory M} {σ σ' : SigSystem M}

theorem SigInv.exit (h : SigInv σ) {p : Process M} (hmasks : p.MasksOk)
    (rounds : List (Option KSignal))
    (hsaved : (p.exitToUserMode um rounds).1.savedSigmask = none) :
    SigInv (σ.exit um p rounds) where
  blocked := (hmasks.exit rounds).1.blocked
  saved := hsaved
  frames x hx := (List.mem_append.mp hx).elim (h.frames x) ((hmasks.exit rounds).2 x)

theorem SigInv.step (h : SigInv σ) (hstep : SigStep um σ σ') : SigInv σ' := by
  cases hstep with
  | user regs mapping mem => exact ⟨h.blocked, h.saved, h.frames⟩
  | trap p rounds hblocked hsaved hcleared => exact h.exit ⟨hblocked, hsaved⟩ rounds hcleared
  | sigreturn rs rounds hrs =>
    let p : Process M := { σ.process with regs := { σ.process.regs with rs } }
    have hsaved : (p.syscallRtSigreturn um).savedSigmask = none :=
      Process.sigreturn_saved.trans h.saved
    have hmasks : (p.syscallRtSigreturn um).MasksOk :=
      { blocked := @Process.sigreturn_blocked M um p h.blocked
        saved := fun set hset => by
          rw [hsaved] at hset
          cases hset }
    exact h.exit hmasks rounds (Process.exit_saved hsaved rounds)

theorem sigInv_of_run {σ₀ : SigSystem M} (h : SigInv σ₀)
    (hrun : Relation.ReflTransGen (SigStep um) σ₀ σ) : SigInv σ := by
  induction hrun with
  | refl => exact h
  | tail _ hstep ih => exact ih.step hstep

/-- A program that has had no signals. -/
structure SigInitial (σ : SigSystem M) : Prop where
  blocked : Blockable σ.process.blocked
  saved : σ.process.savedSigmask = none
  frames : σ.frames = []

theorem sigreturn_correct_iff {σ₀ : SigSystem M} (hinit : SigInitial σ₀)
    (hrun : Relation.ReflTransGen (SigStep um) σ₀ σ) {frame : SigFrame}
    (hframe : (σ.process.regs.gpr sp, frame) ∈ σ.frames)
    (hintact : um.read σ.process.mem (σ.process.regs.gpr sp) = frame)
    (hmapped : σ.process.mapping.fault (σ.process.regs.gpr sp) = none) {rs : Word}
    (hrs : rs &&& rsEcause = rsEcauseSys) (rounds : List (Option KSignal)) :
    SigreturnCorrect um { σ.process with regs := { σ.process.regs with rs } } frame rounds ↔
      rounds = [] ∨ frame.regs.gpr a3 ∉ restartCodes := by
  have hinv := sigInv_of_run ⟨hinit.blocked, hinit.saved, fun x hx => by
    rw [hinit.frames] at hx
    exact absurd hx List.not_mem_nil⟩ hrun
  exact sigreturnCorrect_iff_a3 (beq_iff_eq.mpr hrs) hinv.saved hmapped hintact
    (hinv.frames _ hframe)

end

/-! ## A run -/

/-- A memory of frames that do not overlap. -/
def frameMemory : UserMemory (Word → SigFrame) where
  read m addr := m addr
  write m addr frame := Function.update m addr frame
  writePart m _ _ := m
  read_write _ _ _ := Function.update_self _ _ _

def oneStack : SigStack := ⟨fun _ => false, fun sp _ => sp⟩

/-- A program that has `-ERESTARTSYS` in `a3` when it is interrupted. -/
def loopProcess : Process (Word → SigFrame) where
  regs := ⟨0x100, fun r => if r = a3 then erestartsys else if r = sp then 0x8000 else 0, 0, 0⟩
  blocked := 0
  savedSigmask := none
  sigStack := oneStack
  mapping := ⟨fun _ => true, fun _ => none, fun _ _ => rfl⟩
  mem := fun _ => ⟨oneStack, 0, ⟨0, fun _ => 0⟩⟩

def handledSignal : KSignal := ⟨2, 0x200, false, 0⟩

def loopSystem : SigSystem (Word → SigFrame) := ⟨loopProcess, []⟩

/-- The program in its handler. -/
def handlerSystem : SigSystem (Word → SigFrame) :=
  loopSystem.exit frameMemory loopProcess [some handledSignal]

theorem loopSystem_step : SigStep frameMemory loopSystem handlerSystem := by
  refine .trap loopProcess [some handledSignal] ?_ ?_ rfl
  · show (0 : SigSet) &&& ~~~sigKillStop = 0
    decide
  · intro set hset
    cases hset

theorem handlerSystem_frames :
    handlerSystem.frames = [(handlerSystem.process.regs.gpr sp, loopProcess.frame)] := rfl

theorem handlerSystem_intact :
    frameMemory.read handlerSystem.process.mem (handlerSystem.process.regs.gpr sp) =
      loopProcess.frame := by
  obtain ⟨hsp, hread, _⟩ := @Process.setUp_frame _ frameMemory loopProcess handledSignal rfl
  have hprocess : handlerSystem.process = loopProcess.setUp frameMemory handledSignal := rfl
  rw [hprocess, hsp, hread]

/-- The handler calls `rt_sigreturn`. -/
def returningProcess : Process (Word → SigFrame) :=
  { handlerSystem.process with regs := { handlerSystem.process.regs with rs := rsEcauseSys } }

theorem handler_returns : SigreturnCorrect frameMemory returningProcess loopProcess.frame [] :=
  (sigreturn_correct_iff ⟨by decide, rfl, rfl⟩ (.single loopSystem_step)
    (handlerSystem_frames ▸ List.mem_singleton_self _) handlerSystem_intact rfl (by decide) []).mpr
    (.inl rfl)

/-- With something to look after on the way out, the program is resumed at the instruction before
and with another `a3`. -/
theorem sigreturn_restarts :
    ¬ SigreturnCorrect frameMemory returningProcess loopProcess.frame [none] := by
  intro h
  have hiff := @sigreturnCorrect_iff_a3 _ frameMemory returningProcess loopProcess.frame [none]
    (by decide) rfl rfl handlerSystem_intact (by decide)
  rcases hiff.mp h with hnil | ha3
  · cases hnil
  · exact absurd (show erestartsys ∈ restartCodes by decide) ha3

end XrLinux.Linux
