import Mathlib.Logic.Relation
import XrLinux.Linux.Regs

/-!
# Linux — signals

`kernel/signal.c`, with `xr17032_handle_syscall` of `kernel/entry.c` for `rt_sigreturn`. The user
program is what is in `struct pt_regs`, its signal mask and its memory. What the generic code
decides is a parameter: which signal is next, where the stack for signals is, which memory is
mapped. There is no tracer.

On the way out of a trap the kernel goes through rounds of `arch_do_signal_or_restart`, one for each
result of `get_signal`. `rt_sigreturn` is a system call itself, and the first round takes what it
has restored in `a3` for its result.
-/

namespace XrLinux.Linux

open Machine

/-- `sigset_t`. -/
abbrev SigSet := BitVec 64

/-- `SIGKILL` and `SIGSTOP`, which cannot be blocked. -/
def sigKillStop : SigSet := 0x40100

/-- A mask without the signals that cannot be blocked. -/
def Blockable (set : SigSet) : Prop := set &&& ~~~sigKillStop = set

instance (set : SigSet) : Decidable (Blockable set) := inferInstanceAs (Decidable (_ = _))

theorem blockable_and_not (set : SigSet) : Blockable (set &&& ~~~sigKillStop) := by
  rw [Blockable, BitVec.and_assoc, BitVec.and_self]

theorem Blockable.and {set : SigSet} (h : Blockable set) (set' : SigSet) :
    Blockable (set &&& set') := by
  rw [Blockable, BitVec.and_assoc, BitVec.and_comm set', ← BitVec.and_assoc, h]

/-- `SIGSEGV`. -/
def sigSegv : SigSet := 0x400

/-- `struct user_regs_struct`, the start of `struct pt_regs`. -/
structure UserRegs where
  pc : Word
  gpr : Reg → Word

def PtRegs.user (regs : PtRegs) : UserRegs := ⟨regs.pc, regs.gpr⟩

/-- Writing over the start of `struct pt_regs`. -/
def PtRegs.withUser (regs : PtRegs) (user : UserRegs) : PtRegs :=
  { regs with pc := user.pc, gpr := user.gpr }

/-- `struct ksignal`. -/
structure KSignal where
  sig : Word
  handler : Word
  /-- `SA_RESTART`. -/
  restart : Bool
  /-- What is blocked while the handler runs. -/
  mask : SigSet

/-- The alternate stack, by `on_sig_stack` and `sigsp`. -/
structure SigStack where
  onSigStack : Word → Bool
  sigsp : Word → KSignal → Word

/-- `struct rt_sigframe`, but for what only the user reads. -/
structure SigFrame where
  stack : SigStack
  sigmask : SigSet
  regs : UserRegs

/-- The memory of a user program, as frames are read and written in it. Frames may overlap. -/
structure UserMemory (M : Type) where
  read : M → Word → SigFrame
  write : M → Word → SigFrame → M
  /-- What there is of a frame when writing it has faulted. -/
  writePart : M → Word → SigFrame → M
  read_write : ∀ m addr frame, read (write m addr frame) addr = frame

/-- Where reading a frame faults. Registers may have been read by then. -/
inductive ReadFault where
  | mask
  | regs (part : UserRegs)
  | stack

/-- What is mapped, by the addresses of frames. -/
structure Mapping where
  writable : Word → Bool
  fault : Word → Option ReadFault
  readable : ∀ addr, writable addr → fault addr = none

structure Process (M : Type) where
  regs : PtRegs
  blocked : SigSet
  /-- `saved_sigmask`, if `TIF_RESTORE_SIGMASK` is set. -/
  savedSigmask : Option SigSet
  sigStack : SigStack
  mapping : Mapping
  mem : M

/-- `sizeof (struct rt_sigframe)`. -/
def frameSize : Word := 412

/-- `offsetof (struct rt_sigframe, uc)`. -/
def ucOffset : Word := 128

/-- `offsetof (struct rt_sigframe, sigreturn_code)`. -/
def codeOffset : Word := 404

def eintr : Word := -4

def enosys : Word := -38

def erestartsys : Word := -512

def erestartnointr : Word := -513

def erestartnohand : Word := -514

def erestartRestartblock : Word := -516

/-- `__NR_restart_syscall`. -/
def nrRestartSyscall : Word := 128

/-- The results of a system call that is to be made again. -/
def restartCodes : List Word :=
  [erestartnohand, erestartsys, erestartnointr, erestartRestartblock]

/-- `get_sigframe`. -/
def getSigframe (stack : SigStack) (ksig : KSignal) (regs : PtRegs) : Word :=
  let sp := regs.gpr sp
  if stack.onSigStack sp ∧ ¬ stack.onSigStack (sp - frameSize) then -1
  else (stack.sigsp sp ksig - frameSize) &&& ~~~0x3

/-- The registers that a handler starts with. -/
def handlerRegs (regs : PtRegs) (ksig : KSignal) (frame : Word) : PtRegs :=
  let regs := { regs.set lr (frame + codeOffset) with pc := ksig.handler }
  (((regs.set sp frame).set a0 ksig.sig).set a1 frame).set a2 (frame + ucOffset)

namespace Process

variable {M : Type} (um : UserMemory M)

/-- `set_current_blocked`. -/
def setBlocked (p : Process M) (set : SigSet) : Process M :=
  { p with blocked := set &&& ~~~sigKillStop }

/-- `force_sig (SIGSEGV)`, as far as the mask goes. -/
def forceSegv (p : Process M) : Process M := { p with blocked := p.blocked &&& ~~~sigSegv }

/-- `restore_saved_sigmask`. -/
def restoreSavedSigmask (p : Process M) : Process M :=
  match p.savedSigmask with
  | some set => { p with savedSigmask := none }.setBlocked set
  | none => p

/-- The frame that is set up for a signal, with `sigmask_to_save`. -/
def frame (p : Process M) : SigFrame :=
  ⟨p.sigStack, p.savedSigmask.getD p.blocked, p.regs.user⟩

def sigframeAddr (p : Process M) (ksig : KSignal) : Word := getSigframe p.sigStack ksig p.regs

/-- `setup_rt_frame` and `signal_delivered`, if nothing faults. -/
def setUp (p : Process M) (ksig : KSignal) : Process M :=
  { p with
    regs := handlerRegs p.regs ksig (p.sigframeAddr ksig)
    mem := um.write p.mem (p.sigframeAddr ksig) p.frame
    savedSigmask := none }.setBlocked (p.blocked ||| ksig.mask)

/-- `setup_rt_frame` and `signal_setup_done`, if something does. -/
def setUpFaulted (p : Process M) (ksig : KSignal) : Process M :=
  { p with mem := um.writePart p.mem (p.sigframeAddr ksig) p.frame }.forceSegv

/-- `handle_signal`, with the frame that has been set up. -/
def handleSignal (p : Process M) (ksig : KSignal) : Process M × List (Word × SigFrame) :=
  if p.mapping.writable (p.sigframeAddr ksig) then
    (p.setUp um ksig, [(p.sigframeAddr ksig, p.frame)])
  else (p.setUpFaulted um ksig, [])

/-- Whether `arch_do_signal_or_restart` takes the trap for a system call. -/
def fromSyscall (p : Process M) : Bool := p.regs.rs &&& rsEcause == rsEcauseSys

/-- `arch_do_signal_or_restart` up to `get_signal`. -/
def prepareRestart (p : Process M) : PtRegs :=
  if p.fromSyscall then
    let regs := { p.regs with rs := p.regs.rs &&& ~~~rsEcause }
    if p.regs.gpr a3 ∈ restartCodes then
      { regs.set a3 p.regs.origA3 with pc := p.regs.pc - 4 }
    else regs
  else p.regs

def continueAddr (p : Process M) : Word := if p.fromSyscall then p.regs.pc else 0

def restartAddr (p : Process M) : Word := if p.fromSyscall then p.regs.pc - 4 else 0

def retval (p : Process M) : Word := if p.fromSyscall then p.regs.gpr a3 else 0

/-- The registers that a signal finds. It may be that the system call is not made again after
all. -/
def signalRegs (p : Process M) (ksig : KSignal) : PtRegs :=
  if p.prepareRestart.pc = p.restartAddr ∧
      (p.retval = erestartnohand ∨ p.retval = erestartRestartblock ∨
        (p.retval = erestartsys ∧ ¬ ksig.restart)) then
    { p.prepareRestart.set a3 eintr with pc := p.continueAddr }
  else p.prepareRestart

/-- The registers without a signal. It may be that another system call is made. -/
def noSignalRegs (p : Process M) : PtRegs :=
  if p.fromSyscall ∧ p.prepareRestart.pc = p.restartAddr ∧ p.retval = erestartRestartblock then
    p.prepareRestart.set t5 nrRestartSyscall
  else p.prepareRestart

/-- `arch_do_signal_or_restart`, with the result of `get_signal`. -/
def archDoSignalOrRestart (p : Process M) : Option KSignal → Process M × List (Word × SigFrame)
  | some ksig => { p with regs := p.signalRegs ksig }.handleSignal um ksig
  | none => ({ p with regs := p.noSignalRegs }.restoreSavedSigmask, [])

/-- The rounds on the way to user mode, with all frames that are set up. -/
def exitToUserMode (p : Process M) : List (Option KSignal) → Process M × List (Word × SigFrame)
  | [] => (p, [])
  | signal :: rounds =>
    let (p, frames) := p.archDoSignalOrRestart um signal
    let (p, frames') := p.exitToUserMode rounds
    (p, frames ++ frames')

/-- `rt_sigreturn`, with its result. -/
def rtSigreturn (p : Process M) : Process M × Word :=
  let addr := p.regs.gpr sp
  let frame := um.read p.mem addr
  match p.mapping.fault addr with
  | some .mask => (p.forceSegv, 0)
  | some (.regs part) =>
    let p := p.setBlocked frame.sigmask
    ({ p with regs := p.regs.withUser part }.forceSegv, 0)
  | some .stack =>
    let p := p.setBlocked frame.sigmask
    ({ p with regs := p.regs.withUser frame.regs }.forceSegv, 0)
  | none =>
    let p := p.setBlocked frame.sigmask
    let p := { p with regs := p.regs.withUser frame.regs, sigStack := frame.stack }
    (p, p.regs.gpr a3)

/-- `xr17032_handle_syscall` for `rt_sigreturn`, before it goes back to user mode. -/
def syscallRtSigreturn (p : Process M) : Process M :=
  let regs := { p.regs with origA3 := p.regs.gpr a3 }.set a3 enosys
  let (p, ret) := { p with regs }.rtSigreturn um
  { p with regs := p.regs.set a3 ret }

end Process

end XrLinux.Linux
