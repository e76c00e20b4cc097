import Mathlib.Logic.Relation
import XrLinux.Linux.Switch

/-!
# Linux — tasks that are made, switched and run for the first time

`copy_thread` of `kernel/process.c`, `ret_from_fork_kernel_asm` and `ret_from_fork_user_asm` of
`kernel/head.S`, and runs of one processor in which tasks are made and switched in any order.

`ret_from_fork_kernel_asm` puts the address of `struct pt_regs` into `s2`, where its third argument
should be in `a2`. What `ret_from_fork_kernel` gets is whatever `schedule_tail` has left there.
-/

namespace XrLinux.Linux

open Machine

/-- `THREAD_SIZE`. -/
def threadSize : Word := 4096

/-- `task_pt_regs`, by the pages that the stacks of the tasks are in. -/
def taskPtRegs (stack : Word → Word) (task : Word) : Word :=
  stack task + threadSize - ptSizeOnStack

/-- `CLONE_SETTLS`. -/
def cloneSettls : Word := 0x00080000

/-- `struct kernel_clone_args`. -/
structure CloneArgs where
  flags : Word
  stack : Word
  tls : Word
  fn : Word
  fnArg : Word
  deriving DecidableEq

/-- Where the assembly for new tasks is. -/
structure ForkCode where
  kernelAsm : Word
  userAsm : Word
  deriving DecidableEq

/-- Where a new kernel thread starts. -/
def newKernelThread (code : ForkCode) (childregs fn fnArg : Word) : ThreadStruct
  | .s i => if i = 1 then fn else if i = 2 then fnArg else 0
  | .sp => childregs
  | .lr => code.kernelAsm

/-- Where a new user task starts. -/
def newUserThread (code : ForkCode) (childregs : Word) : ThreadStruct
  | .s _ => 0
  | .sp => childregs
  | .lr => code.userAsm

/-- `struct pt_regs` of a new kernel thread. -/
def kernelRegs : PtRegs := ⟨0, fun _ => 0, rsOldM ||| rsOldI ||| rsM, 0⟩

/-- Writing a register if there is something to write. -/
def PtRegs.setIf (regs : PtRegs) (asked : Bool) (r : Reg) (value : Word) : PtRegs :=
  if asked then regs.set r value else regs

/-- What `copy_thread` makes of the registers of the parent. -/
def childRegs (parent : PtRegs) (args : CloneArgs) : PtRegs :=
  ((parent.setIf (args.stack != 0) sp args.stack).setIf
    (args.flags &&& cloneSettls != 0) tp args.tls).set a3 0

/-- `copy_thread`. `current` is in `tp`. -/
def copyThread (code : ForkCode) (stack : Word → Word) (k : Kernel) (p : Word)
    (args : CloneArgs) : Kernel :=
  let childregs := taskPtRegs stack p
  if args.fn ≠ 0 then
    { k with
      thread := Function.update k.thread p (newKernelThread code childregs args.fn args.fnArg)
      pt := Function.update k.pt childregs kernelRegs }
  else
    { k with
      thread := Function.update k.thread p (newUserThread code childregs)
      pt := Function.update k.pt childregs
        (childRegs (k.pt (taskPtRegs stack (k.regs.get tp))) args) }

/-! ## The first run -/

/-- What a call of a C function keeps, if it does not change the registers that are on the stack. -/
structure CCall (k k' : Kernel) : Prop where
  s_eq : ∀ i, k'.regs.get (sReg i) = k.regs.get (sReg i)
  sp_eq : k'.regs.get sp = k.regs.get sp
  tp_eq : k'.regs.get tp = k.regs.get tp
  scratch2_eq : k'.scratch2 = k.scratch2
  pt_eq : k'.pt (k.regs.get sp) = k.pt (k.regs.get sp)

/-- A C function, as the assembly sees it. -/
structure CFunction where
  run : Kernel → Kernel
  keeps : ∀ k, CCall k (run k)

/-- `ret_from_fork_kernel_asm` between its two calls. -/
def retFromForkKernelAsm (scheduleTail : CFunction) (k : Kernel) : Kernel :=
  (scheduleTail.run k).execAll [.add a0 (sReg 2) zero, .add a1 (sReg 1) zero, .add (sReg 2) sp zero]

/-- What `ret_from_fork_kernel` calls. -/
inductive KernelCall where
  | fn (addr arg : Word)
  | syscallExitToUserMode (regs : Word)
  deriving DecidableEq

/-- `ret_from_fork_kernel`, whose function may return or not. -/
def retFromForkKernel (fnArg fn regs : Word) (returns : Bool) : List KernelCall :=
  .fn fn fnArg :: if returns then [.syscallExitToUserMode regs] else []

/-- `ret_from_fork_kernel`, called with what is in the registers. -/
def firstKernelCalls (scheduleTail : CFunction) (k : Kernel) (returns : Bool) : List KernelCall :=
  let k := retFromForkKernelAsm scheduleTail k
  retFromForkKernel (k.regs.get a0) (k.regs.get a1) (k.regs.get a2) returns

/-- `ret_from_fork_user_asm` between its two calls. -/
def retFromForkUserAsm (scheduleTail : CFunction) (k : Kernel) : Kernel :=
  (scheduleTail.run k).execAll [.add a0 sp zero]

/-- All of `ret_from_fork_user_asm`. -/
def firstUserReturn (scheduleTail retFromForkUser : CFunction) (k : Kernel) : Kernel :=
  returnFromTrap (retFromForkUser.run (retFromForkUserAsm scheduleTail k))

/-! ## Runs -/

/-- How a task that can be switched to has been left. -/
inductive Origin where
  | suspended (context : ThreadStruct)
  | forkedUser (parent : PtRegs) (args : CloneArgs)
  | forkedKernel (fn arg : Word)

/-- The task has not run yet. -/
def Origin.isNew : Origin → Bool
  | .suspended _ => false
  | .forkedUser _ _ | .forkedKernel _ _ => true

structure System where
  kernel : Kernel
  current : Word
  /-- The page of the stack of each task. -/
  stack : Word → Word
  /-- Ghost: how the tasks that wait have been left. -/
  origin : Word → Option Origin

namespace System

def ptRegs (σ : System) (task : Word) : Word := taskPtRegs σ.stack task

def Live (σ : System) (task : Word) : Prop := task = σ.current ∨ σ.origin task ≠ none

/-- What the caller of `copy_thread` has asked for. -/
def newOrigin (σ : System) (args : CloneArgs) : Origin :=
  if args.fn ≠ 0 then .forkedKernel args.fn args.fnArg
  else .forkedUser (σ.kernel.pt (σ.ptRegs σ.current)) args

/-- `copy_thread` for a task with a new stack. -/
def copyThread (σ : System) (code : ForkCode) (p : Word) (args : CloneArgs) (page : Word) :
    System where
  kernel := Linux.copyThread code (Function.update σ.stack p page) σ.kernel p args
  current := σ.current
  stack := Function.update σ.stack p page
  origin := Function.update σ.origin p (some (σ.newOrigin args))

def reap (σ : System) (p : Word) : System :=
  { σ with origin := Function.update σ.origin p none }

/-- `__switch_to`, after which the old task waits. -/
def switchTo (σ : System) (next : Word) : System where
  kernel := Linux.switchTo σ.kernel
  current := next
  stack := σ.stack
  origin := Function.update (Function.update σ.origin next none) σ.current
    (some (.suspended σ.kernel.context))

end System

inductive Event where
  /-- The current task runs, in user mode and in the kernel. -/
  | work
  /-- A task is made, with a new stack. -/
  | copyThread (p : Word) (args : CloneArgs) (page : Word)
  /-- A task that has ended is done away with. -/
  | reap (p : Word)
  | switchTo (next : Word)
  deriving DecidableEq

inductive Step (code : ForkCode) : System → Event → System → Prop where
  /-- The context of a task that waits is its own, and so are its registers until it has run. -/
  | work {σ : System} (k : Kernel) (htp : k.regs.get tp = σ.current)
      (hscratch2 : k.scratch2 = σ.current)
      (hthread : ∀ t, σ.origin t ≠ none → k.thread t = σ.kernel.thread t)
      (hpt : ∀ t o, σ.origin t = some o → o.isNew → k.pt (σ.ptRegs t) = σ.kernel.pt (σ.ptRegs t)) :
      Step code σ .work { σ with kernel := k }
  | copyThread {σ : System} (p : Word) (args : CloneArgs) (page : Word) (hnew : ¬ σ.Live p)
      (hpage : ∀ t, σ.Live t → page ≠ σ.stack t) :
      Step code σ (.copyThread p args page) (σ.copyThread code p args page)
  | reap {σ : System} (p : Word) : Step code σ (.reap p) (σ.reap p)
  /-- `__switch_to (current, next)`. -/
  | switchTo {σ : System} (next : Word) (hnext : σ.origin next ≠ none)
      (ha0 : σ.kernel.regs.get a0 = σ.current) (ha1 : σ.kernel.regs.get a1 = next) :
      Step code σ (.switchTo next) (σ.switchTo next)

/-- A step, whatever it is. -/
def AnyStep (code : ForkCode) (σ σ' : System) : Prop := ∃ event, Step code σ event σ'

/-- After boot there is one task. -/
structure Initial (σ : System) : Prop where
  tp_eq : σ.kernel.regs.get tp = σ.current
  scratch2_eq : σ.kernel.scratch2 = σ.current
  origin_eq : ∀ t, σ.origin t = none

/-! ## What holds in every state that is reached -/

/-- The memory of a task that waits is as it was left. -/
def Left (code : ForkCode) (σ : System) (t : Word) : Origin → Prop
  | .suspended context => σ.kernel.thread t = context
  | .forkedUser parent args =>
    σ.kernel.thread t = newUserThread code (σ.ptRegs t) ∧
      σ.kernel.pt (σ.ptRegs t) = childRegs parent args
  | .forkedKernel fn arg => σ.kernel.thread t = newKernelThread code (σ.ptRegs t) fn arg

structure Inv (code : ForkCode) (σ : System) : Prop where
  tp_eq : σ.kernel.regs.get tp = σ.current
  scratch2_eq : σ.kernel.scratch2 = σ.current
  current_eq : σ.origin σ.current = none
  left : ∀ t o, σ.origin t = some o → Left code σ t o
  /-- No two tasks have the same stack. -/
  stack_inj : ∀ t u, σ.Live t → σ.Live u → σ.stack t = σ.stack u → t = u

theorem Initial.inv {code : ForkCode} {σ : System} (h : Initial σ) : Inv code σ where
  tp_eq := h.tp_eq
  scratch2_eq := h.scratch2_eq
  current_eq := h.origin_eq _
  left t o ho := by
    rw [h.origin_eq] at ho
    cases ho
  stack_inj t u ht hu _ :=
    (ht.resolve_right fun hne => hne (h.origin_eq t)).trans
      (hu.resolve_right fun hne => hne (h.origin_eq u)).symm

theorem taskPtRegs_inj {stack : Word → Word} {t u : Word}
    (h : taskPtRegs stack t = taskPtRegs stack u) : stack t = stack u := by
  rw [taskPtRegs, taskPtRegs, sub_left_inj, add_left_inj] at h
  exact h

/-- What is known of a waiting task depends on its own memory only. -/
theorem Left.congr {code : ForkCode} {σ σ' : System} {t : Word} {o : Origin}
    (hthread : σ'.kernel.thread t = σ.kernel.thread t) (hptRegs : σ'.ptRegs t = σ.ptRegs t)
    (hpt : o.isNew → σ'.kernel.pt (σ.ptRegs t) = σ.kernel.pt (σ.ptRegs t))
    (h : Left code σ t o) : Left code σ' t o := by
  cases o with
  | suspended context => exact hthread.trans h
  | forkedUser parent args =>
    refine ⟨?_, ?_⟩
    · rw [hthread, hptRegs]
      exact h.1
    · rw [hptRegs, hpt rfl]
      exact h.2
  | forkedKernel fn arg =>
    show σ'.kernel.thread t = _
    rw [hthread, hptRegs]
    exact h

theorem copyThread_user (code : ForkCode) (stack : Word → Word) (k : Kernel) (p : Word)
    {args : CloneArgs} (h : args.fn = 0) :
    copyThread code stack k p args =
      { k with
        thread := Function.update k.thread p (newUserThread code (taskPtRegs stack p))
        pt := Function.update k.pt (taskPtRegs stack p)
          (childRegs (k.pt (taskPtRegs stack (k.regs.get tp))) args) } := if_neg (not_not.mpr h)

theorem copyThread_kernel (code : ForkCode) (stack : Word → Word) (k : Kernel) (p : Word)
    {args : CloneArgs} (h : args.fn ≠ 0) :
    copyThread code stack k p args =
      { k with
        thread := Function.update k.thread p
          (newKernelThread code (taskPtRegs stack p) args.fn args.fnArg)
        pt := Function.update k.pt (taskPtRegs stack p) kernelRegs } := if_pos h

section
variable (code : ForkCode) (stack : Word → Word) (k : Kernel) {p : Word} (args : CloneArgs)

theorem copyThread_thread {t : Word} (h : t ≠ p) :
    (copyThread code stack k p args).thread t = k.thread t := by
  by_cases hfn : args.fn = 0
  · rw [copyThread_user code stack k p hfn]
    exact Function.update_of_ne h _ _
  · rw [copyThread_kernel code stack k p hfn]
    exact Function.update_of_ne h _ _

theorem copyThread_pt {addr : Word} (h : addr ≠ taskPtRegs stack p) :
    (copyThread code stack k p args).pt addr = k.pt addr := by
  by_cases hfn : args.fn = 0
  · rw [copyThread_user code stack k p hfn]
    dsimp only
    rw [Function.update_of_ne h]
  · rw [copyThread_kernel code stack k p hfn]
    dsimp only
    rw [Function.update_of_ne h]

theorem copyThread_regs : (copyThread code stack k p args).regs = k.regs := by
  by_cases hfn : args.fn = 0
  · rw [copyThread_user code stack k p hfn]
  · rw [copyThread_kernel code stack k p hfn]

theorem copyThread_scratch2 : (copyThread code stack k p args).scratch2 = k.scratch2 := by
  by_cases hfn : args.fn = 0
  · rw [copyThread_user code stack k p hfn]
  · rw [copyThread_kernel code stack k p hfn]

end

section
variable {code : ForkCode} {σ : System} {p page : Word} {args : CloneArgs}

/-- The stack of a task that was there before is not the new one. -/
theorem ptRegs_ne {t : Word} (ht : σ.Live t) (hp : t ≠ p)
    (hpage : ∀ t, σ.Live t → page ≠ σ.stack t) :
    σ.ptRegs t ≠ taskPtRegs (Function.update σ.stack p page) p := by
  have hstack : Function.update σ.stack p page t = σ.stack t := Function.update_of_ne hp _ _
  intro heq
  have hsame : σ.stack t = Function.update σ.stack p page p := by
    rw [← hstack]
    apply taskPtRegs_inj
    rw [← heq, System.ptRegs, taskPtRegs, taskPtRegs, hstack]
  rw [Function.update_self] at hsame
  exact hpage t ht hsame.symm

theorem ptRegs_copyThread {t : Word} (hp : t ≠ p) :
    (σ.copyThread code p args page).ptRegs t = σ.ptRegs t := by
  have hstack : (σ.copyThread code p args page).stack t = σ.stack t := Function.update_of_ne hp _ _
  rw [System.ptRegs, taskPtRegs, hstack]
  rfl

theorem origin_copyThread :
    (σ.copyThread code p args page).origin p = some (σ.newOrigin args) := by
  rw [System.copyThread]
  dsimp only
  rw [Function.update_self]

/-- What `copy_thread` leaves for the new task. -/
theorem left_copyThread (h : Inv code σ) (hnew : ¬ σ.Live p) :
    Left code (σ.copyThread code p args page) p (σ.newOrigin args) := by
  -- The current task has another stack.
  have hcurrent : σ.current ≠ p := fun heq => hnew (.inl heq.symm)
  have hparent : taskPtRegs (Function.update σ.stack p page) (σ.kernel.regs.get tp) =
      σ.ptRegs σ.current := by
    rw [h.tp_eq, System.ptRegs, taskPtRegs, taskPtRegs, Function.update_of_ne hcurrent]
  have hkernel : (σ.copyThread code p args page).kernel =
      copyThread code (Function.update σ.stack p page) σ.kernel p args := rfl
  have hptRegs : (σ.copyThread code p args page).ptRegs p =
      taskPtRegs (Function.update σ.stack p page) p := rfl
  by_cases hfn : args.fn = 0
  · rw [System.newOrigin, if_neg (not_not.mpr hfn), Left, hkernel, hptRegs,
      copyThread_user _ _ _ _ hfn, hparent]
    dsimp only
    rw [Function.update_self, Function.update_self]
    exact ⟨rfl, rfl⟩
  · rw [System.newOrigin, if_pos hfn, Left, hkernel, hptRegs, copyThread_kernel _ _ _ _ hfn]
    dsimp only
    rw [Function.update_self]

theorem inv_copyThread (h : Inv code σ) (hnew : ¬ σ.Live p)
    (hpage : ∀ t, σ.Live t → page ≠ σ.stack t) : Inv code (σ.copyThread code p args page) := by
  have hcurrent : σ.current ≠ p := fun heq => hnew (.inl heq.symm)
  have horigin : ∀ t, t ≠ p → (σ.copyThread code p args page).origin t = σ.origin t :=
    fun t ht => Function.update_of_ne ht _ _
  have hstack : ∀ t, t ≠ p → (σ.copyThread code p args page).stack t = σ.stack t :=
    fun t ht => Function.update_of_ne ht _ _
  have hpageEq : (σ.copyThread code p args page).stack p = page := Function.update_self _ _ _
  have hlive : ∀ t, t ≠ p → (σ.copyThread code p args page).Live t → σ.Live t := by
    intro t hp ht
    unfold System.Live at ht
    rwa [horigin t hp] at ht
  exact
    { tp_eq := (congrArg (RegFile.get · tp) (copyThread_regs code _ _ args)).trans h.tp_eq
      scratch2_eq := (copyThread_scratch2 code _ _ args).trans h.scratch2_eq
      current_eq := (horigin σ.current hcurrent).trans h.current_eq
      left := by
        intro t o ho
        by_cases hp : t = p
        · subst hp
          obtain rfl := Option.some.inj (origin_copyThread.symm.trans ho)
          exact left_copyThread h hnew
        · rw [horigin t hp] at ho
          have ht : σ.Live t := .inr (by rw [ho]; exact Option.some_ne_none o)
          exact (h.left t o ho).congr (copyThread_thread code _ _ args hp) (ptRegs_copyThread hp)
            fun _ => copyThread_pt code _ _ args (ptRegs_ne ht hp hpage)
      stack_inj := by
        intro t u ht hu heq
        by_cases htp : t = p
        · by_cases hup : u = p
          · exact htp.trans hup.symm
          · rw [htp, hpageEq, hstack u hup] at heq
            exact absurd heq (hpage u (hlive u hup hu))
        · by_cases hup : u = p
          · rw [hup, hpageEq, hstack t htp] at heq
            exact absurd heq.symm (hpage t (hlive t htp ht))
          · rw [hstack t htp, hstack u hup] at heq
            exact h.stack_inj t u (hlive t htp ht) (hlive u hup hu) heq }

theorem inv_reap (h : Inv code σ) : Inv code (σ.reap p) := by
  have horigin : ∀ t o, (σ.reap p).origin t = some o → σ.origin t = some o := by
    intro t o ho
    by_cases hp : t = p
    · have hnone : (σ.reap p).origin p = none := Function.update_self _ _ _
      rw [hp, hnone] at ho
      cases ho
    · exact (Function.update_of_ne hp _ _).symm.trans ho
  have hlive : ∀ t, (σ.reap p).Live t → σ.Live t := by
    intro t ht
    refine ht.imp_right fun hne => ?_
    obtain ⟨o, ho⟩ := Option.ne_none_iff_exists'.mp hne
    rw [horigin t o ho]
    exact Option.some_ne_none o
  exact
    { tp_eq := h.tp_eq
      scratch2_eq := h.scratch2_eq
      current_eq := by
        refine Option.eq_none_iff_forall_ne_some.mpr fun o ho => ?_
        have hnone : σ.origin σ.current = some o := horigin _ o ho
        rw [h.current_eq] at hnone
        cases hnone
      left := fun t o ho => (h.left t o (horigin t o ho)).congr rfl rfl fun _ => rfl
      stack_inj := fun t u ht hu => h.stack_inj t u (hlive t ht) (hlive u hu) }

theorem inv_switchTo {next : Word} (h : Inv code σ) (hnext : σ.origin next ≠ none)
    (ha0 : σ.kernel.regs.get a0 = σ.current) (ha1 : σ.kernel.regs.get a1 = next) :
    Inv code (σ.switchTo next) := by
  have hswitched := switchTo_switched σ.kernel
  have hsaved := hswitched.saved
  rw [ha0] at hsaved
  have hne : next ≠ σ.current := by
    intro heq
    rw [heq] at hnext
    exact hnext h.current_eq
  have hself : (σ.switchTo next).origin σ.current = some (.suspended σ.kernel.context) :=
    Function.update_self _ _ _
  have hnone : (σ.switchTo next).origin next = none :=
    (Function.update_of_ne hne _ _).trans (Function.update_self _ _ _)
  have hother : ∀ t, t ≠ σ.current → t ≠ next → (σ.switchTo next).origin t = σ.origin t :=
    fun t hcurrent hnext => (Function.update_of_ne hcurrent _ _).trans (Function.update_of_ne hnext _ _)
  have hlive : ∀ t, (σ.switchTo next).Live t → σ.Live t := by
    intro t ht
    by_cases hcurrent : t = σ.current
    · exact .inl hcurrent
    · by_cases ht' : t = next
      · exact .inr (ht' ▸ hnext)
      · have horigin := ht.resolve_left ht'
        rw [hother t hcurrent ht'] at horigin
        exact .inr horigin
  exact
    { tp_eq := hswitched.tp_eq.trans ha1
      scratch2_eq := hswitched.scratch2_eq.trans ha1
      current_eq := hnone
      left := by
        intro t o ho
        by_cases hcurrent : t = σ.current
        · subst hcurrent
          obtain rfl := Option.some.inj (hself.symm.trans ho)
          exact (congrFun hsaved σ.current).trans (Function.update_self _ _ _)
        · have ht' : t ≠ next := by
            intro heq
            rw [heq, hnone] at ho
            cases ho
          rw [hother t hcurrent ht'] at ho
          exact (h.left t o ho).congr ((congrFun hsaved t).trans (Function.update_of_ne hcurrent _ _))
            rfl fun _ => congrFun hswitched.pt_eq _
      stack_inj := fun t u ht hu => h.stack_inj t u (hlive t ht) (hlive u hu) }

theorem inv_step {σ' : System} {event : Event} (h : Inv code σ) (hstep : Step code σ event σ') :
    Inv code σ' := by
  cases hstep with
  | work k htp hscratch2 hthread hpt =>
    exact
      { tp_eq := htp
        scratch2_eq := hscratch2
        current_eq := h.current_eq
        left := fun t o ho =>
          (h.left t o ho).congr (hthread t (by rw [ho]; exact Option.some_ne_none o)) rfl (hpt t o ho)
        stack_inj := h.stack_inj }
  | copyThread p args page hnew hpage => exact inv_copyThread h hnew hpage
  | reap p => exact inv_reap h
  | switchTo next hnext ha0 ha1 => exact inv_switchTo h hnext ha0 ha1

/-- What every step keeps holds in every state that is reached. -/
theorem inv_of_run {σ₀ : System} (h : Initial σ₀)
    (hrun : Relation.ReflTransGen (AnyStep code) σ₀ σ) : Inv code σ := by
  induction hrun with
  | refl => exact h.inv
  | tail _ hstep ih =>
    obtain ⟨_, hstep⟩ := hstep
    exact inv_step ih hstep

end

/-! ## What a switch leads to -/

/-- A child is in user mode where its parent was, with the registers of the parent but for the ones
that the parent has chosen and the result of the call. -/
structure ForkReturned (k : Kernel) (parent : PtRegs) (args : CloneArgs) : Prop where
  pc_eq : k.epc = parent.pc
  rs_eq : k.rs = parent.rs
  a3_eq : k.regs.get a3 = 0
  sp_eq : k.regs.get sp = if args.stack != 0 then args.stack else parent.gpr sp
  tp_eq : k.regs.get tp = if args.flags &&& cloneSettls != 0 then args.tls else parent.gpr tp
  gpr_eq : ∀ r, r ≠ zero → r ≠ a3 → r ≠ sp → r ≠ tp → k.regs.get r = parent.gpr r

/-- The task goes on as it was left. -/
def Resumed (code : ForkCode) (scheduleTail retFromForkUser : CFunction) (next : Word)
    (σ : System) : Origin → Prop
  | .suspended context => σ.kernel.context = context
  | .forkedUser parent args =>
    σ.kernel.regs.get lr = code.userAsm ∧
      (retFromForkUserAsm scheduleTail σ.kernel).regs.get a0 = σ.ptRegs next ∧
      ForkReturned (firstUserReturn scheduleTail retFromForkUser σ.kernel) parent args
  | .forkedKernel fn arg =>
    σ.kernel.regs.get lr = code.kernelAsm ∧
      ∀ returns, firstKernelCalls scheduleTail σ.kernel returns =
        retFromForkKernel arg fn (σ.ptRegs next) returns

/-- A switch from a state to the next. -/
structure SwitchCorrect (code : ForkCode) (scheduleTail retFromForkUser : CFunction)
    (next : Word) (σ σ' : System) : Prop where
  tp_eq : σ'.kernel.regs.get tp = next
  scratch2_eq : σ'.kernel.scratch2 = next
  resumed : ∀ o, σ.origin next = some o →
    Resumed code scheduleTail retFromForkUser next σ' o

section
variable (regs : PtRegs) (asked : Bool) (value : Word) {r q : Reg}

theorem PtRegs.setIf_pc : (regs.setIf asked r value).pc = regs.pc := by
  unfold PtRegs.setIf
  split <;> rfl

theorem PtRegs.setIf_rs : (regs.setIf asked r value).rs = regs.rs := by
  unfold PtRegs.setIf
  split <;> rfl

theorem PtRegs.setIf_gpr_self :
    (regs.setIf asked r value).gpr r = if asked then value else regs.gpr r := by
  unfold PtRegs.setIf
  split
  · exact regs.set_gpr_self r value
  · rfl

theorem PtRegs.setIf_gpr_of_ne (h : q ≠ r) : (regs.setIf asked r value).gpr q = regs.gpr q := by
  unfold PtRegs.setIf
  split
  · exact regs.set_gpr_of_ne value h
  · rfl

end

section
variable (parent : PtRegs) (args : CloneArgs)

theorem childRegs_pc : (childRegs parent args).pc = parent.pc := by
  rw [childRegs, PtRegs.set_pc, PtRegs.setIf_pc, PtRegs.setIf_pc]

theorem childRegs_rs : (childRegs parent args).rs = parent.rs := by
  rw [childRegs, PtRegs.set_rs, PtRegs.setIf_rs, PtRegs.setIf_rs]

theorem childRegs_a3 : (childRegs parent args).gpr a3 = 0 := PtRegs.set_gpr_self _ _ _

theorem childRegs_tp : (childRegs parent args).gpr tp =
    if args.flags &&& cloneSettls != 0 then args.tls else parent.gpr tp := by
  rw [childRegs, PtRegs.set_gpr_of_ne _ _ (by decide), PtRegs.setIf_gpr_self,
    PtRegs.setIf_gpr_of_ne _ _ _ (by decide)]

theorem childRegs_sp : (childRegs parent args).gpr sp =
    if args.stack != 0 then args.stack else parent.gpr sp := by
  rw [childRegs, PtRegs.set_gpr_of_ne _ _ (by decide), PtRegs.setIf_gpr_of_ne _ _ _ (by decide),
    PtRegs.setIf_gpr_self]

theorem childRegs_gpr {r : Reg} (ha3 : r ≠ a3) (hsp : r ≠ sp) (htp : r ≠ tp) :
    (childRegs parent args).gpr r = parent.gpr r := by
  rw [childRegs, PtRegs.set_gpr_of_ne _ _ ha3, PtRegs.setIf_gpr_of_ne _ _ _ htp,
    PtRegs.setIf_gpr_of_ne _ _ _ hsp]

end

theorem Returned.forkReturned {k k' : Kernel} {parent : PtRegs} {args : CloneArgs}
    (h : Returned k k' (childRegs parent args)) : ForkReturned k' parent args where
  pc_eq := h.epc_eq.trans (childRegs_pc parent args)
  rs_eq := h.rs_eq.trans (childRegs_rs parent args)
  a3_eq := (h.gpr_eq a3 (by decide)).trans (childRegs_a3 parent args)
  sp_eq := (h.gpr_eq sp (by decide)).trans (childRegs_sp parent args)
  tp_eq := (h.gpr_eq tp (by decide)).trans (childRegs_tp parent args)
  gpr_eq r hzero ha3 hsp htp := (h.gpr_eq r hzero).trans (childRegs_gpr parent args ha3 hsp htp)

section
variable (scheduleTail retFromForkUser : CFunction) (k : Kernel)

theorem retFromForkUserAsm_a0 :
    (retFromForkUserAsm scheduleTail k).regs.get a0 = k.regs.get sp := by
  show ((scheduleTail.run k).regs.set a0 (_ + RegFile.get _ zero)).get a0 = _
  rw [RegFile.get_set_self (by decide), RegFile.get_zero, add_zero]
  exact (scheduleTail.keeps k).sp_eq

/-- The registers on the stack of the new task are the ones that it returns with. -/
theorem firstUserReturn_returned :
    ∃ k', Returned k' (firstUserReturn scheduleTail retFromForkUser k) (k.pt (k.regs.get sp)) := by
  let k₁ := retFromForkUserAsm scheduleTail k
  have htail := scheduleTail.keeps k
  have hsp₁ : k₁.regs.get sp = k.regs.get sp := (RegFile.get_set_of_ne (by decide)).trans htail.sp_eq
  have hpt₁ : k₁.pt (k.regs.get sp) = k.pt (k.regs.get sp) := htail.pt_eq
  have hexit := retFromForkUser.keeps k₁
  have hpt := hexit.pt_eq
  rw [hsp₁, hpt₁] at hpt
  have hreturned := returnFromTrap_returned (retFromForkUser.run k₁)
  rw [hexit.sp_eq, hsp₁, hpt] at hreturned
  exact ⟨_, hreturned⟩

/-- The function and its argument come from `s1` and `s2`; the third argument is not set. -/
theorem firstKernelCalls_eq (returns : Bool) :
    firstKernelCalls scheduleTail k returns =
      retFromForkKernel (k.regs.get (sReg 2)) (k.regs.get (sReg 1))
        ((scheduleTail.run k).regs.get a2) returns := by
  let k₁ := scheduleTail.run k
  have htail := scheduleTail.keeps k
  let k₂ := retFromForkKernelAsm scheduleTail k
  let regs := k₁.regs.set a0 (k₁.regs.get (sReg 2) + k₁.regs.get zero)
  let regs' := regs.set a1 (regs.get (sReg 1) + regs.get zero)
  have hregs : k₂.regs = regs'.set (sReg 2) (regs'.get sp + regs'.get zero) := rfl
  have ha0 : k₂.regs.get a0 = k₁.regs.get (sReg 2) := by
    rw [hregs, RegFile.get_set_of_ne (by decide), RegFile.get_set_of_ne (by decide),
      RegFile.get_set_self (by decide), RegFile.get_zero, add_zero]
  have ha1 : k₂.regs.get a1 = k₁.regs.get (sReg 1) := by
    rw [hregs, RegFile.get_set_of_ne (by decide), RegFile.get_set_self (by decide),
      RegFile.get_zero, add_zero]
    exact RegFile.get_set_of_ne (by decide)
  have ha2 : k₂.regs.get a2 = k₁.regs.get a2 := by
    rw [hregs, RegFile.get_set_of_ne (by decide), RegFile.get_set_of_ne (by decide)]
    exact RegFile.get_set_of_ne (by decide)
  show retFromForkKernel (k₂.regs.get a0) (k₂.regs.get a1) (k₂.regs.get a2) returns = _
  rw [ha0, ha1, ha2, htail.s_eq, htail.s_eq]

end

theorem retFromForkKernel_inj {fnArg fn regs regs' : Word} :
    (∀ returns, retFromForkKernel fnArg fn regs returns = retFromForkKernel fnArg fn regs' returns) ↔
      regs = regs' := by
  constructor
  · intro h
    have hcalls := List.cons.inj (List.cons.inj (h true)).2
    exact KernelCall.syscallExitToUserMode.inj hcalls.1
  · intro h returns
    rw [h]

/-- The task is a kernel thread that has not run. -/
def Origin.isKernelThread : Origin → Bool
  | .forkedKernel _ _ => true
  | _ => false

/-- What a task sees that is switched to. -/
theorem resumed_iff {code : ForkCode} (scheduleTail retFromForkUser : CFunction) {next : Word}
    {σ σ' : System} {o : Origin} (hcontext : σ'.kernel.context = σ.kernel.thread next)
    (hpt : σ'.kernel.pt = σ.kernel.pt) (hstack : σ'.ptRegs next = σ.ptRegs next)
    (h : Left code σ next o) :
    Resumed code scheduleTail retFromForkUser next σ' o ↔
      (o.isKernelThread → (scheduleTail.run σ'.kernel).regs.get a2 = σ'.ptRegs next) := by
  cases o with
  | suspended context =>
    exact iff_of_true (hcontext.trans h) fun hkernel => by cases hkernel
  | forkedUser parent args =>
    refine iff_of_true ?_ fun hkernel => by cases hkernel
    have hslot := fun slot => congrFun (hcontext.trans h.1) slot
    have hsp : σ'.kernel.regs.get sp = σ.ptRegs next := hslot .sp
    obtain ⟨k', hreturned⟩ := firstUserReturn_returned scheduleTail retFromForkUser σ'.kernel
    rw [hsp, hpt, h.2] at hreturned
    refine ⟨hslot .lr, ?_, hreturned.forkReturned⟩
    rw [retFromForkUserAsm_a0, hsp, hstack]
  | forkedKernel fn arg =>
    have hslot := fun slot => congrFun (hcontext.trans h) slot
    have hfn : σ'.kernel.regs.get (sReg 1) = fn := hslot (.s 1)
    have harg : σ'.kernel.regs.get (sReg 2) = arg := hslot (.s 2)
    have hlr : σ'.kernel.regs.get lr = code.kernelAsm := hslot .lr
    rw [Resumed, and_iff_right hlr]
    simp only [firstKernelCalls_eq, hfn, harg]
    rw [retFromForkKernel_inj]
    exact ⟨fun heq _ => heq, fun himp => himp rfl⟩

/-- The next task is a kernel thread that runs for the first time. -/
def StartsKernelThread (σ : System) (next : Word) : Prop :=
  ∃ fn arg, σ.origin next = some (.forkedKernel fn arg)

theorem switch_correct_iff (code : ForkCode) (scheduleTail retFromForkUser : CFunction)
    {σ₀ σ σ' : System} {next : Word} (hinit : Initial σ₀)
    (hrun : Relation.ReflTransGen (AnyStep code) σ₀ σ)
    (hstep : Step code σ (.switchTo next) σ') :
    SwitchCorrect code scheduleTail retFromForkUser next σ σ' ↔
      (StartsKernelThread σ next →
        (scheduleTail.run σ'.kernel).regs.get a2 = σ'.ptRegs next) := by
  have hinv := inv_of_run hinit hrun
  cases hstep with
  | switchTo next hnext ha0 ha1 =>
    obtain ⟨o, ho⟩ := Option.ne_none_iff_exists'.mp hnext
    have hswitched := switchTo_switched σ.kernel
    have hne : next ≠ σ.current := by
      intro heq
      rw [heq, hinv.current_eq] at ho
      cases ho
    -- The slots of the next task are not those that have just been saved.
    have hcontext : (σ.switchTo next).kernel.context = σ.kernel.thread next := by
      have hrestored := hswitched.restored
      rw [ha1, hswitched.saved, ha0, Function.update_of_ne hne] at hrestored
      exact hrestored
    have hpt : (σ.switchTo next).kernel.pt = σ.kernel.pt := hswitched.pt_eq
    have hresumed := resumed_iff scheduleTail retFromForkUser hcontext hpt rfl (hinv.left next o ho)
    constructor
    · intro h hstarts
      obtain ⟨fn, arg, hkernel⟩ := hstarts
      rw [hkernel] at ho
      obtain rfl := Option.some.inj ho
      exact hresumed.mp (h.resumed _ hkernel) rfl
    · intro h
      refine ⟨hswitched.tp_eq.trans ha1, hswitched.scratch2_eq.trans ha1, fun o' ho' => ?_⟩
      obtain rfl := Option.some.inj (ho.symm.trans ho')
      apply hresumed.mpr
      intro hkernel
      apply h
      cases o with
      | forkedKernel fn arg => exact ⟨fn, arg, ho⟩
      | suspended context => cases hkernel
      | forkedUser parent args => cases hkernel

/-! ## A run -/

/-- A function that does nothing. -/
def emptyFunction : CFunction where
  run := id
  keeps _ := ⟨fun _ => rfl, rfl, rfl, rfl, rfl⟩

/-- Task 1, which is about to switch to task 2. -/
def bootSystem : System where
  kernel :=
    { regs := ⟨fun r => if r = a1 then 2 else if r = a0 ∨ r = tp then 1 else 0⟩
      scratch1 := 0
      scratch2 := 1
      rs := rsM
      epc := 0
      thread := fun _ _ => 0
      pt := fun _ => kernelRegs }
  current := 1
  stack := fun _ => 0x10000
  origin := fun _ => none

def bootCode : ForkCode := ⟨0x1000, 0x2000⟩

/-- The arguments of `kernel_thread` and of `fork`. -/
def kernelArgs : CloneArgs := ⟨0, 0, 0, 0x3000, 42⟩

def userArgs : CloneArgs := ⟨0, 0, 0, 0, 0⟩

theorem bootSystem_initial : Initial bootSystem := ⟨rfl, rfl, fun _ => rfl⟩

theorem bootSystem_forks (args : CloneArgs) :
    Step bootCode bootSystem (.copyThread 2 args 0x20000)
      (bootSystem.copyThread bootCode 2 args 0x20000) := by
  apply Step.copyThread
  · intro hlive
    rcases hlive with h | h
    · exact absurd h (by decide)
    · exact h rfl
  · intro t _
    show (0x20000 : Word) ≠ 0x10000
    decide

/-- The system when task 2 has been made. -/
def forkedSystem (args : CloneArgs) : System := bootSystem.copyThread bootCode 2 args 0x20000

theorem forkedSystem_regs (args : CloneArgs) :
    (forkedSystem args).kernel.regs = bootSystem.kernel.regs := copyThread_regs _ _ _ _

theorem forkedSystem_origin (args : CloneArgs) :
    (forkedSystem args).origin 2 = some (bootSystem.newOrigin args) := origin_copyThread

theorem forkedSystem_switches (args : CloneArgs) :
    Step bootCode (forkedSystem args) (.switchTo 2) ((forkedSystem args).switchTo 2) := by
  apply Step.switchTo
  · rw [forkedSystem_origin]
    exact Option.some_ne_none _
  · rw [forkedSystem_regs]
    rfl
  · rw [forkedSystem_regs]
    rfl

theorem fork_correct :
    SwitchCorrect bootCode emptyFunction emptyFunction 2 (forkedSystem userArgs)
      ((forkedSystem userArgs).switchTo 2) := by
  apply (switch_correct_iff bootCode emptyFunction emptyFunction bootSystem_initial
    (.single ⟨_, bootSystem_forks userArgs⟩) (forkedSystem_switches userArgs)).mpr
  intro ⟨fn, arg, horigin⟩
  have heq := Option.some.inj ((forkedSystem_origin userArgs).symm.trans horigin)
  rw [System.newOrigin, if_neg (by decide)] at heq
  cases heq

/-- `a2` is 0 in the example, and not the address of the registers on the stack of the thread. -/
theorem kernelThread_incorrect :
    ¬ SwitchCorrect bootCode emptyFunction emptyFunction 2 (forkedSystem kernelArgs)
      ((forkedSystem kernelArgs).switchTo 2) := by
  intro h
  have horigin : (forkedSystem kernelArgs).origin 2 = some (.forkedKernel 0x3000 42) := by
    rw [forkedSystem_origin, System.newOrigin, if_pos (by decide)]
    rfl
  have hcalls := (h.resumed _ horigin).2 true
  rw [firstKernelCalls_eq] at hcalls
  have hregs := KernelCall.syscallExitToUserMode.inj (List.cons.inj (List.cons.inj hcalls).2).1
  have ha2 := (switchTo_switched (forkedSystem kernelArgs).kernel).kept a2 (by decide) (by decide)
  have hzero : bootSystem.kernel.regs.get a2 = 0 := rfl
  have hrun : emptyFunction.run ((forkedSystem kernelArgs).switchTo 2).kernel =
      switchTo (forkedSystem kernelArgs).kernel := rfl
  have hptRegs : ((forkedSystem kernelArgs).switchTo 2).ptRegs 2 =
      0x20000 + threadSize - ptSizeOnStack := by
    show taskPtRegs (Function.update bootSystem.stack 2 0x20000) 2 = _
    rw [taskPtRegs, Function.update_self]
  rw [hrun, ha2, forkedSystem_regs, hzero, hptRegs] at hregs
  exact absurd hregs (by decide)

end XrLinux.Linux
