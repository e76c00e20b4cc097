import Mathlib.Tactic.IntervalCases
import XrLinux.Linux.Tasks
import XrLinux.Linux.TrapEntry

/-!
# Linux — nested traps

Runs of one processor with any number of tasks: traps from user mode and out of the kernel, one inside
the other, returns from them, and in between tasks are made, switched and done away with. With each task
goes a ghost list of the traps that it has not returned from, the innermost one first. What holds in
every state that is reached is that their frames are apart and have in them what was interrupted.
-/

namespace XrLinux.Linux

open Machine

/-! ## The hardware -/

/-- What the processor does with `rs`, as `asm/cr.h` names the bits: a trap shifts the mode to where
`RS_OLD_U` and the others are and goes on in the kernel, and `rfe` takes it back. -/
structure TrapUnit where
  enter : Word → Word → Word
  leave : Word → Word
  enter_oldU : ∀ cause rs, enter cause rs &&& rsOldU = 0 ↔ rs &&& rsU = 0
  enter_u : ∀ cause rs, enter cause rs &&& rsU = 0
  leave_u : ∀ rs, leave rs &&& rsU = 0 ↔ rs &&& rsOldU = 0
  leave_enter : ∀ cause rs, leave (enter cause rs) &&& rsModes = rs &&& rsModes

def TrapUnit.trap (unit : TrapUnit) (cause : Word) (c : TrapCpu) : TrapCpu :=
  { c with epc := c.pc, rs := unit.enter cause c.rs }

def TrapUnit.rfe (unit : TrapUnit) (c : TrapCpu) : TrapCpu :=
  { c with pc := c.epc, rs := unit.leave c.rs }

theorem and_twoPow_eq_zero_iff (rs : Word) {i : Nat} (hi : i < 32) :
    rs &&& BitVec.twoPow 32 i = 0 ↔ rs.getLsbD i = false := by
  rw [BitVec.and_twoPow]
  cases rs.getLsbD i with
  | true =>
    have hne : BitVec.twoPow 32 i ≠ 0 := by
      intro hzero
      have hpow := congrArg BitVec.toNat hzero
      rw [BitVec.toNat_twoPow_of_lt hi] at hpow
      exact absurd hpow (Nat.two_pow_pos i).ne'
    simpa using hne
  | false => simp

/-- A processor that has the modes in three bytes and the cause at the top. -/
def TrapUnit.threeLevels : TrapUnit where
  enter cause rs := cause <<< 28 ||| (rs &&& 0xffff) <<< 8 ||| (rs &&& rsM)
  leave rs := rs >>> 8 &&& 0xffff
  enter_oldU cause rs := by
    rw [show rsOldU = BitVec.twoPow 32 8 by decide, show rsU = BitVec.twoPow 32 0 by decide,
      and_twoPow_eq_zero_iff _ (by decide), and_twoPow_eq_zero_iff _ (by decide)]
    simp [rsM]
  enter_u cause rs := by
    rw [show rsU = BitVec.twoPow 32 0 by decide, and_twoPow_eq_zero_iff _ (by decide)]
    simp [rsM]
  leave_u rs := by
    rw [show rsOldU = BitVec.twoPow 32 8 by decide, show rsU = BitVec.twoPow 32 0 by decide,
      and_twoPow_eq_zero_iff _ (by decide), and_twoPow_eq_zero_iff _ (by decide)]
    simp
  leave_enter cause rs := by
    apply BitVec.eq_of_getLsbD_eq
    intro i hi
    interval_cases i <;> simp [rsModes, rsM]

/-! ## The system -/

/-- A trap that has not returned: where its `struct pt_regs` is, and what is in it. -/
structure Frame where
  addr : Word
  context : Context

structure TrapSystem where
  cpu : TrapCpu
  current : Word
  /-- The page of the stack of each task. -/
  stack : Word → Word
  /-- Ghost: the traps of each task that there is. -/
  frames : Word → Option (List Frame)

/-- The stack pointer is in the stack, below what is in use. -/
structure OnStack (base limit stackPointer : Word) : Prop where
  above : base.toNat ≤ stackPointer.toNat
  below : stackPointer.toNat ≤ limit.toNat
  aligned : 4 ∣ stackPointer.toNat

/-- A page for a stack. -/
structure StackPage (page : Word) : Prop where
  aligned : 4096 ∣ page.toNat
  inMemory : page.toNat + 4096 < 4294967296

namespace TrapSystem

def InUser (σ : TrapSystem) : Prop := σ.cpu.rs &&& rsU ≠ 0

instance (σ : TrapSystem) : Decidable σ.InUser := inferInstanceAs (Decidable (_ ≠ _))

/-- The memory is as it was where the frames are. -/
def KeepsFrames (σ : TrapSystem) (mem : Word → Word) : Prop :=
  ∀ t fs, σ.frames t = some fs → ∀ f ∈ fs, ∀ x, InFrame f.addr x → mem x = σ.cpu.mem x

/-- How many traps the task has not returned from. -/
def depth (σ : TrapSystem) (t : Word) : Nat := ((σ.frames t).getD []).length

/-- A trap up to the C function at `handler`. -/
def trapped (σ : TrapSystem) (unit : TrapUnit) (cause handler : Word) : TrapCpu :=
  { trapEntry (unit.trap cause σ.cpu) with pc := handler }

/-- What it interrupts. -/
def interrupted (σ : TrapSystem) (unit : TrapUnit) (cause : Word) : Context :=
  ⟨σ.cpu.regs.get, σ.cpu.pc, unit.enter cause σ.cpu.rs⟩

/-- `copy_thread` for a new task, on the kernel's side of it. -/
def copied (σ : TrapSystem) (code : ForkCode) (p : Word) (args : CloneArgs) (page : Word) : Kernel :=
  copyThread code (Function.update σ.stack p page) σ.cpu.kernel p args

end TrapSystem

/-- What it leaves in `struct pt_regs` of the new task. -/
def PtRegs.context (regs : PtRegs) : Context := ⟨regs.gpr, regs.pc, regs.rs⟩

inductive TrapEvent where
  | work
  | trap (cause handler : Word)
  | ret
  | switchTo (next : Word)
  | copyThread (p : Word) (args : CloneArgs) (page : Word)
  /-- The frame of the task with `outer` others around it. -/
  | edit (t : Word) (outer : Nat)
  | reap (p : Word)

/-- The entry and the exit are masked against interrupts, and so are one step each. -/
inductive TrapStep (unit : TrapUnit) (code : ForkCode) : TrapSystem → TrapEvent → TrapSystem → Prop where
  /-- A program or C code. It keeps to its mode, has no access to the frames, and in the kernel has its
  stack below the innermost one. -/
  | work {σ : TrapSystem} (c : TrapCpu) (hmode : c.rs &&& rsU = σ.cpu.rs &&& rsU)
      (hscratch1 : c.scratch1 = σ.cpu.scratch1) (hscratch2 : c.scratch2 = σ.cpu.scratch2)
      (hthread : ∀ t, t ≠ σ.current → σ.frames t ≠ none → c.thread t = σ.cpu.thread t) (hmem : σ.KeepsFrames c.mem)
      (hsp : ∀ f fs, ¬σ.InUser → σ.frames σ.current = some (f :: fs) →
        OnStack (σ.stack σ.current) f.addr (c.regs.get sp)) :
      TrapStep unit code σ .work { σ with cpu := c }
  /-- A trap, for which there is room on the stack. -/
  | trap {σ : TrapSystem} {fs : List Frame} (cause handler : Word)
      (hframes : σ.frames σ.current = some fs)
      (hroom : ¬σ.InUser → (σ.stack σ.current).toNat + 136 ≤ (σ.cpu.regs.get sp).toNat) :
      TrapStep unit code σ (.trap cause handler) { σ with
        cpu := σ.trapped unit cause handler
        frames := Function.update σ.frames σ.current (some (
          ⟨(σ.trapped unit cause handler).regs.get sp, σ.interrupted unit cause⟩ :: fs)) }
  /-- `return_from_trap`, from the innermost trap. The outermost one is to user mode. -/
  | ret {σ : TrapSystem} {f : Frame} {fs : List Frame} (hkernel : ¬σ.InUser)
      (hframes : σ.frames σ.current = some (f :: fs)) (hsp : σ.cpu.regs.get sp = f.addr)
      (huser : fs = [] → f.context.rs &&& rsOldU ≠ 0) :
      TrapStep unit code σ .ret { σ with
        cpu := unit.rfe σ.cpu.returnFromTrap
        frames := Function.update σ.frames σ.current (some fs) }
  /-- `__switch_to (current, next)`. -/
  | switchTo {σ : TrapSystem} (next : Word) (hkernel : ¬σ.InUser) (hnext : σ.frames next ≠ none)
      (hne : next ≠ σ.current) (ha0 : σ.cpu.regs.get a0 = σ.current) (ha1 : σ.cpu.regs.get a1 = next) :
      TrapStep unit code σ (.switchTo next) { σ with cpu := σ.cpu.switchTo, current := next }
  /-- `copy_thread` for a task with a new stack. -/
  | copyThread {σ : TrapSystem} (p : Word) (args : CloneArgs) (page : Word) (hnew : σ.frames p = none)
      (hpage : StackPage page) (hother : ∀ t, σ.frames t ≠ none → σ.stack t ≠ page)
      (mem : Word → Word) (hmem : HoldsContext mem (page + threadSize - ptSizeOnStack)
        ((σ.copied code p args page).pt (page + threadSize - ptSizeOnStack)).context)
      (hkeeps : ∀ x, ¬InFrame (page + threadSize - ptSizeOnStack) x → mem x = σ.cpu.mem x) :
      TrapStep unit code σ (.copyThread p args page) { σ with
        cpu := { σ.cpu with thread := (σ.copied code p args page).thread, mem }
        stack := Function.update σ.stack p page
        frames := Function.update σ.frames p (some [⟨page + threadSize - ptSizeOnStack,
          ((σ.copied code p args page).pt (page + threadSize - ptSizeOnStack)).context⟩]) }
  /-- The kernel gives what is saved another value, as it does for a system call's result, a signal or
  `start_thread`. Where a trap returns to the kernel it leaves the stack pointer and the mode. -/
  | edit {σ : TrapSystem} (t : Word) {before after : List Frame} {f : Frame} (context : Context)
      (hkernel : ¬σ.InUser) (hframes : σ.frames t = some (before ++ f :: after))
      (hinner : after ≠ [] →
        context.rs &&& rsOldU = f.context.rs &&& rsOldU ∧ context.gpr sp = f.context.gpr sp)
      (mem : Word → Word) (hmem : HoldsContext mem f.addr context)
      (hkeeps : ∀ x, ¬InFrame f.addr x → mem x = σ.cpu.mem x) :
      TrapStep unit code σ (.edit t after.length) { σ with
        cpu := { σ.cpu with mem }
        frames := Function.update σ.frames t (some (before ++ ⟨f.addr, context⟩ :: after)) }
  | reap {σ : TrapSystem} (p : Word) (hp : p ≠ σ.current) :
      TrapStep unit code σ (.reap p) { σ with frames := Function.update σ.frames p none }

/-- After `_start` there is one task, in the kernel, with nothing but `struct pt_regs` on its stack. -/
structure Booted (σ : TrapSystem) : Prop where
  kernel : ¬σ.InUser
  scratch1 : σ.cpu.scratch1 = 0
  scratch2 : σ.cpu.scratch2 = σ.current
  page : StackPage (σ.stack σ.current)
  sp_eq : σ.cpu.regs.get sp = σ.stack σ.current + threadSize - ptSizeOnStack
  frames : ∃ context, σ.frames σ.current =
    some [⟨σ.stack σ.current + threadSize - ptSizeOnStack, context⟩] ∧
      HoldsContext σ.cpu.mem (σ.stack σ.current + threadSize - ptSizeOnStack) context
  alone : ∀ t, t ≠ σ.current → σ.frames t = none

/-- The states that are reached. -/
inductive TrapReach (unit : TrapUnit) (code : ForkCode) : TrapSystem → Prop where
  | boot {σ : TrapSystem} (h : Booted σ) : TrapReach unit code σ
  | step {σ σ' : TrapSystem} {event : TrapEvent} (h : TrapReach unit code σ)
      (hstep : TrapStep unit code σ event σ') : TrapReach unit code σ'

/-! ## The frames of one task -/

/-- From the innermost one to the outermost, which is at the end of the stack; all others return to the
kernel, to a stack pointer below the next. -/
def FramesNested (base : Word) : List Frame → Prop
  | [] => True
  | [f] => f.addr = base + threadSize - ptSizeOnStack
  | f :: g :: fs => base.toNat ≤ f.addr.toNat ∧ f.addr.toNat + 136 ≤ g.addr.toNat ∧ 4 ∣ f.addr.toNat ∧
      f.context.rs &&& rsOldU = 0 ∧ OnStack base g.addr (f.context.gpr sp) ∧ FramesNested base (g :: fs)

section
variable {base : Word} {fs : List Frame}

/-- `task_pt_regs`. -/
theorem StackPage.ptRegs_toNat (h : StackPage base) :
    (base + threadSize - ptSizeOnStack).toNat = base.toNat + 3960 := by
  have hlt := h.inMemory
  have hadd : (base + threadSize).toNat = base.toNat + 4096 := by
    rw [BitVec.toNat_add]
    exact Nat.mod_eq_of_lt hlt
  rw [BitVec.toNat_sub, hadd, show ptSizeOnStack.toNat = 136 from rfl]
  omega

/-- All of them are in the stack. -/
theorem FramesNested.bounds (hpage : StackPage base) (h : FramesNested base fs) {f : Frame} (hf : f ∈ fs) :
    base.toNat ≤ f.addr.toNat ∧ f.addr.toNat + 136 ≤ base.toNat + 4096 ∧ 4 ∣ f.addr.toNat := by
  have htop := hpage.ptRegs_toNat
  have haligned := hpage.aligned
  induction fs generalizing f with
  | nil => cases hf
  | cons g rest ih =>
    cases rest with
    | nil =>
      rw [List.mem_singleton] at hf
      subst hf
      rw [show f.addr = _ from h, htop]
      omega
    | cons g' rest =>
      obtain ⟨hbase, hnext, hdvd, -, -, htail⟩ := h
      have hg' := ih htail List.mem_cons_self
      rcases List.mem_cons.mp hf with rfl | hf
      · omega
      · exact ih htail hf

theorem FramesNested.pairwise (h : FramesNested base fs) :
    fs.Pairwise fun f g => f.addr.toNat + 136 ≤ g.addr.toNat := by
  induction fs with
  | nil => exact .nil
  | cons f rest ih =>
    cases rest with
    | nil => exact List.pairwise_singleton _ f
    | cons g rest =>
      obtain ⟨-, hnext, -, -, -, htail⟩ := h
      have hrest := ih htail
      refine .cons (fun x hx => ?_) hrest
      rcases List.mem_cons.mp hx with rfl | hx
      · exact hnext
      · have := List.rel_of_pairwise_cons hrest hx
        omega

theorem FramesNested.tail {f : Frame} (h : FramesNested base (f :: fs)) : FramesNested base fs := by
  cases fs with
  | nil => trivial
  | cons g fs => exact h.2.2.2.2.2

/-- What is in the frames is of no account but for the stack pointer and the mode of the inner ones. -/
theorem FramesNested.edit {before after : List Frame} {f : Frame} {context : Context}
    (h : FramesNested base (before ++ f :: after))
    (hinner : after ≠ [] →
      context.rs &&& rsOldU = f.context.rs &&& rsOldU ∧ context.gpr sp = f.context.gpr sp) :
    FramesNested base (before ++ ⟨f.addr, context⟩ :: after) := by
  induction before with
  | nil =>
    cases after with
    | nil => exact h
    | cons g after =>
      obtain ⟨hrs, hsp⟩ := hinner (List.cons_ne_nil g after)
      obtain ⟨hbase, hnext, hdvd, hold, hstack, htail⟩ := h
      exact ⟨hbase, hnext, hdvd, hrs.trans hold, hsp ▸ hstack, htail⟩
  | cons g before ih =>
    have htail := ih h.tail
    cases before with
    | nil =>
      obtain ⟨hbase, hnext, hdvd, hold, hstack, -⟩ := h
      exact ⟨hbase, hnext, hdvd, hold, hstack, htail⟩
    | cons g' before =>
      obtain ⟨hbase, hnext, hdvd, hold, hstack, -⟩ := h
      exact ⟨hbase, hnext, hdvd, hold, hstack, htail⟩

theorem inFrame_iff {addr x : Word} (h : addr.toNat + 136 ≤ 4294967296) :
    InFrame addr x ↔ addr.toNat ≤ x.toNat ∧ x.toNat < addr.toNat + 136 := by
  have hx := x.isLt
  rw [InFrame, BitVec.toNat_sub]
  omega

/-- Frames in different pages. -/
theorem not_inFrame_of_pages {base' a b x : Word} (hpage : StackPage base) (hpage' : StackPage base')
    (hne : base ≠ base') (ha : base.toNat ≤ a.toNat ∧ a.toNat + 136 ≤ base.toNat + 4096)
    (hb : base'.toNat ≤ b.toNat ∧ b.toNat + 136 ≤ base'.toNat + 4096) (hx : InFrame a x) :
    ¬InFrame b x := by
  obtain ⟨i, hi⟩ := hpage.aligned
  obtain ⟨j, hj⟩ := hpage'.aligned
  have hmem := hpage.inMemory
  have hmem' := hpage'.inMemory
  have hij : base.toNat ≠ base'.toNat := fun heq => hne (BitVec.eq_of_toNat_eq heq)
  rw [inFrame_iff (by omega)] at hx ⊢
  omega

end

/-- The frames of one task are others. -/
theorem frames_update {frames : Word → Option (List Frame)} {a t : Word} {fs gs : List Frame}
    (h : Function.update frames a (some fs) t = some gs) :
    (t = a ∧ gs = fs) ∨ (t ≠ a ∧ frames t = some gs) := by
  by_cases ht : t = a
  · subst ht
    rw [Function.update_self, Option.some.injEq] at h
    exact .inl ⟨rfl, h.symm⟩
  · rw [Function.update_of_ne ht] at h
    exact .inr ⟨ht, h⟩

theorem frames_update_ne_none {frames : Word → Option (List Frame)} {a t : Word} {fs : List Frame}
    (ha : frames a ≠ none) (h : Function.update frames a (some fs) t ≠ none) : frames t ≠ none := by
  by_cases ht : t = a
  · rwa [ht]
  · rwa [Function.update_of_ne ht] at h

/-! ## What holds in every state -/

structure TrapInv (σ : TrapSystem) : Prop where
  scratch2_eq : σ.cpu.scratch2 = σ.current
  page : ∀ t, σ.frames t ≠ none → StackPage (σ.stack t)
  stack_inj : ∀ t u, σ.frames t ≠ none → σ.frames u ≠ none → σ.stack t = σ.stack u → t = u
  nested : ∀ t fs, σ.frames t = some fs → FramesNested (σ.stack t) fs
  holds : ∀ t fs, σ.frames t = some fs → ∀ f ∈ fs, HoldsContext σ.cpu.mem f.addr f.context
  user : σ.InUser → σ.frames σ.current = some [] ∧
    σ.cpu.scratch1 = σ.stack σ.current + threadSize
  kernel : ¬σ.InUser → ∃ f fs, σ.frames σ.current = some (f :: fs) ∧ σ.cpu.scratch1 = 0 ∧
    OnStack (σ.stack σ.current) f.addr (σ.cpu.regs.get sp)
  /-- A task that waits does so in the kernel. -/
  waiting : ∀ t fs, t ≠ σ.current → σ.frames t = some fs →
    ∃ f rest, fs = f :: rest ∧ OnStack (σ.stack t) f.addr (σ.cpu.thread t .sp)

section
variable {unit : TrapUnit} {code : ForkCode} {σ : TrapSystem}

theorem Booted.inv (h : Booted σ) : TrapInv σ := by
  obtain ⟨context, hframes, hholds⟩ := h.frames
  have honly : ∀ t fs, σ.frames t = some fs → t = σ.current := by
    intro t fs ht
    by_contra hne
    rw [h.alone t hne] at ht
    cases ht
  have hlive : ∀ t, σ.frames t ≠ none → t = σ.current := by
    intro t ht
    by_contra hne
    exact ht (h.alone t hne)
  have htop := h.page.ptRegs_toNat
  have haligned := h.page.aligned
  exact {
    scratch2_eq := h.scratch2
    page := fun t ht => by
      rw [hlive t ht]
      exact h.page
    stack_inj := fun t u ht hu _ => (hlive t ht).trans (hlive u hu).symm
    nested := fun t fs ht => by
      obtain rfl := honly t fs ht
      rw [hframes] at ht
      rw [← Option.some.inj ht]
      exact Eq.refl (σ.stack σ.current + threadSize - ptSizeOnStack)
    holds := fun t fs ht f hf => by
      rw [honly t fs ht, hframes] at ht
      cases ht
      rw [List.mem_singleton] at hf
      subst hf
      exact hholds
    user := fun huser => absurd huser h.kernel
    kernel := fun _ => ⟨_, [], hframes, h.scratch1, by
      rw [h.sp_eq]
      exact ⟨by omega, Nat.le_refl _, by omega⟩⟩
    waiting := fun t fs hne ht => absurd (honly t fs ht) hne }

/-- The frames of any two traps are apart, and in the stacks of their tasks. -/
theorem TrapInv.bounds (h : TrapInv σ) {t : Word} {fs : List Frame} (ht : σ.frames t = some fs)
    {f : Frame} (hf : f ∈ fs) :
    (σ.stack t).toNat ≤ f.addr.toNat ∧ f.addr.toNat + 136 ≤ (σ.stack t).toNat + 4096 ∧
      4 ∣ f.addr.toNat :=
  (h.nested t fs ht).bounds (h.page t (by rw [ht]; exact Option.some_ne_none fs)) hf

theorem TrapInv.work (h : TrapInv σ) {c : TrapCpu} (hmode : c.rs &&& rsU = σ.cpu.rs &&& rsU)
    (hscratch1 : c.scratch1 = σ.cpu.scratch1) (hscratch2 : c.scratch2 = σ.cpu.scratch2)
    (hthread : ∀ t, t ≠ σ.current → σ.frames t ≠ none → c.thread t = σ.cpu.thread t)
    (hmem : σ.KeepsFrames c.mem)
    (hsp : ∀ f fs, ¬σ.InUser → σ.frames σ.current = some (f :: fs) →
      OnStack (σ.stack σ.current) f.addr (c.regs.get sp)) : TrapInv { σ with cpu := c } where
  scratch2_eq := hscratch2.trans h.scratch2_eq
  page := h.page
  stack_inj := h.stack_inj
  nested := h.nested
  holds t fs ht f hf := (h.holds t fs ht f hf).congr (hmem t fs ht f hf)
  user huser := by
    have hold : σ.InUser := by
      change c.rs &&& rsU ≠ 0 at huser
      rw [hmode] at huser
      exact huser
    obtain ⟨hframes, hstack⟩ := h.user hold
    exact ⟨hframes, hscratch1.trans hstack⟩
  kernel hkernel := by
    have hold : ¬σ.InUser := by
      change ¬c.rs &&& rsU ≠ 0 at hkernel
      rw [hmode] at hkernel
      exact hkernel
    obtain ⟨f, fs, hframes, hstack, -⟩ := h.kernel hold
    exact ⟨f, fs, hframes, hscratch1.trans hstack, hsp f fs hold hframes⟩
  waiting t fs hne ht := by
    show ∃ f rest, fs = f :: rest ∧ OnStack (σ.stack t) f.addr (c.thread t .sp)
    have hlive : σ.frames t ≠ none := by
      rw [show σ.frames t = _ from ht]
      exact Option.some_ne_none fs
    rw [hthread t hne hlive]
    exact h.waiting t fs hne ht

theorem TrapSystem.trapped_entered (σ : TrapSystem) (unit : TrapUnit) (cause handler : Word) :
    Entered (unit.trap cause σ.cpu) (σ.trapped unit cause handler) := by
  have h := trapEntry_entered (unit.trap cause σ.cpu)
  unfold TrapSystem.trapped
  generalize trapEntry (unit.trap cause σ.cpu) = c at h ⊢
  exact ⟨h.sp_eq, h.a0_eq, h.s0_eq, h.tp_eq, h.scratch1_eq, h.scratch2_eq, h.rs_eq, h.thread_eq, h.holds,
    h.other⟩

/-- The new frame: at the end of the stack out of user mode, and else below what the kernel uses. -/
theorem TrapInv.nested_trapped (h : TrapInv σ) {fs : List Frame} (unit : TrapUnit) (cause handler : Word)
    (hframes : σ.frames σ.current = some fs)
    (hroom : ¬σ.InUser → (σ.stack σ.current).toNat + 136 ≤ (σ.cpu.regs.get sp).toNat) :
    FramesNested (σ.stack σ.current)
      (⟨(σ.trapped unit cause handler).regs.get sp, σ.interrupted unit cause⟩ :: fs) := by
  have hpage := h.page σ.current (by rw [hframes]; exact Option.some_ne_none fs)
  have htop := hpage.ptRegs_toNat
  have hentered := σ.trapped_entered unit cause handler
  have hsp : (σ.trapped unit cause handler).regs.get sp = (unit.trap cause σ.cpu).stackTop - 136 :=
    hentered.sp_eq
  by_cases huser : σ.InUser
  · obtain ⟨hnone, hscratch1⟩ := h.user huser
    rw [hframes, Option.some.injEq] at hnone
    have hstack : (unit.trap cause σ.cpu).stackTop = σ.stack σ.current + threadSize := by
      have hne : σ.cpu.scratch1 ≠ 0 := by
        have hlt := hpage.inMemory
        have hadd : σ.cpu.scratch1.toNat = (σ.stack σ.current).toNat + 4096 := by
          rw [hscratch1, BitVec.toNat_add]
          exact Nat.mod_eq_of_lt hlt
        intro hzero
        rw [hzero] at hadd
        cases hadd
      exact (if_pos hne).trans hscratch1
    rw [hnone, hsp, hstack]
    exact Eq.refl (σ.stack σ.current + threadSize - ptSizeOnStack)
  · obtain ⟨f, rest, hsome, hscratch1, hstackPointer⟩ := h.kernel huser
    rw [hframes, Option.some.injEq] at hsome
    have hroom := hroom huser
    have hstack : (unit.trap cause σ.cpu).stackTop = σ.cpu.regs.get sp :=
      if_neg fun hne => hne hscratch1
    have haddr : (σ.cpu.regs.get sp - 136).toNat = (σ.cpu.regs.get sp).toNat - 136 := by
      rw [BitVec.toNat_sub, show (136 : Word).toNat = 136 from rfl]
      have hlt := (σ.cpu.regs.get sp).isLt
      omega
    have hbelow := hstackPointer.below
    have haligned := hstackPointer.aligned
    have hmode : (σ.interrupted unit cause).rs &&& rsOldU = 0 :=
      (unit.enter_oldU cause σ.cpu.rs).mpr (not_not.mp huser)
    have hnested := h.nested σ.current fs hframes
    rw [hsome] at hnested ⊢
    rw [hsp, hstack]
    refine ⟨?_, ?_, ?_, hmode, hstackPointer, hnested⟩
    · show _ ≤ (σ.cpu.regs.get sp - 136).toNat
      omega
    · show (σ.cpu.regs.get sp - 136).toNat + 136 ≤ _
      omega
    · show 4 ∣ (σ.cpu.regs.get sp - 136).toNat
      omega

/-- A frame that is added is apart from those that there are. -/
theorem TrapInv.apart (h : TrapInv σ) {f : Frame} {fs : List Frame} (hframes : σ.frames σ.current = some fs)
    (hnested : FramesNested (σ.stack σ.current) (f :: fs)) {t : Word} {gs : List Frame}
    (ht : σ.frames t = some gs) {g : Frame} (hg : g ∈ gs) {x : Word} (hx : InFrame g.addr x) :
    ¬InFrame f.addr x := by
  have hlive : ∀ t gs, σ.frames t = some gs → σ.frames t ≠ none := by
    intro t gs ht
    rw [ht]
    exact Option.some_ne_none gs
  have hpage := h.page σ.current (hlive _ _ hframes)
  have hbounds := hnested.bounds hpage List.mem_cons_self
  have hbounds' := h.bounds ht hg
  by_cases hcurrent : t = σ.current
  · subst hcurrent
    rw [hframes, Option.some.injEq] at ht
    subst ht
    have hnext := List.rel_of_pairwise_cons hnested.pairwise hg
    have hmem := hpage.inMemory
    rw [inFrame_iff (by omega)] at hx ⊢
    omega
  · have hpage' := h.page t (hlive _ _ ht)
    refine not_inFrame_of_pages hpage' hpage (fun heq => ?_) ⟨hbounds'.1, hbounds'.2.1⟩
      ⟨hbounds.1, hbounds.2.1⟩ hx
    exact hcurrent (h.stack_inj _ _ (hlive _ _ ht) (hlive _ _ hframes) heq)

theorem TrapInv.trap (h : TrapInv σ) {fs : List Frame} (cause handler : Word)
    (hframes : σ.frames σ.current = some fs)
    (hroom : ¬σ.InUser → (σ.stack σ.current).toNat + 136 ≤ (σ.cpu.regs.get sp).toNat) :
    TrapInv { σ with
      cpu := σ.trapped unit cause handler
      frames := Function.update σ.frames σ.current (some (
        ⟨(σ.trapped unit cause handler).regs.get sp, σ.interrupted unit cause⟩ :: fs)) } := by
  have hentered := σ.trapped_entered unit cause handler
  have hnested := h.nested_trapped unit cause handler hframes hroom
  have hpage := h.page σ.current (by rw [hframes]; exact Option.some_ne_none fs)
  obtain ⟨c, hc⟩ : ∃ c, σ.trapped unit cause handler = c := ⟨_, rfl⟩
  rw [hc] at hentered hnested ⊢
  obtain ⟨f, hf⟩ : ∃ f : Frame,
      ⟨c.regs.get sp, σ.interrupted unit cause⟩ = f := ⟨_, rfl⟩
  have hsp : (unit.trap cause σ.cpu).stackTop - 136 = f.addr := by
    rw [← hf]
    exact hentered.sp_eq.symm
  have hbounds := hnested.bounds hpage List.mem_cons_self
  rw [hf] at hnested hbounds ⊢
  have hholds := hentered.holds
  have hother := hentered.other
  rw [hsp] at hholds hother
  have hcontext : HoldsContext c.mem f.addr f.context := by
    rw [← hf] at hholds ⊢
    exact hholds
  have hlive : ∀ t, Function.update σ.frames σ.current (some (f :: fs)) t ≠ none → σ.frames t ≠ none :=
    fun t => frames_update_ne_none (by rw [hframes]; exact Option.some_ne_none fs)
  have hmode : c.rs &&& rsU = 0 := by
    have hrs : c.rs = unit.enter cause σ.cpu.rs := hentered.rs_eq
    rw [hrs]
    exact unit.enter_u cause σ.cpu.rs
  exact {
    scratch2_eq := hentered.scratch2_eq.trans h.scratch2_eq
    page := fun t ht => h.page t (hlive t ht)
    stack_inj := fun t u ht hu => h.stack_inj t u (hlive t ht) (hlive u hu)
    nested := fun t gs ht => by
      rcases frames_update ht with ⟨rfl, rfl⟩ | ⟨-, ht⟩
      · exact hnested
      · exact h.nested t gs ht
    holds := fun t gs ht g hg => by
      -- the entry writes to its own frame only
      have hold : ∀ gs, σ.frames t = some gs → g ∈ gs →
          HoldsContext c.mem g.addr g.context := fun gs ht hg =>
        (h.holds t gs ht g hg).congr fun x hx => hother x (h.apart hframes hnested ht hg hx)
      rcases frames_update ht with ⟨rfl, rfl⟩ | ⟨-, ht⟩
      · rcases List.mem_cons.mp hg with rfl | hg
        · exact hcontext
        · exact hold fs hframes hg
      · exact hold gs ht hg
    user := fun huser => absurd hmode huser
    kernel := fun _ => by
      refine ⟨f, fs, Function.update_self .., hentered.scratch1_eq, ?_⟩
      have haddr : c.regs.get sp = f.addr := by rw [← hf]
      show OnStack (σ.stack σ.current) f.addr (c.regs.get sp)
      rw [haddr]
      exact ⟨hbounds.1, Nat.le_refl _, hbounds.2.2⟩
    waiting := fun t gs hne ht => by
      have ht := (frames_update ht).resolve_left fun heq => hne heq.1
      show ∃ f rest, gs = f :: rest ∧
        OnStack (σ.stack t) f.addr (c.thread t .sp)
      rw [show c.thread = σ.cpu.thread from hentered.thread_eq]
      exact h.waiting t gs hne ht.2 }

/-- The context that is returned to, and what else is there then. -/
theorem TrapInv.returned (h : TrapInv σ) (unit : TrapUnit) {f : Frame} {fs : List Frame}
    (hframes : σ.frames σ.current = some (f :: fs)) (hsp : σ.cpu.regs.get sp = f.addr) :
    (∀ r, r ≠ zero → (unit.rfe σ.cpu.returnFromTrap).regs.get r = f.context.gpr r) ∧
      (unit.rfe σ.cpu.returnFromTrap).pc = f.context.pc ∧
      (unit.rfe σ.cpu.returnFromTrap).rs = unit.leave f.context.rs ∧
      ((unit.rfe σ.cpu.returnFromTrap).scratch1 =
        if f.context.rs &&& rsOldU = 0 then σ.cpu.scratch1 else f.addr + ptSizeOnStack) ∧
      (unit.rfe σ.cpu.returnFromTrap).scratch2 = σ.cpu.scratch2 ∧
      (unit.rfe σ.cpu.returnFromTrap).thread = σ.cpu.thread ∧
      (unit.rfe σ.cpu.returnFromTrap).mem = σ.cpu.mem := by
  have hholds := h.holds σ.current _ hframes f List.mem_cons_self
  rw [← hsp] at hholds ⊢
  obtain ⟨hgpr, hepc, hrs, hscratch1, hscratch2, hthread, hmem⟩ := returnFromTrap_context σ.cpu hholds
  exact ⟨hgpr, hepc, congrArg unit.leave hrs, hscratch1, hscratch2, hthread, hmem⟩

theorem TrapInv.ret (h : TrapInv σ) {f : Frame} {fs : List Frame} (hkernel : ¬σ.InUser)
    (hframes : σ.frames σ.current = some (f :: fs)) (hsp : σ.cpu.regs.get sp = f.addr)
    (huser : fs = [] → f.context.rs &&& rsOldU ≠ 0) :
    TrapInv { σ with
      cpu := unit.rfe σ.cpu.returnFromTrap
      frames := Function.update σ.frames σ.current (some fs) } := by
  obtain ⟨hgpr, -, hrs, hscratch1, hscratch2, hthread, hmem⟩ := h.returned unit hframes hsp
  obtain ⟨c, hc⟩ : ∃ c, unit.rfe σ.cpu.returnFromTrap = c := ⟨_, rfl⟩
  rw [hc] at hgpr hrs hscratch1 hscratch2 hthread hmem ⊢
  have hsome : σ.frames σ.current ≠ none := by
    rw [hframes]
    exact Option.some_ne_none _
  have hpage := h.page σ.current hsome
  have hnested := h.nested σ.current _ hframes
  obtain ⟨-, -, -, hzero, -⟩ := h.kernel hkernel
  have hleave : c.rs &&& rsU = 0 ↔ f.context.rs &&& rsOldU = 0 := by
    rw [hrs]
    exact unit.leave_u f.context.rs
  have hlive : ∀ t, Function.update σ.frames σ.current (some fs) t ≠ none → σ.frames t ≠ none :=
    fun t => frames_update_ne_none hsome
  exact {
    scratch2_eq := hscratch2.trans h.scratch2_eq
    page := fun t ht => h.page t (hlive t ht)
    stack_inj := fun t u ht hu => h.stack_inj t u (hlive t ht) (hlive u hu)
    nested := fun t gs ht => by
      rcases frames_update ht with ⟨rfl, rfl⟩ | ⟨-, ht⟩
      · exact hnested.tail
      · exact h.nested t gs ht
    holds := fun t gs ht g hg => by
      show HoldsContext c.mem g.addr g.context
      rw [hmem]
      rcases frames_update ht with ⟨rfl, rfl⟩ | ⟨-, ht⟩
      · exact h.holds _ _ hframes g (List.mem_cons_of_mem f hg)
      · exact h.holds t gs ht g hg
    user := fun hinUser => by
      have hmode : f.context.rs &&& rsOldU ≠ 0 := fun hold => hinUser (hleave.mpr hold)
      cases fs with
      | nil =>
        refine ⟨Function.update_self .., ?_⟩
        have haddr : f.addr = σ.stack σ.current + threadSize - ptSizeOnStack := hnested
        show c.scratch1 = σ.stack σ.current + threadSize
        rw [hscratch1, if_neg hmode, haddr, BitVec.sub_add_cancel]
      | cons g rest => exact absurd hnested.2.2.2.1 hmode
    kernel := fun hinKernel => by
      have hmode : f.context.rs &&& rsOldU = 0 := hleave.mp (not_not.mp hinKernel)
      cases fs with
      | nil => exact absurd hmode (huser rfl)
      | cons g rest =>
        refine ⟨g, rest, Function.update_self .., ?_, ?_⟩
        · show c.scratch1 = 0
          rw [hscratch1, if_pos hmode, hzero]
        · show OnStack (σ.stack σ.current) g.addr (c.regs.get sp)
          rw [hgpr sp (by decide)]
          exact hnested.2.2.2.2.1
    waiting := fun t gs hne ht => by
      have ht := (frames_update ht).resolve_left fun heq => hne heq.1
      show ∃ f rest, gs = f :: rest ∧ OnStack (σ.stack t) f.addr (c.thread t .sp)
      rw [hthread]
      exact h.waiting t gs hne ht.2 }

theorem TrapInv.switchTo (h : TrapInv σ) {next : Word} (hkernel : ¬σ.InUser)
    (hnext : σ.frames next ≠ none) (hne : next ≠ σ.current) (ha0 : σ.cpu.regs.get a0 = σ.current)
    (ha1 : σ.cpu.regs.get a1 = next) :
    TrapInv { σ with cpu := σ.cpu.switchTo, current := next } := by
  have hswitched := switchTo_context σ.cpu
  obtain ⟨c, hc⟩ : ∃ c, σ.cpu.switchTo = c := ⟨_, rfl⟩
  rw [hc, ha0, ha1] at hswitched
  rw [hc]
  obtain ⟨hsaved, -, hrestored, hscratch2, hscratch1, hrs, hmem⟩ := hswitched
  rw [hsaved, Function.update_of_ne hne] at hrestored
  obtain ⟨f, fs, hframes, hzero, hstack⟩ := h.kernel hkernel
  exact {
    scratch2_eq := hscratch2
    page := h.page
    stack_inj := h.stack_inj
    nested := h.nested
    holds := fun t gs ht g hg => by
      show HoldsContext c.mem g.addr g.context
      rw [hmem]
      exact h.holds t gs ht g hg
    user := fun huser => by
      change c.rs &&& rsU ≠ 0 at huser
      rw [hrs] at huser
      exact absurd huser hkernel
    kernel := fun _ => by
      obtain ⟨gs, hgs⟩ := Option.ne_none_iff_exists'.mp hnext
      obtain ⟨g, rest, rfl, hwaiting⟩ := h.waiting next gs hne hgs
      refine ⟨g, rest, hgs, hscratch1.trans hzero, ?_⟩
      show OnStack (σ.stack next) g.addr (c.regs.get sp)
      rw [hrestored]
      exact hwaiting
    waiting := fun t gs hnotNext ht => by
      show ∃ f rest, gs = f :: rest ∧ OnStack (σ.stack t) f.addr (c.thread t .sp)
      rw [hsaved]
      by_cases hcurrent : t = σ.current
      · -- the task that was current has its stack pointer saved
        subst hcurrent
        rw [Function.update_self]
        have ht : σ.frames σ.current = some gs := ht
        rw [hframes, Option.some.injEq] at ht
        exact ⟨f, fs, ht.symm, hstack⟩
      · rw [Function.update_of_ne hcurrent]
        exact h.waiting t gs hcurrent ht }

/-- The stack pointer of a task that has not run is `task_pt_regs`. -/
theorem copied_thread (code : ForkCode) (p : Word) (args : CloneArgs) (page : Word) :
    (σ.copied code p args page).thread p .sp = page + threadSize - ptSizeOnStack ∧
      ∀ t, t ≠ p → (σ.copied code p args page).thread t = σ.cpu.thread t := by
  refine ⟨?_, fun t ht => copyThread_thread code _ _ args ht⟩
  have hstack : taskPtRegs (Function.update σ.stack p page) p = page + threadSize - ptSizeOnStack := by
    rw [taskPtRegs, Function.update_self]
  by_cases hfn : args.fn = 0
  · rw [TrapSystem.copied, copyThread_user code _ _ p hfn, hstack]
    show Function.update σ.cpu.thread p (newUserThread code (page + threadSize - ptSizeOnStack)) p .sp = _
    rw [Function.update_self]
    rfl
  · rw [TrapSystem.copied, copyThread_kernel code _ _ p hfn, hstack]
    show Function.update σ.cpu.thread p
      (newKernelThread code (page + threadSize - ptSizeOnStack) args.fn args.fnArg) p .sp = _
    rw [Function.update_self]
    rfl

theorem TrapInv.copyThread (h : TrapInv σ) {p : Word} {args : CloneArgs} {page : Word}
    (hnew : σ.frames p = none) (hpage : StackPage page)
    (hother : ∀ t, σ.frames t ≠ none → σ.stack t ≠ page) {mem : Word → Word} {context : Context}
    (hmem : HoldsContext mem (page + threadSize - ptSizeOnStack) context)
    (hkeeps : ∀ x, ¬InFrame (page + threadSize - ptSizeOnStack) x → mem x = σ.cpu.mem x) :
    TrapInv { σ with
      cpu := { σ.cpu with thread := (σ.copied code p args page).thread, mem }
      stack := Function.update σ.stack p page
      frames := Function.update σ.frames p
        (some [⟨page + threadSize - ptSizeOnStack, context⟩]) } := by
  obtain ⟨hsp, hthread⟩ := copied_thread (σ := σ) code p args page
  obtain ⟨thread, hcopied⟩ : ∃ thread, (σ.copied code p args page).thread = thread := ⟨_, rfl⟩
  rw [hcopied] at hsp hthread ⊢
  have htop := hpage.ptRegs_toNat
  have haligned := hpage.aligned
  obtain ⟨fs, hframes⟩ : ∃ fs, σ.frames σ.current = some fs := by
    by_cases huser : σ.InUser
    · exact ⟨_, (h.user huser).1⟩
    · obtain ⟨f, fs, hframes, -⟩ := h.kernel huser
      exact ⟨_, hframes⟩
  have hcurrent : σ.current ≠ p := by
    rintro heq
    rw [heq, hnew] at hframes
    cases hframes
  -- the stacks of the other tasks are as they were
  have hold : ∀ t, t ≠ p → Function.update σ.stack p page t = σ.stack t := fun t ht =>
    Function.update_of_ne ht ..
  have hlive : ∀ t, t ≠ p → Function.update σ.frames p
      (some [⟨page + threadSize - ptSizeOnStack, context⟩]) t ≠ none → σ.frames t ≠ none := by
    intro t ht hsome
    rwa [Function.update_of_ne ht] at hsome
  have hself : Function.update σ.stack p page p = page := Function.update_self ..
  exact {
    scratch2_eq := h.scratch2_eq
    page := fun t ht => by
      by_cases hp : t = p
      · subst hp
        show StackPage (Function.update σ.stack t page t)
        rw [hself]
        exact hpage
      · show StackPage (Function.update σ.stack p page t)
        rw [hold t hp]
        exact h.page t (hlive t hp ht)
    stack_inj := fun t u ht hu heq => by
      change Function.update σ.stack p page t = Function.update σ.stack p page u at heq
      by_cases hp : t = p
      · by_cases hq : u = p
        · rw [hp, hq]
        · rw [hp, hself, hold u hq] at heq
          exact absurd heq.symm (hother u (hlive u hq hu))
      · by_cases hq : u = p
        · rw [hq, hself, hold t hp] at heq
          exact absurd heq (hother t (hlive t hp ht))
        · rw [hold t hp, hold u hq] at heq
          exact h.stack_inj t u (hlive t hp ht) (hlive u hq hu) heq
    nested := fun t gs ht => by
      show FramesNested (Function.update σ.stack p page t) gs
      rcases frames_update ht with ⟨rfl, rfl⟩ | ⟨hp, ht⟩
      · rw [hself]
        exact Eq.refl (page + threadSize - ptSizeOnStack)
      · rw [hold t hp]
        exact h.nested t gs ht
    holds := fun t gs ht g hg => by
      show HoldsContext mem g.addr g.context
      rcases frames_update ht with ⟨rfl, rfl⟩ | ⟨hp, ht⟩
      · rw [List.mem_singleton] at hg
        subst hg
        exact hmem
      · have hsome : σ.frames t ≠ none := by
          rw [ht]
          exact Option.some_ne_none gs
        have hbounds := h.bounds ht hg
        refine (h.holds t gs ht g hg).congr fun x hx => hkeeps x ?_
        exact not_inFrame_of_pages (h.page t hsome) hpage (hother t hsome) ⟨hbounds.1, hbounds.2.1⟩
          ⟨by omega, by omega⟩ hx
    user := fun huser => by
      obtain ⟨hnone, hscratch1⟩ := h.user huser
      refine ⟨?_, ?_⟩
      · show Function.update σ.frames p _ σ.current = _
        rw [Function.update_of_ne hcurrent]
        exact hnone
      · show σ.cpu.scratch1 = Function.update σ.stack p page σ.current + threadSize
        rw [hold _ hcurrent]
        exact hscratch1
    kernel := fun hkernel => by
      obtain ⟨f, fs, hframes, hzero, hstack⟩ := h.kernel hkernel
      refine ⟨f, fs, ?_, hzero, ?_⟩
      · show Function.update σ.frames p _ σ.current = _
        rw [Function.update_of_ne hcurrent]
        exact hframes
      · show OnStack (Function.update σ.stack p page σ.current) f.addr (σ.cpu.regs.get sp)
        rw [hold _ hcurrent]
        exact hstack
    waiting := fun t gs hne ht => by
      show ∃ f rest, gs = f :: rest ∧ OnStack (Function.update σ.stack p page t) f.addr (thread t .sp)
      rcases frames_update ht with ⟨rfl, rfl⟩ | ⟨hp, ht⟩
      · rw [hself, hsp]
        exact ⟨_, [], rfl, by omega, Nat.le_refl _, by omega⟩
      · rw [hold t hp, hthread t hp]
        exact h.waiting t gs hne ht }

/-- The frames of any two traps are apart. -/
theorem TrapInv.apart_of (h : TrapInv σ) {t : Word} {before after : List Frame} {f : Frame}
    (ht : σ.frames t = some (before ++ f :: after)) {u : Word} {gs : List Frame} {g : Frame}
    (hu : σ.frames u = some gs) (hg : g ∈ gs) (hother : u = t → g ∈ before ∨ g ∈ after) {x : Word}
    (hx : InFrame g.addr x) : ¬InFrame f.addr x := by
  have hmem : f ∈ before ++ f :: after := List.mem_append_right _ List.mem_cons_self
  have hbounds := h.bounds ht hmem
  have hbounds' := h.bounds hu hg
  have hlive : ∀ t gs, σ.frames t = some gs → σ.frames t ≠ none := by
    intro t gs ht
    rw [ht]
    exact Option.some_ne_none gs
  have hpage := h.page t (hlive _ _ ht)
  have hpage' := h.page u (hlive _ _ hu)
  by_cases hsame : u = t
  · subst hsame
    have hpairs := List.pairwise_append.mp (h.nested u _ ht).pairwise
    have hlt := hpage.inMemory
    rw [inFrame_iff (by omega)] at hx ⊢
    rcases hother rfl with hbefore | hafter
    · have := hpairs.2.2 g hbefore f List.mem_cons_self
      omega
    · have := List.rel_of_pairwise_cons hpairs.2.1 hafter
      omega
  · exact not_inFrame_of_pages hpage' hpage
      (fun heq => hsame (h.stack_inj _ _ (hlive _ _ hu) (hlive _ _ ht) heq))
      ⟨hbounds'.1, hbounds'.2.1⟩ ⟨hbounds.1, hbounds.2.1⟩ hx

/-- The innermost frame stays where it is. -/
theorem head_of_edit {before after fs : List Frame} {f g : Frame} (context : Context)
    (h : before ++ f :: after = g :: fs) :
    ∃ g' fs', before ++ ⟨f.addr, context⟩ :: after = g' :: fs' ∧ g'.addr = g.addr := by
  cases before with
  | nil =>
    obtain ⟨rfl, rfl⟩ := List.cons.inj h
    exact ⟨_, _, rfl, rfl⟩
  | cons b before =>
    obtain ⟨rfl, rfl⟩ := List.cons.inj h
    exact ⟨_, _, rfl, rfl⟩

theorem TrapInv.edit (h : TrapInv σ) {t : Word} {before after : List Frame} {f : Frame}
    {context : Context} (hkernel : ¬σ.InUser) (hframes : σ.frames t = some (before ++ f :: after))
    (hinner : after ≠ [] →
      context.rs &&& rsOldU = f.context.rs &&& rsOldU ∧ context.gpr sp = f.context.gpr sp)
    {mem : Word → Word} (hmem : HoldsContext mem f.addr context)
    (hkeeps : ∀ x, ¬InFrame f.addr x → mem x = σ.cpu.mem x) :
    TrapInv { σ with
      cpu := { σ.cpu with mem }
      frames := Function.update σ.frames t (some (before ++ ⟨f.addr, context⟩ :: after)) } := by
  have hlive : ∀ u, Function.update σ.frames t (some (before ++ ⟨f.addr, context⟩ :: after)) u ≠ none →
      σ.frames u ≠ none := fun u => frames_update_ne_none (by rw [hframes]; exact Option.some_ne_none _)
  exact {
    scratch2_eq := h.scratch2_eq
    page := fun u hu => h.page u (hlive u hu)
    stack_inj := fun u v hu hv => h.stack_inj u v (hlive u hu) (hlive v hv)
    nested := fun u gs hu => by
      rcases frames_update hu with ⟨rfl, rfl⟩ | ⟨-, hu⟩
      · exact (h.nested u _ hframes).edit hinner
      · exact h.nested u gs hu
    holds := fun u gs hu g hg => by
      show HoldsContext mem g.addr g.context
      rcases frames_update hu with ⟨rfl, rfl⟩ | ⟨hne, hu⟩
      · have hsplit : g = ⟨f.addr, context⟩ ∨ g ∈ before ∨ g ∈ after := by
          rcases List.mem_append.mp hg with hbefore | hrest
          · exact .inr (.inl hbefore)
          · exact (List.mem_cons.mp hrest).imp id .inr
        rcases hsplit with rfl | hother
        · exact hmem
        · have hold : g ∈ before ++ f :: after := by
            rcases hother with hbefore | hafter
            · exact List.mem_append_left _ hbefore
            · exact List.mem_append_right _ (List.mem_cons_of_mem f hafter)
          exact (h.holds u _ hframes g hold).congr fun x hx =>
            hkeeps x (h.apart_of hframes hframes hold (fun _ => hother) hx)
      · exact (h.holds u gs hu g hg).congr fun x hx =>
          hkeeps x (h.apart_of hframes hu hg (fun heq => absurd heq hne) hx)
    user := fun huser => absurd huser hkernel
    kernel := fun _ => by
      obtain ⟨g, fs, hcurrent, hzero, hstack⟩ := h.kernel hkernel
      show ∃ g fs, Function.update σ.frames t _ σ.current = some (g :: fs) ∧ σ.cpu.scratch1 = 0 ∧
        OnStack (σ.stack σ.current) g.addr (σ.cpu.regs.get sp)
      by_cases ht : σ.current = t
      · rw [← ht, hcurrent, Option.some.injEq] at hframes
        obtain ⟨g', fs', heq, haddr⟩ := head_of_edit context hframes.symm
        rw [ht, Function.update_self, heq, ← ht]
        exact ⟨g', fs', rfl, hzero, haddr ▸ hstack⟩
      · rw [Function.update_of_ne ht]
        exact ⟨g, fs, hcurrent, hzero, hstack⟩
    waiting := fun u gs hne hu => by
      show ∃ g fs, gs = g :: fs ∧ OnStack (σ.stack u) g.addr (σ.cpu.thread u .sp)
      rcases frames_update hu with ⟨rfl, rfl⟩ | ⟨-, hu⟩
      · obtain ⟨g, fs, heq, hstack⟩ := h.waiting u _ hne hframes
        obtain ⟨g', fs', heq', haddr⟩ := head_of_edit context heq
        exact ⟨g', fs', heq', haddr ▸ hstack⟩
      · exact h.waiting u gs hne hu }

theorem TrapInv.reap (h : TrapInv σ) {p : Word} (hp : p ≠ σ.current) :
    TrapInv { σ with frames := Function.update σ.frames p none } := by
  have hold : ∀ t gs, Function.update σ.frames p none t = some gs → σ.frames t = some gs := by
    intro t gs ht
    by_cases heq : t = p
    · rw [heq, Function.update_self] at ht
      cases ht
    · rwa [Function.update_of_ne heq] at ht
  have hlive : ∀ t, Function.update σ.frames p none t ≠ none → σ.frames t ≠ none := by
    intro t ht
    obtain ⟨gs, hgs⟩ := Option.ne_none_iff_exists'.mp ht
    rw [hold t gs hgs]
    exact Option.some_ne_none gs
  have hcurrent : Function.update σ.frames p none σ.current = σ.frames σ.current :=
    Function.update_of_ne (Ne.symm hp) ..
  exact {
    scratch2_eq := h.scratch2_eq
    page := fun t ht => h.page t (hlive t ht)
    stack_inj := fun t u ht hu => h.stack_inj t u (hlive t ht) (hlive u hu)
    nested := fun t gs ht => h.nested t gs (hold t gs ht)
    holds := fun t gs ht => h.holds t gs (hold t gs ht)
    user := fun huser => by
      show Function.update σ.frames p none σ.current = _ ∧ _
      rw [hcurrent]
      exact h.user huser
    kernel := fun hkernel => by
      show ∃ f fs, Function.update σ.frames p none σ.current = some (f :: fs) ∧ _
      rw [hcurrent]
      exact h.kernel hkernel
    waiting := fun t gs hne ht => h.waiting t gs hne (hold t gs ht) }

theorem TrapStep.inv {event : TrapEvent} {σ' : TrapSystem} (hstep : TrapStep unit code σ event σ')
    (h : TrapInv σ) : TrapInv σ' := by
  cases hstep with
  | work c hmode hscratch1 hscratch2 hthread hmem hsp =>
    exact h.work hmode hscratch1 hscratch2 hthread hmem hsp
  | trap cause handler hframes hroom => exact h.trap cause handler hframes hroom
  | ret hkernel hframes hsp huser => exact h.ret hkernel hframes hsp huser
  | switchTo next hkernel hnext hne ha0 ha1 => exact h.switchTo hkernel hnext hne ha0 ha1
  | copyThread p args page hnew hpage hother mem hmem hkeeps =>
    exact h.copyThread hnew hpage hother hmem hkeeps
  | edit t context hkernel hframes hinner mem hmem hkeeps =>
    exact h.edit hkernel hframes hinner hmem hkeeps
  | reap p hp => exact h.reap hp

theorem TrapReach.inv (h : TrapReach unit code σ) : TrapInv σ := by
  induction h with
  | boot hbooted => exact hbooted.inv
  | step _ hstep ih => exact hstep.inv ih

end

/-! ## The way back -/

/-- The frame of the task with `n` others around it. -/
def TrapSystem.frameAt (σ : TrapSystem) (t : Word) (n : Nat) : Option Frame :=
  ((σ.frames t).getD []).reverse[n]?

/-- A run in which the task does not return from the trap with `n` others around it, and nobody gives what
is saved for it another value. -/
inductive TrapDuring (unit : TrapUnit) (code : ForkCode) (t : Word) (n : Nat) (σ : TrapSystem) :
    TrapSystem → Prop where
  | start (h : n < σ.depth t) : TrapDuring unit code t n σ σ
  | step {σ₁ σ₂ : TrapSystem} {event : TrapEvent} (h : TrapDuring unit code t n σ σ₁)
      (hstep : TrapStep unit code σ₁ event σ₂)
      (hedit : ∀ u outer, event = .edit u outer → u = t → outer ≠ n) (hdepth : n < σ₂.depth t) :
      TrapDuring unit code t n σ σ₂

section
variable {unit : TrapUnit} {code : ForkCode} {σ σ' : TrapSystem} {t : Word} {n : Nat} {f : Frame}

/-- A step leaves the frame where it is, unless the trap returns or the frame is written. -/
theorem TrapStep.frameAt {event : TrapEvent} (hstep : TrapStep unit code σ event σ')
    (hedit : ∀ u outer, event = .edit u outer → u = t → outer ≠ n) (hdepth : n < σ'.depth t)
    (h : σ.frameAt t n = some f) : σ'.frameAt t n = some f := by
  -- what the list of the task is after a step that gives some task another one
  have hself : ∀ (frames : Word → Option (List Frame)) u fs, t = u →
      Function.update frames u (some fs) t = some fs := by
    rintro frames u fs rfl
    exact Function.update_self ..
  cases hstep with
  | work => exact h
  | switchTo => exact h
  | @trap fs cause handler hframes hroom =>
    unfold TrapSystem.frameAt at h ⊢
    dsimp only
    by_cases ht : t = σ.current
    · rw [ht, hframes, Option.getD_some] at h
      rw [hself _ _ _ ht, Option.getD_some, List.reverse_cons]
      rw [List.getElem?_append_left ((List.getElem?_eq_some_iff.mp h).1)]
      exact h
    · rwa [Function.update_of_ne ht]
  | @ret g fs hkernel hframes hsp huser =>
    unfold TrapSystem.frameAt at h ⊢
    unfold TrapSystem.depth at hdepth
    dsimp only at hdepth ⊢
    by_cases ht : t = σ.current
    · rw [ht, hframes, Option.getD_some, List.reverse_cons] at h
      rw [hself _ _ _ ht, Option.getD_some] at hdepth ⊢
      rwa [List.getElem?_append_left (by rw [List.length_reverse]; exact hdepth)] at h
    · rwa [Function.update_of_ne ht]
  | copyThread p args page hnew hpage hother mem hmem hkeeps =>
    have ht : t ≠ p := by
      rintro rfl
      rw [TrapSystem.frameAt, hnew] at h
      cases h
    unfold TrapSystem.frameAt at h ⊢
    dsimp only
    rwa [Function.update_of_ne ht]
  | @edit u before after g context hkernel hframes hinner mem hmem hkeeps =>
    unfold TrapSystem.frameAt at h ⊢
    dsimp only
    by_cases ht : t = u
    · have hne := hedit u after.length rfl ht.symm
      rw [ht, hframes, Option.getD_some, List.reverse_append, List.reverse_cons, List.append_assoc] at h
      rw [hself _ _ _ ht, Option.getD_some, List.reverse_append, List.reverse_cons, List.append_assoc]
      by_cases hlt : n < after.reverse.length
      · rw [List.getElem?_append_left hlt] at h ⊢
        exact h
      · have hlength : after.reverse.length = after.length := List.length_reverse
        obtain ⟨k, hk⟩ : ∃ k, n - after.reverse.length = k + 1 := ⟨n - after.length - 1, by omega⟩
        rw [List.getElem?_append_right (by omega), hk] at h ⊢
        exact h
    · rwa [Function.update_of_ne ht]
  | reap p hp =>
    unfold TrapSystem.depth at hdepth
    dsimp only at hdepth
    by_cases ht : t = p
    · rw [ht, Function.update_self] at hdepth
      cases hdepth
    · unfold TrapSystem.frameAt at h ⊢
      dsimp only
      rwa [Function.update_of_ne ht]

theorem TrapDuring.frameAt (hduring : TrapDuring unit code t n σ σ') (h : σ.frameAt t n = some f) :
    σ'.frameAt t n = some f := by
  induction hduring with
  | start => exact h
  | step _ hstep hedit hdepth ih => exact hstep.frameAt hedit hdepth ih

/-- The stack of a task that there is stays where it is. -/
theorem TrapStep.stack_eq {event : TrapEvent} (hstep : TrapStep unit code σ event σ')
    (ht : σ.frames t ≠ none) : σ'.stack t = σ.stack t := by
  cases hstep with
  | copyThread p args page hnew =>
    have hne : t ≠ p := by
      rintro rfl
      exact ht hnew
    exact Function.update_of_ne hne ..
  | _ => rfl

theorem TrapDuring.stack_eq (hduring : TrapDuring unit code t n σ σ') : σ'.stack t = σ.stack t := by
  have hlive : ∀ σ : TrapSystem, n < σ.depth t → σ.frames t ≠ none := by
    intro σ hdepth hnone
    rw [TrapSystem.depth, hnone] at hdepth
    cases hdepth
  have hdepth : ∀ σ', TrapDuring unit code t n σ σ' → n < σ'.depth t := by
    intro σ' hduring
    cases hduring with
    | start h => exact h
    | step _ _ _ h => exact h
  induction hduring with
  | start => rfl
  | @step σ₁ σ₂ event hduring hstep _ _ ih =>
    exact (hstep.stack_eq (hlive σ₁ (hdepth σ₁ hduring))).trans ih

theorem TrapDuring.inv (hduring : TrapDuring unit code t n σ σ') (h : TrapInv σ) : TrapInv σ' := by
  induction hduring with
  | start => exact h
  | step _ hstep _ _ ih => exact hstep.inv ih

end

/-- In every state that is reached: `scratch2` has the task, and `scratch1` the end of its stack in user
mode and nothing in the kernel. Every `struct pt_regs` of a trap that has not returned is in the stack of
its task and holds what is to be resumed, and no two of them have a word in common, whether they are of
one task or of two. -/
theorem trapFrames_hold {unit : TrapUnit} {code : ForkCode} {σ : TrapSystem}
    (hreach : TrapReach unit code σ) :
    σ.cpu.scratch2 = σ.current ∧
    (σ.InUser → σ.depth σ.current = 0 ∧ σ.cpu.scratch1 = σ.stack σ.current + threadSize) ∧
    (¬σ.InUser → 0 < σ.depth σ.current ∧ σ.cpu.scratch1 = 0) ∧
    (∀ t n f, σ.frameAt t n = some f → HoldsContext σ.cpu.mem f.addr f.context ∧
      (σ.stack t).toNat ≤ f.addr.toNat ∧ f.addr.toNat + 136 ≤ (σ.stack t).toNat + 4096) ∧
    ∀ t n f u m g, σ.frameAt t n = some f → σ.frameAt u m = some g → (t, n) ≠ (u, m) →
      ∀ x, InFrame g.addr x → ¬InFrame f.addr x := by
  have h := hreach.inv
  have hlist : ∀ {t n f}, σ.frameAt t n = some f → ∃ before after,
      σ.frames t = some (before ++ f :: after) ∧ after.length = n := by
    intro t n f hf
    unfold TrapSystem.frameAt at hf
    cases hframes : σ.frames t with
    | none =>
      rw [hframes] at hf
      cases hf
    | some fs =>
      rw [hframes, Option.getD_some] at hf
      obtain ⟨hlt, hget⟩ := List.getElem?_eq_some_iff.mp hf
      refine ⟨(fs.reverse.drop (n + 1)).reverse, (fs.reverse.take n).reverse, ?_, ?_⟩
      · have hsplit : fs.reverse = fs.reverse.take n ++ (f :: fs.reverse.drop (n + 1)) := by
          rw [← hget, List.getElem_cons_drop, List.take_append_drop]
        have hreverse := congrArg List.reverse hsplit
        rw [List.reverse_reverse, List.reverse_append, List.reverse_cons, List.append_assoc,
          List.singleton_append] at hreverse
        exact congrArg some hreverse
      · rw [List.length_reverse, List.length_take]
        omega
  refine ⟨h.scratch2_eq, fun huser => ?_, fun hkernel => ?_, fun t n f hf => ?_, ?_⟩
  · obtain ⟨hframes, hscratch1⟩ := h.user huser
    rw [TrapSystem.depth, hframes]
    exact ⟨rfl, hscratch1⟩
  · obtain ⟨f, fs, hframes, hscratch1, -⟩ := h.kernel hkernel
    rw [TrapSystem.depth, hframes]
    exact ⟨Nat.succ_pos _, hscratch1⟩
  · obtain ⟨before, after, hframes, -⟩ := hlist hf
    have hmem : f ∈ before ++ f :: after := List.mem_append_right _ List.mem_cons_self
    have hbounds := h.bounds hframes hmem
    exact ⟨h.holds t _ hframes f hmem, hbounds.1, hbounds.2.1⟩
  · intro t n f u m g hf hg hne x hx
    obtain ⟨before, after, hframes, hafter⟩ := hlist hf
    obtain ⟨before', after', hframes', hafter'⟩ := hlist hg
    refine h.apart_of hframes hframes' (List.mem_append_right _ List.mem_cons_self) (fun heq => ?_) hx
    subst heq
    -- in one task the number of frames around them tells them apart
    have hnm : n ≠ m := fun heq => hne (by rw [heq])
    rw [hframes, Option.some.injEq] at hframes'
    rcases List.append_eq_append_iff.mp hframes' with ⟨middle, hbefore, hrest⟩ | ⟨middle, hbefore, hrest⟩
    · cases middle with
      | nil =>
        rw [List.nil_append] at hrest
        have hlength := congrArg List.length (List.cons.inj hrest).2
        omega
      | cons y middle =>
        have hrest := (List.cons.inj hrest).2
        exact .inr (by rw [hrest]; exact List.mem_append_right _ List.mem_cons_self)
    · cases middle with
      | nil =>
        rw [List.nil_append] at hrest
        have hlength := congrArg List.length (List.cons.inj hrest).2
        omega
      | cons y middle =>
        obtain ⟨rfl, -⟩ := List.cons.inj hrest
        exact .inl (by rw [hbefore]; exact List.mem_append_right _ List.mem_cons_self)

/-- `init_task` after `_start`. -/
def initSystem : TrapSystem where
  cpu := {
    regs := ⟨fun r => if r = sp then 0x10f78 else 0⟩
    mem := fun _ => 0
    pc := 0x1000
    rs := rsM
    epc := 0
    scratch0 := 0
    scratch1 := 0
    scratch2 := 0xa000
    thread := fun _ _ => 0 }
  current := 0xa000
  stack _ := 0x10000
  frames t := if t = 0xa000 then some [⟨0x10f78, ⟨fun _ => 0, 0, 0⟩⟩] else none

theorem initSystem_frames : initSystem.frames initSystem.current =
    some [⟨initSystem.stack initSystem.current + threadSize - ptSizeOnStack, ⟨fun _ => 0, 0, 0⟩⟩] := by
  rw [show initSystem.stack initSystem.current + threadSize - ptSizeOnStack = 0x10f78 by decide]
  show (if (0xa000 : Word) = 0xa000 then some [Frame.mk 0x10f78 ⟨fun _ => 0, 0, 0⟩] else none) = _
  rw [if_pos rfl]

theorem booted_initSystem : Booted initSystem where
  kernel := by decide
  scratch1 := rfl
  scratch2 := rfl
  page := ⟨by decide, by decide⟩
  sp_eq := by decide
  frames := ⟨_, initSystem_frames, ⟨fun _ _ => rfl, rfl, rfl⟩⟩
  alone t ht := if_neg ht

/-- A trap out of the kernel. -/
theorem trapStep_initSystem (unit : TrapUnit) (code : ForkCode) : ∃ σ,
    TrapStep unit code initSystem (.trap 0 0x2000) σ ∧ σ.current = initSystem.current ∧ ¬σ.InUser ∧
      ∃ f g, σ.frames σ.current = some [f, g] ∧ σ.cpu.regs.get sp = f.addr := by
  have hstep := @TrapStep.trap unit code initSystem _ 0 0x2000 initSystem_frames fun _ => by decide
  have hrs := (initSystem.trapped_entered unit 0 0x2000).rs_eq
  generalize initSystem.trapped unit 0 0x2000 = c at hstep hrs
  refine ⟨_, hstep, rfl, ?_, ⟨c.regs.get sp, initSystem.interrupted unit 0⟩, _,
    @Function.update_self _ _ _ initSystem.current _ initSystem.frames, rfl⟩
  have hmode : unit.enter 0 initSystem.cpu.rs &&& rsU = 0 := unit.enter_u 0 initSystem.cpu.rs
  show ¬c.rs &&& rsU ≠ 0
  rw [hrs]
  exact not_not.mpr hmode

/-- A trap taken during the boot. -/
theorem trapFrames_hold_boot : ∃ σ,
    TrapStep .threeLevels ⟨0, 0⟩ initSystem (.trap 0 0x2000) σ ∧ ¬σ.InUser ∧ σ.cpu.scratch1 = 0 := by
  obtain ⟨σ, hstep, -, hkernel, -⟩ := trapStep_initSystem .threeLevels ⟨0, 0⟩
  have hreach : TrapReach .threeLevels ⟨0, 0⟩ σ := .step (.boot booted_initSystem) hstep
  exact ⟨σ, hstep, hkernel, ((trapFrames_hold hreach).2.2.1 hkernel).2⟩

/-- Whatever happens between a trap and the return from it, traps in the kernel and other tasks included:
the program goes on with every register, at its address and in its mode, as it was interrupted, as long
as nobody has written to what is saved for it. -/
theorem trap_resumes {unit : TrapUnit} {code : ForkCode} {σ σ₁ σ₂ σ₃ : TrapSystem} {cause handler : Word}
    (hreach : TrapReach unit code σ) (htrap : TrapStep unit code σ (.trap cause handler) σ₁)
    (hduring : TrapDuring unit code σ.current (σ.depth σ.current) σ₁ σ₂)
    (hcurrent : σ₂.current = σ.current) (hdepth : σ₂.depth σ.current = σ.depth σ.current + 1)
    (hret : TrapStep unit code σ₂ .ret σ₃) :
    (∀ r, r ≠ zero → σ₃.cpu.regs.get r = σ.cpu.regs.get r) ∧ σ₃.cpu.pc = σ.cpu.pc ∧
      σ₃.cpu.rs &&& rsModes = σ.cpu.rs &&& rsModes ∧ σ₃.cpu.scratch1 = σ.cpu.scratch1 := by
  have h := hreach.inv
  have h₂ := hduring.inv (htrap.inv h)
  have h₃ := hret.inv h₂
  cases htrap with
  | @trap fs cause handler hframes hroom =>
    have hfirst : (TrapSystem.mk (σ.trapped unit cause handler) σ.current σ.stack
        (Function.update σ.frames σ.current (some (
          ⟨(σ.trapped unit cause handler).regs.get sp, σ.interrupted unit cause⟩ :: fs)))).frameAt
        σ.current (σ.depth σ.current) =
          some ⟨(σ.trapped unit cause handler).regs.get sp, σ.interrupted unit cause⟩ := by
      have hlength : σ.depth σ.current = fs.reverse.length := by
        rw [TrapSystem.depth, hframes, List.length_reverse]
        rfl
      unfold TrapSystem.frameAt
      dsimp only
      rw [Function.update_self, Option.getD_some, List.reverse_cons, hlength,
        List.getElem?_concat_length]
    have hlast := hduring.frameAt hfirst
    cases hret with
    | @ret g gs hkernel hframes₂ hsp huser =>
      rw [hcurrent] at hframes₂
      have hlength : σ.depth σ.current = gs.reverse.length := by
        have hlong := hdepth
        rw [TrapSystem.depth, hframes₂, Option.getD_some, List.length_cons] at hlong
        rw [List.length_reverse]
        exact (Nat.succ.inj hlong).symm
      rw [TrapSystem.frameAt, hframes₂, Option.getD_some, List.reverse_cons, hlength,
        List.getElem?_concat_length, Option.some.injEq] at hlast
      rw [← hcurrent] at hframes₂
      obtain ⟨hgpr, hpc, hrs, -⟩ := h₂.returned unit hframes₂ hsp
      rw [hlast] at hgpr hpc hrs
      have hmodes : (unit.rfe σ₂.cpu.returnFromTrap).rs &&& rsModes = σ.cpu.rs &&& rsModes := by
        rw [hrs]
        exact unit.leave_enter cause σ.cpu.rs
      refine ⟨hgpr, hpc, hmodes, ?_⟩
      have hu : (unit.rfe σ₂.cpu.returnFromTrap).rs &&& rsU = σ.cpu.rs &&& rsU := by
        have hmask : ∀ rs : Word, rs &&& rsU = (rs &&& rsModes) &&& rsU := fun rs => by
          rw [BitVec.and_assoc]
          rfl
        rw [hmask, hmodes, ← hmask]
      have hstack : σ₂.stack σ₂.current = σ.stack σ.current := by
        rw [hcurrent]
        exact hduring.stack_eq
      by_cases huser : σ.InUser
      · have huser₃ : (unit.rfe σ₂.cpu.returnFromTrap).rs &&& rsU ≠ 0 := by
          rw [hu]
          exact huser
        refine (h₃.user huser₃).2.trans ?_
        rw [(h.user huser).2, ← hstack]
      · have hkernel₃ : ¬(unit.rfe σ₂.cpu.returnFromTrap).rs &&& rsU ≠ 0 := by
          rw [hu]
          exact huser
        obtain ⟨-, -, -, hzero₃, -⟩ := h₃.kernel hkernel₃
        obtain ⟨-, -, -, hzero, -⟩ := h.kernel huser
        exact hzero₃.trans hzero.symm

/-- The trap returns at once. -/
theorem trap_resumes_boot : ∃ σ₁ σ₃,
    TrapStep .threeLevels ⟨0, 0⟩ initSystem (.trap 0 0x2000) σ₁ ∧
      TrapStep .threeLevels ⟨0, 0⟩ σ₁ .ret σ₃ ∧ σ₃.cpu.pc = 0x1000 ∧ σ₃.cpu.regs.get sp = 0x10f78 := by
  obtain ⟨σ₁, htrap, hcurrent, hkernel, f, g, hframes, hsp⟩ := trapStep_initSystem .threeLevels ⟨0, 0⟩
  have hret := @TrapStep.ret .threeLevels ⟨0, 0⟩ σ₁ f [g] hkernel hframes hsp nofun
  have hdepth : σ₁.depth initSystem.current = initSystem.depth initSystem.current + 1 := by
    rw [← hcurrent, TrapSystem.depth, hframes, hcurrent]
    rfl
  have hresumed := trap_resumes (.boot booted_initSystem) htrap (.start (by rw [hdepth]; exact Nat.lt_succ_self _))
    hcurrent hdepth hret
  exact ⟨σ₁, _, htrap, hret, hresumed.2.1, hresumed.1 sp (by decide)⟩

end XrLinux.Linux
