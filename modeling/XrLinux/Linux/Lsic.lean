import Mathlib.Data.BitVec
import Mathlib.Logic.Function.Basic

/-!
# Linux — masking and affinity of the LSIC

`irq-xrarch-lsic.c`: for every processor the controller has two words of disable bits, one bit for
each interrupt. The registers are by their offsets. Of the rest of the kernel there is what the
driver uses, `IrqCore`: the numbers of the CPUs and the recorded effective affinity.
-/

namespace XrLinux.Linux

/-- `struct cpumask`. -/
abbrev Cpumask := Nat → Bool

def cpumaskOf (cpu : Nat) : Cpumask := fun c => c == cpu

def cpumaskAnd (mask mask' : Cpumask) : Cpumask := fun cpu => mask cpu && mask' cpu

/-- `cpumask_first`: below `nr_cpu_ids`, unless the mask is empty. -/
def cpumaskFirst (nrCpuIds : Nat) (mask : Cpumask) : Nat :=
  ((List.range nrCpuIds).find? mask).getD nrCpuIds

/-- What the driver is given. -/
structure IrqCore where
  nrCpuIds : Nat
  /-- `xr17032_cpu_hwid_to_cpuid`, with none for an error. -/
  hwidToCpuid : Nat → Option Nat
  cpuid_lt : ∀ {hwid cpu}, hwidToCpuid hwid = some cpu → cpu < nrCpuIds
  hwid_unique : ∀ {hwid hwid' cpu}, hwidToCpuid hwid = some cpu → hwidToCpuid hwid' = some cpu →
    hwid = hwid'
  /-- The processors that the boot loader has found; the CPUs are among them. -/
  hwids : List Nat
  present : ∀ {cpu}, cpu < nrCpuIds → ∃ hwid ∈ hwids, hwidToCpuid hwid = some cpu
  /-- The recorded effective affinity of an interrupt, with `irq_data_get_effective_affinity_mask`
  and `irq_data_update_effective_affinity`. -/
  Effective : Type
  initial : Effective
  getEffective : Effective → Cpumask
  updateEffective : Effective → Cpumask → Effective
  get_update : ∀ effective {cpu}, cpu < nrCpuIds →
    getEffective (updateEffective effective (cpumaskOf cpu)) = cpumaskOf cpu

/-- A kernel for one processor, where the affinity is not recorded. -/
def upCore (bootCpuHwid : Nat) : IrqCore :=
  { nrCpuIds := 1
    hwidToCpuid := fun hwid => if hwid = bootCpuHwid then some 0 else none
    cpuid_lt := by
      intro hwid cpu h
      split at h
      · cases h
        exact Nat.one_pos
      · cases h
    hwid_unique := by
      intro hwid hwid' cpu h h'
      split at h
      · split at h'
        · exact (‹hwid = bootCpuHwid›).trans (‹hwid' = bootCpuHwid›).symm
        · cases h'
      · cases h
    hwids := [bootCpuHwid]
    present := by
      intro cpu hcpu
      obtain rfl : cpu = 0 := by omega
      exact ⟨bootCpuHwid, List.mem_singleton_self _, if_pos rfl⟩
    Effective := Unit
    initial := ()
    getEffective := fun _ => cpumaskOf 0
    updateEffective := fun _ _ => ()
    get_update := by
      intro _ cpu hcpu
      obtain rfl : cpu = 0 := by omega
      rfl }

/-- A kernel for as many processors as there are, numbered as they are. -/
def smpCore (nrCpuIds : Nat) : IrqCore :=
  { nrCpuIds
    hwidToCpuid := fun hwid => if hwid < nrCpuIds then some hwid else none
    cpuid_lt := by
      intro hwid cpu h
      split at h
      · cases h
        assumption
      · cases h
    hwid_unique := by
      intro hwid hwid' cpu h h'
      split at h
      · split at h'
        · cases h
          cases h'
          rfl
        · cases h'
      · cases h
    hwids := List.range nrCpuIds
    present := fun {cpu} hcpu => ⟨cpu, List.mem_range.2 hcpu, if_pos hcpu⟩
    Effective := Cpumask
    initial := fun _ => false
    getEffective := id
    updateEffective := fun _ mask => mask
    get_update := fun _ _ _ => rfl }

def lsicParentIrq : Nat := 1

def lsicIrqs : Nat := 64

def lsicStride : Nat := 0x20

def lsicDisa : Nat := 0x00

def lsicPend : Nat := 0x08

def lsicIpl : Nat := 0x14

/-- The registers of the controller, by their offsets from `regs`. -/
abbrev LsicRegs := Nat → BitVec 32

/-- `struct irq_data` and what belongs to it, for an interrupt of this controller. -/
structure IrqData (core : IrqCore) where
  effective : core.Effective
  affinity : Cpumask
  /-- `irqd_irq_masked` -/
  masked : Bool

/-- The controller with the data of its driver. -/
structure Lsic (core : IrqCore) where
  regs : LsicRegs
  lmask : Cpumask
  /-- `regs` of the `struct lsic_handler` of a CPU, an offset here. -/
  handlers : Nat → Option Nat
  /-- The mapped interrupts. -/
  irqs : Nat → Option (IrqData core)

variable {core : IrqCore}

/-! ## `lsic_init` -/

/-- An upstream interrupt in the device tree. -/
structure LsicContext where
  hwirq : Nat
  cpuHwid : Nat

/-- `BxDtAddLsic`: one for each processor, `BX_CPU_IRQ_INT`. -/
def bxDtAddLsic (hwids : List Nat) : List (Option LsicContext) :=
  hwids.map fun hwid => some ⟨1, hwid⟩

/-- All interrupts disabled and none pending. -/
def resetContext (ctxRegs : Nat) (regs : LsicRegs) : LsicRegs :=
  [(lsicDisa, (BitVec.allOnes 32)), (lsicDisa + 4, BitVec.allOnes 32), (lsicPend, 0),
    (lsicPend + 4, 0), (lsicIpl, BitVec.ofNat 32 (lsicIrqs - 1))].foldl
    (fun regs x => Function.update regs (ctxRegs + x.1) x.2) regs

/-- A turn of the loop over the contexts, one of which may not be readable. -/
def initContext (s : Lsic core) : Option LsicContext → Lsic core
  | none => s
  | some ctx =>
    let ctxRegs := ctx.cpuHwid * lsicStride
    let s := { s with regs := resetContext ctxRegs s.regs }
    match core.hwidToCpuid ctx.cpuHwid with
    | none => s
    | some cpu =>
      if ctx.hwirq ≠ lsicParentIrq then s
      else
        { s with
          lmask := Function.update s.lmask cpu true
          handlers := Function.update s.handlers cpu (some ctxRegs) }

def lsicInit (core : IrqCore) (regs : LsicRegs) (contexts : List (Option LsicContext)) :
    Lsic core :=
  contexts.foldl initContext
    { regs, lmask := fun _ => false, handlers := fun _ => none, irqs := fun _ => none }

/-! ## The chip -/

/-- A turn of the loop of `lsic_irq_set_masked`. A CPU without a handler is a null pointer. -/
def setMaskedOn (handlers : Nat → Option Nat) (hwirq : Nat) (masked : Bool) (regs : LsicRegs)
    (cpu : Nat) : Option LsicRegs :=
  match handlers cpu with
  | none => none
  | some handler =>
    let offset := hwirq / 32 * 4
    let mask := (1 : BitVec 32) <<< (hwirq % 32)
    let reg := handler + lsicDisa + offset
    let value := regs reg
    some (Function.update regs reg (if masked then value ||| mask else value &&& ~~~mask))

/-- `lsic_irq_set_masked`. -/
def irqSetMasked (s : Lsic core) (hwirq : Nat) (effective : core.Effective) (masked : Bool)
    (regs : LsicRegs) : Option LsicRegs :=
  ((List.range core.nrCpuIds).filter (core.getEffective effective)).foldlM
    (setMaskedOn s.handlers hwirq masked) regs

/-- `lsic_set_affinity`, which returns `-EINVAL` (`false`) or `IRQ_SET_MASK_OK_DONE`. -/
def lsicSetAffinity (s : Lsic core) (hwirq : Nat) (d : IrqData core) (maskVal online : Cpumask)
    (force : Bool) : Option (Lsic core × Bool) :=
  let cpu :=
    if force then cpumaskFirst core.nrCpuIds (cpumaskAnd s.lmask maskVal)
    else cpumaskFirst core.nrCpuIds (cpumaskAnd (cpumaskAnd s.lmask maskVal) online)
  if cpu ≥ core.nrCpuIds then some (s, false)
  else do
    let regs ← irqSetMasked s hwirq d.effective true s.regs
    let effective := core.updateEffective d.effective (cpumaskOf cpu)
    let regs ← bif d.masked then some regs else irqSetMasked s hwirq effective false regs
    some ({ s with
      regs
      irqs := Function.update s.irqs hwirq (some { d with effective }) }, true)

/-! ## The kernel around it -/

/-- `cpu_online_mask`: there is a CPU that runs the code. -/
abbrev OnlineMask (core : IrqCore) := { mask : Cpumask // ∃ cpu, cpu < core.nrCpuIds ∧ mask cpu }

/-- `irq_do_set_affinity`: only CPUs that are online get to the driver, and the affinity is
recorded if it has succeeded. -/
def irqDoSetAffinity (s : Lsic core) (hwirq : Nat) (d : IrqData core) (mask : Cpumask)
    (online : OnlineMask core) (force : Bool) : Option (Lsic core × Bool) :=
  let tmpMask := cpumaskAnd mask online.1
  if !force ∧ cpumaskFirst core.nrCpuIds tmpMask ≥ core.nrCpuIds then some (s, false)
  else do
    let (s, done) ← lsicSetAffinity s hwirq d (bif force then mask else tmpMask) online.1 force
    bif done then
      some ({ s with
        irqs := Function.update s.irqs hwirq
          ((s.irqs hwirq).map fun d => { d with affinity := mask }) }, true)
    else some (s, false)

/-- What happens to an interrupt. -/
inductive LsicOp (core : IrqCore) where
  /-- `lsic_domain_map`, for an interrupt that is not mapped. -/
  | map (hwirq : Nat) (online : OnlineMask core)
  | mask (hwirq : Nat)
  | unmask (hwirq : Nat)
  | setAffinity (hwirq : Nat) (mask : Cpumask) (online : OnlineMask core) (force : Bool)

def LsicOp.hwirq : LsicOp core → Nat
  | .map hwirq _ => hwirq
  | .mask hwirq => hwirq
  | .unmask hwirq => hwirq
  | .setAffinity hwirq _ _ _ => hwirq

/-- `mask_irq` and `unmask_irq`: the chip, and then `irqd_irq_masked`. -/
def lsicSetMaskedIrq (s : Lsic core) (hwirq : Nat) (d : IrqData core) (masked : Bool) :
    Option (Lsic core) := do
  let regs ← irqSetMasked s hwirq d.effective masked s.regs
  some { s with regs, irqs := Function.update s.irqs hwirq (some { d with masked }) }

/-- None is a null pointer. There is nothing to do for an interrupt that is not mapped, or for one
that is to be mapped and is. -/
def lsicStep (s : Lsic core) : LsicOp core → Option (Lsic core)
  | .map hwirq online =>
    if hwirq < lsicIrqs ∧ (s.irqs hwirq).isNone then
      -- A new interrupt is masked, and its affinity is set to the CPUs of this controller.
      let d : IrqData core := { effective := core.initial, affinity := fun _ => true, masked := true }
      let s := { s with irqs := Function.update s.irqs hwirq (some d) }
      (irqDoSetAffinity s hwirq d s.lmask online false).map Prod.fst
    else some s
  | .mask hwirq =>
    match s.irqs hwirq with
    | none => some s
    | some d => lsicSetMaskedIrq s hwirq d true
  | .unmask hwirq =>
    match s.irqs hwirq with
    | none => some s
    | some d => lsicSetMaskedIrq s hwirq d false
  | .setAffinity hwirq mask online force =>
    match s.irqs hwirq with
    | none => some s
    | some d => (irqDoSetAffinity s hwirq d mask online force).map Prod.fst

end XrLinux.Linux
