import XrLinux.Lib.BitField
import XrLinux.Lib.Run
import XrLinux.Linux.Lsic
import Mathlib.Tactic.Tauto

/-!
# Linux — every run of the LSIC driver

What the disable bits are after any operations. A turn of the loop of `lsic_irq_set_masked` decides
one bit (`setMaskedOn_spec`); the invariant says for each interrupt where it is enabled, and every
operation changes one interrupt only.
-/

namespace XrLinux.Linux

variable {core : IrqCore}

/-! ## The bits -/

/-- The disable bit of an interrupt on a processor. -/
def disabled (regs : LsicRegs) (hwid hwirq : Nat) : Bool :=
  (regs (hwid * lsicStride + lsicDisa + hwirq / 32 * 4)).getLsbD (hwirq % 32)

/-- The word with the bit set or cleared. -/
theorem getLsbD_setMasked (value : BitVec 32) (masked : Bool) {k j : Nat} (hk : k < 32)
    (hj : j < 32) :
    (if masked then value ||| (1 : BitVec 32) <<< k
      else value &&& ~~~((1 : BitVec 32) <<< k)).getLsbD j =
      if j = k then masked else value.getLsbD j := by
  have hbit := BitField.getLsbD_oneShift hk hj
  cases masked with
  | true =>
    rw [if_pos rfl, BitVec.getLsbD_or, hbit]
    by_cases hjk : j = k <;> simp [hjk]
  | false =>
    rw [if_neg Bool.false_ne_true, BitVec.getLsbD_and, BitVec.getLsbD_not, hbit]
    by_cases hjk : j = k <;> simp [hjk, hj]

/-- A turn of the loop makes one bit what it is to be. -/
theorem setMaskedOn_spec {handlers : Nat → Option Nat} {hwirq : Nat} {masked : Bool}
    {regs : LsicRegs} {cpu hwid : Nat} (hhandler : handlers cpu = some (hwid * lsicStride))
    (hhwirq : hwirq < lsicIrqs) :
    ∃ regs', setMaskedOn handlers hwirq masked regs cpu = some regs' ∧
      ∀ hwid' hwirq', hwirq' < lsicIrqs → disabled regs' hwid' hwirq' =
        if hwid' = hwid ∧ hwirq' = hwirq then masked else disabled regs hwid' hwirq' := by
  rw [setMaskedOn, hhandler]
  refine ⟨_, rfl, fun hwid' hwirq' hhwirq' => ?_⟩
  simp only [lsicIrqs, lsicStride, lsicDisa, disabled] at *
  by_cases hreg : hwid' * 0x20 + 0 + hwirq' / 32 * 4 = hwid * 0x20 + 0 + hwirq / 32 * 4
  · rw [hreg, Function.update_self, getLsbD_setMasked _ _ (Nat.mod_lt _ (by decide))
      (Nat.mod_lt _ (by decide))]
    have hsame : hwirq' % 32 = hwirq % 32 ↔ hwid' = hwid ∧ hwirq' = hwirq := by omega
    simp only [hsame]
  · have hne : ¬ (hwid' = hwid ∧ hwirq' = hwirq) := by
      rintro ⟨rfl, rfl⟩
      exact hreg rfl
    rw [Function.update_of_ne hreg, if_neg hne]

/-- The bits of `hwirq` on some processors have become `masked`, and no others have changed. -/
structure MaskedOn (core : IrqCore) (cpus : Nat → Prop) (hwirq : Nat) (masked : Bool)
    (regs regs' : LsicRegs) : Prop where
  set : ∀ {hwid cpu}, core.hwidToCpuid hwid = some cpu → cpus cpu →
    disabled regs' hwid hwirq = masked
  kept : ∀ {hwid hwirq'}, hwirq' < lsicIrqs →
    (hwirq' ≠ hwirq ∨ ∀ cpu, core.hwidToCpuid hwid = some cpu → ¬ cpus cpu) →
      disabled regs' hwid hwirq' = disabled regs hwid hwirq'

/-- The handler of every CPU has the registers of its processor. -/
def HandlersReady (core : IrqCore) (handlers : Nat → Option Nat) : Prop :=
  ∀ {cpu}, cpu < core.nrCpuIds →
    ∃ hwid, core.hwidToCpuid hwid = some cpu ∧ handlers cpu = some (hwid * lsicStride)

/-- The whole loop, on whichever CPUs. -/
theorem setMaskedOn_foldlM {handlers : Nat → Option Nat} (hready : HandlersReady core handlers)
    {hwirq : Nat} {masked : Bool} (hhwirq : hwirq < lsicIrqs) (cpus : List Nat)
    (hcpus : ∀ cpu ∈ cpus, cpu < core.nrCpuIds) (regs : LsicRegs) :
    ∃ regs', cpus.foldlM (setMaskedOn handlers hwirq masked) regs = some regs' ∧
      MaskedOn core (· ∈ cpus) hwirq masked regs regs' := by
  induction cpus generalizing regs with
  | nil =>
    refine ⟨regs, rfl, fun _ hcpu => absurd hcpu List.not_mem_nil, fun _ _ => rfl⟩
  | cons cpu cpus ih =>
    obtain ⟨hwid, hhwid, hhandler⟩ := hready (hcpus cpu List.mem_cons_self)
    obtain ⟨regs₁, hstep, hbits⟩ :=
      @setMaskedOn_spec handlers hwirq masked regs cpu hwid hhandler hhwirq
    obtain ⟨regs', hrest, hset, hkept⟩ :=
      ih (fun c hc => hcpus c (List.mem_cons_of_mem _ hc)) regs₁
    refine ⟨regs', ?_, ?_, ?_⟩
    · rw [List.foldlM_cons, hstep]
      exact hrest
    · intro hwid' cpu' hhwid' hcpu'
      by_cases hmem : cpu' ∈ cpus
      · exact hset hhwid' hmem
      · -- The first CPU, whose bit the rest of the loop leaves alone.
        obtain rfl : cpu' = cpu := (List.mem_cons.1 hcpu').resolve_right hmem
        obtain rfl : hwid' = hwid := core.hwid_unique hhwid' hhwid
        have hnot : ∀ c, core.hwidToCpuid hwid' = some c → c ∉ cpus := by
          intro c hc
          rw [hhwid', Option.some.injEq] at hc
          exact hc ▸ hmem
        rw [hkept hhwirq (.inr hnot), hbits _ _ hhwirq, if_pos ⟨rfl, rfl⟩]
    · intro hwid' hwirq' hlt hother
      have hne : ¬ (hwid' = hwid ∧ hwirq' = hwirq) := by
        rintro ⟨rfl, rfl⟩
        exact (hother.resolve_left (fun h => h rfl)) cpu hhwid List.mem_cons_self
      rw [hkept hlt (hother.imp_right fun h c hc hmem => h c hc (List.mem_cons_of_mem _ hmem)),
        hbits _ _ hlt, if_neg hne]

/-- `lsic_irq_set_masked`. -/
theorem irqSetMasked_spec {s : Lsic core} (hready : HandlersReady core s.handlers) {hwirq : Nat}
    (hhwirq : hwirq < lsicIrqs) (effective : core.Effective) (masked : Bool) (regs : LsicRegs) :
    ∃ regs', irqSetMasked s hwirq effective masked regs = some regs' ∧
      MaskedOn core (fun cpu => core.getEffective effective cpu = true) hwirq masked regs regs' := by
  obtain ⟨regs', hloop, hset, hkept⟩ := @setMaskedOn_foldlM core s.handlers hready hwirq masked
    hhwirq ((List.range core.nrCpuIds).filter (core.getEffective effective))
    (fun cpu hcpu => List.mem_range.1 (List.mem_filter.1 hcpu).1) regs
  refine ⟨regs', hloop, fun hhwid hcpu => hset hhwid ?_, fun hlt hother => hkept hlt ?_⟩
  · exact List.mem_filter.2 ⟨List.mem_range.2 (core.cpuid_lt hhwid), hcpu⟩
  · exact hother.imp_right fun h cpu hcpu hmem => h cpu hcpu (List.mem_filter.1 hmem).2

/-! ## The invariant -/

/-- The interrupt is enabled on one CPU, or on none if it is masked. -/
def RoutedTo (core : IrqCore) (regs : LsicRegs) (hwirq cpu : Nat) (masked : Bool) : Prop :=
  ∀ hwid ∈ core.hwids, disabled regs hwid hwirq = (masked || core.hwidToCpuid hwid != some cpu)

/-- The bits of the other interrupts are as they were. -/
def OthersKept (regs regs' : LsicRegs) (hwirq : Nat) : Prop :=
  ∀ hwirq', hwirq' < lsicIrqs → hwirq' ≠ hwirq → ∀ hwid,
    disabled regs' hwid hwirq' = disabled regs hwid hwirq'

structure LsicInv (s : Lsic core) : Prop where
  handlers : HandlersReady core s.handlers
  lmask : ∀ {cpu}, cpu < core.nrCpuIds → s.lmask cpu = true
  unmapped : ∀ {hwirq}, hwirq < lsicIrqs → s.irqs hwirq = none →
    ∀ hwid ∈ core.hwids, disabled s.regs hwid hwirq = true
  mapped : ∀ {hwirq d}, s.irqs hwirq = some d → hwirq < lsicIrqs ∧ ∃ cpu, cpu < core.nrCpuIds ∧
    core.getEffective d.effective = cpumaskOf cpu ∧ RoutedTo core s.regs hwirq cpu d.masked

/-- What it takes to change one interrupt. -/
theorem LsicInv.update {s : Lsic core} (hs : LsicInv s) {hwirq cpu : Nat} {d : IrqData core}
    {regs : LsicRegs} (hhwirq : hwirq < lsicIrqs) (hcpu : cpu < core.nrCpuIds)
    (heffective : core.getEffective d.effective = cpumaskOf cpu)
    (hrouted : RoutedTo core regs hwirq cpu d.masked) (hkept : OthersKept s.regs regs hwirq) :
    LsicInv { s with regs, irqs := Function.update s.irqs hwirq (some d) } :=
  { handlers := hs.handlers
    lmask := hs.lmask
    unmapped := by
      intro hwirq' hlt hnone hwid hhwid
      by_cases hne : hwirq' = hwirq
      · subst hne
        change Function.update s.irqs hwirq' (some d) hwirq' = none at hnone
        rw [Function.update_self] at hnone
        cases hnone
      · change Function.update s.irqs hwirq (some d) hwirq' = none at hnone
        rw [Function.update_of_ne hne] at hnone
        show disabled regs hwid hwirq' = true
        rw [hkept hwirq' hlt hne hwid]
        exact hs.unmapped hlt hnone hwid hhwid
    mapped := by
      intro hwirq' d' hd'
      by_cases hne : hwirq' = hwirq
      · subst hne
        change Function.update s.irqs hwirq' (some d) hwirq' = some d' at hd'
        rw [Function.update_self, Option.some.injEq] at hd'
        exact hd' ▸ ⟨hhwirq, cpu, hcpu, heffective, hrouted⟩
      · change Function.update s.irqs hwirq (some d) hwirq' = some d' at hd'
        rw [Function.update_of_ne hne] at hd'
        obtain ⟨hlt, cpu', hcpu', heffective', hrouted'⟩ := hs.mapped hd'
        refine ⟨hlt, cpu', hcpu', heffective', fun hwid hhwid => ?_⟩
        show disabled regs hwid hwirq' = _
        rw [hkept hwirq' hlt hne hwid]
        exact hrouted' hwid hhwid }

theorem cpumaskOf_eq_true {cpu c : Nat} : cpumaskOf cpu c = true ↔ c = cpu := beq_iff_eq

/-- Masking or unmasking where an interrupt is routed to. -/
theorem MaskedOn.routedTo {hwirq cpu : Nat} {masked masked' : Bool} {regs regs' : LsicRegs}
    {effective : core.Effective} (heffective : core.getEffective effective = cpumaskOf cpu)
    (h : MaskedOn core (fun cpu => core.getEffective effective cpu = true) hwirq masked' regs regs')
    (hhwirq : hwirq < lsicIrqs) (hrouted : RoutedTo core regs hwirq cpu masked) :
    RoutedTo core regs' hwirq cpu masked' := by
  intro hwid hhwid
  by_cases hcpu : core.hwidToCpuid hwid = some cpu
  · rw [h.set hcpu (heffective ▸ cpumaskOf_eq_true.2 rfl), hcpu, bne_self_eq_false, Bool.or_false]
  · have hother : ∀ c, core.hwidToCpuid hwid = some c → ¬ core.getEffective effective c = true := by
      intro c hc heff
      rw [heffective, cpumaskOf_eq_true] at heff
      exact hcpu (heff ▸ hc)
    rw [h.kept hhwirq (.inr hother), hrouted hwid hhwid, bne_iff_ne.2 hcpu, Bool.or_true,
      Bool.or_true]

theorem MaskedOn.othersKept {cpus : Nat → Prop} {hwirq : Nat} {masked : Bool}
    {regs regs' : LsicRegs} (h : MaskedOn core cpus hwirq masked regs regs') :
    OthersKept regs regs' hwirq := fun _ hlt hne _ => h.kept hlt (.inl hne)

theorem OthersKept.trans {regs regs' regs'' : LsicRegs} {hwirq : Nat}
    (h : OthersKept regs regs' hwirq) (h' : OthersKept regs' regs'' hwirq) :
    OthersKept regs regs'' hwirq := fun hwirq' hlt hne hwid =>
  (h' hwirq' hlt hne hwid).trans (h hwirq' hlt hne hwid)

theorem lsicSetMaskedIrq_inv {s : Lsic core} (hs : LsicInv s) {hwirq : Nat} {d : IrqData core}
    (hd : s.irqs hwirq = some d) (masked : Bool) :
    ∃ s', lsicSetMaskedIrq s hwirq d masked = some s' ∧ LsicInv s' ∧
      OthersKept s.regs s'.regs hwirq := by
  obtain ⟨hlt, cpu, hcpu, heffective, hrouted⟩ := hs.mapped hd
  obtain ⟨regs, hset, hmasked⟩ := irqSetMasked_spec hs.handlers hlt d.effective masked s.regs
  refine ⟨_, ?_, hs.update hlt hcpu (d := { d with masked }) heffective
    (hmasked.routedTo heffective hlt hrouted) hmasked.othersKept, hmasked.othersKept⟩
  rw [lsicSetMaskedIrq, hset]
  rfl

/-! ## `lsic_set_affinity` -/

theorem cpumaskFirst_lt_iff (nrCpuIds : Nat) (mask : Cpumask) :
    cpumaskFirst nrCpuIds mask < nrCpuIds ↔ ∃ cpu, cpu < nrCpuIds ∧ mask cpu = true := by
  unfold cpumaskFirst
  cases hfind : (List.range nrCpuIds).find? mask with
  | none =>
    rw [List.find?_eq_none] at hfind
    constructor
    · intro hlt
      exact absurd hlt (Nat.lt_irrefl _)
    · rintro ⟨cpu, hcpu, hmask⟩
      exact absurd hmask (hfind cpu (List.mem_range.2 hcpu))
  | some cpu =>
    have hcpu := List.mem_range.1 (List.mem_of_find?_eq_some hfind)
    exact ⟨fun _ => ⟨cpu, hcpu, List.find?_some hfind⟩, fun _ => hcpu⟩

/-- The interrupt is enabled only where its record says. -/
def OnlyEffective (regs : LsicRegs) (hwirq : Nat) (d : IrqData core) : Prop :=
  ∀ hwid ∈ core.hwids, disabled regs hwid hwirq = false →
    ∃ cpu, core.hwidToCpuid hwid = some cpu ∧ core.getEffective d.effective cpu = true

/-- The interrupt has moved. -/
structure Affined (s : Lsic core) (hwirq : Nat) (d : IrqData core) (s' : Lsic core)
    (d' : IrqData core) (cpu : Nat) : Prop where
  cpu_lt : cpu < core.nrCpuIds
  effective_eq : core.getEffective d'.effective = cpumaskOf cpu
  masked_eq : d'.masked = d.masked
  routed : RoutedTo core s'.regs hwirq cpu d.masked
  kept : OthersKept s.regs s'.regs hwirq
  state_eq : s' = { s with regs := s'.regs, irqs := Function.update s.irqs hwirq (some d') }

/-- The CPUs to choose from. -/
def affinityChoice (s : Lsic core) (maskVal online : Cpumask) (force : Bool) : Cpumask :=
  bif force then cpumaskAnd s.lmask maskVal else cpumaskAnd (cpumaskAnd s.lmask maskVal) online

section
variable {s : Lsic core} {hwirq : Nat} {d : IrqData core} {maskVal online : Cpumask} {force : Bool}

/-- `lsic_set_affinity` to a CPU. -/
def moveTo (s : Lsic core) (hwirq : Nat) (d : IrqData core) (cpu : Nat) :
    Option (Lsic core × Bool) := do
  let regs ← irqSetMasked s hwirq d.effective true s.regs
  let effective := core.updateEffective d.effective (cpumaskOf cpu)
  let regs ← bif d.masked then some regs else irqSetMasked s hwirq effective false regs
  some ({ s with
    regs
    irqs := Function.update s.irqs hwirq (some { d with effective }) }, true)

/-- The CPU is the first of the choice. -/
theorem lsicSetAffinity_eq : lsicSetAffinity s hwirq d maskVal online force =
    let cpu := cpumaskFirst core.nrCpuIds (affinityChoice s maskVal online force)
    if cpu ≥ core.nrCpuIds then some (s, false) else moveTo s hwirq d cpu := by
  cases force <;> rfl

theorem lsicSetAffinity_fails
    (hnone : ¬ ∃ cpu, cpu < core.nrCpuIds ∧ affinityChoice s maskVal online force cpu = true) :
    lsicSetAffinity s hwirq d maskVal online force = some (s, false) := by
  rw [← cpumaskFirst_lt_iff, not_lt] at hnone
  rw [lsicSetAffinity_eq]
  exact if_pos hnone

/-- Once it is masked where it was enabled, the interrupt is enabled nowhere. -/
theorem MaskedOn.allDisabled {regs regs' : LsicRegs} (honly : OnlyEffective regs hwirq d)
    (h : MaskedOn core (fun cpu => core.getEffective d.effective cpu = true) hwirq true regs regs')
    (hhwirq : hwirq < lsicIrqs) (cpu : Nat) : RoutedTo core regs' hwirq cpu true := by
  intro hwid hhwid
  show disabled regs' hwid hwirq = true
  by_cases heff : ∃ c, core.hwidToCpuid hwid = some c ∧ core.getEffective d.effective c = true
  · obtain ⟨c, hc, hget⟩ := heff
    exact h.set hc hget
  · rw [h.kept hhwirq (.inr fun c hc hget => heff ⟨c, hc, hget⟩)]
    cases hbit : disabled regs hwid hwirq with
    | true => rfl
    | false => exact absurd (honly hwid hhwid hbit) heff

theorem lsicSetAffinity_moves (hready : HandlersReady core s.handlers) (hhwirq : hwirq < lsicIrqs)
    (honly : OnlyEffective s.regs hwirq d)
    (hsome : ∃ cpu, cpu < core.nrCpuIds ∧ affinityChoice s maskVal online force cpu = true) :
    ∃ s' d' cpu, lsicSetAffinity s hwirq d maskVal online force = some (s', true) ∧
      Affined s hwirq d s' d' cpu := by
  rw [← cpumaskFirst_lt_iff] at hsome
  rw [lsicSetAffinity_eq]
  generalize cpumaskFirst core.nrCpuIds (affinityChoice s maskVal online force) = cpu at hsome
  obtain ⟨regs, hmask, hmasked⟩ := irqSetMasked_spec hready hhwirq d.effective true s.regs
  let d' : IrqData core := { d with effective := core.updateEffective d.effective (cpumaskOf cpu) }
  have heffective : core.getEffective d'.effective = cpumaskOf cpu := core.get_update _ hsome
  have hoff := hmasked.allDisabled honly hhwirq cpu
  -- If it is masked it stays so, else the bit of the new CPU is cleared.
  obtain ⟨regs', hunmask, hrouted, hkept⟩ : ∃ regs',
      (bif d.masked then some regs else irqSetMasked s hwirq d'.effective false regs) = some regs' ∧
        RoutedTo core regs' hwirq cpu d.masked ∧ OthersKept s.regs regs' hwirq := by
    cases d.masked with
    | true => exact ⟨regs, rfl, hoff, hmasked.othersKept⟩
    | false =>
      obtain ⟨regs', hunmask, hunmasked⟩ :=
        irqSetMasked_spec hready hhwirq d'.effective false regs
      exact ⟨regs', hunmask, hunmasked.routedTo heffective hhwirq hoff,
        hmasked.othersKept.trans hunmasked.othersKept⟩
  refine ⟨{ s with regs := regs', irqs := Function.update s.irqs hwirq (some d') }, d', cpu, ?_,
    ⟨hsome, heffective, rfl, hrouted, hkept, rfl⟩⟩
  show (if cpu ≥ core.nrCpuIds then some (s, false) else moveTo s hwirq d cpu) = _
  rw [if_neg (not_le.2 hsome), moveTo, hmask]
  show (bif d.masked then some regs else irqSetMasked s hwirq d'.effective false regs).bind _ = _
  rw [hunmask]
  rfl

end

/-! ## The operations -/

section
variable {s : Lsic core} {hwirq : Nat} {d : IrqData core} {mask : Cpumask}
  {online : OnlineMask core} {force : Bool}

/-- The driver is asked for no other CPUs by the check for online ones. -/
theorem affinityChoice_tmpMask (cpu : Nat) :
    affinityChoice s (bif force then mask else cpumaskAnd mask online.1) online.1 force cpu =
      affinityChoice s mask online.1 force cpu := by
  cases force with
  | true => rfl
  | false =>
    show ((s.lmask cpu && (mask cpu && online.1 cpu)) && online.1 cpu) =
      ((s.lmask cpu && mask cpu) && online.1 cpu)
    cases s.lmask cpu <;> cases mask cpu <;> cases online.1 cpu <;> rfl

theorem irqDoSetAffinity_fails
    (hnone : ¬ ∃ cpu, cpu < core.nrCpuIds ∧ affinityChoice s mask online.1 force cpu = true) :
    irqDoSetAffinity s hwirq d mask online force = some (s, false) := by
  have hdriver : ∀ maskVal, maskVal = (bif force then mask else cpumaskAnd mask online.1) →
      lsicSetAffinity s hwirq d maskVal online.1 force = some (s, false) := by
    rintro maskVal rfl
    refine lsicSetAffinity_fails ?_
    simp only [affinityChoice_tmpMask]
    exact hnone
  rw [irqDoSetAffinity]
  by_cases hearly : !force ∧
      cpumaskFirst core.nrCpuIds (cpumaskAnd mask online.1) ≥ core.nrCpuIds
  · exact if_pos hearly
  · rw [if_neg hearly, hdriver _ rfl]
    rfl

theorem irqDoSetAffinity_moves (hready : HandlersReady core s.handlers) (hhwirq : hwirq < lsicIrqs)
    (honly : OnlyEffective s.regs hwirq d)
    (hsome : ∃ cpu, cpu < core.nrCpuIds ∧ affinityChoice s mask online.1 force cpu = true) :
    ∃ s' d' cpu, irqDoSetAffinity s hwirq d mask online force = some (s', true) ∧
      Affined s hwirq d s' d' cpu := by
  have hsome' : ∃ cpu, cpu < core.nrCpuIds ∧ affinityChoice s
      (bif force then mask else cpumaskAnd mask online.1) online.1 force cpu = true := by
    simp only [affinityChoice_tmpMask]
    exact hsome
  obtain ⟨s', d', cpu, hdriver, haffined⟩ :=
    lsicSetAffinity_moves hready hhwirq honly hsome'
  have hlate : ¬ (!force ∧
      cpumaskFirst core.nrCpuIds (cpumaskAnd mask online.1) ≥ core.nrCpuIds) := by
    rintro ⟨hforce, hfirst⟩
    obtain ⟨c, hc, hchoice⟩ := hsome
    rw [Bool.not_eq_true'] at hforce
    subst hforce
    refine absurd ((cpumaskFirst_lt_iff _ _).2 ⟨c, hc, ?_⟩) (not_lt.2 hfirst)
    change ((s.lmask c && mask c) && online.1 c) = true at hchoice
    show (mask c && online.1 c) = true
    rw [Bool.and_eq_true, Bool.and_eq_true] at hchoice
    rw [hchoice.1.2, hchoice.2]
    rfl
  have hirq : s'.irqs hwirq = some d' := by
    rw [haffined.state_eq]
    exact Function.update_self _ _ _
  refine ⟨{ s' with irqs := Function.update s'.irqs hwirq (some { d' with affinity := mask }) },
    { d' with affinity := mask }, cpu, ?_, ?_⟩
  · rw [irqDoSetAffinity, if_neg hlate, hdriver]
    let recorded := (s'.irqs hwirq).map fun d => { d with affinity := mask }
    show some (({ s' with irqs := Function.update s'.irqs hwirq recorded } : Lsic core), true) = _
    rw [show recorded = some { d' with affinity := mask } by simp only [recorded, hirq]; rfl]
  · refine ⟨haffined.cpu_lt, haffined.effective_eq, haffined.masked_eq, haffined.routed,
      haffined.kept, ?_⟩
    rw [haffined.state_eq]
    simp only [Function.update_idem]

theorem LsicInv.affined (hs : LsicInv s) (hhwirq : hwirq < lsicIrqs) {s' : Lsic core}
    {d' : IrqData core} {cpu : Nat} (h : Affined s hwirq d s' d' cpu) : LsicInv s' := by
  rw [h.state_eq]
  exact hs.update hhwirq h.cpu_lt h.effective_eq (h.masked_eq ▸ h.routed) h.kept

/-- A mapped interrupt. -/
theorem LsicInv.onlyEffective (hs : LsicInv s) (hd : s.irqs hwirq = some d) :
    OnlyEffective s.regs hwirq d := by
  intro hwid hhwid hbit
  obtain ⟨-, cpu, -, heffective, hrouted⟩ := hs.mapped hd
  rw [hrouted hwid hhwid, Bool.or_eq_false_iff, bne_eq_false_iff_eq] at hbit
  exact ⟨cpu, hbit.2, heffective ▸ cpumaskOf_eq_true.2 rfl⟩

theorem irqDoSetAffinity_inv (hs : LsicInv s) (hd : s.irqs hwirq = some d) :
    ∃ s' done, irqDoSetAffinity s hwirq d mask online force = some (s', done) ∧ LsicInv s' ∧
      OthersKept s.regs s'.regs hwirq ∧ (done = false → s' = s) := by
  have hlt := (hs.mapped hd).1
  by_cases hchoice : ∃ cpu, cpu < core.nrCpuIds ∧ affinityChoice s mask online.1 force cpu = true
  · obtain ⟨s', d', cpu, hset, haffined⟩ :=
      irqDoSetAffinity_moves (d := d) hs.handlers hlt (hs.onlyEffective hd) hchoice
    exact ⟨s', true, hset, hs.affined hlt haffined, haffined.kept, fun h => nomatch h⟩
  · exact ⟨s, false, irqDoSetAffinity_fails hchoice, hs, fun _ _ _ _ => rfl, fun _ => rfl⟩

theorem map_inv (hs : LsicInv s) (online : OnlineMask core) (hhwirq : hwirq < lsicIrqs)
    (hnone : s.irqs hwirq = none) :
    ∃ s', lsicStep s (.map hwirq online) = some s' ∧ LsicInv s' ∧
      OthersKept s.regs s'.regs hwirq := by
  let d : IrqData core := { effective := core.initial, affinity := fun _ => true, masked := true }
  let s₁ : Lsic core := { s with irqs := Function.update s.irqs hwirq (some d) }
  have honly : OnlyEffective s₁.regs hwirq d := by
    intro hwid hhwid hbit
    rw [show disabled s₁.regs hwid hwirq = true from hs.unmapped hhwirq hnone hwid hhwid] at hbit
    cases hbit
  -- The CPU that maps it can have it.
  have hchoice : ∃ cpu, cpu < core.nrCpuIds ∧
      affinityChoice s₁ s₁.lmask online.1 false cpu = true := by
    obtain ⟨cpu, hcpu, honline⟩ := online.2
    refine ⟨cpu, hcpu, ?_⟩
    show ((s.lmask cpu && s.lmask cpu) && online.1 cpu) = true
    rw [hs.lmask hcpu, honline]
    rfl
  obtain ⟨s', d', cpu, hset, haffined⟩ :=
    irqDoSetAffinity_moves (s := s₁) (d := d) hs.handlers hhwirq honly hchoice
  refine ⟨s', ?_, ?_, haffined.kept⟩
  · rw [lsicStep, if_pos ⟨hhwirq, by rw [hnone]; rfl⟩]
    show (irqDoSetAffinity s₁ hwirq d s₁.lmask online false).map Prod.fst = _
    rw [hset]
    rfl
  · have hstate : s' = { s with
        regs := s'.regs, irqs := Function.update s.irqs hwirq (some d') } := by
      rw [haffined.state_eq]
      show ({ s with
        regs := s'.regs
        irqs := Function.update (Function.update s.irqs hwirq (some d)) hwirq (some d') } :
          Lsic core) = _
      rw [Function.update_idem]
    rw [hstate]
    exact hs.update hhwirq haffined.cpu_lt haffined.effective_eq
      (haffined.masked_eq ▸ haffined.routed) haffined.kept

end

/-- Every operation goes through, keeps the invariant and leaves the other interrupts alone. -/
theorem lsicStep_inv {s : Lsic core} (hs : LsicInv s) (op : LsicOp core) :
    ∃ s', lsicStep s op = some s' ∧ LsicInv s' ∧ OthersKept s.regs s'.regs op.hwirq := by
  have hskip : ∀ hwirq, OthersKept s.regs s.regs hwirq := fun _ _ _ _ _ => rfl
  cases op with
  | map hwirq online =>
    by_cases hmap : hwirq < lsicIrqs ∧ (s.irqs hwirq).isNone
    · exact map_inv hs online hmap.1 (Option.isNone_iff_eq_none.1 hmap.2)
    · exact ⟨s, if_neg hmap, hs, hskip _⟩
  | mask hwirq =>
    rw [lsicStep]
    cases hd : s.irqs hwirq with
    | none => exact ⟨s, rfl, hs, hskip _⟩
    | some d => exact lsicSetMaskedIrq_inv hs hd true
  | unmask hwirq =>
    rw [lsicStep]
    cases hd : s.irqs hwirq with
    | none => exact ⟨s, rfl, hs, hskip _⟩
    | some d => exact lsicSetMaskedIrq_inv hs hd false
  | setAffinity hwirq mask online force =>
    rw [lsicStep]
    cases hd : s.irqs hwirq with
    | none => exact ⟨s, rfl, hs, hskip _⟩
    | some d =>
      obtain ⟨s', done, hset, hs', hkept, -⟩ :=
        @irqDoSetAffinity_inv core s hwirq d mask online force hs hd
      refine ⟨s', ?_, hs', hkept⟩
      show (irqDoSetAffinity s hwirq d mask online force).map Prod.fst = some s'
      rw [hset]
      rfl

/-! ## After `lsic_init` -/

theorem disabled_resetContext (hwid : Nat) (regs : LsicRegs) (hwid' : Nat) {hwirq : Nat}
    (hhwirq : hwirq < lsicIrqs) :
    disabled (resetContext (hwid * lsicStride) regs) hwid' hwirq =
      if hwid' = hwid then true else disabled regs hwid' hwirq := by
  simp only [lsicIrqs, lsicStride, lsicDisa, lsicPend, lsicIpl, disabled, resetContext,
    List.foldl_cons, List.foldl_nil] at *
  by_cases hsame : hwid' = hwid
  · subst hsame
    rw [if_pos rfl, Function.update_of_ne (by omega), Function.update_of_ne (by omega),
      Function.update_of_ne (by omega)]
    -- One of the two words with the disable bits.
    by_cases hword : hwirq / 32 = 0
    · rw [Function.update_of_ne (by omega),
        show hwid' * 0x20 + 0 + hwirq / 32 * 4 = hwid' * 0x20 + 0x00 by omega, Function.update_self,
        BitVec.getLsbD_allOnes]
      exact decide_eq_true (Nat.mod_lt _ (by decide))
    · rw [show hwid' * 0x20 + 0 + hwirq / 32 * 4 = hwid' * 0x20 + (0x00 + 4) by omega,
        Function.update_self, BitVec.getLsbD_allOnes]
      exact decide_eq_true (Nat.mod_lt _ (by decide))
  · rw [if_neg hsame, Function.update_of_ne (by omega), Function.update_of_ne (by omega),
      Function.update_of_ne (by omega), Function.update_of_ne (by omega),
      Function.update_of_ne (by omega)]

/-- The contexts of some processors have been set up. -/
structure SetUp (hwids : Nat → Prop) (s : Lsic core) : Prop where
  irqs_eq : ∀ hwirq, s.irqs hwirq = none
  off : ∀ {hwid hwirq}, hwids hwid → hwirq < lsicIrqs → disabled s.regs hwid hwirq = true
  handler : ∀ {hwid cpu}, hwids hwid → core.hwidToCpuid hwid = some cpu →
    s.handlers cpu = some (hwid * lsicStride) ∧ s.lmask cpu = true

theorem initContext_setUp {hwids : Nat → Prop} {s : Lsic core} (hs : SetUp hwids s) (hwid : Nat) :
    SetUp (fun h => h = hwid ∨ hwids h) (initContext s (some ⟨1, hwid⟩)) := by
  have hoff : ∀ {hwid' hwirq}, hwid' = hwid ∨ hwids hwid' → hwirq < lsicIrqs →
      disabled (resetContext (hwid * lsicStride) s.regs) hwid' hwirq = true := by
    intro hwid' hwirq hhwid' hhwirq
    rw [disabled_resetContext hwid s.regs hwid' hhwirq]
    split
    · rfl
    · exact hs.off (hhwid'.resolve_left ‹_›) hhwirq
  cases hcpu : core.hwidToCpuid hwid with
  | none =>
    have hinit : initContext s (some ⟨1, hwid⟩) =
        { s with regs := resetContext (hwid * lsicStride) s.regs } := by
      simp only [initContext, hcpu]
    rw [hinit]
    refine ⟨hs.irqs_eq, hoff, fun hhwid' hcpu' => ?_⟩
    refine hs.handler (hhwid'.resolve_left ?_) hcpu'
    rintro rfl
    rw [hcpu] at hcpu'
    cases hcpu'
  | some cpu =>
    have hinit : initContext s (some ⟨1, hwid⟩) =
        { s with
          regs := resetContext (hwid * lsicStride) s.regs
          lmask := Function.update s.lmask cpu true
          handlers := Function.update s.handlers cpu (some (hwid * lsicStride)) } := by
      simp only [initContext, hcpu]
      rfl
    rw [hinit]
    refine ⟨hs.irqs_eq, hoff, fun {hwid' cpu'} hhwid' hcpu' => ?_⟩
    show Function.update s.handlers cpu (some (hwid * lsicStride)) cpu' = _ ∧
      Function.update s.lmask cpu true cpu' = true
    by_cases hsame : cpu' = cpu
    · subst hsame
      rw [Function.update_self, Function.update_self, core.hwid_unique hcpu' hcpu]
      exact ⟨rfl, rfl⟩
    · rw [Function.update_of_ne hsame, Function.update_of_ne hsame]
      refine hs.handler (hhwid'.resolve_left ?_) hcpu'
      rintro rfl
      rw [hcpu, Option.some.injEq] at hcpu'
      exact hsame hcpu'.symm

theorem lsicInit_setUp (regs : LsicRegs) (hwids : List Nat) :
    SetUp (· ∈ hwids) (lsicInit core regs (bxDtAddLsic hwids)) := by
  suffices h : ∀ (done : Nat → Prop) (s : Lsic core), SetUp done s →
      SetUp (fun hwid => hwid ∈ hwids ∨ done hwid) ((bxDtAddLsic hwids).foldl initContext s) by
    have hstart := h (fun _ => False)
      { regs, lmask := fun _ => false, handlers := fun _ => none, irqs := fun _ => none }
      ⟨fun _ => rfl, fun h => h.elim, fun h => h.elim⟩
    simp only [or_false] at hstart
    exact hstart
  induction hwids with
  | nil =>
    intro done s hs
    show SetUp (fun hwid => hwid ∈ [] ∨ done hwid) s
    simpa only [List.not_mem_nil, false_or] using hs
  | cons hwid hwids ih =>
    intro done s hs
    have hrest := ih _ _ (initContext_setUp hs hwid)
    have hset : (fun h => h ∈ hwids ∨ h = hwid ∨ done h) =
        fun h => h ∈ hwid :: hwids ∨ done h := by
      funext h
      rw [List.mem_cons]
      exact propext ⟨fun h => by tauto, fun h => by tauto⟩
    rw [← hset]
    exact hrest

theorem lsicInit_inv (regs : LsicRegs) : LsicInv (lsicInit core regs (bxDtAddLsic core.hwids)) := by
  have hsetUp := @lsicInit_setUp core regs core.hwids
  exact
    { handlers := fun {cpu} hcpu => by
        obtain ⟨hwid, hmem, hhwid⟩ := core.present hcpu
        exact ⟨hwid, hhwid, (hsetUp.handler hmem hhwid).1⟩
      lmask := fun {cpu} hcpu => by
        obtain ⟨hwid, hmem, hhwid⟩ := core.present hcpu
        exact (hsetUp.handler hmem hhwid).2
      unmapped := fun hhwirq _ hwid hhwid => hsetUp.off hhwid hhwirq
      mapped := fun {hwirq d} hd => by
        rw [hsetUp.irqs_eq] at hd
        cases hd }

/-! ## Runs -/

/-- An interrupt is enabled on one processor, the one of its effective CPU, or if it is masked on
none. -/
structure EnabledRight (s : Lsic core) (hwirq : Nat) (d : IrqData core) : Prop where
  masked : d.masked = true → ∀ hwid ∈ core.hwids, disabled s.regs hwid hwirq = true
  unmasked : d.masked = false → ∃ hwid ∈ core.hwids, disabled s.regs hwid hwirq = false ∧
    (∀ hwid' ∈ core.hwids, disabled s.regs hwid' hwirq = false → hwid' = hwid) ∧
    ∃ cpu, core.hwidToCpuid hwid = some cpu ∧ core.getEffective d.effective = cpumaskOf cpu

theorem LsicInv.enabledRight {s : Lsic core} (hs : LsicInv s) {hwirq : Nat} {d : IrqData core}
    (hd : s.irqs hwirq = some d) : EnabledRight s hwirq d := by
  obtain ⟨-, cpu, hcpu, heffective, hrouted⟩ := hs.mapped hd
  refine ⟨fun hmasked hwid hhwid => ?_, fun hmasked => ?_⟩
  · rw [hrouted hwid hhwid, hmasked, Bool.true_or]
  · obtain ⟨hwid, hhwid, hof⟩ := core.present hcpu
    refine ⟨hwid, hhwid, ?_, fun hwid' hhwid' hbit => ?_, cpu, hof, heffective⟩
    · rw [hrouted hwid hhwid, hmasked, hof, bne_self_eq_false]
      rfl
    · rw [hrouted hwid' hhwid', Bool.or_eq_false_iff, bne_eq_false_iff_eq] at hbit
      exact core.hwid_unique hbit.2 hof

/-- However interrupts are mapped, masked, unmasked and moved: no null pointer is used, every mapped
interrupt is enabled where it should be and nowhere else, an operation leaves the bits of the other
interrupts alone, and a failed one leaves everything alone. -/
theorem lsic_maskingAndAffinity (core : IrqCore) (regs : LsicRegs) (ops : List (LsicOp core)) :
    ∃ s, Run.run lsicStep (lsicInit core regs (bxDtAddLsic core.hwids)) ops = some s ∧
      (∀ hwirq d, s.irqs hwirq = some d → EnabledRight s hwirq d) ∧
      (∀ op s', lsicStep s op = some s' → OthersKept s.regs s'.regs op.hwirq) ∧
      ∀ hwirq d mask online force s', s.irqs hwirq = some d →
        irqDoSetAffinity s hwirq d mask online force = some (s', false) → s' = s := by
  obtain ⟨s, hrun, hs⟩ : ∃ s,
      Run.run lsicStep (lsicInit core regs (bxDtAddLsic core.hwids)) ops = some s ∧ LsicInv s := by
    have hinv := @lsicInit_inv core regs
    generalize lsicInit core regs (bxDtAddLsic core.hwids) = s₀ at hinv
    induction ops generalizing s₀ with
    | nil => exact ⟨s₀, rfl, hinv⟩
    | cons op ops ih =>
      obtain ⟨s₁, hstep, hinv₁, -⟩ := lsicStep_inv hinv op
      obtain ⟨s, hrun, hs⟩ := ih s₁ hinv₁
      exact ⟨s, Run.run_cons_eq_some.2 ⟨s₁, hstep, hrun⟩, hs⟩
  refine ⟨s, hrun, fun hwirq d hd => hs.enabledRight hd, fun op s' hstep => ?_, ?_⟩
  · obtain ⟨s'', hstep', -, hkept⟩ := lsicStep_inv hs op
    rw [hstep, Option.some.injEq] at hstep'
    exact hstep' ▸ hkept
  · intro hwirq d mask online force s' hd hset
    obtain ⟨s'', done, hset', -, -, hfailed⟩ :=
      @irqDoSetAffinity_inv core s hwirq d mask online force hs hd
    rw [hset, Option.some.injEq, Prod.mk.injEq] at hset'
    obtain ⟨rfl, rfl⟩ := hset'
    exact hfailed rfl

end XrLinux.Linux
