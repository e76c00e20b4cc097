import Mathlib.Data.BitVec
import Mathlib.Tactic.Common

/-!
# Linux — the local interrupt flag

`arch/xr17032/include/asm/irqflags.h` over the control register `RS` of
`arch/xr17032/include/asm/cr.h`. The register is the whole state: `cr_read(rs)` and
`cr_write(rs, …)` are the two accesses of a state monad over one 32-bit word, and every
primitive is the source's expression in it.

`arch_local_irq_restore` *ors* the saved bit into the register. It can therefore turn
interrupts on but never off, and `arch_local_irq_disable`, which is `restore(0)`, leaves the
register as it was. `irqFlags_contract_iff` says exactly which runs still meet the contract
the generic code relies on.
-/

namespace XrLinux.Linux

/-- `RS_I` of `asm/cr.h`: the interrupt-enable bit of the control register `RS`. -/
def rsI : BitVec 32 := 0x2#32

/-- The control register `RS` as the only state. -/
abbrev CrM := StateM (BitVec 32)

/-- `cr_read(rs)`. -/
def crRead : CrM (BitVec 32) := get

/-- `cr_write(rs, value)`. -/
def crWrite (value : BitVec 32) : CrM Unit := set value

def archLocalSaveFlags : CrM (BitVec 32) :=
  crRead

def archLocalIrqRestore (flags : BitVec 32) : CrM Unit := do
  let rs ← crRead
  crWrite (rs ||| (flags &&& rsI))

def archLocalIrqEnable : CrM Unit :=
  archLocalIrqRestore rsI

def archLocalIrqDisable : CrM Unit :=
  archLocalIrqRestore 0

def archLocalIrqSave : CrM (BitVec 32) := do
  let flags ← crRead
  crWrite (flags &&& ~~~rsI)
  return flags

def archIrqsDisabledFlags (flags : BitVec 32) : Bool :=
  (flags &&& rsI) == 0

/-! ## Runs of the primitives -/

/-- One call of a primitive. The argument of a restore is any word at all. -/
inductive IrqCall where
  | saveFlags
  | irqSave
  | irqDisable
  | irqEnable
  | irqRestore (flags : BitVec 32)
  deriving DecidableEq, Repr

/-- The register after one call. -/
def IrqCall.exec (rs : BitVec 32) : IrqCall → BitVec 32
  | .saveFlags => (archLocalSaveFlags.run rs).2
  | .irqSave => (archLocalIrqSave.run rs).2
  | .irqDisable => (archLocalIrqDisable.run rs).2
  | .irqEnable => (archLocalIrqEnable.run rs).2
  | .irqRestore flags => ((archLocalIrqRestore flags).run rs).2

/-- The register after a sequence of calls. -/
def execCalls (rs : BitVec 32) (calls : List IrqCall) : BitVec 32 :=
  calls.foldl IrqCall.exec rs

/-- Interrupts are enabled in a register or in a saved copy of it. -/
def Enabled (rs : BitVec 32) : Prop := archIrqsDisabledFlags rs = false

instance (rs : BitVec 32) : Decidable (Enabled rs) := by unfold Enabled; infer_instance

/-- What the callers of a primitive rely on: `RS_I` ends as the primitive's name says, and
every other bit of `RS` is untouched. -/
def Contract (call : IrqCall) (rs rs' : BitVec 32) : Prop :=
  rs' &&& ~~~rsI = rs &&& ~~~rsI ∧
    match call with
    | .saveFlags => rs' = rs
    | .irqSave | .irqDisable => ¬ Enabled rs'
    | .irqEnable => Enabled rs'
    | .irqRestore flags => Enabled rs' ↔ Enabled flags

/-- The call has nothing to turn off through `restore`: a disable finds interrupts off
already, and so does a restore of flags in which they are off. -/
def NothingToTurnOff (call : IrqCall) (rs : BitVec 32) : Prop :=
  match call with
  | .irqDisable => ¬ Enabled rs
  | .irqRestore flags => Enabled rs → Enabled flags
  | _ => True

/-- Every call of a run from `rs` satisfies `P`, at the register it finds and the one it
leaves. -/
def EveryCall (P : IrqCall → BitVec 32 → BitVec 32 → Prop) (rs : BitVec 32)
    (calls : List IrqCall) : Prop :=
  ∀ pre call post, calls = pre ++ call :: post →
    P call (execCalls rs pre) (call.exec (execCalls rs pre))

/-! ## What each primitive does to the register -/

@[simp] theorem exec_saveFlags (rs : BitVec 32) : IrqCall.saveFlags.exec rs = rs := rfl

@[simp] theorem exec_irqRestore (rs flags : BitVec 32) :
    (IrqCall.irqRestore flags).exec rs = rs ||| (flags &&& rsI) := rfl

@[simp] theorem exec_irqSave (rs : BitVec 32) : IrqCall.irqSave.exec rs = rs &&& ~~~rsI := rfl

/-- A disable is a restore of no bits at all, so it changes nothing. -/
@[simp] theorem exec_irqDisable (rs : BitVec 32) : IrqCall.irqDisable.exec rs = rs := by
  show rs ||| (0 &&& rsI) = rs
  simp

@[simp] theorem exec_irqEnable (rs : BitVec 32) : IrqCall.irqEnable.exec rs = rs ||| rsI := by
  show rs ||| (rsI &&& rsI) = rs ||| rsI
  simp

theorem enabled_iff (rs : BitVec 32) : Enabled rs ↔ rs &&& rsI ≠ 0#32 := by
  simp [Enabled, archIrqsDisabledFlags]

@[simp] theorem enabled_rsI : Enabled rsI := by decide

theorem enabled_or (a b : BitVec 32) : Enabled (a ||| b) ↔ Enabled a ∨ Enabled b := by
  have hdist : (a ||| b) &&& rsI = (a &&& rsI) ||| (b &&& rsI) := by
    ext i hi
    simp [Bool.and_or_distrib_right]
  rw [enabled_iff, enabled_iff, enabled_iff, hdist, Ne, BitVec.or_eq_zero_iff]
  tauto

@[simp] theorem enabled_and_rsI (flags : BitVec 32) : Enabled (flags &&& rsI) ↔ Enabled flags := by
  simp [enabled_iff, BitVec.and_assoc]

@[simp] theorem not_enabled_and_not_rsI (rs : BitVec 32) : ¬ Enabled (rs &&& ~~~rsI) := by
  have hmask : ~~~rsI &&& rsI = 0#32 := by decide
  simp [enabled_iff, BitVec.and_assoc, hmask]

/-- Bits that come in through the `RS_I` mask do not show outside it. -/
theorem or_and_rsI_and_not (rs flags : BitVec 32) :
    (rs ||| (flags &&& rsI)) &&& ~~~rsI = rs &&& ~~~rsI := by
  ext i hi
  simp only [BitVec.getElem_and, BitVec.getElem_or, BitVec.getElem_not]
  cases rs[i] <;> cases rsI[i] <;> simp

/-! ## The contract, call by call -/

/-- No primitive touches a bit other than `RS_I`. -/
theorem exec_and_not_rsI (call : IrqCall) (rs : BitVec 32) :
    call.exec rs &&& ~~~rsI = rs &&& ~~~rsI := by
  cases call with
  | saveFlags => rfl
  | irqSave => simp [BitVec.and_assoc]
  | irqDisable => simp
  | irqEnable => simpa using or_and_rsI_and_not rs rsI
  | irqRestore flags => exact or_and_rsI_and_not rs flags

/-- One call meets its contract exactly when it has nothing to turn off. -/
theorem contract_exec_iff (call : IrqCall) (rs : BitVec 32) :
    Contract call rs (call.exec rs) ↔ NothingToTurnOff call rs := by
  have hother := exec_and_not_rsI call rs
  unfold Contract
  rw [and_iff_right hother]
  cases call with
  | saveFlags => simp [NothingToTurnOff]
  | irqSave => simp [NothingToTurnOff]
  | irqDisable => simp [NothingToTurnOff]
  | irqEnable => simp [NothingToTurnOff, enabled_or]
  | irqRestore flags =>
    simp only [NothingToTurnOff, exec_irqRestore, enabled_or, enabled_and_rsI]
    tauto

/-! ## Nested critical sections -/

/-- Straight-line code between a save and its restore: enables, disables and further sections,
each of which restores the flags its own save returned. -/
inductive Nested where
  | done
  | enable (rest : Nested)
  | disable (rest : Nested)
  | guarded (body rest : Nested)
  deriving DecidableEq, Repr

/-- Running the code. A section restores what its own `arch_local_irq_save` returned. -/
def Nested.run : Nested → CrM Unit
  | .done => pure ()
  | .enable rest => do
    archLocalIrqEnable
    rest.run
  | .disable rest => do
    archLocalIrqDisable
    rest.run
  | .guarded body rest => do
    let flags ← archLocalIrqSave
    body.run
    archLocalIrqRestore flags
    rest.run

/-- The register after the body of a section entered at `rs`. -/
def Nested.bodyEnd (body : Nested) (rs : BitVec 32) : BitVec 32 :=
  (body.run.run (rs &&& ~~~rsI)).2

/-- A whole section: the register after `save; body; restore` from `rs`. -/
theorem section_run (body : Nested) (rs : BitVec 32) :
    ((Nested.guarded body .done).run.run rs).2 = body.bodyEnd rs ||| (rs &&& rsI) := rfl

/-- A section brings the enable state back exactly when its restore has nothing to turn off:
a body that leaves interrupts on keeps them on past the restore. -/
theorem section_restores_iff (body : Nested) (rs : BitVec 32) :
    (Enabled ((Nested.guarded body .done).run.run rs).2 ↔ Enabled rs) ↔
      NothingToTurnOff (.irqRestore rs) (body.bodyEnd rs) := by
  rw [section_run, enabled_or, enabled_and_rsI, NothingToTurnOff]
  tauto

/-- **The contract of the interrupt primitives.** A run meets the contract at every call exactly
when no call in it has interrupts to turn off through `restore`; and a section restores the
enable state at its save exactly when its closing restore is no such call either. -/
theorem irqFlags_contract_iff (rs : BitVec 32) :
    (∀ calls, EveryCall Contract rs calls ↔
      EveryCall (fun call found _ => NothingToTurnOff call found) rs calls) ∧
    (∀ body : Nested, (Enabled ((Nested.guarded body .done).run.run rs).2 ↔ Enabled rs) ↔
      NothingToTurnOff (.irqRestore rs) (body.bodyEnd rs)) := by
  refine ⟨fun calls => ?_, fun body => section_restores_iff body rs⟩
  simp only [EveryCall, contract_exec_iff]

/-- `arch_local_irq_disable` with interrupts on leaves them on. -/
theorem irqDisable_contract_fails :
    ¬ ∀ rs calls, EveryCall Contract rs calls := by
  intro hall
  have hcall := hall rsI [.irqDisable] [] .irqDisable [] rfl
  rw [contract_exec_iff] at hcall
  exact absurd enabled_rsI hcall

end XrLinux.Linux
