import Mathlib.Data.BitVec
import Mathlib.Logic.Function.Basic
import Mathlib.Tactic.Common

/-!
# Linux — the selection of the Amtsu bus

`amtsu.c`: a register selects what the other registers of the bus are those of, the controller (0)
or a device (its index and 1). The driver remembers what it has selected last. What is behind the
registers is an `AmtsuBus`: anything, but for what the commands of the controller do to the
interrupts.

Every function takes `cached`; without it the selection is written every time.
-/

namespace XrLinux.Linux

/-- The registers behind the selection, `AMTSU_MID` to `AMTSU_B`. -/
inductive AmtsuReg where
  | mid
  | cmd
  | a
  | b
  deriving DecidableEq

/-- `AMTSU_DEVICES`. -/
def amtsuDevices : Nat := 4

/-- `AMTSU_IDX_NONE`. -/
def amtsuIdxNone : Int := -2

/-- `AMTSU_IDX_CTRL`. -/
def amtsuIdxCtrl : Int := -1

def amtsuCmdEnableIrq : BitVec 32 := 0x1

def amtsuCmdReset : BitVec 32 := 0x2

def amtsuCmdDisableIrq : BitVec 32 := 0x3

def amtsuCmdWriteA : BitVec 32 := 0x1

def amtsuCmdWriteB : BitVec 32 := 0x2

def amtsuCmdReadA : BitVec 32 := 0x4

def amtsuCmdReadB : BitVec 32 := 0x8

/-- The controller and its devices. Reads may change them too. -/
structure AmtsuBus where
  State : Type
  /-- The first argument is the selection. -/
  write : BitVec 32 → AmtsuReg → BitVec 32 → State → State
  read : BitVec 32 → AmtsuReg → State → BitVec 32 × State
  irqEnabled : State → Nat → Bool
  /-- The commands of the controller, for the device in its `B`. -/
  enable_irq : ∀ state idx, idx < amtsuDevices → irqEnabled
    (write 0 .cmd amtsuCmdEnableIrq (write 0 .b (BitVec.ofNat 32 (idx + 1)) state)) =
      Function.update (irqEnabled state) idx true
  disable_irq : ∀ state idx, idx < amtsuDevices → irqEnabled
    (write 0 .cmd amtsuCmdDisableIrq (write 0 .b (BitVec.ofNat 32 (idx + 1)) state)) =
      Function.update (irqEnabled state) idx false
  reset : ∀ state, irqEnabled (write 0 .cmd amtsuCmdReset state) = irqEnabled state
  /-- A device has no hand in it. -/
  write_device : ∀ selection reg value state, selection ≠ 0 →
    irqEnabled (write selection reg value state) = irqEnabled state
  read_device : ∀ selection reg state, irqEnabled (read selection reg state).2 = irqEnabled state

/-- What the controller of `plainBus` does with a write: its state is its `B`, and which interrupts
are enabled. -/
def plainCtrlWrite (reg : AmtsuReg) (value : BitVec 32) (state : BitVec 32 × (Nat → Bool)) :
    BitVec 32 × (Nat → Bool) :=
  match reg with
  | .b => (value, state.2)
  | .cmd =>
    let idx := state.1.toNat - 1
    if value = amtsuCmdEnableIrq then (state.1, Function.update state.2 idx true)
    else if value = amtsuCmdDisableIrq then (state.1, Function.update state.2 idx false)
    else state
  | _ => state

theorem ofNat_succ_sub {idx : Nat} (hidx : idx < amtsuDevices) :
    (BitVec.ofNat 32 (idx + 1)).toNat - 1 = idx := by
  unfold amtsuDevices at hidx
  rw [BitVec.toNat_ofNat, Nat.mod_eq_of_lt (by omega), Nat.add_sub_cancel]

/-- A bus of devices that do nothing, all of model 1. -/
def plainBus : AmtsuBus :=
  { State := BitVec 32 × (Nat → Bool)
    write := fun selection reg value state =>
      if selection = 0 then plainCtrlWrite reg value state else state
    read := fun _ _ state => (1, state)
    irqEnabled := Prod.snd
    enable_irq := by
      intro state idx hidx
      show Function.update state.2 ((BitVec.ofNat 32 (idx + 1)).toNat - 1) true = _
      rw [ofNat_succ_sub hidx]
    disable_irq := by
      intro state idx hidx
      show Function.update state.2 ((BitVec.ofNat 32 (idx + 1)).toNat - 1) false = _
      rw [ofNat_succ_sub hidx]
    reset := fun _ => rfl
    write_device := by
      intro selection reg value state hne
      rw [if_neg hne]
    read_device := fun _ _ _ => rfl }

/-- `struct amtsu_ctrl` with the hardware. -/
structure AmtsuCtrl (bus : AmtsuBus) where
  /-- `AMTSU_SELECT`, as it was written last. -/
  select : BitVec 32
  state : bus.State
  selected : Int
  /-- `irq_enabled` of the devices that there are. -/
  devices : Nat → Option Bool
  /-- The device that the probe looks for next. -/
  next : Nat
  /-- All accesses so far: what was to be accessed, and what was selected. -/
  accesses : List (Int × BitVec 32)

variable {bus : AmtsuBus}

namespace AmtsuCtrl

/-- `writel`, for something of index `index`. -/
def writel (c : AmtsuCtrl bus) (index : Int) (reg : AmtsuReg) (value : BitVec 32) : AmtsuCtrl bus :=
  { c with
    state := bus.write c.select reg value c.state
    accesses := c.accesses ++ [(index, c.select)] }

def readl (c : AmtsuCtrl bus) (index : Int) (reg : AmtsuReg) : BitVec 32 × AmtsuCtrl bus :=
  let result := bus.read c.select reg c.state
  (result.1, { c with state := result.2, accesses := c.accesses ++ [(index, c.select)] })

/-- `amtsu_ctrl_select`. -/
def ctrlSelect (cached : Bool) (c : AmtsuCtrl bus) (index : Int) : AmtsuCtrl bus :=
  if cached ∧ c.selected = index then c
  else { c with select := BitVec.ofInt 32 (index + 1), selected := index }

/-- A command of the controller, for the device in `B`. -/
def ctrlCommand (c : AmtsuCtrl bus) (idx : Nat) (cmd : BitVec 32) : AmtsuCtrl bus :=
  (c.writel amtsuIdxCtrl .b (BitVec.ofNat 32 (idx + 1))).writel amtsuIdxCtrl .cmd cmd

/-- `amtsu_ctrl_enable_irq`. -/
def enableIrq (cached : Bool) (c : AmtsuCtrl bus) (idx : Nat) : AmtsuCtrl bus :=
  if c.devices idx = some false then
    let c := (ctrlSelect cached c amtsuIdxCtrl).ctrlCommand idx amtsuCmdEnableIrq
    { c with devices := Function.update c.devices idx (some true) }
  else c

/-- `amtsu_ctrl_disable_irq`. -/
def disableIrq (cached : Bool) (c : AmtsuCtrl bus) (idx : Nat) : AmtsuCtrl bus :=
  if c.devices idx = some true then
    let c := (ctrlSelect cached c amtsuIdxCtrl).ctrlCommand idx amtsuCmdDisableIrq
    { c with devices := Function.update c.devices idx (some false) }
  else c

/-- `amtsu_ctrl_command`, with `*a` and `*b` before and after. -/
def command (cached : Bool) (c : AmtsuCtrl bus) (idx : Nat) (cmd cmdFlags a b : BitVec 32) :
    (BitVec 32 × BitVec 32) × AmtsuCtrl bus :=
  if (c.devices idx).isSome then
    let c := ctrlSelect cached c idx
    let c := if cmdFlags &&& amtsuCmdWriteA ≠ 0 then c.writel idx .a a else c
    let c := if cmdFlags &&& amtsuCmdWriteB ≠ 0 then c.writel idx .b b else c
    let c := c.writel idx .cmd cmd
    let readA := if cmdFlags &&& amtsuCmdReadA ≠ 0 then c.readl idx .a else (a, c)
    let readB := if cmdFlags &&& amtsuCmdReadB ≠ 0 then readA.2.readl idx .b else (b, readA.2)
    ((readA.1, readB.1), readB.2)
  else ((a, b), c)

/-- `amtsu_ctrl_probe` up to the discovery, on hardware in any state. -/
def probe (cached : Bool) (select : BitVec 32) (state : bus.State) : AmtsuCtrl bus :=
  let c : AmtsuCtrl bus :=
    { select, state, selected := amtsuIdxNone, devices := fun _ => none, next := 0, accesses := [] }
  let c := ctrlSelect cached c amtsuIdxCtrl
  let c := (List.range amtsuDevices).foldl (fun c idx => c.ctrlCommand idx amtsuCmdDisableIrq) c
  c.writel amtsuIdxCtrl .cmd amtsuCmdReset

/-- A turn of the loop of the discovery. What comes after `AMTSU_MID` has been read may fail, and
then the device is passed over. -/
def discover (cached : Bool) (c : AmtsuCtrl bus) (registers : Bool) : AmtsuCtrl bus :=
  if c.next < amtsuDevices then
    let readMid := (ctrlSelect cached c c.next).readl c.next .mid
    { readMid.2 with
      devices :=
        if readMid.1 ≠ 0 ∧ registers then Function.update c.devices c.next (some false)
        else c.devices
      next := c.next + 1 }
  else c

end AmtsuCtrl

/-- What happens under the lock of the controller, or in the devices by themselves. -/
inductive AmtsuLabel (bus : AmtsuBus) where
  | discover (registers : Bool)
  | enableIrq (idx : Nat)
  | disableIrq (idx : Nat)
  | command (idx : Nat) (cmd cmdFlags a b : BitVec 32)
  | event (f : { f : bus.State → bus.State //
      ∀ state, bus.irqEnabled (f state) = bus.irqEnabled state })

/-- A step, with what a command returns. -/
def amtsuStep (cached : Bool) (c : AmtsuCtrl bus) :
    AmtsuLabel bus → Option (BitVec 32 × BitVec 32) × AmtsuCtrl bus
  | .discover registers => (none, c.discover cached registers)
  | .enableIrq idx => (none, c.enableIrq cached idx)
  | .disableIrq idx => (none, c.disableIrq cached idx)
  | .command idx cmd cmdFlags a b =>
    let result := c.command cached idx cmd cmdFlags a b
    (some result.1, result.2)
  | .event f => (none, { c with state := f.1 c.state })

/-- The results of the commands of a run, and the state after it. -/
def amtsuRun (cached : Bool) (c : AmtsuCtrl bus) :
    List (AmtsuLabel bus) → List (Option (BitVec 32 × BitVec 32)) × AmtsuCtrl bus
  | [] => ([], c)
  | label :: labels =>
    let step := amtsuStep cached c label
    let rest := amtsuRun cached step.2 labels
    (step.1 :: rest.1, rest.2)

/-! ## The invariant -/

/-- What a device index is selected by is not the controller. -/
theorem ofInt_succ_ne_zero {idx : Nat} (hidx : idx < amtsuDevices) :
    BitVec.ofInt 32 ((idx : Int) + 1) ≠ 0 := by
  have hint : ((idx : Int) + 1) = ((idx + 1 : Nat) : Int) := rfl
  unfold amtsuDevices at hidx
  rw [hint, BitVec.ofInt_natCast]
  intro hzero
  have htoNat := congrArg BitVec.toNat hzero
  rw [BitVec.toNat_ofNat, Nat.mod_eq_of_lt (by omega)] at htoNat
  exact absurd htoNat (Nat.succ_ne_zero idx)

/-- The selection is the one that is remembered, and every access has been to what it was for. -/
structure Coherent (c : AmtsuCtrl bus) : Prop where
  select_eq : c.selected ≠ amtsuIdxNone → c.select = BitVec.ofInt 32 (c.selected + 1)
  reached : ∀ x ∈ c.accesses, x.2 = BitVec.ofInt 32 (x.1 + 1)

/-- What is remembered of the interrupts is right too. -/
structure AmtsuInv (c : AmtsuCtrl bus) : Prop extends Coherent c where
  next_le : c.next ≤ amtsuDevices
  device_lt : ∀ {idx enabled}, c.devices idx = some enabled → idx < c.next
  irqEnabled_eq : ∀ {idx}, idx < amtsuDevices →
    bus.irqEnabled c.state idx = (c.devices idx).getD false

namespace AmtsuCtrl

/-- `index` is what accesses are for. -/
structure Selected (c : AmtsuCtrl bus) (index : Int) : Prop extends Coherent c where
  selected_eq : c.selected = index
  index_ne : index ≠ amtsuIdxNone

theorem Selected.select_eq' {c : AmtsuCtrl bus} {index : Int} (h : c.Selected index) :
    c.select = BitVec.ofInt 32 (index + 1) := by
  have hne : c.selected ≠ amtsuIdxNone := h.selected_eq ▸ h.index_ne
  rw [h.select_eq hne, h.selected_eq]

/-- The cache makes no difference: what it saves would write what is there. -/
theorem ctrlSelect_cached {c : AmtsuCtrl bus} (hc : Coherent c) {index : Int}
    (hindex : index ≠ amtsuIdxNone) : ctrlSelect true c index = ctrlSelect false c index := by
  by_cases hselected : c.selected = index
  · have hsame : c.select = BitVec.ofInt 32 (index + 1) :=
      hselected ▸ hc.select_eq (hselected ▸ hindex)
    show (if _ then c else _) = { c with select := BitVec.ofInt 32 (index + 1), selected := index }
    rw [if_pos ⟨rfl, hselected⟩, ← hsame, ← hselected]
  · show (if _ then c else _) = _
    rw [if_neg fun h => hselected h.2]
    rfl

theorem ctrlSelect_selected {c : AmtsuCtrl bus} (hc : Coherent c) {index : Int}
    (hindex : index ≠ amtsuIdxNone) : (ctrlSelect false c index).Selected index :=
  { select_eq := fun _ => rfl, reached := hc.reached, selected_eq := rfl, index_ne := hindex }

/-- An access to what is selected. -/
theorem Selected.access {c : AmtsuCtrl bus} {index : Int} (h : c.Selected index)
    (state : bus.State) :
    ({ c with state, accesses := c.accesses ++ [(index, c.select)] } : AmtsuCtrl bus).Selected
      index :=
  { select_eq := h.select_eq
    reached := by
      intro x hx
      rcases List.mem_append.1 hx with hx | hx
      · exact h.reached x hx
      · rw [List.mem_singleton.1 hx]
        exact h.select_eq'
    selected_eq := h.selected_eq
    index_ne := h.index_ne }

theorem Selected.writel {c : AmtsuCtrl bus} {index : Int} (h : c.Selected index) (reg : AmtsuReg)
    (value : BitVec 32) : (c.writel index reg value).Selected index := h.access _

theorem Selected.readl {c : AmtsuCtrl bus} {index : Int} (h : c.Selected index) (reg : AmtsuReg) :
    (c.readl index reg).2.Selected index := h.access _

/-- The controller is selected by 0. -/
theorem Selected.select_ctrl {c : AmtsuCtrl bus} (h : c.Selected amtsuIdxCtrl) : c.select = 0 :=
  h.select_eq'

theorem Selected.ctrlCommand {c : AmtsuCtrl bus} (h : c.Selected amtsuIdxCtrl) (idx : Nat)
    (cmd : BitVec 32) : (c.ctrlCommand idx cmd).Selected amtsuIdxCtrl := (h.writel _ _).writel _ _

theorem Selected.ctrlCommand_state {c : AmtsuCtrl bus} (h : c.Selected amtsuIdxCtrl) (idx : Nat)
    (cmd : BitVec 32) : (c.ctrlCommand idx cmd).state =
      bus.write 0 .cmd cmd (bus.write 0 .b (BitVec.ofNat 32 (idx + 1)) c.state) := by
  show bus.write c.select .cmd cmd (bus.write c.select .b (BitVec.ofNat 32 (idx + 1)) c.state) = _
  rw [h.select_ctrl]

/-- Accesses to a device since `c₀`. -/
structure Accessed (c₀ : AmtsuCtrl bus) (idx : Nat) (c : AmtsuCtrl bus) : Prop
    extends Selected c idx where
  irqEnabled_eq : bus.irqEnabled c.state = bus.irqEnabled c₀.state
  devices_eq : c.devices = c₀.devices
  next_eq : c.next = c₀.next

section
variable {c₀ c c' : AmtsuCtrl bus} {idx : Nat}

theorem Accessed.writel (h : Accessed c₀ idx c) (hidx : idx < amtsuDevices) (reg : AmtsuReg)
    (value : BitVec 32) : Accessed c₀ idx (c.writel idx reg value) :=
  { h.toSelected.writel reg value with
    irqEnabled_eq := by
      have hne : c.select ≠ 0 := h.select_eq' ▸ ofInt_succ_ne_zero hidx
      exact (bus.write_device _ _ _ _ hne).trans h.irqEnabled_eq
    devices_eq := h.devices_eq
    next_eq := h.next_eq }

theorem Accessed.readl (h : Accessed c₀ idx c) (reg : AmtsuReg) :
    Accessed c₀ idx (c.readl idx reg).2 :=
  { h.toSelected.readl reg with
    irqEnabled_eq := (bus.read_device _ _ _).trans h.irqEnabled_eq
    devices_eq := h.devices_eq
    next_eq := h.next_eq }

theorem Accessed.ite {p : Prop} [Decidable p] (h : Accessed c₀ idx c) (h' : Accessed c₀ idx c') :
    Accessed c₀ idx (if p then c else c') := by
  split
  · exact h
  · exact h'

theorem Accessed.ite_snd {p : Prop} [Decidable p] {read : BitVec 32 × AmtsuCtrl bus}
    (h : Accessed c₀ idx read.2) (h' : Accessed c₀ idx c') (value : BitVec 32) :
    Accessed c₀ idx (if p then read else (value, c')).2 := by
  split
  · exact h
  · exact h'

theorem ctrlSelect_accessed (hc : Coherent c) (idx : Nat) :
    Accessed c idx (ctrlSelect false c idx) :=
  { ctrlSelect_selected hc (by
      show (idx : Int) ≠ -2
      omega) with
    irqEnabled_eq := rfl
    devices_eq := rfl
    next_eq := rfl }

/-- `amtsu_ctrl_command` is nothing but accesses to its device. -/
theorem command_accessed (hc : Coherent c) (hidx : idx < amtsuDevices)
    (hdevice : (c.devices idx).isSome) (cmd cmdFlags a b : BitVec 32) :
    Accessed c idx (c.command false idx cmd cmdFlags a b).2 := by
  rw [command, if_pos hdevice]
  have hselect := ctrlSelect_accessed hc idx
  generalize ctrlSelect false c (idx : Int) = c₁ at hselect
  have hwriteA := Accessed.ite (p := cmdFlags &&& amtsuCmdWriteA ≠ 0)
    (hselect.writel hidx .a a) hselect
  have hwriteB := Accessed.ite (p := cmdFlags &&& amtsuCmdWriteB ≠ 0)
    (hwriteA.writel hidx .b b) hwriteA
  have hcmd := hwriteB.writel hidx .cmd cmd
  have hreadA := Accessed.ite_snd (p := cmdFlags &&& amtsuCmdReadA ≠ 0) (hcmd.readl .a) hcmd a
  exact Accessed.ite_snd (hreadA.readl .b) hreadA b

end

end AmtsuCtrl

/-! ## Steps and runs -/

open AmtsuCtrl

theorem ctrl_ne_none : amtsuIdxCtrl ≠ amtsuIdxNone := by decide

theorem idx_ne_none (idx : Nat) : (idx : Int) ≠ amtsuIdxNone := by
  show (idx : Int) ≠ -2
  omega

section
variable {c : AmtsuCtrl bus}

/-- The two commands of the controller that are for a device. -/
theorem ctrlCommand_inv (hc : AmtsuInv c) {idx : Nat} {cmd : BitVec 32} {enabled : Bool}
    (hdevice : (c.devices idx).isSome)
    (hcmd : ∀ state, bus.irqEnabled
      (bus.write 0 .cmd cmd (bus.write 0 .b (BitVec.ofNat 32 (idx + 1)) state)) =
        Function.update (bus.irqEnabled state) idx enabled) :
    let c' := (ctrlSelect false c amtsuIdxCtrl).ctrlCommand idx cmd
    AmtsuInv { c' with devices := Function.update c'.devices idx (some enabled) } := by
  intro c'
  have hselected := ctrlSelect_selected hc.toCoherent ctrl_ne_none
  have hdone : c'.Selected amtsuIdxCtrl := hselected.ctrlCommand idx cmd
  have hstate : bus.irqEnabled c'.state = Function.update (bus.irqEnabled c.state) idx enabled := by
    rw [hselected.ctrlCommand_state idx cmd]
    exact hcmd c.state
  exact
    { hdone.toCoherent with
      next_le := hc.next_le
      device_lt := by
        intro idx' enabled' hidx'
        change Function.update c.devices idx (some enabled) idx' = some enabled' at hidx'
        by_cases hsame : idx' = idx
        · obtain ⟨old, hold⟩ := Option.isSome_iff_exists.1 hdevice
          subst hsame
          exact hc.device_lt hold
        · rw [Function.update_of_ne hsame] at hidx'
          exact hc.device_lt hidx'
      irqEnabled_eq := by
        intro idx' hidx'
        show bus.irqEnabled c'.state idx' = (Function.update c.devices idx (some enabled) idx').getD _
        rw [hstate]
        by_cases hsame : idx' = idx
        · subst hsame
          rw [Function.update_self, Function.update_self]
          rfl
        · rw [Function.update_of_ne hsame, Function.update_of_ne hsame]
          exact hc.irqEnabled_eq hidx' }

theorem enableIrq_inv (hc : AmtsuInv c) (idx : Nat) : AmtsuInv (c.enableIrq false idx) := by
  rw [enableIrq]
  by_cases hdevice : c.devices idx = some false
  · rw [if_pos hdevice]
    have hlt := lt_of_lt_of_le (hc.device_lt hdevice) hc.next_le
    exact ctrlCommand_inv hc (by rw [hdevice]; rfl) fun state => bus.enable_irq state idx hlt
  · rw [if_neg hdevice]
    exact hc

theorem disableIrq_inv (hc : AmtsuInv c) (idx : Nat) : AmtsuInv (c.disableIrq false idx) := by
  rw [disableIrq]
  by_cases hdevice : c.devices idx = some true
  · rw [if_pos hdevice]
    have hlt := lt_of_lt_of_le (hc.device_lt hdevice) hc.next_le
    exact ctrlCommand_inv hc (by rw [hdevice]; rfl) fun state => bus.disable_irq state idx hlt
  · rw [if_neg hdevice]
    exact hc

theorem command_inv (hc : AmtsuInv c) (idx : Nat) (cmd cmdFlags a b : BitVec 32) :
    AmtsuInv (c.command false idx cmd cmdFlags a b).2 := by
  by_cases hdevice : (c.devices idx).isSome
  · obtain ⟨enabled, henabled⟩ := Option.isSome_iff_exists.1 hdevice
    have hidx := lt_of_lt_of_le (hc.device_lt henabled) hc.next_le
    have haccessed := command_accessed hc.toCoherent hidx hdevice cmd cmdFlags a b
    exact
      { haccessed.toCoherent with
        next_le := haccessed.next_eq ▸ hc.next_le
        device_lt := fun h => by
          rw [haccessed.devices_eq] at h
          rw [haccessed.next_eq]
          exact hc.device_lt h
        irqEnabled_eq := fun hidx' => by
          rw [haccessed.irqEnabled_eq, haccessed.devices_eq]
          exact hc.irqEnabled_eq hidx' }
  · rw [command, if_neg hdevice]
    exact hc

theorem discover_inv (hc : AmtsuInv c) (registers : Bool) :
    AmtsuInv (c.discover false registers) := by
  rw [discover]
  by_cases hnext : c.next < amtsuDevices
  · rw [if_pos hnext]
    have hread := (ctrlSelect_accessed hc.toCoherent c.next).readl .mid
    generalize (ctrlSelect false c (c.next : Int)).readl (c.next : Int) .mid = readMid at hread
    have hdevices : readMid.2.devices = c.devices := hread.devices_eq
    -- There is no device at `next` yet, so its interrupt is disabled.
    have hnone : c.devices c.next = none := by
      cases hdevice : c.devices c.next with
      | none => rfl
      | some enabled => exact absurd (hc.device_lt hdevice) (Nat.lt_irrefl _)
    have hfound : ∀ idx, ((if readMid.1 ≠ 0 ∧ registers then
        Function.update c.devices c.next (some false) else c.devices) idx).getD false =
          (c.devices idx).getD false := by
      intro idx
      split
      · by_cases hidx : idx = c.next
        · rw [hidx, Function.update_self, hnone]
          rfl
        · rw [Function.update_of_ne hidx]
      · rfl
    exact
      { select_eq := hread.select_eq
        reached := hread.reached
        next_le := hnext
        device_lt := by
          intro idx enabled h
          show idx < c.next + 1
          change (if readMid.1 ≠ 0 ∧ registers then
            Function.update c.devices c.next (some false) else c.devices) idx = some enabled at h
          split at h
          · by_cases hidx : idx = c.next
            · omega
            · rw [Function.update_of_ne hidx] at h
              exact Nat.lt_succ_of_lt (hc.device_lt h)
          · exact Nat.lt_succ_of_lt (hc.device_lt h)
        irqEnabled_eq := by
          intro idx hidx
          show bus.irqEnabled readMid.2.state idx = _
          rw [hread.irqEnabled_eq, hc.irqEnabled_eq hidx]
          exact (hfound idx).symm }
  · rw [if_neg hnext]
    exact hc

/-- A step does what it would do if it wrote its selection every time. -/
theorem amtsuStep_cached (hc : AmtsuInv c) (label : AmtsuLabel bus) :
    amtsuStep true c label = amtsuStep false c label := by
  have hselect := fun {index : Int} (h : index ≠ amtsuIdxNone) => ctrlSelect_cached hc.toCoherent h
  cases label with
  | discover registers => simp only [amtsuStep, discover, hselect (idx_ne_none c.next)]
  | enableIrq idx => simp only [amtsuStep, enableIrq, hselect ctrl_ne_none]
  | disableIrq idx => simp only [amtsuStep, disableIrq, hselect ctrl_ne_none]
  | command idx cmd cmdFlags a b => simp only [amtsuStep, command, hselect (idx_ne_none idx)]
  | event f => rfl

theorem amtsuStep_inv (hc : AmtsuInv c) (label : AmtsuLabel bus) :
    AmtsuInv (amtsuStep false c label).2 := by
  cases label with
  | discover registers => exact discover_inv hc registers
  | enableIrq idx => exact enableIrq_inv hc idx
  | disableIrq idx => exact disableIrq_inv hc idx
  | command idx cmd cmdFlags a b => exact command_inv hc idx cmd cmdFlags a b
  | event f =>
    exact
      { hc with
        irqEnabled_eq := fun hidx => by
          show bus.irqEnabled (f.1 c.state) _ = _
          rw [f.2 c.state]
          exact hc.irqEnabled_eq hidx }

theorem amtsuRun_inv (hc : AmtsuInv c) (labels : List (AmtsuLabel bus)) :
    amtsuRun true c labels = amtsuRun false c labels ∧ AmtsuInv (amtsuRun false c labels).2 := by
  induction labels generalizing c with
  | nil => exact ⟨rfl, hc⟩
  | cons label labels ih =>
    obtain ⟨hsame, hinv⟩ := ih (amtsuStep_inv hc label)
    refine ⟨?_, hinv⟩
    simp only [amtsuRun]
    rw [amtsuStep_cached hc label, hsame]

end

/-- Interrupts disabled one by one. -/
theorem disableAll_spec (idxs : List Nat) (hidxs : ∀ idx ∈ idxs, idx < amtsuDevices)
    {c : AmtsuCtrl bus} (hc : c.Selected amtsuIdxCtrl) :
    let c' := idxs.foldl (fun c idx => c.ctrlCommand idx amtsuCmdDisableIrq) c
    c'.Selected amtsuIdxCtrl ∧ c'.devices = c.devices ∧ c'.next = c.next ∧
      ∀ idx, (idx ∈ idxs ∨ bus.irqEnabled c.state idx = false) →
        bus.irqEnabled c'.state idx = false := by
  induction idxs generalizing c with
  | nil => exact ⟨hc, rfl, rfl, fun idx h => h.resolve_left List.not_mem_nil⟩
  | cons first idxs ih =>
    obtain ⟨hselected, hdevices, hnext, hoff⟩ := ih
      (fun idx hidx => hidxs idx (List.mem_cons_of_mem _ hidx))
      (hc.ctrlCommand first amtsuCmdDisableIrq)
    refine ⟨hselected, hdevices, hnext, fun idx hidx => hoff idx ?_⟩
    rw [hc.ctrlCommand_state, bus.disable_irq _ _ (hidxs first List.mem_cons_self)]
    by_cases hfirst : idx = first
    · right
      rw [hfirst, Function.update_self]
    · rw [Function.update_of_ne hfirst]
      exact hidx.imp_left fun hmem => (List.mem_cons.1 hmem).resolve_left hfirst

/-- The probe, on hardware with anything selected and any interrupts enabled. -/
theorem probe_inv (select : BitVec 32) (state : bus.State) :
    probe true select state = probe false select state ∧ AmtsuInv (probe false select state) := by
  let c₀ : AmtsuCtrl bus :=
    { select, state, selected := amtsuIdxNone, devices := fun _ => none, next := 0, accesses := [] }
  have hc₀ : Coherent c₀ := ⟨fun h => absurd rfl h, fun _ h => absurd h List.not_mem_nil⟩
  have hselected := ctrlSelect_selected hc₀ ctrl_ne_none
  obtain ⟨hdone, hdevices, hnext, hoff⟩ := disableAll_spec (List.range amtsuDevices)
    (fun idx => List.mem_range.1) hselected
  refine ⟨?_, ?_⟩
  · simp only [probe]
    rw [ctrlSelect_cached hc₀ ctrl_ne_none]
  · have hprobe : probe false select state =
        ((List.range amtsuDevices).foldl (fun c idx => c.ctrlCommand idx amtsuCmdDisableIrq)
          (ctrlSelect false c₀ amtsuIdxCtrl)).writel amtsuIdxCtrl .cmd amtsuCmdReset := rfl
    rw [hprobe]
    generalize (List.range amtsuDevices).foldl (fun c idx => c.ctrlCommand idx amtsuCmdDisableIrq)
      (ctrlSelect false c₀ amtsuIdxCtrl) = c at hdone hdevices hnext hoff
    have hnone : ∀ idx, c.devices idx = none := fun idx => by
      rw [hdevices]
      rfl
    exact
      { (hdone.writel .cmd amtsuCmdReset).toCoherent with
        next_le := by
          show c.next ≤ _
          rw [hnext]
          exact Nat.zero_le _
        device_lt := fun {idx enabled} h => by
          change c.devices idx = some enabled at h
          rw [hnone idx] at h
          cases h
        irqEnabled_eq := fun {idx} hidx => by
          show bus.irqEnabled (bus.write c.select .cmd amtsuCmdReset c.state) idx =
            (c.devices idx).getD false
          rw [hdone.select_ctrl, bus.reset, hnone idx]
          exact hoff idx (.inl (List.mem_range.2 hidx)) }

/-- From the probe on, whatever the devices do: remembering the selection makes no difference to
the results of the commands or to the state of the hardware, what is remembered is what is
selected, every access has been to what it was for, and `irq_enabled` is what the hardware has. -/
theorem amtsu_cachedSelection (bus : AmtsuBus) (select : BitVec 32) (state : bus.State)
    (labels : List (AmtsuLabel bus)) :
    let run := amtsuRun true (probe true select state) labels
    run = amtsuRun false (probe false select state) labels ∧
      (run.2.selected ≠ amtsuIdxNone → run.2.select = BitVec.ofInt 32 (run.2.selected + 1)) ∧
      (∀ x ∈ run.2.accesses, x.2 = BitVec.ofInt 32 (x.1 + 1)) ∧
      ∀ idx enabled, run.2.devices idx = some enabled → bus.irqEnabled run.2.state idx = enabled := by
  intro run
  obtain ⟨hprobe, hinv⟩ := probe_inv select state
  obtain ⟨hrun, hfinal⟩ := amtsuRun_inv hinv labels
  have hsame : run = amtsuRun false (probe false select state) labels := by
    show amtsuRun true (probe true select state) labels = _
    rw [hprobe, hrun]
  rw [hsame]
  refine ⟨rfl, hfinal.select_eq, hfinal.reached, fun idx enabled henabled => ?_⟩
  have hlt := lt_of_lt_of_le (hfinal.device_lt henabled) hfinal.next_le
  rw [hfinal.irqEnabled_eq hlt, henabled]
  rfl

end XrLinux.Linux
