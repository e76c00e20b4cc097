import Mathlib.Data.List.Count
import XrLinux.Linux.Amtsu

/-!
# Linux — the lifetime of the devices of the Amtsu bus

`amtsu_ctrl_probe` makes a device for every index of the bus where one answers, and
`amtsu_ctrl_remove` takes them away. What can fail on the way is an outcome of each index; what is
done with the devices and with the id allocator is a list of events, in order.
-/

namespace XrLinux.Linux.Lifetime

/-- What happens to an id, or to the device of an index of the bus. -/
inductive Event where
  | idaAlloc (id : Nat)
  | idaFree (id : Nat)
  /-- `device_add` has succeeded. -/
  | add (idx : Nat)
  | unregister (idx : Nat)
  /-- The structure is read or written. -/
  | access (idx : Nat)
  /-- The structure is freed. -/
  | release (idx : Nat)
  deriving DecidableEq, Repr

/-- What the calls for a device return. -/
structure DeviceOutcome where
  modelId : BitVec 32
  allocated : Bool
  irq : Int
  idaAlloc : Int
  setName : Int
  deviceAdd : Int

/-- What the calls of the probe return, before it looks for devices and for each of them. -/
structure ProbeOutcome where
  allocated : Bool
  ioremap : Int
  device : Nat → DeviceOutcome

/-- The ids that are out, the references to the devices, `dev->idx` of each, and where
`ctrl->devices` has a pointer. -/
structure State where
  ida : List Nat
  refs : Nat → Nat
  devIdx : Nat → Nat
  devices : Nat → Bool
  events : List Event

namespace State

def log (s : State) (event : Event) : State := { s with events := s.events ++ [event] }

/-- The lowest id that is not out. -/
def freshId (s : State) : Nat := ((List.range (s.ida.length + 1)).find? (· ∉ s.ida)).getD 0

/-- `ida_alloc`, which fails with `error`. -/
def idaAlloc (s : State) (error : Int) : Int × State :=
  if error < 0 then (error, s)
  else (s.freshId, { s with ida := s.freshId :: s.ida }.log (.idaAlloc s.freshId))

def idaFree (s : State) (id : Nat) : State := { s with ida := s.ida.erase id }.log (.idaFree id)

def deviceInitialize (s : State) (idx : Nat) : State :=
  { s.log (.access idx) with refs := Function.update s.refs idx 1 }

/-- `put_device`, which frees the device with its last reference. -/
def putDevice (s : State) (idx : Nat) : State :=
  let s := { s.log (.access idx) with refs := Function.update s.refs idx (s.refs idx - 1) }
  if s.refs idx = 0 then s.log (.release idx) else s

def amtsuRegisterDevice (s : State) (o : DeviceOutcome) (idx : Nat) : Int × State :=
  let s := s.deviceInitialize idx
  let (ret, s) := s.idaAlloc o.idaAlloc
  if ret < 0 then (ret, s)
  else
    let s := { s.log (.access idx) with devIdx := Function.update s.devIdx idx ret.toNat }
    if o.setName ≠ 0 then (o.setName, s.idaFree (s.devIdx idx))
    else if o.deviceAdd ≠ 0 then (o.deviceAdd, s.idaFree (s.devIdx idx))
    else (0, s.log (.add idx))

def amtsuUnregisterDevice (s : State) (idx : Nat) : State :=
  (s.log (.access idx)).idaFree (s.devIdx idx)

/-- The body of the loop that looks for devices. -/
def probeDevice (s : State) (o : DeviceOutcome) (idx : Nat) : State :=
  if o.modelId = 0 then s
  else if o.allocated = false then s
  else
    let s := { s.log (.access idx) with devIdx := Function.update s.devIdx idx 0 }
    if o.irq < 0 then s.log (.release idx)
    else
      let (ret, s) := s.amtsuRegisterDevice o idx
      let s := if ret ≠ 0 then s.putDevice idx else s
      { s with devices := Function.update s.devices idx true }

def amtsuCtrlProbe (s : State) (o : ProbeOutcome) : Int × State :=
  if o.allocated = false then (-12, s)
  else if o.ioremap < 0 then (o.ioremap, s)
  else (0, (List.range amtsuDevices).foldl (fun s idx => s.probeDevice (o.device idx) idx) s)

def amtsuCtrlRemove (s : State) : State :=
  (List.range amtsuDevices).foldl
    (fun s idx => if s.devices idx then s.amtsuUnregisterDevice idx else s) s

end State

/-- The driver bound to a controller, with some ids out to others, and unbound again. -/
def bindUnbind (ida : List Nat) (o : ProbeOutcome) : State :=
  let s : State :=
    { ida, refs := fun _ => 0, devIdx := fun _ => 0, devices := fun _ => false, events := [] }
  let (ret, s) := s.amtsuCtrlProbe o
  if ret = 0 then s.amtsuCtrlRemove else s

/-- Ids are freed as often as allocated, devices unregistered as often as added, and not used after
they were freed. -/
structure Proper (events : List Event) : Prop where
  ids : ∀ id, events.count (.idaFree id) = events.count (.idaAlloc id)
  devices : ∀ idx, events.count (.unregister idx) = events.count (.add idx)
  alive : events.Pairwise fun e e' => ∀ idx, e = .release idx → e' ≠ .access idx

/-- The device gets as far as `amtsu_register_device`. -/
def DeviceOutcome.Registers (o : DeviceOutcome) : Prop :=
  o.modelId ≠ 0 ∧ o.allocated = true ∧ 0 ≤ o.irq

section
variable {s s' s'' : State} {o : DeviceOutcome} {idx k : Nat}

/-! ## What the calls add -/

/-- More events, none of them an unregistration, and no pointer less. -/
structure Extends (s s' : State) : Prop where
  events : ∃ added, s'.events = s.events ++ added ∧ ∀ k, .unregister k ∉ added
  devices : ∀ k, s.devices k = true → s'.devices k = true

theorem Extends.refl (s : State) : Extends s s :=
  ⟨⟨[], (List.append_nil _).symm, fun _ => List.not_mem_nil⟩, fun _ => id⟩

theorem Extends.trans (h : Extends s s') (h' : Extends s' s'') : Extends s s'' := by
  obtain ⟨added, heq, hnone⟩ := h.events
  obtain ⟨added', heq', hnone'⟩ := h'.events
  refine ⟨⟨added ++ added', ?_, fun k hmem => ?_⟩, fun k hk => h'.devices k (h.devices k hk)⟩
  · rw [heq', heq, List.append_assoc]
  · exact (List.mem_append.mp hmem).elim (hnone k) (hnone' k)

theorem Extends.mem (h : Extends s s') {e : Event} (he : e ∈ s.events) : e ∈ s'.events := by
  obtain ⟨added, heq, -⟩ := h.events
  rw [heq]
  exact List.mem_append_left _ he

theorem Extends.log (h : Extends s s') {event : Event} (hne : ∀ k, event ≠ .unregister k) :
    Extends s (s'.log event) := by
  refine h.trans ⟨⟨[event], rfl, fun k hmem => ?_⟩, fun _ => id⟩
  exact hne k (List.mem_singleton.mp hmem).symm

/-- Changes of anything but the events and the pointers. -/
theorem Extends.congr (h : Extends s s') (hevents : s''.events = s'.events)
    (hdevices : s''.devices = s'.devices) : Extends s s'' := by
  obtain ⟨added, heq, hnone⟩ := h.events
  exact ⟨⟨added, hevents.trans heq, hnone⟩, fun k hk => (congrFun hdevices k).trans (h.devices k hk)⟩

theorem idaFree_extends (h : Extends s s') (id : Nat) : Extends s (s'.idaFree id) := by
  have herase : Extends s { s' with ida := s'.ida.erase id } := h.congr rfl rfl
  exact herase.log nofun

theorem idaAlloc_extends (h : Extends s s') (error : Int) : Extends s (s'.idaAlloc error).2 := by
  have hcons : Extends s { s' with ida := s'.freshId :: s'.ida } := h.congr rfl rfl
  unfold State.idaAlloc
  split_ifs
  · exact h
  · exact hcons.log nofun

theorem access_extends (h : Extends s s') (idx : Nat) : Extends s (s'.log (.access idx)) :=
  h.log nofun

/-- The last reference is dropped. -/
theorem putDevice_spec (h : Extends s s') (hrefs : s'.refs idx = 1) :
    Extends s (s'.putDevice idx) ∧ .release idx ∈ (s'.putDevice idx).events := by
  have haccess : Extends s { s'.log (.access idx) with
      refs := Function.update s'.refs idx (s'.refs idx - 1) } := (access_extends h idx).congr rfl rfl
  have hzero : Function.update s'.refs idx (s'.refs idx - 1) idx = 0 := by
    rw [Function.update_self, hrefs]
  unfold State.putDevice
  dsimp only
  rw [if_pos hzero]
  exact ⟨haccess.log nofun, List.mem_append_right _ List.mem_cons_self⟩

/-- A device is registered, or its one reference is left. -/
theorem amtsuRegisterDevice_spec (h : Extends s s') (o : DeviceOutcome) (idx : Nat) :
    Extends s (s'.amtsuRegisterDevice o idx).2 ∧
      ((s'.amtsuRegisterDevice o idx).1 = 0 ∧
          .add idx ∈ (s'.amtsuRegisterDevice o idx).2.events ∨
        (s'.amtsuRegisterDevice o idx).1 ≠ 0 ∧
          (s'.amtsuRegisterDevice o idx).2.refs idx = 1) := by
  have hinit : Extends s (s'.deviceInitialize idx) := (access_extends h idx).congr rfl rfl
  have hone : (s'.deviceInitialize idx).refs idx = 1 := Function.update_self ..
  unfold State.amtsuRegisterDevice
  generalize s'.deviceInitialize idx = s₁ at hinit hone
  have halloc := idaAlloc_extends hinit o.idaAlloc
  unfold State.idaAlloc at halloc ⊢
  by_cases hfail : o.idaAlloc < 0
  · simp only [if_pos hfail] at halloc ⊢
    exact ⟨halloc, .inr ⟨by omega, hone⟩⟩
  · simp only [if_neg hfail] at halloc ⊢
    rw [if_neg (show ¬ ((s₁.freshId : Int) < 0) by omega)]
    generalize hs₂ : { s₁ with ida := s₁.freshId :: s₁.ida }.log (.idaAlloc s₁.freshId) = s₂
      at halloc
    have hone₂ : s₂.refs idx = 1 := by
      rw [← hs₂]
      exact hone
    have hnamed : Extends s { s₂.log (.access idx) with
        devIdx := Function.update s₂.devIdx idx (s₁.freshId : Int).toNat } :=
      (access_extends halloc idx).congr rfl rfl
    split_ifs with hname hadd
    · exact ⟨idaFree_extends hnamed _, .inr ⟨hname, hone₂⟩⟩
    · exact ⟨idaFree_extends hnamed _, .inr ⟨hadd, hone₂⟩⟩
    · exact ⟨hnamed.log nofun, .inl ⟨rfl, List.mem_append_right _ List.mem_cons_self⟩⟩

/-! ## The probe -/

/-- A device that is registered or has failed to be: there is a pointer to it either way. -/
theorem probeDevice_registers (s : State) (ho : o.Registers) :
    Extends s (s.probeDevice o idx) ∧ (s.probeDevice o idx).devices idx = true ∧
      (.add idx ∈ (s.probeDevice o idx).events ∨ .release idx ∈ (s.probeDevice o idx).events) := by
  obtain ⟨hmodel, hallocated, hirq⟩ := ho
  have hstart : Extends s { s.log (.access idx) with devIdx := Function.update s.devIdx idx 0 } :=
    (access_extends (.refl s) idx).congr rfl rfl
  have hspec := amtsuRegisterDevice_spec hstart o idx
  unfold State.probeDevice
  rw [if_neg hmodel, if_neg (show ¬ o.allocated = false by rw [hallocated]; decide)]
  dsimp only
  rw [if_neg (show ¬ o.irq < 0 by omega)]
  generalize State.amtsuRegisterDevice _ o idx = r at hspec
  obtain ⟨hext, hcases⟩ := hspec
  have hpointer : ∀ t : State, Extends s t →
      Extends s { t with devices := Function.update t.devices idx true } := by
    intro t ht
    refine ⟨ht.events, fun k hk => ?_⟩
    show Function.update t.devices idx true k = true
    by_cases hkx : k = idx
    · rw [hkx, Function.update_self]
    · rw [Function.update_of_ne hkx]
      exact ht.devices k hk
  rcases hcases with ⟨hzero, hadd⟩ | ⟨hne, hrefs⟩
  · rw [if_neg (not_not_intro hzero)]
    exact ⟨hpointer _ hext, Function.update_self .., .inl hadd⟩
  · rw [if_pos hne]
    obtain ⟨hput, hrelease⟩ := putDevice_spec hext hrefs
    exact ⟨hpointer _ hput, Function.update_self .., .inr hrelease⟩

/-- Without a registration the structure is not even allocated, or is freed right away. -/
theorem probeDevice_quiet (s : State) (ho : ¬ o.Registers) :
    (s.probeDevice o idx).devices = s.devices ∧
      ((s.probeDevice o idx).events = s.events ∨
        (s.probeDevice o idx).events = s.events ++ [.access idx, .release idx]) := by
  unfold State.probeDevice
  split_ifs with hmodel hallocated hirq
  · exact ⟨rfl, .inl rfl⟩
  · exact ⟨rfl, .inl rfl⟩
  · refine ⟨rfl, .inr ?_⟩
    show (s.events ++ [.access idx]) ++ [.release idx] = _
    rw [List.append_assoc]
    rfl
  · exact absurd ⟨hmodel, by simpa using hallocated, by omega⟩ ho

theorem probeDevice_extends (s : State) (o : DeviceOutcome) (idx : Nat) :
    Extends s (s.probeDevice o idx) := by
  by_cases ho : o.Registers
  · exact (probeDevice_registers s ho).1
  · obtain ⟨hdevices, hevents⟩ := @probeDevice_quiet o idx s ho
    refine ⟨?_, fun k hk => (congrFun hdevices k).trans hk⟩
    rcases hevents with h | h
    · exact ⟨[], by rw [h, List.append_nil], fun _ => List.not_mem_nil⟩
    · exact ⟨_, h, fun k => by simp⟩

/-- The loop over the indexes. -/
def probeAll (device : Nat → DeviceOutcome) (idxs : List Nat) (s : State) : State :=
  idxs.foldl (fun s idx => s.probeDevice (device idx) idx) s

theorem probeAll_extends (device : Nat → DeviceOutcome) (idxs : List Nat) (s : State) :
    Extends s (probeAll device idxs s) := by
  induction idxs generalizing s with
  | nil => exact .refl s
  | cons idx idxs ih => exact (probeDevice_extends s (device idx) idx).trans (ih _)

theorem probeAll_registers {device : Nat → DeviceOutcome} {idxs : List Nat} (hmem : idx ∈ idxs)
    (ho : (device idx).Registers) (s : State) :
    (probeAll device idxs s).devices idx = true ∧
      (.add idx ∈ (probeAll device idxs s).events ∨
        .release idx ∈ (probeAll device idxs s).events) := by
  induction idxs generalizing s with
  | nil => cases hmem
  | cons first idxs ih =>
    rcases List.mem_cons.mp hmem with rfl | hrest
    · obtain ⟨-, hpointer, hevent⟩ := @probeDevice_registers (device idx) idx s ho
      have hext := probeAll_extends device idxs (s.probeDevice (device idx) idx)
      exact ⟨hext.devices idx hpointer, hevent.imp hext.mem hext.mem⟩
    · exact ih hrest _

/-- Nothing of a device is left, and what there was of it is in order. -/
structure Quiet (k : Nat) (s : State) : Prop where
  devices : ∀ idx, s.devices idx = false
  events : ∀ e ∈ s.events, ∃ idx < k, e = .access idx ∨ e = .release idx
  alive : s.events.Pairwise fun e e' => ∀ idx, e = .release idx → e' ≠ .access idx

theorem probeAll_quiet {device : Nat → DeviceOutcome} (n : Nat)
    (ho : ∀ idx < n, ¬ (device idx).Registers) {s : State} (h : Quiet 0 s) :
    Quiet n (probeAll device (List.range n) s) := by
  induction n with
  | zero => exact h
  | succ n ih =>
    have hbefore := ih fun idx hidx => ho idx (by omega)
    have hlast : probeAll device (List.range (n + 1)) s =
        (probeAll device (List.range n) s).probeDevice (device n) n := by
      rw [probeAll, List.range_succ, List.foldl_append]
      rfl
    rw [hlast]
    obtain ⟨hdevices, hevents⟩ := @probeDevice_quiet (device n) n
      (probeAll device (List.range n) s) (ho n (by omega))
    have hnone : ∀ idx, ((probeAll device (List.range n) s).probeDevice (device n) n).devices idx =
        false := fun idx => (congrFun hdevices idx).trans (hbefore.devices idx)
    have hold : ∀ e ∈ (probeAll device (List.range n) s).events,
        ∃ idx < n + 1, e = .access idx ∨ e = .release idx := by
      intro e he
      obtain ⟨idx, hlt, heq⟩ := hbefore.events e he
      exact ⟨idx, by omega, heq⟩
    rcases hevents with h | h
    · exact ⟨hnone, by rwa [h], by rw [h]; exact hbefore.alive⟩
    · refine ⟨hnone, ?_, ?_⟩
      · rw [h]
        intro e he
        rcases List.mem_append.mp he with he | he
        · exact hold e he
        · refine ⟨n, by omega, ?_⟩
          simpa using he
      · rw [h, List.pairwise_append]
        refine ⟨hbefore.alive, by simp, ?_⟩
        -- the new events are those of another device
        rintro e he e' he' idx rfl rfl
        obtain ⟨idx', hlt, hcase⟩ := hbefore.events _ he
        simp only [reduceCtorEq, Event.release.injEq, false_or] at hcase
        simp only [List.mem_cons, Event.access.injEq, reduceCtorEq, List.not_mem_nil, or_false]
          at he'
        omega

/-! ## The removal -/

/-- The loop over the table. -/
def removeAll (idxs : List Nat) (s : State) : State :=
  idxs.foldl (fun s idx => if s.devices idx then s.amtsuUnregisterDevice idx else s) s

theorem removeDevice_extends (s : State) (idx : Nat) :
    Extends s (if s.devices idx then s.amtsuUnregisterDevice idx else s) := by
  split_ifs
  · exact idaFree_extends (access_extends (.refl s) idx) _
  · exact .refl s

theorem removeAll_extends (idxs : List Nat) (s : State) : Extends s (removeAll idxs s) := by
  induction idxs generalizing s with
  | nil => exact .refl s
  | cons idx idxs ih => exact (removeDevice_extends s idx).trans (ih _)

/-- Whatever the table points to is accessed. -/
theorem removeAll_accesses {idxs : List Nat} (hmem : idx ∈ idxs) {s : State}
    (hpointer : s.devices idx = true) :
    ∃ added, (removeAll idxs s).events = s.events ++ added ∧ .access idx ∈ added := by
  induction idxs generalizing s with
  | nil => cases hmem
  | cons first idxs ih =>
    have hstep := removeDevice_extends s first
    rcases List.mem_cons.mp hmem with rfl | hrest
    · obtain ⟨added, heq, -⟩ := (removeAll_extends idxs (s.amtsuUnregisterDevice idx)).events
      refine ⟨[.access idx, .idaFree (s.devIdx idx)] ++ added, ?_, by simp⟩
      show (removeAll idxs (if s.devices idx then s.amtsuUnregisterDevice idx else s)).events = _
      rw [if_pos hpointer, heq, ← List.append_assoc]
      congr 1
      show (s.events ++ [.access idx]) ++ [.idaFree (s.devIdx idx)] = _
      rw [List.append_assoc]
      rfl
    · obtain ⟨added, heq, hadded⟩ := ih hrest (hstep.devices idx hpointer)
      obtain ⟨before, hbefore, -⟩ := hstep.events
      refine ⟨before ++ added, ?_, List.mem_append_right _ hadded⟩
      show (removeAll idxs (if s.devices first then s.amtsuUnregisterDevice first else s)).events = _
      rw [heq, hbefore, List.append_assoc]

theorem removeAll_quiet (idxs : List Nat) {s : State} (h : ∀ idx, s.devices idx = false) :
    removeAll idxs s = s := by
  induction idxs with
  | nil => rfl
  | cons idx idxs ih =>
    show removeAll idxs (if s.devices idx then s.amtsuUnregisterDevice idx else s) = s
    rw [h idx, if_neg (by decide), ih]

end

/-! ## Runs -/

/-- No events but those of structures that were freed right away. -/
theorem Quiet.proper {k : Nat} {s : State} (h : Quiet k s) : Proper s.events where
  ids := by
    intro id
    have hnone : ∀ e ∈ s.events, e ≠ .idaFree id ∧ e ≠ .idaAlloc id := by
      intro e he
      obtain ⟨idx, -, rfl | rfl⟩ := h.events e he <;> exact ⟨nofun, nofun⟩
    rw [List.count_eq_zero_of_not_mem fun he => (hnone _ he).1 rfl,
      List.count_eq_zero_of_not_mem fun he => (hnone _ he).2 rfl]
  devices := by
    intro idx
    have hnone : ∀ e ∈ s.events, e ≠ .unregister idx ∧ e ≠ .add idx := by
      intro e he
      obtain ⟨idx', -, rfl | rfl⟩ := h.events e he <;> exact ⟨nofun, nofun⟩
    rw [List.count_eq_zero_of_not_mem fun he => (hnone _ he).1 rfl,
      List.count_eq_zero_of_not_mem fun he => (hnone _ he).2 rfl]
  alive := h.alive

/-- One device that gets as far as its registration is enough. -/
theorem not_proper_of_registers {device : Nat → DeviceOutcome} {idxs : List Nat} {idx : Nat}
    (hmem : idx ∈ idxs) (ho : (device idx).Registers) {s : State} (hs : s.events = []) :
    ¬ Proper (removeAll idxs (probeAll device idxs s)).events := by
  intro h
  obtain ⟨hpointer, hevent⟩ := probeAll_registers hmem ho s
  obtain ⟨added, hadded, haccess⟩ := removeAll_accesses hmem hpointer
  have hall := (probeAll_extends device idxs s).trans (removeAll_extends idxs _)
  rcases hevent with hadd | hrelease
  · -- it was added, and no device is ever unregistered
    have hmore : .add idx ∈ (removeAll idxs (probeAll device idxs s)).events := by
      rw [hadded]
      exact List.mem_append_left _ hadd
    have hnone : .unregister idx ∉ (removeAll idxs (probeAll device idxs s)).events := by
      obtain ⟨events, heq, hnone⟩ := hall.events
      rw [heq, hs]
      exact hnone idx
    have hcount := h.devices idx
    rw [List.count_eq_zero_of_not_mem hnone] at hcount
    exact absurd hcount.symm (List.count_pos_iff.mpr hmore).ne'
  · -- it was freed, and the removal goes to it
    have halive := h.alive
    rw [hadded, List.pairwise_append] at halive
    exact halive.2.2 _ hrelease _ haccess idx rfl rfl

/-- **The lifetime of the devices.** Every id is freed as often as it was allocated, every device
unregistered as often as it was added and none used after it was freed, if and only if the probe ends
before it looks for devices or no device gets as far as its registration. -/
theorem bindUnbind_proper_iff (ida : List Nat) (o : ProbeOutcome) :
    Proper (bindUnbind ida o).events ↔
      o.allocated = false ∨ o.ioremap < 0 ∨
        ∀ idx < amtsuDevices, ¬ (o.device idx).Registers := by
  have hnothing : Proper [] := ⟨fun _ => rfl, fun _ => rfl, .nil⟩
  unfold bindUnbind State.amtsuCtrlProbe
  by_cases hallocated : o.allocated = false
  · simp only [if_pos hallocated]
    exact iff_of_true hnothing (.inl hallocated)
  by_cases hioremap : o.ioremap < 0
  · simp only [if_neg hallocated, if_pos hioremap]
    rw [if_neg (show ¬ o.ioremap = 0 by omega)]
    exact iff_of_true hnothing (.inr (.inl hioremap))
  simp only [if_neg hallocated, if_neg hioremap, if_true]
  constructor
  · intro h
    refine .inr (.inr fun idx hidx ho => ?_)
    exact not_proper_of_registers (List.mem_range.mpr hidx) ho rfl h
  · intro h
    have hnone : ∀ idx < amtsuDevices, ¬ (o.device idx).Registers :=
      (h.resolve_left hallocated).resolve_left hioremap
    have hquiet := @probeAll_quiet o.device amtsuDevices hnone
      { ida, refs := fun _ => 0, devIdx := fun _ => 0, devices := fun _ => false, events := [] }
      ⟨fun _ => rfl, List.forall_mem_nil _, .nil⟩
    have hremove := removeAll_quiet (List.range amtsuDevices) hquiet.devices
    have hproper := hquiet.proper
    rw [← hremove] at hproper
    exact hproper

/-- A keyboard that cannot be named. -/
theorem bindUnbind_frees_twice :
    ¬ ∀ o : ProbeOutcome, Proper (bindUnbind [] o).events := by
  intro h
  refine not_proper_of_registers (List.mem_range.mpr (show 0 < amtsuDevices by decide)) ?_ rfl
    (h ⟨true, 0, fun idx => ⟨if idx = 0 then 0x8fc48fc4 else 0, true, 5, 0, -12, 0⟩⟩)
  exact ⟨by decide, rfl, by decide⟩

end XrLinux.Linux.Lifetime
