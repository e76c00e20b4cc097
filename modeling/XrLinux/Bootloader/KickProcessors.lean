import Mathlib.Data.Finset.Card
import XrLinux.Lib.Run
import XrLinux.Bootloader.Memory

/-!
# Bootloader — running a function on the other processors

`BxRunOnOtherCpus` of `a4x.c` and the handlers that the firmware runs for it, one access to what
they share at a time. The handlers count themselves with a load-linked and a store-conditional; the
structure with the count is on the stack of the caller, who returns when the count is complete and
then uses the memory for something else.
-/

namespace XrLinux.Bootloader

open Run

/-- `BL_ARRAY_SIZE(BxDeviceDatabase->Processors)`. -/
def processorSlots : Nat := 8

/-- `BxNumCpus`, as `BxDtAddCpus` counts it. -/
def bxNumCpus (present : Nat → Bool) : Nat :=
  (List.range processorSlots).foldl (fun count i => if present i then add32 count 1 else count) 0

/-- A call of `BxRunOnOtherCpus`, by one of the processors that are present. -/
structure Kick where
  present : Nat → Bool
  self : Nat
  func : Nat
  ctx : Nat
  self_lt : self < processorSlots
  self_present : present self = true

/-- `struct BxKickProcessorData`. -/
structure KickData where
  func : Nat
  ctx : Nat
  numFinished : Nat

inductive CallerPc where
  | start
  | kicking (i respondCount : Nat)
  | polling (respondCount : Nat)
  | returned

/-- Where a processor is in `BxKickProcessorHandler`, with what is in its registers. -/
inductive HandlerPc where
  | idle
  | kicked
  | readCtx (func : Nat)
  | barrier (func ctx : Nat)
  | loadLinked (func ctx : Nat)
  | add (func ctx scratch : Nat)
  | storeConditional (func ctx scratch : Nat)
  | branch (func ctx scratch : Nat)
  | call (func ctx : Nat)
  | called
  deriving DecidableEq

structure KickState where
  caller : CallerPc
  data : KickData
  /-- How often the firmware was asked to run the handler on a processor. -/
  kicks : Nat → Nat
  handler : Nat → HandlerPc
  reserved : Nat → Bool
  /-- The calls of functions with their contexts on a processor. -/
  calls : Nat → List (Nat × Nat)

inductive KickEvent where
  | caller
  /-- The next step of processor `i`, whose store-conditional may fail for any reason. -/
  | handler (i : Nat) (spurious : Bool)
  /-- After the return, something else on the stack of the caller. -/
  | reuse (data : KickData)

def KickState.start (data : KickData) : KickState where
  caller := .start
  data := data
  kicks _ := 0
  handler _ := .idle
  reserved _ := false
  calls _ := []

def KickState.setHandler (s : KickState) (i : Nat) (pc : HandlerPc) : KickState :=
  { s with handler := Function.update s.handler i pc }

/-- `BxApiTable->KickProcessor`. -/
def KickState.kick (s : KickState) (i : Nat) : KickState :=
  { s.setHandler i .kicked with kicks := Function.update s.kicks i (s.kicks i + 1) }

/-- `BxRunOnOtherCpus`. -/
def callerStep (k : Kick) (s : KickState) : Option KickState :=
  match s.caller with
  | .start =>
    let respondCount := sub32 (bxNumCpus k.present) 1
    if respondCount = 0 then some { s with caller := .returned }
    else some { s with caller := .kicking 0 respondCount, data := ⟨k.func, k.ctx, 0⟩ }
  | .kicking i respondCount =>
    if i < processorSlots then
      if i = k.self ∨ k.present i = false then some { s with caller := .kicking (i + 1) respondCount }
      else some { s.kick i with caller := .kicking (i + 1) respondCount }
    else some { s with caller := .polling respondCount }
  | .polling respondCount =>
    if s.data.numFinished < respondCount then some s else some { s with caller := .returned }
  | .returned => none

/-- `BxKickProcessorHandler`. -/
def handlerStep (s : KickState) (i : Nat) (spurious : Bool) : Option KickState :=
  match s.handler i with
  | .idle => none
  | .kicked => some (s.setHandler i (.readCtx s.data.func))
  | .readCtx func => some (s.setHandler i (.barrier func s.data.ctx))
  | .barrier func ctx => some (s.setHandler i (.loadLinked func ctx))
  | .loadLinked func ctx =>
    some { s.setHandler i (.add func ctx s.data.numFinished) with
      reserved := Function.update s.reserved i true }
  | .add func ctx scratch => some (s.setHandler i (.storeConditional func ctx (add32 scratch 1)))
  | .storeConditional func ctx scratch =>
    if s.reserved i && !spurious then
      some { s.setHandler i (.branch func ctx 1) with
        data := { s.data with numFinished := scratch }
        reserved := fun _ => false }
    else
      some { s.setHandler i (.branch func ctx 0) with
        reserved := Function.update s.reserved i false }
  | .branch func ctx scratch =>
    some (s.setHandler i (if scratch = 0 then .loadLinked func ctx else .call func ctx))
  | .call func ctx =>
    some { s.setHandler i .called with
      calls := Function.update s.calls i (s.calls i ++ [(func, ctx)]) }
  | .called => none

def kickStep (k : Kick) (s : KickState) (event : KickEvent) : Option KickState :=
  match event with
  | .caller => callerStep k s
  | .handler i spurious => handlerStep s i spurious
  | .reuse data =>
    match s.caller with
    | .returned => some { s with data }
    | _ => none

/-- The next step of a processor there reads or writes the shared structure. -/
def HandlerPc.Touches : HandlerPc → Prop
  | .kicked | .readCtx _ | .loadLinked _ _ | .storeConditional _ _ _ => True
  | _ => False

/-- The processors that are to be kicked. -/
def Kick.others (k : Kick) : Finset Nat :=
  (Finset.range processorSlots).filter fun i => i ≠ k.self ∧ k.present i = true

/-! ## The count -/

theorem count_eq (present : Nat → Bool) {n : Nat} (hn : n < 4294967296) :
    (List.range n).foldl (fun count i => if present i then add32 count 1 else count) 0 =
      ((Finset.range n).filter fun i => present i = true).card := by
  induction n with
  | zero => rfl
  | succ n ih =>
    have hle := Finset.card_filter_le (Finset.range n) fun i => present i = true
    rw [Finset.card_range] at hle
    rw [List.range_succ, List.foldl_append, ih (by omega), Finset.range_add_one, Finset.filter_insert]
    simp only [List.foldl_cons, List.foldl_nil]
    split
    · rw [Finset.card_insert_of_notMem (by simp)]
      exact Nat.mod_eq_of_lt (by omega)
    · rfl

/-- The count is about the other processors. -/
theorem Kick.respondCount_eq (k : Kick) : sub32 (bxNumCpus k.present) 1 = k.others.card := by
  have hself : k.self ∈ (Finset.range processorSlots).filter fun i => k.present i = true := by
    simp [k.self_lt, k.self_present]
  have hothers : k.others =
      ((Finset.range processorSlots).filter fun i => k.present i = true).erase k.self := by
    ext i
    simp only [Kick.others, Finset.mem_filter, Finset.mem_erase]
    tauto
  have hpos := Finset.card_pos.2 ⟨_, hself⟩
  have hle := Finset.card_filter_le (Finset.range processorSlots) fun i => k.present i = true
  rw [Finset.card_range] at hle
  rw [hothers, Finset.card_erase_of_mem hself]
  unfold bxNumCpus
  rw [count_eq k.present (by decide)]
  unfold processorSlots at *
  unfold sub32
  omega

/-! ## The invariant -/

/-- The handler has counted itself. -/
def HandlerPc.finished : HandlerPc → Bool
  | .branch _ _ scratch => scratch ≠ 0
  | .call _ _ | .called => true
  | _ => false

/-- What it has read is what the caller passed. -/
def HandlerPc.Carries (k : Kick) : HandlerPc → Prop
  | .readCtx func => func = k.func
  | .barrier func ctx | .loadLinked func ctx | .add func ctx _ | .storeConditional func ctx _
  | .branch func ctx _ | .call func ctx => func = k.func ∧ ctx = k.ctx
  | _ => True

/-- What a store-conditional may store while its reservation stands. -/
def HandlerPc.Linked (count : Nat) : HandlerPc → Prop
  | .add _ _ scratch => scratch = count
  | .storeConditional _ _ scratch => scratch = add32 count 1
  | _ => True

/-- The processors that have counted themselves. -/
def Kick.finished (k : Kick) (s : KickState) : Finset Nat :=
  k.others.filter fun i => (s.handler i).finished = true

/-- Who has been kicked. -/
def Kick.Progress (k : Kick) (s : KickState) : Prop :=
  match s.caller with
  | .start => ∀ i, s.handler i = .idle
  | .kicking i respondCount =>
    respondCount = k.others.card ∧ ∀ j, s.handler j ≠ .idle ↔ j ∈ k.others ∧ j < i
  | .polling respondCount => respondCount = k.others.card ∧ ∀ j ∈ k.others, s.handler j ≠ .idle
  | .returned => ∀ j ∈ k.others, (s.handler j).finished = true

/-- The caller still needs the structure. -/
def CallerPc.Waits : CallerPc → Prop
  | .kicking _ _ | .polling _ => True
  | _ => False

/-- What there is to know about processor `i`, with `count` for the count in the structure. -/
structure Kick.At (k : Kick) (count i : Nat) (pc : HandlerPc) (kicks : Nat)
    (calls : List (Nat × Nat)) (reserved : Bool) : Prop where
  others : pc ≠ .idle → i ∈ k.others
  kicks : kicks = if pc = .idle then 0 else 1
  calls : calls = if pc = .called then [(k.func, k.ctx)] else []
  carries : pc.Carries k
  linked : reserved = true → pc.Linked count

structure Kick.Inv (k : Kick) (s : KickState) : Prop where
  progress : k.Progress s
  processors : ∀ i, k.At s.data.numFinished i (s.handler i) (s.kicks i) (s.calls i) (s.reserved i)
  data : s.caller.Waits →
    s.data = { func := k.func, ctx := k.ctx, numFinished := (k.finished s).card }

section
variable {k : Kick} {s s' : KickState} {i : Nat}

theorem Kick.mem_others : i ∈ k.others ↔ i < processorSlots ∧ i ≠ k.self ∧ k.present i = true := by
  simp [Kick.others]

theorem HandlerPc.Linked.of_finished {pc : HandlerPc} {count : Nat} (h : pc.finished = true) :
    pc.Linked count := by
  cases pc with
  | add func ctx scratch => cases h
  | storeConditional func ctx scratch => cases h
  | _ => trivial

theorem HandlerPc.ne_idle_of_finished {pc : HandlerPc} (h : pc.finished = true) : pc ≠ .idle := by
  rintro rfl
  cases h

theorem Kick.At.unreserved {count count' : Nat} {pc : HandlerPc} {kicks : Nat}
    {calls : List (Nat × Nat)} {reserved : Bool} (h : k.At count i pc kicks calls reserved) :
    k.At count' i pc kicks calls false :=
  { h with linked := fun h => Bool.noConfusion h }

/-- A handler that has not counted itself keeps the caller from returning. -/
theorem Kick.Inv.waits (h : k.Inv s) (hidle : s.handler i ≠ .idle)
    (hfinished : (s.handler i).finished = false) : s.caller.Waits := by
  have hprogress := h.progress
  unfold Kick.Progress at hprogress
  cases hcaller : s.caller with
  | start =>
    rw [hcaller] at hprogress
    exact absurd (hprogress i) hidle
  | kicking i respondCount => trivial
  | polling respondCount => trivial
  | returned =>
    rw [hcaller] at hprogress
    have := hprogress i ((h.processors i).others hidle)
    rw [hfinished] at this
    cases this

theorem Kick.inv_start (k : Kick) (data : KickData) : k.Inv (.start data) where
  progress _ := rfl
  processors _ := ⟨fun h => absurd rfl h, rfl, rfl, trivial, fun h => Bool.noConfusion h⟩
  data h := h.elim

/-- Who is kicked stays so, and who has counted itself too. -/
theorem Kick.Progress.step (h : k.Progress s) {t : KickState} (hcaller : t.caller = s.caller)
    (hsteps : ∀ j, (t.handler j = .idle ↔ s.handler j = .idle) ∧
      ((s.handler j).finished = true → (t.handler j).finished = true)) : k.Progress t := by
  unfold Kick.Progress at h ⊢
  rw [hcaller]
  cases hpc : s.caller with
  | start =>
    rw [hpc] at h
    exact fun j => (hsteps j).1.2 (h j)
  | kicking i respondCount =>
    rw [hpc] at h
    exact ⟨h.1, fun j => by rw [← h.2 j, not_iff_not, (hsteps j).1]⟩
  | polling respondCount =>
    rw [hpc] at h
    exact ⟨h.1, fun j hj hj' => h.2 j hj ((hsteps j).1.1 hj')⟩
  | returned =>
    rw [hpc] at h
    exact fun j hj => (hsteps j).2 (h j hj)

/-- The step of one handler. -/
theorem Kick.Progress.setHandler (h : k.Progress s) {t : KickState} {pc : HandlerPc}
    (hcaller : t.caller = s.caller) (hhandler : t.handler = Function.update s.handler i pc)
    (hidle : pc = .idle ↔ s.handler i = .idle)
    (hfinished : (s.handler i).finished = true → pc.finished = true) : k.Progress t := by
  refine h.step hcaller ?_
  rw [hhandler]
  refine (Function.forall_update_iff s.handler fun j pc => (pc = .idle ↔ s.handler j = .idle) ∧
    ((s.handler j).finished = true → pc.finished = true)).2 ⟨⟨hidle, hfinished⟩, fun j _ => ?_⟩
  exact ⟨Iff.rfl, id⟩

/-- A handler goes on, but does not count itself or call the function in this step. -/
theorem Kick.Inv.silent (h : k.Inv s) {pc : HandlerPc} {reserved : Nat → Bool}
    (hidle : s.handler i ≠ .idle) (hcalled : s.handler i ≠ .called) (hidle' : pc ≠ .idle)
    (hcalled' : pc ≠ .called) (hfinished : pc.finished = (s.handler i).finished)
    (hcarries : pc.Carries k) (hreserved : ∀ j, j ≠ i → reserved j = s.reserved j)
    (hlinked : reserved i = true → pc.Linked s.data.numFinished) :
    k.Inv { s.setHandler i pc with reserved } := by
  have hprocessor := h.processors i
  have hsame : k.finished { s.setHandler i pc with reserved } = k.finished s := by
    unfold Kick.finished
    refine Finset.filter_congr fun j _ => ?_
    refine (Function.forall_update_iff s.handler fun j pc =>
      pc.finished = true ↔ (s.handler j).finished = true).2 ⟨?_, fun j _ => Iff.rfl⟩ j
    rw [hfinished]
  refine ⟨h.progress.setHandler rfl rfl ?_ ?_, ?_, fun hwaits => ?_⟩
  · exact ⟨fun h => absurd h hidle', fun h => absurd h hidle⟩
  · rw [hfinished]
    exact id
  · refine (Function.forall_update_iff s.handler fun j pc => k.At s.data.numFinished j pc (s.kicks j)
      (s.calls j) (reserved j)).2 ⟨⟨fun _ => hprocessor.others hidle, ?_, ?_, hcarries, hlinked⟩, ?_⟩
    · rw [hprocessor.kicks, if_neg hidle, if_neg hidle']
    · rw [hprocessor.calls, if_neg hcalled, if_neg hcalled']
    · intro j hj
      rw [hreserved j hj]
      exact h.processors j
  · rw [hsame]
    exact h.data hwaits

/-- The store-conditional that counts a handler. -/
theorem Kick.Inv.count (h : k.Inv s) {func ctx scratch : Nat}
    (hpc : s.handler i = .storeConditional func ctx scratch) (hreserved : s.reserved i = true) :
    k.Inv { s.setHandler i (.branch func ctx 1) with
      data := { s.data with numFinished := scratch }
      reserved := fun _ => false } := by
  have hprocessor := h.processors i
  have hidle : s.handler i ≠ .idle := by simp [hpc]
  have hmem := hprocessor.others hidle
  have hdata := h.data (h.waits hidle (by rw [hpc]; rfl))
  have hscratch : scratch = add32 (k.finished s).card 1 := by
    have hlinked := hprocessor.linked hreserved
    rw [hpc, hdata] at hlinked
    exact hlinked
  have hcounted : k.finished { s.setHandler i (.branch func ctx 1) with
      data := { s.data with numFinished := scratch }
      reserved := fun _ => false } = insert i (k.finished s) := by
    ext j
    simp only [Kick.finished, Finset.mem_insert, Finset.mem_filter]
    refine (Function.forall_update_iff s.handler fun j pc => j ∈ k.others ∧ pc.finished = true ↔
      j = i ∨ j ∈ k.others ∧ (s.handler j).finished = true).2 ⟨?_, fun j hj => ?_⟩ j
    · exact ⟨fun _ => .inl rfl, fun _ => ⟨hmem, rfl⟩⟩
    · exact ⟨.inr, fun h => h.resolve_left hj⟩
  have hcard : scratch = (insert i (k.finished s)).card := by
    have hnot : i ∉ k.finished s := by simp [Kick.finished, hpc, HandlerPc.finished]
    have hle : (k.finished s).card ≤ processorSlots :=
      (Finset.card_le_card (Finset.filter_subset _ _)).trans
        ((Finset.card_filter_le _ _).trans (Finset.card_range _).le)
    rw [Finset.card_insert_of_notMem hnot, hscratch]
    unfold processorSlots at hle
    unfold add32
    omega
  refine ⟨h.progress.setHandler rfl rfl ?_ fun _ => rfl, ?_, fun _ => ?_⟩
  · exact ⟨HandlerPc.noConfusion, fun h => absurd h hidle⟩
  · refine (Function.forall_update_iff s.handler fun j pc => k.At scratch j pc (s.kicks j)
      (s.calls j) false).2 ⟨⟨fun _ => hmem, ?_, ?_, ?_, fun h => Bool.noConfusion h⟩, ?_⟩
    · rw [hprocessor.kicks, hpc]
      rfl
    · rw [hprocessor.calls, hpc]
      rfl
    · have hcarries := hprocessor.carries
      rw [hpc] at hcarries
      exact hcarries
    · exact fun j _ => (h.processors j).unreserved
  · rw [hcounted, ← hcard]
    show ({ s.data with numFinished := scratch } : KickData) = _
    rw [hdata]

/-- The call. -/
theorem Kick.Inv.call (h : k.Inv s) {func ctx : Nat} (hpc : s.handler i = .call func ctx) :
    k.Inv { s.setHandler i .called with
      calls := Function.update s.calls i (s.calls i ++ [(func, ctx)]) } := by
  have hprocessor := h.processors i
  have hidle : s.handler i ≠ .idle := by simp [hpc]
  obtain ⟨hfunc, hctx⟩ : func = k.func ∧ ctx = k.ctx := by
    have hcarries := hprocessor.carries
    rw [hpc] at hcarries
    exact hcarries
  have hcalls : s.calls i ++ [(func, ctx)] = [(k.func, k.ctx)] := by
    rw [hprocessor.calls, hpc, hfunc, hctx]
    rfl
  have hsame : k.finished { s.setHandler i .called with
      calls := Function.update s.calls i (s.calls i ++ [(func, ctx)]) } = k.finished s := by
    unfold Kick.finished
    refine Finset.filter_congr fun j _ => ?_
    refine (Function.forall_update_iff s.handler fun j pc =>
      pc.finished = true ↔ (s.handler j).finished = true).2 ⟨?_, fun j _ => Iff.rfl⟩ j
    rw [hpc]
    exact Iff.rfl
  refine ⟨h.progress.setHandler rfl rfl ?_ fun _ => rfl, fun j => ?_, fun hwaits => ?_⟩
  · exact ⟨HandlerPc.noConfusion, fun h => absurd h hidle⟩
  · show k.At s.data.numFinished j (Function.update s.handler i .called j) (s.kicks j)
      (Function.update s.calls i (s.calls i ++ [(func, ctx)]) j) (s.reserved j)
    by_cases hj : j = i
    · subst hj
      rw [Function.update_self, Function.update_self, hcalls]
      refine ⟨fun _ => hprocessor.others hidle, ?_, rfl, trivial, fun _ => trivial⟩
      rw [hprocessor.kicks, hpc]
      rfl
    · rw [Function.update_of_ne hj, Function.update_of_ne hj]
      exact h.processors j
  · rw [hsame]
    exact h.data hwaits

/-- A kick of a processor that has not been kicked before. -/
theorem Kick.Inv.kick (h : k.Inv s) {respondCount : Nat}
    (hcaller : s.caller = .kicking i respondCount) (hi : i ∈ k.others) :
    k.Inv { s.kick i with caller := .kicking (i + 1) respondCount } := by
  have hprocessor := h.processors i
  obtain ⟨hcount, hkicked⟩ : respondCount = k.others.card ∧
      ∀ j, s.handler j ≠ .idle ↔ j ∈ k.others ∧ j < i := by
    have hprogress := h.progress
    unfold Kick.Progress at hprogress
    rwa [hcaller] at hprogress
  have hidle : s.handler i = .idle := by
    by_contra hidle
    exact absurd ((hkicked i).1 hidle).2 (Nat.lt_irrefl i)
  have hsame : k.finished { s.kick i with caller := .kicking (i + 1) respondCount } =
      k.finished s := by
    unfold Kick.finished
    refine Finset.filter_congr fun j _ => ?_
    refine (Function.forall_update_iff s.handler fun j pc =>
      pc.finished = true ↔ (s.handler j).finished = true).2 ⟨?_, fun j _ => Iff.rfl⟩ j
    rw [hidle]
    exact Iff.rfl
  refine ⟨⟨hcount, ?_⟩, fun j => ?_, fun _ => ?_⟩
  · refine (Function.forall_update_iff s.handler fun j pc =>
      pc ≠ .idle ↔ j ∈ k.others ∧ j < i + 1).2 ⟨?_, fun j hj => ?_⟩
    · exact ⟨fun _ => ⟨hi, Nat.lt_succ_self i⟩, fun _ => HandlerPc.noConfusion⟩
    · rw [hkicked j]
      refine and_congr_right fun _ => ?_
      omega
  · show k.At s.data.numFinished j (Function.update s.handler i .kicked j)
      (Function.update s.kicks i (s.kicks i + 1) j) (s.calls j) (s.reserved j)
    by_cases hj : j = i
    · subst hj
      rw [Function.update_self, Function.update_self]
      refine ⟨fun _ => hi, ?_, ?_, trivial, fun _ => trivial⟩
      · rw [hprocessor.kicks, hidle]
        rfl
      · rw [hprocessor.calls, hidle]
        rfl
    · rw [Function.update_of_ne hj, Function.update_of_ne hj]
      exact h.processors j
  · rw [hsame]
    exact h.data (by rw [hcaller]; trivial)

/-! ## Steps -/

theorem Kick.Inv.setHandler (h : k.Inv s) {pc : HandlerPc} (hidle : s.handler i ≠ .idle)
    (hcalled : s.handler i ≠ .called) (hidle' : pc ≠ .idle) (hcalled' : pc ≠ .called)
    (hfinished : pc.finished = (s.handler i).finished) (hcarries : pc.Carries k)
    (hlinked : (s.handler i).Linked s.data.numFinished → pc.Linked s.data.numFinished) :
    k.Inv (s.setHandler i pc) :=
  h.silent hidle hcalled hidle' hcalled' hfinished hcarries (fun _ _ => rfl) fun hreserved =>
    hlinked ((h.processors i).linked hreserved)

theorem Kick.Inv.handlerStep (h : k.Inv s) {spurious : Bool}
    (hstep : handlerStep s i spurious = some s') : k.Inv s' := by
  have hcarries := (h.processors i).carries
  have hwaits := @Kick.Inv.waits k s i h
  unfold XrLinux.Bootloader.handlerStep at hstep
  cases hpc : s.handler i with
  | idle =>
    rw [hpc] at hstep
    cases hstep
  | kicked =>
    rw [hpc] at hstep hwaits
    cases hstep
    refine h.setHandler ?_ ?_ HandlerPc.noConfusion HandlerPc.noConfusion ?_ ?_ fun _ => trivial
    · simp [hpc]
    · simp [hpc]
    · rw [hpc]
      rfl
    · -- the structure is still the caller's
      show s.data.func = k.func
      rw [h.data (hwaits HandlerPc.noConfusion rfl)]
  | readCtx func =>
    rw [hpc] at hstep hwaits hcarries
    cases hstep
    refine h.setHandler ?_ ?_ HandlerPc.noConfusion HandlerPc.noConfusion ?_ ⟨hcarries, ?_⟩
      fun _ => trivial
    · simp [hpc]
    · simp [hpc]
    · rw [hpc]
      rfl
    · rw [h.data (hwaits HandlerPc.noConfusion rfl)]
  | barrier func ctx =>
    rw [hpc] at hstep hcarries
    cases hstep
    refine h.setHandler ?_ ?_ HandlerPc.noConfusion HandlerPc.noConfusion ?_ hcarries fun _ => trivial
    · simp [hpc]
    · simp [hpc]
    · rw [hpc]
      rfl
  | loadLinked func ctx =>
    rw [hpc] at hstep hcarries
    cases hstep
    refine h.silent ?_ ?_ HandlerPc.noConfusion HandlerPc.noConfusion ?_ hcarries ?_ fun _ => rfl
    · simp [hpc]
    · simp [hpc]
    · rw [hpc]
      rfl
    · exact fun j hj => Function.update_of_ne hj _ _
  | add func ctx scratch =>
    rw [hpc] at hstep hcarries
    cases hstep
    refine h.setHandler ?_ ?_ HandlerPc.noConfusion HandlerPc.noConfusion ?_ hcarries fun hlinked => ?_
    · simp [hpc]
    · simp [hpc]
    · rw [hpc]
      rfl
    · rw [hpc] at hlinked
      show add32 scratch 1 = add32 s.data.numFinished 1
      rw [show scratch = s.data.numFinished from hlinked]
  | storeConditional func ctx scratch =>
    rw [hpc] at hstep hcarries
    dsimp only at hstep
    split at hstep
    · rename_i hreserved
      cases hstep
      exact h.count hpc (Bool.and_eq_true_iff.1 hreserved).1
    · cases hstep
      refine h.silent ?_ ?_ HandlerPc.noConfusion HandlerPc.noConfusion ?_ hcarries ?_ fun _ => trivial
      · simp [hpc]
      · simp [hpc]
      · rw [hpc]
        rfl
      · exact fun j hj => Function.update_of_ne hj _ _
  | branch func ctx scratch =>
    rw [hpc] at hstep hcarries
    cases hstep
    by_cases hfailed : scratch = 0
    · rw [if_pos hfailed]
      refine h.setHandler ?_ ?_ HandlerPc.noConfusion HandlerPc.noConfusion ?_ hcarries fun _ => trivial
      · simp [hpc]
      · simp [hpc]
      · rw [hpc, hfailed]
        rfl
    · rw [if_neg hfailed]
      refine h.setHandler ?_ ?_ HandlerPc.noConfusion HandlerPc.noConfusion ?_ hcarries fun _ => trivial
      · simp [hpc]
      · simp [hpc]
      · rw [hpc]
        exact (decide_eq_true hfailed).symm
  | call func ctx =>
    rw [hpc] at hstep
    cases hstep
    exact h.call hpc
  | called =>
    rw [hpc] at hstep
    cases hstep

theorem Kick.Inv.callerStep (h : k.Inv s) (hstep : callerStep k s = some s') : k.Inv s' := by
  have hprogress := h.progress
  unfold Kick.Progress at hprogress
  unfold XrLinux.Bootloader.callerStep at hstep
  cases hcaller : s.caller with
  | start =>
    rw [hcaller] at hstep hprogress
    dsimp only at hstep
    rw [k.respondCount_eq] at hstep
    have hempty : k.finished s = ∅ := by
      refine Finset.filter_eq_empty_iff.2 fun j _ => ?_
      rw [hprogress j]
      simp [HandlerPc.finished]
    split at hstep
    · rename_i hnone
      cases hstep
      refine ⟨fun j hj => ?_, h.processors, fun hwaits => hwaits.elim⟩
      rw [Finset.card_eq_zero.1 hnone] at hj
      exact absurd hj (Finset.notMem_empty j)
    · cases hstep
      refine ⟨⟨rfl, fun j => ?_⟩, fun j => ?_, fun _ => ?_⟩
      · exact ⟨fun hidle => absurd (hprogress j) hidle, fun hlt => absurd hlt.2 (Nat.not_lt_zero j)⟩
      · refine { h.processors j with linked := fun _ => ?_ }
        show (s.handler j).Linked 0
        rw [hprogress j]
        trivial
      · show ({ func := k.func, ctx := k.ctx, numFinished := 0 } : KickData) =
          { func := k.func, ctx := k.ctx, numFinished := (k.finished s).card }
        rw [hempty, Finset.card_empty]
  | kicking i respondCount =>
    rw [hcaller] at hstep hprogress
    obtain ⟨hcount, hkicked⟩ := hprogress
    have hdata := h.data (by rw [hcaller]; trivial)
    dsimp only at hstep
    split at hstep
    · rename_i hi
      split at hstep
      · rename_i hskip
        cases hstep
        refine ⟨⟨hcount, fun j => ?_⟩, h.processors, fun _ => hdata⟩
        show s.handler j ≠ .idle ↔ _
        rw [hkicked j]
        refine and_congr_right fun hj => ?_
        -- the processor that is passed over is not one of the others
        have hne : j ≠ i := by
          rintro rfl
          obtain ⟨-, hself, hpresent⟩ := Kick.mem_others.1 hj
          rcases hskip with heq | habsent
          · exact hself heq
          · rw [hpresent] at habsent
            cases habsent
        omega
      · rename_i hkick
        cases hstep
        refine h.kick hcaller (Kick.mem_others.2 ⟨hi, fun hself => hkick (.inl hself), ?_⟩)
        rw [← Bool.not_eq_false]
        exact fun habsent => hkick (.inr habsent)
    · rename_i hi
      cases hstep
      refine ⟨⟨hcount, fun j hj => (hkicked j).2 ⟨hj, ?_⟩⟩, h.processors, fun _ => hdata⟩
      have := (Kick.mem_others.1 hj).1
      omega
  | polling respondCount =>
    rw [hcaller] at hstep hprogress
    obtain ⟨hcount, hkicked⟩ := hprogress
    have hdata := h.data (by rw [hcaller]; trivial)
    dsimp only at hstep
    split at hstep
    · cases hstep
      exact h
    · rename_i hcomplete
      cases hstep
      refine ⟨fun j hj => ?_, h.processors, fun hwaits => hwaits.elim⟩
      -- as many as there are
      have hall : k.finished s = k.others := by
        refine Finset.eq_of_subset_of_card_le (Finset.filter_subset _ _) ?_
        rw [hdata, hcount] at hcomplete
        exact not_lt.1 hcomplete
      rw [← hall] at hj
      exact (Finset.mem_filter.1 hj).2
  | returned =>
    rw [hcaller] at hstep
    cases hstep

/-- What the caller does with its stack later is nobody's concern. -/
theorem Kick.Inv.reuse (h : k.Inv s) (hcaller : s.caller = .returned) (data : KickData) :
    k.Inv { s with data } := by
  have hprogress := h.progress
  unfold Kick.Progress at hprogress
  rw [hcaller] at hprogress
  refine ⟨?_, fun j => { h.processors j with linked := fun _ => ?_ }, fun hwaits => ?_⟩
  · unfold Kick.Progress
    rw [hcaller]
    exact hprogress
  · by_cases hidle : s.handler j = .idle
    · rw [hidle]
      trivial
    · exact .of_finished (hprogress j ((h.processors j).others hidle))
  · have hwaits : s.caller.Waits := hwaits
    rw [hcaller] at hwaits
    exact hwaits.elim

theorem Kick.Inv.step (h : k.Inv s) {event : KickEvent} (hstep : kickStep k s event = some s') :
    k.Inv s' := by
  cases event with
  | caller => exact h.callerStep hstep
  | handler i spurious => exact h.handlerStep hstep
  | reuse data =>
    unfold kickStep at hstep
    dsimp only at hstep
    split at hstep
    · rename_i hcaller
      cases hstep
      exact h.reuse hcaller data
    · cases hstep

end

/-- In every run. -/
theorem Kick.inv_of_run {k : Kick} {data : KickData} {events : List KickEvent} {s : KickState}
    (hrun : run (kickStep k) (.start data) events = some s) : k.Inv s :=
  run_induction (fun _ _ _ h hstep => h.step hstep) (k.inv_start data) hrun

/-- It has the function and the context in its registers, or has called the function with it. -/
def HandlerPc.HasRead (k : Kick) : HandlerPc → Prop
  | .barrier func ctx | .loadLinked func ctx | .add func ctx _ | .storeConditional func ctx _
  | .branch func ctx _ | .call func ctx => func = k.func ∧ ctx = k.ctx
  | .called => True
  | _ => False

/-- What holds of a state of the processors. -/
structure Kick.Correct (k : Kick) (s : KickState) : Prop where
  kicks_le : ∀ i, s.kicks i ≤ 1
  kicks_others : ∀ i, s.kicks i = 1 → i ∈ k.others
  /-- Only what the caller passed is called, and once. -/
  calls : ∀ i, s.calls i = [] ∨ i ∈ k.others ∧ s.calls i = [(k.func, k.ctx)]
  returned : s.caller = .returned → ∀ i ∈ k.others, s.kicks i = 1 ∧ (s.handler i).HasRead k
  untouched : s.caller = .returned → ∀ i, ¬(s.handler i).Touches
  /-- Where no other processor has a step left, all of them have made the call. -/
  all_called : s.caller = .returned → (∀ i spurious, kickStep k s (.handler i spurious) = none) →
    ∀ i ∈ k.others, s.calls i = [(k.func, k.ctx)]

section
variable {k : Kick} {s : KickState}

theorem Kick.Inv.finished_of_returned (h : k.Inv s) (hcaller : s.caller = .returned) :
    ∀ i ∈ k.others, (s.handler i).finished = true := by
  have hprogress := h.progress
  unfold Kick.Progress at hprogress
  rwa [hcaller] at hprogress

theorem HandlerPc.hasRead_of_finished {pc : HandlerPc} (hcarries : pc.Carries k)
    (hfinished : pc.finished = true) : pc.HasRead k := by
  cases pc with
  | branch func ctx scratch => exact hcarries
  | call func ctx => exact hcarries
  | called => trivial
  | _ => cases hfinished

theorem HandlerPc.not_touches_of_finished {pc : HandlerPc} (hfinished : pc.finished = true) :
    ¬pc.Touches := by
  cases pc with
  | branch func ctx scratch => exact id
  | call func ctx => exact id
  | called => exact id
  | _ => cases hfinished

theorem HandlerPc.called_of_stuck {i : Nat} (hfinished : (s.handler i).finished = true)
    (hstuck : handlerStep s i false = none) : s.handler i = .called := by
  unfold handlerStep at hstuck
  cases hpc : s.handler i with
  | branch func ctx scratch =>
    rw [hpc] at hstuck
    cases hstuck
  | call func ctx =>
    rw [hpc] at hstuck
    cases hstuck
  | called => rfl
  | _ =>
    rw [hpc] at hfinished
    cases hfinished

theorem Kick.Inv.correct (h : k.Inv s) : k.Correct s where
  kicks_le i := by
    rw [(h.processors i).kicks]
    split <;> omega
  kicks_others i hkicks := by
    rw [(h.processors i).kicks] at hkicks
    refine (h.processors i).others fun hidle => ?_
    rw [if_pos hidle] at hkicks
    cases hkicks
  calls i := by
    rw [(h.processors i).calls]
    split
    · rename_i hcalled
      refine .inr ⟨(h.processors i).others ?_, rfl⟩
      rw [hcalled]
      exact HandlerPc.noConfusion
    · exact .inl rfl
  returned hcaller i hi := by
    have hfinished := h.finished_of_returned hcaller i hi
    refine ⟨?_, HandlerPc.hasRead_of_finished (h.processors i).carries hfinished⟩
    rw [(h.processors i).kicks, if_neg (HandlerPc.ne_idle_of_finished hfinished)]
  untouched hcaller i := by
    by_cases hidle : s.handler i = .idle
    · rw [hidle]
      exact id
    · exact HandlerPc.not_touches_of_finished
        (h.finished_of_returned hcaller i ((h.processors i).others hidle))
  all_called hcaller hstuck i hi := by
    have hcalled := HandlerPc.called_of_stuck (h.finished_of_returned hcaller i hi) (hstuck i false)
    rw [(h.processors i).calls, if_pos hcalled]

end

end XrLinux.Bootloader
