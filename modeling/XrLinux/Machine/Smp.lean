import XrLinux.Lib.Run
import XrLinux.Machine.Instr

/-!
# XR/17032 — several processors on one word

Any number of processors share one word of memory and execute instruction sequences on it, one
instruction of one processor at a time. A load-linked reserves the word for its processor; a
store-conditional succeeds when the reservation still stands and does not fail for a reason of
its own (`spurious`), and a successful one clears every processor's reservation.

`Implements` is what a sequence has to satisfy, instruction by instruction, to be an atomic
operation of a specification, and `Implements.linearizable` is the theorem it buys.
-/

namespace XrLinux.Machine

open Run

/-- A sequence as a processor is called to execute it: where it stands, the registers it starts
with, and the result its registers hold at the end, if it returns one. -/
structure Routine where
  base : Word
  prog : List Instr
  regs : RegFile
  result : RegFile → Option Word

/-- A call that has not returned: `stored` is what it has stored so far. -/
structure Running (κ : Type*) where
  call : κ
  cpu : Cpu
  stored : List Word

/-- A call that has returned. -/
structure Completed (κ : Type*) where
  call : κ
  result : Option Word
  stored : List Word

structure Core (κ : Type*) where
  reserved : Bool
  running : Option (Running κ)
  /-- The calls that have returned, oldest first. -/
  done : List (Completed κ)

structure Smp (ι κ : Type*) where
  word : Word
  core : ι → Core κ

/-- Nothing has been called yet. -/
def Smp.start (ι κ : Type*) (word : Word) : Smp ι κ :=
  { word, core := fun _ => { reserved := false, running := none, done := [] } }

inductive Event (ι κ : Type*) where
  | call (i : ι) (call : κ)
  /-- The next instruction of processor `i`, whose store-conditional may fail for any reason. -/
  | instr (i : ι) (spurious : Bool)
  | ret (i : ι)

section
variable {ι κ : Type*} [DecidableEq ι] (routine : κ → Routine) (loc : Word)

def Smp.set (s : Smp ι κ) (i : ι) (core : Core κ) : Smp ι κ :=
  { s with core := Function.update s.core i core }

/-- The word as a successful store-conditional leaves it: written, and reserved by nobody. -/
def Smp.store (s : Smp ι κ) (value : Word) : Smp ι κ :=
  { word := value, core := fun i => { s.core i with reserved := false } }

/-- One instruction of a call running on processor `i`. -/
def Smp.instr (s : Smp ι κ) (i : ι) (r : Running κ) (spurious : Bool) : Option (Smp ι κ) :=
  match fetch (routine r.call).prog r.cpu with
  | none => none
  | some instr =>
    match instr.effect (routine r.call).base r.cpu with
    | .done cpu => some (s.set i { s.core i with running := some { r with cpu } })
    | .loadLinked rd addr =>
      if addr = loc then
        some (s.set i { s.core i with
          reserved := true
          running := some { r with cpu := r.cpu.next (r.cpu.regs.set rd s.word) } })
      else none
    | .storeConditional rd addr value =>
      if addr = loc then
        if (s.core i).reserved && !spurious then
          some ((s.store value).set i { s.core i with
            reserved := false
            running := some { r with
              cpu := r.cpu.next (r.cpu.regs.set rd 1)
              stored := r.stored ++ [value] } })
        else
          some (s.set i { s.core i with
            reserved := false
            running := some { r with cpu := r.cpu.next (r.cpu.regs.set rd 0) } })
      else none

def smpStep (s : Smp ι κ) (event : Event ι κ) : Option (Smp ι κ) :=
  match event with
  | .call i call =>
    match (s.core i).running with
    | some _ => none
    | none =>
      some (s.set i { s.core i with
        running := some { call, cpu := { pc := 0, regs := (routine call).regs }, stored := [] } })
  | .instr i spurious =>
    match (s.core i).running with
    | none => none
    | some r => s.instr routine loc i r spurious
  | .ret i =>
    match (s.core i).running with
    | none => none
    | some r =>
      match fetch (routine r.call).prog r.cpu with
      | some _ => none
      | none =>
        some (s.set i { s.core i with
          running := none
          done := (s.core i).done ++
            [{ call := r.call, result := (routine r.call).result r.cpu.regs,
               stored := r.stored }] })

end

/-! ## Atomic specifications -/

/-- What a call means when it takes effect at once, on the word it finds. -/
structure AtomicSpec (κ : Type*) where
  apply : κ → Word → Word
  returns : κ → Word → Option Word
  stores : κ → Word → List Word

/-- A call in the sequential order, with the word it took effect on. -/
structure Entry (ι κ : Type*) where
  proc : ι
  call : κ
  seen : Word

/-- Executing the entries one after another from `w` finds the words they saw and ends in `w'`. -/
def Replays {ι κ : Type*} (spec : AtomicSpec κ) : Word → List (Entry ι κ) → Word → Prop
  | w, [], w' => w = w'
  | w, e :: order, w' => e.seen = w ∧ Replays spec (spec.apply e.call e.seen) order w'

theorem Replays.append {ι κ : Type*} {spec : AtomicSpec κ} {order order' : List (Entry ι κ)}
    {w w' w'' : Word} (h : Replays spec w order w') (h' : Replays spec w' order' w'') :
    Replays spec w (order ++ order') w'' := by
  induction order generalizing w with
  | nil =>
    cases h
    exact h'
  | cons e order ih => exact ⟨h.1, ih h.2⟩

/-- A returned call did what its entry says. -/
def Matches {ι κ : Type*} (spec : AtomicSpec κ) (c : Completed κ) (e : Entry ι κ) : Prop :=
  c.call = e.call ∧ c.result = spec.returns e.call e.seen ∧ c.stored = spec.stores e.call e.seen

/-- The entries of `order` account for the state: they replay to the word, and those of a
processor are, in its program order, its returned calls and at most the one it is in. -/
structure Linearizes {ι κ : Type*} [DecidableEq ι] (spec : AtomicSpec κ) (w₀ : Word)
    (s : Smp ι κ) (order : List (Entry ι κ)) : Prop where
  replays : Replays spec w₀ order s.word
  accounts : ∀ i, ∃ returned pending, order.filter (·.proc = i) = returned ++ pending ∧
    List.Forall₂ (Matches spec) (s.core i).done returned ∧
    (pending = [] ∨ ∃ r seen, (s.core i).running = some r ∧ pending = [⟨i, r.call, seen⟩])

/-! ## Implementations -/

/-- Where a running call stands: nothing yet, a word loaded and linked, or its effect past. -/
inductive Phase where
  | fresh
  | linked (seen : Word)
  | settled (seen : Word)

section
variable {ι κ : Type*} (routine : κ → Routine) (loc : Word) (spec : AtomicSpec κ)
  (At : Phase → Running κ → Prop)

/-- What the next instruction of a call may do, by its effect on the machine. -/
def Turn (phase : Phase) (r : Running κ) : Prop :=
  match fetch (routine r.call).prog r.cpu with
  | none => ∃ seen, phase = .settled seen ∧
      (routine r.call).result r.cpu.regs = spec.returns r.call seen ∧
      r.stored = spec.stores r.call seen
  | some instr =>
    match instr.effect (routine r.call).base r.cpu with
    | .done cpu => At phase { r with cpu }
    | .loadLinked rd addr => addr = loc ∧ phase = .fresh ∧
      -- A load that leaves the call with nothing to store may be its whole effect.
      ∀ w, let r' := { r with cpu := r.cpu.next (r.cpu.regs.set rd w) }
        At (.linked w) r' ∨ (spec.apply r.call w = w ∧ At (.settled w) r')
    | .storeConditional rd addr value => addr = loc ∧ ∃ seen, phase = .linked seen ∧
      value = spec.apply r.call seen ∧
      At .fresh { r with cpu := r.cpu.next (r.cpu.regs.set rd 0) } ∧
      At (.settled seen) { r with
        cpu := r.cpu.next (r.cpu.regs.set rd 1)
        stored := r.stored ++ [value] }

/-- `At` tells the phases of the routines' executions apart, step by step. -/
structure Implements : Prop where
  start : ∀ call, At .fresh
    { call, cpu := { pc := 0, regs := (routine call).regs }, stored := [] }
  turn : ∀ phase r, At phase r → Turn routine loc spec At phase r

end

/-! ## The turn of each kind of instruction -/

section
variable {κ : Type*} {routine : κ → Routine} {loc : Word} {spec : AtomicSpec κ}
  {At : Phase → Running κ → Prop} {phase : Phase} {call : κ} {pc : Nat} {regs : RegFile}
  {stored : List Word}

theorem turn_alu (rd : Reg) {op : AluOp} {ra : Reg} {src : Src}
    (hinstr : (routine call).prog[pc]? = some (.alu op rd ra src))
    (hat : At phase ⟨call,
      { pc := pc + 1, regs := regs.set rd (op.eval (regs.get ra) (src.value op regs)) },
      stored⟩) :
    Turn routine loc spec At phase ⟨call, { pc, regs }, stored⟩ := by
  simpa [Turn, fetch, hinstr, Instr.effect, Cpu.next] using hat

theorem turn_branch (cond : Cond) (ra : Reg) (index : Nat)
    (hinstr : (routine call).prog[pc]? = some (.branch cond ra (.label index)))
    (hat : At phase ⟨call, { pc := if cond.test (regs.get ra) then index else pc + 1, regs },
      stored⟩) :
    Turn routine loc spec At phase ⟨call, { pc, regs }, stored⟩ := by
  by_cases htest : cond.test (regs.get ra) = true
  · simpa [Turn, fetch, hinstr, Instr.effect, htest] using hat
  · simpa [Turn, fetch, hinstr, Instr.effect, Cpu.next, htest] using hat

theorem turn_ll (rd : Reg) {ra : Reg} (hinstr : (routine call).prog[pc]? = some (.ll rd ra))
    (hloc : regs.get ra = loc) (hphase : phase = .fresh)
    (hat : ∀ w, At (.linked w) ⟨call, { pc := pc + 1, regs := regs.set rd w }, stored⟩ ∨
      (spec.apply call w = w ∧
        At (.settled w) ⟨call, { pc := pc + 1, regs := regs.set rd w }, stored⟩)) :
    Turn routine loc spec At phase ⟨call, { pc, regs }, stored⟩ := by
  simpa [Turn, fetch, hinstr, Instr.effect, Cpu.next, hloc, hphase] using hat

theorem turn_sc (rd : Reg) {ra rb : Reg} {seen : Word}
    (hinstr : (routine call).prog[pc]? = some (.sc rd ra rb)) (hloc : regs.get ra = loc)
    (hphase : phase = .linked seen) (hvalue : regs.get rb = spec.apply call seen)
    (hlost : At .fresh ⟨call, { pc := pc + 1, regs := regs.set rd 0 }, stored⟩)
    (hstored : At (.settled seen) ⟨call, { pc := pc + 1, regs := regs.set rd 1 },
      stored ++ [spec.apply call seen]⟩) :
    Turn routine loc spec At phase ⟨call, { pc, regs }, stored⟩ := by
  subst hphase
  simpa [Turn, fetch, hinstr, Instr.effect, Cpu.next, hloc, hvalue] using ⟨hlost, hstored⟩

theorem turn_end {seen : Word} (hinstr : (routine call).prog[pc]? = none)
    (hphase : phase = .settled seen) (hresult : (routine call).result regs = spec.returns call seen)
    (hstored : stored = spec.stores call seen) :
    Turn routine loc spec At phase ⟨call, { pc, regs }, stored⟩ := by
  simpa [Turn, fetch, hinstr, hphase] using ⟨hresult, hstored⟩

end

/-! ## The invariant -/

section
variable {ι κ : Type*} [DecidableEq ι] {routine : κ → Routine} {loc : Word}
  {spec : AtomicSpec κ} {At : Phase → Running κ → Prop}

/-- The entry of the call a processor is in, once it has taken effect. -/
def pendingEntry (i : ι) (core : Core κ) (phase : Phase) : List (Entry ι κ) :=
  match core.running, phase with
  | some r, .settled seen => [⟨i, r.call, seen⟩]
  | _, _ => []

/-- One processor's part of the invariant: its entries so far, and where its call stands. A
standing reservation means that the word is still the one the call has seen. -/
structure CoreInv (spec : AtomicSpec κ) (At : Phase → Running κ → Prop) (word : Word) (i : ι)
    (core : Core κ) (phase : Phase) (mine : List (Entry ι κ)) : Prop where
  accounts : ∃ returned, mine = returned ++ pendingEntry i core phase ∧
    List.Forall₂ (Matches spec) core.done returned
  stands : ∀ r, core.running = some r → At phase r
  reserved : core.reserved → ∀ seen, phase = .linked seen → word = seen

/-- The invariant, with the phase of every processor. -/
structure Inv (spec : AtomicSpec κ) (At : Phase → Running κ → Prop) (w₀ : Word) (s : Smp ι κ)
    (order : List (Entry ι κ)) (phase : ι → Phase) : Prop where
  replays : Replays spec w₀ order s.word
  core : ∀ i, CoreInv spec At s.word i (s.core i) (phase i) (order.filter (·.proc = i))

theorem Inv.start (w₀ : Word) : Inv spec At w₀ (.start ι κ w₀) [] fun _ => .fresh := by
  refine ⟨rfl, fun i => ⟨⟨[], by simp [pendingEntry, Smp.start], .nil⟩, ?_, ?_⟩⟩
  · simp [Smp.start]
  · simp [Smp.start]

/-- A step of processor `i` on its own: the word and the order stay. -/
theorem Inv.set {w₀ : Word} {s : Smp ι κ} {order : List (Entry ι κ)} {phase : ι → Phase}
    (h : Inv spec At w₀ s order phase) {i : ι} {core : Core κ} (phase' : Phase)
    (hcore : CoreInv spec At s.word i core phase' (order.filter (·.proc = i))) :
    Inv spec At w₀ (s.set i core) order (Function.update phase i phase') := by
  refine ⟨h.replays, fun j => ?_⟩
  by_cases hj : j = i
  · subst hj
    simpa [Smp.set] using hcore
  · simpa [Smp.set, hj] using h.core j

omit [DecidableEq ι] in
/-- Going on with a call whose effect, if past, stays past. -/
theorem CoreInv.continue {word : Word} {i : ι} {core core' : Core κ} {phase phase' : Phase}
    {mine : List (Entry ι κ)} (h : CoreInv spec At word i core phase mine) {r r' : Running κ}
    (hr : core.running = some r) (hr' : core'.running = some r') (hcall : r'.call = r.call)
    (hdone : core'.done = core.done) (hat : At phase' r')
    (hphase : ∀ seen, phase' = .settled seen ↔ phase = .settled seen)
    (hreserved : core'.reserved → ∀ seen, phase' = .linked seen → word = seen) :
    CoreInv spec At word i core' phase' mine := by
  obtain ⟨returned, hmine, hreturned⟩ := h.accounts
  have hpending : pendingEntry i core' phase' = pendingEntry i core phase := by
    cases phase with
    | settled seen => simp [pendingEntry, hr, hr', hcall, (hphase seen).2 rfl]
    | fresh | linked _ =>
      cases phase' with
      | settled seen => exact absurd ((hphase seen).1 rfl) (by simp)
      | fresh | linked _ => simp [pendingEntry, hr, hr']
  refine ⟨⟨returned, by rw [hpending, hmine], by rwa [hdone]⟩, ?_, hreserved⟩
  intro r'' hr''
  rw [hr', Option.some.injEq] at hr''
  rwa [← hr'']

/-- A step at which the call of processor `i` takes effect: it extends the order. -/
theorem Inv.commit {w₀ : Word} {s s' : Smp ι κ} {order : List (Entry ι κ)} {phase : ι → Phase}
    (h : Inv spec At w₀ s order phase) {i : ι} {r : Running κ} (r' : Running κ)
    (hr' : (s'.core i).running = some r') (hcall : r'.call = r.call)
    (hdone : (s'.core i).done = (s.core i).done) (hat : At (.settled s.word) r')
    (hpending : pendingEntry i (s.core i) (phase i) = [])
    (hword : s'.word = spec.apply r.call s.word)
    (hothers : ∀ j, j ≠ i → s'.core j = s.core j ∧ s'.word = s.word ∨
      s'.core j = { s.core j with reserved := false }) :
    Inv spec At w₀ s' (order ++ [⟨i, r.call, s.word⟩])
      (Function.update phase i (.settled s.word)) := by
  refine ⟨h.replays.append ⟨rfl, hword.symm⟩, fun j => ?_⟩
  by_cases hj : j = i
  · subst hj
    obtain ⟨returned, hmine, hreturned⟩ := (h.core j).accounts
    rw [hpending, List.append_nil] at hmine
    refine ⟨⟨returned, ?_, by rwa [hdone]⟩, ?_, ?_⟩
    · simp [pendingEntry, hr', hcall, hmine]
    · intro r'' hr''
      rw [hr', Option.some.injEq] at hr''
      simpa [← hr''] using hat
    · simp
  · have hmine : (order ++ [(⟨i, r.call, s.word⟩ : Entry ι κ)]).filter (·.proc = j) =
        order.filter (·.proc = j) := by
      simp [Ne.symm hj]
    rw [hmine, Function.update_of_ne hj]
    obtain ⟨hacc, hstands, hres⟩ := h.core j
    rcases hothers j hj with ⟨hsame, hsameWord⟩ | hcleared
    · rw [hsame, hsameWord]
      exact ⟨hacc, hstands, hres⟩
    · rw [hcleared]
      exact ⟨hacc, hstands, by simp⟩

theorem Inv.unextended {w₀ : Word} {s : Smp ι κ} {order : List (Entry ι κ)} {phase : ι → Phase}
    (h : Inv spec At w₀ s order phase) : ∃ more phase', Inv spec At w₀ s (order ++ more) phase' :=
  ⟨[], phase, by rwa [List.append_nil]⟩

/-- An instruction keeps the invariant, extending the order if the call takes effect at it. -/
theorem Inv.instr (himp : Implements routine loc spec At) {w₀ : Word} {s s' : Smp ι κ}
    {order : List (Entry ι κ)} {phase : ι → Phase} (h : Inv spec At w₀ s order phase) {i : ι}
    {r : Running κ} {spurious : Bool} (hr : (s.core i).running = some r)
    (hstep : s.instr routine loc i r spurious = some s') :
    ∃ more phase', Inv spec At w₀ s' (order ++ more) phase' := by
  have hturn := himp.turn _ r ((h.core i).stands r hr)
  unfold Smp.instr at hstep
  unfold Turn at hturn
  cases hfetch : fetch (routine r.call).prog r.cpu with
  | none => simp [hfetch] at hstep
  | some instr =>
    simp only [hfetch] at hstep hturn
    cases heffect : instr.effect (routine r.call).base r.cpu with
    | done cpu =>
      simp only [heffect, Option.some.injEq] at hstep hturn
      subst hstep
      refine Inv.unextended (h.set (phase i) ?_)
      exact (h.core i).continue hr rfl rfl rfl hturn (fun _ => Iff.rfl) (h.core i).reserved
    | loadLinked rd addr =>
      simp only [heffect] at hstep hturn
      obtain ⟨rfl, hfresh, hload⟩ := hturn
      simp only [↓reduceIte, Option.some.injEq] at hstep
      subst hstep
      rcases hload s.word with hlinked | ⟨hsame, hsettled⟩
      · refine Inv.unextended (h.set (.linked s.word) ?_)
        exact (h.core i).continue hr rfl rfl rfl hlinked (by simp [hfresh]) (by simp)
      · refine ⟨_, _, h.commit (i := i) (r := r)
          { r with cpu := r.cpu.next (r.cpu.regs.set rd s.word) } (by simp [Smp.set]) rfl
          (by simp [Smp.set]) hsettled (by simp [pendingEntry, hr, hfresh]) hsame.symm
          fun j hj => ?_⟩
        simp [Smp.set, hj]
    | storeConditional rd addr value =>
      simp only [heffect] at hstep hturn
      obtain ⟨rfl, seen, hlinked, rfl, hlost, hstored⟩ := hturn
      simp only [↓reduceIte] at hstep
      by_cases hsucceeds : ((s.core i).reserved && !spurious) = true
      · rw [if_pos hsucceeds, Option.some.injEq] at hstep
        subst hstep
        -- The reservation stands, so the word is still the one loaded.
        have hseen : s.word = seen :=
          (h.core i).reserved (by simpa using (Bool.and_eq_true _ _ ▸ hsucceeds).1) seen hlinked
        subst hseen
        refine ⟨_, _, h.commit (i := i) (r := r)
          { r with
            cpu := r.cpu.next (r.cpu.regs.set rd 1)
            stored := r.stored ++ [spec.apply r.call s.word] }
          (by simp [Smp.set]) rfl (by simp [Smp.set]) hstored (by simp [pendingEntry, hr, hlinked])
          rfl fun j hj => ?_⟩
        simp [Smp.set, Smp.store, hj]
      · rw [if_neg hsucceeds, Option.some.injEq] at hstep
        subst hstep
        refine Inv.unextended (h.set .fresh ?_)
        exact (h.core i).continue hr rfl rfl rfl hlost (by simp [hlinked]) (by simp)

theorem Inv.step (himp : Implements routine loc spec At) {w₀ : Word} {s s' : Smp ι κ}
    {order : List (Entry ι κ)} {phase : ι → Phase} (h : Inv spec At w₀ s order phase)
    {event : Event ι κ} (hstep : smpStep routine loc s event = some s') :
    ∃ more phase', Inv spec At w₀ s' (order ++ more) phase' := by
  cases event with
  | call i call =>
    simp only [smpStep] at hstep
    cases hr : (s.core i).running with
    | some r => simp [hr] at hstep
    | none =>
      simp only [hr, Option.some.injEq] at hstep
      subst hstep
      obtain ⟨returned, hmine, hreturned⟩ := (h.core i).accounts
      refine Inv.unextended (h.set .fresh ⟨⟨returned, ?_, hreturned⟩, ?_, by simp⟩)
      · simpa [pendingEntry, hr] using hmine
      · intro r hr'
        rw [Option.some.injEq] at hr'
        exact hr' ▸ himp.start call
  | instr i spurious =>
    simp only [smpStep] at hstep
    cases hr : (s.core i).running with
    | none => simp [hr] at hstep
    | some r =>
      simp only [hr] at hstep
      exact h.instr himp hr hstep
  | ret i =>
    simp only [smpStep] at hstep
    cases hr : (s.core i).running with
    | none => simp [hr] at hstep
    | some r =>
      simp only [hr] at hstep
      have hturn := himp.turn _ r ((h.core i).stands r hr)
      unfold Turn at hturn
      cases hfetch : fetch (routine r.call).prog r.cpu with
      | some instr => simp [hfetch] at hstep
      | none =>
        simp only [hfetch, Option.some.injEq] at hstep hturn
        subst hstep
        obtain ⟨seen, hsettled, hresult, hstored⟩ := hturn
        obtain ⟨returned, hmine, hreturned⟩ := (h.core i).accounts
        rw [hsettled] at hmine
        -- The entry that was pending is the one of the call that returns.
        refine Inv.unextended (h.set .fresh
          ⟨⟨returned ++ [⟨i, r.call, seen⟩], ?_, ?_⟩, by simp, by simp⟩)
        · simpa [pendingEntry, hr] using hmine
        · exact List.rel_append hreturned (.cons ⟨rfl, hresult, hstored⟩ .nil)

theorem Inv.linearizes {w₀ : Word} {s : Smp ι κ} {order : List (Entry ι κ)}
    {phase : ι → Phase} (h : Inv spec At w₀ s order phase) : Linearizes spec w₀ s order := by
  refine ⟨h.replays, fun i => ?_⟩
  obtain ⟨returned, hmine, hreturned⟩ := (h.core i).accounts
  refine ⟨returned, _, hmine, hreturned, ?_⟩
  unfold pendingEntry
  split
  · next r seen hr _ => exact .inr ⟨r, seen, hr, rfl⟩
  · exact .inl rfl

/-- Every run of routines that implement a specification has a sequential order that accounts
for it, and the order only grows as the run goes on. -/
theorem Implements.linearizable (himp : Implements routine loc spec At) {w₀ : Word}
    {events : List (Event ι κ)} {s : Smp ι κ}
    (hrun : run (smpStep routine loc) (.start ι κ w₀) events = some s) :
    ∃ orderAt : Nat → List (Entry ι κ),
      (∀ n, n ≤ events.length → ∃ u,
        run (smpStep routine loc) (.start ι κ w₀) (events.take n) = some u ∧
          Linearizes spec w₀ u (orderAt n)) ∧
      ∀ m n, m ≤ n → n ≤ events.length → orderAt m <+: orderAt n := by
  obtain ⟨orderAt, -, hinv, hgrow⟩ := exists_history
    (fun s order => ∃ phase, Inv spec At w₀ s order phase)
    (fun s event s' order ⟨phase, h⟩ hstep => h.step himp hstep) ⟨_, Inv.start w₀⟩ hrun
  refine ⟨orderAt, fun n hn => ?_, hgrow⟩
  obtain ⟨u, hu, phase, h⟩ := hinv n hn
  exact ⟨u, hu, h.linearizes⟩

end

end XrLinux.Machine
