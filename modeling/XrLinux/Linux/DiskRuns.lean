import XrLinux.Linux.Disk

/-!
# Linux — every run of the disk driver

Each disk is in one of four phases (`DiskPhase`): it has no request, its request waits for the
lock, the request's registers are being written, or its command has been submitted. The command of
a disk that has submitted one is in exactly one place (`DiskState.tokens`): with the disk, in the
completion bits, or in the word that the interrupt handler goes through. A step moves one disk from
one phase to the next and leaves the others where they are.

This is so for requests that are what the driver takes them for, `Request.InPlace`. The limits
that it declares let others through.
-/

namespace XrLinux.Linux

/-! ### What is asked of a run -/

/-- `XRDISK_READ` or `XRDISK_WRITE`. -/
def ReqOp.command (op : ReqOp) : BitVec 32 := if op = .write then xrdiskWrite else xrdiskRead

/-- Where the request's memory begins. -/
def Request.addr (req : Request) : Nat := (req.segments.head?.map Segment.addr).getD 0

/-- The command that carries out all of a request on a disk. -/
def Request.command (idx : Nat) (req : Request) : Command :=
  { select := BitVec.ofNat 32 idx
    dest := BitVec.ofNat 32 req.addr
    count := BitVec.ofNat 32 (req.bytes / 512)
    sector := BitVec.ofNat 32 req.pos
    op := req.op.command }

/-- What is mapped for a request. -/
def Request.mapping (req : Request) : DmaMapping :=
  { dmaAddr := req.addr
    dmaLength := req.bytes
    dmaDirection := if req.op = .write then .toDevice else .fromDevice }

/-- Nothing is under way for the disk. -/
structure DiskState.Quiet (s : DiskState) (idx : Nat) : Prop where
  unlocked : s.lock = none
  not_waiting : s.waiting idx = none
  not_inFlight : s.inFlight idx = false
  not_done : s.done.getLsbD idx = false

/-- No `BUG_ON` is reached. The requests of a disk are completed in the order they were started in,
each once, and but for the one that is outstanding all of them; one is outstanding only as long as
something is under way. The commands that a disk has got are those of its requests, one for each,
but for the last one perhaps, and no other disk is selected. -/
structure DiskState.Correct (s : DiskState) : Prop where
  no_bug : s.bug = false
  completed_once : ∀ idx, s.started idx = s.completed idx ++ (s.outstanding idx).toList
  settled : ∀ idx, s.Quiet idx → s.outstanding idx = none
  commands_own : ∀ idx, ∃ sent unsent, s.started idx = sent ++ unsent ∧ unsent.length ≤ 1 ∧
    s.completed idx <+: sent ∧
    s.commands.filter (fun c => c.select.toNat = idx) = sent.map (Request.command idx)
  unmapped_own : ∀ idx, s.unmapped idx = (s.completed idx).map Request.mapping
  commands_disk : ∀ c ∈ s.commands, c.select.toNat < xrdiskMax

/-- The memory is at a boundary of 512 bytes and within one page. -/
def Request.InPlace (req : Request) : Prop :=
  ∀ seg ∈ req.segments, 512 ∣ seg.addr ∧ seg.addr % pageSize + seg.len ≤ pageSize

/-! ### `xrarch_disk_queue_rq` before the lock -/

/-- The command that a submission leads to. -/
def Submission.command (idx : Nat) (sub : Submission) : Command :=
  { select := BitVec.ofNat 32 idx
    dest := BitVec.ofNat 32 sub.dmaAddr
    count := BitVec.ofNat 32 (sub.size >>> xrdiskSectShift)
    sector := sub.sector
    op := sub.submitCmd }

/-- The locals of `xrarch_disk_queue_rq` are those of its request. -/
structure Submission.Faithful (sub : Submission) : Prop where
  command_eq : ∀ idx, sub.command idx = sub.req.command idx
  mapping_eq : (⟨sub.dmaAddr, sub.size, sub.dmaDirection⟩ : DmaMapping) = sub.req.mapping
  submitCmd_eq : sub.submitCmd = xrdiskRead ∨ sub.submitCmd = xrdiskWrite

/-- What the block layer hands in is one segment of whole sectors. -/
theorem Request.satisfies_iff {req : Request} {capacity : Nat} :
    req.satisfies xrarchDiskLimits capacity = true ↔ ∃ seg, req.segments = [seg] ∧ 0 < seg.len ∧
      seg.len ≤ 4096 ∧ seg.addr &&& 512 = 0 ∧ seg.addr + seg.len ≤ 4294967296 ∧ 512 ∣ seg.len ∧
      req.pos + seg.len / 512 ≤ capacity := by
  obtain ⟨op, pos, segments⟩ := req
  cases segments with
  | nil => simp [satisfies]
  | cons seg segments =>
    cases segments with
    | nil =>
      simp only [satisfies, List.all_cons, List.all_nil, Bool.and_eq_true, decide_eq_true_eq,
        Bool.and_true]
      simp only [xrarchDiskLimits, bytes, List.map_cons, List.map_nil, List.sum_cons, List.sum_nil,
        Nat.add_zero]
      constructor
      · rintro ⟨⟨-, hpos, hlen, hmask, hend⟩, -, hdvd, hcap⟩
        exact ⟨seg, rfl, hpos, hlen, hmask, hend, hdvd, hcap⟩
      · rintro ⟨seg', hseg, hpos, hlen, hmask, hend, hdvd, hcap⟩
        cases hseg
        exact ⟨⟨⟨List.cons_ne_nil _ _, Nat.le_refl 1⟩, hpos, hlen, hmask, hend⟩, hlen, hdvd, hcap⟩
    | cons seg' segments =>
      constructor
      · intro h
        simp only [satisfies, Bool.and_eq_true, decide_eq_true_eq] at h
        have hone : segments.length + 1 + 1 ≤ 1 := h.1.1.2
        omega
      · rintro ⟨_, hseg, -⟩
        cases hseg

theorem and_511 (n : Nat) : n &&& (1 <<< xrdiskSectShift) - 1 = n % 512 :=
  Nat.and_two_pow_sub_one_eq_mod n 9

/-- The request is refused without having been started, or it waits for the lock with what belongs
to it. -/
theorem queueRq_cases (s : DiskState) (idx : Nat) {req : Request} (maps : Bool) {capacity : Nat}
    (hlimits : req.satisfies xrarchDiskLimits capacity = true) (hplace : req.InPlace) :
    s.queueRq idx req maps = s ∨
      ∃ sub : Submission, sub.req = req ∧ sub.Faithful ∧
        s.queueRq idx req maps =
          { s with
            outstanding := Function.update s.outstanding idx (some req)
            started := Function.update s.started idx (s.started idx ++ [req])
            waiting := Function.update s.waiting idx (some sub) } := by
  obtain ⟨seg, hseg, hpos, hlen, -, -, hdvd, -⟩ := Request.satisfies_iff.1 hlimits
  obtain ⟨haddr, hpage⟩ := hplace seg (by rw [hseg]; exact List.mem_singleton_self seg)
  -- the first piece is all of the segment
  have hpiece : seg.firstPiece = seg := by
    simp only [Segment.firstPiece]
    rw [Nat.min_eq_left (by omega)]
  have hbytes : req.bytes = seg.len := by
    simp [Request.bytes, hseg]
  have hdest : req.addr = seg.addr := by
    simp [Request.addr, hseg]
  have hsize : ¬ seg.len % 512 ≠ 0 := by omega
  have hsmall : ¬ 8 <<< xrdiskSectShift < seg.len := by
    show ¬ 4096 < seg.len
    omega
  have haligned : ¬ seg.addr % 512 ≠ 0 := by omega
  simp only [DiskState.queueRq, hseg, hpiece, and_511, if_neg hsize, if_neg hsmall,
    if_neg haligned]
  cases hop : req.op with
  | other => exact .inl rfl
  | read =>
    cases maps with
    | false => exact .inl rfl
    | true =>
      refine .inr ⟨_, rfl, ⟨fun idx => ?_, ?_, .inl rfl⟩, rfl⟩
      · simp [Submission.command, Request.command, hbytes, hdest, hop, ReqOp.command,
          Nat.shiftRight_eq_div_pow, xrdiskSectShift]
      · simp [Request.mapping, hbytes, hdest, hop]
  | write =>
    cases maps with
    | false => exact .inl rfl
    | true =>
      refine .inr ⟨_, rfl, ⟨fun idx => ?_, ?_, .inr rfl⟩, rfl⟩
      · simp [Submission.command, Request.command, hbytes, hdest, hop, ReqOp.command,
          Nat.shiftRight_eq_div_pow, xrdiskSectShift]
      · simp [Request.mapping, hbytes, hdest, hop]

/-- A request that is not in place either is a `BUG` or is started for too few sectors. -/
theorem queueRq_of_not_inPlace (s : DiskState) (idx : Nat) {req : Request} {capacity : Nat}
    (hlimits : req.satisfies xrarchDiskLimits capacity = true) (hop : req.op ≠ .other)
    (hplace : ¬ req.InPlace) :
    (s.queueRq idx req true).bug = true ∨
      ∃ sub, (s.queueRq idx req true).waiting idx = some sub ∧ sub.size < req.bytes := by
  obtain ⟨seg, hseg, hpos, hlen, -, -, hdvd, -⟩ := Request.satisfies_iff.1 hlimits
  have hbytes : req.bytes = seg.len := by
    simp [Request.bytes, hseg]
  obtain ⟨cmd, direction, hcmd⟩ : ∃ cmd direction, submitCmd req.op = some (cmd, direction) := by
    cases hop' : req.op with
    | read => exact ⟨_, _, rfl⟩
    | write => exact ⟨_, _, rfl⟩
    | other => exact absurd hop' hop
  simp only [DiskState.queueRq, hseg, hcmd, and_511]
  split
  · exact .inl rfl
  · split
    · exact .inl rfl
    · simp only [Bool.not_true, Bool.false_eq_true, if_false]
      split
      · exact .inl rfl
      · rename_i haligned
        refine .inr ⟨_, Function.update_self _ _ _, ?_⟩
        have hcross : ¬ seg.addr % pageSize + seg.len ≤ pageSize := by
          intro hpage
          refine hplace fun seg' hseg' => ?_
          rw [hseg, List.mem_singleton] at hseg'
          subst hseg'
          exact ⟨by simp only [Segment.firstPiece] at haligned; omega, hpage⟩
        simp only [Segment.firstPiece, hbytes]
        omega

/-! ### The invariant -/

/-- How far the request of a disk has come. -/
inductive DiskPhase where
  | idle
  | waiting (req : Request)
  | submitting (req : Request)
  | submitted (req : Request)

namespace DiskPhase

def outstanding : DiskPhase → Option Request
  | idle => none
  | waiting req | submitting req | submitted req => some req

def queued : DiskPhase → Option Request
  | waiting req => some req
  | idle | submitting _ | submitted _ => none

/-- `xdisk->req`. -/
def owned : DiskPhase → Option Request
  | submitting req | submitted req => some req
  | idle | waiting _ => none

def sent : DiskPhase → Option Request
  | submitted req => some req
  | idle | waiting _ | submitting _ => none

end DiskPhase

/-- The disk's bit in the word of the interrupt handler, where it has still to be looked at. -/
def DiskState.handling (s : DiskState) (idx : Nat) : Bool :=
  match s.lock with
  | some .intRead => s.ctrl.data1.getLsbD idx
  | some (.intLoop complete first) => decide (first ≤ idx) && complete.getLsbD idx
  | _ => false

/-- In how many places the disk's command is. -/
def DiskState.tokens (s : DiskState) (idx : Nat) : Nat :=
  (s.inFlight idx).toNat + (s.done.getLsbD idx).toNat + (s.handling idx).toNat

/-- The registers of the disk are being written. -/
def DiskState.Submits (s : DiskState) (idx : Nat) : Prop :=
  ∃ access writes, s.lock = some (.submit idx (access :: writes))

/-- `xdisk->req`. -/
def DiskState.diskReq (s : DiskState) (idx : Nat) : Option Request := (s.disks idx).bind Xdisk.req

structure DiskState.InPhase (s : DiskState) (idx : Nat) (p : DiskPhase) : Prop where
  outstanding_eq : s.outstanding idx = p.outstanding
  queued_eq : (s.waiting idx).map Submission.req = p.queued
  faithful : ∀ sub, s.waiting idx = some sub → sub.Faithful
  diskReq_eq : s.diskReq idx = p.owned
  tokens_eq : s.tokens idx = p.sent.toList.length
  submits_iff : s.Submits idx ↔ p.owned ≠ p.sent
  started_eq : s.started idx = s.completed idx ++ p.outstanding.toList
  commands_eq : s.commands.filter (fun c => c.select.toNat = idx) =
    (s.completed idx ++ p.sent.toList).map (Request.command idx)
  unmapped_eq : s.unmapped idx = (s.completed idx).map Request.mapping

/-- What the holder of the lock has got done. -/
def DiskState.Ready (s : DiskState) : Section → Prop
  | .submit idx writes => ∃ sub before ctrl, sub.Faithful ∧ s.diskReq idx = some sub.req ∧
      before ++ writes = submitWrites idx sub ∧
      (writes ≠ [] → s.ctrl = before.foldl Controller.write ctrl)
  | .info idx writes => idx = s.probed ∧ idx < xrdiskMax ∧ ∀ access ∈ writes, access ∈ infoWrites idx
  | .intWrite => True
  | .intRead => True
  | .intLoop _ _ => True

structure DiskInv (s : DiskState) : Prop where
  no_bug : s.bug = false
  phase : ∀ idx, ∃ p, s.InPhase idx p
  index_eq : ∀ idx xdisk, s.disks idx = some xdisk → xdisk.index = idx
  known : ∀ idx xdisk, s.disks idx = some xdisk → idx < s.probed ∧ idx < xrdiskMax
  mapping_eq : ∀ idx xdisk req, s.disks idx = some xdisk → xdisk.req = some req →
    (⟨xdisk.dmaAddr, xdisk.dmaLength, xdisk.dmaDirection⟩ : DmaMapping) = req.mapping
  ready : ∀ sec, s.lock = some sec → s.Ready sec
  commands_disk : ∀ c ∈ s.commands, c.select.toNat < xrdiskMax

/-- Nothing that the phase of a disk depends on has changed. -/
structure DiskState.SameAt (s s' : DiskState) (idx : Nat) : Prop where
  outstanding_eq : s'.outstanding idx = s.outstanding idx
  waiting_eq : s'.waiting idx = s.waiting idx
  diskReq_eq : s'.diskReq idx = s.diskReq idx
  tokens_eq : s'.tokens idx = s.tokens idx
  submits_iff : s'.Submits idx ↔ s.Submits idx
  started_eq : s'.started idx = s.started idx
  completed_eq : s'.completed idx = s.completed idx
  commands_eq : s'.commands.filter (fun c => c.select.toNat = idx) =
    s.commands.filter (fun c => c.select.toNat = idx)
  unmapped_eq : s'.unmapped idx = s.unmapped idx

theorem DiskState.InPhase.of_same {s s' : DiskState} {idx : Nat} {p : DiskPhase}
    (h : s.InPhase idx p) (hsame : s.SameAt s' idx) : s'.InPhase idx p where
  outstanding_eq := hsame.outstanding_eq.trans h.outstanding_eq
  queued_eq := by
    rw [hsame.waiting_eq]
    exact h.queued_eq
  faithful := fun sub hsub => h.faithful sub (hsame.waiting_eq ▸ hsub)
  diskReq_eq := hsame.diskReq_eq.trans h.diskReq_eq
  tokens_eq := hsame.tokens_eq.trans h.tokens_eq
  submits_iff := hsame.submits_iff.trans h.submits_iff
  started_eq := by
    rw [hsame.started_eq, hsame.completed_eq]
    exact h.started_eq
  commands_eq := by
    rw [hsame.commands_eq, hsame.completed_eq]
    exact h.commands_eq
  unmapped_eq := by
    rw [hsame.unmapped_eq, hsame.completed_eq]
    exact h.unmapped_eq

theorem DiskState.SameAt.phase {s s' : DiskState} {idx : Nat} (hsame : s.SameAt s' idx)
    (h : ∃ p, s.InPhase idx p) : ∃ p, s'.InPhase idx p :=
  let ⟨p, hp⟩ := h
  ⟨p, hp.of_same hsame⟩

theorem diskInv_init (ctrl : Controller) : DiskInv (.init ctrl) where
  no_bug := rfl
  phase := fun idx => ⟨.idle,
    { outstanding_eq := rfl
      queued_eq := rfl
      faithful := fun _ hsub => nomatch hsub
      diskReq_eq := rfl
      tokens_eq := by
        simp [DiskState.tokens, DiskState.init, DiskState.handling, DiskPhase.sent]
      submits_iff := iff_of_false (fun ⟨_, _, hlock⟩ => nomatch hlock) (fun hne => hne rfl)
      started_eq := rfl
      commands_eq := rfl
      unmapped_eq := rfl }⟩
  index_eq := fun _ _ hdisk => nomatch hdisk
  known := fun _ _ hdisk => nomatch hdisk
  mapping_eq := fun _ _ _ hdisk => nomatch hdisk
  ready := fun _ hlock => nomatch hlock
  commands_disk := fun _ hc => absurd hc List.not_mem_nil

/-! ### A request comes in -/

theorem DiskPhase.eq_idle {p : DiskPhase} (h : p.outstanding = none) : p = .idle := by
  cases p with
  | idle => rfl
  | waiting req => cases h
  | submitting req => cases h
  | submitted req => cases h

theorem DiskPhase.eq_waiting {p : DiskPhase} {req : Request} (h : p.queued = some req) :
    p = .waiting req := by
  cases p with
  | waiting req' => exact congrArg _ (Option.some.inj h)
  | idle => cases h
  | submitting req' => cases h
  | submitted req' => cases h

theorem DiskPhase.eq_submitted {p : DiskPhase} (h : p.sent.toList.length ≠ 0) :
    ∃ req, p = .submitted req := by
  cases p with
  | submitted req => exact ⟨req, rfl⟩
  | idle => exact absurd rfl h
  | waiting req => exact absurd rfl h
  | submitting req => exact absurd rfl h

theorem inv_queueRq {s : DiskState} {idx : Nat} {req : Request} (maps : Bool) {xdisk : Xdisk}
    (h : DiskInv s) (hidle : s.outstanding idx = none)
    (hlimits : req.satisfies xrarchDiskLimits xdisk.capacity = true) (hplace : req.InPlace) :
    DiskInv (s.queueRq idx req maps) := by
  obtain hrefused | ⟨sub, hreq, hfaithful, hqueued⟩ := queueRq_cases s idx maps hlimits hplace
  · rw [hrefused]
    exact h
  rw [hqueued]
  refine { h with phase := fun idx' => ?_, ready := h.ready }
  by_cases hidx : idx' = idx
  · subst hidx
    obtain ⟨p, hp⟩ := h.phase idx'
    obtain rfl := DiskPhase.eq_idle (hp.outstanding_eq.symm.trans hidle)
    have hstarted := hp.started_eq
    refine ⟨.waiting req,
      { outstanding_eq := Function.update_self _ _ _
        queued_eq := ?_
        faithful := fun sub' hsub' => ?_
        diskReq_eq := hp.diskReq_eq
        tokens_eq := hp.tokens_eq
        submits_iff := hp.submits_iff
        started_eq := ?_
        commands_eq := hp.commands_eq
        unmapped_eq := hp.unmapped_eq }⟩
    · show (Function.update s.waiting idx' (some sub) idx').map _ = _
      rw [Function.update_self]
      exact congrArg some hreq
    · have hsub : Function.update s.waiting idx' (some sub) idx' = some sub' := hsub'
      rw [Function.update_self, Option.some.injEq] at hsub
      exact hsub ▸ hfaithful
    · show Function.update s.started idx' _ idx' = _
      rw [Function.update_self, hstarted]
      exact congrArg (· ++ [req]) (List.append_nil _)
  · exact DiskState.SameAt.phase
      { outstanding_eq := Function.update_of_ne hidx _ _
        waiting_eq := Function.update_of_ne hidx _ _
        diskReq_eq := rfl
        tokens_eq := rfl
        submits_iff := Iff.rfl
        started_eq := Function.update_of_ne hidx _ _
        completed_eq := rfl
        commands_eq := rfl
        unmapped_eq := rfl } (h.phase idx')

/-! ### The lock is taken -/

/-- A change of the holder of the lock that leaves the disk's bit and its registers as they are. -/
theorem DiskState.sameAt_lock {s : DiskState} {lock : Option Section} {idx : Nat}
    (hhandling : DiskState.handling { s with lock } idx = s.handling idx)
    (hsubmits : DiskState.Submits { s with lock } idx ↔ s.Submits idx) :
    s.SameAt { s with lock } idx where
  outstanding_eq := rfl
  waiting_eq := rfl
  diskReq_eq := rfl
  tokens_eq := congrArg ((s.inFlight idx).toNat + (s.done.getLsbD idx).toNat + ·.toNat) hhandling
  submits_iff := hsubmits
  started_eq := rfl
  completed_eq := rfl
  commands_eq := rfl
  unmapped_eq := rfl

theorem DiskState.not_submits {s : DiskState} {idx : Nat}
    (h : ∀ writes, s.lock ≠ some (.submit idx writes)) : ¬ s.Submits idx :=
  fun ⟨access, writes, hlock⟩ => h (access :: writes) hlock

/-- The handler or the discovery gets the lock. -/
theorem inv_lock {s : DiskState} {sec : Section} (h : DiskInv s) (hlock : s.lock = none)
    (hhandling : ∀ idx, DiskState.handling { s with lock := some sec } idx = false)
    (hsubmit : ∀ idx writes, sec ≠ .submit idx writes)
    (hready : DiskState.Ready { s with lock := some sec } sec) :
    DiskInv { s with lock := some sec } :=
  { h with
    phase := fun idx => by
      refine (DiskState.sameAt_lock ?_ ?_).phase (h.phase idx)
      · rw [hhandling idx]
        simp [DiskState.handling, hlock]
      · refine iff_of_false (DiskState.not_submits fun writes heq => ?_)
          (DiskState.not_submits fun writes heq => ?_)
        · exact hsubmit idx writes (Option.some.inj heq)
        · rw [hlock] at heq
          cases heq
    ready := fun sec' hsec' => by
      obtain rfl := Option.some.inj hsec'
      exact hready }

theorem update_some_cases {α : Type*} {f : Nat → Option α} {idx idx' : Nat} {x y : α}
    (h : Function.update f idx (some x) idx' = some y) :
    idx' = idx ∧ y = x ∨ idx' ≠ idx ∧ f idx' = some y := by
  by_cases hidx : idx' = idx
  · subst hidx
    rw [Function.update_self, Option.some.injEq] at h
    exact .inl ⟨rfl, h.symm⟩
  · rw [Function.update_of_ne hidx] at h
    exact .inr ⟨hidx, h⟩

theorem bind_update_self {disks : Nat → Option Xdisk} {idx : Nat} (xdisk : Xdisk) :
    (Function.update disks idx (some xdisk) idx).bind Xdisk.req = xdisk.req := by
  rw [Function.update_self]
  rfl

theorem bind_update_of_ne {disks : Nat → Option Xdisk} {idx idx' : Nat} (xdisk : Option Xdisk)
    (h : idx' ≠ idx) :
    (Function.update disks idx xdisk idx').bind Xdisk.req = (disks idx').bind Xdisk.req := by
  rw [Function.update_of_ne h]

theorem inv_lockQueue {s : DiskState} {idx : Nat} {xdisk : Xdisk} {sub : Submission}
    (h : DiskInv s) (hlock : s.lock = none) (hdisk : s.disks idx = some xdisk)
    (hwaiting : s.waiting idx = some sub) : DiskInv (s.lockQueue idx xdisk sub) := by
  obtain ⟨p, hp⟩ := h.phase idx
  have hqueued := hp.queued_eq
  rw [hwaiting] at hqueued
  obtain rfl := DiskPhase.eq_waiting hqueued.symm
  have hfaithful := hp.faithful sub hwaiting
  have hnone : xdisk.req = none := by
    have howned := hp.diskReq_eq
    rw [DiskState.diskReq, hdisk] at howned
    exact howned
  have hindex := h.index_eq idx xdisk hdisk
  have hnot : ¬ xdisk.req.isSome = true := by
    rw [hnone]
    exact Bool.false_ne_true
  rw [DiskState.lockQueue, if_neg hnot]
  refine
    { no_bug := h.no_bug
      phase := fun idx' => ?_
      index_eq := fun idx' xdisk' hxdisk' => ?_
      known := fun idx' xdisk' hxdisk' => ?_
      mapping_eq := fun idx' xdisk' req hxdisk' hreq => ?_
      ready := fun sec hsec => ?_
      commands_disk := h.commands_disk }
  · by_cases hidx : idx' = idx
    · subst hidx
      exact ⟨.submitting sub.req,
        { outstanding_eq := hp.outstanding_eq
          queued_eq := by
            show (Function.update s.waiting idx' none idx').map _ = _
            rw [Function.update_self]
            rfl
          faithful := fun sub' hsub' =>
            nomatch (Function.update_self idx' none s.waiting).symm.trans hsub'
          diskReq_eq := bind_update_self _
          tokens_eq := by
            have htokens := hp.tokens_eq
            simp only [DiskState.tokens, DiskState.handling, hlock] at htokens ⊢
            exact htokens
          submits_iff := iff_of_true ⟨_, _, rfl⟩ (Option.some_ne_none _)
          started_eq := hp.started_eq
          commands_eq := hp.commands_eq
          unmapped_eq := hp.unmapped_eq }⟩
    · exact DiskState.SameAt.phase (s := s)
        { outstanding_eq := rfl
          waiting_eq := Function.update_of_ne hidx _ _
          diskReq_eq := bind_update_of_ne _ hidx
          tokens_eq := by simp only [DiskState.tokens, DiskState.handling, hlock]
          submits_iff := by
            refine iff_of_false ?_ (DiskState.not_submits fun writes heq => ?_)
            · rintro ⟨access, writes, heq⟩
              exact hidx (Section.submit.inj (Option.some.inj heq)).1.symm
            · rw [hlock] at heq
              cases heq
          started_eq := rfl
          completed_eq := rfl
          commands_eq := rfl
          unmapped_eq := rfl } (h.phase idx')
  · obtain ⟨rfl, rfl⟩ | ⟨-, hold⟩ := update_some_cases hxdisk'
    · exact hindex
    · exact h.index_eq idx' xdisk' hold
  · obtain ⟨rfl, rfl⟩ | ⟨-, hold⟩ := update_some_cases hxdisk'
    · exact h.known idx' xdisk hdisk
    · exact h.known idx' xdisk' hold
  · obtain ⟨rfl, rfl⟩ | ⟨-, hold⟩ := update_some_cases hxdisk'
    · obtain rfl := Option.some.inj hreq
      exact hfaithful.mapping_eq
    · exact h.mapping_eq idx' xdisk' req hold hreq
  · obtain rfl := Option.some.inj hsec
    refine ⟨sub, [], s.ctrl, hfaithful, ?_, ?_, fun _ => rfl⟩
    · exact bind_update_self _
    · rw [hindex]
      rfl

/-! ### The registers are written -/

/-- Seven writes latch what the command is to be, and the last one submits it. -/
theorem submitWrites_cases {idx : Nat} {sub : Submission}
    {before writes : List (Nat × BitVec 32)} {access : Nat × BitVec 32}
    (h : before ++ access :: writes = submitWrites idx sub) :
    (writes ≠ [] ∧ ∀ sectors (s : DiskState),
      s.write sectors access = { s with ctrl := s.ctrl.write access }) ∨
    (writes = [] ∧ access = (xrdiskCmd, sub.submitCmd) ∧ ∀ ctrl : Controller,
      (before.foldl Controller.write ctrl).command sub.submitCmd = sub.command idx) := by
  match before with
  | [] =>
    cases h
    exact .inl ⟨List.cons_ne_nil _ _, fun _ _ => rfl⟩
  | [_] =>
    cases h
    exact .inl ⟨List.cons_ne_nil _ _, fun _ _ => rfl⟩
  | [_, _] =>
    cases h
    exact .inl ⟨List.cons_ne_nil _ _, fun _ _ => rfl⟩
  | [_, _, _] =>
    cases h
    exact .inl ⟨List.cons_ne_nil _ _, fun _ _ => rfl⟩
  | [_, _, _, _] =>
    cases h
    exact .inl ⟨List.cons_ne_nil _ _, fun _ _ => rfl⟩
  | [_, _, _, _, _] =>
    cases h
    exact .inl ⟨List.cons_ne_nil _ _, fun _ _ => rfl⟩
  | [_, _, _, _, _, _] =>
    cases h
    exact .inl ⟨List.cons_ne_nil _ _, fun _ _ => rfl⟩
  | [_, _, _, _, _, _, _] =>
    cases h
    exact .inr ⟨rfl, rfl, fun _ => rfl⟩
  | _ :: _ :: _ :: _ :: _ :: _ :: _ :: _ :: before =>
    have hlength := congrArg List.length h
    simp only [List.cons_append, List.length_cons, List.length_append, submitWrites,
      List.length_nil] at hlength
    omega

theorem DiskState.tokens_of_submit {s : DiskState} {idx idx' : Nat}
    {writes : List (Nat × BitVec 32)} (hlock : s.lock = some (.submit idx writes)) :
    s.tokens idx' = (s.inFlight idx').toNat + (s.done.getLsbD idx').toNat := by
  simp [tokens, handling, hlock]

theorem DiskState.submits_iff_of_submit {s : DiskState} {idx idx' : Nat}
    {writes : List (Nat × BitVec 32)} (hlock : s.lock = some (.submit idx writes)) :
    s.Submits idx' ↔ idx' = idx ∧ writes ≠ [] := by
  unfold Submits
  rw [hlock]
  constructor
  · rintro ⟨access, rest, heq⟩
    cases heq
    exact ⟨rfl, List.cons_ne_nil _ _⟩
  · rintro ⟨rfl, hne⟩
    obtain ⟨access, rest, rfl⟩ := List.exists_cons_of_ne_nil hne
    exact ⟨access, rest, rfl⟩

theorem DiskInv.lt_of_diskReq {s : DiskState} (h : DiskInv s) {idx : Nat} {req : Request}
    (hreq : s.diskReq idx = some req) : idx < xrdiskMax := by
  obtain ⟨xdisk, hdisk, -⟩ := Option.bind_eq_some_iff.1 hreq
  exact (h.known idx xdisk hdisk).2

theorem DiskPhase.eq_submitting {p : DiskPhase} {req : Request} (howned : p.owned = some req)
    (hne : p.owned ≠ p.sent) : p = .submitting req := by
  cases p with
  | submitting req' => exact congrArg _ (Option.some.inj howned)
  | idle => cases howned
  | waiting req' => cases howned
  | submitted req' => exact absurd rfl hne

theorem toNat_index {idx : Nat} (h : idx < xrdiskMax) : (BitVec.ofNat 32 idx).toNat = idx := by
  unfold xrdiskMax at h
  rw [BitVec.toNat_ofNat, Nat.mod_eq_of_lt (by omega)]

theorem inv_goSubmit {sectors : Nat → Option (BitVec 32)} {s : DiskState} {idx : Nat}
    {access : Nat × BitVec 32} {writes : List (Nat × BitVec 32)} (h : DiskInv s)
    (hlock : s.lock = some (.submit idx (access :: writes))) :
    DiskInv { s.write sectors access with lock := some (.submit idx writes) } := by
  obtain ⟨sub, before, ctrl, hfaithful, hreq, hlist, hctrl⟩ := h.ready _ hlock
  have hctrl' := hctrl (List.cons_ne_nil _ _)
  obtain ⟨hmore, hwrite⟩ | ⟨rfl, rfl, hcommand⟩ := submitWrites_cases hlist
  · rw [hwrite sectors s]
    refine
      { h with
        phase := fun idx' => DiskState.SameAt.phase (s := s) ?_ (h.phase idx')
        ready := fun sec hsec => ?_ }
    · exact
        { outstanding_eq := rfl
          waiting_eq := rfl
          diskReq_eq := rfl
          tokens_eq := by rw [DiskState.tokens_of_submit hlock, DiskState.tokens_of_submit rfl]
          submits_iff := by
            rw [DiskState.submits_iff_of_submit hlock, DiskState.submits_iff_of_submit rfl]
            exact and_congr_right fun _ => iff_of_true hmore (List.cons_ne_nil _ _)
          started_eq := rfl
          completed_eq := rfl
          commands_eq := rfl
          unmapped_eq := rfl }
    · obtain rfl := Option.some.inj hsec
      refine ⟨sub, before ++ [access], ctrl, hfaithful, hreq, ?_, fun _ => ?_⟩
      · rw [List.append_assoc]
        exact hlist
      · rw [List.foldl_append]
        exact congrArg (Controller.write · access) hctrl'
  · -- the command is submitted
    have hidx := h.lt_of_diskReq hreq
    have hselect : s.ctrl.command sub.submitCmd = sub.req.command idx := by
      rw [hctrl', hcommand, hfaithful.command_eq]
    have htoNat : s.ctrl.select.toNat = idx := by
      have hsel : s.ctrl.select = BitVec.ofNat 32 idx := congrArg Command.select hselect
      rw [hsel, toNat_index hidx]
    have hwrite : s.write sectors (xrdiskCmd, sub.submitCmd) =
        { s with
          inFlight := Function.update s.inFlight idx true
          commands := s.commands ++ [sub.req.command idx] } := by
      rw [DiskState.write, if_pos ⟨rfl, hfaithful.submitCmd_eq⟩, htoNat, hselect]
    have hcmd : (sub.req.command idx).select.toNat = idx := toNat_index hidx
    rw [hwrite]
    refine
      { h with
        phase := fun idx' => ?_
        ready := fun sec hsec => ?_
        commands_disk := fun c hc => ?_ }
    · by_cases hsame : idx' = idx
      · subst hsame
        obtain ⟨p, hp⟩ := h.phase idx'
        have hsubmits := hp.submits_iff.1 ⟨_, _, hlock⟩
        obtain rfl := DiskPhase.eq_submitting (hp.diskReq_eq.symm.trans hreq) hsubmits
        exact ⟨.submitted sub.req,
          { outstanding_eq := hp.outstanding_eq
            queued_eq := hp.queued_eq
            faithful := hp.faithful
            diskReq_eq := hp.diskReq_eq
            tokens_eq := by
              have htokens := hp.tokens_eq
              rw [DiskState.tokens_of_submit hlock] at htokens
              rw [DiskState.tokens_of_submit rfl]
              simp only [Function.update_self, Bool.toNat_true, DiskPhase.sent,
                Option.toList_some, Option.toList_none, List.length_nil,
                List.length_singleton] at htokens ⊢
              omega
            submits_iff := by
              rw [DiskState.submits_iff_of_submit rfl]
              exact iff_of_false (fun hne => hne.2 rfl) (fun hne => hne rfl)
            started_eq := hp.started_eq
            commands_eq := by
              have hcommands := hp.commands_eq
              simp only [DiskPhase.sent, Option.toList_none, List.append_nil] at hcommands
              simp only [List.filter_append, hcommands, DiskPhase.sent, Option.toList_some,
                List.map_append, List.map_cons, List.map_nil, List.filter_cons, List.filter_nil, hcmd,
                decide_true, if_true]
            unmapped_eq := hp.unmapped_eq }⟩
      · exact DiskState.SameAt.phase (s := s)
          { outstanding_eq := rfl
            waiting_eq := rfl
            diskReq_eq := rfl
            tokens_eq := by
              rw [DiskState.tokens_of_submit hlock, DiskState.tokens_of_submit rfl]
              simp only [Function.update_of_ne hsame]
            submits_iff := by
              rw [DiskState.submits_iff_of_submit hlock, DiskState.submits_iff_of_submit rfl]
              exact iff_of_false (fun hne => hne.2 rfl) (fun heq => hsame heq.1)
            started_eq := rfl
            completed_eq := rfl
            commands_eq := by
              have hother : ¬ (sub.req.command idx).select.toNat = idx' := by
                rw [hcmd]
                exact fun heq => hsame heq.symm
              simp only [List.filter_append, List.filter_cons, List.filter_nil, hother,
                decide_false, Bool.false_eq_true, if_false, List.append_nil]
            unmapped_eq := rfl } (h.phase idx')
    · obtain rfl := Option.some.inj hsec
      exact ⟨sub, before ++ [(xrdiskCmd, sub.submitCmd)], ctrl, hfaithful, hreq,
        (List.append_assoc _ _ _).trans hlist, fun hne => absurd rfl hne⟩
    · rcases List.mem_append.1 hc with hold | hnew
      · exact h.commands_disk c hold
      · rw [List.mem_singleton.1 hnew, hcmd]
        exact hidx

/-- The lock is given back. -/
theorem inv_unlock {s : DiskState} (h : DiskInv s) (hhandling : ∀ idx, s.handling idx = false)
    (hsubmits : ∀ idx, ¬ s.Submits idx) : DiskInv { s with lock := none } :=
  { h with
    phase := fun idx => by
      refine (DiskState.sameAt_lock ?_ ?_).phase (h.phase idx)
      · rw [hhandling idx]
        rfl
      · exact iff_of_false (DiskState.not_submits fun _ heq => nomatch heq) (hsubmits idx)
    ready := fun _ hsec => nomatch hsec }

/-! ### The interrupt handler -/

theorem inv_intWrite {sectors : Nat → Option (BitVec 32)} {s : DiskState} (h : DiskInv s)
    (hlock : s.lock = some .intWrite) :
    DiskInv { s.write sectors (xrdiskCmd, xrdiskComplete) with lock := some .intRead } := by
  have hwrite : s.write sectors (xrdiskCmd, xrdiskComplete) =
      { s with ctrl := { s.ctrl with data1 := s.done }, done := 0 } := rfl
  rw [hwrite]
  refine { h with phase := fun idx => ?_, ready := fun sec hsec => ?_ }
  · refine DiskState.SameAt.phase (s := s)
      { outstanding_eq := rfl
        waiting_eq := rfl
        diskReq_eq := rfl
        tokens_eq := ?_
        submits_iff := iff_of_false (DiskState.not_submits fun _ heq => nomatch heq)
          (DiskState.not_submits fun _ heq => nomatch hlock.symm.trans heq)
        started_eq := rfl
        completed_eq := rfl
        commands_eq := rfl
        unmapped_eq := rfl } (h.phase idx)
    -- the bits go from the controller into the register
    have hbefore : s.handling idx = false := by
      simp [DiskState.handling, hlock]
    have hempty : (0 : BitVec 32).getLsbD idx = false := BitVec.getLsbD_zero
    show (s.inFlight idx).toNat + ((0 : BitVec 32).getLsbD idx).toNat + (s.done.getLsbD idx).toNat =
      s.tokens idx
    rw [DiskState.tokens, hbefore, hempty]
    simp only [Bool.toNat_false, Nat.add_zero]
  · obtain rfl := Option.some.inj hsec
    trivial

theorem inv_intRead {s : DiskState} (h : DiskInv s) (hlock : s.lock = some .intRead) :
    DiskInv { s with lock := some (.intLoop s.ctrl.data1 0) } := by
  refine { h with phase := fun idx => ?_, ready := fun sec hsec => ?_ }
  · refine (DiskState.sameAt_lock ?_ ?_).phase (h.phase idx)
    · simp [DiskState.handling, hlock]
    · exact iff_of_false (DiskState.not_submits fun _ heq => nomatch heq)
        (DiskState.not_submits fun _ heq => nomatch hlock.symm.trans heq)
  · obtain rfl := Option.some.inj hsec
    trivial

theorem DiskState.handling_of_intLoop {s : DiskState} {complete : BitVec 32} {first : Nat}
    (hlock : s.lock = some (.intLoop complete first)) (idx : Nat) :
    s.handling idx = (decide (first ≤ idx) && complete.getLsbD idx) := by
  simp [handling, hlock]

theorem DiskState.not_submits_of_intLoop {s : DiskState} {complete : BitVec 32} {first : Nat}
    (hlock : s.lock = some (.intLoop complete first)) (idx : Nat) : ¬ s.Submits idx :=
  not_submits fun _ heq => nomatch hlock.symm.trans heq

/-- A disk whose bit the handler has is in the phase where its command is submitted. -/
theorem DiskInv.submitted_of_handling {s : DiskState} (h : DiskInv s) {idx : Nat}
    (hbit : s.handling idx = true) : ∃ req, s.InPhase idx (.submitted req) := by
  obtain ⟨p, hp⟩ := h.phase idx
  have htokens := hp.tokens_eq
  simp only [DiskState.tokens, hbit, Bool.toNat_true] at htokens
  obtain ⟨req, rfl⟩ := DiskPhase.eq_submitted (p := p) (by omega)
  exact ⟨req, hp⟩

theorem inv_intLoop {s : DiskState} {complete : BitVec 32} {first : Nat} (h : DiskInv s)
    (hlock : s.lock = some (.intLoop complete first)) : DiskInv (s.intLoop complete first) := by
  have hhandling := DiskState.handling_of_intLoop hlock
  have hsubmits := DiskState.not_submits_of_intLoop hlock
  -- the bits behind `first` are looked at later, as before
  have hnext : ∀ idx, idx ≠ first →
      (decide (first + 1 ≤ idx) && complete.getLsbD idx) = s.handling idx := by
    intro idx hne
    have hle : first + 1 ≤ idx ↔ first ≤ idx := by omega
    rw [hhandling, decide_eq_decide.2 hle]
  unfold DiskState.intLoop
  split
  · rename_i hturn
    have hfirst := hturn.1
    unfold xrdiskMax at hfirst
    split
    · rename_i hclear
      have hbit := (BitField.and_oneShift_eq_zero (by omega)).1 hclear
      refine { h with phase := fun idx => ?_, ready := fun sec hsec => ?_ }
      · refine (DiskState.sameAt_lock ?_ ?_).phase (h.phase idx)
        · rw [DiskState.handling_of_intLoop rfl]
          by_cases hidx : idx = first
          · subst hidx
            rw [hhandling, hbit, Bool.and_false, Bool.and_false]
          · exact hnext idx hidx
        · exact iff_of_false (DiskState.not_submits fun _ heq => nomatch heq) (hsubmits idx)
      · obtain rfl := Option.some.inj hsec
        trivial
    · rename_i hset
      have hbit : complete.getLsbD first = true := by
        rw [BitField.and_oneShift_eq_zero (by omega)] at hset
        exact Bool.not_eq_false _ ▸ hset
      have hmine : s.handling first = true := by
        rw [hhandling, hbit, decide_eq_true (Nat.le_refl first), Bool.and_true]
      obtain ⟨req, hp⟩ := h.submitted_of_handling hmine
      obtain ⟨xdisk, hdisk, hreq⟩ := Option.bind_eq_some_iff.1 hp.diskReq_eq
      have hcomplete : s.completeRequest first =
          { s with
            disks := Function.update s.disks first (some { xdisk with req := none })
            unmapped := Function.update s.unmapped first (s.unmapped first ++ [req.mapping])
            completed := Function.update s.completed first (s.completed first ++ [req])
            outstanding := Function.update s.outstanding first none } := by
        simp only [DiskState.completeRequest, hdisk, hreq, h.mapping_eq first xdisk req hdisk hreq]
      rw [hcomplete]
      refine
        { h with
          phase := fun idx => ?_
          index_eq := fun idx xdisk' hxdisk' => ?_
          known := fun idx xdisk' hxdisk' => ?_
          mapping_eq := fun idx xdisk' req' hxdisk' hreq' => ?_
          ready := fun sec hsec => ?_ }
      · by_cases hidx : idx = first
        · subst hidx
          refine ⟨.idle,
            { outstanding_eq := Function.update_self _ _ _
              queued_eq := hp.queued_eq
              faithful := hp.faithful
              diskReq_eq := bind_update_self _
              tokens_eq := ?_
              submits_iff := iff_of_false (DiskState.not_submits fun _ heq => nomatch heq)
                (fun hne => hne rfl)
              started_eq := ?_
              commands_eq := ?_
              unmapped_eq := ?_ }⟩
          · have htokens := hp.tokens_eq
            simp only [DiskState.tokens, hmine, Bool.toNat_true, DiskPhase.sent, Option.toList_some,
              List.length_singleton] at htokens
            rw [DiskState.tokens, DiskState.handling_of_intLoop rfl,
              decide_eq_false (Nat.not_succ_le_self idx)]
            simp only [DiskPhase.sent, Option.toList_none, List.length_nil, Bool.false_and,
              Bool.toNat_false]
            omega
          · have hstarted := hp.started_eq
            simp only [Function.update_self, DiskPhase.outstanding, Option.toList_some,
              Option.toList_none, List.append_nil] at hstarted ⊢
            exact hstarted
          · have hcommands := hp.commands_eq
            simp only [Function.update_self, DiskPhase.sent, Option.toList_some,
              Option.toList_none, List.append_nil] at hcommands ⊢
            exact hcommands
          · have hunmapped := hp.unmapped_eq
            simp only [Function.update_self, hunmapped, List.map_append, List.map_cons, List.map_nil]
        · exact DiskState.SameAt.phase (s := s)
            { outstanding_eq := Function.update_of_ne hidx _ _
              waiting_eq := rfl
              diskReq_eq := bind_update_of_ne _ hidx
              tokens_eq := by
                rw [DiskState.tokens, DiskState.handling_of_intLoop rfl, hnext idx hidx]
                rfl
              submits_iff := iff_of_false (DiskState.not_submits fun _ heq => nomatch heq)
                (hsubmits idx)
              started_eq := rfl
              completed_eq := Function.update_of_ne hidx _ _
              commands_eq := rfl
              unmapped_eq := Function.update_of_ne hidx _ _ } (h.phase idx)
      · obtain ⟨rfl, rfl⟩ | ⟨-, hold⟩ := update_some_cases hxdisk'
        · exact h.index_eq idx xdisk hdisk
        · exact h.index_eq idx xdisk' hold
      · obtain ⟨rfl, rfl⟩ | ⟨-, hold⟩ := update_some_cases hxdisk'
        · exact h.known idx xdisk hdisk
        · exact h.known idx xdisk' hold
      · obtain ⟨rfl, rfl⟩ | ⟨-, hold⟩ := update_some_cases hxdisk'
        · cases hreq'
        · exact h.mapping_eq idx xdisk' req' hold hreq'
      · obtain rfl := Option.some.inj hsec
        trivial
  · rename_i hend
    refine inv_unlock h (fun idx => ?_) hsubmits
    -- a bit that is left belongs to a disk, and `first` is past all of them
    cases hbit : s.handling idx with
    | false => rfl
    | true =>
      obtain ⟨req, hp⟩ := h.submitted_of_handling hbit
      have hidx := h.lt_of_diskReq hp.diskReq_eq
      rw [hhandling, Bool.and_eq_true, decide_eq_true_iff] at hbit
      refine absurd ⟨by omega, fun hzero => ?_⟩ hend
      rw [hzero] at hbit
      exact absurd hbit.2 (by simp)

/-! ### The discovery of disks -/

/-- The writes of `xrarch_disk_probe` change data registers only. -/
theorem write_info (sectors : Nat → Option (BitVec 32)) (s : DiskState) {idx : Nat}
    {access : Nat × BitVec 32} (h : access ∈ infoWrites idx) :
    ∃ ctrl, s.write sectors access = { s with ctrl } := by
  rcases List.mem_cons.1 h with rfl | h
  · exact ⟨_, rfl⟩
  · rw [List.mem_singleton.1 h]
    exact ⟨_, rfl⟩

theorem DiskState.handling_of_info {s : DiskState} {first : Nat} {writes : List (Nat × BitVec 32)}
    (hlock : s.lock = some (.info first writes)) (idx : Nat) : s.handling idx = false := by
  simp [handling, hlock]

theorem inv_goInfo {sectors : Nat → Option (BitVec 32)} {s : DiskState} {first : Nat}
    {access : Nat × BitVec 32} {writes : List (Nat × BitVec 32)} (h : DiskInv s)
    (hlock : s.lock = some (.info first (access :: writes))) :
    DiskInv { s.write sectors access with lock := some (.info first writes) } := by
  obtain ⟨hprobed, hfirst, hmem⟩ := h.ready _ hlock
  obtain ⟨ctrl, hwrite⟩ := write_info sectors s (hmem access List.mem_cons_self)
  rw [hwrite]
  refine { h with phase := fun idx => ?_, ready := fun sec hsec => ?_ }
  · refine DiskState.SameAt.phase (s := s)
      { outstanding_eq := rfl
        waiting_eq := rfl
        diskReq_eq := rfl
        tokens_eq := ?_
        submits_iff := iff_of_false (DiskState.not_submits fun _ heq => nomatch heq)
          (DiskState.not_submits fun _ heq => nomatch hlock.symm.trans heq)
        started_eq := rfl
        completed_eq := rfl
        commands_eq := rfl
        unmapped_eq := rfl } (h.phase idx)
    rw [DiskState.tokens, DiskState.tokens, DiskState.handling_of_info hlock,
      DiskState.handling_of_info rfl]
  · obtain rfl := Option.some.inj hsec
    exact ⟨hprobed, hfirst, fun access' haccess' => hmem access' (List.mem_cons_of_mem _ haccess')⟩

/-- A disk that has not been looked for yet is not there. -/
theorem DiskInv.disks_probed {s : DiskState} (h : DiskInv s) {idx : Nat} (hle : s.probed ≤ idx) :
    s.disks idx = none := by
  cases hdisk : s.disks idx with
  | none => rfl
  | some xdisk =>
    obtain ⟨hlt, -⟩ := h.known idx xdisk hdisk
    omega

theorem inv_initOne {s : DiskState} {first : Nat} (ok : Bool) (h : DiskInv s)
    (hlock : s.lock = some (.info first [])) : DiskInv (s.initOne first ok) := by
  obtain ⟨rfl, hfirst, -⟩ := h.ready _ hlock
  have hnone := h.disks_probed (Nat.le_refl s.probed)
  have hunlocked := inv_unlock h (DiskState.handling_of_info hlock) fun idx =>
    DiskState.not_submits fun _ heq => nomatch hlock.symm.trans heq
  unfold DiskState.initOne
  cases s.ctrl.data0 != 0 && ok with
  | false =>
    refine { hunlocked with phase := fun idx => ?_, known := fun idx xdisk hdisk => ?_, ready := ?_ }
    · exact DiskState.SameAt.phase (s := { s with lock := none })
        ⟨rfl, rfl, rfl, rfl, Iff.rfl, rfl, rfl, rfl, rfl⟩ (hunlocked.phase idx)
    · obtain ⟨hlt, hmax⟩ := h.known idx xdisk hdisk
      exact ⟨by dsimp only; omega, hmax⟩
    · exact fun sec hsec => nomatch hsec
  | true =>
    refine
      { hunlocked with
        phase := fun idx => ?_
        index_eq := fun idx xdisk hdisk => ?_
        known := fun idx xdisk hdisk => ?_
        mapping_eq := fun idx xdisk req hdisk hreq => ?_
        ready := fun sec hsec => nomatch hsec }
    · refine DiskState.SameAt.phase (s := { s with lock := none })
        ⟨rfl, rfl, ?_, rfl, Iff.rfl, rfl, rfl, rfl, rfl⟩ (hunlocked.phase idx)
      -- the new disk has no request either
      by_cases hidx : idx = s.probed
      · subst hidx
        refine (bind_update_self _).trans ?_
        show none = (s.disks s.probed).bind Xdisk.req
        rw [hnone]
        rfl
      · exact bind_update_of_ne _ hidx
    · obtain ⟨rfl, rfl⟩ | ⟨-, hold⟩ := update_some_cases hdisk
      · rfl
      · exact h.index_eq idx xdisk hold
    · obtain ⟨rfl, rfl⟩ | ⟨-, hold⟩ := update_some_cases hdisk
      · exact ⟨Nat.lt_succ_self _, hfirst⟩
      · obtain ⟨hlt, hmax⟩ := h.known idx xdisk hold
        exact ⟨by dsimp only; omega, hmax⟩
    · obtain ⟨rfl, rfl⟩ | ⟨-, hold⟩ := update_some_cases hdisk
      · cases hreq
      · exact h.mapping_eq idx xdisk req hold hreq

/-! ### A disk is done -/

theorem inv_complete {s : DiskState} {idx : Nat} (h : DiskInv s) (hflight : s.inFlight idx = true) :
    DiskInv (s.complete idx) := by
  obtain ⟨p, hp⟩ := h.phase idx
  have htokens := hp.tokens_eq
  simp only [DiskState.tokens, hflight, Bool.toNat_true] at htokens
  obtain ⟨req, rfl⟩ := DiskPhase.eq_submitted (p := p) (by omega)
  have hidx := h.lt_of_diskReq hp.diskReq_eq
  unfold xrdiskMax at hidx
  have hbit : ∀ idx' < 32, (s.done ||| (1 : BitVec 32) <<< idx).getLsbD idx' =
      (s.done.getLsbD idx' || decide (idx' = idx)) := fun idx' hlt => by
    rw [BitVec.getLsbD_or, BitField.getLsbD_oneShift (by omega) hlt]
  refine { h with phase := fun idx' => ?_, ready := h.ready }
  refine DiskState.SameAt.phase (s := s)
    ⟨rfl, rfl, rfl, ?_, Iff.rfl, rfl, rfl, rfl, rfl⟩ (h.phase idx')
  show (Function.update s.inFlight idx false idx').toNat +
    ((s.done ||| (1 : BitVec 32) <<< idx).getLsbD idx').toNat + (s.handling idx').toNat = s.tokens idx'
  unfold DiskState.tokens
  by_cases hsame : idx' = idx
  · -- from the disk into its bit
    subst hsame
    have hclear : s.done.getLsbD idx' = false := by
      cases hdone : s.done.getLsbD idx' with
      | false => rfl
      | true =>
        simp only [hdone, Bool.toNat_true, DiskPhase.sent, Option.toList_some,
          List.length_singleton] at htokens
        omega
    rw [Function.update_self, hbit idx' (by omega), hclear, hflight, decide_eq_true rfl]
    simp only [Bool.toNat_false, Bool.false_or, Bool.toNat_true, Nat.zero_add, Nat.add_zero]
  · have hsame' : (s.done ||| (1 : BitVec 32) <<< idx).getLsbD idx' = s.done.getLsbD idx' := by
      by_cases hlt : idx' < 32
      · rw [hbit idx' hlt, decide_eq_false hsame, Bool.or_false]
      · rw [BitVec.getLsbD_of_ge _ _ (by omega), BitVec.getLsbD_of_ge _ _ (by omega)]
    rw [Function.update_of_ne hsame, hsame']

/-! ### Runs -/

theorem inv_go {sectors : Nat → Option (BitVec 32)} {s : DiskState} {sec : Section} (ok : Bool)
    (h : DiskInv s) (hlock : s.lock = some sec) : DiskInv (s.go sectors ok sec) := by
  cases sec with
  | submit idx writes =>
    cases writes with
    | nil =>
      refine inv_unlock h (fun idx' => ?_) (fun idx' => ?_)
      · simp [DiskState.handling, hlock]
      · rw [DiskState.submits_iff_of_submit hlock]
        exact fun hne => hne.2 rfl
    | cons access writes => exact inv_goSubmit h hlock
  | intWrite => exact inv_intWrite h hlock
  | intRead => exact inv_intRead h hlock
  | intLoop complete first => exact inv_intLoop h hlock
  | info first writes =>
    cases writes with
    | nil => exact inv_initOne ok h hlock
    | cons access writes => exact inv_goInfo h hlock

/-- A request that the block layer hands in is in place. -/
def DiskEvent.InPlace : DiskEvent → Prop
  | .queueRq _ req _ => req.InPlace
  | _ => True

theorem inv_diskStep {sectors : Nat → Option (BitVec 32)} {s s' : DiskState} {event : DiskEvent}
    (h : DiskInv s) (hplace : event.InPlace) (hstep : diskStep sectors s event = some s') :
    DiskInv s' := by
  have hbug : ¬ s.bug = true := by
    rw [h.no_bug]
    exact Bool.false_ne_true
  unfold diskStep at hstep
  rw [if_neg hbug] at hstep
  cases event with
  | queueRq idx req maps =>
    dsimp only at hstep
    split at hstep
    · rename_i xdisk hdisk hidle
      split at hstep
      · rename_i hlimits
        obtain rfl := Option.some.inj hstep
        exact inv_queueRq maps h hidle hlimits hplace
      · cases hstep
    · cases hstep
  | lockQueue idx =>
    dsimp only at hstep
    split at hstep
    · rename_i xdisk sub hlock hdisk hwaiting
      obtain rfl := Option.some.inj hstep
      exact inv_lockQueue h hlock hdisk hwaiting
    · cases hstep
  | lockInt =>
    dsimp only at hstep
    split at hstep
    · rename_i hlock
      obtain rfl := Option.some.inj hstep
      exact inv_lock h (Option.isNone_iff_eq_none.1 hlock) (fun _ => rfl)
        (fun _ _ heq => nomatch heq) trivial
    · cases hstep
  | lockProbe =>
    dsimp only at hstep
    split at hstep
    · rename_i hlock
      obtain rfl := Option.some.inj hstep
      exact inv_lock h (Option.isNone_iff_eq_none.1 hlock.1) (fun _ => rfl)
        (fun _ _ heq => nomatch heq) ⟨rfl, hlock.2, fun _ haccess => haccess⟩
    · cases hstep
  | go ok =>
    obtain ⟨sec, hlock, rfl⟩ := Option.map_eq_some_iff.1 hstep
    exact inv_go ok h hlock
  | complete idx =>
    dsimp only at hstep
    split at hstep
    · rename_i hflight
      obtain rfl := Option.some.inj hstep
      exact inv_complete h hflight
    · cases hstep

theorem DiskInv.correct {s : DiskState} (h : DiskInv s) : s.Correct where
  no_bug := h.no_bug
  completed_once := fun idx => by
    obtain ⟨p, hp⟩ := h.phase idx
    rw [hp.outstanding_eq]
    exact hp.started_eq
  settled := fun idx hquiet => by
    obtain ⟨p, hp⟩ := h.phase idx
    have hqueued := hp.queued_eq
    have htokens := hp.tokens_eq
    have hhandling : s.handling idx = false := by
      simp [DiskState.handling, hquiet.unlocked]
    simp only [DiskState.tokens, hquiet.not_inFlight, hquiet.not_done, hhandling,
      Bool.toNat_false] at htokens
    rw [hquiet.not_waiting] at hqueued
    cases p with
    | idle => exact hp.outstanding_eq
    | waiting req => cases hqueued
    | submitting req =>
      obtain ⟨access, writes, hlock⟩ := hp.submits_iff.2 (Option.some_ne_none req)
      rw [hquiet.unlocked] at hlock
      cases hlock
    | submitted req => cases htokens
  commands_own := fun idx => by
    obtain ⟨p, hp⟩ := h.phase idx
    have hstarted := hp.started_eq
    refine ⟨s.completed idx ++ p.sent.toList, if p.sent = none then p.outstanding.toList else [],
      ?_, ?_, List.prefix_append _ _, hp.commands_eq⟩
    · rw [hstarted, List.append_assoc]
      cases p <;> rfl
    · cases p <;> simp [DiskPhase.sent, DiskPhase.outstanding]
  unmapped_own := fun idx => by
    obtain ⟨p, hp⟩ := h.phase idx
    exact hp.unmapped_eq
  commands_disk := h.commands_disk

/-- The driver is right in every run in which all requests are in place. -/
theorem disk_correct_of_inPlace (sectors : Nat → Option (BitVec 32)) (ctrl : Controller)
    {events : List DiskEvent} {s : DiskState} (hplace : ∀ event ∈ events, event.InPlace)
    (hrun : Run.run (diskStep sectors) (.init ctrl) events = some s) : s.Correct :=
  (Run.run_induction_mem (fun _ _ _ hmem h hstep => inv_diskStep h (hplace _ hmem) hstep)
    (diskInv_init ctrl) hrun).correct

/-! ### Two runs with one disk -/

/-- One disk of 128 sectors. -/
def oneDisk (idx : Nat) : Option (BitVec 32) := if idx = 0 then some 128 else none

def Controller.zero : Controller := { data0 := 0, data1 := 0, select := 0, dest := 0, count := 0 }

/-- A read of a sector, to memory from `addr` on. -/
def sectorRead (addr : Nat) : Request :=
  { op := .read, pos := 3, segments := [{ addr, len := 512 }] }

/-- The disk is found, and a read of a sector goes all the way. -/
def sectorReadRun : List DiskEvent :=
  [.lockProbe, .go true, .go true, .go true, .queueRq 0 (sectorRead 4096) true, .lockQueue 0] ++
    List.replicate 9 (.go true) ++ [.complete 0, .lockInt] ++ List.replicate 11 (.go true)

theorem disk_correct_sectorRead :
    ∃ s, Run.run (diskStep oneDisk) (.init .zero) sectorReadRun = some s ∧
      s.completed 0 = [sectorRead 4096] ∧ s.Correct := by
  obtain ⟨s, hrun⟩ : ∃ s, Run.run (diskStep oneDisk) (.init .zero) sectorReadRun = some s :=
    Option.isSome_iff_exists.1 (by decide +kernel)
  have hcompleted : (Run.run (diskStep oneDisk) (.init .zero) sectorReadRun).map (·.completed 0) =
      some [sectorRead 4096] := by
    decide +kernel
  rw [hrun] at hcompleted
  refine ⟨s, hrun, Option.some.inj hcompleted, disk_correct_of_inPlace oneDisk .zero ?_ hrun⟩
  intro event hevent
  cases event with
  | queueRq idx req maps =>
    have hreq : req = sectorRead 4096 := by
      simp [sectorReadRun] at hevent
      exact hevent.2.1
    rw [hreq]
    intro seg hseg
    rw [List.mem_singleton.1 hseg]
    decide
  | lockQueue idx => trivial
  | lockInt => trivial
  | lockProbe => trivial
  | go ok => trivial
  | complete idx => trivial

/-- A read to an address that the limits let through, 16 bytes past a boundary. -/
def misalignedRun : List DiskEvent :=
  [.lockProbe, .go true, .go true, .go true, .queueRq 0 (sectorRead 4112) true]

theorem disk_not_correct_misaligned :
    ¬ ∀ (sectors : Nat → Option (BitVec 32)) (ctrl : Controller) (events : List DiskEvent)
      (s : DiskState), Run.run (diskStep sectors) (.init ctrl) events = some s → s.Correct := by
  intro hall
  obtain ⟨s, hrun⟩ : ∃ s, Run.run (diskStep oneDisk) (.init .zero) misalignedRun = some s :=
    Option.isSome_iff_exists.1 (by decide +kernel)
  have hbug : (Run.run (diskStep oneDisk) (.init .zero) misalignedRun).map DiskState.bug =
      some true := by
    decide +kernel
  rw [hrun] at hbug
  have hclean := (hall oneDisk .zero misalignedRun s hrun).no_bug
  exact absurd (hclean.symm.trans (Option.some.inj hbug)) Bool.false_ne_true

end XrLinux.Linux
