import XrLinux.Bootloader.Outcomes

/-!
# Bootloader — who frees an inode

`BiFindInode` takes the inode it starts from over and frees it, except where it gives up at once or
starts over at the root; and for a link its caller frees that inode as well. So a relative link is
fine in the root, which nobody frees, and anywhere else its directory is freed twice.
-/

namespace XrLinux.Bootloader

open Prog PathResolution

/-- An inode as the walk has it: `BiRoot`, or a copy of its own. -/
inductive Place where
  | root
  | copy (inode : BiInode)

def Place.inode (root : BiInode) : Place → BiInode
  | .root => root
  | .copy inode => inode

/-- What an inode of a directory leads to. -/
def Volume.entryAt (vol : Volume) (number : Nat) : Except Stop (Entry Place (BitVec 8)) :=
  match outcome (biReadInode vol.fw vol.part vol.fs number) with
  | .error e => .error e
  | .ok content =>
    if biType content.mode = typeSym then
      match outcome (readTarget vol.fw vol.part vol.fs content) with
      | .error e => .error e
      | .ok target => .ok (.link target)
    else .ok (.place (.copy content))

/-- The names of a volume, whatever is on it. -/
def Volume.names (vol : Volume) (root : BiInode) (fuel : Nat) :
    NameSpace Stop Place (BitVec 8) where
  root := .root
  isDirectory n := biType (n.inode root).mode = typeDir
  separator := slash
  lookup n name :=
    match outcome (biFindEntryInDirectory vol.fw vol.part vol.fs fuel (n.inode root) name) with
    | .error e => .error e
    | .ok none => .ok none
    | .ok (some number) => (vol.entryAt number).map some

/-! ## Blocks -/

/-- The blocks are those of `base`, and one for what was found. -/
def Holding (base : Nat → Option BiInode) :
    Option InodeRef → Option Place → (Nat → Option BiInode) → Prop
  | none, none, inodes => inodes = base
  | some .root, some .root, inodes => inodes = base
  | some (.heap b), some (.copy i), inodes => base b = none ∧ inodes = Function.update base b (some i)
  | _, _, _ => False

structure FsState.Ready (vol : Volume) (s : FsState) : Prop where
  steady : vol.Steady s.disk
  fresh : ∀ b, s.next ≤ b → s.inodes b = none

/-- Before any inode is allocated. -/
def FsState.init : FsState := { disk := .init, inodes := fun _ => none, next := 0 }

theorem FsState.init_ready (vol : Volume) : FsState.init.Ready vol :=
  ⟨vol.steady_init, fun _ _ => rfl⟩

section
variable {vol : Volume} {root : BiInode} {base inodes : Nat → Option BiInode} {s : FsState}
  {inode : InodeRef} {n : Place} {r : Option InodeRef} {m : Option Place}

theorem inodeAt_run (h : Holding base (some inode) (some n) s.inodes) :
    (inodeAt root inode).run s = (.ok (n.inode root), s) := by
  cases inode with
  | root =>
    cases n with
    | root => rfl
    | copy i => exact h.elim
  | heap b =>
    cases n with
    | root => exact h.elim
    | copy i =>
      have hb : s.inodes b = some i := by
        rw [h.2, Function.update_self]
      show inodeAt root (.heap b) s = _
      simp only [inodeAt, hb]
      rfl

theorem freeInode_run {b : Nat} {i : BiInode} (hb : s.inodes b = some i) :
    (biMaybeFreeInode (.heap b)).run s =
      (.ok (), { s with inodes := Function.update s.inodes b none }) := by
  show freeInode (.heap b) s = _
  simp only [freeInode, hb]

/-- Freeing an inode that was found leaves what was found after it. -/
theorem free_run (h : Holding base (some inode) (some n) inodes) (h' : Holding inodes r m s.inodes) :
    ∃ inodes', (biMaybeFreeInode inode).run s = (.ok (), { s with inodes := inodes' }) ∧
      Holding base r m inodes' ∧ ∀ b, s.inodes b = none → inodes' b = none := by
  cases inode with
  | root =>
    cases n with
    | root =>
      obtain rfl : inodes = base := h
      exact ⟨s.inodes, rfl, h', fun _ => id⟩
    | copy i => exact h.elim
  | heap b =>
    cases n with
    | root => exact h.elim
    | copy i =>
      obtain ⟨hb, rfl⟩ := h
      have hclear : Function.update base b none = base := by
        rw [← hb, Function.update_eq_self]
      have hback : Function.update (Function.update base b (some i)) b none = base := by
        rw [Function.update_idem, hclear]
      have hgone : ∀ c, s.inodes c = none → Function.update s.inodes b none c = none := by
        intro c hc
        by_cases hcb : c = b
        · rw [hcb, Function.update_self]
        · rw [Function.update_of_ne hcb, hc]
      rcases r with _ | _ | c <;> rcases m with _ | _ | j
      · have h' : s.inodes = _ := h'
        exact ⟨_, freeInode_run (by rw [h', Function.update_self]), by rw [h']; exact hback, hgone⟩
      · exact h'.elim
      · exact h'.elim
      · exact h'.elim
      · have h' : s.inodes = _ := h'
        exact ⟨_, freeInode_run (by rw [h', Function.update_self]), by rw [h']; exact hback, hgone⟩
      · exact h'.elim
      · exact h'.elim
      · exact h'.elim
      · -- another block on top of this one
        obtain ⟨hc, h'⟩ := h'
        have hcb : c ≠ b := by
          rintro rfl
          rw [Function.update_self] at hc
          exact absurd hc (by simp)
        rw [Function.update_of_ne hcb] at hc
        refine ⟨_, freeInode_run (i := i) ?_, ⟨hc, ?_⟩, hgone⟩
        · rw [h', Function.update_of_ne hcb.symm, Function.update_self]
        · rw [h', Function.update_comm hcb, Function.update_idem, hclear]

/-- A block that is not there any more. -/
theorem free_twice {b : Nat} (hb : base b = none) (h : Holding base r m s.inodes)
    (hr : r ≠ some (.heap b)) :
    (biMaybeFreeInode (.heap b)).run s = (.error .invalidFree, s) := by
  have hgone : s.inodes b = none := by
    rcases r with _ | _ | c <;> rcases m with _ | _ | j
    · exact (show s.inodes = base from h) ▸ hb
    · exact h.elim
    · exact h.elim
    · exact h.elim
    · exact (show s.inodes = base from h) ▸ hb
    · exact h.elim
    · exact h.elim
    · exact h.elim
    · have hbc : b ≠ c := fun heq => hr (by rw [heq])
      rw [h.2, Function.update_of_ne hbc, hb]
  show freeInode (.heap b) s = _
  simp only [freeInode, hgone]

/-! ## The walk -/

/-- What a call leaves: an end that the names have as well, and the heap with what was found. -/
structure Finds (vol : Volume) (base : Nat → Option BiInode) (first : Nat) (found : Nat → Prop)
    (expected : Except Stop (Option Place)) (anchored : Prop) (r : Option InodeRef) (s : FsState) :
    Prop where
  anchored : anchored
  ready : s.Ready vol
  first_le : first ≤ s.next
  holding : ∃ m, expected = .ok m ∧ Holding base r m s.inodes
  found : ∀ b, r = some (.heap b) → found b

/-- How a call can stop: as the names do, or for freeing a directory twice. -/
def Stops (expected : Except Stop (Option Place)) (anchored : Prop) : FsStop → FsState → Prop
  | .stop e, _ => anchored ∧ expected = .error e
  | .invalidFree, _ => ¬anchored
  | .invalidRead, _ => False

/-- The end of a round, with `rest` of the path left. -/
def continueWith (vol : Volume) (root : BiInode) (fuel : Nat)
    (expand : InodeRef → List (BitVec 8) → FsProg (Option InodeRef)) (rounds : Nat)
    (rest : List (BitVec 8)) (newInode : Option InodeRef) : FsProg (Option InodeRef) :=
  match newInode with
  | none => pure none
  | some inode =>
    if rest = [] then pure (some inode)
    else findComponents vol.fw vol.part vol.fs root fuel expand rounds inode rest

variable {fuel rounds : Nat} {expand : InodeRef → List (BitVec 8) → FsProg (Option InodeRef)}
  {path : List (BitVec 8)}

theorem findComponents_succ :
    findComponents vol.fw vol.part vol.fs root fuel expand (rounds + 1) inode path = (do
      let dir ← inodeAt root inode
      if biType dir.mode ≠ typeDir then do
        biMaybeFreeInode inode
        return none
      else if fromName slash path = [] then return some inode
      else do
        match ← onDisk (biFindEntryInDirectory vol.fw vol.part vol.fs fuel dir
          (firstName slash path)) with
        | none =>
          biMaybeFreeInode inode
          return none
        | some number =>
          let content ← onDisk (biReadInode vol.fw vol.part vol.fs number)
          let newInode ← allocateInode content
          if biType content.mode = typeSym then do
            let target ← onDisk (readTarget vol.fw vol.part vol.fs content)
            biMaybeFreeInode newInode
            let newInode ← expand inode target
            biMaybeFreeInode inode
            continueWith vol root fuel expand rounds (afterName slash path) newInode
          else do
            biMaybeFreeInode inode
            continueWith vol root fuel expand rounds (afterName slash path) (some newInode)) := by
  rw [← drop_firstName]
  rfl

/-- What the blocks are to be compared with after a call for a link: the call frees the inode it
starts from, unless it stops at once or starts at the root. -/
def afterCall (left : Nat) (path : List (BitVec 8)) (base inodes : Nat → Option BiInode) :
    Nat → Option BiInode :=
  if left ≠ 0 ∧ path ≠ [] ∧ path.head? ≠ some slash then base else inodes

/-- What `BiFindInode` does, with `left` for the links. -/
def CallSpec (vol : Volume) (root : BiInode) (fuel left : Nat)
    (call : InodeRef → List (BitVec 8) → FsProg (Option InodeRef)) : Prop :=
  ∀ inode n path base (s : FsState), s.Ready vol →
    Holding base (some inode) (some n) s.inodes →
    Post (call inode path) s
      (Finds vol (afterCall left path base s.inodes) s.next (fun b => s.next ≤ b)
        (resolve (vol.names root fuel) left n path) (Anchored (vol.names root fuel) left n path))
      (Stops (resolve (vol.names root fuel) left n path)
        (Anchored (vol.names root fuel) left n path))

/-- What its loop does in so many rounds. -/
def LoopSpec (vol : Volume) (root : BiInode) (fuel left : Nat)
    (expand : InodeRef → List (BitVec 8) → FsProg (Option InodeRef)) (rounds : Nat) : Prop :=
  ∀ inode n path base (s : FsState), path ≠ [] → path.length ≤ rounds → s.Ready vol →
    Holding base (some inode) (some n) s.inodes →
    Post (findComponents vol.fw vol.part vol.fs root fuel expand rounds inode path) s
      (Finds vol base s.next (fun b => s.next ≤ b ∨ inode = .heap b ∧ fromName slash path = [])
        (walkPath (vol.names root fuel) left n path)
        (walkPathAnchored (vol.names root fuel) left n path))
      (Stops (walkPath (vol.names root fuel) left n path)
        (walkPathAnchored (vol.names root fuel) left n path))

theorem continueWith_post {left first : Nat} {rest : List (BitVec 8)}
    (ih : LoopSpec vol root fuel left expand rounds) (hrest : rest.length ≤ rounds)
    (hs : s.Ready vol) (hfirst : first ≤ s.next) (hold : Holding base r m s.inodes)
    (hfound : ∀ b, r = some (.heap b) → first ≤ b) {expected : Except Stop (Option Place)}
    {anchored : Prop} (hexpected : expected = walkRest (vol.names root fuel) left rest m)
    (hanchored : anchored ↔ walkRestAnchored (vol.names root fuel) left rest m) :
    Post (continueWith vol root fuel expand rounds rest r) s
      (Finds vol base first (fun b => first ≤ b) expected anchored) (Stops expected anchored) := by
  cases r with
  | none =>
    cases m with
    | some n => exact hold.elim
    | none => exact ⟨hanchored.2 trivial, hs, hfirst, ⟨none, hexpected, hold⟩, hfound⟩
  | some inode =>
    cases m with
    | none => cases inode <;> exact hold.elim
    | some n =>
      subst hexpected
      by_cases hnil : rest = []
      · subst hnil
        show Post (pure (some inode)) s _ _
        rw [post_pure]
        exact ⟨hanchored.2 walkPathAnchored_nil, hs, hfirst, ⟨some n, walkPath_nil, hold⟩, hfound⟩
      · show Post (if rest = [] then _ else _) s _ _
        rw [if_neg hnil]
        refine (ih inode n rest base s hnil hrest hs hold).mono (fun r' s' h => ?_) fun e s' h => ?_
        · refine ⟨hanchored.2 h.anchored, h.ready, hfirst.trans h.first_le, h.holding, ?_⟩
          intro b hb
          rcases h.found b hb with hb' | ⟨rfl, -⟩
          · exact hfirst.trans hb'
          · exact hfound b rfl
        · unfold Stops at h ⊢
          rwa [hanchored]

/-- A block that is free at first is not among those that are found later. -/
theorem FsState.Ready.lt_next (hs : s.Ready vol) {b : Nat} {i : BiInode} (hb : s.inodes b = some i) :
    b < s.next := by
  by_contra hle
  rw [hs.fresh b (not_lt.1 hle)] at hb
  exact absurd hb (by simp)

/-- The call for a link, and the directory freed after it. -/
theorem link_post {left first : Nat} {target rest : List (BitVec 8)}
    (hcall : CallSpec vol root fuel left expand) (ih : LoopSpec vol root fuel left expand rounds)
    (hrest : rest.length ≤ rounds) (hs : s.Ready vol) (hfirst : first ≤ s.next)
    (hold : Holding base (some inode) (some n) s.inodes)
    {expected : Except Stop (Option Place)} {anchored : Prop}
    (hexpected : expected = (resolve (vol.names root fuel) left n target).bind
      (walkRest (vol.names root fuel) left rest))
    (hanchored : anchored ↔ Anchored (vol.names root fuel) left n target ∧
      ∀ m, resolve (vol.names root fuel) left n target = .ok m →
        Kept (vol.names root fuel) left n target ∧
          walkRestAnchored (vol.names root fuel) left rest m) :
    Post (do
        let newInode ← expand inode target
        biMaybeFreeInode inode
        continueWith vol root fuel expand rounds rest newInode) s
      (Finds vol base first (fun b => first ≤ b) expected anchored) (Stops expected anchored) := by
  rw [post_bind]
  refine (hcall inode n target base s hs hold).mono (fun r s' h => ?_) fun e s' h => ?_
  · obtain ⟨m, hm, hold'⟩ := h.holding
    rw [hm] at hexpected
    have hfound : ∀ b, r = some (.heap b) → first ≤ b := fun b hb => hfirst.trans (h.found b hb)
    by_cases hkept : Kept (vol.names root fuel) left n target
    · -- the directory is still there, or the root
      have hafter : afterCall left target base s.inodes = s.inodes := by
        unfold afterCall
        split
        · rename_i htaken
          rcases hkept with hzero | hnil | habsolute | hroot
          · exact absurd hzero htaken.1
          · exact absurd hnil htaken.2.1
          · exact absurd habsolute htaken.2.2
          · have hroot : n = .root := hroot
            subst hroot
            cases inode with
            | root => exact Eq.symm hold
            | heap b => exact hold.elim
        · rfl
      rw [hafter] at hold'
      obtain ⟨inodes', hrun, hold'', hgone⟩ := free_run hold hold'
      have hready : FsState.Ready vol { s' with inodes := inodes' } :=
        ⟨h.ready.steady, fun b hb => hgone b (h.ready.fresh b hb)⟩
      refine post_bind_ok hrun ?_
      refine continueWith_post ih hrest hready (hfirst.trans h.first_le) hold'' hfound hexpected ?_
      rw [hanchored]
      refine ⟨fun ha => (ha.2 m hm).2, fun ha => ⟨h.anchored, fun m' hm' => ⟨hkept, ?_⟩⟩⟩
      rw [hm] at hm'
      exact Except.ok.inj hm' ▸ ha
    · -- the call has freed it
      have hafter : afterCall left target base s.inodes = base := by
        refine if_pos ⟨fun hzero => hkept (.inl hzero), fun hnil => hkept (.inr (.inl hnil)),
          fun habsolute => hkept (.inr (.inr (.inl habsolute)))⟩
      rw [hafter] at hold'
      cases n with
      | root => exact absurd (.inr (.inr (.inr rfl))) hkept
      | copy i =>
        cases inode with
        | root => exact hold.elim
        | heap b =>
          have hb : b < s.next := hs.lt_next (i := i) (by rw [hold.2, Function.update_self])
          have hr : r ≠ some (.heap b) := fun hr => absurd (h.found b hr) (not_le.2 hb)
          refine post_bind_error (free_twice hold.1 hold' hr) fun ha => ?_
          exact hkept ((hanchored.1 ha).2 m hm).1
  · cases e with
    | stop e =>
      obtain ⟨ha, he⟩ := h
      rw [he] at hexpected
      refine ⟨hanchored.2 ⟨ha, fun m hm => ?_⟩, hexpected⟩
      rw [he] at hm
      exact absurd hm (by simp)
    | invalidFree => exact fun ha => h (hanchored.1 ha).1
    | invalidRead => exact h.elim

/-- The end of a call that finds nothing: the directory is freed. -/
theorem free_none {first : Nat} {found : Nat → Prop} (hs : s.Ready vol) (hfirst : first ≤ s.next)
    (hold : Holding base (some inode) (some n) s.inodes) {expected : Except Stop (Option Place)}
    {anchored : Prop} (hexpected : expected = .ok none) (hanchored : anchored) :
    Post (do
        biMaybeFreeInode inode
        return none) s
      (Finds vol base first found expected anchored) (Stops expected anchored) := by
  have hnone : Holding s.inodes none none s.inodes := rfl
  obtain ⟨inodes', hrun, hold', hgone⟩ := free_run hold hnone
  refine post_bind_ok hrun ?_
  rw [post_pure]
  exact ⟨hanchored, ⟨hs.steady, fun b hb => hgone b (hs.fresh b hb)⟩, hfirst,
    ⟨none, hexpected, hold'⟩, fun b hb => absurd hb (by simp)⟩

theorem allocateInode_run (content : BiInode) (s : FsState) :
    (allocateInode content).run s =
      (.ok (.heap s.next), { s with
        inodes := Function.update s.inodes s.next (some content), next := s.next + 1 }) :=
  rfl

theorem FsState.Ready.allocate (hs : s.Ready vol) (content : BiInode) :
    FsState.Ready vol { s with
      inodes := Function.update s.inodes s.next (some content), next := s.next + 1 } := by
  refine ⟨hs.steady, fun b hb => ?_⟩
  have hb : s.next + 1 ≤ b := hb
  have hbn : b ≠ s.next := by omega
  show Function.update s.inodes s.next (some content) b = none
  rw [Function.update_of_ne hbn, hs.fresh b (by omega)]

section
variable {name : List (BitVec 8)}

theorem lookup_error {e : Stop}
    (h : outcome (biFindEntryInDirectory vol.fw vol.part vol.fs fuel (n.inode root) name) = .error e) :
    (vol.names root fuel).lookup n name = .error e := by
  unfold Volume.names
  dsimp only
  rw [h]

theorem lookup_none
    (h : outcome (biFindEntryInDirectory vol.fw vol.part vol.fs fuel (n.inode root) name) =
      .ok none) :
    (vol.names root fuel).lookup n name = .ok none := by
  unfold Volume.names
  dsimp only
  rw [h]

theorem lookup_some {number : Nat}
    (h : outcome (biFindEntryInDirectory vol.fw vol.part vol.fs fuel (n.inode root) name) =
      .ok (some number)) :
    (vol.names root fuel).lookup n name = (vol.entryAt number).map some := by
  unfold Volume.names
  dsimp only
  rw [h]

theorem Volume.entryAt_error {number : Nat} {e : Stop}
    (h : outcome (biReadInode vol.fw vol.part vol.fs number) = .error e) :
    vol.entryAt number = .error e := by
  unfold Volume.entryAt
  rw [h]

theorem Volume.entryAt_place {number : Nat} {content : BiInode}
    (h : outcome (biReadInode vol.fw vol.part vol.fs number) = .ok content)
    (hplace : biType content.mode ≠ typeSym) :
    vol.entryAt number = .ok (.place (.copy content)) := by
  unfold Volume.entryAt
  rw [h]
  exact if_neg hplace

theorem Volume.entryAt_link {number : Nat} {content : BiInode}
    (h : outcome (biReadInode vol.fw vol.part vol.fs number) = .ok content)
    (hlink : biType content.mode = typeSym) :
    vol.entryAt number = match outcome (readTarget vol.fw vol.part vol.fs content) with
      | .error e => .error e
      | .ok target => .ok (.link target) := by
  unfold Volume.entryAt
  rw [h]
  exact if_pos hlink

end

/-- What becomes of the entry with the first name. -/
theorem entry_post {left number : Nat} (hcall : CallSpec vol root fuel left expand)
    (ih : LoopSpec vol root fuel left expand rounds)
    (hrest : (afterName slash path).length ≤ rounds) (hs : s.Ready vol)
    (hold : Holding base (some inode) (some n) s.inodes) (hfrom : fromName slash path ≠ [])
    (hdirectory : (vol.names root fuel).isDirectory n = true)
    (hentry : outcome (biFindEntryInDirectory vol.fw vol.part vol.fs fuel (n.inode root)
      (firstName slash path)) = .ok (some number)) :
    Post (do
        let content ← onDisk (biReadInode vol.fw vol.part vol.fs number)
        let newInode ← allocateInode content
        if biType content.mode = typeSym then do
          let target ← onDisk (readTarget vol.fw vol.part vol.fs content)
          biMaybeFreeInode newInode
          let newInode ← expand inode target
          biMaybeFreeInode inode
          continueWith vol root fuel expand rounds (afterName slash path) newInode
        else do
          biMaybeFreeInode inode
          continueWith vol root fuel expand rounds (afterName slash path) (some newInode)) s
      (Finds vol base s.next (fun b => s.next ≤ b) (walkPath (vol.names root fuel) left n path)
        (walkPathAnchored (vol.names root fuel) left n path))
      (Stops (walkPath (vol.names root fuel) left n path)
        (walkPathAnchored (vol.names root fuel) left n path)) := by
  have hlookup := lookup_some hentry
  refine post_onDisk (biReadInode_settled _ _) hs.steady
    (fun content disk hcontent hdisk => ?_) fun e disk hcontent => ?_
  · have hready : FsState.Ready vol { s with disk } := ⟨hdisk, hs.fresh⟩
    refine post_bind_ok (allocateInode_run content _) ?_
    have hallocated := hready.allocate content
    -- the new block, on top of those that were there
    have hnew : Holding s.inodes (some (.heap s.next)) (some (.copy content))
        (Function.update s.inodes s.next (some content)) := ⟨hs.fresh _ le_rfl, rfl⟩
    by_cases hlink : biType content.mode = typeSym
    · rw [if_pos hlink]
      rw [Volume.entryAt_link hcontent hlink] at hlookup
      refine post_onDisk (readTarget_settled _ _) hdisk (fun target disk htarget hdisk => ?_)
        fun e disk htarget => ?_
      · rw [htarget] at hlookup
        obtain ⟨hwalk, hanchored⟩ := walkPath_link left hfrom hdirectory hlookup
        have hnone : Holding (Function.update s.inodes s.next (some content)) none none
            (Function.update s.inodes s.next (some content)) := rfl
        obtain ⟨inodes', hrun, hback, hgone⟩ := free_run
          (s := { s with
            disk, inodes := Function.update s.inodes s.next (some content), next := s.next + 1 })
          hnew hnone
        obtain rfl : inodes' = s.inodes := hback
        refine post_bind_ok hrun ?_
        have hfreed : FsState.Ready vol { s with disk, next := s.next + 1 } :=
          ⟨hdisk, fun b hb => hs.fresh b ((Nat.le_succ _).trans hb)⟩
        exact link_post hcall ih hrest hfreed (Nat.le_succ _) hold hwalk hanchored
      · rw [htarget] at hlookup
        obtain ⟨hwalk, hanchored⟩ := walkPath_failed left hfrom hdirectory hlookup
        exact ⟨hanchored, hwalk⟩
    · rw [if_neg hlink]
      rw [Volume.entryAt_place hcontent hlink] at hlookup
      obtain ⟨hwalk, hanchored⟩ := walkPath_found left hfrom hdirectory hlookup
      obtain ⟨inodes', hrun, hold', hgone⟩ := free_run
        (s := { s with
          disk, inodes := Function.update s.inodes s.next (some content), next := s.next + 1 })
        hold hnew
      refine post_bind_ok hrun ?_
      have hfreed : FsState.Ready vol { s with disk, inodes := inodes', next := s.next + 1 } :=
        ⟨hdisk, fun b hb => hgone b (hallocated.fresh b hb)⟩
      exact continueWith_post ih hrest hfreed (Nat.le_succ _) hold'
        (fun b hb => (InodeRef.heap.inj (Option.some.inj hb)).le) hwalk hanchored
  · rw [Volume.entryAt_error hcontent] at hlookup
    obtain ⟨hwalk, hanchored⟩ := walkPath_failed left hfrom hdirectory hlookup
    exact ⟨hanchored, hwalk⟩

theorem loop_spec {left : Nat} (hcall : CallSpec vol root fuel left expand) (rounds : Nat) :
    LoopSpec vol root fuel left expand rounds := by
  induction rounds with
  | zero =>
    intro inode n path base s hpath hlength hs hold
    exact absurd (List.length_eq_zero_iff.1 (Nat.le_zero.1 hlength)) hpath
  | succ rounds ih =>
    intro inode n path base s hpath hlength hs hold
    rw [findComponents_succ]
    refine post_bind_ok (inodeAt_run hold) ?_
    by_cases hdirectory : biType (n.inode root).mode = typeDir
    · rw [if_neg (not_not.2 hdirectory)]
      have hdirectory : (vol.names root fuel).isDirectory n = true := decide_eq_true hdirectory
      by_cases hfrom : fromName slash path = []
      · -- nothing but slashes is left
        rw [if_pos hfrom, post_pure]
        obtain ⟨hwalk, hanchored⟩ := walkPath_separators left hpath hfrom hdirectory
        exact ⟨hanchored, hs, le_rfl, ⟨some n, hwalk, hold⟩,
          fun b hb => .inr ⟨Option.some.inj hb, hfrom⟩⟩
      · rw [if_neg hfrom]
        have hrest : (afterName slash path).length ≤ rounds := by
          have := afterName_length_lt hfrom
          omega
        suffices h : Post _ s (Finds vol base s.next (fun b => s.next ≤ b) _ _) (Stops _ _) from
          h.mono (fun r s' h => ⟨h.anchored, h.ready, h.first_le, h.holding,
            fun b hb => .inl (h.found b hb)⟩) fun e s' => id
        refine post_onDisk (biFindEntryInDirectory_settled _ _ _ _) hs.steady
          (fun entry disk hentry hdisk => ?_) fun e disk hentry => ?_
        · cases entry with
          | none =>
            obtain ⟨hwalk, hanchored⟩ :=
              walkPath_missing left hfrom hdirectory (lookup_none hentry)
            exact free_none (s := { s with disk }) ⟨hdisk, hs.fresh⟩ le_rfl hold hwalk hanchored
          | some number =>
            exact entry_post hcall ih hrest (s := { s with disk }) ⟨hdisk, hs.fresh⟩ hold hfrom
              hdirectory hentry
        · obtain ⟨hwalk, hanchored⟩ :=
            walkPath_failed left hfrom hdirectory (lookup_error hentry)
          exact ⟨hanchored, hwalk⟩
    · rw [if_pos hdirectory]
      have hplace : (vol.names root fuel).isDirectory n = false := decide_eq_false hdirectory
      obtain ⟨hwalk, hanchored⟩ := walkPath_place left hpath hplace
      exact free_none hs le_rfl hold hwalk hanchored

theorem biFindInode_spec (left : Nat) :
    CallSpec vol root fuel left (biFindInode vol.fw vol.part vol.fs root fuel left) := by
  induction left with
  | zero =>
    intro inode n path base s hs hold
    show Post (pure none) s _ _
    rw [post_pure]
    have hafter : afterCall 0 path base s.inodes = s.inodes := if_neg fun h => h.1 rfl
    exact ⟨trivial, hs, le_rfl, ⟨none, rfl, hafter.symm⟩, fun b hb => absurd hb (by simp)⟩
  | succ left ih =>
    intro inode n path base s hs hold
    show Post (if path = [] then pure none else _) s _ _
    by_cases hnil : path = []
    · rw [if_pos hnil, post_pure]
      have hafter : afterCall (left + 1) path base s.inodes = s.inodes :=
        if_neg fun h => h.2.1 hnil
      exact ⟨fun h => absurd hnil h, hs, le_rfl, ⟨none, if_pos hnil, hafter.symm⟩,
        fun b hb => absurd hb (by simp)⟩
    · rw [if_neg hnil, resolve_succ hnil, show Anchored _ _ _ _ = _ from propext (anchored_succ hnil)]
      by_cases habsolute : path.head? = some slash
      · rw [if_pos habsolute]
        have hroot : start (vol.names root fuel) n path = .root := if_pos habsolute
        have hafter : afterCall (left + 1) path base s.inodes = s.inodes :=
          if_neg fun h => h.2.2 habsolute
        rw [hroot, hafter]
        have hold' : Holding s.inodes (some .root) (some .root) s.inodes := rfl
        refine (loop_spec ih _ _ _ _ _ s hnil le_rfl hs hold').mono (fun r s' h => ?_) fun _ _ => id
        refine ⟨h.anchored, h.ready, h.first_le, h.holding, fun b hb => ?_⟩
        rcases h.found b hb with hb | ⟨hb, -⟩
        · exact hb
        · exact absurd hb (by simp)
      · rw [if_neg habsolute]
        have hstart : start (vol.names root fuel) n path = n := if_neg habsolute
        have hafter : afterCall (left + 1) path base s.inodes = base :=
          if_pos ⟨Nat.succ_ne_zero _, hnil, habsolute⟩
        rw [hstart, hafter]
        refine (loop_spec ih _ _ _ _ _ s hnil le_rfl hs hold).mono (fun r s' h => ?_) fun _ _ => id
        refine ⟨h.anchored, h.ready, h.first_le, h.holding, fun b hb => ?_⟩
        rcases h.found b hb with hb | ⟨-, hfrom⟩
        · exact hb
        · -- a path that does not start with a slash has a name
          cases path with
          | nil => exact absurd rfl hnil
          | cons x path =>
            unfold fromName at hfrom
            rw [List.dropWhile_cons_of_neg (by simpa using habsolute)] at hfrom
            exact absurd hfrom (List.cons_ne_nil _ _)

end

end XrLinux.Bootloader
