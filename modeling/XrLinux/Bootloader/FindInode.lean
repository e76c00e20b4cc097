import XrLinux.Bootloader.Directories

/-!
# Bootloader — `BiFindInode` and `BlFsFind`

What the two are to be: every inode is freed once, and a path leads where the names on the volume
say. Both hold exactly when no relative link is followed from a directory other than `BiRoot`.
-/

namespace XrLinux.Bootloader

open Prog ByteMemory PathResolution

/-! ## Where paths lead -/

namespace Volume.Graph

variable {vol : Volume} (g : vol.Graph)

/-- Where a path leads from an inode of the graph. -/
def find (left : Nat) (k : Nat) (path : List (BitVec 8)) : Option Nat :=
  match resolve g.names left k path with
  | .ok m => m
  | .error _ => none

/-- The inode in the graph that a reference stands for. -/
def At (s : FsState) : InodeRef → Option Nat → Prop
  | .root, n => n = none
  | .heap b, n => ∃ k, n = some k ∧ g.Mem k ∧ s.inodes b = some (g.content k)

variable {g} {fuel left : Nat} {inode : InodeRef} {n : Option Nat} {path : List (BitVec 8)}
  {s : FsState}

theorem resolve_names : resolve g.names left (n.getD biRootInode) path =
    (resolve g.names.copies left n path).map (Option.map (·.getD biRootInode)) :=
  g.names.copies_agrees.resolve_eq path left trivial

theorem resolve_find : ∃ m, resolve g.names.copies left n path = .ok m ∧
    g.find left (n.getD biRootInode) path = m.map (·.getD biRootInode) := by
  have hlookup : ∀ n name, ∃ entry, g.names.copies.lookup n name = .ok entry :=
    fun n name => ⟨_, copies_lookup n name⟩
  obtain ⟨m, hm⟩ := resolve_ok hlookup left n path
  refine ⟨m, hm, ?_⟩
  unfold find
  rw [resolve_names, hm]
  rfl

theorem place_eq_root_iff (n : Option Nat) : g.place n = .root ↔ n = none := by
  cases n with
  | none => exact ⟨fun _ => rfl, fun _ => rfl⟩
  | some k => exact ⟨Place.noConfusion, fun h => by cases h⟩

end Volume.Graph

/-! ## A volume with a link

`/a` is a directory, with a file `b` and a link `l` to `b`. -/

def linkDisk : ByteMemory :=
  -- the superblock and the block group
  [(1064, 8), (1080, 0xef53), (2056, 3),
    -- `/`, `/a`, `/a/l` and `/a/b`
    (3200, 0x4000), (3204, 1024), (3240, 4), (3328, 0x4000), (3332, 1024), (3368, 5),
    (3456, 0xa000), (3460, 1), (3496, 6), (3584, 0x8000),
    -- their blocks
    (4096, 3), (4100, 66560), (4104, 0x61),
    (5120, 4), (5124, 65548), (5128, 0x6c), (5132, 5), (5136, 66548), (5140, 0x62),
    (6144, 0x62)].foldl (fun m (word : Nat × Nat) => m.write32 word.1 word.2) fun _ => 0

def linkVolume : Volume where
  fw := .ofImage linkDisk 64 (by decide)
  disk := linkDisk
  serves := Firmware.ofImage_serves _ _ _
  entry := { bootIndicator := 0, type := 0x83, startingLba := 0, sizeInLba := 64 }
  onDisk := by decide
  fits := by decide
  accepted := by decide +kernel
  inodes_pos := by decide +kernel

/-- What there is at last, if anything. -/
def contentOf : Except Stop BiInode → BiInode
  | .ok content => content
  | .error _ => .ofBytes fun _ => 0

theorem eq_ok_contentOf {r : Except Stop BiInode} (h : r.isOk = true) : r = .ok (contentOf r) := by
  cases r with
  | ok content => rfl
  | error e => cases h

/-- The inodes as they are read. -/
def linkContent (k : Nat) : BiInode :=
  contentOf (outcome (biReadInode linkVolume.fw linkVolume.part linkVolume.fs k))

/-- The blocks of the volume, and its inodes with their types and sizes. -/
theorem linkVolume_content : linkVolume.shift = 10 ∧
    (∀ k ∈ [2, 3, 4, 5],
      (outcome (biReadInode linkVolume.fw linkVolume.part linkVolume.fs k)).isOk = true) ∧
    (biType (linkContent 2).mode = typeDir ∧ biType (linkContent 3).mode = typeDir ∧
      biType (linkContent 4).mode = typeSym ∧ biType (linkContent 5).mode = typeReg) ∧
    biInodeSize linkVolume.fs (linkContent 2) = 1024 ∧
    biInodeSize linkVolume.fs (linkContent 3) = 1024 ∧
    biInodeSize linkVolume.fs (linkContent 4) = 1 := by
  decide +kernel

theorem linkVolume_shift : linkVolume.shift = 10 := linkVolume_content.1

theorem linkContent_read {k : Nat} (hk : k = 2 ∨ k = 3 ∨ k = 4 ∨ k = 5) :
    outcome (biReadInode linkVolume.fw linkVolume.part linkVolume.fs k) = .ok (linkContent k) := by
  exact eq_ok_contentOf (linkVolume_content.2.1 k (by simpa using hk))

theorem linkContent_maps {k : Nat} (hk : k = 2 ∨ k = 3 ∨ k = 4) :
    linkVolume.Maps (linkContent k) (linkContent k).directBlocks := by
  refine .of_direct ?_ ?_ ?_
  · rw [linkVolume_shift]
    decide
  · rcases hk with rfl | rfl | rfl <;> decide +kernel
  · rcases hk with rfl | rfl | rfl <;> unfold Volume.HasBlock <;> decide +kernel

theorem linkContent_holds {k : Nat} (hk : k = 2 ∨ k = 3 ∨ k = 4) :
    linkVolume.Holds (linkContent k) (linkVolume.fileByte (linkContent k).directBlocks) :=
  .of_maps (linkContent_maps hk)

theorem linkContent_mode : biType (linkContent 2).mode = typeDir ∧
    biType (linkContent 3).mode = typeDir ∧ biType (linkContent 4).mode = typeSym ∧
    biType (linkContent 5).mode = typeReg := linkVolume_content.2.2.1

theorem linkContent_size : biInodeSize linkVolume.fs (linkContent 2) = 1024 ∧
    biInodeSize linkVolume.fs (linkContent 3) = 1024 ∧
    biInodeSize linkVolume.fs (linkContent 4) = 1 := linkVolume_content.2.2.2

theorem linkRecords_root : Records (linkVolume.fileByte (linkContent 2).directBlocks)
    linkVolume.fs.hasDirTypes 1024 0 [([0x61], 3)] := by
  refine .of_used ?_ (show _ = 1024 from ?_) ?_ ?_ ?_ (.inr ?_) .done <;> decide +kernel

theorem linkRecords_directory : Records (linkVolume.fileByte (linkContent 3).directBlocks)
    linkVolume.fs.hasDirTypes 1024 0 [([0x6c], 4), ([0x62], 5)] := by
  have hfile : Records (linkVolume.fileByte (linkContent 3).directBlocks)
      linkVolume.fs.hasDirTypes 1024 12 [([0x62], 5)] := by
    refine .of_used ?_ (show _ = 1012 from ?_) ?_ ?_ ?_ (.inr ?_) .done <;> decide +kernel
  refine .of_used ?_ (show _ = 12 from ?_) ?_ ?_ ?_ (.inr ?_) hfile <;> decide +kernel

/-- Its graph. -/
def linkGraph : linkVolume.Graph where
  Mem k := k = 2 ∨ k = 3 ∨ k = 4 ∨ k = 5
  content := linkContent
  entries k := if k = 2 then [([0x61], 3)] else [([0x6c], 4), ([0x62], 5)]
  target _ := [0x62]
  root_mem := .inl rfl
  read _ hk := linkContent_read hk
  directory k hk hdirectory := by
    obtain ⟨-, -, hlink, hfile⟩ := linkContent_mode
    obtain ⟨hroot, hdir, -⟩ := linkContent_size
    rcases hk with rfl | rfl | rfl | rfl
    · exact ⟨_, linkContent_holds (.inl rfl), hroot ▸ linkRecords_root⟩
    · exact ⟨_, linkContent_holds (.inr (.inl rfl)), hdir ▸ linkRecords_directory⟩
    · exact absurd (hlink.symm.trans hdirectory) (by decide)
    · exact absurd (hfile.symm.trans hdirectory) (by decide)
  closed k hk hdirectory entry hentry := by
    split at hentry
    · rw [List.mem_singleton.1 hentry]
      exact .inr (.inl rfl)
    · rcases List.mem_cons.1 hentry with rfl | hentry
      · exact .inr (.inr (.inl rfl))
      · rw [List.mem_singleton.1 hentry]
        exact .inr (.inr (.inr rfl))
  link k hk hlink := by
    obtain ⟨hroot, hdir, -, hfile⟩ := linkContent_mode
    obtain ⟨-, -, hsize⟩ := linkContent_size
    rcases hk with rfl | rfl | rfl | rfl
    · exact absurd (hroot.symm.trans hlink) (by decide)
    · exact absurd (hdir.symm.trans hlink) (by decide)
    · have htext : bytesOf (linkVolume.fileByte (linkContent 4).directBlocks) 1 = [0x62] := by
        decide +kernel
      rw [← htext, ← hsize]
      exact outcome_of_returns fun s hs =>
        readTarget_returns (linkContent_holds (.inr (.inr rfl))) (by rw [hsize]; decide) hs
    · exact absurd (hfile.symm.trans hlink) (by decide)

section
variable {left : Nat}

theorem linkGraph_lookup {n : Option Nat} {name : List (BitVec 8)} {k : Nat}
    (hk : lookupName (linkGraph.entries (n.getD biRootInode)) name = some k) :
    linkGraph.names.copies.lookup n name = .ok (some ((linkGraph.entry k).map some)) := by
  rw [Volume.Graph.copies_lookup, hk]
  rfl

theorem linkGraph_directory : linkGraph.names.copies.isDirectory none = true ∧
    linkGraph.names.copies.isDirectory (some 3) = true :=
  ⟨decide_eq_true linkContent_mode.1, decide_eq_true linkContent_mode.2.1⟩

theorem linkGraph_place : linkGraph.entry 3 = .place 3 ∧ linkGraph.entry 4 = .link [0x62] := by
  obtain ⟨-, hdir, hlink, -⟩ := linkContent_mode
  exact ⟨if_neg fun h => absurd (hdir.symm.trans h) (by decide), if_pos hlink⟩

/-- The way into the directory. -/
theorem linkGraph_walk {rest : List (BitVec 8)} (hrest : rest = [] ∨ rest.head? = some slash) :
    Anchored linkGraph.names.copies (left + 1) none (0x61 :: rest) ↔
      walkRestAnchored linkGraph.names.copies left rest (some (some 3)) := by
  have hafter : afterName slash (0x61 :: rest) = rest ∧ firstName slash (0x61 :: rest) = [0x61] := by
    rcases hrest with rfl | hrest
    · exact ⟨by decide, by decide⟩
    · cases rest with
      | nil => cases hrest
      | cons x rest =>
        obtain rfl : x = slash := Option.some.inj hrest
        exact ⟨rfl, rfl⟩
  have hfrom : fromName slash (0x61 :: rest) ≠ [] := List.cons_ne_nil _ _
  have hlookup : linkGraph.names.copies.lookup none (firstName slash (0x61 :: rest)) =
      .ok (some (.place (some 3))) := by
    rw [hafter.2, linkGraph_lookup rfl, linkGraph_place.1]
    rfl
  have hstart : start linkGraph.names.copies none (0x61 :: rest) = none := ite_self _
  obtain ⟨-, hfound⟩ := walkPath_found left hfrom linkGraph_directory.1 hlookup
  rw [anchored_succ (List.cons_ne_nil _ _), hstart, hfound]
  exact iff_of_eq (congrArg (walkRestAnchored _ left · _) hafter.1)

theorem linkGraph_anchored : Anchored linkGraph.names.copies maxSymlinks none [0x61] :=
  (linkGraph_walk (.inl rfl)).2 walkPathAnchored_nil

/-- The link is neither in the root nor absolute. -/
theorem linkGraph_not_anchored : ¬Anchored linkGraph.names.copies maxSymlinks none [0x61, 0x2f, 0x6c] := by
  intro h
  have hrest : walkPathAnchored linkGraph.names.copies 4 (some 3) [0x2f, 0x6c] :=
    (linkGraph_walk (.inr rfl)).1 h
  have hfrom : fromName slash [0x2f, 0x6c] ≠ [] := by decide
  have hlookup : linkGraph.names.copies.lookup (some 3) (firstName slash [0x2f, 0x6c]) =
      .ok (some (.link [0x62])) := by
    rw [show firstName slash [0x2f, 0x6c] = [0x6c] by decide, linkGraph_lookup rfl,
      linkGraph_place.2]
    rfl
  obtain ⟨-, hlink⟩ := walkPath_link 4 hfrom linkGraph_directory.2 hlookup
  obtain ⟨m, hm, -⟩ := @Volume.Graph.resolve_find _ linkGraph 4 (some 3) [0x62]
  rcases ((hlink.1 hrest).2 m hm).1 with hzero | hnil | habsolute | hroot
  · cases hzero
  · cases hnil
  · exact absurd habsolute (by decide)
  · cases hroot

end

theorem linkVolume_anchored_iff (path : List (BitVec 8)) :
    Anchored (linkVolume.names (linkContent 2) 536870912) maxSymlinks .root path ↔
      Anchored linkGraph.names.copies maxSymlinks none path := by
  have hagree := @Volume.Graph.names_agree linkVolume linkGraph 536870912 (Nat.le_refl _)
  exact hagree.anchored_iff path (fun n _ => Volume.Graph.place_eq_root_iff n) maxSymlinks
    hagree.root_mem

/-! ## Ownership -/

/-- A caller that is done with the file at once. -/
def findThenFree (vol : Volume) (root : BiInode) (fuel : Nat) (path : List (BitVec 8)) :
    FsProg Unit := do
  match ← blFsFind vol.fw vol.part vol.fs root fuel path with
  | none => return ()
  | some inode => blFsFree inode

/-- The blocks are those that were there before, and the one that was found. -/
def OneFound (before : Nat → Option BiInode) (r : Option InodeRef) (s : FsState) : Prop :=
  match r with
  | none | some .root => s.inodes = before
  | some (.heap b) => before b = none ∧ ∃ content, s.inodes = Function.update before b (some content)

/-- No inode is freed or read that has been freed before, and `BiRoot` is not freed at all. -/
def OwnershipKept (e : FsStop) (_ : FsState) : Prop := e ≠ .invalidFree ∧ e ≠ .invalidRead

/-- Every inode that is allocated is freed once, by `BlFsFind` or, if it is the result, by
`BlFsFree`. -/
structure FreedOnce (vol : Volume) (root : BiInode) (fuel : Nat) (path : List (BitVec 8))
    (s : FsState) : Prop where
  find : Post (blFsFind vol.fw vol.part vol.fs root fuel path) s (OneFound s.inodes) OwnershipKept
  free : Post (findThenFree vol root fuel path) s (fun _ s' => s'.inodes = s.inodes) OwnershipKept

section
variable {vol : Volume} {root : BiInode} {fuel : Nat} {path : List (BitVec 8)} {s : FsState}
  {base : Nat → Option BiInode} {r : Option InodeRef} {m : Option Place}

theorem oneFound_of_holding (h : Holding base r m s.inodes) : OneFound base r s := by
  rcases r with _ | _ | b
  · rcases m with _ | m
    · exact h
    · exact h.elim
  · rcases m with _ | _ | i
    · exact h.elim
    · exact h
    · exact h.elim
  · rcases m with _ | _ | i
    · exact h.elim
    · exact h.elim
    · exact ⟨h.1, i, h.2⟩

/-- How `BlFsFind` can stop. -/
def FindStops (anchored : Prop) : FsStop → FsState → Prop
  | .stop _, _ => anchored
  | .invalidFree, _ => ¬anchored
  | .invalidRead, _ => False

theorem Holding.some_right {inode : InodeRef} {inodes : Nat → Option BiInode}
    (h : Holding base (some inode) m inodes) : ∃ n, m = some n := by
  cases m with
  | none => cases inode <;> exact h.elim
  | some n => exact ⟨n, rfl⟩

theorem blFsFind_post (hs : s.Ready vol) :
    Post (blFsFind vol.fw vol.part vol.fs root fuel path) s
      (fun r s' => Anchored (vol.names root fuel) maxSymlinks .root path ∧
        ∃ m, Holding s.inodes r m s'.inodes)
      (FindStops (Anchored (vol.names root fuel) maxSymlinks .root path)) := by
  have hold : Holding s.inodes (some .root) (some .root) s.inodes := rfl
  have hafter : afterCall maxSymlinks path s.inodes s.inodes = s.inodes := ite_self _
  have hcall := @biFindInode_spec vol root fuel maxSymlinks .root .root path s.inodes s hs hold
  rw [hafter] at hcall
  unfold blFsFind
  rw [post_bind]
  refine hcall.mono (fun r s' h => ?_) fun e s' h => ?_
  · obtain ⟨m, -, hold'⟩ := h.holding
    cases r with
    | none => exact ⟨h.anchored, m, hold'⟩
    | some inode =>
      obtain ⟨n, rfl⟩ := hold'.some_right
      refine post_bind_ok (inodeAt_run hold') ?_
      by_cases hreg : biType (n.inode root).mode = typeReg
      · rw [if_neg (not_not.2 hreg), post_pure]
        exact ⟨h.anchored, some n, hold'⟩
      · rw [if_pos hreg]
        have hnone : Holding s'.inodes none none s'.inodes := rfl
        obtain ⟨inodes', hrun, hold'', -⟩ := free_run hold' hnone
        refine post_bind_ok hrun ?_
        rw [post_pure]
        exact ⟨h.anchored, none, hold''⟩
  · cases e with
    | stop e => exact h.1
    | invalidFree => exact h
    | invalidRead => exact h

theorem findThenFree_post (hs : s.Ready vol) :
    Post (findThenFree vol root fuel path) s
      (fun _ s' => Anchored (vol.names root fuel) maxSymlinks .root path ∧ s'.inodes = s.inodes)
      (FindStops (Anchored (vol.names root fuel) maxSymlinks .root path)) := by
  refine (blFsFind_post hs).bind ?_
  rintro r s' ⟨hanchored, m, hold⟩
  cases r with
  | none =>
    cases m with
    | none => exact ⟨hanchored, hold⟩
    | some n => exact hold.elim
  | some inode =>
    obtain ⟨n, rfl⟩ := hold.some_right
    have hnone : Holding s'.inodes none none s'.inodes := rfl
    obtain ⟨inodes', hrun, hold', -⟩ := free_run hold hnone
    show Post (biMaybeFreeInode inode) s' _ _
    unfold Post
    rw [hrun]
    exact ⟨hanchored, hold'⟩

theorem freedOnce_of_anchored (hs : s.Ready vol)
    (hanchored : Anchored (vol.names root fuel) maxSymlinks .root path) :
    FreedOnce vol root fuel path s := by
  have hstop : ∀ e s', FindStops (Anchored (vol.names root fuel) maxSymlinks .root path) e s' →
      OwnershipKept e s' := by
    intro e s' h
    cases e with
    | stop e => exact ⟨FsStop.noConfusion, FsStop.noConfusion⟩
    | invalidFree => exact absurd hanchored h
    | invalidRead => exact h.elim
  refine ⟨(blFsFind_post hs).mono (fun r s' h => ?_) hstop, ?_⟩
  · obtain ⟨-, m, hold⟩ := h
    exact oneFound_of_holding hold
  · exact (findThenFree_post hs).mono (fun r s' h => h.2) hstop

theorem anchored_of_freedOnce (hs : s.Ready vol) (h : FreedOnce vol root fuel path s) :
    Anchored (vol.names root fuel) maxSymlinks .root path := by
  have hpost := @blFsFind_post vol root fuel path s hs
  cases hrun : (blFsFind vol.fw vol.part vol.fs root fuel path).run s with
  | mk r s' =>
    cases r with
    | ok r => exact (hpost.of_run_ok hrun).1
    | error e =>
      have hstop := hpost.of_run_error hrun
      have hkept := h.find.of_run_error hrun
      cases e with
      | stop e => exact hstop
      | invalidFree => exact absurd rfl hkept.1
      | invalidRead => exact absurd rfl hkept.2

theorem not_freedOnce (hs : s.Ready vol)
    (hanchored : ¬Anchored (vol.names root fuel) maxSymlinks .root path) :
    ¬FreedOnce vol root fuel path s :=
  mt (anchored_of_freedOnce hs) hanchored

/-- Exactly when the inodes are freed once, whatever is on the volume. -/
theorem blFsFind_freedOnce_iff (hs : s.Ready vol) :
    FreedOnce vol root fuel path s ↔ Anchored (vol.names root fuel) maxSymlinks .root path :=
  ⟨anchored_of_freedOnce hs, freedOnce_of_anchored hs⟩

end

/-- The directory itself. -/
theorem blFsFind_freedOnce_iff_directory :
    FreedOnce linkVolume (linkContent 2) 536870912 [0x61] .init := by
  rw [blFsFind_freedOnce_iff (FsState.init_ready _), linkVolume_anchored_iff]
  exact linkGraph_anchored

/-- The link in it. -/
theorem blFsFind_link_fails :
    ¬FreedOnce linkVolume (linkContent 2) 536870912 [0x61, 0x2f, 0x6c] .init := by
  refine not_freedOnce (FsState.init_ready _) ?_
  rw [linkVolume_anchored_iff]
  exact linkGraph_not_anchored

/-! ## Resolution -/

section
variable {vol : Volume} {g : vol.Graph} {fuel left : Nat} {inode : InodeRef} {n : Option Nat}
  {path : List (BitVec 8)} {s : FsState}

end

end XrLinux.Bootloader
