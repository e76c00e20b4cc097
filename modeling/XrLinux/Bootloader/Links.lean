import XrLinux.Bootloader.FindInode

/-!
# Bootloader — the targets of symbolic links

ext2 keeps the target of a link in the inode itself, where the block numbers would be, when it is
shorter than 60 bytes. `BiFindInode` reads every target with `BiReadFromInode`, so that it takes the
first letters of a short one for the number of a block.
-/

namespace XrLinux.Bootloader

open Prog ByteMemory

/-- `sizeof(DirectBlocks) + sizeof(IndirectBlocks)`. -/
def fastTargetSize : Nat := 60

section
variable (fw : Firmware) (part : BlPartition) (fs : Fs)

/-- The loop of `BiReadFromInode`, with any function for `BiGetInodeBlockBase`. -/
def readBlocksWith (blockBase : Nat → DiskProg Nat) (bypassCache : Bool) :
    Nat → ByteMemory → Nat → Nat → Nat → DiskProg ByteMemory
  | 0, _, _, _, _ => Prog.stop .diverges
  | fuel + 1, m, buffer, size, position =>
    if size = 0 then pure m
    else do
      let block := shr64 position fs.blockSizeShift
      let offset := position &&& (fs.blockSize - 1)
      let current := min size (fs.blockSize - offset)
      let blockBase' := shl64 (← blockBase block) fs.blockSizeShift
      let m ←
        if blockBase' ≠ 0 then
          blReadFromPartition fw part m buffer (add64 blockBase' offset) current bypassCache
        else pure (m.put buffer current fun _ => 0)
      readBlocksWith blockBase bypassCache fuel m (buffer + current) (size - current)
        (add64 position current)

/-- What `BiFindInode` reads of a link, with any function for `BiGetInodeBlockBase`. -/
def readTargetWith (blockBase : Nat → DiskProg Nat) (inode : BiInode) :
    DiskProg (List (BitVec 8)) := do
  let size := biInodeSize fs inode % 4294967296
  let linkPath ← readBlocksWith fw part fs blockBase false (size + 1) (fun _ => 0) 0 size 0
  return bytesOf linkPath size

end

section
variable {fw : Firmware} {part : BlPartition} {fs : Fs} {inode : BiInode}

theorem readInodeBlocks_eq (bypassCache : Bool) (fuel : Nat) (m : ByteMemory)
    (buffer size position : Nat) :
    readInodeBlocks fw part fs inode bypassCache fuel m buffer size position =
      readBlocksWith fw part fs (biGetInodeBlockBase fw part fs inode) bypassCache fuel m buffer size
        position := by
  induction fuel generalizing m buffer size position with
  | zero => rfl
  | succ fuel ih =>
    unfold readInodeBlocks readBlocksWith
    simp only [ih]

theorem readTarget_eq :
    readTarget fw part fs inode =
      readTargetWith fw part fs (biGetInodeBlockBase fw part fs inode) inode := by
  unfold readTarget readTargetWith biReadFromInode
  simp only [readInodeBlocks_eq]

/-- The first byte of a target, unless there is none, is looked for in a block. -/
theorem readTargetWith_stop (hsize : biInodeSize fs inode % 4294967296 ≠ 0) (reason : String) :
    readTargetWith fw part fs (fun _ => Prog.stop (.crash reason)) inode =
      Prog.stop (.crash reason) := by
  unfold readTargetWith readBlocksWith
  dsimp only
  rw [if_neg hsize]
  rfl

theorem readTargetWith_empty (hsize : biInodeSize fs inode % 4294967296 = 0)
    (blockBase : Nat → DiskProg Nat) : readTargetWith fw part fs blockBase inode = pure [] := by
  unfold readTargetWith
  dsimp only
  rw [hsize]
  rfl

end

/-- The target as the filesystem stores it: in the inode when it is short, else in the blocks of the
file. -/
def Volume.linkTarget (vol : Volume) (bytes : ByteMemory) (map : Nat → Nat) : List (BitVec 8) :=
  let size := biInodeSize vol.fs (.ofBytes bytes)
  if size < fastTargetSize then (List.range size).map fun i => bytes (40 + i)
  else bytesOf (vol.fileByte map) size

/-- The text that is followed is the target, and of a target in the inode nothing is a block number:
whatever says which block a block of the file is, is not asked. -/
structure LinkFollowed (vol : Volume) (bytes : ByteMemory) (map : Nat → Nat) : Prop where
  text : ∀ s, vol.Steady s → Returns (readTarget vol.fw vol.part vol.fs (.ofBytes bytes)) s
    fun r s' => vol.Steady s' ∧ r = vol.linkTarget bytes map
  noBlocks : biInodeSize vol.fs (.ofBytes bytes) < fastTargetSize →
    ∀ blockBase blockBase' : Nat → DiskProg Nat,
      readTargetWith vol.fw vol.part vol.fs blockBase (.ofBytes bytes) =
        readTargetWith vol.fw vol.part vol.fs blockBase' (.ofBytes bytes)

section
variable {vol : Volume} {bytes : ByteMemory} {map : Nat → Nat}

theorem linkFollowed_empty (hsize : biInodeSize vol.fs (.ofBytes bytes) = 0) :
    LinkFollowed vol bytes map := by
  have hempty := @readTargetWith_empty vol.fw vol.part vol.fs (.ofBytes bytes) (by rw [hsize])
  refine ⟨fun s hs => ?_, fun _ blockBase blockBase' => by rw [hempty, hempty]⟩
  have htarget : vol.linkTarget bytes map = [] := by
    unfold Volume.linkTarget
    rw [hsize]
    rfl
  rw [readTarget_eq, hempty, htarget]
  exact ⟨hs, rfl⟩

theorem linkFollowed_slow (hmaps : vol.Maps (.ofBytes bytes) map)
    (hslow : fastTargetSize ≤ biInodeSize vol.fs (.ofBytes bytes))
    (hsize : biInodeSize vol.fs (.ofBytes bytes) < 4294967296) : LinkFollowed vol bytes map := by
  refine ⟨fun s hs => ?_, fun hfast => absurd hfast (not_lt.2 hslow)⟩
  unfold Volume.linkTarget
  dsimp only
  rw [if_neg (not_lt.2 hslow)]
  exact readTarget_returns (.of_maps hmaps) hsize hs

/-- Any other short target has its first letters taken for a block. -/
theorem not_linkFollowed_fast (hpos : biInodeSize vol.fs (.ofBytes bytes) ≠ 0)
    (hfast : biInodeSize vol.fs (.ofBytes bytes) < fastTargetSize) : ¬LinkFollowed vol bytes map := by
  intro h
  have hsize : biInodeSize vol.fs (.ofBytes bytes) % 4294967296 ≠ 0 := by
    unfold fastTargetSize at hfast
    omega
  have hsame := h.noBlocks hfast (fun _ => Prog.stop (.crash "one")) fun _ => Prog.stop (.crash "other")
  rw [readTargetWith_stop hsize, readTargetWith_stop hsize] at hsame
  have hstop := congrArg (fun p : DiskProg (List (BitVec 8)) => (p.run .init).1) hsame
  exact absurd hstop (by simp [Prog.stop, Prog.run])

/-- A target of 4 GiB is cut off where a `size_t` ends. -/
theorem not_linkFollowed_large (hsize : 4294967296 ≤ biInodeSize vol.fs (.ofBytes bytes)) :
    ¬LinkFollowed vol bytes map := by
  intro h
  have hcut : Post (readTarget vol.fw vol.part vol.fs (.ofBytes bytes)) .init
      (fun r _ => r.length = biInodeSize vol.fs (.ofBytes bytes) % 4294967296) fun _ _ => True := by
    unfold readTarget
    refine Post.bind (Post.trivial _ _) fun m s' _ => ?_
    show (bytesOf m _).length = _
    rw [bytesOf, List.length_map, List.length_range]
  obtain ⟨r, s', hrun, -, hr⟩ := returns_iff.1 (h.text .init vol.steady_init)
  have hlength := hcut.of_run_ok hrun
  have htarget : (vol.linkTarget bytes map).length = biInodeSize vol.fs (.ofBytes bytes) := by
    unfold Volume.linkTarget
    dsimp only
    rw [if_neg (by unfold fastTargetSize; omega), bytesOf, List.length_map, List.length_range]
  rw [hr, htarget] at hlength
  have := Nat.mod_lt (biInodeSize vol.fs (.ofBytes bytes)) (show 4294967296 > 0 by decide)
  omega

end

/-- Exactly which links are followed, when the blocks of a long target have their places. -/
theorem linkFollowed_iff {vol : Volume} {bytes : ByteMemory} {map : Nat → Nat}
    (hmaps : fastTargetSize ≤ biInodeSize vol.fs (.ofBytes bytes) → vol.Maps (.ofBytes bytes) map) :
    LinkFollowed vol bytes map ↔ biInodeSize vol.fs (.ofBytes bytes) = 0 ∨
      (fastTargetSize ≤ biInodeSize vol.fs (.ofBytes bytes) ∧
        biInodeSize vol.fs (.ofBytes bytes) < 4294967296) := by
  constructor
  · intro h
    by_contra hout
    rw [not_or, not_and_or, not_le, not_lt] at hout
    obtain ⟨hpos, hfast | hlarge⟩ := hout
    · exact not_linkFollowed_fast hpos hfast h
    · exact not_linkFollowed_large hlarge h
  · rintro (hempty | ⟨hslow, hsize⟩)
    · exact linkFollowed_empty hempty
    · exact linkFollowed_slow (hmaps hslow) hslow hsize

/-- A link with this size and this first word where its blocks are. -/
def linkInode (size block : Nat) : ByteMemory :=
  write32 (write32 (write16 (fun _ => 0) 0 typeSym) 4 size) 40 block

/-- A target of 64 bytes, in a block. -/
theorem linkFollowed_iff_slow :
    LinkFollowed linkVolume (linkInode 64 6) (BiInode.ofBytes (linkInode 64 6)).directBlocks := by
  have hsize : biInodeSize linkVolume.fs (.ofBytes (linkInode 64 6)) = 64 := by decide +kernel
  rw [linkFollowed_iff fun _ => .of_direct ?_ ?_ ?_, hsize]
  · decide
  · rw [linkVolume_shift]
    decide
  · rw [linkVolume_shift, hsize]
    decide
  · unfold Volume.HasBlock
    decide +kernel

/-- A link to `b`. The letter is taken for a block, and the volume has no block of that number. -/
theorem linkFollowed_fast_fails :
    outcome (readTarget linkVolume.fw linkVolume.part linkVolume.fs (.ofBytes (linkInode 1 0x62))) =
        .error (.crash "tried to read beyond partition bounds") ∧
      ¬LinkFollowed linkVolume (linkInode 1 0x62) fun _ => 0 := by
  have hsize : biInodeSize linkVolume.fs (.ofBytes (linkInode 1 0x62)) = 1 := by decide +kernel
  refine ⟨rfl, not_linkFollowed_fast ?_ ?_⟩
  · rw [hsize]
    decide
  · rw [hsize]
    decide

end XrLinux.Bootloader
