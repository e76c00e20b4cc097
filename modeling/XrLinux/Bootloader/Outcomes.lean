import XrLinux.Bootloader.Path

/-!
# Bootloader — what a volume has to say

On a partition that lies on the disk, every read is either inside, and delivers what the disk holds,
or refused. So what the functions on top of it come to depends on the volume alone, not on what the
cache holds when they are called: `outcome` is their result from the first state, and from every
other.
-/

namespace XrLinux.Bootloader

open Prog ByteMemory

/-- What a program comes to on the volume. -/
def outcome {α : Type} (p : DiskProg α) : Except Stop α := (p.run .init).1

section
variable {vol : Volume} {α : Type} {p : DiskProg α}

theorem Volume.steady_init (vol : Volume) : vol.Steady .init := ⟨[], DiskState.init_ready _ _⟩

theorem outcome_eq (h : Settled vol.Steady p) {s : DiskState} (hs : vol.Steady s) :
    (p.run s).1 = outcome p :=
  h.outcome_eq hs vol.steady_init

theorem outcome_of_returns {a : α}
    (h : ∀ s, vol.Steady s → Returns p s fun a' s' => vol.Steady s' ∧ a' = a) :
    outcome p = .ok a := by
  obtain ⟨a', s', hrun, -, rfl⟩ := returns_iff.1 (h .init vol.steady_init)
  unfold outcome
  rw [hrun]

/-- A program on the disk, and what comes after it. -/
theorem post_onDisk {β : Type} {f : α → FsProg β} {s : FsState} {Q : β → FsState → Prop}
    {E : FsStop → FsState → Prop} (h : Settled vol.Steady p) (hs : vol.Steady s.disk)
    (hok : ∀ a disk, outcome p = .ok a → vol.Steady disk → Post (f a) { s with disk } Q E)
    (herror : ∀ e disk, outcome p = .error e → E (.stop e) { s with disk }) :
    Post (onDisk p >>= f) s Q E := by
  have houtcome := outcome_eq h hs
  have hsurvives := h.survives hs
  cases hrun : p.run s.disk with
  | mk r disk =>
    rw [hrun] at houtcome hsurvives
    cases r with
    | ok a =>
      have honDisk : (onDisk p).run s = (.ok a, { s with disk }) := by
        show onDisk p s = _
        simp only [onDisk, hrun]
      exact post_bind_ok honDisk (hok a disk houtcome.symm hsurvives)
    | error e =>
      have honDisk : (onDisk p).run s = (.error (.stop e), { s with disk }) := by
        show onDisk p s = _
        simp only [onDisk, hrun]
      exact post_bind_error honDisk (herror e disk houtcome.symm)

/-! ## The functions that only read -/

theorem blReadFromPartition_settled (m : ByteMemory) (buffer position : Nat) {count : Nat}
    (hcount : count < 9223372036854775808) :
    Settled vol.Steady (blReadFromPartition vol.fw vol.part m buffer position count false) := by
  by_cases hin : position + count ≤ vol.part.size
  · exact Settled.of_returns fun s hs =>
      blReadFromPartition_returns hs hin fun h => Bool.noConfusion h
  · have hsize := vol.size_lt
    have hrefused : blReadFromPartition vol.fw vol.part m buffer position count false =
        Prog.stop (.crash "tried to read beyond partition bounds") := by
      unfold blReadFromPartition
      refine if_pos ?_
      unfold add64
      omega
    rw [hrefused]
    exact Settled.stop _

theorem readStruct_settled (position : Nat) {count : Nat} (hcount : count < 9223372036854775808) :
    Settled vol.Steady (readStruct vol.fw vol.part position count) :=
  blReadFromPartition_settled _ _ _ hcount

theorem biReadInode_settled (fs : Fs) (number : Nat) :
    Settled vol.Steady (biReadInode vol.fw vol.part fs number) := by
  unfold biReadInode
  split
  · exact Settled.stop _
  · refine Settled.bind ?_ fun inodeTableBlock => ?_
    · exact Settled.bind (readStruct_settled _ (by decide)) fun out => Settled.pure _
    · exact Settled.bind (readStruct_settled _ (by decide)) fun out => Settled.pure _

theorem followPointers_settled (fs : Fs) (block level volumeBlock : Nat) :
    Settled vol.Steady (followPointers vol.fw vol.part fs block level volumeBlock) := by
  induction level generalizing volumeBlock with
  | zero => exact Settled.pure _
  | succ level ih =>
    by_cases hnull : volumeBlock = 0
    · subst hnull
      rw [followPointers_null]
      exact Settled.pure _
    · rw [followPointers_succ _ _ _ _ _ hnull]
      refine Settled.bind ?_ fun next => ih next
      exact Settled.bind (readStruct_settled _ (by decide)) fun out => Settled.pure _

theorem biGetInodeBlockBase_settled (fs : Fs) (inode : BiInode) (block : Nat) :
    Settled vol.Steady (biGetInodeBlockBase vol.fw vol.part fs inode block) := by
  unfold biGetInodeBlockBase
  split
  · exact Settled.pure _
  · split
    · exact Settled.stop _
    · exact followPointers_settled _ _ _ _

theorem readInodeBlocks_settled (fs : Fs) (inode : BiInode) (fuel : Nat) (m : ByteMemory)
    (buffer position : Nat) {size : Nat} (hsize : size < 9223372036854775808) :
    Settled vol.Steady
      (readInodeBlocks vol.fw vol.part fs inode false fuel m buffer size position) := by
  induction fuel generalizing m buffer size position with
  | zero => exact Settled.stop _
  | succ fuel ih =>
    unfold readInodeBlocks
    split
    · exact Settled.pure _
    · refine Settled.bind (biGetInodeBlockBase_settled _ _ _) fun block => ?_
      dsimp only
      split
      · exact Settled.bind (blReadFromPartition_settled _ _ _ (by omega)) fun m' =>
          ih _ _ _ (by omega)
      · exact Settled.bind (Settled.pure _) fun m' => ih _ _ _ (by omega)

theorem biReadFromInode_settled (fs : Fs) (inode : BiInode) (m : ByteMemory) (buffer position : Nat)
    {size : Nat} (hsize : size < 9223372036854775808) :
    Settled vol.Steady
      (biReadFromInode vol.fw vol.part fs inode m buffer size position false) :=
  readInodeBlocks_settled _ _ _ _ _ _ hsize

theorem findEntry_settled (fs : Fs) (dir : BiInode) (name : List (BitVec 8)) (fuel offset : Nat) :
    Settled vol.Steady (findEntry vol.fw vol.part fs dir name fuel offset) := by
  induction fuel generalizing offset with
  | zero => exact Settled.stop _
  | succ fuel ih =>
    unfold findEntry
    split
    · exact Settled.pure _
    · refine Settled.bind (biReadFromInode_settled _ _ _ _ _ (by decide)) fun out => ?_
      dsimp only
      split
      · have hlength : (out 6).toNat < 9223372036854775808 := by
          have := (out 6).isLt
          omega
        refine Settled.bind (biReadFromInode_settled _ _ _ _ _ hlength) fun buffer => ?_
        split
        · exact Settled.pure _
        · exact ih _
      · exact ih _

theorem biFindEntryInDirectory_settled (fs : Fs) (fuel : Nat) (dir : BiInode)
    (name : List (BitVec 8)) :
    Settled vol.Steady (biFindEntryInDirectory vol.fw vol.part fs fuel dir name) := by
  unfold biFindEntryInDirectory
  split
  · exact Settled.pure _
  · exact findEntry_settled _ _ _ _ _

theorem readTarget_settled (fs : Fs) (inode : BiInode) :
    Settled vol.Steady (readTarget vol.fw vol.part fs inode) := by
  have hsize : biInodeSize fs inode % 4294967296 < 9223372036854775808 := by omega
  unfold readTarget
  exact Settled.bind (biReadFromInode_settled _ _ _ _ _ hsize) fun linkPath => Settled.pure _

end

end XrLinux.Bootloader
