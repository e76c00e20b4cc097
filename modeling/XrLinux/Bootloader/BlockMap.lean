import XrLinux.Lib.PointerTree
import XrLinux.Bootloader.Ext2
import XrLinux.Bootloader.PartitionReads

/-!
# Bootloader — from the blocks of a file to the blocks of its volume

`BiGetInodeBlockBase` against the pointer trees on the disk. It goes wrong in two ways. The position
of a pointer is a 32-bit sum, so that a pointer block from 4 GiB on is looked for at the beginning of
the volume; and so is the number of blocks of a level, which large blocks make 0, so that no level
is left for the block.
-/

namespace XrLinux.Bootloader

open Prog ByteMemory

/-- A partition on a disk, with a superblock that `BlFsInitialize` gets through. -/
structure Volume where
  fw : Firmware
  disk : ByteMemory
  serves : fw.Serves disk
  entry : MbrPartition
  onDisk : entry.toPartition.start + entry.toPartition.size ≤ fw.diskSize
  fits : superblockOffset + superblockSize ≤ entry.toPartition.size
  accepted : BiSuperblock.Accepted fun i => disk (entry.toPartition.start + superblockOffset + i)
  inodes_pos : 0 < (BiSuperblock.ofBytes fun i =>
    disk (entry.toPartition.start + superblockOffset + i)).blockGroupInodes

namespace Volume

def part (vol : Volume) : BlPartition := vol.entry.toPartition

def superblock (vol : Volume) : BiSuperblock :=
  .ofBytes fun i => vol.disk (vol.part.start + superblockOffset + i)

def fs (vol : Volume) : Fs := .ofSuperblock vol.superblock

def shift (vol : Volume) : Nat := vol.superblock.blockSizeShift

/-- The bytes of the partition. -/
def bytes (vol : Volume) : ByteMemory := fun x => vol.disk (vol.part.start + x)

/-- A pointer in a block of the volume. -/
def pointer (vol : Volume) (block i : Nat) : Nat :=
  vol.bytes.read32 (block * 2 ^ vol.shift + 4 * i)

/-- All of the block is in the partition. -/
def HasBlock (vol : Volume) (block : Nat) : Prop := (block + 1) * 2 ^ vol.shift ≤ vol.part.size

/-- Between reads. -/
def Steady (vol : Volume) (s : DiskState) : Prop := s.Steady vol.disk vol.fw

end Volume

section
variable {vol : Volume} {s : DiskState}

theorem Volume.size_lt (vol : Volume) : vol.part.size < 4294967296 * 512 := by
  have hsize := vol.entry.sizeInLba.isLt
  show vol.entry.sizeInLba.toNat * 512 < _
  omega

end

/-! ## Powers of two in 32 bits -/

theorem two_pow_mod (n : Nat) : 2 ^ n % 4294967296 = if n < 32 then 2 ^ n else 0 := by
  show 2 ^ n % 2 ^ 32 = _
  split
  · rename_i h
    exact Nat.mod_eq_of_lt (Nat.pow_lt_pow_right (by decide) h)
  · rename_i h
    exact Nat.mod_eq_zero_of_dvd (Nat.pow_dvd_pow 2 (not_lt.1 h))

theorem shl32_two_pow {n k : Nat} (hk : k < 32) :
    shl32 (2 ^ n) k = if n + k < 32 then 2 ^ (n + k) else 0 := by
  unfold shl32
  rw [Nat.mod_eq_of_lt hk, ← Nat.pow_add, two_pow_mod]

theorem and_two_pow_sub_one (x n : Nat) : x &&& (2 ^ n - 1) = x % 2 ^ n :=
  Nat.and_two_pow_sub_one_eq_mod x n

/-! ## The level of a block -/

section
variable {superblock : BiSuperblock}

theorem ofSuperblock_indirectionShift (hlo : 2 ≤ superblock.blockSizeShift)
    (hhi : superblock.blockSizeShift < 32) :
    (Fs.ofSuperblock superblock).indirectionShift = superblock.blockSizeShift - 2 := by
  show sub32 superblock.blockSizeShift 2 = _
  unfold sub32
  omega

theorem ofSuperblock_indirectionCount (hlo : 2 ≤ superblock.blockSizeShift)
    (hhi : superblock.blockSizeShift < 32) :
    (Fs.ofSuperblock superblock).indirectionCount = 2 ^ (superblock.blockSizeShift - 2) := by
  have hshift := ofSuperblock_indirectionShift hlo hhi
  show shl32 1 (Fs.ofSuperblock superblock).indirectionShift = _
  rw [hshift]
  have hpow := @shl32_two_pow 0 (superblock.blockSizeShift - 2) (by omega)
  rw [Nat.zero_add, if_pos (by omega)] at hpow
  exact hpow

theorem ofSuperblock_indirectionMask (hlo : 2 ≤ superblock.blockSizeShift)
    (hhi : superblock.blockSizeShift < 32) :
    (Fs.ofSuperblock superblock).indirectionMask = 2 ^ (superblock.blockSizeShift - 2) - 1 := by
  have hcount := ofSuperblock_indirectionCount hlo hhi
  have hlt : 2 ^ (superblock.blockSizeShift - 2) < 2 ^ 32 :=
    Nat.pow_lt_pow_right (by decide) (by omega)
  have hpos : 0 < 2 ^ (superblock.blockSizeShift - 2) := Nat.two_pow_pos _
  show sub32 (Fs.ofSuperblock superblock).indirectionCount 1 = _
  rw [hcount]
  unfold sub32
  omega

end

section
variable {vol : Volume}

theorem indirectionShift_eq (hlo : 2 ≤ vol.shift) (hhi : vol.shift < 32) :
    vol.fs.indirectionShift = vol.shift - 2 :=
  ofSuperblock_indirectionShift hlo hhi

theorem indirectionCount_eq (hlo : 2 ≤ vol.shift) (hhi : vol.shift < 32) :
    vol.fs.indirectionCount = 2 ^ (vol.shift - 2) :=
  ofSuperblock_indirectionCount hlo hhi

end

/-- The numbers of blocks of the levels up to the one of the block are below `2 ^ 32`. -/
def LevelFits (shift block : Nat) : Prop :=
  block < directBlockCount + 2 ^ (shift - 2) ∨
    (block < directBlockCount + 2 ^ (shift - 2) + 2 ^ (2 * (shift - 2)) ∧ shift < 18) ∨ shift < 13

instance decidableLevelFits (shift block : Nat) : Decidable (LevelFits shift block) :=
  inferInstanceAs (Decidable (_ ∨ _ ∨ _))

section
variable {fs : Fs} {k block : Nat}

/-- The three tests of the first loop. -/
theorem selectLevel_eq (hk : fs.indirectionShift = k) (hk32 : k < 32) :
    selectLevel fs indirectLevels 0 block (2 ^ k) =
      if block < 2 ^ k then some (0, block)
      else
        let blocks := if 2 * k < 32 then 2 ^ (2 * k) else 0
        if block - 2 ^ k < blocks then some (1, block - 2 ^ k)
        else
          let blocks' := if 3 * k < 32 then 2 ^ (3 * k) else 0
          if block - 2 ^ k - blocks < blocks' then some (2, block - 2 ^ k - blocks) else none := by
  have hsecond : shl32 (2 ^ k) k = if 2 * k < 32 then 2 ^ (2 * k) else 0 := by
    rw [shl32_two_pow hk32, Nat.two_mul]
  have hthird : shl32 (if 2 * k < 32 then 2 ^ (2 * k) else 0) k =
      if 3 * k < 32 then 2 ^ (3 * k) else 0 := by
    split
    · rw [shl32_two_pow hk32, show 2 * k + k = 3 * k by omega]
    · rw [if_neg (by omega)]
      unfold shl32
      rw [Nat.zero_mul]
  show selectLevel fs 3 0 block (2 ^ k) = _
  unfold selectLevel
  rw [hk, hsecond]
  unfold selectLevel
  rw [hk, hthird]
  unfold selectLevel
  rfl

/-- The blocks that the three levels have. -/
def treeBlocks (shift : Nat) : Nat :=
  2 ^ (shift - 2) + 2 ^ (2 * (shift - 2)) + 2 ^ (3 * (shift - 2))

theorem selectLevel_of_not_fits {shift : Nat} (hlo : 2 ≤ shift) (hhi : shift < 32)
    (hshift : fs.indirectionShift = shift - 2) (hblock : directBlockCount ≤ block)
    (hfits : ¬LevelFits shift block) :
    selectLevel fs indirectLevels 0 (block - directBlockCount) (2 ^ (shift - 2)) = none := by
  obtain ⟨k, rfl⟩ : ∃ k, shift = k + 2 := ⟨shift - 2, by omega⟩
  unfold LevelFits at *
  rw [Nat.add_sub_cancel] at *
  rw [selectLevel_eq hshift (by omega)]
  dsimp only
  rw [if_neg (by omega), if_neg (show ¬3 * k < 32 by omega)]
  by_cases hsecond : 2 * k < 32
  · rw [if_pos hsecond, if_neg (show ¬block - directBlockCount - 2 ^ k < 2 ^ (2 * k) by omega),
      if_neg (Nat.not_lt_zero _)]
  · rw [if_neg hsecond, if_neg (Nat.not_lt_zero _), if_neg (Nat.not_lt_zero _)]

end

/-! ## Down the tree -/

section
variable {vol : Volume} {s : DiskState}

@[simp] theorem followPointers_null (fw : Firmware) (part : BlPartition) (fs : Fs)
    (block level : Nat) : followPointers fw part fs block level 0 = pure 0 := by
  cases level with
  | zero => rfl
  | succ level => exact if_pos rfl

theorem followPointers_succ (fw : Firmware) (part : BlPartition) (fs : Fs) (block level : Nat)
    {volumeBlock : Nat} (hnull : volumeBlock ≠ 0) :
    followPointers fw part fs block (level + 1) volumeBlock =
      biReadFromPointerBlock fw part fs volumeBlock
        (shr64 block (fs.indirectionShift * level) &&& fs.indirectionMask) >>=
      followPointers fw part fs block level :=
  if_neg hnull

end

/-! ## Every block, or not -/

def BlockInReach (shift : Nat) (sectors : BitVec 32) (block : Nat) : Prop :=
  block < directBlockCount ∨
    (LevelFits shift block ∧ sectors.toNat * sectorSize < 4294967296 + 2 ^ shift)

instance decidableBlockInReach (shift : Nat) (sectors : BitVec 32) (block : Nat) :
    Decidable (BlockInReach shift sectors block) :=
  inferInstanceAs (Decidable (_ ∨ (_ ∧ _)))

section
variable {vol : Volume} {inode : BiInode} {block level index : Nat}

theorem biGetInodeBlockBase_direct (hblock : block < directBlockCount) :
    biGetInodeBlockBase vol.fw vol.part vol.fs inode block = pure (inode.directBlocks block) :=
  if_pos hblock

theorem biGetInodeBlockBase_beyond (hblock : directBlockCount ≤ block)
    (hselect : selectLevel vol.fs indirectLevels 0 (block - directBlockCount)
      vol.fs.indirectionCount = none) :
    biGetInodeBlockBase vol.fw vol.part vol.fs inode block =
      Prog.stop (.crash "tried to read beyond inode maximum bounds") := by
  unfold biGetInodeBlockBase
  rw [if_neg (not_lt.2 hblock), hselect]

end

/-- The first version of the format has no features. -/
theorem BiSuperblock.ofBytes_first {bytes : ByteMemory} (hversion : bytes.read32 76 = 0) :
    (ofBytes bytes).requiredFeatures = 0 ∧ (ofBytes bytes).inodeSize = 128 := by
  have hlt : bytes.read32 76 < 1 := by omega
  exact ⟨if_pos hlt, if_pos hlt⟩

/-- A superblock with this block size and one inode in a group, and otherwise zeros. -/
def superblockImage (shift : Nat) : ByteMemory :=
  write32 (write32 (write32 (fun _ => 0) 1048 (sub32 shift 10)) 1064 1) 1080 0xef53

/-- From 4 GiB on every word is the number of the block there. -/
def farDisk (shift : Nat) : ByteMemory := fun x =>
  if x < 4294967296 then superblockImage shift x
  else BitVec.ofNat 8 (2 ^ (32 - shift) / 256 ^ (x % 4))

section
variable {shift : Nat}

theorem farDisk_low {p : Nat} (hp : p + 4 ≤ 4294967296) :
    (farDisk shift).read32 p = (superblockImage shift).read32 p := by
  refine SameOn.read32 fun x hlo hhi => ?_
  exact if_pos (by omega)

theorem superblockImage_read32 {p : Nat} (haligned : p % 4 = 0) :
    (superblockImage shift).read32 p =
      if p = 1080 then 0xef53 else if p = 1064 then 1 else if p = 1048 then sub32 shift 10
      else 0 := by
  have hother : ∀ (m : ByteMemory) (a v : Nat), a % 4 = 0 → p ≠ a →
      (m.write32 a v).read32 p = m.read32 p :=
    fun m a v ha hne => SameOn.read32 (sameOn_write32 m v (by omega))
  unfold superblockImage
  split
  · rename_i h
    rw [h, read32_write32_self _ _ (by decide)]
  rename_i hsignature
  rw [hother _ _ _ (by decide) hsignature]
  split
  · rename_i h
    rw [h, read32_write32_self _ _ (by decide)]
  rename_i hinodes
  rw [hother _ _ _ (by decide) hinodes]
  split
  · rename_i h
    rw [h, read32_write32_self _ _ (show sub32 shift 10 < 4294967296 from Nat.mod_lt _ (by decide))]
  · rename_i hsize
    rw [hother _ _ _ (by decide) hsize]
    simp [read32]

/-- The superblock of that disk. -/
def farSuperblock (shift : Nat) : ByteMemory :=
  fun i => farDisk shift (0 * sectorSize + superblockOffset + i)

theorem farSuperblock_read32 {i : Nat} (hi : i < 256) :
    (farSuperblock shift).read32 i = (superblockImage shift).read32 (1024 + i) := by
  have hbyte : ∀ j, farSuperblock shift j = farDisk shift (1024 + j) := by
    intro j
    unfold farSuperblock superblockOffset
    rw [Nat.zero_mul, Nat.zero_add]
  rw [← farDisk_low (by omega)]
  simp only [read32, hbyte, Nat.add_assoc]

theorem farSuperblock_accepted (shift : Nat) : BiSuperblock.Accepted (farSuperblock shift) := by
  have hversion : (farSuperblock shift).read32 76 = 0 := by
    rw [farSuperblock_read32 (by decide), superblockImage_read32 (by decide), if_neg (by decide),
      if_neg (by decide), if_neg (by decide)]
  have hsignature : (farSuperblock shift).read16 56 = 0xef53 := by
    rw [read16_eq, farSuperblock_read32 (by decide), superblockImage_read32 (by decide),
      if_pos rfl]
  obtain ⟨hfeatures, hinodeSize⟩ := BiSuperblock.ofBytes_first hversion
  unfold BiSuperblock.Accepted
  rw [hfeatures, hinodeSize]
  exact ⟨hsignature, rfl, rfl⟩

theorem farSuperblock_inodes (shift : Nat) :
    (BiSuperblock.ofBytes (farSuperblock shift)).blockGroupInodes = 1 := by
  show (farSuperblock shift).read32 40 = 1
  rw [farSuperblock_read32 (by decide), superblockImage_read32 (by decide), if_neg (by decide),
    if_pos rfl]

theorem farSuperblock_shift (hhi : shift < 32) :
    (BiSuperblock.ofBytes (farSuperblock shift)).blockSizeShift = shift := by
  show add32 ((farSuperblock shift).read32 24) 10 = shift
  rw [farSuperblock_read32 (by decide), superblockImage_read32 (by decide), if_neg (by decide),
    if_neg (by decide), if_pos rfl]
  unfold add32 sub32
  omega

end

/-- A disk that is all one partition. -/
def farVolume (shift : Nat) (sectors : BitVec 32)
    (hfits : superblockOffset + superblockSize ≤ sectors.toNat * sectorSize) : Volume where
  fw := .ofImage (farDisk shift) sectors.toNat sectors.isLt
  disk := farDisk shift
  serves := Firmware.ofImage_serves _ _ _
  entry := { bootIndicator := 0, type := 0x83, startingLba := 0, sizeInLba := sectors }
  onDisk := by
    show 0 * 512 + sectors.toNat * 512 ≤ sectors.toNat * 512
    omega
  fits := hfits
  accepted := farSuperblock_accepted shift
  inodes_pos := (farSuperblock_inodes shift).symm ▸ Nat.one_pos

section
variable {shift : Nat} {sectors : BitVec 32}
  {hfits : superblockOffset + superblockSize ≤ sectors.toNat * sectorSize}

theorem farVolume_shift (hhi : shift < 32) : (farVolume shift sectors hfits).shift = shift :=
  farSuperblock_shift hhi

end

end XrLinux.Bootloader
