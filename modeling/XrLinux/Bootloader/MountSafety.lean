import XrLinux.Bootloader.BlockMap

/-!
# Bootloader — the arithmetic behind a superblock

What `BlFsInitialize` derives from a superblock goes into divisions and shifts all over
`filesystem.c`. C gives these a meaning only for a divisor that is not 0 and a count below the width
of what is shifted; here they have no value otherwise. `MountSafe` is that every one of them has its
value, and that what was derived fits together.

The checks let three kinds of superblocks through that are not: no inodes in a group, a block size
whose shift is below 2 (the addition of 10 wraps) or beyond 31, and an inode size of 0, which passes
for a power of two.
-/

namespace XrLinux.Bootloader

open Prog ByteMemory

/-! ## Arithmetic with a meaning in C -/

def checkedDiv (x y : Nat) : Option Nat := if y = 0 then none else some (x / y)

def checkedMod (x y : Nat) : Option Nat := if y = 0 then none else some (x % y)

/-- `x << n`, for an unsigned operand of `width` bits. -/
def checkedShl (width x n : Nat) : Option Nat :=
  if n < width then some (x * 2 ^ n % 2 ^ width) else none

def checkedShr (width x n : Nat) : Option Nat := if n < width then some (x / 2 ^ n) else none

section
variable {width x y n v : Nat}

theorem checkedDiv_isSome : (checkedDiv x y).isSome ↔ y ≠ 0 := by
  unfold checkedDiv
  split <;> simp_all

theorem checkedMod_isSome : (checkedMod x y).isSome ↔ y ≠ 0 := by
  unfold checkedMod
  split <;> simp_all

theorem checkedShl_isSome : (checkedShl width x n).isSome ↔ n < width := by
  unfold checkedShl
  split <;> simp_all

theorem checkedShr_isSome : (checkedShr width x n).isSome ↔ n < width := by
  unfold checkedShr
  split <;> simp_all

/-- Where a shift has a meaning the model has computed it. -/
theorem shl32_of_checked (h : checkedShl 32 x n = some v) : shl32 x n = v := by
  unfold checkedShl at h
  split at h
  · rename_i hn
    unfold shl32
    rw [Nat.mod_eq_of_lt hn]
    exact Option.some.inj h
  · cases h

theorem shl64_of_checked (h : checkedShl 64 x n = some v) : shl64 x n = v := by
  unfold checkedShl at h
  split at h
  · rename_i hn
    unfold shl64
    rw [Nat.mod_eq_of_lt hn]
    exact Option.some.inj h
  · cases h

theorem shr64_of_checked (h : checkedShr 64 x n = some v) : shr64 x n = v := by
  unfold checkedShr at h
  split at h
  · rename_i hn
    unfold shr64
    rw [Nat.mod_eq_of_lt hn]
    exact Option.some.inj h
  · cases h

end

/-! ## The computations -/

/-- `BiReadInode`: the block group of an inode, and its offset in the table of the group. -/
def checkedInodePlace (fs : Fs) (inode : Nat) : Option (Nat × Nat) := do
  let group ← checkedDiv (sub32 inode 1) fs.superblock.blockGroupInodes
  let index ← checkedMod (sub32 inode 1) fs.superblock.blockGroupInodes
  let offset ← checkedShl 64 index fs.inodeShift
  return (group, offset)

/-- `BiReadInode`: where the table starts. -/
def checkedTableStart (fs : Fs) (inodeTableBlock : Nat) : Option Nat :=
  checkedShl 64 inodeTableBlock fs.blockSizeShift

/-- `BiReadFromPointerBlock`: where the pointers start. -/
def checkedPointerStart (fs : Fs) (block : Nat) : Option Nat :=
  checkedShl 32 block fs.blockSizeShift

/-- `BiGetInodeBlockBase`: from the blocks of one level to those of the next. -/
def checkedNextLevel (fs : Fs) (blocks : Nat) : Option Nat :=
  checkedShl 32 blocks fs.indirectionShift

/-- `BiGetInodeBlockBase`: the pointer to follow on a level. The product is one of 32 bits. -/
def checkedPointerIndex (fs : Fs) (block level : Nat) : Option Nat := do
  let index ← checkedShr 64 block (fs.indirectionShift * level % 4294967296)
  return index &&& fs.indirectionMask

/-- `BiReadFromInode`: the block of the file at a position. -/
def checkedFileBlock (fs : Fs) (position : Nat) : Option Nat :=
  checkedShr 64 position fs.blockSizeShift

/-- `BiReadFromInode`: where a block of the volume starts. -/
def checkedBlockStart (fs : Fs) (block : Nat) : Option Nat := checkedShl 64 block fs.blockSizeShift

/-- Every later computation has a meaning, and the sizes are the powers of two that they are taken
for. -/
structure Fs.MountSafe (fs : Fs) : Prop where
  inodePlace : ∀ inode, (checkedInodePlace fs inode).isSome
  tableStart : ∀ block, (checkedTableStart fs block).isSome
  pointerStart : ∀ block, (checkedPointerStart fs block).isSome
  nextLevel : ∀ blocks, (checkedNextLevel fs blocks).isSome
  pointerIndex : ∀ block, ∀ level < indirectLevels, (checkedPointerIndex fs block level).isSome
  fileBlock : ∀ position, (checkedFileBlock fs position).isSome
  blockStart : ∀ block, (checkedBlockStart fs block).isSome
  blockSize : fs.blockSize = 2 ^ fs.blockSizeShift
  inodeSize : fs.superblock.inodeSize = 2 ^ fs.inodeShift
  indirectionCount : fs.indirectionCount = 2 ^ fs.indirectionShift
  indirectionMask : fs.indirectionMask + 1 = fs.indirectionCount
  pointersPerBlock : fs.indirectionCount * 4 = fs.blockSize

/-! ## The programs compute with these -/

section
variable {fw : Firmware} {part : BlPartition} {fs : Fs} {block level : Nat}

theorem biReadInode_of_checked {inode group offset : Nat}
    (h : checkedInodePlace fs inode = some (group, offset)) :
    biReadInode fw part fs inode = (do
      let inodeTableBlock ← biReadBlockGroupDescriptor fw part fs group
      let out ← readStruct fw part (add64 (shl64 inodeTableBlock fs.blockSizeShift) offset)
        inodeStructSize
      return BiInode.ofBytes out) := by
  unfold checkedInodePlace at h
  obtain ⟨group', hgroup, h⟩ := Option.bind_eq_some_iff.1 h
  obtain ⟨index, hindex, h⟩ := Option.bind_eq_some_iff.1 h
  obtain ⟨offset', hoffset, h⟩ := Option.bind_eq_some_iff.1 h
  cases h
  have hinodes : fs.superblock.blockGroupInodes ≠ 0 :=
    checkedDiv_isSome.1 (Option.isSome_of_eq_some hgroup)
  unfold checkedDiv at hgroup
  unfold checkedMod at hindex
  rw [if_neg hinodes] at hgroup hindex
  unfold biReadInode
  rw [if_neg hinodes]
  dsimp only
  rw [Option.some.inj hgroup, Option.some.inj hindex, shl64_of_checked hoffset]

theorem biReadFromPointerBlock_of_checked {start index : Nat}
    (h : checkedPointerStart fs block = some start) :
    biReadFromPointerBlock fw part fs block index = (do
      let value ← readStruct fw part (add32 start (index * 4 % 4294967296)) 4
      return value.read32 0) := by
  unfold biReadFromPointerBlock
  rw [shl32_of_checked h]

/-- The model does not wrap the product of shift and level, which a count modulo 64 does not see. -/
theorem pointerIndex_of_checked {index : Nat}
    (h : checkedPointerIndex fs block level = some index) :
    shr64 block (fs.indirectionShift * level) &&& fs.indirectionMask = index := by
  unfold checkedPointerIndex at h
  obtain ⟨shifted, hshifted, h⟩ := Option.bind_eq_some_iff.1 h
  have hcount : fs.indirectionShift * level % 4294967296 % 64 =
      fs.indirectionShift * level % 64 := Nat.mod_mod_of_dvd _ (by decide)
  have hshr := shr64_of_checked hshifted
  unfold shr64 at hshr ⊢
  rw [← Option.some.inj h, ← hshr, hcount]

end

/-! ## Which superblocks -/

section
variable {bytes : ByteMemory}

/-- Of the sizes that pass for a power of two only 0 is none. -/
theorem inodeSize_eq (hsize : (BiSuperblock.ofBytes bytes).inodeSize ≠ 0)
    (hpower : (BiSuperblock.ofBytes bytes).inodeSize &&&
      ((BiSuperblock.ofBytes bytes).inodeSize - 1) = 0) :
    (BiSuperblock.ofBytes bytes).inodeSize =
        2 ^ blCountTrailingZeroes (BiSuperblock.ofBytes bytes).inodeSize ∧
      blCountTrailingZeroes (BiSuperblock.ofBytes bytes).inodeSize < 64 := by
  have hlt : (BiSuperblock.ofBytes bytes).inodeSize < 2 ^ 16 := by
    have hword := read32_lt bytes 88
    have hhalf := read16_eq bytes 88
    show (if bytes.read32 76 < 1 then 128 else bytes.read16 88) < 65536
    split <;> omega
  obtain ⟨k, hk⟩ := (Nat.and_sub_one_eq_zero_iff_isPowerOfTwo hsize).1 hpower
  rw [hk] at hlt ⊢
  have hk16 : k < 16 := (Nat.pow_lt_pow_iff_right (by decide)).1 hlt
  have hcount : ∀ k < 16, blCountTrailingZeroes (2 ^ k) = k := by decide
  rw [hcount k hk16]
  exact ⟨rfl, by omega⟩

theorem checkedInodePlace_isSome {fs : Fs} {inode : Nat} :
    (checkedInodePlace fs inode).isSome ↔
      fs.superblock.blockGroupInodes ≠ 0 ∧ fs.inodeShift < 64 := by
  unfold checkedInodePlace checkedDiv checkedMod checkedShl
  by_cases hinodes : fs.superblock.blockGroupInodes = 0
  · simp [hinodes]
  · by_cases hshift : fs.inodeShift < 64
    · simp [hinodes, hshift]
    · simp [hinodes, hshift]

theorem checkedPointerIndex_isSome {fs : Fs} {block level : Nat} :
    (checkedPointerIndex fs block level).isSome ↔ fs.indirectionShift * level % 4294967296 < 64 := by
  unfold checkedPointerIndex checkedShr
  split <;> simp_all

end

section
variable {superblock : BiSuperblock}

theorem mountSafe_of_fields (hinodes : superblock.blockGroupInodes ≠ 0)
    (hlo : 2 ≤ superblock.blockSizeShift) (hhi : superblock.blockSizeShift < 32)
    (hsize : superblock.inodeSize = 2 ^ blCountTrailingZeroes superblock.inodeSize)
    (hcount : blCountTrailingZeroes superblock.inodeSize < 64) :
    (Fs.ofSuperblock superblock).MountSafe := by
  have hshift := ofSuperblock_indirectionShift hlo hhi
  have hpointers := ofSuperblock_indirectionCount hlo hhi
  have hmask := ofSuperblock_indirectionMask hlo hhi
  have hpos : 0 < 2 ^ (superblock.blockSizeShift - 2) := Nat.two_pow_pos _
  have hblock : (Fs.ofSuperblock superblock).blockSize = 2 ^ superblock.blockSizeShift := by
    have hpow := @shl32_two_pow 0 superblock.blockSizeShift hhi
    rw [Nat.zero_add, if_pos hhi] at hpow
    exact hpow
  have hwide : superblock.blockSizeShift < 64 := by omega
  refine
    { inodePlace := fun inode => checkedInodePlace_isSome.2 ⟨hinodes, hcount⟩
      tableStart := fun block => checkedShl_isSome.2 hwide
      pointerStart := fun block => checkedShl_isSome.2 hhi
      nextLevel := fun blocks => checkedShl_isSome.2 ?_
      pointerIndex := fun block level hlevel => checkedPointerIndex_isSome.2 ?_
      fileBlock := fun position => checkedShr_isSome.2 hwide
      blockStart := fun block => checkedShl_isSome.2 hwide
      blockSize := hblock
      inodeSize := hsize
      indirectionCount := ?_
      indirectionMask := ?_
      pointersPerBlock := ?_ }
  · rw [hshift]
    omega
  · -- the topmost level shifts by twice 29 at most
    have hproduct : (superblock.blockSizeShift - 2) * level ≤ 29 * 2 :=
      Nat.mul_le_mul (by omega) (Nat.le_of_lt_succ hlevel)
    rw [hshift]
    omega
  · rw [hpointers, hshift]
  · rw [hmask, hpointers]
    omega
  · rw [hpointers, hblock, show 4 = 2 ^ 2 from rfl, ← Nat.pow_add, Nat.sub_add_cancel hlo]

theorem fields_of_mountSafe (h : (Fs.ofSuperblock superblock).MountSafe) :
    superblock.blockGroupInodes ≠ 0 ∧ 2 ≤ superblock.blockSizeShift ∧
      superblock.blockSizeShift < 32 ∧ superblock.inodeSize ≠ 0 := by
  have hhi : superblock.blockSizeShift < 32 := checkedShl_isSome.1 (h.pointerStart 0)
  refine ⟨(checkedInodePlace_isSome.1 (h.inodePlace 0)).1, ?_, hhi, ?_⟩
  · -- below 2 the shift of the levels wraps
    have hlevel : sub32 superblock.blockSizeShift 2 < 32 := checkedShl_isSome.1 (h.nextLevel 0)
    unfold sub32 at hlevel
    omega
  · have hsize : superblock.inodeSize = 2 ^ _ := h.inodeSize
    rw [hsize]
    exact (Nat.two_pow_pos _).ne'

end

/-- Of the superblocks that are accepted these are the ones that everything can be computed from. -/
theorem mountSafe_iff {bytes : ByteMemory} (haccepted : BiSuperblock.Accepted bytes) :
    (Fs.ofSuperblock (.ofBytes bytes)).MountSafe ↔
      (BiSuperblock.ofBytes bytes).blockGroupInodes ≠ 0 ∧
        2 ≤ (BiSuperblock.ofBytes bytes).blockSizeShift ∧
          (BiSuperblock.ofBytes bytes).blockSizeShift < 32 ∧
            (BiSuperblock.ofBytes bytes).inodeSize ≠ 0 := by
  refine ⟨fields_of_mountSafe, fun ⟨hinodes, hlo, hhi, hsize⟩ => ?_⟩
  obtain ⟨hpower, hcount⟩ := inodeSize_eq hsize haccepted.2.2
  exact mountSafe_of_fields hinodes hlo hhi hpower hcount

/-- Blocks of 1024 bytes, one inode in a group and inodes of 128 bytes. -/
theorem mountSafe_iff_first : (Fs.ofSuperblock (.ofBytes (farSuperblock 10))).MountSafe := by
  rw [mountSafe_iff (farSuperblock_accepted 10), farSuperblock_inodes,
    farSuperblock_shift (by decide), (BiSuperblock.ofBytes_first (by
      rw [farSuperblock_read32 (by decide), superblockImage_read32 (by decide)]
      decide)).2]
  decide

/-- A superblock of the first version with one inode in a group, whose block size is so large that the
addition of 10 wraps: blocks of one byte. -/
def wrappedSuperblock : ByteMemory :=
  write32 (write32 (write16 (fun _ => 0) 56 0xef53) 40 1) 24 4294967286

/-- It is accepted, and a block of pointers is as long as one shifted by 4294967294. -/
theorem mountSafe_wrapped_fails : BiSuperblock.Accepted wrappedSuperblock ∧
    ¬(Fs.ofSuperblock (.ofBytes wrappedSuperblock)).MountSafe := by
  refine ⟨by decide, fun h => ?_⟩
  have hlo : 2 ≤ (BiSuperblock.ofBytes wrappedSuperblock).blockSizeShift := (fields_of_mountSafe h).2.1
  exact absurd hlo (by decide)

end XrLinux.Bootloader
