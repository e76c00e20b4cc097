import XrLinux.Bootloader.Memory
import XrLinux.Bootloader.Disk

/-!
# Bootloader — the ext2 reader of `filesystem.c`

From the superblock down to the bytes of a file. The structures on the disk are read into a memory
of their own and their fields taken at their offsets; of `BiSuperblock`, `BiInode` and
`BiBlockGroupDescriptor` only the fields that are used are there. The static variables that
`BlFsInitialize` sets are `Fs`, and `part` stands for the root partition throughout.

A shift takes its count modulo the width of what is shifted.
-/

namespace XrLinux.Bootloader

open ByteMemory

def shl32 (x n : Nat) : Nat := x * 2 ^ (n % 32) % 4294967296

def shl64 (x n : Nat) : Nat := x * 2 ^ (n % 64) % 18446744073709551616

def shr64 (x n : Nat) : Nat := x / 2 ^ (n % 64)

/-- An `int` as a `uint64_t`. -/
def signExtend (x : Nat) : Nat := if x < 2147483648 then x else x + 18446744069414584320

/-- `BlCountTrailingZeroes`. -/
def blCountTrailingZeroes (value : Nat) : Nat :=
  let (count, value) := if value &&& 0xffff = 0 then (16, value >>> 16) else (0, value)
  let (count, value) := if value &&& 0xff = 0 then (count + 8, value >>> 8) else (count, value)
  let (count, value) := if value &&& 0xf = 0 then (count + 4, value >>> 4) else (count, value)
  let (count, value) := if value &&& 3 = 0 then (count + 2, value >>> 2) else (count, value)
  if value &&& 1 = 0 then count + 1 else count

/-- `struct BiSuperblock`, after `BlFsInitialize` has brought its fields into shape. -/
structure BiSuperblock where
  blockSizeShift : Nat
  blockGroupInodes : Nat
  versionMajor : Nat
  inodeSize : Nat
  requiredFeatures : Nat
  writeRequiredFeatures : Nat

/-- `struct BiInode`. -/
structure BiInode where
  mode : Nat
  size : Nat
  directBlocks : Nat → Nat
  indirectBlocks : Nat → Nat
  sizeUpper : Nat

/-- The static variables of `filesystem.c`. -/
structure Fs where
  superblock : BiSuperblock
  blockSize : Nat
  bgdtLocation : Nat
  inodeShift : Nat
  indirectionShift : Nat
  indirectionCount : Nat
  indirectionMask : Nat

def Fs.blockSizeShift (fs : Fs) : Nat := fs.superblock.blockSizeShift

def biRootInode : Nat := 2

/-- `sizeof(struct BiSuperblock)`. -/
def superblockSize : Nat := 236

def superblockOffset : Nat := 1024

/-- `sizeof(struct BiInode)`. -/
def inodeStructSize : Nat := 128

/-- `BL_ARRAY_SIZE(inode->DirectBlocks)`. -/
def directBlockCount : Nat := 12

/-- `BI_INDIRECT_LEVELS`. -/
def indirectLevels : Nat := 3

/-- `BI_TYPE`. -/
def biType (mode : Nat) : Nat := mode &&& 0xf000

def typeDir : Nat := 0x4000
def typeReg : Nat := 0x8000
def typeSym : Nat := 0xa000

/-- `BI_SIZE_64` is among the features. -/
def Fs.hasSize64 (fs : Fs) : Bool := fs.superblock.writeRequiredFeatures &&& 2 ≠ 0

/-- `BI_DIR_TYPES` is among the features. -/
def Fs.hasDirTypes (fs : Fs) : Bool := fs.superblock.requiredFeatures &&& 2 ≠ 0

def BiSuperblock.ofBytes (m : ByteMemory) : BiSuperblock :=
  let versionMajor := m.read32 76
  { blockSizeShift := add32 (m.read32 24) 10
    blockGroupInodes := m.read32 40
    versionMajor
    inodeSize := if versionMajor < 1 then 128 else m.read16 88
    requiredFeatures := if versionMajor < 1 then 0 else m.read32 96
    writeRequiredFeatures := if versionMajor < 1 then 0 else m.read32 100 }

def BiInode.ofBytes (m : ByteMemory) : BiInode where
  mode := m.read16 0
  size := m.read32 4
  directBlocks i := m.read32 (40 + 4 * i)
  indirectBlocks i := m.read32 (88 + 4 * i)
  sizeUpper := m.read32 108

/-- What `BlFsInitialize` checks: the signature, the features, and that the inode size is a power of
two. -/
def BiSuperblock.Accepted (bytes : ByteMemory) : Prop :=
  bytes.read16 56 = 0xef53 ∧ (ofBytes bytes).requiredFeatures &&& 0xfffffffd = 0 ∧
    (ofBytes bytes).inodeSize &&& ((ofBytes bytes).inodeSize - 1) = 0

instance BiSuperblock.decidableAccepted (bytes : ByteMemory) : Decidable (Accepted bytes) :=
  inferInstanceAs (Decidable (_ ∧ _ ∧ _))

/-- What `BlFsInitialize` derives from the superblock. -/
def Fs.ofSuperblock (superblock : BiSuperblock) : Fs :=
  let shift := superblock.blockSizeShift
  let indirectionShift := sub32 shift 2
  let indirectionCount := shl32 1 indirectionShift
  { superblock
    blockSize := shl32 1 shift
    bgdtLocation := signExtend (shl32 (superblockOffset / 2 ^ (shift % 32) + 1) shift)
    inodeShift := blCountTrailingZeroes superblock.inodeSize
    indirectionShift
    indirectionCount
    indirectionMask := sub32 indirectionCount 1 }

section
variable (fw : Firmware) (part : BlPartition)

/-- A read into a variable of its own. -/
def readStruct (position count : Nat) : DiskProg ByteMemory :=
  blReadFromPartition fw part (fun _ => 0) 0 position count false

/-- `BiReadBlockGroupDescriptor`: its field `InodeTableBlock`. -/
def biReadBlockGroupDescriptor (fs : Fs) (group : Nat) : DiskProg Nat := do
  let out ← readStruct fw part (add64 fs.bgdtLocation (group * 32)) 20
  return out.read32 8

/-- `BiReadInode`. -/
def biReadInode (fs : Fs) (inode : Nat) : DiskProg BiInode :=
  if fs.superblock.blockGroupInodes = 0 then Prog.stop (.crash "division by zero")
  else do
    let group := sub32 inode 1 / fs.superblock.blockGroupInodes
    let index := sub32 inode 1 % fs.superblock.blockGroupInodes
    let offset := shl64 index fs.inodeShift
    let inodeTableBlock ← biReadBlockGroupDescriptor fw part fs group
    let out ← readStruct fw part (add64 (shl64 inodeTableBlock fs.blockSizeShift) offset)
      inodeStructSize
    return .ofBytes out

/-- `BiReadFromPointerBlock`. -/
def biReadFromPointerBlock (fs : Fs) (block index : Nat) : DiskProg Nat := do
  let value ← readStruct fw part (add32 (shl32 block fs.blockSizeShift) (index * 4 % 4294967296)) 4
  return value.read32 0

/-- The first loop of `BiGetInodeBlockBase`: the level that has `block`, and where in it. -/
def selectLevel (fs : Fs) : Nat → Nat → Nat → Nat → Option (Nat × Nat)
  | 0, _, _, _ => none
  | left + 1, level, block, blocks =>
    if block < blocks then some (level, block)
    else selectLevel fs left (level + 1) (block - blocks) (shl32 blocks fs.indirectionShift)

/-- Its second loop. -/
def followPointers (fs : Fs) (block : Nat) : Nat → Nat → DiskProg Nat
  | 0, volumeBlock => pure volumeBlock
  | level + 1, volumeBlock =>
    if volumeBlock = 0 then pure volumeBlock
    else do
      let index := shr64 block (fs.indirectionShift * level) &&& fs.indirectionMask
      let volumeBlock ← biReadFromPointerBlock fw part fs volumeBlock index
      followPointers fs block level volumeBlock

/-- `BiGetInodeBlockBase`. -/
def biGetInodeBlockBase (fs : Fs) (inode : BiInode) (block : Nat) : DiskProg Nat :=
  if block < directBlockCount then pure (inode.directBlocks block)
  else
    match selectLevel fs indirectLevels 0 (block - directBlockCount) fs.indirectionCount with
    | none => Prog.stop (.crash "tried to read beyond inode maximum bounds")
    | some (level, block) => followPointers fw part fs block (level + 1) (inode.indirectBlocks level)

/-- The loop of `BiReadFromInode`, for `fuel` rounds at most. -/
def readInodeBlocks (fs : Fs) (inode : BiInode) (bypassCache : Bool) :
    Nat → ByteMemory → Nat → Nat → Nat → DiskProg ByteMemory
  | 0, _, _, _, _ => Prog.stop .diverges
  | fuel + 1, m, buffer, size, position =>
    if size = 0 then pure m
    else do
      let block := shr64 position fs.blockSizeShift
      let offset := position &&& (fs.blockSize - 1)
      let current := min size (fs.blockSize - offset)
      let blockBase := shl64 (← biGetInodeBlockBase fw part fs inode block) fs.blockSizeShift
      let m ←
        if blockBase ≠ 0 then
          blReadFromPartition fw part m buffer (add64 blockBase offset) current bypassCache
        else pure (m.put buffer current fun _ => 0)
      readInodeBlocks fs inode bypassCache fuel m (buffer + current) (size - current)
        (add64 position current)

/-- `BiReadFromInode`: the memory with the bytes in the buffer. -/
def biReadFromInode (fs : Fs) (inode : BiInode) (m : ByteMemory) (buffer size position : Nat)
    (bypassCache : Bool) : DiskProg ByteMemory :=
  readInodeBlocks fw part fs inode bypassCache (size + 1) m buffer size position

/-- `BiInodeSize`. -/
def biInodeSize (fs : Fs) (inode : BiInode) : Nat :=
  if fs.hasSize64 ∧ biType inode.mode ≠ typeDir then inode.size ||| inode.sizeUpper <<< 32
  else inode.size

/-- `BlFsFileRead`. -/
def blFsFileRead (fs : Fs) (inode : BiInode) (m : ByteMemory) (buffer count position : Nat)
    (bypassCache : Bool) : DiskProg ByteMemory :=
  let fileSize := biInodeSize fs inode
  if count = 0 ∨ position > fileSize ∨ count > sub64 position fileSize then pure m
  else biReadFromInode fw part fs inode m buffer count position bypassCache

/-- `BlFsInitialize`: the static variables and the root inode, if there is a filesystem. -/
def blFsInitialize : DiskProg (Option (Fs × BiInode)) := do
  let bytes ← readStruct fw part superblockOffset superblockSize
  if BiSuperblock.Accepted bytes then do
    let fs := Fs.ofSuperblock (.ofBytes bytes)
    let root ← biReadInode fw part fs biRootInode
    return some (fs, root)
  else return none

end

end XrLinux.Bootloader
