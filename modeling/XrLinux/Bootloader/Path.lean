import XrLinux.Lib.PathResolution
import XrLinux.Bootloader.FileReads

/-!
# Bootloader — finding files

`BiFindInode` and what is around it. An inode is read into a block of the heap, and who has the
block frees it; only `BiRoot` is none of these blocks. `FsState` has the blocks with the inodes in
them. No block is used twice here, so that one that has been freed is never mistaken for another:
to free it again, or to read it, stops the program.

`fuel` bounds the rounds of the loop over a directory, which sizes of 0 in its entries can keep from
ending.
-/

namespace XrLinux.Bootloader

open Prog ByteMemory

/-- What a `struct BiInode *` points to. -/
inductive InodeRef where
  | root
  | heap (block : Nat)
  deriving DecidableEq

structure FsState where
  disk : DiskState
  inodes : Nat → Option BiInode
  next : Nat

inductive FsStop where
  | stop (s : Stop)
  | invalidFree
  | invalidRead
  deriving DecidableEq

abbrev FsProg := Prog FsState FsStop

def onDisk {α : Type} (p : DiskProg α) : FsProg α := fun s =>
  match p.run s.disk with
  | (.ok a, disk) => (.ok a, { s with disk })
  | (.error e, disk) => (.error (.stop e), { s with disk })

/-- `BL_ALLOCATE(struct BiInode, 1)`, for an inode that has been read. -/
def allocateInode (inode : BiInode) : FsProg InodeRef := fun s =>
  (.ok (.heap s.next),
    { s with inodes := Function.update s.inodes s.next (some inode), next := s.next + 1 })

/-- `*inode`. -/
def inodeAt (root : BiInode) : InodeRef → FsProg BiInode
  | .root => pure root
  | .heap block => fun s =>
    match s.inodes block with
    | some inode => (.ok inode, s)
    | none => (.error .invalidRead, s)

/-- `BlFreeHeap`. -/
def freeInode : InodeRef → FsProg Unit
  | .root => Prog.stop .invalidFree
  | .heap block => fun s =>
    match s.inodes block with
    | some _ => (.ok (), { s with inodes := Function.update s.inodes block none })
    | none => (.error .invalidFree, s)

/-- `BiMaybeFreeInode`. -/
def biMaybeFreeInode (inode : InodeRef) : FsProg Unit :=
  if inode ≠ .root then freeInode inode else pure ()

def slash : BitVec 8 := 0x2f

/-- `BI_MAX_NAME_LEN`. -/
def maxNameLen : Nat := 255

/-- `BI_MAX_SYMLINKS`. -/
def maxSymlinks : Nat := 5

/-- `sizeof(struct BiEntry)`. -/
def entrySize : Nat := 8

section
variable (fw : Firmware) (part : BlPartition) (fs : Fs)

/-- The first bytes of a memory. -/
def bytesOf (m : ByteMemory) (count : Nat) : List (BitVec 8) := (List.range count).map m

/-- The loop of `BiFindEntryInDirectory`: the inode of the entry. -/
def findEntry (dir : BiInode) (name : List (BitVec 8)) : Nat → Nat → DiskProg (Option Nat)
  | 0, _ => Prog.stop .diverges
  | fuel + 1, offset =>
    if sub64 (biInodeSize fs dir) offset < entrySize then pure none
    else do
      let out ← biReadFromInode fw part fs dir (fun _ => 0) 0 entrySize offset false
      let inode := out.read32 0
      let size := out.read16 4
      let nameLength := (out 6).toNat
      let type := (out 7).toNat
      if (fs.hasDirTypes ∨ type = 0) ∧ inode ≠ 0 ∧ nameLength = name.length then do
        let buffer ← biReadFromInode fw part fs dir (fun _ => 0) 0 nameLength
          (add64 offset entrySize) false
        if bytesOf buffer nameLength = name then return some inode
        else findEntry dir name fuel (add64 offset size)
      else findEntry dir name fuel (add64 offset size)

/-- `BiFindEntryInDirectory`. -/
def biFindEntryInDirectory (fuel : Nat) (dir : BiInode) (name : List (BitVec 8)) :
    DiskProg (Option Nat) :=
  if name.length > maxNameLen then pure none else findEntry fw part fs dir name fuel 0

/-- The target of a link, with its size in a `size_t`. -/
def readTarget (inode : BiInode) : DiskProg (List (BitVec 8)) := do
  let size := biInodeSize fs inode % 4294967296
  let linkPath ← biReadFromInode fw part fs inode (fun _ => 0) 0 size 0 false
  return bytesOf linkPath size

variable (root : BiInode) (fuel : Nat)

/-- The loop of `BiFindInode`, for `rounds` rounds at most; `expand` is the call for a link. -/
def findComponents (expand : InodeRef → List (BitVec 8) → FsProg (Option InodeRef)) :
    Nat → InodeRef → List (BitVec 8) → FsProg (Option InodeRef)
  | 0, _, _ => Prog.stop (.stop .diverges)
  | rounds + 1, inode, path => do
    let dir ← inodeAt root inode
    if biType dir.mode ≠ typeDir then do
      biMaybeFreeInode inode
      return none
    else do
      let path := path.dropWhile (· = slash)
      if path = [] then return some inode
      else do
        let component := path.takeWhile (· ≠ slash)
        match ← onDisk (biFindEntryInDirectory fw part fs fuel dir component) with
        | none =>
          biMaybeFreeInode inode
          return none
        | some number =>
          let content ← onDisk (biReadInode fw part fs number)
          let newInode ← allocateInode content
          let newInode ←
            if biType content.mode = typeSym then do
              let target ← onDisk (readTarget fw part fs content)
              biMaybeFreeInode newInode
              expand inode target
            else pure (some newInode)
          biMaybeFreeInode inode
          match newInode with
          | none => return none
          | some inode =>
            let path := path.drop component.length
            if path = [] then return some inode
            else findComponents expand rounds inode path

/-- `BiFindInode`, with `left` for the links that may still nest. -/
def biFindInode : Nat → InodeRef → List (BitVec 8) → FsProg (Option InodeRef)
  | 0, _, _ => pure none
  | left + 1, inode, path =>
    if path = [] then pure none
    else findComponents fw part fs root fuel (biFindInode left) path.length
      (if path.head? = some slash then .root else inode) path

/-- `BlFsFind`. -/
def blFsFind (path : List (BitVec 8)) : FsProg (Option InodeRef) := do
  match ← biFindInode fw part fs root fuel maxSymlinks .root path with
  | none => return none
  | some inode =>
    let content ← inodeAt root inode
    if biType content.mode ≠ typeReg then do
      biMaybeFreeInode inode
      return none
    else return some inode

/-- `BlFsFree`. -/
def blFsFree (inode : InodeRef) : FsProg Unit := biMaybeFreeInode inode

end

end XrLinux.Bootloader
