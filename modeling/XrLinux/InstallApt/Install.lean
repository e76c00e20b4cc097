import XrLinux.Lib.ByteMemory
import XrLinux.Lib.Driven

/-!
# `install-apt`

The host tool that puts a boot image on a disk. It runs on a little-endian host with 64-bit
`size_t` and `off_t`. What is modelled is the program between its system calls: `Point` says which
call it stands at and with which locals, `step` takes the answer of the operating system to that
call and goes on to the next one. A `Host` is everything the program is given: its arguments, the
files, what `open` and `fstat` say, and one answer for each `pread` and `pwrite` to come.

The disk and the image are two files. Nobody else writes to them while the program runs, but the
length that `fstat` tells need not be the one that is there to be read.
-/

namespace XrLinux.InstallApt

/-- `APT_MAGIC`. -/
def aptMagic : Nat := 0x4e4d494d

/-- `APT_BOOT_MAGIC`. -/
def aptBootMagic : Nat := 0x796d6173

/-- `APT_START_SECTOR`. -/
def aptStartSector : Nat := 4

/-- `APT_BOOT_SECTORS`. -/
def aptBootSectors : Nat := 3

/-- `MBR_SIGNATURE`. -/
def mbrSignature : Nat := 0xaa55

/-- `SECTOR_SIZE`. -/
def sectorSize : Nat := 512

/-- `DEFAULT_AVAIL_SIZE`. -/
def defaultAvailSize : Nat := 0x100000

/-- `BUFFER_SIZE`, of the buffer in `CopyData`. -/
def bufferSize : Nat := 0x10000

/-- A number as a `size_t`. -/
def sizeT (x : Int) : Nat := (x % 18446744073709551616).toNat

/-- A number as a `uint32_t`. -/
def uint32 (x : Nat) : Nat := x % 4294967296

/-- The largest `off_t`; no file has bytes from there on. -/
def maxOffset : Nat := 9223372036854775807

/-! ### The operating system -/

/-- A file: `size` bytes, and zeros behind them where a later write leaves a gap. -/
structure File where
  size : Nat
  bytes : ByteMemory
  zero_beyond : ∀ i, size ≤ i → bytes i = 0

/-- What becomes of a call: it fails, or it moves no more than so many bytes. -/
inductive Response where
  | failed
  | upTo (n : Nat)
deriving DecidableEq, Repr

/-- What `pread` returns; `none` is -1. -/
def File.pread (f : File) (r : Response) (count : Nat) (offset : Int) : Option Nat :=
  match r with
  | .failed => none
  | .upTo n => if offset < 0 then none else some (min n (min count (f.size - offset.toNat)))

/-- What `pwrite` returns; `none` is -1. -/
def pwrite (r : Response) (count : Nat) (offset : Int) : Option Nat :=
  match r with
  | .failed => none
  | .upTo n =>
    if offset < 0 ∨ maxOffset ≤ offset.toNat then none
    else some (min n (min count (maxOffset - offset.toNat)))

/-- The file after `count` bytes have been written to it. -/
def File.write (f : File) (offset count : Nat) (data : ByteMemory) : File where
  size := if count = 0 then f.size else max f.size (offset + count)
  bytes := f.bytes.put offset count data
  zero_beyond := by
    intro i hi
    split at hi
    · rename_i hcount
      rw [hcount, ByteMemory.put_zero]
      exact f.zero_beyond i hi
    · rw [ByteMemory.put_of_not_mem _ _ (by omega)]
      exact f.zero_beyond i (by omega)

@[simp] theorem File.write_bytes (f : File) (offset count : Nat) (data : ByteMemory) :
    (f.write offset count data).bytes = f.bytes.put offset count data := rfl

/-- What the program is given. -/
structure Host where
  args : List (List (BitVec 8))
  diskOpens : Bool
  disk : File
  imageOpens : Bool
  image : File
  stSize : Option Nat
  stSize_le : ∀ size, stSize = some size → size ≤ maxOffset
  mbrStack : ByteMemory
  bufferStack : ByteMemory
  responses : Nat → Response

/-! ### What is written -/

/-- `struct MbrPartition`, what is read of it. -/
structure MbrPartition where
  bootIndicator : Nat
  osType : Nat
  startingLba : Nat
  sizeInLba : Nat

/-- `mbr.PartitionRecord[i]`. -/
def mbrPartition (mbr : ByteMemory) (i : Nat) : MbrPartition :=
  { bootIndicator := (mbr (446 + 16 * i)).toNat
    osType := (mbr (446 + 16 * i + 4)).toNat
    startingLba := mbr.read32 (446 + 16 * i + 8)
    sizeInLba := mbr.read32 (446 + 16 * i + 12) }

/-- The loop over the partitions; `none` is `ErrorDie("invalid mbr")`. -/
def aptPartitionEnd : Nat → List MbrPartition → Option Nat
  | partitionEnd, [] => some partitionEnd
  | partitionEnd, part :: parts =>
    if part.bootIndicator ≠ 0 ∧ part.bootIndicator ≠ 0x80 then none
    else if part.osType = 0 ∨ part.sizeInLba = 0 then aptPartitionEnd partitionEnd parts
    else if part.startingLba < partitionEnd then aptPartitionEnd part.startingLba parts
    else aptPartitionEnd partitionEnd parts

/-- The locals of `main` from the reading of the mbr on. -/
structure Locals where
  mbr : ByteMemory
  aptPartitionAvailable : Nat
  stSize : Nat
  imageSectors : Nat

/-- `osRecord`. -/
def osRecord (name : List (BitVec 8)) (imageSectors : Nat) : ByteMemory :=
  let zeroed : ByteMemory := fun _ => 0
  (((zeroed.write32 0 aptBootMagic).put 4 name.length fun i => name.getD i 0).write32
    20 aptBootSectors).write32 24 imageSectors

/-- `OsLogo`. -/
def osLogo : ByteMemory := fun _ => 0

/-- `mbr` with the partition table in it, as it is written at the end. -/
def Locals.aptMbr (l : Locals) : ByteMemory :=
  ((((l.mbr.put 0 164 fun _ => 0).write8 15 0xff).write32 144 aptMagic).write32
    24 l.aptPartitionAvailable).write32 28 1

/-! ### The program -/

/-- The locals of `ReadFully` and `WriteFully`: `buffer` points into `memory`. -/
structure Transfer where
  memory : ByteMemory
  buffer : Nat
  size : Nat
  offset : Int

/-- `buffer += current; size -= current; offset += current`. -/
def Transfer.advance (t : Transfer) (current : Nat) : Transfer :=
  { t with buffer := t.buffer + current, size := t.size - current, offset := t.offset + current }

/-- The bytes from `buffer` on. -/
def Transfer.data (t : Transfer) : ByteMemory := fun i => t.memory (t.buffer + i)

/-- The locals of `CopyData`. -/
structure Copy where
  buffer : ByteMemory
  size : Nat
  srcPos : Int
  dstPos : Int

/-- `size -= current; srcPos += current; dstPos += current`. -/
def Copy.advance (c : Copy) (current : Int) : Copy :=
  { c with size := sizeT (c.size - current), srcPos := c.srcPos + current
           dstPos := c.dstPos + current }

/-- The system call that the program stands at, with the locals of the loop it is in. -/
inductive Point where
  | readMbr (t : Transfer)
  | copyRead (l : Locals) (c : Copy)
  | copyWrite (l : Locals) (c : Copy) (current : Int) (t : Transfer)
  | writeRecord (l : Locals) (t : Transfer)
  | writeLogo (l : Locals) (t : Transfer)
  | writeMbr (l : Locals) (t : Transfer)
  | exited (code : Nat)

structure State where
  disk : File
  point : Point

/-- `argv[3]`. -/
def Host.name (h : Host) : List (BitVec 8) := h.args.getD 3 []

def startRecord (h : Host) (l : Locals) : Point :=
  .writeRecord l
    { memory := osRecord h.name l.imageSectors, buffer := 0, size := 28
      offset := (aptStartSector + 1) * sectorSize }

def startLogo (l : Locals) : Point :=
  .writeLogo l
    { memory := osLogo, buffer := 0, size := 512, offset := (aptStartSector + 2) * sectorSize }

def startMbr (l : Locals) : Point :=
  .writeMbr l { memory := l.aptMbr, buffer := 0, size := 512, offset := 0 }

/-- The loop test of `CopyData`. -/
def copyLoop (h : Host) (l : Locals) (c : Copy) : Point :=
  if c.size ≠ 0 then .copyRead l c else startRecord h l

/-- `WriteFully(dst, buffer, current, dstPos)` in `CopyData`. -/
def startCopyWrite (h : Host) (l : Locals) (c : Copy) (current : Int) : Point :=
  if sizeT current ≠ 0 then
    .copyWrite l c current
      { memory := c.buffer, buffer := 0, size := sizeT current, offset := c.dstPos }
  else copyLoop h l (c.advance current)

/-- `main` from the reading of the mbr to the first read of the image. -/
def checkMbr (h : Host) (mbr : ByteMemory) : Point :=
  if mbr.read16 510 ≠ mbrSignature then .exited 1
  else
    match aptPartitionEnd (defaultAvailSize / sectorSize) ((List.range 4).map (mbrPartition mbr)) with
    | none => .exited 1
    | some partitionEnd =>
      if partitionEnd ≤ aptStartSector then .exited 1
      else if !h.imageOpens then .exited 1
      else
        match h.stSize with
        | none => .exited 1
        | some stSize =>
          let l : Locals :=
            { mbr
              aptPartitionAvailable := partitionEnd - aptStartSector
              stSize
              imageSectors := uint32 ((stSize + (sectorSize - 1)) / sectorSize) }
          if l.aptPartitionAvailable < uint32 (aptBootSectors + l.imageSectors) then .exited 1
          else
            copyLoop h l
              { buffer := h.bufferStack, size := stSize, srcPos := 0
                dstPos := (aptStartSector + aptBootSectors) * sectorSize }

/-- `main` up to the first read. -/
def Host.start (h : Host) : State where
  disk := h.disk
  point :=
    if h.args.length ≠ 4 then .exited 2
    else if 15 < h.name.length then .exited 1
    else if !h.diskOpens then .exited 1
    else .readMbr { memory := h.mbrStack, buffer := 0, size := sectorSize, offset := 0 }

/-- The end of a turn of the loop in `WriteFully`. -/
def writeLoop (disk : File) (t : Transfer) (again : Transfer → Point) (done : Point) :
    Option Nat → State
  | none => { disk, point := .exited 1 }
  | some current =>
    { disk := disk.write t.offset.toNat current t.data
      point := if (t.advance current).size ≠ 0 then again (t.advance current) else done }

/-- What the call that the program stands at returns. -/
def Host.result (h : Host) (r : Response) (s : State) : Option (Option Nat) :=
  match s.point with
  | .readMbr t => some (s.disk.pread r t.size t.offset)
  | .copyRead _ c => some (h.image.pread r (min bufferSize c.size) c.srcPos)
  | .copyWrite _ _ _ t => some (pwrite r t.size t.offset)
  | .writeRecord _ t => some (pwrite r t.size t.offset)
  | .writeLogo _ t => some (pwrite r t.size t.offset)
  | .writeMbr _ t => some (pwrite r t.size t.offset)
  | .exited _ => none

/-- The call that the program stands at, and on to the next one. -/
def Host.step (h : Host) (r : Response) (s : State) : State :=
  match s.point with
  | .readMbr t =>
    match s.disk.pread r t.size t.offset with
    | none => { s with point := .exited 1 }
    | some current =>
      let t' :=
        { t.advance current with
          memory := t.memory.put t.buffer current fun i => s.disk.bytes (t.offset.toNat + i) }
      { s with point := if t'.size ≠ 0 then .readMbr t' else checkMbr h t'.memory }
  | .copyRead l c =>
    match h.image.pread r (min bufferSize c.size) c.srcPos with
    -- `perror`, and on with a `current` of -1
    | none => { s with point := startCopyWrite h l c (-1) }
    | some current =>
      let c' :=
        { c with
          buffer := c.buffer.put 0 current fun i => h.image.bytes (c.srcPos.toNat + i) }
      { s with point := startCopyWrite h l c' current }
  | .copyWrite l c current t =>
    writeLoop s.disk t (.copyWrite l c current) (copyLoop h l (c.advance current))
      (pwrite r t.size t.offset)
  | .writeRecord l t =>
    writeLoop s.disk t (.writeRecord l) (startLogo l) (pwrite r t.size t.offset)
  | .writeLogo l t => writeLoop s.disk t (.writeLogo l) (startMbr l) (pwrite r t.size t.offset)
  | .writeMbr l t => writeLoop s.disk t (.writeMbr l) (.exited 0) (pwrite r t.size t.offset)
  | .exited _ => s

/-- The program after its first `n` calls. -/
def Host.run (h : Host) (n : Nat) : State := Driven.driven h.step h.start h.responses n

end XrLinux.InstallApt
