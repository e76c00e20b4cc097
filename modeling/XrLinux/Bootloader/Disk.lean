import XrLinux.Lib.ByteMemory
import XrLinux.Lib.Prog
import XrLinux.Bootloader.List

/-!
# Bootloader — `partition.c` and `BxReadFromDisk`

How the bootloader reads the disk: whole sectors from the firmware, through a cache of 16 blocks of
4096 bytes, and on top of it the bytes of the root partition.

The firmware is not part of the sources: `Firmware` is what it is asked with, and `Serves` what its
read call is there for. A destination in memory is an address in a `ByteMemory`; the cache has a
memory of its own, `BiBCacheData`. Every call of the firmware goes into `requests`, the last one
first, with its sector and its count as `BxReadFromDisk` computes them.
-/

namespace XrLinux.Bootloader

def add64 (x y : Nat) : Nat := (x + y) % 18446744073709551616

def sub64 (x y : Nat) : Nat := (x + 18446744073709551616 - y) % 18446744073709551616

/-- `BL_SECTOR_SIZE`. -/
def sectorSize : Nat := 512

/-- `BI_BCACHE_SIZE`. -/
def bcacheSize : Nat := 4096

/-- `BL_BCACHE_COUNT`. -/
def bcacheCount : Nat := 16

/-- `BxBootDisk` and `ReadDisk` of `BxApiTable`: the bytes it delivers, or that it failed. -/
structure Firmware where
  sectorCount : Nat
  sectorCount_lt : sectorCount < 4294967296
  readDisk : Nat → Nat → Option (Nat → BitVec 8)

/-- The firmware reads the sectors there are, and `disk` is what they hold. -/
def Firmware.Serves (fw : Firmware) (disk : ByteMemory) : Prop :=
  ∀ sector count, sector + count ≤ fw.sectorCount → ∃ bytes, fw.readDisk sector count = some bytes ∧
    ∀ i < count * sectorSize, bytes i = disk (sector * sectorSize + i)

/-- The firmware of a disk image. -/
def Firmware.ofImage (disk : ByteMemory) (sectorCount : Nat) (hlt : sectorCount < 4294967296) :
    Firmware where
  sectorCount := sectorCount
  sectorCount_lt := hlt
  readDisk sector count :=
    if sector + count ≤ sectorCount then some fun i => disk (sector * sectorSize + i) else none

theorem Firmware.ofImage_serves (disk : ByteMemory) (sectorCount : Nat)
    (hlt : sectorCount < 4294967296) : (ofImage disk sectorCount hlt).Serves disk := by
  intro sector count hin
  exact ⟨_, if_pos hin, fun _ _ => rfl⟩

/-- The bytes on the disk. -/
def Firmware.diskSize (fw : Firmware) : Nat := fw.sectorCount * sectorSize

/-- `struct BiBCacheMeta`. An entry is its index in the array of them plus 1, and `data` an offset
in `BiBCacheData`. -/
structure BCacheMeta where
  prev : Nat
  next : Nat
  block : Nat
  data : Nat

structure BCache where
  metas : Nat → BCacheMeta
  data : ByteMemory
  used : Nat
  list : BlList

def BCache.init : BCache :=
  { metas := fun _ => { prev := 0, next := 0, block := 0, data := 0 }
    data := fun _ => 0
    used := 0
    list := .init }

structure DiskState where
  cache : BCache
  requests : List (Nat × Nat)

def DiskState.init : DiskState := { cache := .init, requests := [] }

abbrev DiskProg := Prog DiskState Stop

/-- The field `Node` of an entry. -/
def cacheNode : NodeStore (Nat → BCacheMeta) where
  prev metas entry := (metas entry).prev
  next metas entry := (metas entry).next
  setPrev metas entry v := Function.update metas entry { metas entry with prev := v }
  setNext metas entry v := Function.update metas entry { metas entry with next := v }

namespace BCache

def next (c : BCache) (entry : Nat) : Nat := container 0 (cacheNode.next c.metas entry)

/-- `BlListRemove(&BiBCache, &entry->Node)`. -/
def remove (c : BCache) (entry : Nat) : BCache :=
  let (metas, list) := blListRemove cacheNode c.metas c.list entry
  { c with metas, list }

/-- `BlListInsertAfter(&BiBCache, nullptr, &entry->Node)`. -/
def insertFront (c : BCache) (entry : Nat) : BCache :=
  let (metas, list) := blListInsertAfter cacheNode c.metas c.list 0 entry
  { c with metas, list }

/-- The entry that holds `block`. -/
def find (c : BCache) (block : Nat) : Except Stop (Option Nat) :=
  foreach c.next
    (fun entry found => if (c.metas entry).block = block then .done (some entry) else .yield found)
    rounds (container 0 c.list.head) none

/-- An entry to read a block into: one that was never used, or the last of the list. -/
def claim (c : BCache) : BCache × Nat :=
  if c.used < bcacheCount then
    let entry := c.used + 1
    ({ c with
        metas := Function.update c.metas entry { c.metas entry with data := c.used * bcacheSize }
        used := c.used + 1 }, entry)
  else
    let entry := container 0 c.list.tail
    (c.remove entry, entry)

/-- The block has been read into the entry. -/
def fill (c : BCache) (entry block : Nat) : BCache :=
  { c with metas := Function.update c.metas entry { c.metas entry with block } }.insertFront entry

end BCache

def setCache (cache : BCache) : DiskProg Unit := Prog.modify fun s => { s with cache }

/-- What `ReadDisk` put in the buffer. -/
structure Delivery where
  size : Nat
  bytes : Nat → BitVec 8

/-- `BxReadFromDisk`. -/
def bxReadFromDisk (fw : Firmware) (buffer sector count : Nat) : DiskProg (Option Delivery) :=
  if buffer % sectorSize ≠ 0 then Prog.stop (.crash "BxReadFromDisk: unaligned buffer")
  else
    let stop := add64 sector count
    if stop < sector then pure none
    else do
      let stop := if stop > fw.sectorCount then fw.sectorCount else stop
      let count := sub64 stop sector
      Prog.modify fun s => { s with requests := (sector, count) :: s.requests }
      -- `ReadDisk` takes both as `uint32_t`
      let count32 := count % 4294967296
      return (fw.readDisk (sector % 4294967296) count32).map
        fun bytes => { size := count32 * sectorSize, bytes }

/-- `BiGetBCacheEntry`: where in `BiBCacheData` the block is. -/
def biGetBCacheEntry (fw : Firmware) (block : Nat) : DiskProg Nat := do
  let c := (← Prog.get).cache
  match ← Prog.lift (c.find block) with
  | some entry =>
    setCache ((c.remove entry).insertFront entry)
    return (c.metas entry).data
  | none =>
    let (c, entry) := c.claim
    setCache c
    let data := (c.metas entry).data
    match ← bxReadFromDisk fw data (block * (bcacheSize / sectorSize)) (bcacheSize / sectorSize) with
    | none => Prog.stop (.crash "failed to read from disk")
    | some delivery =>
      setCache ({ c with data := c.data.put data delivery.size delivery.bytes }.fill entry block)
      return data

/-- The loop of `BiReadFromDisk`, for `fuel` rounds at most. -/
def readCached (fw : Firmware) : Nat → ByteMemory → Nat → Nat → Nat → DiskProg ByteMemory
  | 0, _, _, _, _ => Prog.stop .diverges
  | fuel + 1, m, buffer, position, count =>
    if count = 0 then pure m
    else do
      let offset := position % bcacheSize
      let current := min (bcacheSize - offset) count
      let data ← biGetBCacheEntry fw (position / bcacheSize)
      let c := (← Prog.get).cache
      let m := m.put buffer current fun i => c.data (data + offset + i)
      readCached fw fuel m (buffer + current) (position + current) (count - current)

/-- `BiReadFromDisk`: the memory with the bytes in the buffer. -/
def biReadFromDisk (fw : Firmware) (m : ByteMemory) (buffer position count : Nat)
    (bypassCache : Bool) : DiskProg ByteMemory :=
  if bypassCache then
    if position % sectorSize ≠ 0 then Prog.stop (.crash "BiReadFromDisk: unaligned position")
    else if count % sectorSize ≠ 0 then Prog.stop (.crash "BiReadFromDisk: unaligned size")
    else do
      match ← bxReadFromDisk fw buffer (position / sectorSize) (count / sectorSize) with
      | none => Prog.stop (.crash "failed to read from disk")
      | some delivery => return m.put buffer delivery.size delivery.bytes
  else readCached fw (count + 1) m buffer position count

/-- `struct BlPartition`. -/
structure BlPartition where
  start : Nat
  size : Nat

/-- `BlReadFromPartition`, with `part` for `BlRootPartition`. -/
def blReadFromPartition (fw : Firmware) (part : BlPartition) (m : ByteMemory)
    (buffer position count : Nat) (bypassCache : Bool) : DiskProg ByteMemory :=
  let stop := add64 position count
  if stop < position ∨ stop > part.size then
    Prog.stop (.crash "tried to read beyond partition bounds")
  else biReadFromDisk fw m buffer (add64 part.start position) count bypassCache

end XrLinux.Bootloader
