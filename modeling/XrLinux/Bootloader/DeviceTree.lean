import Mathlib.Logic.Function.Basic
import XrLinux.Bootloader.HeapClient

/-!
# Bootloader — `dt.c`

The device tree that the bootloader builds for the kernel. Its objects lie in blocks of the heap
and are addressed by them: `strings` and `nodes` are what is at an address, a string or a node with
the text that its pointer leads to; the two kinds of list run through them. The blob is made of
bytes, in the memory of the heap.

    struct BlDtString   Node @0, Data @8, Identifier @12
    struct BlDtProperty Name @0, Data @4, Size @8
    struct BlDtNode     Parent @0, Node @4, Name @12, Children @16, Properties @24,
                        NumberOfProperties @28
-/

namespace XrLinux.Bootloader

open ByteMemory

def mul32 (x y : Nat) : Nat := x * y % 4294967296

/-- A string of C, less its terminator. It is not all there is in the address space. -/
structure CString where
  bytes : List (BitVec 8)
  noNul : ∀ b ∈ bytes, b ≠ 0
  fits : bytes.length + 28 < 4294967296
  deriving DecidableEq

namespace CString

def empty : CString := { bytes := [], noNul := nofun, fits := by decide }

/-- `BlStringLength`. -/
def length (s : CString) : Nat := s.bytes.length

/-- The bytes in memory. -/
def chars (s : CString) : List (BitVec 8) := s.bytes ++ [0]

end CString

/-- `strcmp`, on strings without their terminators. -/
def strcmp : List (BitVec 8) → List (BitVec 8) → Int
  | [], [] => 0
  | [], c2 :: _ => -c2.toNat
  | c1 :: _, [] => c1.toNat
  | c1 :: s1, c2 :: s2 =>
    let diff : Int := c1.toNat - c2.toNat
    if diff ≠ 0 then diff else if c1 = 0 then 0 else strcmp s1 s2

def blCompareStrings (s1 s2 : CString) : Int := strcmp s1.bytes s2.bytes

def blDtHash (str : CString) : Nat :=
  str.bytes.foldl (fun hash c => mul32 (hash ^^^ c.toNat) 0x01000193) 0x811c9dc5

/-- `struct BlDtString`. -/
structure DtString where
  prev : Nat
  next : Nat
  data : Nat
  text : CString
  identifier : Nat

/-- `struct BlDtProperty`; `bytes` are the `Size` bytes at `Data`. -/
structure DtProperty where
  name : Nat
  data : Nat
  bytes : List (BitVec 8)

/-- `struct BlDtNode`. -/
structure DtNode where
  parent : Nat
  prev : Nat
  next : Nat
  name : Nat
  text : CString
  children : BlList
  properties : Nat
  props : List DtProperty

def stringNode : NodeStore (Nat → DtString) where
  prev m p := (m p).prev
  next m p := (m p).next
  setPrev m p v := Function.update m p { m p with prev := v }
  setNext m p v := Function.update m p { m p with next := v }

/-- `offsetof(struct BlDtNode, Node)`. -/
def nodeOffset : Nat := 4

def treeNode : NodeStore (Nat → DtNode) where
  prev m p := (m (p - nodeOffset)).prev
  next m p := (m (p - nodeOffset)).next
  setPrev m p v := Function.update m (p - nodeOffset) { m (p - nodeOffset) with prev := v }
  setNext m p v := Function.update m (p - nodeOffset) { m (p - nodeOffset) with next := v }

/-- The variables of `dt.c` and what they lead to. `root` is `&BlDtRootNode`, and `buckets` is the
table at `BlDtStrings`. -/
structure DeviceTree where
  world : World
  root : Nat
  rsvMem : Nat
  rsvEntries : List (Nat × Nat)
  table : Nat
  buckets : Nat → BlList
  stringsCount : Nat
  stringsCapacity : Nat
  stringsSize : Nat
  strings : Nat → DtString
  nodes : Nat → DtNode
  structureSize : Nat

/-- `sizeof` of all variables of `dt.c`. -/
def staticsSize : Nat := 60

namespace DeviceTree

/-- The variables as they are initialised, with a heap and whatever is at the other addresses. -/
def start (world : World) (root name : Nat) (strings : Nat → DtString) (nodes : Nat → DtNode) :
    DeviceTree where
  world
  root
  rsvMem := 0
  rsvEntries := []
  table := 0
  buckets := fun _ => .init
  stringsCount := 0
  stringsCapacity := 0
  stringsSize := 0
  strings
  nodes := Function.update nodes root
    { parent := 0, prev := 0, next := 0, name, text := .empty, children := .init, properties := 0
      props := [] }
  structureSize := 16

/-! ## Strings -/

/-- The search in a bucket. -/
def findString (t : DeviceTree) (bucket : Nat) (str : CString) : Except Stop (Option Nat) :=
  foreach (fun entry => container 0 (stringNode.next t.strings entry))
    (fun entry found =>
      if blCompareStrings (t.strings entry).text str = 0 then .done (some entry) else .yield found)
    rounds (container 0 (t.buckets bucket).head) none

/-- The inner loop of the rehash: every string of an old chain goes to the front of its new one. -/
def relinkChain (newCapacity : Nat) :
    Nat → (Nat → DtString) × (Nat → BlList) → Nat →
      Except Stop ((Nat → DtString) × (Nat → BlList))
  | 0, _, _ => .error .diverges
  | fuel + 1, (strings, newTable), cur =>
    if cur ≠ 0 then
      let next := container 0 (stringNode.next strings cur)
      let newBucket := blDtHash (strings cur).text &&& sub32 newCapacity 1
      let (strings, chain) := blListInsertAfter stringNode strings (newTable newBucket) 0 cur
      relinkChain newCapacity fuel (strings, Function.update newTable newBucket chain) next
    else .ok (strings, newTable)

/-- The rehash, into an empty table. -/
def relink (t : DeviceTree) (newCapacity : Nat) : Except Stop ((Nat → DtString) × (Nat → BlList)) :=
  (List.range t.stringsCapacity).foldlM
    (fun s i => relinkChain newCapacity rounds s (container 0 (t.buckets i).head))
    (t.strings, fun _ => .init)

/-- What `BlDtGetString` does first when the table is full by three quarters. -/
def growTable (t : DeviceTree) : Except Stop DeviceTree := do
  let newCapacity := if t.stringsCapacity ≠ 0 then mul32 t.stringsCapacity 2 else 8
  let (world, table) ← t.world.allocate (mul32 newCapacity 8) 4 false
  let (strings, buckets) ← t.relink newCapacity
  let world := world.release t.table
  return { t with world, table, buckets, strings, stringsCapacity := newCapacity }

/-- A new string, at the front of its bucket. -/
def addString (t : DeviceTree) (hash : Nat) (str : CString) : Except Stop (DeviceTree × Nat) := do
  let (world, entry) ← t.world.allocate 16 4 false
  let (world, data) ← world.allocate (add32 str.length 1) 1 false
  let strings := Function.update t.strings entry { t.strings entry with data, text := str }
  let bucket := hash &&& sub32 t.stringsCapacity 1
  let (strings, chain) := blListInsertAfter stringNode strings (t.buckets bucket) 0 entry
  let buckets := Function.update t.buckets bucket chain
  let stringsSize := add32 t.stringsSize (add32 str.length 1)
  return ({ t with world, strings, buckets, stringsCount := t.stringsCount + 1, stringsSize }, entry)

def blDtGetString (t : DeviceTree) (str : CString) : Except Stop (DeviceTree × Nat) := do
  let hash := blDtHash str
  let found ←
    if t.stringsCount ≠ 0 then t.findString (hash &&& sub32 t.stringsCapacity 1) str else .ok none
  match found with
  | some entry => return (t, entry)
  | none =>
    let t ←
      if t.stringsCount ≥ t.stringsCapacity - t.stringsCapacity / 4 then t.growTable else .ok t
    t.addString hash str

/-! ## Nodes and properties -/

def blDtAddReservedMemory (t : DeviceTree) (base size : Nat) : Except Stop DeviceTree := do
  let (world, rsvMem) ← t.world.reallocate t.rsvMem (mul32 16 (t.rsvEntries.length + 1)) 4
  return { t with world, rsvMem, rsvEntries := t.rsvEntries ++ [(base, size)] }

/-- `if (!parent) parent = &BlDtRootNode`. -/
def orRoot (t : DeviceTree) (node : Nat) : Nat := if node ≠ 0 then node else t.root

/-- `BL_DT_NODE_SIZE`. -/
def nodeSize (nameLength : Nat) : Nat := add32 8 (alignUp (add32 nameLength 1) 4)

/-- `BL_DT_PROP_SIZE`. -/
def propSize (dataSize : Nat) : Nat := add32 12 (alignUp dataSize 4)

def blDtCreateNode (t : DeviceTree) (parent : Nat) (name : CString) :
    Except Stop (DeviceTree × Nat) := do
  let parent := t.orRoot parent
  let (world, node) ← t.world.allocate 32 4 false
  let (world, nameAt) ← world.allocate (add32 name.length 1) 1 false
  let object := { t.nodes node with parent, name := nameAt, text := name, children := .init, properties := 0, props := [] }
  let nodes := Function.update t.nodes node object
  let (nodes, children) :=
    blListInsertBefore treeNode nodes (nodes parent).children 0 (node + nodeOffset)
  let nodes := Function.update nodes parent { nodes parent with children }
  let structureSize := add32 t.structureSize (nodeSize name.length)
  return ({ t with world, nodes, structureSize }, node)

def blDtDoAddProperty (t : DeviceTree) (parent : Nat) (name : CString) (data : Nat)
    (bytes : List (BitVec 8)) : Except Stop DeviceTree := do
  let parent := t.orRoot parent
  let count := (t.nodes parent).props.length + 1
  let (world, properties) ← t.world.reallocate (t.nodes parent).properties (mul32 12 count) 4
  let (t, name) ← { t with world }.blDtGetString name
  let property : DtProperty := { name, data, bytes }
  let props := (t.nodes parent).props ++ [property]
  let nodes := Function.update t.nodes parent { t.nodes parent with properties, props }
  return { t with nodes, structureSize := add32 t.structureSize (propSize bytes.length) }

def blDtAddProperty (t : DeviceTree) (parent : Nat) (name : CString) (data : List (BitVec 8)) :
    Except Stop DeviceTree := do
  let (world, buffer) ← t.world.allocate data.length 1 false
  { t with world }.blDtDoAddProperty parent name buffer data

end DeviceTree

/-- `BlSwap32`. -/
def blSwap32 (x : Nat) : Nat :=
  x >>> 24 ||| (x &&& 0xff) <<< 24 ||| (x &&& 0xff00) <<< 8 ||| (x &&& 0xff0000) >>> 8

/-- The bytes of a word in memory. -/
def wordBytes (x : Nat) : List (BitVec 8) :=
  [.ofNat 8 x, .ofNat 8 (x / 256), .ofNat 8 (x / 65536), .ofNat 8 (x / 16777216)]

namespace DeviceTree

def blDtAddPropertyU32s (t : DeviceTree) (parent : Nat) (name : CString) (data : List Nat) :
    Except Stop DeviceTree := do
  let (world, buffer) ← t.world.allocate (mul32 data.length 4) 4 false
  { t with world }.blDtDoAddProperty parent name buffer (data.flatMap fun v => wordBytes (blSwap32 v))

def blDtAddPropertyStrings (t : DeviceTree) (parent : Nat) (name : CString) (data : List CString) :
    Except Stop DeviceTree := do
  let size := data.foldl (fun size str => add32 size (add32 str.length 1)) 0
  let (world, buffer) ← t.world.allocate size 1 false
  { t with world }.blDtDoAddProperty parent name buffer (data.flatMap CString.chars)

/-- `BL_LIST_FOREACH` over the children of a node. -/
def nextChild (t : DeviceTree) (node : Nat) : Nat :=
  container nodeOffset (treeNode.next t.nodes (node + nodeOffset))

def firstChild (t : DeviceTree) (node : Nat) : Nat :=
  container nodeOffset (t.nodes node).children.head

def blDtFindNode (t : DeviceTree) (parent : Nat) (name : CString) : Except Stop (Option Nat) :=
  foreach t.nextChild
    (fun node found =>
      if blCompareStrings (t.nodes node).text name = 0 then .done (some node) else .yield found)
    rounds (t.firstChild (t.orRoot parent)) none

/-! ## Paths -/

end DeviceTree

/-- `BlAssertionFailed`. -/
def assertionFailed (expr func : String) (line : Nat) : Stop :=
  .crash ("assertion failed: `" ++ expr ++ "` in " ++ func ++ " at dt.c:" ++ toString line)

/-- `BlCopyMemory`, of bytes that are known. -/
def storeBytes (m : ByteMemory) (a : Nat) (bytes : List (BitVec 8)) : ByteMemory :=
  m.put a bytes.length fun i => bytes.getD i 0

def World.setMem (w : World) (mem : ByteMemory) : World := { w with heap := { w.heap with mem } }

namespace DeviceTree

/-- The walk that measures the path. -/
def pathSize (t : DeviceTree) : Nat → Nat → Nat → Except Stop Nat
  | 0, _, _ => .error .diverges
  | fuel + 1, current, size =>
    if (t.nodes current).parent ≠ 0 then
      let size := add32 size (add32 (t.nodes current).text.length 1)
      pathSize t fuel (t.nodes current).parent size
    else .ok size

/-- The walk that writes it, from its end to its start. -/
def fillPath (t : DeviceTree) (path : Nat) :
    Nat → Nat → ByteMemory → Nat → Except Stop (ByteMemory × Nat)
  | 0, _, _, _ => .error .diverges
  | fuel + 1, current, mem, size =>
    if (t.nodes current).parent ≠ 0 then
      let size := sub32 size (t.nodes current).text.length
      let mem := storeBytes mem (add32 path size) (t.nodes current).text.bytes
      let size := sub32 size 1
      let mem := mem.write8 (add32 path size) 0x2f
      fillPath t path fuel (t.nodes current).parent mem size
    else .ok (mem, size)

def blDtNodePath (t : DeviceTree) (node : Nat) : Except Stop (DeviceTree × Nat) := do
  if node = 0 then .error (assertionFailed "node != nullptr" "BlDtNodePath" 202)
  let size ← t.pathSize rounds node 1
  let (world, path) ← t.world.allocate size 1 false
  let size := sub32 size 1
  let mem := world.heap.mem.write8 (add32 path size) 0
  let (mem, size) ← t.fillPath path rounds node mem size
  if size ≠ 0 then .error (assertionFailed "size == 0" "BlDtNodePath" 220)
  return ({ t with world := world.setMem mem }, path)

/-! ## The blob -/

end DeviceTree

/-- `sizeof(struct BlFdtHeader)`. -/
def fdtHeaderSize : Nat := 40

/-- The fields of `BlKernelHeader` that the device tree is placed by. -/
structure KernelHeader where
  mapDtb : Bool
  dtbAddress : Nat
  maxDtbEnd : Nat

/-- A word in big-endian order. -/
def writeBe32 (m : ByteMemory) (a v : Nat) : ByteMemory := m.write32 a (blSwap32 v)

def write64 (m : ByteMemory) (a v : Nat) : ByteMemory :=
  (m.write32 a v).write32 (a + 4) (v / 4294967296)

/-- The loop that maps the blob, page by page. -/
def mapBlob (mapPage : Nat → Nat → World → Except Stop World) (virt phys totalSize : Nat) :
    Nat → Nat → World → Except Stop World
  | 0, _, _ => .error .diverges
  | fuel + 1, offset, world =>
    if offset < totalSize then do
      let world ← mapPage (add32 virt offset) (add32 phys offset) world
      mapBlob mapPage virt phys totalSize fuel (add32 offset 4096) world
    else .ok world

/-- The reservation block, the entry that ends it included. -/
def writeRsvmap : ByteMemory → Nat → List (Nat × Nat) → ByteMemory
  | m, a, [] => write64 (write64 m a 0) (a + 8) 0
  | m, a, (address, size) :: entries =>
    writeRsvmap (write64 (write64 m a address) (a + 8) size) (a + 16) entries

/-- What the loops that fill a block of the blob carry along. -/
structure Emitted where
  mem : ByteMemory
  offset : Nat

/-- `BlDtAddDataAndAlign`. -/
def blDtAddDataAndAlign (structureSize base : Nat) (data : List (BitVec 8)) (s : Emitted) :
    Except Stop Emitted :=
  let aligned := alignUp data.length 4
  let newOff := add32 s.offset aligned
  if newOff > structureSize then
    .error (assertionFailed "newOff <= BlDtStructureSize" "BlDtAddDataAndAlign" 261)
  else
    let mem := storeBytes s.mem (base + s.offset) data
    let padding := List.replicate (sub32 aligned data.length) 0
    .ok { mem := storeBytes mem (base + s.offset + data.length) padding, offset := newOff }

/-- `BlDtAddToken`. -/
def blDtAddToken (structureSize base token : Nat) (s : Emitted) : Except Stop Emitted :=
  let newOff := add32 s.offset 4
  if newOff > structureSize then
    .error (assertionFailed "newOff <= BlDtStructureSize" "BlDtAddToken" 272)
  else .ok { mem := writeBe32 s.mem (base + s.offset) token, offset := newOff }

namespace DeviceTree

/-- The strings of a chain, from `cur` on, go to the strings block and get their identifiers. -/
def emitChain (t : DeviceTree) (base : Nat) :
    Nat → Nat → (Nat → DtString) × Emitted → Except Stop ((Nat → DtString) × Emitted)
  | 0, _, _ => .error .diverges
  | fuel + 1, cur, (strings, s) =>
    if cur ≠ 0 then
      let size := add32 (strings cur).text.length 1
      let newOffset := add32 s.offset size
      if newOffset > t.stringsSize then
        .error (assertionFailed "newOffset <= BlDtStringsSize" "BlDtBuildBlob" 334)
      else
        let strings := Function.update strings cur { strings cur with identifier := s.offset }
        let mem := storeBytes s.mem (base + s.offset) (strings cur).text.chars
        let next := container 0 (stringNode.next strings cur)
        emitChain t base fuel next (strings, { mem, offset := newOffset })
    else .ok (strings, s)

/-- The strings block. -/
def emitStrings (t : DeviceTree) (base : Nat) (mem : ByteMemory) :
    Except Stop ((Nat → DtString) × ByteMemory) := do
  let (strings, s) ← (List.range t.stringsCapacity).foldlM
    (fun s i => t.emitChain base rounds (container 0 (t.buckets i).head) s)
    (t.strings, { mem, offset := 0 })
  if s.offset ≠ t.stringsSize then
    .error (assertionFailed "offset == BlDtStringsSize" "BlDtBuildBlob" 342)
  return (strings, s.mem)

def emitProperty (t : DeviceTree) (base : Nat) (s : Emitted) (property : DtProperty) :
    Except Stop Emitted := do
  let s ← blDtAddToken t.structureSize base 3 s
  let s ← blDtAddToken t.structureSize base property.bytes.length s
  let s ← blDtAddToken t.structureSize base (t.strings property.name).identifier s
  blDtAddDataAndAlign t.structureSize base property.bytes s

/-- What stands at the start of a node. -/
def emitNode (t : DeviceTree) (base node : Nat) (s : Emitted) : Except Stop Emitted := do
  let s ← blDtAddToken t.structureSize base 1 s
  let s ← blDtAddDataAndAlign t.structureSize base (t.nodes node).text.chars s
  (t.nodes node).props.foldlM (fun s property => t.emitProperty base s property) s

/-- The loop over the tree. A node is entered from its parent; else one of its children is
done. -/
def emitFrom (t : DeviceTree) (base : Nat) : Nat → Nat → Nat → Emitted → Except Stop Emitted
  | 0, _, _, _ => .error .diverges
  | fuel + 1, node, previous, s =>
    if node = 0 then .ok s
    else if previous = (t.nodes node).parent then do
      let s ← t.emitNode base node s
      let next := t.firstChild node
      if next ≠ 0 then emitFrom t base fuel next node s
      else do
        let s ← blDtAddToken t.structureSize base 2 s
        emitFrom t base fuel (t.nodes node).parent node s
    else do
      let next := t.nextChild previous
      if next ≠ 0 then emitFrom t base fuel next node s
      else do
        let s ← blDtAddToken t.structureSize base 2 s
        emitFrom t base fuel (t.nodes node).parent node s

/-- The structure block. -/
def emitStructure (t : DeviceTree) (base : Nat) (mem : ByteMemory) : Except Stop ByteMemory := do
  let s ← t.emitFrom base rounds t.root 0 { mem, offset := 0 }
  let s ← blDtAddToken t.structureSize base 9 s
  if s.offset ≠ t.structureSize then
    .error (assertionFailed "offset == BlDtStructureSize" "BlDtBuildBlob" 379)
  return s.mem

def rsvMapSize (t : DeviceTree) : Nat := mul32 (add32 t.rsvEntries.length 1) 16

def totalSize (t : DeviceTree) : Nat :=
  add32 (add32 (add32 fdtHeaderSize t.rsvMapSize) t.structureSize) t.stringsSize

def writeHeader (t : DeviceTree) (whami header : Nat) (m : ByteMemory) : ByteMemory :=
  let m := writeBe32 m header 0xd00dfeed
  let m := writeBe32 m (header + 4) t.totalSize
  let m := writeBe32 m (header + 8) (add32 fdtHeaderSize t.rsvMapSize)
  let m := writeBe32 m (header + 12) (add32 (add32 fdtHeaderSize t.rsvMapSize) t.structureSize)
  let m := writeBe32 m (header + 16) fdtHeaderSize
  let m := writeBe32 m (header + 20) 17
  let m := writeBe32 m (header + 24) 16
  let m := writeBe32 m (header + 28) whami
  let m := writeBe32 m (header + 32) t.stringsSize
  writeBe32 m (header + 36) t.structureSize

/-- The memory for the blob, mapped when the kernel asks for it. -/
def placeBlob (t : DeviceTree) (kernel : KernelHeader)
    (mapPage : Nat → Nat → World → Except Stop World) : Except Stop (World × Nat) := do
  let totalSize := t.totalSize
  if kernel.mapDtb then
    if add32 kernel.dtbAddress (sub32 totalSize 1) > kernel.maxDtbEnd then
      .error (.crash "device tree too large to map")
  let (world, header) ← t.world.allocate totalSize (if kernel.mapDtb then max 8 4096 else 8) true
  let world ←
    if kernel.mapDtb then mapBlob mapPage kernel.dtbAddress header totalSize rounds 0 world
    else .ok world
  return (world, header)

/-- `BlDtBuildBlob`; `whami` is what `BlReadWhami` reads, and `mapPage` is `BlMapPage`. -/
def blDtBuildBlob (t : DeviceTree) (kernel : KernelHeader) (whami : Nat)
    (mapPage : Nat → Nat → World → Except Stop World) : Except Stop (DeviceTree × Nat) := do
  let (world, header) ← t.placeBlob kernel mapPage
  let rsvmap := header + fdtHeaderSize
  let structureBase := rsvmap + t.rsvMapSize
  let stringsBase := structureBase + t.structureSize
  let mem := t.writeHeader whami header world.heap.mem
  let mem := writeRsvmap mem rsvmap t.rsvEntries
  let (strings, mem) ← t.emitStrings stringsBase mem
  let t := { t with strings }
  let mem ← t.emitStructure structureBase mem
  return ({ t with world := world.setMem mem }, header)

end DeviceTree

end XrLinux.Bootloader
