import Mathlib.Data.Nat.Bitwise
import XrLinux.Lib.ByteMemory
import XrLinux.Bootloader.List

/-!
# Bootloader — `memory.c`

The heap of the bootloader. Its state is the memory itself: the header of a range, a
`struct HeapRange`, lies at the start of the range,

    Node      @0    the links in `BlHeapRanges`
    FreeNode  @8    the links in `BlFreeRanges`, while the range is free
    End       @16
    Free      @20

and only the ends of the two lists are outside. Addresses are natural numbers below 2^32; the
sums that can wrap do so in `add32`.
-/

namespace XrLinux.Bootloader

def add32 (x y : Nat) : Nat := (x + y) % 4294967296

def sub32 (x y : Nat) : Nat := (x + 4294967296 - y) % 4294967296

/-- `BL_ALIGN_UP`. -/
def alignUp (x y : Nat) : Nat := add32 x (sub32 y 1) &&& (4294967295 - sub32 y 1)

/-- `BL_ALIGN_DOWN`. -/
def alignDown (x y : Nat) : Nat := x &&& (4294967295 - sub32 y 1)

/-- The two links of a list node, in memory. -/
def memNode : NodeStore ByteMemory where
  prev m node := m.read32 node
  next m node := m.read32 (node + 4)
  setPrev m node v := m.write32 node v
  setNext m node v := m.write32 (node + 4) v

structure Heap where
  mem : ByteMemory
  heapRanges : BlList
  freeRanges : BlList

/-- `sizeof(struct HeapRange)`. -/
def heapRangeSize : Nat := 24

/-- `HEAP_ALIGNMENT`. -/
def heapAlignment : Nat := 4

/-- `offsetof(struct HeapRange, FreeNode)`. -/
def freeNodeOffset : Nat := 8

namespace Heap

def rangeEnd (h : Heap) (range : Nat) : Nat := h.mem.read32 (range + 16)

def setEnd (h : Heap) (range v : Nat) : Heap := { h with mem := h.mem.write32 (range + 16) v }

def isFree (h : Heap) (range : Nat) : Bool := h.mem (range + 20) != 0

def setFree (h : Heap) (range : Nat) (v : Bool) : Heap :=
  { h with mem := h.mem.write8 (range + 20) (if v then 1 else 0) }

/-- `BL_LIST_PREV(struct HeapRange, Node, *range)`. -/
def prev (h : Heap) (range : Nat) : Nat := container 0 (memNode.prev h.mem range)

/-- `BL_LIST_NEXT(struct HeapRange, Node, *range)`. -/
def next (h : Heap) (range : Nat) : Nat := container 0 (memNode.next h.mem range)

/-- `BL_LIST_NEXT(struct HeapRange, FreeNode, *range)`. -/
def nextFree (h : Heap) (range : Nat) : Nat :=
  container freeNodeOffset (memNode.next h.mem (range + freeNodeOffset))

/-- `BlListInsertAfter(&BlHeapRanges, anchor, &range->Node)`. -/
def insertRange (h : Heap) (anchor range : Nat) : Heap :=
  let (mem, heapRanges) := blListInsertAfter memNode h.mem h.heapRanges anchor range
  { h with mem, heapRanges }

/-- `BlListInsertAfter(&BlFreeRanges, anchor, &range->FreeNode)`. -/
def insertFree (h : Heap) (anchor range : Nat) : Heap :=
  let (mem, freeRanges) := blListInsertAfter memNode h.mem h.freeRanges anchor
    (range + freeNodeOffset)
  { h with mem, freeRanges }

/-- `BlListRemove(&BlHeapRanges, &range->Node)`. -/
def removeRange (h : Heap) (range : Nat) : Heap :=
  let (mem, heapRanges) := blListRemove memNode h.mem h.heapRanges range
  { h with mem, heapRanges }

/-- `BlListRemove(&BlFreeRanges, &range->FreeNode)`. -/
def removeFree (h : Heap) (range : Nat) : Heap :=
  let (mem, freeRanges) := blListRemove memNode h.mem h.freeRanges (range + freeNodeOffset)
  { h with mem, freeRanges }

end Heap

/-- The last range below `base`, 0 when there is none. -/
def findPrev (h : Heap) (base : Nat) : Except Stop Nat :=
  foreach h.next (fun range prev => if range ≥ base then .done prev else .yield range) rounds
    (container 0 h.heapRanges.head) 0

/-- What `BlAddHeapRange` does between the ranges `prev` and `next`. -/
def addBetween (h : Heap) (prev next base stop : Nat) : Heap :=
  let base := if prev ≠ 0 ∧ h.rangeEnd prev > base then h.rangeEnd prev else base
  let stop := if next ≠ 0 ∧ stop > next then next else stop
  if base ≥ stop then h
  else
    let mergePrev := prev ≠ 0 ∧ h.isFree prev ∧ h.rangeEnd prev = base
    let mergeNext := next ≠ 0 ∧ h.isFree next ∧ stop = next
    if mergePrev ∧ mergeNext then
      ((h.setEnd prev (h.rangeEnd next)).removeRange next).removeFree next
    else if mergePrev then h.setEnd prev stop
    else if mergeNext then
      let h := (h.removeRange next).removeFree next
      let h := { h with mem := h.mem.copy base next heapRangeSize }
      (h.insertRange prev base).insertFree 0 base
    else if stop - base < heapRangeSize then h
    else
      let h := (h.setEnd base stop).setFree base true
      (h.insertRange prev base).insertFree 0 base

/-- `BlAddHeapRange`. -/
def blAddHeapRange (h : Heap) (base size : Nat) : Except Stop Heap := do
  let stop := alignDown (add32 base size) heapAlignment
  let base := alignUp base heapAlignment
  if base ≥ stop then return h
  let prev ← findPrev h base
  let next := if prev ≠ 0 then h.next prev else 0
  return addBetween h prev next base stop

/-- Where a block goes in a free range: the address returned, and what precedes it. -/
def valueBase (range alignment headExtra : Nat) : Nat := alignUp (add32 range headExtra) alignment

/-- The loop in `BlAllocateHeap` does not `continue` past the range. -/
def fits (h : Heap) (size alignment headExtra range : Nat) : Bool :=
  let allocBase := sub32 (valueBase range alignment headExtra) headExtra
  let allocEnd := add32 (valueBase range alignment headExtra) size
  ¬(allocEnd < allocBase ∨ allocBase < range ∨ allocEnd ≥ h.rangeEnd range)

def firstFit (h : Heap) (size alignment headExtra : Nat) : Except Stop (Option Nat) :=
  foreach h.nextFree
    (fun range found => if fits h size alignment headExtra range then .done (some range)
      else .yield found)
    rounds (container freeNodeOffset h.freeRanges.head) none

/-- What is left behind the block becomes a range of its own, when it can hold a header. Returns
the end of the block. -/
def carveTail (h : Heap) (range allocEnd : Nat) : Heap × Nat :=
  let rangeEnd := h.rangeEnd range
  if rangeEnd - allocEnd ≥ heapRangeSize then
    let h := (h.setEnd allocEnd rangeEnd).setFree allocEnd true
    ((h.insertRange range allocEnd).insertFree (range + freeNodeOffset) allocEnd, allocEnd)
  else (h, rangeEnd)

/-- What is left before the block stays the range, when it can hold a header. Returns the range
before the block. -/
def carveHead (h : Heap) (range allocBase : Nat) : Heap × Nat :=
  if allocBase - range ≥ heapRangeSize then (h.setEnd range allocBase, range)
  else ((h.removeRange range).removeFree range, h.prev range)

/-- The header of a block that can be freed. -/
def placeHeader (h : Heap) (anchor allocBase allocEnd : Nat) : Heap :=
  ((h.setEnd allocBase allocEnd).setFree allocBase false).insertRange anchor allocBase

/-- The body of the loop in `BlAllocateHeap`, for the range that fits and the ends of the block in
it. -/
def carve (h : Heap) (range allocBase allocEnd : Nat) (permanent : Bool) : Heap :=
  let (h, allocEnd) := carveTail h range allocEnd
  let (h, anchor) := carveHead h range allocBase
  if permanent then h else placeHeader h anchor allocBase allocEnd

/-- `BlAllocateHeap`. -/
def blAllocateHeap (h : Heap) (size alignment : Nat) (permanent : Bool) :
    Except Stop (Heap × Nat) := do
  if size = 0 then return (h, 0)
  let alignment := if alignment < heapAlignment then heapAlignment else alignment
  let size := alignUp size heapAlignment
  let headExtra := if permanent then 0 else heapRangeSize
  match ← firstFit h size alignment headExtra with
  | some range =>
    let value := valueBase range alignment headExtra
    return (carve h range (sub32 value headExtra) (add32 value size) permanent, value)
  | none => .error (.crash "out of memory")

/-- What `BlFreeHeap` does with the range of the block. -/
def releaseRange (h : Heap) (range : Nat) : Heap :=
  let prev := h.prev range
  let next := h.next range
  let mergePrev := prev ≠ 0 ∧ h.isFree prev ∧ h.rangeEnd prev = range
  let mergeNext := next ≠ 0 ∧ h.isFree next ∧ h.rangeEnd range = next
  if mergePrev then
    let h := h.removeRange range
    if mergeNext then
      let h := (h.removeRange next).removeFree next
      h.setEnd prev (h.rangeEnd next)
    else h.setEnd prev (h.rangeEnd range)
  else
    let h :=
      if mergeNext then
        let h := (h.removeRange next).removeFree next
        h.setEnd range (h.rangeEnd next)
      else h
    (h.setFree range true).insertFree 0 range

/-- `BlFreeHeap`. -/
def blFreeHeap (h : Heap) (ptr : Nat) : Heap :=
  if ptr ≠ 0 then releaseRange h (ptr - heapRangeSize) else h

/-- What `BlResizeHeap` does with a block that has room for `extra` more bytes than it needs: a range
is made of them when they can hold a header. -/
def shrinkRange (h : Heap) (range ptr oldSize extra : Nat) : Heap :=
  if extra ≥ heapRangeSize then
    let newRange := add32 ptr oldSize
    let h := (h.setEnd newRange (h.rangeEnd range)).setFree newRange true
    let h := (h.insertRange range newRange).insertFree 0 newRange
    h.setEnd range (sub32 (h.rangeEnd range) extra)
  else h

/-- What it does with a block that has the free range `next` behind it. -/
def growRange (h : Heap) (range next newEnd : Nat) : Heap :=
  let h := (h.removeRange next).removeFree next
  if sub32 (h.rangeEnd next) newEnd ≥ heapRangeSize then
    let h := { h with mem := h.mem.copy newEnd next heapRangeSize }
    let h := (h.insertRange range newEnd).insertFree 0 newEnd
    h.setEnd range newEnd
  else h.setEnd range (h.rangeEnd next)

/-- `BlResizeHeap`. -/
def blResizeHeap (h : Heap) (ptr newSize alignment : Nat) : Except Stop (Heap × Nat) :=
  if ptr = 0 then blAllocateHeap h newSize alignment false
  else if newSize = 0 then .ok (blFreeHeap h ptr, 0)
  else do
    let newSize := alignUp newSize heapAlignment
    let range := ptr - heapRangeSize
    let oldSize := sub32 (h.rangeEnd range) ptr
    if oldSize ≥ newSize then return (shrinkRange h range ptr oldSize (oldSize - newSize), ptr)
    let next := h.next range
    if next ≠ 0 ∧ next = h.rangeEnd range ∧ h.isFree next then
      return (growRange h range next (add32 ptr newSize), ptr)
    let (h, newPtr) ← blAllocateHeap h newSize alignment false
    let h := { h with mem := h.mem.copy newPtr ptr oldSize }
    return (blFreeHeap h ptr, newPtr)

/-! ## Rounding -/

theorem and_mask {k : Nat} (hk : k ≤ 32) {x : Nat} (hx : x < 4294967296) :
    x &&& (4294967296 - 2 ^ k) = x - x % 2 ^ k := by
  have hmask : 4294967296 - 2 ^ k = (2 ^ (32 - k) - 1) * 2 ^ k := by
    rw [Nat.sub_mul, ← pow_add, Nat.sub_add_cancel hk, one_mul]
    rfl
  have hdown : x - x % 2 ^ k = x / 2 ^ k * 2 ^ k := by
    have hsplit := Nat.div_add_mod x (2 ^ k)
    rw [mul_comm] at hsplit
    omega
  rw [hmask, hdown]
  refine Nat.eq_of_testBit_eq fun i => ?_
  rw [Nat.testBit_and, Nat.testBit_mul_two_pow, Nat.testBit_mul_two_pow, Nat.testBit_two_pow_sub_one,
    Nat.testBit_div_two_pow]
  by_cases hki : k ≤ i
  · rw [Nat.sub_add_cancel hki]
    by_cases hi : i < 32
    · simp [hki, show i - k < 32 - k by omega]
    · have hhigh : x.testBit i = false := by
        apply Nat.testBit_lt_two_pow
        have hpow : 2 ^ 32 ≤ 2 ^ i := Nat.pow_le_pow_right (by decide) (by omega)
        omega
      simp [hhigh]
  · simp [hki]

theorem alignDown_eq {k : Nat} (hk : k < 32) {x : Nat} (hx : x < 4294967296) :
    alignDown x (2 ^ k) = x - x % 2 ^ k := by
  have hle : 2 ^ k < 2 ^ 32 := Nat.pow_lt_pow_right (by decide) hk
  have hpos : 0 < 2 ^ k := Nat.two_pow_pos k
  have hsub : sub32 (2 ^ k) 1 = 2 ^ k - 1 := by
    unfold sub32
    omega
  rw [alignDown, hsub, show 4294967295 - (2 ^ k - 1) = 4294967296 - 2 ^ k by omega,
    and_mask hk.le hx]

/-- Rounding up finds the next multiple, or wraps to 0 when there is none below 2^32. -/
theorem alignUp_eq {k : Nat} (hk : k < 32) {x : Nat} (hx : x < 4294967296) :
    alignUp x (2 ^ k) =
      if x + (2 ^ k - 1) < 4294967296 then (x + (2 ^ k - 1)) - (x + (2 ^ k - 1)) % 2 ^ k else 0 := by
  have hle : 2 ^ k < 2 ^ 32 := Nat.pow_lt_pow_right (by decide) hk
  have hpos : 0 < 2 ^ k := Nat.two_pow_pos k
  have hsub : sub32 (2 ^ k) 1 = 2 ^ k - 1 := by
    unfold sub32
    omega
  have hadd : add32 x (2 ^ k - 1) < 4294967296 := Nat.mod_lt _ (by decide)
  rw [alignUp, hsub, show 4294967295 - (2 ^ k - 1) = 4294967296 - 2 ^ k by omega,
    and_mask hk.le hadd]
  unfold add32
  split
  · rw [Nat.mod_eq_of_lt ‹_›]
  · -- the wrapped sum lies below the alignment
    have hwrap : (x + (2 ^ k - 1)) % 4294967296 = x + (2 ^ k - 1) - 4294967296 := by omega
    rw [hwrap, Nat.mod_eq_of_lt (by omega)]
    omega

/-- Rounding to the alignment of a header. -/
theorem alignUp_four {x : Nat} (hx : x + 3 < 4294967296) :
    alignUp x heapAlignment = x + 3 - (x + 3) % 4 := by
  have hup := alignUp_eq (k := 2) (by decide) (show x < 4294967296 by omega)
  rwa [if_pos (show x + (2 ^ 2 - 1) < 4294967296 from hx)] at hup

theorem alignDown_four {x : Nat} (hx : x < 4294967296) : alignDown x heapAlignment = x - x % 4 :=
  alignDown_eq (k := 2) (by decide) hx

theorem alignUp_dvd {k : Nat} (hk : k < 32) {x : Nat} (hx : x < 4294967296) :
    2 ^ k ∣ alignUp x (2 ^ k) := by
  rw [alignUp_eq hk hx]
  split
  · exact Nat.dvd_sub_mod _
  · exact Nat.dvd_zero _

theorem alignUp_ge {k : Nat} (hk : k < 32) {x : Nat} (hx : x < 4294967296)
    (h : alignUp x (2 ^ k) ≠ 0) : x ≤ alignUp x (2 ^ k) ∧ alignUp x (2 ^ k) < x + 2 ^ k := by
  rw [alignUp_eq hk hx] at h ⊢
  split
  · have hmod := Nat.mod_lt (x + (2 ^ k - 1)) (Nat.two_pow_pos k)
    omega
  · rw [if_neg ‹_›] at h
    exact absurd rfl h

theorem alignUp_lt (x y : Nat) : alignUp x y < 4294967296 :=
  lt_of_le_of_lt Nat.and_le_left (Nat.mod_lt _ (by decide))

end XrLinux.Bootloader
