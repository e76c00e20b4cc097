import XrLinux.Machine.Instr

/-!
# Linux — the table of memory resources

`init_resources` allocates an array with an element for every region of memory and every reserved one
there is, and one more for the reservation of the array itself. The array is filled from its end, and
what is left at its start is freed. The counts fit in an `int`, since the regions they count are in
memory themselves.
-/

namespace XrLinux.Linux.Resources

open Machine

structure MemblockRegion where
  base : Word
  size : Word
  nomap : Bool
  deriving DecidableEq, Repr

inductive ResourceFlag where
  | mem | exclusive | systemRam | busy
  deriving DecidableEq, Repr

/-- What `init_resources` fills in of a `struct resource`. -/
structure Resource where
  name : String
  flags : List ResourceFlag
  start : Word
  stop : Word
  deriving DecidableEq, Repr

/-- `PFN_DOWN` and `PFN_UP`. -/
def pfnDown (x : Word) : Word := x >>> 12

def pfnUp (x : Word) : Word := (x + 4095) >>> 12

/-- `__pfn_to_phys`. -/
def pfnToPhys (pfn : Word) : Word := pfn <<< 12

/-- `memblock_is_memory`. -/
def memblockIsMemory (memory : List MemblockRegion) (addr : Word) : Bool :=
  memory.any fun region => region.base ≤ addr ∧ (addr - region.base) < region.size

/-- A resource for the pages that a region has a part of. -/
def resourceOf (name : String) (flags : List ResourceFlag) (region : MemblockRegion) : Resource :=
  { name, flags
    start := pfnToPhys (pfnDown region.base)
    stop := pfnToPhys (pfnUp (region.base + region.size)) - 1 }

/-- The resource of a reserved region. -/
def reservedResource : MemblockRegion → Resource := resourceOf "Reserved" [.mem, .exclusive]

/-- The resource of a region of memory. -/
def memoryResource (region : MemblockRegion) : Resource :=
  if region.nomap then reservedResource region
  else resourceOf "System RAM" [.systemRam, .busy] region

/-- The array, the index that is used next, the indexes used so far, and the elements that are linked
into `iomem_resource`, the last one first. -/
structure Filling where
  table : Int → Option Resource
  resIdx : Int
  nonResvRes : Nat
  used : List Int
  linked : List (Int × Resource)

namespace Filling

/-- `res = &mem_res[res_idx--]`, and what is stored there. -/
def take (s : Filling) (res : Resource) : Filling :=
  { s with
    table := fun i => if i = s.resIdx then some res else s.table i
    resIdx := s.resIdx - 1
    used := s.resIdx :: s.used }

/-- `add_resource` of the element `idx`. `insertResource` returns what `insert_resource` does, with
those that are linked already. -/
def addResource (insertResource : List Resource → Resource → Int) (s : Filling) (idx : Int)
    (res : Resource) : Except Filling Filling :=
  if insertResource (s.linked.map Prod.snd) res < 0 then .error s
  else .ok { s with linked := (idx, res) :: s.linked }

variable (memory : List MemblockRegion) (insertResource : List Resource → Resource → Int)

/-- The body of the loop over the reserved regions. -/
def addReserved (s : Filling) (region : MemblockRegion) : Except Filling Filling :=
  let res := reservedResource region
  let idx := s.resIdx
  let s := s.take res
  if memblockIsMemory memory res.start then .ok { s with resIdx := s.resIdx + 1 }
  else s.addResource insertResource idx res

/-- The body of the loop over the memory. -/
def addMemory (s : Filling) (region : MemblockRegion) : Except Filling Filling :=
  let idx := s.resIdx
  let s := s.take (memoryResource region)
  { s with nonResvRes := s.nonResvRes + 1 }.addResource insertResource idx (memoryResource region)

/-- Both loops. -/
def fill (reserved : List MemblockRegion) (s : Filling) : Except Filling Filling := do
  let s ← reserved.foldlM (addReserved memory insertResource) s
  memory.foldlM (addMemory insertResource) s

end Filling

/-- What is there at the end: the array of `numResources` elements with `freed` of them, from the
start, free again, and `standard_resources` at an index. -/
structure Outcome where
  numResources : Int
  filling : Filling
  freed : Int
  numStandardResources : Nat
  standardResources : Option Int

/-- `init_resources`. The allocation of the array makes other reserved regions of those there are. -/
def initResources (memory reserved : List MemblockRegion)
    (memblockAlloc : List MemblockRegion → List MemblockRegion)
    (insertResource : List Resource → Resource → Int) : Outcome :=
  let numResources : Int := memory.length + reserved.length + 1
  let start : Filling :=
    { table := fun _ => none, resIdx := numResources - 1, nonResvRes := 0, used := [], linked := [] }
  match start.fill memory insertResource (memblockAlloc reserved) with
  | .ok s =>
    { numResources
      filling := s
      freed := if s.resIdx ≥ 0 then s.resIdx + 1 else 0
      numStandardResources := s.nonResvRes
      standardResources := some (s.resIdx + 1) }
  | .error s =>
    -- `release_child_resources`, and all of the array is freed
    { numResources
      filling := { s with linked := [] }
      freed := numResources
      numStandardResources := 0
      standardResources := none }

/-- Every element used is in the array, every region that is linked has an element of its own, which
is still what it was linked as, and none of them is freed. -/
structure Outcome.Safe (o : Outcome) : Prop where
  used_inside : ∀ i ∈ o.filling.used, 0 ≤ i ∧ i < o.numResources
  linked_nodup : (o.filling.linked.map Prod.fst).Nodup
  linked_kept : ∀ p ∈ o.filling.linked, o.filling.table p.1 = some p.2
  freed_inside : 0 ≤ o.freed ∧ o.freed ≤ o.numResources
  linked_not_freed : ∀ p ∈ o.filling.linked, o.freed ≤ p.1 ∧ p.1 < o.numResources

/-! ## The loops -/

/-- What is linked is at the end of the array, behind `resIdx`. -/
structure Filling.Inv (num : Int) (n : Nat) (s : Filling) : Prop where
  count : s.resIdx = num - 1 - s.linked.length
  few : s.linked.length ≤ n
  used_inside : ∀ i ∈ s.used, 0 ≤ i ∧ i < num
  nodup : (s.linked.map Prod.fst).Nodup
  kept : ∀ p ∈ s.linked, s.table p.1 = some p.2
  behind : ∀ p ∈ s.linked, s.resIdx < p.1 ∧ p.1 < num

section
variable {num : Int} {n : Nat} {s s' : Filling} {memory : List MemblockRegion}
  {insertResource : List Resource → Resource → Int}

theorem Filling.Inv.mono {m : Nat} (h : s.Inv num n) (hle : n ≤ m) : s.Inv num m :=
  { h with few := h.few.trans hle }

/-- The element that is taken is inside the array, and none of those that are linked. -/
theorem Filling.Inv.take (h : s.Inv num n) (hn : (n : Int) < num) (res : Resource) :
    (∀ i ∈ (s.take res).used, 0 ≤ i ∧ i < num) ∧
      ∀ p ∈ s.linked, (s.take res).table p.1 = some p.2 := by
  have hcount := h.count
  have hfew := h.few
  constructor
  · intro i hi
    rcases List.mem_cons.mp hi with rfl | hi
    · omega
    · exact h.used_inside i hi
  · intro p hp
    have hbehind := h.behind p hp
    show (if p.1 = s.resIdx then some res else s.table p.1) = some p.2
    rw [if_neg (by omega)]
    exact h.kept p hp

/-- An element that is given back. -/
theorem Filling.Inv.skip (h : s.Inv num n) (hn : (n : Int) < num) (res : Resource) :
    { s.take res with resIdx := (s.take res).resIdx + 1 }.Inv num (n + 1) := by
  have htake := h.take hn res
  have hidx : (s.take res).resIdx + 1 = s.resIdx := Int.sub_add_cancel s.resIdx 1
  exact {
    count := hidx.trans h.count
    few := h.few.trans (Nat.le_succ n)
    used_inside := htake.1
    nodup := h.nodup
    kept := htake.2
    behind := fun p hp => ⟨hidx.symm ▸ (h.behind p hp).1, (h.behind p hp).2⟩ }

/-- What is left of an invariant after a step: of an error, that the indexes were in the array. -/
def Filling.Goes (num : Int) (n : Nat) (r : Except Filling Filling) : Prop :=
  (∀ s', r = .ok s' → s'.Inv num n) ∧ ∀ s', r = .error s' → ∀ i ∈ s'.used, 0 ≤ i ∧ i < num

/-- An element that is linked, or not for a conflict. -/
theorem Filling.Inv.link (h : s.Inv num n) (hn : (n : Int) < num) (res : Resource) (nonResv : Nat) :
    Filling.Goes num (n + 1)
      ({ s.take res with nonResvRes := nonResv }.addResource insertResource s.resIdx res) := by
  have hcount := h.count
  have hfew := h.few
  have htake := h.take hn res
  unfold Filling.addResource
  split_ifs
  · refine ⟨nofun, fun s' heq => ?_⟩
    cases heq
    exact htake.1
  · refine ⟨fun s' heq => ?_, nofun⟩
    cases heq
    refine ⟨?_, ?_, htake.1, ?_, ?_, ?_⟩
    · show s.resIdx - 1 = num - 1 - ((s.linked.length + 1 : Nat) : Int)
      omega
    · exact Nat.succ_le_succ hfew
    · -- all that are linked so far are behind the index
      refine List.nodup_cons.mpr ⟨fun hmem => ?_, h.nodup⟩
      obtain ⟨p, hp, heq⟩ := List.mem_map.mp hmem
      have hbehind := (h.behind p hp).1
      omega
    · intro p hp
      rcases List.mem_cons.mp hp with rfl | hp
      · exact if_pos rfl
      · exact htake.2 p hp
    · intro p hp
      show s.resIdx - 1 < p.1 ∧ p.1 < num
      rcases List.mem_cons.mp hp with rfl | hp
      · dsimp only
        omega
      · have hbehind := h.behind p hp
        omega

theorem Filling.Inv.addReserved (h : s.Inv num n) (hn : (n : Int) < num) (region : MemblockRegion) :
    Filling.Goes num (n + 1) (s.addReserved memory insertResource region) := by
  unfold Filling.addReserved
  dsimp only
  split_ifs
  · -- the index is taken back, and the element is used again
    refine ⟨fun s' heq => ?_, nofun⟩
    cases heq
    exact h.skip hn _
  · exact h.link hn _ _

theorem Filling.Inv.addMemory (h : s.Inv num n) (hn : (n : Int) < num) (region : MemblockRegion) :
    Filling.Goes num (n + 1) (s.addMemory insertResource region) :=
  h.link hn _ _

/-- A loop takes one element a region, while there are any. -/
theorem Filling.goes_foldlM {f : Filling → MemblockRegion → Except Filling Filling}
    (hf : ∀ s (n : Nat) region, s.Inv num n → (n : Int) < num →
      Filling.Goes num (n + 1) (f s region))
    (regions : List MemblockRegion) :
    ∀ s n, s.Inv num n → ((n + regions.length : Nat) : Int) ≤ num →
      Filling.Goes num (n + regions.length) (regions.foldlM f s) := by
  induction regions with
  | nil =>
    intro s n h _
    refine ⟨fun s' heq => ?_, nofun⟩
    cases heq
    exact h
  | cons region regions ih =>
    intro s n h hle
    have hlength : n + (region :: regions).length = n + 1 + regions.length := by
      rw [List.length_cons]
      omega
    rw [hlength] at hle ⊢
    have hstep := hf s n region h (by omega)
    rw [List.foldlM_cons]
    cases hr : f s region with
    | error e => exact ⟨nofun, fun s' heq => hstep.2 s' (hr.trans heq)⟩
    | ok s' => exact ih s' (n + 1) (hstep.1 s' hr) hle

end

theorem Filling.goes_fill {num : Int} {n : Nat} {s : Filling}
    (insertResource : List Resource → Resource → Int) {memory reserved : List MemblockRegion}
    (h : s.Inv num n) (hle : ((n + reserved.length + memory.length : Nat) : Int) ≤ num) :
    Filling.Goes num (n + reserved.length + memory.length)
      (s.fill memory insertResource reserved) := by
  have hreserved := Filling.goes_foldlM
    (f := Filling.addReserved memory insertResource)
    (fun s n region h hn => h.addReserved hn region) reserved s n h (by omega)
  unfold Filling.fill
  cases hr : reserved.foldlM (Filling.addReserved memory insertResource) s with
  | error e => exact ⟨nofun, fun s' heq => hreserved.2 s' (hr.trans heq)⟩
  | ok s' =>
    exact Filling.goes_foldlM (fun s n region h hn => h.addMemory hn region) memory s' _
      (hreserved.1 s' hr) hle

/-- Nothing is used or linked at the start. -/
theorem Filling.inv_start (num : Int) :
    Filling.Inv num 0
      { table := fun _ => none, resIdx := num - 1, nonResvRes := 0, used := [], linked := [] } where
  count := (Int.sub_zero (num - 1)).symm
  few := Nat.le_refl 0
  used_inside := fun _ hi => (List.not_mem_nil hi).elim
  nodup := List.nodup_nil
  kept := fun _ hp => (List.not_mem_nil hp).elim
  behind := fun _ hp => (List.not_mem_nil hp).elim

/-- Where the allocation of the array reserves one region more at most, the array has an element for
each that is inserted, and what is freed of it has none that is linked. -/
theorem initResources_safe (memory reserved : List MemblockRegion)
    (memblockAlloc : List MemblockRegion → List MemblockRegion)
    (insertResource : List Resource → Resource → Int)
    (hone : (memblockAlloc reserved).length ≤ reserved.length + 1) :
    (initResources memory reserved memblockAlloc insertResource).Safe := by
  have hgoes := @Filling.goes_fill _ 0 _ insertResource memory (memblockAlloc reserved)
    (Filling.inv_start ((memory.length : Int) + reserved.length + 1)) (by omega)
  unfold initResources
  dsimp only
  split
  next s hs =>
    have h := hgoes.1 s hs
    have hcount := h.count
    have hfew := h.few
    refine ⟨h.used_inside, h.nodup, h.kept, ?_, fun p hp => ?_⟩
    · show 0 ≤ (if s.resIdx ≥ 0 then s.resIdx + 1 else 0) ∧
        (if s.resIdx ≥ 0 then s.resIdx + 1 else 0) ≤ _
      dsimp only
      split_ifs <;> omega
    · have hbehind := h.behind p hp
      show (if s.resIdx ≥ 0 then s.resIdx + 1 else 0) ≤ p.1 ∧ _
      split_ifs
      · exact ⟨hbehind.1, hbehind.2⟩
      · exact ⟨by omega, hbehind.2⟩
  next s hs =>
    -- nothing is linked any more
    exact ⟨hgoes.2 s hs, List.nodup_nil, fun _ hp => (List.not_mem_nil hp).elim,
      ⟨by dsimp only; omega, Int.le_refl _⟩, fun _ hp => (List.not_mem_nil hp).elim⟩

/-- Memory with its table inside, as one more reserved region, and a reserved region outside. -/
theorem initResources_safe_table :
    (initResources [⟨0, 0x1000000, false⟩] [⟨0xF8000000, 0x1000, false⟩]
      (⟨0x2000, 0x100, false⟩ :: ·) fun _ _ => 0).Safe :=
  initResources_safe _ _ _ _ (Nat.le_refl 2)

end XrLinux.Linux.Resources
