import XrLinux.Lib.Run
import XrLinux.Bootloader.HeapRefine

/-!
# Bootloader — the heap over whole runs

`World` is a heap with its history: the areas it was given, the newest first, and the blocks that
are out. Between the calls the owners of the blocks write to them.
-/

namespace XrLinux.Bootloader

open ByteMemory Run

structure World where
  heap : Heap
  areas : List Area
  live : List Block

inductive Call where
  | add (base size : Nat)
  | alloc (size alignment : Nat) (permanent : Bool)
  | free (ptr : Nat)
  | write (address : Nat) (byte : BitVec 8)

/-- The empty heap. -/
def World.start (mem : ByteMemory) : World :=
  { heap := { mem, heapRanges := .init, freeRanges := .init }
    areas := []
    live := [] }

def World.call (w : World) : Call → Except Stop World
  | .add base size => do
    let heap ← blAddHeapRange w.heap base size
    return { w with heap, areas := { base, size } :: w.areas }
  | .alloc size alignment permanent => do
    let (heap, ptr) ← blAllocateHeap w.heap size alignment permanent
    -- nothing is handed out for a size of 0
    if size = 0 then return { w with heap }
    return { w with heap, live := { ptr, size, alignment, permanent } :: w.live }
  | .free ptr =>
    return { w with heap := blFreeHeap w.heap ptr, live := w.live.filter (·.ptr ≠ ptr) }
  | .write address byte =>
    return { w with heap := { w.heap with mem := w.heap.mem.write8 address byte } }

def Area.Disjoint (a b : Area) : Prop :=
  a.size = 0 ∨ b.size = 0 ∨ a.base + a.size ≤ b.base ∨ b.base + b.size ≤ a.base

instance Area.decidableDisjoint (a b : Area) : Decidable (a.Disjoint b) := by
  unfold Area.Disjoint
  infer_instance

/-- What a caller may ask for. -/
def World.Admissible (w : World) : Call → Prop
  | .add base size => base + size ≤ 4294967296 ∧ ∀ a ∈ w.areas, Area.Disjoint { base, size } a
  | .alloc size alignment _ => size + 3 < 4294967296 ∧ ∃ k < 32, alignment = 2 ^ k
  | .free ptr => ∃ b ∈ w.live, b.ptr = ptr ∧ b.permanent = false
  | .write address _ => ∃ b ∈ w.live, b.ptr ≤ address ∧ address < b.ptr + b.size

instance World.decidableAdmissible (w : World) : DecidablePred w.Admissible := by
  intro c
  cases c <;> unfold World.Admissible <;> infer_instance

/-- No 32-bit sum of the call wraps, no range has the address of `nullptr`, and the header behind a
permanent block does not fall on the one before it. -/
def World.Regular (w : World) : Call → Prop
  | .add base _ => base ≠ 0 ∧ base + 3 < 4294967296
  | .alloc size alignment true => cramped w.heap size alignment = false
  | .alloc size _ false => size + 27 < 4294967296
  | .free _ => True
  | .write _ _ => True

instance World.decidableRegular (w : World) : DecidablePred w.Regular := by
  intro c
  cases c with
  | alloc _ _ permanent => cases permanent <;> unfold World.Regular <;> infer_instance
  | _ => unfold World.Regular; infer_instance

def World.step (w : World) (c : Call) : Option World :=
  if w.Admissible c then (w.call c).toOption else none

def World.regularStep (w : World) (c : Call) : Option World :=
  if w.Regular c then w.step c else none

/-- Every area lies above those that were added before it. -/
def Ascending (areas : List Area) : Prop :=
  areas.Pairwise fun a older => older.base + older.size ≤ a.base

/-- The ranges `rs` and the order `os` of the free ones are what the memory holds, and are in order
with respect to the areas and the blocks. -/
structure World.InOrder (w : World) (rs : List Range) (os : List Nat) : Prop where
  heapRanges : Lists memNode w.heap.mem w.heap.heapRanges (rs.map (·.base))
  freeRanges : Lists memNode w.heap.mem w.heap.freeRanges (os.map (· + freeNodeOffset))
  header : ∀ r ∈ rs, w.heap.rangeEnd r.base = r.stop ∧ w.heap.isFree r.base = r.free
  sorted : rs.Pairwise Range.Before
  proper : ∀ r ∈ rs, r.base + heapRangeSize ≤ r.stop
  inside : ∀ r ∈ rs, ∀ x, r.Contains x → InAreas w.areas x
  free_nodup : os.Nodup
  free_iff : ∀ o, o ∈ os ↔ ∃ r ∈ rs, r.free = true ∧ r.base = o
  aligned : ∀ b ∈ w.live, b.ptr ≠ 0 ∧ b.alignment ∣ b.ptr
  block_inside : ∀ b ∈ w.live, ∀ x, b.Contains x → InAreas w.areas x
  clear : w.live.Pairwise Block.Clear
  clear_free : ∀ b ∈ w.live, ∀ r ∈ rs, r.free = true → b.ptr + b.size ≤ r.base ∨ r.stop ≤ b.ptr
  clear_header : ∀ b ∈ w.live, ∀ r ∈ rs,
    b.ptr + b.size ≤ r.base ∨ r.base + heapRangeSize ≤ b.ptr
  noTouch : Ascending w.areas → NoTouch rs

/-- The same of the ranges as `Sound` has it. -/
structure World.Inv (w : World) (rs : List Range) (os : List Nat) : Prop where
  shape : Shape w.heap rs os
  sound : Sound w.areas w.live rs os
  noTouch : Ascending w.areas → NoTouch rs

/-- A heap in which every block that can be freed has the range that it needs and no more. -/
def World.Tight (w : World) : Prop := ∃ rs os, w.Inv rs os ∧ Snug w.live rs

section
variable {w w' : World} {rs : List Range} {os : List Nat}

/-- A block beside the headers, in the range that is its own or in none. -/
theorem Sound.clear_header {areas : List Area} {live : List Block} (h : Sound areas live rs os)
    {b : Block} (hb : b ∈ live) {r : Range} (hr : r ∈ rs) :
    b.ptr + b.size ≤ r.base ∨ r.base + 24 ≤ b.ptr := by
  have hroom := (h.layout.valid r hr).room
  cases hperm : b.permanent with
  | true =>
    have := h.beside b hb hperm r hr
    omega
  | false =>
    obtain ⟨s, hs, -, hbase, hstop⟩ := h.owned b hb hperm
    by_cases heq : r = s
    · subst heq
      omega
    · have := h.layout.disjoint hr hs heq
      omega

theorem Sound.clear_free {areas : List Area} {live : List Block} (h : Sound areas live rs os)
    {b : Block} (hb : b ∈ live) {r : Range} (hr : r ∈ rs) (hfree : r.free = true) :
    b.ptr + b.size ≤ r.base ∨ r.stop ≤ b.ptr := by
  cases hperm : b.permanent with
  | true => exact h.beside b hb hperm r hr
  | false =>
    obtain ⟨s, hs, hsfree, hbase, hstop⟩ := h.owned b hb hperm
    have hne : r ≠ s := by
      rintro rfl
      rw [hfree] at hsfree
      cases hsfree
    have := h.layout.disjoint hr hs hne
    omega

theorem World.Inv.inOrder (h : w.Inv rs os) : w.InOrder rs os where
  heapRanges := by
    have hranges := h.shape.rep.heapRanges
    simp only [Nat.add_zero, List.map_id'] at hranges
    exact hranges
  freeRanges := h.shape.rep.freeRanges
  header := fun r hr => ⟨h.shape.stop_eq r hr, h.shape.free_eq r hr⟩
  sorted := h.sound.layout.sorted
  proper := fun r hr => (h.sound.layout.valid r hr).room
  inside := h.sound.inside
  free_nodup := h.sound.layout.nodup
  free_iff := h.sound.layout.mem_iff
  aligned := fun b hb => ⟨(h.sound.aligned b hb).1, (h.sound.aligned b hb).2.2⟩
  block_inside := h.sound.block_inside
  clear := h.sound.clear
  clear_free := fun _ hb _ hr hfree => h.sound.clear_free hb hr hfree
  clear_header := fun _ hb _ hr => h.sound.clear_header hb hr
  noTouch := h.noTouch

theorem World.start_inv (mem : ByteMemory) : (World.start mem).Inv [] [] where
  shape := ⟨⟨by simp [Apart], lists_init mem, lists_init mem, by simp, by simp⟩, by simp, by simp⟩
  sound := ⟨⟨.nil, by simp, .nil⟩, by simp, by simp [World.start], by simp [World.start],
    .nil, by simp [World.start], by simp [World.start]⟩
  noTouch := by simp [NoTouch]

/-! ## One call -/

/-- A disjoint area has nothing of the ranges. -/
theorem Sound.apart {areas : List Area} {live : List Block} (h : Sound areas live rs os)
    {area : Area} (hdisj : ∀ a ∈ areas, area.Disjoint a) (hsize : area.size ≠ 0) :
    (∀ x, area.Contains x → ¬InAreas areas x) ∧
      ∀ r ∈ rs, r.stop ≤ area.base ∨ area.base + area.size ≤ r.base := by
  have hfresh : ∀ x, area.Contains x → ¬InAreas areas x := by
    rintro x ⟨hlo, hhi⟩ ⟨a, ha, halo, hahi⟩
    have hd := hdisj a ha
    unfold Area.Disjoint at hd
    omega
  refine ⟨hfresh, fun r hr => ?_⟩
  by_contra hnot
  have hroom := (h.layout.valid r hr).room
  -- the first address that both have
  refine hfresh (max r.base area.base) ⟨by omega, by omega⟩ (h.inside r hr _ ⟨by omega, by omega⟩)

/-- More areas, the same ranges. -/
theorem Sound.addArea {areas : List Area} {live : List Block} (h : Sound areas live rs os)
    (area : Area) : Sound (area :: areas) live rs os := by
  refine h.replace h.layout (fun _ => False) (fun s hs x hx => .inl ⟨s, hs, hx⟩)
    (fun _ _ _ r hr _ _ => hr) ?_ (fun _ => False.elim) fun _ => False.elim
  rintro x ⟨a, ha, hx⟩
  exact ⟨a, List.mem_cons_of_mem _ ha, hx⟩

/-- An area without bytes adds nothing. -/
theorem blAddHeapRange_zero (h : Heap) {base : Nat} (hbase : base + 3 < 4294967296) :
    blAddHeapRange h base 0 = .ok h := by
  have hlo := alignUp_four hbase
  have hhi : alignDown (add32 base 0) heapAlignment = add32 base 0 - add32 base 0 % 4 :=
    alignDown_four (Nat.mod_lt _ (by decide))
  have hadd : add32 base 0 = base := by
    unfold add32
    omega
  unfold blAddHeapRange
  rw [hlo, hhi, hadd]
  exact if_pos (by omega)

theorem World.Inv.add (h : w.Inv rs os) {base size : Nat} (hadm : w.Admissible (.add base size))
    (hreg : w.Regular (.add base size)) :
    ∃ w' rs' os', w.call (.add base size) = .ok w' ∧ w'.Inv rs' os' ∧
      (Snug w.live rs → Snug w'.live rs') := by
  obtain ⟨hfit, hdisj⟩ := hadm
  obtain ⟨hbase, hbase_lt⟩ := hreg
  obtain ⟨hshape, hsound, htouch⟩ := h
  have hmono : Ascending ({ base, size } :: w.areas) → Ascending w.areas :=
    fun hasc => (List.pairwise_cons.1 hasc).2
  by_cases hsize : size = 0
  · subst hsize
    have hok : w.call (.add base 0) =
        .ok { w with heap := w.heap, areas := { base, size := 0 } :: w.areas } := by
      simp only [World.call, blAddHeapRange_zero _ hbase_lt]
      rfl
    exact ⟨_, rs, os, hok, ⟨hshape, hsound.addArea _, fun hasc => htouch (hmono hasc)⟩, id⟩
  · obtain ⟨hfresh, hapart⟩ := hsound.apart hdisj hsize
    obtain ⟨heap, hcall, hcase, -⟩ :=
      blAddHeapRange_refines hshape hsound.layout hbase hbase_lt hfit hapart
    have hok : w.call (.add base size) =
        .ok { w with heap, areas := { base, size } :: w.areas } := by
      simp only [World.call, hcall]
      rfl
    rcases hcase with rfl | ⟨lo, hi, rs', os', hlo, hhi, hlt, hlo_dvd, hhi_dvd, hhi_lt, hadd, hshape'⟩
    · exact ⟨_, rs, os, hok, ⟨hshape, hsound.addArea _, fun hasc => htouch (hmono hasc)⟩, id⟩
    · refine ⟨_, rs', os', hok, ⟨hshape', ?_, fun hasc => ?_⟩, fun hsnug => hadd.snug hsnug⟩
      · exact hadd.sound hsound (by omega) hlo_dvd hhi_dvd hlt hhi_lt
          (fun x hx hx' => ⟨by dsimp only; omega, by dsimp only; omega⟩) hfresh
      · refine hadd.noTouch hsound.layout (htouch (hmono hasc)) hlt fun r hr => ?_
        -- the last byte of the range is in an older area
        have hroom := (hsound.layout.valid r hr).room
        obtain ⟨a, ha, -, hahi⟩ := hsound.inside r hr (r.stop - 1) ⟨by omega, by omega⟩
        have hbelow : a.base + a.size ≤ base := (List.pairwise_cons.1 hasc).1 a ha
        omega

theorem World.Inv.alloc (h : w.Inv rs os) {size alignment : Nat} {permanent : Bool}
    (hadm : w.Admissible (.alloc size alignment permanent))
    (hreg : w.Regular (.alloc size alignment permanent)) :
    w.call (.alloc size alignment permanent) = .error (.crash "out of memory") ∨
      ∃ w' rs' os', w.call (.alloc size alignment permanent) = .ok w' ∧ w'.Inv rs' os' ∧
        (Snug w.live rs → Snug w'.live rs') := by
  obtain ⟨hsize_lt, k, hk, rfl⟩ := hadm
  obtain ⟨hshape, hsound, htouch⟩ := h
  by_cases hsize : size = 0
  · subst hsize
    refine .inr ⟨w, rs, os, ?_, ⟨hshape, hsound, htouch⟩, id⟩
    simp only [World.call, blAllocateHeap]
    rfl
  · have hheader : permanent = false → size + 27 < 4294967296 := by
      rintro rfl
      exact hreg
    have hroom : permanent = true → cramped w.heap size (2 ^ k) = false := by
      rintro rfl
      exact hreg
    rcases blAllocateHeap_refines hshape hsound.layout (by omega) hsize_lt hk hheader hroom with
      hcrash | ⟨heap, lo, stop, rs', os', hcall, hstop, hstop_lt, hlo_dvd, hstop_dvd, hptr_dvd, hcarve,
        hshape', -⟩
    · refine .inl ?_
      simp only [World.call, hcrash]
      rfl
    · obtain ⟨b, hb⟩ : ∃ b : Block, b =
          { ptr := if permanent then lo else lo + 24, size, alignment := 2 ^ k, permanent } := ⟨_, rfl⟩
      have hok : w.call (.alloc size (2 ^ k) permanent) =
          .ok { w with heap, live := b :: w.live } := by
        simp only [World.call, hcall, hb]
        exact if_neg hsize
      refine .inr ⟨_, rs', os', hok, ⟨hshape', ?_, fun hasc => ?_⟩, fun hsnug => ?_⟩
      · subst hb
        exact hcarve.sound hsound hlo_dvd hstop_dvd rfl hstop (Nat.pos_of_ne_zero hsize) hptr_dvd
      rotate_left
      · subst hb
        exact hcarve.snug hsnug rfl hstop_lt
      · refine hcarve.noTouch hsound.layout (htouch hasc) ?_
        split at hstop <;> omega

theorem World.Inv.free (h : w.Inv rs os) {ptr : Nat} (hadm : w.Admissible (.free ptr)) :
    ∃ w' rs' os', w.call (.free ptr) = .ok w' ∧ w'.Inv rs' os' ∧
      (Snug w.live rs → Snug w'.live rs') := by
  obtain ⟨b, hb, rfl, hperm⟩ := hadm
  obtain ⟨hshape, hsound, htouch⟩ := h
  obtain ⟨r, hr, hfree, hbase, -⟩ := hsound.owned b hb hperm
  obtain ⟨rs', os', hrel, hshape', -⟩ := blFreeHeap_refines hshape hsound.layout hr hfree
  rw [← hbase]
  exact ⟨_, rs', os', rfl, ⟨hshape', hrel.sound hsound hfree,
    fun hasc => hrel.noTouch hsound.layout (htouch hasc)⟩, fun hsnug => hrel.snug hsnug⟩

/-- What is written beside the headers leaves the lists and the headers as they are. -/
theorem Shape.write8 {heap : Heap} (hs : Shape heap rs os) {address : Nat} (byte : BitVec 8)
    (hbeside : ∀ r ∈ rs, address < r.base ∨ r.base + 24 ≤ address) :
    Shape { heap with mem := heap.mem.write8 address byte } rs os :=
  hs.congr fun r hr => sameOn_write8 _ _ (by have := hbeside r hr; omega)

theorem World.Inv.write (h : w.Inv rs os) {address : Nat} {byte : BitVec 8}
    (hadm : w.Admissible (.write address byte)) :
    ∃ w', w.call (.write address byte) = .ok w' ∧ w'.Inv rs os ∧ w'.live = w.live := by
  obtain ⟨b, hb, hlo, hhi⟩ := hadm
  refine ⟨_, rfl, ⟨h.shape.write8 byte fun r hr => ?_, h.sound, h.noTouch⟩, rfl⟩
  have := h.sound.clear_header hb hr
  omega

/-- A call that a caller may make returns, or there is no memory left. -/
theorem World.Inv.call (h : w.Inv rs os) {c : Call} (hadm : w.Admissible c) (hreg : w.Regular c) :
    w.call c = .error (.crash "out of memory") ∨
      ∃ w' rs' os', w.call c = .ok w' ∧ w'.Inv rs' os' ∧ (Snug w.live rs → Snug w'.live rs') := by
  cases c with
  | add base size => exact .inr (h.add hadm hreg)
  | alloc size alignment permanent => exact h.alloc hadm hreg
  | free ptr => exact .inr (h.free hadm)
  | write address byte =>
    obtain ⟨w', hcall, hinv, hlive⟩ := h.write hadm
    exact .inr ⟨w', rs, os, hcall, hinv, fun hsnug => hlive ▸ hsnug⟩

end

/-! ## Runs -/

theorem World.regularStep_tight {w w' : World} {c : Call} (h : w.Tight)
    (hstep : w.regularStep c = some w') : w'.Tight := by
  obtain ⟨rs, os, hinv, hsnug⟩ := h
  unfold World.regularStep World.step at hstep
  split_ifs at hstep with hreg hadm
  rcases hinv.call hadm hreg with hcrash | ⟨w₁, rs', os', hcall, hinv', hsnug'⟩
  · rw [hcrash] at hstep
    cases hstep
  · rw [hcall] at hstep
    cases hstep
    exact ⟨rs', os', hinv', hsnug' hsnug⟩

theorem World.regularRun_tight {mem : ByteMemory} {calls : List Call} {w : World}
    (hrun : run World.regularStep (World.start mem) calls = some w) : w.Tight :=
  run_induction (fun _ _ _ h hstep => World.regularStep_tight h hstep)
    ⟨[], [], World.start_inv mem, List.forall_mem_nil _⟩ hrun

theorem World.regularRun_inv {mem : ByteMemory} {calls : List Call} {w : World}
    (hrun : run World.regularStep (World.start mem) calls = some w) : ∃ rs os, w.Inv rs os := by
  obtain ⟨rs, os, hinv, -⟩ := World.regularRun_tight hrun
  exact ⟨rs, os, hinv⟩

/-- The heap is in order after every run of regular calls, and the next one returns or reports that
there is no memory left. -/
theorem heap_inOrder {mem : ByteMemory} {calls : List Call} {w : World}
    (hrun : run World.regularStep (World.start mem) calls = some w) :
    (∃ rs os, w.InOrder rs os) ∧ ∀ c, w.Admissible c → w.Regular c →
      w.call c = .error (.crash "out of memory") ∨ ∃ w', w.call c = .ok w' := by
  obtain ⟨rs, os, hinv⟩ := World.regularRun_inv hrun
  refine ⟨⟨rs, os, hinv.inOrder⟩, fun c hadm hreg => ?_⟩
  rcases hinv.call hadm hreg with hcrash | ⟨w', rs', os', hcall, -⟩
  · exact .inl hcrash
  · exact .inr ⟨w', hcall⟩

/-- Both areas, a block, another one with a byte written to it, and the first one freed. -/
theorem heap_inOrder_reuse :
    ∃ w, run World.regularStep (World.start fun _ => 0)
        [.add 0x1000 0x1000, .add 0x2000 0x800, .alloc 0x80 16 false, .alloc 0x100 0x1000 true,
          .write 0x2004 1, .free 0x1020] = some w ∧
      w.live = [{ ptr := 0x2000, size := 0x100, alignment := 0x1000, permanent := true }] ∧
      (∃ rs os, w.InOrder rs os) ∧ ∀ c, w.Admissible c → w.Regular c →
        w.call c = .error (.crash "out of memory") ∨ ∃ w', w.call c = .ok w' := by
  obtain ⟨w, hrun⟩ : ∃ w, run World.regularStep (World.start fun _ => 0)
      [.add 0x1000 0x1000, .add 0x2000 0x800, .alloc 0x80 16 false, .alloc 0x100 0x1000 true,
        .write 0x2004 1, .free 0x1020] = some w := Option.isSome_iff_exists.1 (by decide +kernel)
  have hlive : (run World.regularStep (World.start fun _ => 0)
      [.add 0x1000 0x1000, .add 0x2000 0x800, .alloc 0x80 16 false, .alloc 0x100 0x1000 true,
        .write 0x2004 1, .free 0x1020]).map (·.live) =
      some [{ ptr := 0x2000, size := 0x100, alignment := 0x1000, permanent := true }] := by
    decide +kernel
  rw [hrun] at hlive
  exact ⟨w, hrun, Option.some.inj hlive, heap_inOrder hrun⟩

/-- Areas that touch become one range, and a block can lie across them. -/
theorem heap_block_across_areas :
    ¬∀ (calls : List Call) (w : World), run World.step (World.start fun _ => 0) calls = some w →
      ∀ b ∈ w.live, ∃ a ∈ w.areas, ∀ x, b.Contains x → a.Contains x := by
  intro hall
  -- the first area, the one behind it, and a permanent block larger than either
  have hafter : (run World.step (World.start fun _ => 0)
      [.add 0x1000 0x1000, .add 0x2000 0x1000, .alloc 0x1800 4 true]).map
        (fun w => (w.areas, w.live)) =
      some ([{ base := 0x2000, size := 0x1000 }, { base := 0x1000, size := 0x1000 }],
        [{ ptr := 0x1000, size := 0x1800, alignment := 4, permanent := true }]) := by
    decide +kernel
  obtain ⟨w, hrun, hw⟩ := Option.map_eq_some_iff.1 hafter
  obtain ⟨hareas, hlive⟩ := Prod.mk.inj hw
  have hspan := hall _ w hrun
  rw [hareas, hlive] at hspan
  obtain ⟨a, ha, hin⟩ := hspan _ List.mem_cons_self
  have hfirst := hin 0x1000 ⟨by decide, by decide⟩
  have hlast := hin 0x27ff ⟨by decide, by decide⟩
  simp only [Area.Contains, List.mem_cons, List.not_mem_nil, or_false] at ha hfirst hlast
  rcases ha with rfl | rfl
  · exact absurd hfirst.1 (by decide)
  · exact absurd hlast.2 (by decide)

end XrLinux.Bootloader
