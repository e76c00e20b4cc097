import Mathlib.Data.List.Pairwise
import XrLinux.Bootloader.HeapRuns

/-!
# Bootloader — `BlResizeHeap`

A block keeps its place when its range has room, or takes what it needs from the free range behind
it (`Grown`), or moves. On the first two paths the code goes wrong for some sizes. A block that
shrinks by a header or more leaves a range of no bytes where it ended before, instead of the bytes
that it gives back; a block that needs more than the free range behind it has is extended over
whatever comes next. `World.Resizable` is what excludes both.
-/

namespace XrLinux.Bootloader

open ByteMemory

/-! ## The layout -/

/-- The range `r` grows up to `hi` into the free range behind it, or takes that range whole when what
would be left has no room for a header. -/
inductive Grown (r : Range) (hi : Nat) : List Range → List Nat → List Range → List Nat → Prop where
  | part {xs ys us vs q} (hq : q.free = true) (hrq : r.stop = q.base) (hlt : r.stop < hi)
      (hroom : hi + 24 ≤ q.stop) :
      Grown r hi (xs ++ r :: q :: ys) (us ++ q.base :: vs)
        (xs ++ { r with stop := hi } :: { q with base := hi } :: ys) (hi :: (us ++ vs))
  | whole {xs ys us vs q} (hq : q.free = true) (hrq : r.stop = q.base) (hle : hi ≤ q.stop)
      (hsmall : q.stop < hi + 24) :
      Grown r hi (xs ++ r :: q :: ys) (us ++ q.base :: vs)
        (xs ++ { r with stop := q.stop } :: ys) (us ++ vs)

section
variable {rs rs' : List Range} {os os' : List Nat} {r : Range} {hi : Nat}

theorem Grown.layout (hgrow : Grown r hi rs os rs' os') (h : Layout rs os) (hr : r.free = false)
    (hhi : 4 ∣ hi) : Layout rs' os' := by
  obtain ⟨hsorted, hvalid, hperm⟩ := h
  refine ⟨?_, ?_, perm_of_count hperm ?_⟩
  · cases hgrow <;>
      simp only [sorted_middle_iff, List.pairwise_cons, List.forall_mem_cons, Range.Before]
        at hsorted ⊢ <;> grind
  · cases hgrow with
    | part hq hrq hlt hroom =>
      simp only [List.forall_mem_append, List.forall_mem_cons] at hvalid ⊢
      obtain ⟨hxs, hr', hq', hys⟩ := hvalid
      have := hr'.room
      have := hq'.stop_lt
      exact ⟨hxs, ⟨hr'.pos, hr'.base_dvd, hhi, by dsimp only; omega, by dsimp only; omega⟩,
        ⟨by dsimp only; omega, hhi, hq'.stop_dvd, hroom, hq'.stop_lt⟩, hys⟩
    | whole hq hrq hle _ =>
      simp only [List.forall_mem_append, List.forall_mem_cons] at hvalid ⊢
      obtain ⟨hxs, hr', hq', hys⟩ := hvalid
      have := hr'.room
      have := hq'.room
      exact ⟨hxs, ⟨hr'.pos, hr'.base_dvd, hq'.stop_dvd, by dsimp only; omega, hq'.stop_lt⟩, hys⟩
  · intro x
    cases hgrow <;> simp [List.count_append, List.count_cons, *] <;> omega

theorem Grown.noTouch (hgrow : Grown r hi rs os rs' os') (h : Layout rs os) (ht : NoTouch rs) :
    NoTouch rs' := by
  have hroom : ∀ r ∈ rs, r.base < r.stop := fun r hr => by have := (h.valid r hr).room; omega
  have hsorted := h.sorted
  unfold NoTouch at ht ⊢
  cases hgrow <;> simp only [sorted_middle_iff, List.pairwise_cons, Range.Before,
    List.forall_mem_append, List.forall_mem_cons] at ht hroom hsorted ⊢ <;> grind

theorem Grown.keeps {s : Range} (hgrow : Grown r hi rs os rs' os') (hs : s ∈ rs)
    (hfree : s.free = false) (hne : s ≠ r) : s ∈ rs' := by
  cases hgrow <;> grind

/-- The range of the block, as it is now. -/
theorem Grown.block (hgrow : Grown r hi rs os rs' os') :
    ∃ r' ∈ rs', r'.base = r.base ∧ hi ≤ r'.stop ∧ r'.stop < hi + 24 ∧ r'.free = r.free := by
  cases hgrow with
  | part => exact ⟨_, List.mem_append_right _ List.mem_cons_self, rfl, le_rfl,
      Nat.lt_add_of_pos_right (by decide), rfl⟩
  | whole hq hrq hle hsmall =>
    exact ⟨_, List.mem_append_right _ List.mem_cons_self, rfl, hle, hsmall, rfl⟩

end

/-! ### One block -/

section
variable {areas : List Area} {live : List Block} {rs rs' : List Range} {os os' : List Nat}
  {b c : Block} {r : Range} {hi : Nat}

instance symmClear : Std.Symm Block.Clear := ⟨fun _ _ => Or.symm⟩

theorem Sound.eq_of_ptr (h : Sound areas live rs os) (hb : b ∈ live) (hc : c ∈ live)
    (hptr : b.ptr = c.ptr) : b = c := by
  by_contra hne
  have hclear := h.clear.forall hb hc hne
  have := (h.aligned b hb).2.1
  have := (h.aligned c hc).2.1
  unfold Block.Clear at hclear
  omega

/-- Without the block at `ptr`. -/
theorem Sound.forget (h : Sound areas live rs os) (ptr : Nat) :
    Sound areas (live.filter (·.ptr ≠ ptr)) rs os := by
  have hsub : ∀ b ∈ live.filter (·.ptr ≠ ptr), b ∈ live := fun b hb => List.mem_of_mem_filter hb
  exact { h with
    aligned := fun b hb => h.aligned b (hsub b hb)
    block_inside := fun b hb => h.block_inside b (hsub b hb)
    clear := h.clear.sublist List.filter_sublist
    owned := fun b hb => h.owned b (hsub b hb)
    beside := fun b hb => h.beside b (hsub b hb) }

/-- With a block in a range that no other block has. -/
theorem Sound.adopt (h : Sound areas live rs os) (hr : r ∈ rs) (hfree : r.free = false)
    (hptr : r.base + 24 = b.ptr) (hstop : b.ptr + b.size ≤ r.stop) (hsize : 0 < b.size)
    (halign : b.alignment ∣ b.ptr) (hperm : b.permanent = false) (hnew : ∀ c ∈ live, c.ptr ≠ b.ptr) :
    Sound areas (b :: live) rs os where
  layout := h.layout
  inside := h.inside
  aligned := List.forall_mem_cons.2 ⟨⟨by omega, hsize, halign⟩, h.aligned⟩
  block_inside := by
    refine List.forall_mem_cons.2 ⟨fun x hx => h.inside r hr x ?_, h.block_inside⟩
    simp only [Block.Contains] at hx
    exact ⟨by omega, by omega⟩
  clear := by
    refine List.pairwise_cons.2 ⟨fun c hc => ?_, h.clear⟩
    unfold Block.Clear
    cases hcperm : c.permanent with
    | false =>
      obtain ⟨s, hs, -, hsbase, hsstop⟩ := h.owned c hc hcperm
      have hne : r ≠ s := by
        rintro rfl
        exact hnew c hc (hsbase.symm.trans hptr)
      have := h.layout.disjoint hr hs hne
      omega
    | true =>
      have := h.beside c hc hcperm r hr
      omega
  owned := List.forall_mem_cons.2 ⟨fun _ => ⟨r, hr, hfree, hptr, hstop⟩, h.owned⟩
  beside := by
    refine List.forall_mem_cons.2 ⟨fun htrue => ?_, h.beside⟩
    rw [hperm] at htrue
    cases htrue

/-- No byte of a block is the heap's. -/
theorem Sound.not_heaps (h : Sound areas live rs os) (hb : b ∈ live) {x : Nat} (hx : b.Contains x)
    {s : Range} (hs : s ∈ rs) : ¬s.Heaps x := by
  rintro ⟨hlo, hhi⟩
  unfold Block.Contains at hx
  split at hhi
  · have := h.clear_free hb hs ‹_›
    omega
  · have := h.clear_header hb hs
    omega

theorem Grown.sound (hgrow : Grown r hi rs os rs' os') (h : Sound areas live rs os)
    (hr : r.free = false) (hhi : 4 ∣ hi) (hb : b ∈ live) (hperm : b.permanent = false)
    (hptr : r.base + 24 = b.ptr) {size : Nat} (hsize : 0 < size) (hfit : b.ptr + size ≤ hi) :
    Sound areas ({ b with size := size } :: live.filter (·.ptr ≠ b.ptr)) rs' os' := by
  have hlayout := hgrow.layout h.layout hr hhi
  have hrest : Sound areas (live.filter (·.ptr ≠ b.ptr)) rs' os' := by
    refine (h.forget b.ptr).replace hlayout (fun _ => False) ?_ ?_ (fun _ hx => hx)
      (fun _ => False.elim) fun _ => False.elim
    · cases hgrow <;> simp only [List.forall_mem_append, List.forall_mem_cons, Range.Contains] <;> grind
    · intro c hc hcperm s hs hfree hbase
      have hne : s ≠ r := by
        rintro rfl
        have hcptr : c.ptr ≠ b.ptr := by simpa using (List.mem_filter.1 hc).2
        exact hcptr (hbase.symm.trans hptr)
      exact hgrow.keeps hs hfree hne
  have hroom : ∀ s ∈ rs, s.base + 24 ≤ s.stop := fun s hs => (h.layout.valid s hs).room
  obtain ⟨r', hr', hbase, hstop, -, hfree⟩ := hgrow.block
  rw [hr] at hfree
  refine hrest.adopt hr' hfree (by rw [hbase]; exact hptr) (hfit.trans hstop) hsize
    (h.aligned b hb).2.2 hperm fun c hc => ?_
  simpa using (List.mem_filter.1 hc).2

theorem Snug.forget (h : Snug live rs) (ptr : Nat) : Snug (live.filter (·.ptr ≠ ptr)) rs :=
  h.replace (fun _ hb => List.mem_of_mem_filter hb) fun _ hr _ _ _ _ => hr

theorem Grown.snug (hgrow : Grown r hi rs os rs' os') (h : Snug live rs) (hr : r.free = false)
    (hptr : r.base + 24 = b.ptr) {size : Nat} (hhi : hi = b.ptr + roundUp size) :
    Snug ({ b with size := size } :: live.filter (·.ptr ≠ b.ptr)) rs' := by
  have hrest : Snug (live.filter (·.ptr ≠ b.ptr)) rs' := by
    refine h.replace (fun _ hc => List.mem_of_mem_filter hc) fun s hs hfree c hc hbase => ?_
    refine hgrow.keeps hs hfree ?_
    rintro rfl
    have hne : c.ptr ≠ b.ptr := by simpa using (List.mem_filter.1 hc).2
    exact hne (hbase.symm.trans hptr)
  obtain ⟨r', hr', hbase, -, hstop, hfree⟩ := hgrow.block
  exact hrest.cons hr' (hfree.trans hr) (by rw [hbase]; exact hptr) (by rw [← hhi]; exact hstop)

end

/-! ## The heap -/

section
variable {h : Heap} {rs : List Range} {os us vs : List Nat} {xs ys : List Range} {q r : Range} {hi : Nat}

/-- What is read of the free range after it has left the lists. -/
theorem Shape.removed (hs : Shape h (xs ++ q :: ys) (us ++ q.base :: vs)) :
    Headers h.mem ((xs ++ q :: ys).map (·.base)) ((h.removeRange q.base).removeFree q.base)
      ((xs ++ q :: ys).map (·.base)) (xs.map (·.base) ++ ys.map (·.base)) (us ++ vs)
      h.rangeEnd h.isFree := by
  have h0 := hs.headers fun r hr => List.mem_map_of_mem hr
  simp only [List.map_append, List.map_cons] at h0 ⊢
  exact h0.removeRange.removeFree

theorem absorb_shape (hs : Shape h (xs ++ r :: q :: ys) (us ++ q.base :: vs))
    (hl' : Layout (xs ++ { r with stop := q.stop } :: ys) (us ++ vs)) {h₁ : Heap}
    (hh₁ : h₁ = (h.removeRange q.base).removeFree q.base) :
    Shape (h₁.setEnd r.base q.stop) (xs ++ { r with stop := q.stop } :: ys) (us ++ vs) ∧
    KeepsBut 0 24 ((xs ++ r :: q :: ys).map (·.base)) h.mem (h₁.setEnd r.base q.stop).mem := by
  have hs₁ : Shape h ((xs ++ [r]) ++ q :: ys) (us ++ q.base :: vs) := by simpa using hs
  have h1 := hs₁.removed
  rw [← hh₁] at h1
  have hlt : q.stop < 4294967296 := (hl'.valid { r with stop := q.stop } (by simp)).stop_lt
  have h2 := h1.setEnd (n := r.base) (by simp) hlt
  have hstop := hs.stop_eq
  have hfree := hs.free_eq
  simp only [List.forall_mem_append, List.forall_mem_cons] at hstop hfree
  obtain ⟨hxs, hys⟩ := hl'.middle
  refine ⟨.of_headers hl' (by simpa using h2) ?_ ?_, by simpa using h2.keeps⟩
  · simp only [List.forall_mem_append, List.forall_mem_cons, Function.update_self]
    exact ⟨field_update hstop.1 fun r hr => (hxs r hr).1.ne, trivial,
      field_update hstop.2.2.2 fun r hr => (hys r hr).1.ne'⟩
  · simp only [List.forall_mem_append, List.forall_mem_cons]
    exact ⟨hfree.1, hfree.2.1, hfree.2.2.2⟩

/-- A block grows into the range behind it. -/
theorem growRange_refines (hs : Shape h (xs ++ r :: q :: ys) os) (hl : Layout (xs ++ r :: q :: ys) os)
    (hr : r.free = false) (hq : q.free = true) (hrq : r.stop = q.base) (hhi : 4 ∣ hi)
    (hlt : r.stop < hi) (hle : hi ≤ q.stop) :
    ∃ rs' os', Grown r hi (xs ++ r :: q :: ys) os rs' os' ∧
      Shape (growRange h r.base q.base hi) rs' os' ∧
      ∀ x, (∀ s ∈ xs ++ r :: q :: ys, ¬s.Heaps x) →
        (growRange h r.base q.base hi).mem x = h.mem x := by
  obtain ⟨us, vs, rfl⟩ := hl.exists_order (r := q) (by simp) hq
  have hassoc : ∀ zs, xs ++ [r] ++ zs = xs ++ r :: zs := fun _ => by simp
  have hs₁ : Shape h ((xs ++ [r]) ++ q :: ys) (us ++ q.base :: vs) := by rwa [hassoc]
  have hroom : ∀ s ∈ xs ++ r :: q :: ys, s.base + 24 ≤ s.stop := fun s hs => (hl.valid s hs).room
  have hqvalid := hl.valid q (by simp)
  -- the bytes outside the heap are in no header
  have hheaders : ∀ x, (∀ s ∈ xs ++ r :: q :: ys, ¬s.Heaps x) →
      ∀ b ∈ (xs ++ r :: q :: ys).map (·.base), x < b + 0 ∨ b + 0 + 24 ≤ x := by
    intro x hx b hb
    obtain ⟨s, hs, rfl⟩ := List.mem_map.1 hb
    have := hroom s hs
    have := hx s hs
    unfold Range.Heaps at this
    split at this <;> omega
  have hend : ((h.removeRange q.base).removeFree q.base).rangeEnd q.base = q.stop := by
    rw [hs₁.removed.stop_eq q.base (by simp), hs.stop_eq q (by simp)]
  have hsub : sub32 q.stop hi = q.stop - hi := by
    have := hqvalid.stop_lt
    unfold sub32
    omega
  generalize hh' : growRange h r.base q.base hi = h'
  simp only [growRange, hend, hsub] at hh'
  by_cases hpart : q.stop - hi ≥ heapRangeSize
  · rw [if_pos hpart] at hh'
    simp only [heapRangeSize] at hpart
    have hgrow : Grown r hi (xs ++ r :: q :: ys) (us ++ q.base :: vs)
        (xs ++ { r with stop := hi } :: { q with base := hi } :: ys) (hi :: (us ++ vs)) :=
      .part hq hrq hlt (by omega)
    have hl' := hgrow.layout hl hr hhi
    -- first the header moves, the block still ends where it did
    have hmoved : Layout ((xs ++ [r]) ++ { q with base := hi } :: ys) (hi :: (us ++ vs)) := by
      rw [hassoc]
      refine ⟨?_, ?_, ?_⟩
      · have hsorted := hl.sorted
        have hsorted' := hl'.sorted
        simp only [sorted_middle_iff, List.pairwise_cons, List.forall_mem_cons, Range.Before]
          at hsorted hsorted' ⊢
        grind
      · have hvalid := hl.valid
        have hvalid' := hl'.valid
        simp only [List.forall_mem_append, List.forall_mem_cons] at hvalid hvalid' ⊢
        exact ⟨hvalid.1, hvalid.2.1, hvalid'.2.2⟩
      · have hperm := hl'.perm
        simp only [freeBases_append, freeBases_cons] at hperm ⊢
        exact hperm
    obtain ⟨hshape, hkeeps⟩ := addNext_shape hs₁ hq hmoved rfl rfl
    have hanchor : ((xs ++ [r]).map (·.base)).getLastD 0 = r.base := by simp
    rw [hanchor, hassoc] at hshape hkeeps
    obtain ⟨hshape', hkeeps'⟩ := addPrev_shape hshape hl'
    rw [hh'] at hshape' hkeeps'
    refine ⟨_, _, hgrow, hshape', fun x hx => ?_⟩
    have hx' := hheaders x hx
    have hqx := hx q (by simp)
    unfold Range.Heaps at hqx
    rw [hq] at hqx
    simp only [if_true] at hqx
    refine (hkeeps' x fun b hb => ?_).trans (hkeeps x fun b hb => ?_)
    · simp only [List.map_append, List.map_cons, List.mem_append, List.mem_cons] at hb hx'
      rcases hb with hb | rfl | rfl | hb
      · exact hx' b (.inl hb)
      · exact hx' _ (.inr (.inl rfl))
      · omega
      · exact hx' b (.inr (.inr (.inr hb)))
    · rcases List.mem_cons.1 hb with rfl | hb
      · omega
      · exact hx' b hb
  · rw [if_neg hpart] at hh'
    have hgrow : Grown r hi (xs ++ r :: q :: ys) (us ++ q.base :: vs)
        (xs ++ { r with stop := q.stop } :: ys) (us ++ vs) := .whole hq hrq hle (by
      simp only [heapRangeSize] at hpart
      omega)
    obtain ⟨hshape, hkeeps⟩ := absorb_shape hs (hgrow.layout hl hr hhi) rfl
    rw [hh'] at hshape hkeeps
    exact ⟨_, _, hgrow, hshape, fun x hx => hkeeps x (hheaders x hx)⟩

theorem read32_write32_beside (m : ByteMemory) {a b : Nat} (v : Nat) (h : b + 4 ≤ a ∨ a + 4 ≤ b) :
    (m.write32 a v).read32 b = m.read32 b :=
  (sameOn_write32 m v h).read32

/-- A word read after a store that missed it or hit it. -/
theorem read32_write32_le (m : ByteMemory) {a b : Nat} (v : Nat) (ha : 4 ∣ a) (hb : 4 ∣ b) :
    (m.write32 a v).read32 b ≤ max (m.read32 b) v := by
  by_cases hab : a = b
  · rw [hab, read32_write32]
    exact (Nat.mod_le _ _).trans (le_max_right _ _)
  · rw [read32_write32_beside m v (by omega)]
    exact le_max_left _ _

section
variable {range new : Nat}

/-- After `range` in the list comes `new`; its `End` is what it was, or a link that was stored
there. -/
theorem insertRange_reads (hrange0 : range ≠ 0) (hbehind : range + 24 ≤ new) (hnew_dvd : 4 ∣ new)
    (hnew_lt : new < 4294967296)
    (hnext : h.next range = 0 ∨ range + 24 ≤ h.next range ∧ 4 ∣ h.next range) :
    (h.insertRange range new).next range = new ∧
      (h.insertRange range new).rangeEnd new ≤ max (h.rangeEnd new) new ∧
      (h.insertRange range new).freeRanges = h.freeRanges := by
  obtain ⟨n, hn⟩ : ∃ n, n = h.next range := ⟨_, rfl⟩
  have hnext' : h.mem.read32 (range + 4) = n := hn ▸ (container_zero _).symm
  rw [← hn] at hnext
  have hn_lt : n < 4294967296 := hnext' ▸ read32_lt _ _
  obtain ⟨m, hm⟩ : ∃ m, m = ((h.mem.write32 new range).write32 (new + 4) n).write32 (range + 4) new :=
    ⟨_, rfl⟩
  have hnew_next : m.read32 (new + 4) = n := by
    rw [hm, read32_write32_beside _ _ (by omega), read32_write32_self _ _ hn_lt]
  have hrange_next : m.read32 (range + 4) = new := by rw [hm, read32_write32_self _ _ hnew_lt]
  have hend : m.read32 (new + 16) = h.mem.read32 (new + 16) := by
    rw [hm, read32_write32_beside _ _ (by omega), read32_write32_beside _ _ (by omega),
      read32_write32_beside _ _ (by omega)]
  have hmem : (h.insertRange range new).mem = if n ≠ 0 then m.write32 n new else m := by
    have hread : (h.mem.write32 new range).read32 (range + 4) = n := by
      rw [read32_write32_beside _ _ (by omega), hnext']
    simp only [Heap.insertRange, blListInsertAfter, memNode, ne_eq, hrange0, not_false_eq_true,
      if_true, hread, ← hm, hnew_next]
    split <;> rfl
  refine ⟨?_, ?_, rfl⟩
  · show container 0 ((h.insertRange range new).mem.read32 (range + 4)) = new
    rw [container_zero, hmem]
    split
    · rw [read32_write32_beside _ _ (by omega), hrange_next]
    · exact hrange_next
  · show (h.insertRange range new).mem.read32 (new + 16) ≤ max (h.mem.read32 (new + 16)) new
    rw [hmem, ← hend]
    split
    · exact read32_write32_le m _ (by omega) (by omega)
    · exact le_max_left _ _

theorem insertFree_reads (hbehind : range + 24 ≤ new) (hnew_dvd : 4 ∣ new) (hfirst : h.freeRanges.head < 4294967296)
    (hfirst_dvd : 4 ∣ h.freeRanges.head)
    (hfirst_apart : h.freeRanges.head + 4 ≤ range + 4 ∨ range + 8 ≤ h.freeRanges.head) :
    (h.insertFree 0 new).next range = h.next range ∧
      (h.insertFree 0 new).rangeEnd new ≤ max (h.rangeEnd new) (new + 8) := by
  obtain ⟨n, hn⟩ : ∃ n, n = h.freeRanges.head := ⟨_, rfl⟩
  rw [← hn] at hfirst hfirst_dvd hfirst_apart
  obtain ⟨m, hm⟩ : ∃ m, m = (h.mem.write32 (new + 8) 0).write32 (new + 8 + 4) n := ⟨_, rfl⟩
  have hnew_next : m.read32 (new + 8 + 4) = n := by rw [hm, read32_write32_self _ _ hfirst]
  have hbeside : ∀ b, b + 4 ≤ new + 8 ∨ new + 16 ≤ b → m.read32 b = h.mem.read32 b := by
    intro b hb
    rw [hm, read32_write32_beside _ _ (by omega), read32_write32_beside _ _ (by omega)]
  have hmem : (h.insertFree 0 new).mem = if n ≠ 0 then m.write32 n (new + 8) else m := by
    simp only [Heap.insertFree, blListInsertAfter, memNode, freeNodeOffset, ne_eq,
      not_true_eq_false, if_false, ← hn, ← hm, hnew_next]
    split <;> rfl
  constructor
  · show container 0 ((h.insertFree 0 new).mem.read32 (range + 4)) =
      container 0 (h.mem.read32 (range + 4))
    rw [hmem, ← hbeside (range + 4) (by omega)]
    split
    · rw [read32_write32_beside _ _ (by omega)]
    · rfl
  · show (h.insertFree 0 new).mem.read32 (new + 16) ≤ max (h.mem.read32 (new + 16)) (new + 8)
    rw [hmem, ← hbeside (new + 16) (by omega)]
    split
    · exact read32_write32_le m _ (by omega) (by omega)
    · exact le_max_left _ _

/-- What the two insertions leave when `range` is then given its end. -/
theorem insertBoth_reads {v : Nat} (hrange0 : range ≠ 0) (hbehind : range + 24 ≤ new)
    (hnew_dvd : 4 ∣ new) (hnew_lt : new < 4294967296)
    (hnext : h.next range = 0 ∨ range + 24 ≤ h.next range ∧ 4 ∣ h.next range)
    (hfirst : h.freeRanges.head < 4294967296) (hfirst_dvd : 4 ∣ h.freeRanges.head)
    (hfirst_apart : h.freeRanges.head + 4 ≤ range + 4 ∨ range + 8 ≤ h.freeRanges.head) :
    (((h.insertRange range new).insertFree 0 new).setEnd range v).next range = new ∧
      (((h.insertRange range new).insertFree 0 new).setEnd range v).rangeEnd new ≤
        max (h.rangeEnd new) (new + 8) := by
  obtain ⟨hnext₁, hend₁, hfrees⟩ := insertRange_reads hrange0 hbehind hnew_dvd hnew_lt hnext
  obtain ⟨hnext₂, hend₂⟩ := insertFree_reads (h := h.insertRange range new) hbehind hnew_dvd
    (by rw [hfrees]; exact hfirst) (by rw [hfrees]; exact hfirst_dvd)
    (by rw [hfrees]; exact hfirst_apart)
  generalize (h.insertRange range new).insertFree 0 new = h₂ at hnext₂ hend₂ ⊢
  constructor
  · rw [← hnext₁, ← hnext₂]
    show container 0 ((h₂.mem.write32 (range + 16) v).read32 (range + 4)) = _
    rw [read32_write32_beside _ _ (by omega)]
    rfl
  · have hend : (h₂.setEnd range v).rangeEnd new = h₂.rangeEnd new :=
      read32_write32_beside _ _ (by omega)
    omega

/-- The list leads from `range` to a header that is too short to be one. -/
def Heap.Short (h : Heap) (range : Nat) : Prop :=
  h.next range ≠ 0 ∧ h.rangeEnd (h.next range) < h.next range + heapRangeSize

instance Heap.decidableShort (h : Heap) (range : Nat) : Decidable (h.Short range) := by
  unfold Heap.Short
  infer_instance

theorem Shape.not_short (hs : Shape h rs os) (hl : Layout rs os) (hr : r ∈ rs) :
    ¬h.Short r.base := by
  rintro ⟨hnext, hshort⟩
  obtain ⟨xs, ys, rfl⟩ := List.append_of_mem hr
  rw [hs.next_eq] at hnext hshort
  cases ys with
  | nil => exact hnext rfl
  | cons q ys =>
    rw [List.map_cons, List.headD_cons, hs.stop_eq q (by simp)] at hshort
    exact absurd (hl.valid q (by simp)).room (not_le.2 hshort)

/-- The links that the two insertions read. -/
theorem Layout.next_bounds {xs ys : List Range} (hl : Layout (xs ++ r :: ys) os) :
    (ys.map (·.base)).headD 0 = 0 ∨
      r.stop ≤ (ys.map (·.base)).headD 0 ∧ 4 ∣ (ys.map (·.base)).headD 0 := by
  cases ys with
  | nil => exact .inl rfl
  | cons q ys =>
    exact .inr ⟨(hl.middle.2 q List.mem_cons_self).2, (hl.valid q (by simp)).base_dvd⟩

theorem Layout.first_bounds (hl : Layout rs os) (hr : r ∈ rs) (hfree : r.free = false)
    {os' : List Nat} (hsub : ∀ o ∈ os', o ∈ os) :
    (os'.map (· + freeNodeOffset)).headD 0 < 4294967296 ∧
      4 ∣ (os'.map (· + freeNodeOffset)).headD 0 ∧
      ((os'.map (· + freeNodeOffset)).headD 0 + 4 ≤ r.base + 4 ∨
        r.base + 8 ≤ (os'.map (· + freeNodeOffset)).headD 0) := by
  cases os' with
  | nil =>
    refine ⟨by decide, by decide, .inl ?_⟩
    show 0 + 4 ≤ r.base + 4
    omega
  | cons o os' =>
    obtain ⟨s, hs, hsfree, rfl⟩ := (hl.mem_iff o).1 (hsub o List.mem_cons_self)
    have hne : r ≠ s := by
      rintro rfl
      rw [hfree] at hsfree
      cases hsfree
    have hapart := hl.disjoint hr hs hne
    have hrvalid := hl.valid r hr
    have hsvalid := hl.valid s hs
    have hrroom := hrvalid.room
    have hsroom := hsvalid.room
    have hlt := hsvalid.stop_lt
    have hdvd := hsvalid.base_dvd
    show s.base + 8 < 4294967296 ∧ 4 ∣ s.base + 8 ∧ (s.base + 8 + 4 ≤ r.base + 4 ∨ r.base + 8 ≤ s.base + 8)
    omega

/-- A range of no bytes where the block ended before. -/
theorem shrinkRange_short {xs ys : List Range} (hs : Shape h (xs ++ r :: ys) os)
    (hl : Layout (xs ++ r :: ys) os) (hfree : r.free = false) {extra : Nat}
    (hextra : heapRangeSize ≤ extra) :
    (shrinkRange h r.base (r.base + 24) (r.stop - (r.base + 24)) extra).Short r.base := by
  have hvalid := hl.valid r (by simp)
  have hroom := hvalid.room
  have hlt := hvalid.stop_lt
  have hnew : add32 (r.base + 24) (r.stop - (r.base + 24)) = r.stop := by
    unfold add32
    omega
  obtain ⟨h₁, hh₁⟩ : ∃ h₁, h₁ = (h.setEnd r.stop (h.rangeEnd r.base)).setFree r.stop true := ⟨_, rfl⟩
  have hend : h₁.rangeEnd r.stop = r.stop := by
    rw [hh₁]
    show ((h.mem.write32 (r.stop + 16) (h.rangeEnd r.base)).write8 (r.stop + 20) 1).read32
      (r.stop + 16) = r.stop
    rw [(sameOn_write8 _ _ (by omega)).read32, hs.stop_eq r (by simp), read32_write32_self _ _ hlt]
  have hnext : h₁.next r.base = (ys.map (·.base)).headD 0 := by
    rw [← hs.next_eq, hh₁]
    show container 0 (((h.mem.write32 (r.stop + 16) (h.rangeEnd r.base)).write8 (r.stop + 20)
      1).read32 (r.base + 4)) = container 0 (h.mem.read32 (r.base + 4))
    rw [(sameOn_write8 _ _ (by omega)).read32, read32_write32_beside _ _ (by omega)]
  have hfirst : h₁.freeRanges.head = (os.map (· + freeNodeOffset)).headD 0 := by
    rw [hh₁]
    exact hs.rep.freeRanges.head_eq
  obtain ⟨hfirst_lt, hfirst_dvd, hfirst_apart⟩ :=
    hl.first_bounds (r := r) (by simp) hfree fun o ho => ho
  rw [← hfirst] at hfirst_lt hfirst_dvd hfirst_apart
  have hreads := insertBoth_reads
    (v := sub32 (((h₁.insertRange r.base r.stop).insertFree 0 r.stop).rangeEnd r.base) extra)
    hvalid.pos hroom hvalid.stop_dvd hlt
    (by rw [hnext]; exact hl.next_bounds.imp id fun hb => ⟨hroom.trans hb.1, hb.2⟩)
    hfirst_lt hfirst_dvd hfirst_apart
  simp only [shrinkRange, ge_iff_le, hextra, if_true, hnew, ← hh₁]
  unfold Heap.Short heapRangeSize
  rw [hreads.1]
  have := hreads.2
  omega

/-- A header behind the end of the free range that it is a copy of. -/
theorem growRange_short {xs ys : List Range} {q : Range} {hi : Nat}
    (hs : Shape h (xs ++ r :: q :: ys) os) (hl : Layout (xs ++ r :: q :: ys) os)
    (hfree : r.free = false) (hq : q.free = true) (hhi : 4 ∣ hi) (hgt : q.stop < hi)
    (hhi_lt : hi < 4294967296) : (growRange h r.base q.base hi).Short r.base := by
  obtain ⟨us, vs, rfl⟩ := hl.exists_order (r := q) (by simp) hq
  have hvalid := hl.valid r (by simp)
  have hqvalid := hl.valid q (by simp)
  have hroom := hvalid.room
  have hqroom := hqvalid.room
  have hq_lt := hqvalid.stop_lt
  have hrq := (hl.middle.2 q List.mem_cons_self).2
  have hs₁ : Shape h ((xs ++ [r]) ++ q :: ys) (us ++ q.base :: vs) := by simpa using hs
  have hremoved := hs₁.removed
  have hl₁ : Layout ((xs ++ [r]) ++ q :: ys) (us ++ q.base :: vs) := by simpa using hl
  generalize hh₁ : (h.removeRange q.base).removeFree q.base = h₁ at hremoved
  obtain ⟨h₂, hh₂⟩ : ∃ h₂, h₂ = { h₁ with mem := h₁.mem.copy hi q.base heapRangeSize } := ⟨_, rfl⟩
  have hend₁ : h₁.rangeEnd q.base = q.stop := by
    rw [hremoved.stop_eq q.base (by simp), hs.stop_eq q (by simp)]
  have hend : h₂.rangeEnd hi = q.stop := by
    rw [← hend₁, hh₂]
    exact read32_copy _ (by decide)
  have hnext : h₂.next r.base = (ys.map (·.base)).headD 0 := by
    have hlist := hremoved.rep.heapRanges
    simp only [Nat.add_zero, List.map_id', List.map_append, List.map_cons, List.map_nil,
      List.append_assoc, List.singleton_append] at hlist
    rw [← hlist.next_eq, hh₂]
    show container 0 ((h₁.mem.copy hi q.base heapRangeSize).read32 (r.base + 4)) =
      h₁.mem.read32 (r.base + 4)
    rw [container_zero]
    exact (sameOn_copy _ _ _ (by omega)).read32
  have hbehind := hl₁.next_bounds
  have hfirst : h₂.freeRanges.head = ((us ++ vs).map (· + freeNodeOffset)).headD 0 := by
    rw [hh₂]
    exact hremoved.rep.freeRanges.head_eq
  have hsub : ∀ o ∈ us ++ vs, o ∈ us ++ q.base :: vs := fun o ho =>
    (List.mem_append.1 ho).elim (List.mem_append_left _)
      fun ho => List.mem_append_right _ (List.mem_cons_of_mem _ ho)
  obtain ⟨hfirst_lt, hfirst_dvd, hfirst_apart⟩ := hl.first_bounds (r := r) (by simp) hfree hsub
  rw [← hfirst] at hfirst_lt hfirst_dvd hfirst_apart
  have hreads := insertBoth_reads (v := hi) hvalid.pos (show r.base + 24 ≤ hi by omega) hhi hhi_lt
    (by rw [hnext]; exact hbehind.imp id fun hb => ⟨by omega, hb.2⟩)
    hfirst_lt hfirst_dvd hfirst_apart
  have hwrap : sub32 q.stop hi ≥ heapRangeSize := by
    unfold sub32 heapRangeSize
    omega
  simp only [growRange, hh₁, hend₁, hwrap, if_true, ← hh₂]
  unfold Heap.Short heapRangeSize
  rw [hreads.1]
  have := hreads.2
  omega

end

end

/-! ## The contract -/

/-- The world after the block `b` was resized; nothing is handed out for a size of 0. -/
def World.resized (w : World) (b : Block) (size : Nat) (heap : Heap) (ptr : Nat) : World :=
  { w with
    heap
    live := (if size = 0 then [] else [{ b with ptr, size }]) ++ w.live.filter (·.ptr ≠ b.ptr) }

theorem World.resized_areas (w : World) (b : Block) (size : Nat) (heap : Heap) (ptr : Nat) :
    (w.resized b size heap ptr).areas = w.areas := rfl

theorem World.resized_live (w : World) (b : Block) {size : Nat} (heap : Heap) (ptr : Nat)
    (hsize : 0 < size) : (w.resized b size heap ptr).live =
      { b with ptr := ptr, size := size } :: w.live.filter (·.ptr ≠ b.ptr) := by
  simp only [World.resized]
  rw [if_neg (by omega)]
  rfl

/-- `BlResizeHeap` for the block `b`, with the alignment that it was allocated with. -/
def World.resize (w : World) (b : Block) (size : Nat) : Except Stop (World × Nat) := do
  let (heap, ptr) ← blResizeHeap w.heap b.ptr size b.alignment
  return (w.resized b size heap ptr, ptr)

/-- The areas neither overlap nor touch. -/
def Area.Gap (a c : Area) : Prop :=
  a.size = 0 ∨ c.size = 0 ∨ a.base + a.size < c.base ∨ c.base + c.size < a.base

def AreasApart (areas : List Area) : Prop := areas.Pairwise Area.Gap

/-- The block `b` has become one of `size` bytes at `ptr`. -/
structure World.Resized (w : World) (b : Block) (size : Nat) (w' : World) (ptr : Nat) : Prop where
  inv : ∃ rs os, w'.Inv rs os
  areas_eq : w'.areas = w.areas
  aligned : 0 < size → ptr ≠ 0 ∧ b.alignment ∣ ptr
  inside : 0 < size → ∀ x, ptr ≤ x → x < ptr + size → InAreas w.areas x
  oneArea : 0 < size → AreasApart w.areas → ∃ a ∈ w.areas, ∀ x, ptr ≤ x → x < ptr + size → a.Contains x
  content : ∀ i < min b.size size, w'.heap.mem (ptr + i) = w.heap.mem (b.ptr + i)
  live_eq : w'.live = (if size = 0 then [] else [{ b with ptr, size }]) ++ w.live.filter (· ≠ b)
  others : ∀ c ∈ w.live, c ≠ b → ∀ x, c.Contains x → w'.heap.mem x = w.heap.mem x

/-- No sum wraps, and the path that is taken goes right: what a shrinking block gives back is less
than a header, and a free range behind a growing one has as much as it needs. -/
def World.Resizable (w : World) (b : Block) (size : Nat) : Prop :=
  let range := b.ptr - heapRangeSize
  let oldSize := w.heap.rangeEnd range - b.ptr
  let newSize := alignUp size heapAlignment
  let next := w.heap.next range
  size = 0 ∨ size + 3 < 4294967296 ∧
    if newSize ≤ oldSize then oldSize - newSize < heapRangeSize
    else if next ≠ 0 ∧ next = w.heap.rangeEnd range ∧ w.heap.isFree next = true then
      b.ptr + newSize ≤ w.heap.rangeEnd next
    else size + 27 < 4294967296

instance World.decidableResizable (w : World) (b : Block) (size : Nat) :
    Decidable (w.Resizable b size) := by
  unfold World.Resizable
  infer_instance

instance symmGap : Std.Symm Area.Gap := by
  refine ⟨fun a c h => ?_⟩
  unfold Area.Gap at h ⊢
  omega

/-- Bytes in a row that are all in areas with gaps between them are in one area. -/
theorem AreasApart.exists_contains {areas : List Area} (h : AreasApart areas) {ptr size : Nat}
    (hsize : 0 < size) (hin : ∀ x, ptr ≤ x → x < ptr + size → InAreas areas x) :
    ∃ a ∈ areas, ∀ x, ptr ≤ x → x < ptr + size → a.Contains x := by
  obtain ⟨a, ha, hlo, hhi⟩ := hin ptr le_rfl (by omega)
  refine ⟨a, ha, fun x hx hx' => ⟨hlo.trans hx, ?_⟩⟩
  by_contra hout
  -- the first byte behind the area is in the row, and would be in another area
  obtain ⟨c, hc, hclo, hchi⟩ := hin (a.base + a.size) (by omega) (by omega)
  have hne : a ≠ c := by
    rintro rfl
    omega
  have hgap := h.forall ha hc hne
  unfold Area.Gap at hgap
  omega

section
variable {w : World} {rs : List Range} {os : List Nat} {xs ys : List Range} {r : Range} {b : Block}
  {size : Nat}

/-- What the contract asks for besides the invariant and the bytes. -/
theorem World.Inv.resized_of (hinv : w.Inv rs os) (hb : b ∈ w.live) {heap : Heap} {ptr : Nat}
    {rs' os'} (hinv' : (w.resized b size heap ptr).Inv rs' os')
    (hcontent : ∀ i < min b.size size, heap.mem (ptr + i) = w.heap.mem (b.ptr + i))
    (hothers : ∀ c ∈ w.live, c ≠ b → ∀ x, c.Contains x → heap.mem x = w.heap.mem x) :
    w.Resized b size (w.resized b size heap ptr) ptr := by
  have hmem : 0 < size → { b with ptr := ptr, size := size } ∈ (w.resized b size heap ptr).live := by
    intro hsize
    rw [w.resized_live b heap ptr hsize]
    exact List.mem_cons_self
  have hinside : 0 < size → ∀ x, ptr ≤ x → x < ptr + size → InAreas w.areas x :=
    fun hsize x hlo hhi => hinv'.sound.block_inside _ (hmem hsize) x ⟨hlo, hhi⟩
  refine ⟨⟨_, _, hinv'⟩, rfl, fun hsize => ?_, hinside, fun hsize hapart =>
    hapart.exists_contains hsize (hinside hsize), hcontent, ?_, hothers⟩
  · have haligned := hinv'.sound.aligned _ (hmem hsize)
    exact ⟨haligned.1, haligned.2.2⟩
  · show _ ++ w.live.filter (·.ptr ≠ b.ptr) = _ ++ w.live.filter (· ≠ b)
    congr 1
    refine List.filter_congr fun c hc => ?_
    rw [decide_eq_decide]
    exact not_congr ⟨fun hptr => hinv.sound.eq_of_ptr hc hb hptr, fun heq => by rw [heq]⟩

/-- The bytes of the other blocks, when no byte outside the heap's own has changed. -/
theorem World.Inv.others_of (hinv : w.Inv rs os) {m : ByteMemory}
    (hkeeps : ∀ x, (∀ s ∈ rs, ¬s.Heaps x) → m x = w.heap.mem x) :
    ∀ c ∈ w.live, ∀ x, c.Contains x → m x = w.heap.mem x :=
  fun _ hc x hx => hkeeps x fun _ hs => hinv.sound.not_heaps hc hx hs

theorem mem_of_lt_min {b : Block} {size i : Nat} (hi : i < min b.size size) :
    b.Contains (b.ptr + i) := by
  constructor <;> omega

/-- The block is freed. -/
theorem World.Inv.resize_zero (hinv : w.Inv rs os) (hb : b ∈ w.live) (hr : r ∈ rs)
    (hfree : r.free = false) (hptr : r.base + 24 = b.ptr) :
    w.Resized b 0 (w.resized b 0 (blFreeHeap w.heap b.ptr) 0) 0 := by
  obtain ⟨hshape, hsound, htouch⟩ := hinv
  obtain ⟨rs', os', hrel, hshape', hkeeps⟩ := blFreeHeap_refines hshape hsound.layout hr hfree
  have hsound' := hrel.sound hsound hfree
  rw [hptr] at hshape' hkeeps hsound'
  generalize blFreeHeap w.heap b.ptr = heap at hshape' hkeeps ⊢
  have hinv' : (w.resized b 0 heap 0).Inv rs' os' :=
    ⟨hshape', hsound', fun hasc => hrel.noTouch hsound.layout (htouch hasc)⟩
  refine World.Inv.resized_of ⟨hshape, hsound, htouch⟩ hb hinv' (fun i hi => by omega)
    fun c hc _ x hx => hkeeps x fun b hb => ?_
  obtain ⟨s, hs, rfl⟩ := List.mem_map.1 hb
  have := hsound.clear_header hc hs
  unfold Block.Contains at hx
  omega

/-- The block stays in its range. -/
theorem World.Inv.resize_keep (hinv : w.Inv rs os) (hb : b ∈ w.live) (hperm : b.permanent = false)
    (hr : r ∈ rs) (hfree : r.free = false) (hptr : r.base + 24 = b.ptr) (hsize : 0 < size)
    (hfit : b.ptr + size ≤ r.stop) :
    w.Resized b size (w.resized b size w.heap b.ptr) b.ptr ∧
      (Snug w.live rs → r.stop < b.ptr + roundUp size + 24 →
        (w.resized b size w.heap b.ptr).Tight) := by
  have hsound := (hinv.sound.forget b.ptr).adopt (b := { b with size := size }) hr hfree hptr hfit
    hsize (hinv.sound.aligned b hb).2.2 hperm fun c hc => by simpa using (List.mem_filter.1 hc).2
  have hinv' : (w.resized b size w.heap b.ptr).Inv rs os := by
    refine ⟨hinv.shape, ?_, hinv.noTouch⟩
    rw [w.resized_live b _ _ hsize, w.resized_areas]
    exact hsound
  refine ⟨hinv.resized_of hb hinv' (fun _ _ => rfl) fun _ _ _ _ _ => rfl, fun hsnug hstop => ?_⟩
  refine ⟨rs, os, hinv', ?_⟩
  rw [w.resized_live b _ _ hsize]
  exact (hsnug.forget b.ptr).cons hr hfree hptr hstop

/-- The block takes from the free range behind it. -/
theorem World.Inv.resize_grow {q : Range} {hi : Nat} (hinv : w.Inv (xs ++ r :: q :: ys) os)
    (hb : b ∈ w.live) (hperm : b.permanent = false) (hfree : r.free = false)
    (hptr : r.base + 24 = b.ptr) (hq : q.free = true) (hrq : r.stop = q.base) (hhi : 4 ∣ hi)
    (hlt : r.stop < hi) (hle : hi ≤ q.stop) (hsize : 0 < size) (hfit : b.ptr + size ≤ hi) :
    w.Resized b size (w.resized b size (growRange w.heap r.base q.base hi) b.ptr) b.ptr ∧
      (Snug w.live (xs ++ r :: q :: ys) → hi = b.ptr + roundUp size →
        (w.resized b size (growRange w.heap r.base q.base hi) b.ptr).Tight) := by
  obtain ⟨hshape, hsound, htouch⟩ := hinv
  obtain ⟨rs', os', hgrow, hshape', hkeeps⟩ :=
    growRange_refines hshape hsound.layout hfree hq hrq hhi hlt hle
  generalize growRange w.heap r.base q.base hi = heap at hshape' hkeeps ⊢
  have hinv' : (w.resized b size heap b.ptr).Inv rs' os' := by
    refine ⟨hshape', ?_, ?_⟩
    · rw [w.resized_live b _ _ hsize, w.resized_areas]
      exact hgrow.sound hsound hfree hhi hb hperm hptr hsize hfit
    · rw [w.resized_areas]
      exact fun hasc => hgrow.noTouch hsound.layout (htouch hasc)
  have hothers := World.Inv.others_of ⟨hshape, hsound, htouch⟩ hkeeps
  refine ⟨World.Inv.resized_of ⟨hshape, hsound, htouch⟩ hb hinv'
    (fun i hi => hothers b hb _ (mem_of_lt_min hi)) fun c hc _ => hothers c hc, fun hsnug heq => ?_⟩
  refine ⟨rs', os', hinv', ?_⟩
  rw [w.resized_live b _ _ hsize]
  exact hgrow.snug hsnug hfree hptr heq

/-- The block moves: the new one is taken, filled and the old one given back. -/
theorem World.Inv.resize_move (hinv : w.Inv rs os) (hb : b ∈ w.live) (hperm : b.permanent = false)
    (hfit : b.ptr + b.size ≤ r.stop) {k newSize ptr : Nat} {h₁ : Heap} (hk : k < 32)
    (halign : b.alignment = 2 ^ k) (hsize : 0 < size) (hround : size ≤ newSize)
    (hnew : newSize + 27 < 4294967296) (hgt : r.stop - b.ptr < newSize)
    (halloc : blAllocateHeap w.heap newSize b.alignment false = .ok (h₁, ptr)) :
    w.Resized b size (w.resized b size
      (blFreeHeap { h₁ with mem := h₁.mem.copy ptr b.ptr (r.stop - b.ptr) } b.ptr) ptr) ptr ∧
    (Snug w.live rs → roundUp newSize = roundUp size → (w.resized b size
      (blFreeHeap { h₁ with mem := h₁.mem.copy ptr b.ptr (r.stop - b.ptr) } b.ptr) ptr).Tight) := by
  obtain ⟨hshape, hsound, htouch⟩ := hinv
  have hbsize := (hsound.aligned b hb).2.1
  rw [halign] at halloc
  have hcramped : false = true → cramped w.heap newSize (2 ^ k) = false := fun h => by cases h
  rcases blAllocateHeap_refines hshape hsound.layout (by omega) (by omega) hk (fun _ => hnew)
    hcramped with hcrash | ⟨h', lo, stop, rs₁, os₁, hcall, hstop, hstop_lt, hlo_dvd, hstop_dvd,
      hptr_dvd, hcarve, hshape₁, hkeeps₁⟩
  · rw [hcrash] at halloc
    cases halloc
  rw [hcall] at halloc
  obtain ⟨rfl, hptr⟩ := Prod.mk.inj (Except.ok.inj halloc)
  rw [hptr] at hstop hstop_lt hptr_dvd
  simp only [Bool.false_eq_true, if_false] at hptr
  -- the two blocks, the new one with all that was asked for and with what the caller asked for
  have hsound_of : ∀ n, 0 < n → n ≤ newSize →
      Sound w.areas ({ b with ptr := ptr, size := n } :: w.live) rs₁ os₁ := by
    intro n hn hle
    refine (hperm ▸ hcarve : Carved lo stop { b with ptr := ptr, size := n }.permanent _ _ _ _).sound
      hsound hlo_dvd hstop_dvd ?_ (show ptr + n ≤ stop by omega) hn (halign ▸ hptr_dvd)
    show ptr = if b.permanent then lo else lo + 24
    rw [hperm, ← hptr]
    rfl
  have hlarge := hsound_of newSize (by omega) le_rfl
  have hsound₁ := hsound_of size hsize hround
  have hshape₂ : Shape { h' with mem := h'.mem.copy ptr b.ptr (r.stop - b.ptr) } rs₁ os₁ := by
    refine hshape₁.congr fun s hs => sameOn_copy _ _ _ ?_
    have := hlarge.clear_header List.mem_cons_self hs
    dsimp only at this
    omega
  obtain ⟨r₁, hr₁, hfree₁, hbase₁, -⟩ := hsound₁.owned b (List.mem_cons_of_mem _ hb) hperm
  obtain ⟨rs', os', hrel, hshape', hkeeps'⟩ :=
    blFreeHeap_refines hshape₂ hsound₁.layout hr₁ hfree₁
  have hsound' := hrel.sound hsound₁ hfree₁
  rw [hbase₁] at hshape' hkeeps' hsound'
  have hsnug₁ : Snug w.live rs → roundUp newSize = roundUp size →
      Snug ({ b with ptr := ptr, size := size } :: w.live) rs₁ := by
    intro hsnug heq
    refine (hperm ▸ hcarve : Carved lo stop { b with ptr := ptr, size := size }.permanent _ _ _ _).snug
      hsnug ?_ (show stop < ptr + roundUp size + 24 by rw [← heq]; exact hstop_lt)
    show ptr = if b.permanent then lo else lo + 24
    rw [hperm, ← hptr]
    rfl
  have hsnug' := fun hsnug heq => hrel.snug (hsnug₁ hsnug heq)
  have hclear := List.pairwise_cons.1 hlarge.clear
  have hne : ptr ≠ b.ptr := by
    have := hclear.1 b hb
    unfold Block.Clear at this
    dsimp only at this
    omega
  rw [hbase₁] at hsnug'
  rw [List.filter_cons_of_pos (by simpa using hne)] at hsound' hsnug'
  have hbeside : ∀ c ∈ { b with ptr := ptr, size := size } :: w.live, ∀ x, c.Contains x →
      (blFreeHeap { h' with mem := h'.mem.copy ptr b.ptr (r.stop - b.ptr) } b.ptr).mem x =
        h'.mem.copy ptr b.ptr (r.stop - b.ptr) x := by
    intro c hc x hx
    refine hkeeps' x fun a ha => ?_
    obtain ⟨s, hs, rfl⟩ := List.mem_map.1 ha
    have := hsound₁.clear_header hc hs
    unfold Block.Contains at hx
    omega
  generalize blFreeHeap { h' with mem := h'.mem.copy ptr b.ptr (r.stop - b.ptr) } b.ptr = heap
    at hshape' hkeeps' hbeside ⊢
  have hinv' : (w.resized b size heap ptr).Inv rs' os' := by
    refine ⟨hshape', ?_, ?_⟩
    · rw [w.resized_live b _ _ hsize, w.resized_areas]
      exact hsound'
    · rw [w.resized_areas]
      exact fun hasc => hrel.noTouch hsound₁.layout
        (hcarve.noTouch hsound.layout (htouch hasc) (by omega))
  have hothers := World.Inv.others_of ⟨hshape, hsound, htouch⟩ hkeeps₁
  refine ⟨World.Inv.resized_of ⟨hshape, hsound, htouch⟩ hb hinv' (fun i hi => ?_)
    fun c hc _ x hx => ?_, fun hsnug heq => ⟨rs', os', hinv', ?_⟩⟩
  rotate_left 2
  · rw [w.resized_live b _ _ hsize]
    exact hsnug' hsnug heq
  · rw [hbeside _ List.mem_cons_self _ ⟨by dsimp only; omega, by dsimp only; omega⟩,
      copy_byte _ (by omega)]
    exact hothers b hb _ (mem_of_lt_min hi)
  · rw [hbeside c (List.mem_cons_of_mem _ hc) x hx]
    have hcopy : SameOn h'.mem (h'.mem.copy ptr b.ptr (r.stop - b.ptr)) x 1 := by
      refine sameOn_copy _ _ _ ?_
      have := hclear.1 c hc
      unfold Block.Clear at this
      unfold Block.Contains at hx
      dsimp only at this
      omega
    rw [hcopy.byte Nat.one_pos]
    exact hothers c hc x hx

/-! ## The paths -/

theorem Shape.blAllocateHeap_returns {h : Heap} (hs : Shape h rs os) (size alignment : Nat)
    (permanent : Bool) : blAllocateHeap h size alignment permanent = .error (.crash "out of memory") ∨
      ∃ res, blAllocateHeap h size alignment permanent = .ok res := by
  simp only [blAllocateHeap]
  split
  · exact .inr ⟨_, rfl⟩
  · rw [hs.firstFit_eq]
    cases os.find? (fits h _ _ _) with
    | none => exact .inl rfl
    | some range => exact .inr ⟨_, rfl⟩

/-- Which path the resizing of a block takes. -/
theorem Shape.blResizeHeap_eq {h : Heap} (hs : Shape h (xs ++ r :: ys) os)
    (hl : Layout (xs ++ r :: ys) os) (hsize : size ≠ 0) (alignment : Nat) :
    blResizeHeap h (r.base + 24) size alignment =
      if alignUp size heapAlignment ≤ r.stop - (r.base + 24) then
        .ok (shrinkRange h r.base (r.base + 24) (r.stop - (r.base + 24))
          (r.stop - (r.base + 24) - alignUp size heapAlignment), r.base + 24)
      else if h.next r.base ≠ 0 ∧ h.next r.base = r.stop ∧ h.isFree (h.next r.base) = true then
        .ok (growRange h r.base (h.next r.base) (add32 (r.base + 24) (alignUp size heapAlignment)),
          r.base + 24)
      else (blAllocateHeap h (alignUp size heapAlignment) alignment false).map fun new =>
        (blFreeHeap { new.1 with
          mem := new.1.mem.copy new.2 (r.base + 24) (r.stop - (r.base + 24)) } (r.base + 24), new.2) := by
  have hvalid := hl.valid r (by simp)
  have hroom := hvalid.room
  have hlt := hvalid.stop_lt
  have hold : sub32 r.stop (r.base + 24) = r.stop - (r.base + 24) := by
    unfold sub32
    omega
  unfold blResizeHeap
  rw [if_neg (by omega), if_neg hsize]
  simp only [heapRangeSize, Nat.add_sub_cancel, hs.stop_eq r (by simp), hold, ge_iff_le]
  split
  · rfl
  · split
    · rfl
    · cases blAllocateHeap h (alignUp size heapAlignment) alignment false <;> rfl

/-- A resized block has a range that is long enough. -/
theorem World.Resized.exists_range {w' : World} {ptr : Nat} (h : w.Resized b size w' ptr)
    (hsize : 0 < size) (hperm : b.permanent = false) :
    ∃ rs' os' r', w'.Inv rs' os' ∧ r' ∈ rs' ∧ r'.base + 24 = ptr ∧ ptr + size ≤ r'.stop := by
  obtain ⟨rs', os', hinv'⟩ := h.inv
  have hmem : { b with ptr := ptr, size := size } ∈ w'.live := by
    rw [h.live_eq, if_neg (by omega)]
    exact List.mem_cons_self
  obtain ⟨r', hr', -, hbase, hstop⟩ := hinv'.sound.owned _ hmem hperm
  exact ⟨rs', os', r', hinv', hr', hbase, hstop⟩

/-- The condition, by the range of the block. -/
theorem Shape.resizable_iff (hs : Shape w.heap (xs ++ r :: ys) os) (hptr : r.base + 24 = b.ptr) :
    w.Resizable b size ↔ size = 0 ∨ size + 3 < 4294967296 ∧
      if alignUp size heapAlignment ≤ r.stop - b.ptr then
        r.stop - b.ptr - alignUp size heapAlignment < heapRangeSize
      else if w.heap.next r.base ≠ 0 ∧ w.heap.next r.base = r.stop ∧
          w.heap.isFree (w.heap.next r.base) = true then
        b.ptr + alignUp size heapAlignment ≤ w.heap.rangeEnd (w.heap.next r.base)
      else size + 27 < 4294967296 := by
  have hbase : b.ptr - heapRangeSize = r.base := by
    unfold heapRangeSize
    omega
  simp only [World.Resizable, hbase, hs.stop_eq r (by simp)]

/-- The free range that lies right behind a block. -/
theorem Shape.exists_next {h : Heap} (hs : Shape h (xs ++ r :: ys) os)
    (hnext : h.next r.base ≠ 0 ∧ h.next r.base = r.stop ∧ h.isFree (h.next r.base) = true) :
    ∃ q ys₀, ys = q :: ys₀ ∧ h.next r.base = q.base ∧ q.free = true ∧ r.stop = q.base ∧
      h.rangeEnd (h.next r.base) = q.stop := by
  obtain ⟨hne, hstop, hfree⟩ := hnext
  rw [hs.next_eq] at hne hstop hfree ⊢
  cases ys with
  | nil => exact absurd rfl hne
  | cons q ys =>
    simp only [List.map_cons, List.headD_cons] at hstop hfree ⊢
    rw [hs.free_eq q (by simp)] at hfree
    exact ⟨q, ys, rfl, rfl, hfree, hstop.symm, hs.stop_eq q (by simp)⟩

/-- The path of a block that has room in its range. -/
theorem World.Inv.shrink_iff (hinv : w.Inv (xs ++ r :: ys) os) (hb : b ∈ w.live)
    (hperm : b.permanent = false) (hfree : r.free = false) (hptr : r.base + 24 = b.ptr)
    (hsize : 0 < size) (hsize_lt : size < 4294967296)
    (hle : alignUp size heapAlignment ≤ r.stop - b.ptr) :
    w.Resized b size (w.resized b size (shrinkRange w.heap r.base b.ptr (r.stop - b.ptr)
        (r.stop - b.ptr - alignUp size heapAlignment)) b.ptr) b.ptr ↔
      size + 3 < 4294967296 ∧ r.stop - b.ptr - alignUp size heapAlignment < heapRangeSize := by
  have hs := hinv.shape
  have hl := hinv.sound.layout
  have hvalid := hl.valid r (by simp)
  have hroom := hvalid.room
  have hbase := hvalid.pos
  have hbase_dvd := hvalid.base_dvd
  constructor
  · intro hres
    obtain ⟨rs', os', r', hinv', hr', hbase', hfit'⟩ := hres.exists_range hsize hperm
    have hlt' := (hinv'.sound.layout.valid r' hr').stop_lt
    refine ⟨by omega, ?_⟩
    by_contra hextra
    have hshort := shrinkRange_short hs hl hfree (not_lt.1 hextra)
    rw [hptr] at hshort
    have hsame : r'.base = r.base := by omega
    exact hinv'.shape.not_short hinv'.sound.layout hr' (by rw [hsame]; exact hshort)
  · rintro ⟨hsum, hextra⟩
    have hsame : shrinkRange w.heap r.base b.ptr (r.stop - b.ptr)
        (r.stop - b.ptr - alignUp size heapAlignment) = w.heap := by
      unfold shrinkRange
      exact if_neg (not_le.2 hextra)
    rw [hsame]
    rw [alignUp_four hsum] at hle
    exact (hinv.resize_keep hb hperm (by simp) hfree hptr hsize (by omega)).1

/-- The path of a block with a free range behind it. -/
theorem World.Inv.grow_iff {q : Range} (hinv : w.Inv (xs ++ r :: q :: ys) os) (hb : b ∈ w.live)
    (hperm : b.permanent = false) (hfree : r.free = false) (hptr : r.base + 24 = b.ptr)
    (hq : q.free = true) (hrq : r.stop = q.base) (hsize : 0 < size) (hsum : size + 3 < 4294967296)
    (hgt : r.stop - b.ptr < alignUp size heapAlignment) :
    w.Resized b size (w.resized b size (growRange w.heap r.base q.base
        (add32 b.ptr (alignUp size heapAlignment))) b.ptr) b.ptr ↔
      b.ptr + alignUp size heapAlignment ≤ q.stop := by
  have hs := hinv.shape
  have hl := hinv.sound.layout
  have hvalid := hl.valid r (by simp)
  have hroom := hvalid.room
  have hbase_dvd := hvalid.base_dvd
  have hq_lt := (hl.valid q (by simp)).stop_lt
  rw [alignUp_four hsum] at hgt ⊢
  generalize hnew : size + 3 - (size + 3) % 4 = newSize at hgt ⊢
  constructor
  · intro hres
    obtain ⟨rs', os', r', hinv', hr', hbase', hfit'⟩ := hres.exists_range hsize hperm
    have hvalid' := hinv'.sound.layout.valid r' hr'
    have hlt' := hvalid'.stop_lt
    have hdvd' := hvalid'.stop_dvd
    by_contra hover
    have hadd : add32 b.ptr newSize = b.ptr + newSize := Nat.mod_eq_of_lt (by omega)
    have hdvd : 4 ∣ b.ptr + newSize := by omega
    have hshort := growRange_short hs hl hfree hq hdvd (by omega) (by omega)
    rw [← hadd] at hshort
    have hsame : r'.base = r.base := by omega
    exact hinv'.shape.not_short hinv'.sound.layout hr' (by rw [hsame]; exact hshort)
  · intro hle
    have hadd : add32 b.ptr newSize = b.ptr + newSize := Nat.mod_eq_of_lt (by omega)
    rw [hadd]
    exact (hinv.resize_grow hb hperm hfree hptr hq hrq (by omega) (by omega) hle hsize (by omega)).1

/-- The path of a block that moves. -/
theorem World.Inv.move_iff (hinv : w.Inv rs os) (hb : b ∈ w.live) (hperm : b.permanent = false)
    (hfit : b.ptr + b.size ≤ r.stop) {k : Nat} (hk : k < 32) (halign : b.alignment = 2 ^ k)
    (hsize : 0 < size) (hsum : size + 3 < 4294967296)
    (hgt : r.stop - b.ptr < alignUp size heapAlignment) {h₁ : Heap} {ptr : Nat}
    (halloc : blAllocateHeap w.heap (alignUp size heapAlignment) b.alignment false = .ok (h₁, ptr)) :
    w.Resized b size (w.resized b size
      (blFreeHeap { h₁ with mem := h₁.mem.copy ptr b.ptr (r.stop - b.ptr) } b.ptr) ptr) ptr ↔
      size + 27 < 4294967296 := by
  rw [alignUp_four hsum] at hgt halloc
  constructor
  · intro hres
    obtain ⟨rs', os', r', hinv', hr', hbase', hfit'⟩ := hres.exists_range hsize hperm
    have hvalid' := hinv'.sound.layout.valid r' hr'
    have hpos' := hvalid'.pos
    have hdvd' := hvalid'.base_dvd
    have hlt' := hvalid'.stop_lt
    omega
  · intro hlt
    exact (hinv.resize_move hb hperm hfit hk halign hsize (by omega) (by omega) hgt halloc).1

/-- Resizing returns or finds no memory, and what it returns is right exactly under the
condition. -/
theorem resizeHeap_contract_iff (hinv : w.Inv rs os) (hb : b ∈ w.live) (hperm : b.permanent = false)
    (halign : ∃ k < 32, b.alignment = 2 ^ k) (hsize_lt : size < 4294967296) :
    (w.resize b size = .error (.crash "out of memory") ∨ ∃ res, w.resize b size = .ok res) ∧
      ∀ w' ptr, w.resize b size = .ok (w', ptr) →
        (w.Resized b size w' ptr ↔ w.Resizable b size) := by
  obtain ⟨r, hr, hfree, hptr, hfit⟩ := hinv.sound.owned b hb hperm
  obtain ⟨xs, ys, rfl⟩ := List.append_of_mem hr
  obtain ⟨k, hk, halign⟩ := halign
  have hs := hinv.shape
  have hl := hinv.sound.layout
  have hvalid := hl.valid r hr
  have hbase := hvalid.pos
  have hbase_dvd := hvalid.base_dvd
  have hlt := hvalid.stop_lt
  have hbsize := (hinv.sound.aligned b hb).2.1
  have hresize : ∀ res, blResizeHeap w.heap b.ptr size b.alignment = .ok res →
      w.resize b size = .ok (w.resized b size res.1 res.2, res.2) := by
    intro res hres
    unfold World.resize
    rw [hres]
    rfl
  rw [hs.resizable_iff hptr]
  by_cases hzero : size = 0
  · subst hzero
    have hcall := hresize (blFreeHeap w.heap b.ptr, 0) (by
      unfold blResizeHeap
      rw [if_neg (by omega)]
      rfl)
    refine ⟨.inr ⟨_, hcall⟩, fun w' ptr hok => ?_⟩
    rw [hcall] at hok
    obtain ⟨rfl, rfl⟩ := Prod.mk.inj (Except.ok.inj hok)
    exact iff_of_true (hinv.resize_zero hb hr hfree hptr) (.inl rfl)
  · have hpaths := hs.blResizeHeap_eq hl hzero b.alignment
    have hpos : 0 < size := Nat.pos_of_ne_zero hzero
    rw [hptr] at hpaths
    -- a size that wraps when it is rounded is taken for 0
    have hwraps : r.stop - b.ptr < alignUp size heapAlignment → size + 3 < 4294967296 := by
      intro hgt
      by_contra hwrap
      have hup := alignUp_eq (k := 2) (by decide) hsize_lt
      rw [if_neg (show ¬size + (2 ^ 2 - 1) < 4294967296 from hwrap)] at hup
      rw [show alignUp size heapAlignment = 0 from hup] at hgt
      omega
    rw [or_iff_right hzero]
    by_cases hle : alignUp size heapAlignment ≤ r.stop - b.ptr
    · rw [if_pos hle] at hpaths ⊢
      refine ⟨.inr ⟨_, hresize _ hpaths⟩, fun w' ptr hok => ?_⟩
      rw [hresize _ hpaths] at hok
      obtain ⟨rfl, rfl⟩ := Prod.mk.inj (Except.ok.inj hok)
      exact hinv.shrink_iff hb hperm hfree hptr hpos hsize_lt hle
    · rw [if_neg hle] at hpaths ⊢
      have hsum := hwraps (not_le.1 hle)
      rw [and_iff_right hsum]
      by_cases hnext : w.heap.next r.base ≠ 0 ∧ w.heap.next r.base = r.stop ∧
          w.heap.isFree (w.heap.next r.base) = true
      · rw [if_pos hnext] at hpaths ⊢
        obtain ⟨q, ys, rfl, hqbase, hqfree, hrq, hqstop⟩ := hs.exists_next hnext
        rw [hqbase] at hpaths
        rw [hqstop]
        refine ⟨.inr ⟨_, hresize _ hpaths⟩, fun w' ptr hok => ?_⟩
        rw [hresize _ hpaths] at hok
        obtain ⟨rfl, rfl⟩ := Prod.mk.inj (Except.ok.inj hok)
        exact hinv.grow_iff hb hperm hfree hptr hqfree hrq hpos hsum (not_le.1 hle)
      · rw [if_neg hnext] at hpaths ⊢
        rcases hs.blAllocateHeap_returns (alignUp size heapAlignment) b.alignment false with
          hcrash | ⟨⟨h₁, newPtr⟩, halloc⟩
        · have hcall : w.resize b size = .error (.crash "out of memory") := by
            unfold World.resize
            rw [hpaths, hcrash]
            rfl
          refine ⟨.inl hcall, fun w' ptr hok => ?_⟩
          rw [hcall] at hok
          cases hok
        · rw [halloc] at hpaths
          refine ⟨.inr ⟨_, hresize _ hpaths⟩, fun w' ptr hok => ?_⟩
          rw [hresize _ hpaths] at hok
          obtain ⟨rfl, rfl⟩ := Prod.mk.inj (Except.ok.inj hok)
          exact hinv.move_iff hb hperm hfit hk halign hpos hsum (not_le.1 hle) halloc

end

/-- A block that grows into the one freed behind it. -/
theorem resizeHeap_contract_iff_grow :
    ∃ w w' ptr, Run.run World.regularStep (World.start fun _ => 0) [.add 0x1000 0x1000,
        .alloc 0x40 4 false, .alloc 0x40 4 false, .free 0x1070] = some w ∧
      w.resize { ptr := 0x1018, size := 0x40, alignment := 4, permanent := false } 0x60 =
        .ok (w', ptr) ∧
      w.Resized { ptr := 0x1018, size := 0x40, alignment := 4, permanent := false } 0x60 w' ptr := by
  obtain ⟨w, hrun⟩ : ∃ w, Run.run World.regularStep (World.start fun _ => 0) [.add 0x1000 0x1000,
      .alloc 0x40 4 false, .alloc 0x40 4 false, .free 0x1070] = some w :=
    Option.isSome_iff_exists.1 (by decide +kernel)
  have hafter : (Run.run World.regularStep (World.start fun _ => 0) [.add 0x1000 0x1000,
      .alloc 0x40 4 false, .alloc 0x40 4 false, .free 0x1070]).map (fun w => (w.live,
        decide (w.Resizable { ptr := 0x1018, size := 0x40, alignment := 4, permanent := false } 0x60),
        (w.resize { ptr := 0x1018, size := 0x40, alignment := 4, permanent := false } 0x60).isOk)) =
      some ([{ ptr := 0x1018, size := 0x40, alignment := 4, permanent := false }], true, true) := by
    decide +kernel
  rw [hrun] at hafter
  obtain ⟨hlive, hboth⟩ := Prod.mk.inj (Option.some.inj hafter)
  obtain ⟨hresizable, hok⟩ := Prod.mk.inj hboth
  obtain ⟨rs, os, hinv⟩ := World.regularRun_inv hrun
  obtain ⟨hreturns, hiff⟩ := @resizeHeap_contract_iff w rs os
    { ptr := 0x1018, size := 0x40, alignment := 4, permanent := false } 0x60 hinv
    (by rw [hlive]; exact List.mem_cons_self) rfl ⟨2, by decide, rfl⟩ (by decide)
  rcases hreturns with hcrash | ⟨⟨w', ptr⟩, hcall⟩
  · rw [hcrash] at hok
    cases hok
  · exact ⟨w, w', ptr, hrun, hcall, (hiff w' ptr hcall).2 (of_decide_eq_true hresizable)⟩

/-- A block that gives back 96 bytes. -/
theorem resizeHeap_shrink_fails :
    ¬∀ (w : World) (rs : List Range) (os : List Nat) (b : Block) (size : Nat) (w' : World) (ptr : Nat),
      w.Inv rs os → b ∈ w.live → b.permanent = false → (∃ k < 32, b.alignment = 2 ^ k) →
        size < 4294967296 → w.resize b size = .ok (w', ptr) → w.Resized b size w' ptr := by
  intro hall
  obtain ⟨w, hrun⟩ : ∃ w, Run.run World.regularStep (World.start fun _ => 0)
      [.add 0x1000 0x1000, .alloc 0x80 4 false] = some w :=
    Option.isSome_iff_exists.1 (by decide +kernel)
  have hafter : (Run.run World.regularStep (World.start fun _ => 0)
      [.add 0x1000 0x1000, .alloc 0x80 4 false]).map (fun w => (w.live,
        (w.resize { ptr := 0x1018, size := 0x80, alignment := 4, permanent := false } 0x20).map
          fun res => (decide (res.1.heap.Short 0x1000), res.2))) =
      some ([{ ptr := 0x1018, size := 0x80, alignment := 4, permanent := false }],
        .ok (true, 0x1018)) := by
    decide +kernel
  rw [hrun] at hafter
  obtain ⟨hlive, hcall⟩ := Prod.mk.inj (Option.some.inj hafter)
  cases hresize : w.resize { ptr := 0x1018, size := 0x80, alignment := 4, permanent := false } 0x20 with
  | error stop =>
    rw [hresize] at hcall
    cases hcall
  | ok res =>
    obtain ⟨w', ptr⟩ := res
    rw [hresize] at hcall
    obtain ⟨hshort, rfl⟩ := Prod.mk.inj (Except.ok.inj hcall)
    obtain ⟨rs, os, hinv⟩ := World.regularRun_inv hrun
    have hres := hall w rs os _ 0x20 w' 0x1018 hinv (by rw [hlive]; exact List.mem_cons_self) rfl
      ⟨2, by decide, rfl⟩ (by decide) hresize
    obtain ⟨rs', os', r', hinv', hr', hbase, -⟩ := hres.exists_range (by decide) rfl
    have hsame : r'.base = 0x1000 := by omega
    refine hinv'.shape.not_short hinv'.sound.layout hr' ?_
    rw [hsame]
    exact of_decide_eq_true hshort

end XrLinux.Bootloader
