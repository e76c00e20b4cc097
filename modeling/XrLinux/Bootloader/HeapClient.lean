import Mathlib.Data.Multiset.Basic
import Mathlib.Algebra.BigOperators.Group.Multiset.Basic
import XrLinux.Lib.Intervals
import XrLinux.Bootloader.HeapResize

/-!
# Bootloader — the heap for its callers

What code that allocates needs to know of the heap. `World.Serves` is its side of the matter: the
heap is in order and `blocks` are out to this caller, who gave it none of the memory of its static
variables. A call returns or finds no memory, and it is known afterwards which blocks are out; all
of them with their headers are shorter than the address space (`World.Serves.footprint_le`), so
that no sum of their sizes wraps.
-/

namespace XrLinux.Bootloader

/-- `BlAllocateHeap`. Nothing is handed out for a size of 0. -/
def World.allocate (w : World) (size alignment : Nat) (permanent : Bool) :
    Except Stop (World × Nat) := do
  let (heap, ptr) ← blAllocateHeap w.heap size alignment permanent
  if size = 0 then return ({ w with heap }, ptr)
  return ({ w with heap, live := { ptr, size, alignment, permanent } :: w.live }, ptr)

/-- `BlFreeHeap`. -/
def World.release (w : World) (ptr : Nat) : World :=
  { w with heap := blFreeHeap w.heap ptr, live := w.live.filter (·.ptr ≠ ptr) }

/-- `BlResizeHeap`, with the alignment that the block was allocated with. -/
def World.reallocate (w : World) (ptr size alignment : Nat) : Except Stop (World × Nat) :=
  if ptr = 0 then w.allocate size alignment false
  else w.resize { ptr, size, alignment, permanent := false } size

/-- A block that can be freed. -/
def Block.plain (ptr size alignment : Nat) : Block := { ptr, size, alignment, permanent := false }

/-- What a block takes up, header included. -/
def Block.footprint (b : Block) : Nat := 24 + roundUp b.size

structure World.Serves (w : World) (statics : Finset Nat) (blocks : Multiset Block) : Prop where
  tight : w.Tight
  statics_apart : ∀ x ∈ statics, x < 4294967296 ∧ ¬InAreas w.areas x
  nodup : blocks.Nodup
  live : ∀ b ∈ blocks, b ∈ w.live
  plain : ∀ b ∈ blocks, b.permanent = false ∧ ∃ k < 32, b.alignment = 2 ^ k

section
variable {w w' : World} {statics : Finset Nat} {blocks : Multiset Block} {b c : Block}

theorem le_roundUp (size : Nat) : size ≤ roundUp size := by
  unfold roundUp
  omega

theorem roundUp_mono {m n : Nat} (h : m ≤ n) : roundUp m ≤ roundUp n := by
  unfold roundUp
  omega

/-! ## Blocks -/

/-- The range that a block is in. -/
theorem World.Inv.exists_range {rs : List Range} {os : List Nat} (hinv : w.Inv rs os)
    (hsnug : Snug w.live rs) (hb : b ∈ w.live) (hperm : b.permanent = false) :
    ∃ r ∈ rs, r.free = false ∧ r.base + 24 = b.ptr ∧ b.ptr + roundUp b.size ≤ r.stop ∧
      r.stop < b.ptr + roundUp b.size + 24 := by
  obtain ⟨r, hr, hfree, hbase, hstop⟩ := hsnug b hb hperm
  obtain ⟨s, hs, -, hsbase, hsstop⟩ := hinv.sound.owned b hb hperm
  have hsame : r = s := hinv.sound.layout.base_injective hr hs (by omega)
  subst hsame
  have hvalid := hinv.sound.layout.valid r hr
  have hbase_dvd := hvalid.base_dvd
  have hstop_dvd := hvalid.stop_dvd
  refine ⟨r, hr, hfree, hbase, ?_, hstop⟩
  -- the range ends at a whole word
  unfold roundUp
  omega

theorem World.Serves.eq_of_ptr (h : w.Serves statics blocks) (hb : b ∈ blocks) (hc : c ∈ blocks)
    (hptr : b.ptr = c.ptr) : b = c := by
  obtain ⟨rs, os, hinv, -⟩ := h.tight
  exact hinv.sound.eq_of_ptr (h.live b hb) (h.live c hc) hptr

theorem World.Serves.bounds (h : w.Serves statics blocks) (hb : b ∈ blocks) :
    24 < b.ptr ∧ 0 < b.size ∧ b.alignment ∣ b.ptr ∧ b.ptr + roundUp b.size < 4294967296 := by
  obtain ⟨rs, os, hinv, hsnug⟩ := h.tight
  obtain ⟨r, hr, -, hbase, hfit, -⟩ := hinv.exists_range hsnug (h.live b hb) (h.plain b hb).1
  have hvalid := hinv.sound.layout.valid r hr
  have hpos := hvalid.pos
  have hlt := hvalid.stop_lt
  have haligned := hinv.sound.aligned b (h.live b hb)
  exact ⟨by omega, haligned.2.1, haligned.2.2, by omega⟩

theorem World.Serves.not_static (h : w.Serves statics blocks) (hb : b ∈ blocks) {x : Nat}
    (hx : b.Contains x) : x ∉ statics := by
  intro hstatic
  obtain ⟨rs, os, hinv, -⟩ := h.tight
  exact (h.statics_apart x hstatic).2 (hinv.sound.block_inside b (h.live b hb) x hx)

theorem World.Serves.mono {blocks' : Multiset Block} (h : w.Serves statics blocks)
    (hle : blocks' ≤ blocks) : w.Serves statics blocks' where
  tight := h.tight
  statics_apart := h.statics_apart
  nodup := Multiset.nodup_of_le hle h.nodup
  live := fun b hb => h.live b (Multiset.mem_of_le hle hb)
  plain := fun b hb => h.plain b (Multiset.mem_of_le hle hb)

/-- The blocks have no byte in common with each other, and none with what is outside them. -/
theorem World.Serves.footprint_add_le (h : w.Serves statics blocks) {others : Finset Nat}
    (hothers : ∀ x ∈ others, x < 4294967296 ∧
      ∀ b ∈ blocks, ¬(b.ptr - 24 ≤ x ∧ x < b.ptr + roundUp b.size)) :
    (blocks.map Block.footprint).sum + others.card ≤ 4294967296 := by
  obtain ⟨rs, os, hinv, hsnug⟩ := h.tight
  obtain ⟨l, rfl⟩ := Quot.exists_rep blocks
  have hrange : ∀ b ∈ l, ∃ r ∈ rs, r.base + 24 = b.ptr ∧ b.ptr + roundUp b.size ≤ r.stop := by
    intro b hb
    obtain ⟨r, hr, -, hbase, hfit, -⟩ := hinv.exists_range hsnug (h.live b hb) (h.plain b hb).1
    exact ⟨r, hr, hbase, hfit⟩
  have hle := @Intervals.length_le_of_disjoint 4294967296
    (l.map fun b => (b.ptr - 24, b.ptr + roundUp b.size)) others ?_ ?_ ?_
  · have hsum : ((l.map fun b => (b.ptr - 24, b.ptr + roundUp b.size)).map fun i => i.2 - i.1) =
        l.map Block.footprint := by
      rw [List.map_map]
      refine List.map_congr_left fun b hb => ?_
      obtain ⟨r, -, hbase, -⟩ := hrange b hb
      simp only [Function.comp_apply, Block.footprint]
      omega
    rw [hsum] at hle
    exact hle
  · -- different blocks are in different ranges
    refine List.pairwise_map.2 (List.Pairwise.imp_of_mem (fun {b c} hb hc hne => ?_) h.nodup)
    obtain ⟨r, hr, hrbase, hrfit⟩ := hrange b hb
    obtain ⟨s, hs, hsbase, hsfit⟩ := hrange c hc
    have hrs : r ≠ s := by
      rintro rfl
      exact hne (h.eq_of_ptr hb hc (by omega))
    have := hinv.sound.layout.disjoint hr hs hrs
    dsimp only
    omega
  · intro i hi
    obtain ⟨b, hb, rfl⟩ := List.mem_map.1 hi
    obtain ⟨r, hr, -, hfit⟩ := hrange b hb
    have := (hinv.sound.layout.valid r hr).stop_lt
    dsimp only
    omega
  · intro x hx
    refine ⟨(hothers x hx).1, fun ⟨i, hi, hlo, hhi⟩ => ?_⟩
    obtain ⟨b, hb, rfl⟩ := List.mem_map.1 hi
    exact (hothers x hx).2 b hb ⟨hlo, hhi⟩

theorem World.Serves.static_outside (h : w.Serves statics blocks) {x : Nat} (hx : x ∈ statics)
    (hb : b ∈ blocks) : ¬(b.ptr - 24 ≤ x ∧ x < b.ptr + roundUp b.size) := by
  rintro ⟨hlo, hhi⟩
  obtain ⟨rs, os, hinv, hsnug⟩ := h.tight
  obtain ⟨r, hr, -, hbase, hfit, -⟩ := hinv.exists_range hsnug (h.live b hb) (h.plain b hb).1
  exact (h.statics_apart x hx).2 (hinv.sound.inside r hr x ⟨by omega, by omega⟩)

/-- The blocks and the static variables have no byte in common. -/
theorem World.Serves.footprint_le (h : w.Serves statics blocks) :
    (blocks.map Block.footprint).sum + statics.card ≤ 4294967296 :=
  h.footprint_add_le fun x hx => ⟨(h.statics_apart x hx).1, fun _ hb => h.static_outside hx hb⟩

/-- And none with a permanent block either. -/
theorem World.Serves.footprint_permanent_le (h : w.Serves statics blocks) (hb : b ∈ w.live)
    (hperm : b.permanent = true) (hlt : b.ptr + b.size ≤ 4294967296) :
    (blocks.map Block.footprint).sum + (statics.card + b.size) ≤ 4294967296 := by
  obtain ⟨rs, os, hinv, hsnug⟩ := h.tight
  have hinside : ∀ x ∈ Finset.Ico b.ptr (b.ptr + b.size), InAreas w.areas x := by
    intro x hx
    exact hinv.sound.block_inside b hb x (Finset.mem_Ico.mp hx)
  have hdisj : Disjoint statics (Finset.Ico b.ptr (b.ptr + b.size)) := by
    rw [Finset.disjoint_left]
    exact fun x hx hmem => (h.statics_apart x hx).2 (hinside x hmem)
  have hcard : (statics ∪ Finset.Ico b.ptr (b.ptr + b.size)).card = statics.card + b.size := by
    rw [Finset.card_union_of_disjoint hdisj, Nat.card_Ico, Nat.add_sub_cancel_left]
  rw [← hcard]
  refine h.footprint_add_le fun x hx => ?_
  rcases Finset.mem_union.mp hx with hx | hx
  · exact ⟨(h.statics_apart x hx).1, fun _ hc => h.static_outside hx hc⟩
  · obtain ⟨hlo, hhi⟩ := Finset.mem_Ico.mp hx
    refine ⟨by omega, fun c hc => ?_⟩
    -- it lies beside every range
    obtain ⟨r, hr, -, hbase, hfit, -⟩ := hinv.exists_range hsnug (h.live c hc) (h.plain c hc).1
    have hbeside := hinv.sound.beside b hb hperm r hr
    omega

/-- What is carved out ends where its range does, or before. -/
theorem Carved.stop_lt {lo hi : Nat} {permanent : Bool} {rs rs' : List Range} {os os' : List Nat}
    (hcarve : Carved lo hi permanent rs os rs' os') (hl : Layout rs os) : hi < 4294967296 := by
  cases hcarve with
  | @mk xs ys us vs r hr hlo hhi keepHead keepTail hhead htail hall =>
    have hvalid := hl.valid r (List.mem_append_right _ List.mem_cons_self)
    have hlt := hvalid.stop_lt
    omega

/-! ## Calls -/

theorem World.allocate_zero (w : World) (alignment : Nat) (permanent : Bool) :
    w.allocate 0 alignment permanent = .ok (w, 0) := rfl

/-- A block, or no memory. -/
theorem World.Tight.allocate (h : w.Tight) {size k : Nat} (hsize : 0 < size) (hk : k < 32)
    (hlt : size + 27 < 4294967296) :
    w.allocate size (2 ^ k) false = .error (.crash "out of memory") ∨
    ∃ w' ptr, w.allocate size (2 ^ k) false = .ok (w', ptr) ∧ w'.Tight ∧ w'.areas = w.areas ∧
      w'.live = Block.plain ptr size (2 ^ k) :: w.live := by
  obtain ⟨rs, os, ⟨hshape, hsound, htouch⟩, hsnug⟩ := h
  rcases blAllocateHeap_refines hshape hsound.layout hsize (by omega) hk (fun _ => hlt)
    (fun h : false = true => by cases h) with hcrash | ⟨heap, lo, stop, rs', os', hcall, hstop,
      hstop_lt, hlo_dvd, hstop_dvd, hptr_dvd, hcarve, hshape', -⟩
  · refine .inl ?_
    unfold World.allocate
    rw [hcrash]
    rfl
  · simp only [Bool.false_eq_true, if_false] at hcall hstop hstop_lt hptr_dvd
    have hptr : (Block.plain (lo + 24) size (2 ^ k)).ptr =
        if (Block.plain (lo + 24) size (2 ^ k)).permanent then lo else lo + 24 := rfl
    have hsound' := Carved.sound (b := .plain (lo + 24) size (2 ^ k)) hcarve hsound hlo_dvd
      hstop_dvd hptr hstop hsize hptr_dvd
    have hsnug' := Carved.snug (b := .plain (lo + 24) size (2 ^ k)) hcarve hsnug hptr hstop_lt
    have hok : w.allocate size (2 ^ k) false =
        .ok ({ w with heap, live := Block.plain (lo + 24) size (2 ^ k) :: w.live }, lo + 24) := by
      unfold World.allocate
      rw [hcall]
      exact if_neg (by omega)
    exact .inr ⟨_, _, hok, ⟨rs', os', ⟨hshape', hsound', fun hasc =>
      hcarve.noTouch hsound.layout (htouch hasc) (by omega)⟩, hsnug'⟩, rfl, rfl⟩

theorem World.Tight.release (h : w.Tight) (hb : b ∈ w.live) (hperm : b.permanent = false) :
    (w.release b.ptr).Tight := by
  obtain ⟨rs, os, ⟨hshape, hsound, htouch⟩, hsnug⟩ := h
  obtain ⟨r, hr, hfree, hbase, -⟩ := hsound.owned b hb hperm
  obtain ⟨rs', os', hrel, hshape', -⟩ := blFreeHeap_refines hshape hsound.layout hr hfree
  rw [← hbase]
  exact ⟨rs', os', ⟨hshape', hrel.sound hsound hfree,
    fun hasc => hrel.noTouch hsound.layout (htouch hasc)⟩, hrel.snug hsnug⟩

/-- A block that grows by less than a header at a time never takes a path of `BlResizeHeap` that
goes wrong. -/
theorem World.Tight.resize (h : w.Tight) (hb : b ∈ w.live) (hperm : b.permanent = false)
    (halign : ∃ k < 32, b.alignment = 2 ^ k) {size : Nat} (hle : b.size ≤ size)
    (hstep : roundUp size ≤ roundUp b.size + 24) (hlt : roundUp size + 27 < 4294967296) :
    w.resize b size = .error (.crash "out of memory") ∨
    ∃ w' ptr, w.resize b size = .ok (w', ptr) ∧ w'.Tight ∧ w'.areas = w.areas ∧
      w'.live = { b with ptr, size } :: w.live.filter (·.ptr ≠ b.ptr) := by
  obtain ⟨rs, os, hinv, hsnug⟩ := h
  obtain ⟨r, hr, hfree, hptr, hfit, hstop⟩ := hinv.exists_range hsnug hb hperm
  obtain ⟨xs, ys, rfl⟩ := List.append_of_mem hr
  obtain ⟨k, hk, halign⟩ := halign
  have hs := hinv.shape
  have hl := hinv.sound.layout
  have hbsize := (hinv.sound.aligned b hb).2.1
  have hbround := le_roundUp b.size
  have hsize : 0 < size := by omega
  have hround := le_roundUp size
  have hup : alignUp size heapAlignment = roundUp size := alignUp_four (by omega)
  have hmono := roundUp_mono hle
  have hlive : ∀ heap ptr, (w.resized b size heap ptr).live =
      { b with ptr := ptr, size := size } :: w.live.filter (·.ptr ≠ b.ptr) :=
    fun heap ptr => w.resized_live b heap ptr hsize
  have hresize : ∀ res, blResizeHeap w.heap b.ptr size b.alignment = .ok res →
      w.resize b size = .ok (w.resized b size res.1 res.2, res.2) := by
    intro res hres
    unfold World.resize
    rw [hres]
    rfl
  have hpaths := hs.blResizeHeap_eq hl (show size ≠ 0 by omega) b.alignment
  rw [hptr, hup] at hpaths
  by_cases hkeep : roundUp size ≤ r.stop - b.ptr
  · have hspare : ¬r.stop - b.ptr - roundUp size ≥ heapRangeSize := by
      simp only [heapRangeSize]
      omega
    rw [if_pos hkeep, shrinkRange, if_neg hspare] at hpaths
    obtain ⟨-, htight⟩ := hinv.resize_keep hb hperm hr hfree hptr hsize (by omega)
    exact .inr ⟨_, _, hresize _ hpaths, htight hsnug (by omega), w.resized_areas .., hlive _ _⟩
  rw [if_neg hkeep] at hpaths
  by_cases hnext : w.heap.next r.base ≠ 0 ∧ w.heap.next r.base = r.stop ∧
      w.heap.isFree (w.heap.next r.base) = true
  · rw [if_pos hnext] at hpaths
    obtain ⟨q, ys, rfl, hqbase, hqfree, hrq, -⟩ := hs.exists_next hnext
    -- the free range behind is at least a header
    have hqvalid := hl.valid q (by simp)
    have hqroom := hqvalid.room
    have hqstop := hqvalid.stop_lt
    have hbase_dvd := (hl.valid r hr).base_dvd
    have hadd : add32 b.ptr (roundUp size) = b.ptr + roundUp size := Nat.mod_eq_of_lt (by omega)
    have hdvd : 4 ∣ b.ptr + roundUp size := by
      unfold roundUp
      omega
    rw [hqbase, hadd] at hpaths
    obtain ⟨-, htight⟩ := hinv.resize_grow hb hperm hfree hptr hqfree hrq hdvd (by omega) (by omega)
      hsize (by omega)
    exact .inr ⟨_, _, hresize _ hpaths, htight hsnug rfl, w.resized_areas .., hlive _ _⟩
  · rw [if_neg hnext] at hpaths
    rcases hs.blAllocateHeap_returns (roundUp size) b.alignment false with
      hcrash | ⟨⟨h₁, ptr⟩, halloc⟩
    · refine .inl ?_
      unfold World.resize
      rw [hpaths, hcrash]
      rfl
    · rw [halloc] at hpaths
      have htwice : roundUp (roundUp size) = roundUp size := by
        unfold roundUp
        omega
      obtain ⟨-, htight⟩ := hinv.resize_move hb hperm (r := r) (by omega) hk halign hsize hround
        hlt (by omega) halloc
      exact .inr ⟨_, _, hresize _ hpaths, htight hsnug htwice, w.resized_areas .., hlive _ _⟩

/-! ## The caller -/

/-- One block more, with the others still out. -/
theorem World.Serves.cons (h : w.Serves statics blocks) (htight : w'.Tight)
    (hareas : w'.areas = w.areas) {rest : List Block} (hlive : w'.live = b :: rest)
    (hrest : ∀ c ∈ blocks, c ∈ rest) (hperm : b.permanent = false)
    (halign : ∃ k < 32, b.alignment = 2 ^ k) : w'.Serves statics (b ::ₘ blocks) where
  tight := htight
  statics_apart := by
    rw [hareas]
    exact h.statics_apart
  nodup := by
    obtain ⟨rs, os, hinv, -⟩ := htight
    have hclear := hinv.sound.clear
    rw [hlive] at hclear
    refine Multiset.nodup_cons.2 ⟨fun hb => ?_, h.nodup⟩
    -- a block is not beside itself
    have hself := (List.pairwise_cons.1 hclear).1 b (hrest b hb)
    have hsize := (hinv.sound.aligned b (by rw [hlive]; exact List.mem_cons_self)).2.1
    unfold Block.Clear at hself
    omega
  live := by
    rw [hlive]
    refine Multiset.forall_mem_cons.2 ⟨List.mem_cons_self, fun c hc => ?_⟩
    exact List.mem_cons_of_mem _ (hrest c hc)
  plain := Multiset.forall_mem_cons.2 ⟨⟨hperm, halign⟩, h.plain⟩

theorem World.Serves.allocate (h : w.Serves statics blocks) {size k : Nat} (hsize : 0 < size)
    (hk : k < 32) (hlt : size + 27 < 4294967296) :
    w.allocate size (2 ^ k) false = .error (.crash "out of memory") ∨
    ∃ w' ptr, w.allocate size (2 ^ k) false = .ok (w', ptr) ∧
      w'.Serves statics (Block.plain ptr size (2 ^ k) ::ₘ blocks) := by
  rcases h.tight.allocate hsize hk hlt with hcrash | ⟨w', ptr, hcall, htight, hareas, hlive⟩
  · exact .inl hcrash
  · exact .inr ⟨w', ptr, hcall, h.cons htight hareas hlive h.live rfl ⟨k, hk, rfl⟩⟩

/-- A block at least as long as a header ends behind the header of the range it is taken from. -/
theorem not_cramped {heap : Heap} {rs : List Range} {os : List Nat} (hs : Shape heap rs os)
    (hl : Layout rs os) {size k : Nat} (hsize : 24 ≤ size) (hlt : size + 3 < 4294967296) (hk : k < 32)
    (hk2 : 2 ≤ k) : cramped heap size (2 ^ k) = false := by
  have halign : (if 2 ^ k < heapAlignment then heapAlignment else 2 ^ k) = 2 ^ k := by
    have hpow : 2 ^ 2 ≤ 2 ^ k := Nat.pow_le_pow_right (by decide) hk2
    exact if_neg (show ¬2 ^ k < heapAlignment from not_lt.2 hpow)
  have hup : alignUp size heapAlignment = roundUp size := alignUp_four hlt
  have hround := le_roundUp size
  have hword : 4 ∣ roundUp size ∧ roundUp size ≤ size + 3 := by
    unfold roundUp
    omega
  simp only [cramped, halign, hup, hs.firstFit_eq]
  cases hfind : os.find? (fits heap (roundUp size) (2 ^ k) 0) with
  | none => rfl
  | some range =>
    have hfits := List.find?_some hfind
    obtain ⟨r, hr, -, rfl⟩ := (hl.mem_iff range).1 (List.mem_of_find?_eq_some hfind)
    have hvalid := hl.valid r hr
    have hend := hs.stop_eq r hr
    obtain ⟨lo, -, -, hadd, hge, -⟩ := fits_bounds hk hk2
      ⟨hvalid.pos, hvalid.base_dvd, by rw [hend]; exact hvalid.room, by rw [hend]; exact hvalid.stop_lt⟩
      (.inl rfl) ⟨by omega, hword.1⟩ (by omega) hfits
    simp only [hadd, heapRangeSize, decide_eq_false_iff_not]
    omega

/-- A permanent block: the others are still out, and it is not over them. -/
theorem World.Serves.allocatePermanent (h : w.Serves statics blocks) {size k : Nat}
    (hsize : 24 ≤ size) (hk : k < 32) (hk2 : 2 ≤ k) (hlt : size + 3 < 4294967296) :
    w.allocate size (2 ^ k) true = .error (.crash "out of memory") ∨
    ∃ w' ptr, w.allocate size (2 ^ k) true = .ok (w', ptr) ∧ w'.Serves statics blocks ∧
      { ptr, size, alignment := 2 ^ k, permanent := true } ∈ w'.live ∧ 2 ^ k ∣ ptr ∧
      ptr + size < 4294967296 ∧
      (blocks.map Block.footprint).sum + (statics.card + size) ≤ 4294967296 := by
  obtain ⟨rs, os, ⟨hshape, hsound, htouch⟩, hsnug⟩ := h.tight
  have hroom := not_cramped hshape hsound.layout hsize hlt hk hk2
  rcases blAllocateHeap_refines hshape hsound.layout (by omega) hlt hk
    (fun hno : true = false => by cases hno) (fun _ => hroom) with hcrash | ⟨heap, lo, stop, rs', os', hcall, hstop, hstop_lt, hlo_dvd,
      hstop_dvd, hptr_dvd, hcarve, hshape', -⟩
  · refine .inl ?_
    unfold World.allocate
    rw [hcrash]
    rfl
  · simp only [if_true] at hcall hstop hstop_lt hptr_dvd
    obtain ⟨b, hb⟩ : ∃ b : Block, { ptr := lo, size, alignment := 2 ^ k, permanent := true } = b :=
      ⟨_, rfl⟩
    have hbfields : b.permanent = true ∧ b.ptr = lo ∧ b.size = size ∧ b.alignment = 2 ^ k := by
      rw [← hb]
      exact ⟨rfl, rfl, rfl, rfl⟩
    obtain ⟨hperm, hptr, hbsize, hbalign⟩ := hbfields
    rw [← hperm] at hcarve
    have hptr' : b.ptr = if b.permanent then lo else lo + 24 := by rw [hperm, hptr]; rfl
    have hsound' := hcarve.sound hsound hlo_dvd hstop_dvd hptr' (by omega) (by omega)
      (by rw [hbalign, hptr]; exact hptr_dvd)
    have hsnug' := hcarve.snug hsnug hptr' (by rw [hptr, hbsize]; exact hstop_lt)
    have hok : w.allocate size (2 ^ k) true = .ok ({ w with heap, live := b :: w.live }, lo) := by
      unfold World.allocate
      rw [hcall, ← hb]
      exact if_neg (by omega)
    have htight : World.Tight { w with heap, live := b :: w.live } :=
      ⟨rs', os', ⟨hshape', hsound', fun hasc => hcarve.noTouch hsound.layout (htouch hasc) (by omega)⟩,
        hsnug'⟩
    have hserves : World.Serves { w with heap, live := b :: w.live } statics blocks :=
      ⟨htight, h.statics_apart, h.nodup, fun c hc => List.mem_cons_of_mem b (h.live c hc), h.plain⟩
    have hend : lo + size < 4294967296 := by
      have hmem := hcarve.stop_lt hsound.layout
      omega
    have hle := hserves.footprint_permanent_le List.mem_cons_self hperm (by omega)
    rw [hbsize] at hle
    exact .inr ⟨_, lo, hok, hserves, by rw [hb]; exact List.mem_cons_self, hptr_dvd, hend, hle⟩

theorem World.Serves.without (h : w.Serves statics (b ::ₘ blocks)) :
    w.Serves statics blocks ∧ ∀ c ∈ blocks, c.ptr ≠ b.ptr := by
  refine ⟨h.mono (Multiset.le_cons_self blocks b), fun c hc hptr => ?_⟩
  have heq := h.eq_of_ptr (Multiset.mem_cons_of_mem hc) (Multiset.mem_cons_self b blocks) hptr
  exact (Multiset.nodup_cons.1 h.nodup).1 (heq ▸ hc)

theorem World.Serves.release (h : w.Serves statics (b ::ₘ blocks)) :
    (w.release b.ptr).Serves statics blocks := by
  obtain ⟨hrest, hne⟩ := h.without
  have hb : b ∈ b ::ₘ blocks := Multiset.mem_cons_self b blocks
  exact {
    tight := h.tight.release (h.live b hb) (h.plain b hb).1
    statics_apart := h.statics_apart
    nodup := hrest.nodup
    live := fun c hc => List.mem_filter.2 ⟨hrest.live c hc, by simpa using hne c hc⟩
    plain := hrest.plain }

/-- Nothing is freed at `nullptr`. -/
theorem World.Serves.release_zero (h : w.Serves statics blocks) : (w.release 0).Serves statics blocks := by
  obtain ⟨rs, os, hinv, hsnug⟩ := h.tight
  have hsame : w.release 0 = w := by
    have hlive : w.live.filter (·.ptr ≠ 0) = w.live :=
      List.filter_eq_self.2 fun b hb => by simpa using (hinv.sound.aligned b hb).1
    unfold World.release
    rw [hlive]
    rfl
  rw [hsame]
  exact h

theorem World.Serves.reallocate {ptr old size k : Nat}
    (h : w.Serves statics (Block.plain ptr old (2 ^ k) ::ₘ blocks)) (hle : old ≤ size)
    (hstep : roundUp size ≤ roundUp old + 24) (hstatics : 27 < statics.card) :
    w.reallocate ptr size (2 ^ k) = .error (.crash "out of memory") ∨
    ∃ w' ptr', w.reallocate ptr size (2 ^ k) = .ok (w', ptr') ∧
      w'.Serves statics (Block.plain ptr' size (2 ^ k) ::ₘ blocks) := by
  have hb := Multiset.mem_cons_self (Block.plain ptr old (2 ^ k)) blocks
  obtain ⟨hrest, hne⟩ := h.without
  have hbounds := h.bounds hb
  have hptr : ptr ≠ 0 := by
    have : 24 < ptr := hbounds.1
    omega
  -- with the static variables beside it the block is not the whole of the memory
  have hlt : roundUp size + 27 < 4294967296 := by
    have hle := h.footprint_le
    rw [Multiset.map_cons, Multiset.sum_cons] at hle
    have hown : (Block.plain ptr old (2 ^ k)).footprint = 24 + roundUp old := rfl
    omega
  have hcall : w.reallocate ptr size (2 ^ k) = w.resize (Block.plain ptr old (2 ^ k)) size := by
    unfold World.reallocate
    rw [if_neg hptr]
    rfl
  rw [hcall]
  rcases h.tight.resize (h.live _ hb) rfl (h.plain _ hb).2 hle hstep hlt with
    hcrash | ⟨w', ptr', hresize, htight, hareas, hlive⟩
  · exact .inl hcrash
  refine .inr ⟨w', ptr', hresize, hrest.cons htight hareas hlive (fun c hc => ?_) rfl (h.plain _ hb).2⟩
  exact List.mem_filter.2 ⟨hrest.live c hc, by simpa using hne c hc⟩

end

end XrLinux.Bootloader
