import XrLinux.Bootloader.HeapLinks
import XrLinux.Bootloader.HeapLayout

/-!
# Bootloader — the heap refines its layout

`Shape` connects the two: the lists and headers in memory describe a layout. On a heap that has a
shape, each operation of `memory.c` returns and what it does to the memory is one of the moves
`Added`, `Carved`, `Released` of the layout.
-/

namespace XrLinux.Bootloader

open ByteMemory LinkedList

/-- The headers in memory are those of `rs`, the free ones linked in the order `os`. -/
structure Shape (h : Heap) (rs : List Range) (os : List Nat) : Prop where
  rep : Rep h (rs.map (·.base)) (rs.map (·.base)) os
  stop_eq : ∀ r ∈ rs, h.rangeEnd r.base = r.stop
  free_eq : ∀ r ∈ rs, h.isFree r.base = r.free

section
variable {h h' : Heap} {rs : List Range} {os : List Nat}

theorem Layout.apart (hl : Layout rs os) : Apart (rs.map (·.base)) := by
  intro a ha
  obtain ⟨r, hr, rfl⟩ := List.mem_map.1 ha
  have hvalid := hl.valid r hr
  have hroom := hvalid.room
  have hlt := hvalid.stop_lt
  refine ⟨⟨hvalid.pos, by omega⟩, fun b hb => ?_⟩
  obtain ⟨s, hs, rfl⟩ := List.mem_map.1 hb
  by_cases heq : r = s
  · exact .inl (by rw [heq])
  · have hroom' := (hl.valid s hs).room
    have := hl.disjoint hr hs heq
    omega

/-- Lists and headers that are right among any headers make a shape. -/
theorem Shape.of_rep {B : List Nat} (hl : Layout rs os) (hrep : Rep h B (rs.map (·.base)) os)
    (hstop : ∀ r ∈ rs, h.rangeEnd r.base = r.stop) (hfree : ∀ r ∈ rs, h.isFree r.base = r.free) :
    Shape h rs os := by
  refine ⟨hrep.reown hl.apart (fun _ hb => hb) fun o ho => ?_, hstop, hfree⟩
  obtain ⟨r, hr, -, rfl⟩ := (hl.mem_iff o).1 ho
  exact List.mem_map_of_mem hr

/-! ## The loops -/

@[simp] theorem container_zero (p : Nat) : container 0 p = p := by
  unfold container
  split <;> omega

theorem container_headD_map_add (off : Nat) {as : List Nat} (hpos : ∀ a ∈ as, a ≠ 0) :
    container off ((as.map (· + off)).headD 0) = as.headD 0 := by
  cases as with
  | nil => rfl
  | cons a as =>
    have ha := hpos a (by simp)
    simp only [container, List.map_cons, List.headD_cons]
    rw [if_pos (by omega), Nat.add_sub_cancel]

/-- Any loop over `BlHeapRanges`. -/
theorem Shape.foreach_ranges (hs : Shape h rs os) {β : Type*} (body : Nat → β → ForInStep β)
    (found : β) :
    foreach h.next body rounds (container 0 h.heapRanges.head) found =
      .ok (foreachList body (rs.map (·.base)) found) := by
  have hlist := hs.rep.heapRanges
  simp only [Nat.add_zero, List.map_id'] at hlist
  have hhead : h.heapRanges.head = (rs.map (·.base)).headD 0 := Holds.head_eq hlist
  rw [container_zero, hhead]
  refine foreach_eq found (fun v hv => hlist.pos hv) ?_ ?_
  · intro before var after heq
    rw [heq] at hlist
    simp only [Heap.next, container_zero]
    exact hlist.next_eq
  · refine length_lt_rounds (Holds.nodup hlist) fun v hv => ⟨hlist.pos hv, ?_⟩
    have := (hs.rep.apart v hv).1.2
    omega

/-- Any loop over `BlFreeRanges`. -/
theorem Shape.foreach_free (hs : Shape h rs os) {β : Type*} (body : Nat → β → ForInStep β)
    (found : β) :
    foreach h.nextFree body rounds (container freeNodeOffset h.freeRanges.head) found =
      .ok (foreachList body os found) := by
  have hlist := hs.rep.freeRanges
  have hpos : ∀ o ∈ os, o ≠ 0 ∧ o < 4294967296 := by
    intro o ho
    have := (hs.rep.apart o (hs.rep.freeRanges_sub o ho)).1
    exact ⟨this.1, by omega⟩
  have hhead : h.freeRanges.head = (os.map (· + freeNodeOffset)).headD 0 := Holds.head_eq hlist
  rw [hhead, container_headD_map_add _ fun o ho => (hpos o ho).1]
  refine foreach_eq found (fun o ho => (hpos o ho).1) ?_ ?_
  · intro before o after heq
    rw [heq, List.map_append, List.map_cons] at hlist
    show container freeNodeOffset (memNode.next h.mem (o + freeNodeOffset)) = after.headD 0
    rw [hlist.next_eq]
    exact container_headD_map_add _ fun a ha => (hpos a (by simp [heq, ha])).1
  · exact length_lt_rounds (Holds.nodup hlist).of_map hpos

/-- The ranges below an address, and those from it on. -/
theorem Layout.exists_split (hl : Layout rs os) (base : Nat) :
    ∃ xs ys, rs = xs ++ ys ∧ (∀ r ∈ xs, r.base < base) ∧ ∀ r ∈ ys, base ≤ r.base := by
  have hsorted := hl.sorted
  have hroom : ∀ r ∈ rs, r.base < r.stop := fun r hr => by have := (hl.valid r hr).room; omega
  clear hl
  induction rs with
  | nil => exact ⟨[], [], rfl, by simp, by simp⟩
  | cons r rs ih =>
    obtain ⟨hr, hsorted⟩ := List.pairwise_cons.1 hsorted
    by_cases hlt : r.base < base
    · obtain ⟨xs, ys, rfl, hxs, hys⟩ := ih hsorted fun s hs => hroom s (List.mem_cons_of_mem _ hs)
      exact ⟨r :: xs, ys, rfl, List.forall_mem_cons.2 ⟨hlt, hxs⟩, hys⟩
    · refine ⟨[], r :: rs, rfl, by simp, List.forall_mem_cons.2 ⟨by omega, fun s hs => ?_⟩⟩
      have hle : r.stop ≤ s.base := hr s hs
      have := hroom r (by simp)
      omega

theorem foreachList_last {xs ys : List Nat} {base : Nat} (hxs : ∀ x ∈ xs, x < base)
    (hys : ∀ y ∈ ys, base ≤ y) (prev : Nat) :
    foreachList (fun range prev => if range ≥ base then .done prev else .yield range) (xs ++ ys)
      prev = xs.getLastD prev := by
  induction xs generalizing prev with
  | nil =>
    cases ys with
    | nil => rfl
    | cons y ys =>
      have hy : y ≥ base := hys y (by simp)
      simp [foreachList, hy]
  | cons x xs ih =>
    have hx : ¬x ≥ base := by have := hxs x (by simp); omega
    simp only [List.cons_append, foreachList, hx, if_false, List.getLastD_cons]
    exact ih (fun a ha => hxs a (by simp [ha])) x

theorem Shape.findPrev_eq {xs ys : List Range} {base : Nat} (hs : Shape h (xs ++ ys) os)
    (hxs : ∀ r ∈ xs, r.base < base) (hys : ∀ r ∈ ys, base ≤ r.base) :
    findPrev h base = .ok ((xs.map (·.base)).getLastD 0) := by
  unfold findPrev
  rw [hs.foreach_ranges, List.map_append, foreachList_last]
  · simpa using hxs
  · simpa using hys

theorem Shape.firstFit_eq (hs : Shape h rs os) (size alignment headExtra : Nat) :
    firstFit h size alignment headExtra = .ok (os.find? (fits h size alignment headExtra)) := by
  unfold firstFit
  rw [hs.foreach_free, foreachList_find]

theorem Shape.headers (hs : Shape h rs os) {W : List Nat} (hW : ∀ r ∈ rs, r.base ∈ W) :
    Headers h.mem W h (rs.map (·.base)) (rs.map (·.base)) os h.rangeEnd h.isFree :=
  ⟨hs.rep, fun _ _ => rfl, fun _ _ => rfl, .refl _, List.forall_mem_map.2 hW⟩

/-- A field of the ranges, when it is set at a header that is none of theirs. -/
theorem field_update {β : Type*} {f : Nat → β} {g : Range → β} {n : Nat} {v : β}
    (hfield : ∀ r ∈ rs, f r.base = g r) (hne : ∀ r ∈ rs, r.base ≠ n) :
    ∀ r ∈ rs, Function.update f n v r.base = g r := by
  intro r hr
  rw [Function.update_of_ne (hne r hr), hfield r hr]

theorem Shape.of_headers {m₀ : ByteMemory} {W B : List Nat} {stop : Nat → Nat} {free : Nat → Bool}
    (hl : Layout rs os) (hh : Headers m₀ W h B (rs.map (·.base)) os stop free)
    (hstop : ∀ r ∈ rs, stop r.base = r.stop) (hfree : ∀ r ∈ rs, free r.base = r.free) :
    Shape h rs os := by
  have hB : ∀ r ∈ rs, r.base ∈ B := fun r hr => hh.rep.heapRanges_sub _ (List.mem_map_of_mem hr)
  refine .of_rep hl hh.rep (fun r hr => ?_) fun r hr => ?_
  · rw [hh.stop_eq _ (hB r hr), hstop r hr]
  · rw [hh.free_eq _ (hB r hr), hfree r hr]

/-- Headers that hold what they held. -/
theorem Shape.congr (hs : Shape h rs os) {m : ByteMemory}
    (hsame : ∀ r ∈ rs, SameOn h.mem m r.base 24) : Shape { h with mem := m } rs os := by
  obtain ⟨hrep, hstop, hfree⟩ := hs
  refine ⟨hrep.of_sameOn rfl rfl fun b hb => ?_, fun r hr => ?_, fun r hr => ?_⟩
  · obtain ⟨r, hr, rfl⟩ := List.mem_map.1 hb
    exact hsame r hr
  · rw [← hstop r hr]
    show Heap.rangeEnd { h with mem := m } r.base = h.rangeEnd r.base
    exact rangeEnd_of_sameOn (hsame r hr)
  · rw [← hfree r hr]
    show Heap.isFree { h with mem := m } r.base = h.isFree r.base
    exact isFree_of_sameOn (hsame r hr)

/-! ## `BlAddHeapRange` -/

section
variable {xs ys : List Range} {us vs : List Nat} {p q : Range} {base stop lo hi : Nat}

theorem addBoth_shape (hs : Shape h (xs ++ p :: q :: ys) (us ++ q.base :: vs))
    (hl : Layout (xs ++ p :: q :: ys) (us ++ q.base :: vs))
    (hl' : Layout (xs ++ { p with stop := q.stop } :: ys) (us ++ vs)) :
    Shape (((h.setEnd p.base (h.rangeEnd q.base)).removeRange q.base).removeFree q.base)
      (xs ++ { p with stop := q.stop } :: ys) (us ++ vs) ∧
    KeepsBut 0 24 ((xs ++ p :: q :: ys).map (·.base)) h.mem
      (((h.setEnd p.base (h.rangeEnd q.base)).removeRange q.base).removeFree q.base).mem := by
  rw [hs.stop_eq q (by simp)]
  have h0 := hs.headers fun r hr => List.mem_map_of_mem hr
  have h1 := h0.setEnd (n := p.base) (by simp) (hl.valid q (by simp)).stop_lt
  simp only [List.map_append, List.map_cons] at h1
  rw [List.append_cons (xs.map (·.base)) p.base (q.base :: _)] at h1
  have h2 := h1.removeRange.removeFree
  have hstop := hs.stop_eq
  have hfree := hs.free_eq
  obtain ⟨hxs, hys⟩ := hl'.middle
  simp only [List.forall_mem_append, List.forall_mem_cons] at hstop hfree
  refine ⟨.of_headers hl' (by simpa using h2) ?_ ?_, by simpa using h2.keeps⟩
  · simp only [List.forall_mem_append, List.forall_mem_cons, Function.update_self]
    exact ⟨field_update hstop.1 fun r hr => (hxs r hr).1.ne, trivial,
      field_update hstop.2.2.2 fun r hr => (hys r hr).1.ne'⟩
  · simp only [List.forall_mem_append, List.forall_mem_cons]
    exact ⟨hfree.1, hfree.2.1, hfree.2.2.2⟩

theorem addPrev_shape (hs : Shape h (xs ++ p :: ys) os)
    (hl' : Layout (xs ++ { p with stop := stop } :: ys) os) :
    Shape (h.setEnd p.base stop) (xs ++ { p with stop := stop } :: ys) os ∧
    KeepsBut 0 24 ((xs ++ p :: ys).map (·.base)) h.mem (h.setEnd p.base stop).mem := by
  have h0 := hs.headers fun r hr => List.mem_map_of_mem hr
  have hlt : stop < 4294967296 := (hl'.valid { p with stop := stop } (by simp)).stop_lt
  have h1 := h0.setEnd (n := p.base) (by simp) hlt
  have hstop := hs.stop_eq
  have hfree := hs.free_eq
  obtain ⟨hxs, hys⟩ := hl'.middle
  simp only [List.forall_mem_append, List.forall_mem_cons] at hstop hfree
  refine ⟨.of_headers hl' (by simpa using h1) ?_ ?_, h1.keeps⟩
  · simp only [List.forall_mem_append, List.forall_mem_cons, Function.update_self]
    exact ⟨field_update hstop.1 fun r hr => (hxs r hr).1.ne, trivial,
      field_update hstop.2.2 fun r hr => (hys r hr).1.ne'⟩
  · simp only [List.forall_mem_append, List.forall_mem_cons]
    exact hfree

theorem addFresh_shape (hs : Shape h (xs ++ ys) os)
    (hl' : Layout (xs ++ { base := base, stop := stop, free := true } :: ys) (base :: os)) :
    Shape ((((h.setEnd base stop).setFree base true).insertRange ((xs.map (·.base)).getLastD 0)
        base).insertFree 0 base)
      (xs ++ { base := base, stop := stop, free := true } :: ys) (base :: os) ∧
    KeepsBut 0 24 (base :: (xs ++ ys).map (·.base)) h.mem
      ((((h.setEnd base stop).setFree base true).insertRange ((xs.map (·.base)).getLastD 0)
        base).insertFree 0 base).mem := by
  have hlt : stop < 4294967296 :=
    (hl'.valid { base := base, stop := stop, free := true } (by simp)).stop_lt
  obtain ⟨hxs, hys⟩ := hl'.middle
  have hnotin : base ∉ xs.map (·.base) ++ ys.map (·.base) := by
    simp only [List.mem_append, List.mem_map, not_or, not_exists, not_and]
    exact ⟨fun r hr => (hxs r hr).1.ne, fun r hr => (hys r hr).1.ne'⟩
  have h0 := hs.headers fun r hr => List.mem_cons_of_mem base (List.mem_map_of_mem hr)
  -- the new header is apart from the others
  have hapart : Apart (base :: (xs ++ ys).map (·.base)) := by
    refine hl'.apart.mono fun b hb => ?_
    rw [List.map_append] at hb
    rw [List.map_append, List.map_cons]
    exact List.perm_middle.mem_iff.2 hb
  have h1 := h0.reown hapart (fun b hb => List.mem_cons_of_mem _ hb)
    (fun b hb => List.mem_cons_of_mem _ (hs.rep.freeRanges_sub b hb)) fun b hb => hb
  have h2 := (h1.setEnd List.mem_cons_self hlt).setFree List.mem_cons_self true
  rw [List.map_append] at h2
  have h3 := (h2.insertRange List.mem_cons_self hnotin).insertFree_front List.mem_cons_self
    (List.nodup_cons.1 hl'.nodup).1
  have hstop := hs.stop_eq
  have hfree := hs.free_eq
  simp only [List.forall_mem_append] at hstop hfree
  refine ⟨.of_headers hl' (by simpa using h3) ?_ ?_, by simpa using h3.keeps⟩
  · simp only [List.forall_mem_append, List.forall_mem_cons, Function.update_self]
    exact ⟨field_update hstop.1 fun r hr => (hxs r hr).1.ne, trivial,
      field_update hstop.2 fun r hr => (hys r hr).1.ne'⟩
  · simp only [List.forall_mem_append, List.forall_mem_cons, Function.update_self]
    exact ⟨field_update hfree.1 fun r hr => (hxs r hr).1.ne, trivial,
      field_update hfree.2 fun r hr => (hys r hr).1.ne'⟩

theorem addNext_shape (hs : Shape h (xs ++ q :: ys) (us ++ q.base :: vs))
    (hqfree : q.free = true)
    (hl' : Layout (xs ++ { q with base := base } :: ys) (base :: (us ++ vs))) {h₁ h₂ : Heap}
    (hh₁ : h₁ = (h.removeRange q.base).removeFree q.base)
    (hh₂ : h₂ = { h₁ with mem := h₁.mem.copy base q.base heapRangeSize }) :
    Shape ((h₂.insertRange ((xs.map (·.base)).getLastD 0) base).insertFree 0 base)
      (xs ++ { q with base := base } :: ys) (base :: (us ++ vs)) ∧
    KeepsBut 0 24 (base :: (xs ++ q :: ys).map (·.base)) h.mem
      ((h₂.insertRange ((xs.map (·.base)).getLastD 0) base).insertFree 0 base).mem := by
  obtain ⟨hxs, hys⟩ := hl'.middle
  have hnotin : base ∉ xs.map (·.base) ++ ys.map (·.base) := by
    simp only [List.mem_append, List.mem_map, not_or, not_exists, not_and]
    exact ⟨fun r hr => (hxs r hr).1.ne, fun r hr => (hys r hr).1.ne'⟩
  have hapart : Apart (base :: (xs.map (·.base) ++ ys.map (·.base))) := by
    refine hl'.apart.mono fun b hb => ?_
    rw [List.map_append, List.map_cons]
    exact List.perm_middle.mem_iff.2 hb
  have hsub : ∀ b ∈ base :: (xs.map (·.base) ++ ys.map (·.base)),
      b ∈ base :: (xs ++ q :: ys).map (·.base) := by
    simp only [List.map_append, List.map_cons, List.mem_append, List.mem_cons]
    grind
  have h0 := hs.headers fun r hr => List.mem_cons_of_mem base (List.mem_map_of_mem hr)
  simp only [List.map_append, List.map_cons] at h0
  have h1 := h0.removeRange.removeFree
  rw [← hh₁] at h1
  -- `q` is in no list any more, so nothing but its header is lost under the copy
  have hos : ∀ o ∈ us ++ vs, o ∈ xs.map (·.base) ++ ys.map (·.base) := by
    intro o ho
    obtain ⟨r, hr, -, rfl⟩ := (hl'.mem_iff o).1 (List.mem_cons_of_mem _ ho)
    rcases List.mem_append.1 hr with hr | hr
    · exact List.mem_append_left _ (List.mem_map_of_mem hr)
    · rcases List.mem_cons.1 hr with rfl | hr
      · exact absurd ho (List.nodup_cons.1 hl'.nodup).1
      · exact List.mem_append_right _ (List.mem_map_of_mem hr)
  have hsame : ∀ b ∈ xs.map (·.base) ++ ys.map (·.base), SameOn h₁.mem h₂.mem b 24 := by
    intro b hb
    rw [hh₂]
    refine sameOn_copy _ _ _ ?_
    have hne : b ≠ base := by
      rintro rfl
      exact hnotin hb
    have := (hapart b (List.mem_cons_of_mem _ hb)).2 base List.mem_cons_self
    simp only [heapRangeSize]
    omega
  have hrep := (h1.rep.reown (hapart.mono fun b hb => List.mem_cons_of_mem _ hb) (fun b hb => hb)
    hos).of_sameOn (show h₂.heapRanges = _ by rw [hh₂]) (by rw [hh₂]) hsame
  have hkeeps : KeepsBut 0 24 (base :: (xs ++ q :: ys).map (·.base)) h.mem h₂.mem := by
    refine (h1.keeps.more fun b hb => by simpa using hb).trans ?_
    intro x hx
    have := hx base List.mem_cons_self
    rw [hh₂]
    refine (show SameOn _ _ x 1 from sameOn_copy _ _ _ ?_).byte Nat.one_pos
    simp only [heapRangeSize]
    omega
  have h2 : Headers h.mem (base :: (xs ++ q :: ys).map (·.base)) h₂
      (base :: (xs.map (·.base) ++ ys.map (·.base))) (xs.map (·.base) ++ ys.map (·.base))
      (us ++ vs) h₂.rangeEnd h₂.isFree :=
    ⟨hrep.reown hapart (fun b hb => List.mem_cons_of_mem _ hb)
      fun o ho => List.mem_cons_of_mem _ (hos o ho), fun _ _ => rfl, fun _ _ => rfl, hkeeps, hsub⟩
  have h3 := (h2.insertRange List.mem_cons_self hnotin).insertFree_front List.mem_cons_self
    (List.nodup_cons.1 hl'.nodup).1
  have hstop := hs.stop_eq
  have hfree := hs.free_eq
  simp only [List.forall_mem_append, List.forall_mem_cons] at hstop hfree
  have hq₁ : h₁.rangeEnd q.base = q.stop ∧ h₁.isFree q.base = true := by
    rw [h1.stop_eq q.base (by simp), h1.free_eq q.base (by simp), hstop.2.1, hfree.2.1, hqfree]
    exact ⟨rfl, rfl⟩
  refine ⟨.of_headers hl' (by simpa using h3) ?_ ?_, h3.keeps⟩
  · simp only [List.forall_mem_append, List.forall_mem_cons]
    refine ⟨fun r hr => ?_, ?_, fun r hr => ?_⟩
    · have hr' : r.base ∈ xs.map (·.base) := List.mem_map_of_mem hr
      rw [rangeEnd_of_sameOn (hsame _ (by simp [hr'])), h1.stop_eq _ (by simp [hr']), hstop.1 r hr]
    · rw [← hq₁.1, hh₂]
      exact read32_copy _ (by decide)
    · have hr' : r.base ∈ ys.map (·.base) := List.mem_map_of_mem hr
      rw [rangeEnd_of_sameOn (hsame _ (by simp [hr'])), h1.stop_eq _ (by simp [hr']), hstop.2.2 r hr]
  · simp only [List.forall_mem_append, List.forall_mem_cons]
    refine ⟨fun r hr => ?_, ?_, fun r hr => ?_⟩
    · have hr' : r.base ∈ xs.map (·.base) := List.mem_map_of_mem hr
      rw [isFree_of_sameOn (hsame _ (by simp [hr'])), h1.free_eq _ (by simp [hr']), hfree.1 r hr]
    · rw [hqfree, ← hq₁.2, hh₂]
      show (h₁.mem.copy base q.base heapRangeSize (base + 20) != 0) = h₁.isFree q.base
      rw [copy_byte _ (by decide)]
      rfl
    · have hr' : r.base ∈ ys.map (·.base) := List.mem_map_of_mem hr
      rw [isFree_of_sameOn (hsame _ (by simp [hr'])), h1.free_eq _ (by simp [hr']), hfree.2.2 r hr]

theorem Shape.next_eq {r : Range} (hs : Shape h (xs ++ r :: ys) os) :
    h.next r.base = (ys.map (·.base)).headD 0 := by
  have hlist := hs.rep.heapRanges
  simp only [Nat.add_zero, List.map_id', List.map_append, List.map_cons] at hlist
  simp only [Heap.next, container_zero]
  exact hlist.next_eq

theorem Shape.prev_eq {r : Range} (hs : Shape h (xs ++ r :: ys) os) :
    h.prev r.base = (xs.map (·.base)).getLastD 0 := by
  have hlist := hs.rep.heapRanges
  simp only [Nat.add_zero, List.map_id', List.map_append, List.map_cons] at hlist
  simp only [Heap.prev, container_zero]
  exact hlist.prev_eq

/-- A free range is somewhere in the order. -/
theorem Layout.exists_order (hl : Layout rs os) {r : Range} (hr : r ∈ rs) (hfree : r.free = true) :
    ∃ us vs, os = us ++ r.base :: vs :=
  List.append_of_mem ((hl.mem_iff _).2 ⟨r, hr, hfree, rfl⟩)

/-- The area becomes a range of its own, if it can hold a header. -/
theorem addFresh_refines (hs : Shape h (xs ++ ys) os) (hl : Layout (xs ++ ys) os)
    (hbase : base ≠ 0) (hbase_dvd : 4 ∣ base) (hstop_dvd : 4 ∣ stop) (hlt : base < stop)
    (hstop : stop < 4294967296) (hxs : ∀ r ∈ xs, r.stop ≤ base ∧ (r.free = true → r.stop ≠ base))
    (hys : ∀ r ∈ ys, stop ≤ r.base)
    (hh' : h' = if stop - base < heapRangeSize then h else
      (((h.setEnd base stop).setFree base true).insertRange ((xs.map (·.base)).getLastD 0)
        base).insertFree 0 base) :
    (h' = h ∨ ∃ rs' os', Added base stop (xs ++ ys) os rs' os' ∧ Shape h' rs' os') ∧
      ∀ x, x < base ∨ stop ≤ x → (∀ r ∈ xs ++ ys, x < r.base ∨ r.base + 24 ≤ x) →
        h'.mem x = h.mem x := by
  by_cases hroom : stop - base < heapRangeSize
  · rw [if_pos hroom] at hh'
    rw [hh']
    exact ⟨.inl rfl, fun _ _ _ => rfl⟩
  · rw [if_neg hroom] at hh'
    simp only [heapRangeSize] at hroom
    have hadd : Added base stop (xs ++ ys) os _ _ := .fresh hxs hys (by omega)
    obtain ⟨hshape, hkeeps⟩ :=
      addFresh_shape hs (hadd.layout hl hbase hbase_dvd hstop_dvd hlt hstop)
    rw [← hh'] at hshape hkeeps
    refine ⟨.inr ⟨_, _, hadd, hshape⟩, fun x hx hheaders => hkeeps x ?_⟩
    exact List.forall_mem_cons.2 ⟨by omega, List.forall_mem_map.2 hheaders⟩

/-- Which neighbours the area between `xs` and `ys` is joined with. Only the last range of `xs` and
the first of `ys` can touch it, and without a range before it the one behind it is not looked at. -/
theorem addBetween_cases (hs : Shape h (xs ++ ys) os) (hl : Layout (xs ++ ys) os)
    (hlt : base < stop) (hxs : ∀ r ∈ xs, r.stop ≤ base) (hys : ∀ r ∈ ys, stop ≤ r.base)
    (hh' : h' = addBetween h ((xs.map (·.base)).getLastD 0)
        (if (xs.map (·.base)).getLastD 0 ≠ 0 then (ys.map (·.base)).headD 0 else 0) base stop) :
    (∃ xs₀ p q ys₀, xs = xs₀ ++ [p] ∧ ys = q :: ys₀ ∧ (p.free = true ∧ p.stop = base) ∧
      (q.free = true ∧ q.base = stop) ∧
      h' = ((h.setEnd p.base (h.rangeEnd q.base)).removeRange q.base).removeFree q.base) ∨
    (∃ xs₀ p, xs = xs₀ ++ [p] ∧ (p.free = true ∧ p.stop = base) ∧
      (∀ r ∈ ys, r.free = true → r.base ≠ stop) ∧ h' = h.setEnd p.base stop) ∨
    (∃ q ys₀ h₁ h₂, xs ≠ [] ∧ ys = q :: ys₀ ∧ (∀ r ∈ xs, r.free = true → r.stop ≠ base) ∧
      (q.free = true ∧ q.base = stop) ∧ h₁ = (h.removeRange q.base).removeFree q.base ∧
      h₂ = { h₁ with mem := h₁.mem.copy base q.base heapRangeSize } ∧
      h' = (h₂.insertRange ((xs.map (·.base)).getLastD 0) base).insertFree 0 base) ∨
    (∀ r ∈ xs, r.free = true → r.stop ≠ base) ∧
      (xs ≠ [] → ∀ r ∈ ys, r.free = true → r.base ≠ stop) ∧
      h' = if stop - base < heapRangeSize then h else
        (((h.setEnd base stop).setFree base true).insertRange ((xs.map (·.base)).getLastD 0)
          base).insertFree 0 base := by
  have hvalid := hl.valid
  have hge : ¬base ≥ stop := by omega
  rcases List.eq_nil_or_concat xs with rfl | ⟨xs₀, p, rfl⟩
  · refine .inr (.inr (.inr ⟨by simp, by simp, ?_⟩))
    simpa only [addBetween, List.map_nil, List.getLastD_nil, ne_eq, not_true_eq_false, false_and,
      if_false, hge] using hh'
  · simp only [List.concat_eq_append] at *
    have hp0 : p.base ≠ 0 := (hvalid p (by simp)).pos
    have hpstop := hs.stop_eq p (by simp)
    have hpfree := hs.free_eq p (by simp)
    have hpgt : ¬p.stop > base := by
      have := hxs p (by simp)
      omega
    have hprev : ((xs₀ ++ [p]).map (·.base)).getLastD 0 = p.base := by simp
    have hbefore : ∀ r ∈ xs₀, r.stop < base := by
      intro r hr
      have hl₀ : Layout (xs₀ ++ p :: ys) os := by simpa using hl
      have := (hl₀.middle.1 r hr).2
      have := (hvalid p (by simp)).room
      have := hxs p (by simp)
      omega
    have hnotBefore : ¬(p.free = true ∧ p.stop = base) →
        ∀ r ∈ xs₀ ++ [p], r.free = true → r.stop ≠ base := by
      intro hnot r hr hrfree hrstop
      rcases List.mem_append.1 hr with hr | hr
      · exact (hbefore r hr).ne hrstop
      · rw [List.mem_singleton] at hr
        subst hr
        exact hnot ⟨hrfree, hrstop⟩
    cases ys with
    | nil =>
      simp only [hprev, addBetween, ne_eq, hp0, not_false_eq_true, hpstop, hpgt, and_false,
        if_false, List.map_nil, List.headD_nil, if_true, not_true_eq_false, false_and, hge, hpfree,
        true_and] at hh'
      by_cases hp : p.free = true ∧ p.stop = base
      · rw [if_pos hp] at hh'
        exact .inr (.inl ⟨xs₀, p, rfl, hp, by simp, hh'⟩)
      · rw [if_neg hp, ← hprev] at hh'
        exact .inr (.inr (.inr ⟨hnotBefore hp, by simp, hh'⟩))
    | cons q ys =>
      have hq0 : q.base ≠ 0 := (hvalid q (by simp)).pos
      have hqstop := hs.stop_eq q (by simp)
      have hqfree := hs.free_eq q (by simp)
      have hqgt : ¬stop > q.base := by
        have := hys q (by simp)
        omega
      have hbehind : ∀ r ∈ ys, stop < r.base := by
        intro r hr
        have hl₀ : Layout (xs₀ ++ [p] ++ q :: ys) os := hl
        have := (hl₀.middle.2 r hr).1
        have := hys q (by simp)
        omega
      have hnotBehind : ¬(q.free = true ∧ stop = q.base) →
          ∀ r ∈ q :: ys, r.free = true → r.base ≠ stop := by
        intro hnot r hr hrfree hrbase
        rcases List.mem_cons.1 hr with rfl | hr
        · exact hnot ⟨hrfree, hrbase.symm⟩
        · exact (hbehind r hr).ne' hrbase
      simp only [hprev, addBetween, ne_eq, hp0, not_false_eq_true, hpstop, hpgt, and_false,
        if_false, List.map_cons, List.headD_cons, if_true, hge, hpfree, hq0, hqstop, hqfree, hqgt,
        true_and] at hh'
      by_cases hp : p.free = true ∧ p.stop = base <;> by_cases hq : q.free = true ∧ stop = q.base
      · rw [if_pos ⟨hp, hq⟩, ← hqstop] at hh'
        exact .inl ⟨xs₀, p, q, ys, rfl, rfl, hp, ⟨hq.1, hq.2.symm⟩, hh'⟩
      · rw [if_neg (fun hboth => hq hboth.2), if_pos hp] at hh'
        exact .inr (.inl ⟨xs₀, p, rfl, hp, hnotBehind hq, hh'⟩)
      · rw [if_neg (fun hboth => hp hboth.1), if_neg hp, if_pos hq, ← hprev] at hh'
        exact .inr (.inr (.inl ⟨q, ys, _, _, by simp, rfl, hnotBefore hp, ⟨hq.1, hq.2.symm⟩, rfl, rfl,
          hh'⟩))
      · rw [if_neg (fun hboth => hp hboth.1), if_neg hp, if_neg hq, ← hprev] at hh'
        exact .inr (.inr (.inr ⟨hnotBefore hp, fun _ => hnotBehind hq, hh'⟩))

theorem addBetween_refines (hs : Shape h (xs ++ ys) os) (hl : Layout (xs ++ ys) os)
    (hbase : base ≠ 0) (hbase_dvd : 4 ∣ base) (hstop_dvd : 4 ∣ stop) (hlt : base < stop)
    (hstop : stop < 4294967296) (hxs : ∀ r ∈ xs, r.stop ≤ base) (hys : ∀ r ∈ ys, stop ≤ r.base)
    (hh' : h' = addBetween h ((xs.map (·.base)).getLastD 0)
        (if (xs.map (·.base)).getLastD 0 ≠ 0 then (ys.map (·.base)).headD 0 else 0) base stop) :
    (h' = h ∨ ∃ rs' os', Added base stop (xs ++ ys) os rs' os' ∧ Shape h' rs' os') ∧
      ∀ x, x < base ∨ stop ≤ x → (∀ r ∈ xs ++ ys, x < r.base ∨ r.base + 24 ≤ x) →
        h'.mem x = h.mem x := by
  have hlayout : ∀ {rs' os'}, Added base stop (xs ++ ys) os rs' os' → Layout rs' os' :=
    fun hadd => hadd.layout hl hbase hbase_dvd hstop_dvd hlt hstop
  have hassoc : ∀ xs₀ (p : Range) zs, xs₀ ++ [p] ++ zs = xs₀ ++ p :: zs := fun _ _ zs => by simp
  rcases addBetween_cases hs hl hlt hxs hys hh' with
    ⟨xs₀, p, q, ys, rfl, rfl, hp, hq, heq⟩ | ⟨xs₀, p, rfl, hp, -, heq⟩ |
      ⟨q, ys, h₁, h₂, -, rfl, -, hq, hh₁, hh₂, heq⟩ | ⟨hxs', -, heq⟩
  · -- the area closes the gap between two free ranges
    obtain ⟨us, vs, rfl⟩ := hl.exists_order (r := q) (by simp) hq.1
    have hadd : Added base stop (xs₀ ++ [p] ++ q :: ys) (us ++ q.base :: vs)
        (xs₀ ++ { p with stop := q.stop } :: ys) (us ++ vs) := by
      rw [hassoc]
      exact .both hp.1 hq.1 hp.2 hq.2
    have hl' := hlayout hadd
    rw [hassoc] at hs hl
    obtain ⟨hshape, hkeeps⟩ := addBoth_shape hs hl hl'
    rw [heq]
    rw [← hassoc] at hkeeps
    exact ⟨.inr ⟨_, _, hadd, hshape⟩, fun x _ hheaders => hkeeps x (List.forall_mem_map.2 hheaders)⟩
  · have hadd : Added base stop (xs₀ ++ [p] ++ ys) os (xs₀ ++ { p with stop := stop } :: ys) os := by
      rw [hassoc]
      exact .prev hp.1 hp.2 hys
    have hl' := hlayout hadd
    rw [hassoc] at hs
    obtain ⟨hshape, hkeeps⟩ := addPrev_shape hs hl'
    rw [heq]
    rw [← hassoc] at hkeeps
    exact ⟨.inr ⟨_, _, hadd, hshape⟩, fun x _ hheaders => hkeeps x (List.forall_mem_map.2 hheaders)⟩
  · obtain ⟨us, vs, rfl⟩ := hl.exists_order (r := q) (by simp) hq.1
    have hadd : Added base stop (xs ++ q :: ys) (us ++ q.base :: vs)
        (xs ++ { q with base := base } :: ys) (base :: (us ++ vs)) := .next hxs hq.1 hq.2
    obtain ⟨hshape, hkeeps⟩ := addNext_shape hs hq.1 (hlayout hadd) hh₁ hh₂
    rw [heq]
    refine ⟨.inr ⟨_, _, hadd, hshape⟩, fun x hx hheaders => hkeeps x ?_⟩
    -- the new header lies in the area and the old one
    have := hheaders q (by simp)
    exact List.forall_mem_cons.2 ⟨by omega, List.forall_mem_map.2 hheaders⟩
  · exact addFresh_refines hs hl hbase hbase_dvd hstop_dvd hlt hstop
      (fun r hr => ⟨hxs r hr, hxs' r hr⟩) hys heq

/-- An area that is not empty is added between the ranges that start below it and the others. -/
theorem Shape.blAddHeapRange_eq {size : Nat} (hs : Shape h (xs ++ ys) os)
    (hbase : alignUp base heapAlignment = lo) (hstop : alignDown (add32 base size) heapAlignment = hi)
    (hlt : lo < hi) (hxs : ∀ r ∈ xs, r.base < lo) (hys : ∀ r ∈ ys, lo ≤ r.base) :
    blAddHeapRange h base size = .ok (addBetween h ((xs.map (·.base)).getLastD 0)
      (if (xs.map (·.base)).getLastD 0 ≠ 0 then (ys.map (·.base)).headD 0 else 0) lo hi) := by
  have hnext : (if (xs.map (·.base)).getLastD 0 ≠ 0 then h.next ((xs.map (·.base)).getLastD 0)
      else 0) = if (xs.map (·.base)).getLastD 0 ≠ 0 then (ys.map (·.base)).headD 0 else 0 := by
    rcases List.eq_nil_or_concat xs with rfl | ⟨xs₀, p, rfl⟩
    · rfl
    · have hp := (show Shape h (xs₀ ++ p :: ys) os by simpa using hs).next_eq
      simp [hp]
  unfold blAddHeapRange
  rw [hbase, hstop, if_neg (by omega), hs.findPrev_eq hxs hys]
  show Except.ok (addBetween h _ _ lo hi) = _
  rw [hnext]

/-- An area is added between its aligned ends, or dropped for being too small. -/
theorem blAddHeapRange_refines {size : Nat} (hs : Shape h rs os) (hl : Layout rs os)
    (hbase : base ≠ 0) (hbase_lt : base + 3 < 4294967296) (hsize : base + size ≤ 4294967296)
    (hapart : ∀ r ∈ rs, r.stop ≤ base ∨ base + size ≤ r.base) :
    ∃ h', blAddHeapRange h base size = .ok h' ∧
      (h' = h ∨ ∃ lo hi rs' os', base ≤ lo ∧ hi ≤ base + size ∧ lo < hi ∧ 4 ∣ lo ∧ 4 ∣ hi ∧
        hi < 4294967296 ∧ Added lo hi rs os rs' os' ∧ Shape h' rs' os') ∧
      ∀ x, x < base ∨ base + size ≤ x → (∀ r ∈ rs, x < r.base ∨ r.base + 24 ≤ x) →
        h'.mem x = h.mem x := by
  have hlo := alignUp_four hbase_lt
  have hhi : alignDown (add32 base size) heapAlignment =
      add32 base size - add32 base size % 4 := alignDown_four (Nat.mod_lt _ (by decide))
  by_cases hempty : base + 3 - (base + 3) % 4 ≥ add32 base size - add32 base size % 4
  · refine ⟨h, ?_, .inl rfl, fun _ _ _ => rfl⟩
    unfold blAddHeapRange
    rw [hlo, hhi]
    exact if_pos hempty
  · -- the sum does not wrap, or the area would be empty
    have hadd : add32 base size = base + size := by
      unfold add32 at hempty ⊢
      omega
    have hwrap : base + size < 4294967296 := hadd ▸ Nat.mod_lt _ (by decide)
    rw [hadd] at hempty
    rw [show add32 base size - add32 base size % 4 = base + size - (base + size) % 4 by rw [hadd]]
      at hhi
    generalize hlo' : base + 3 - (base + 3) % 4 = lo at hempty hlo
    generalize hhi' : base + size - (base + size) % 4 = hi at hempty hhi
    obtain ⟨xs, ys, rfl, hxs, hys⟩ := hl.exists_split lo
    have hroom : ∀ r ∈ xs ++ ys, r.base + 24 ≤ r.stop := fun r hr => (hl.valid r hr).room
    have hxs' : ∀ r ∈ xs, r.stop ≤ lo := by
      intro r hr
      have := hapart r (by simp [hr])
      have := hxs r hr
      omega
    have hys' : ∀ r ∈ ys, hi ≤ r.base := by
      intro r hr
      have := hapart r (by simp [hr])
      have := hroom r (by simp [hr])
      have := hys r hr
      omega
    obtain ⟨hcase, hkeeps⟩ := addBetween_refines hs hl (by omega) (by omega) (by omega)
      (show lo < hi by omega) (by omega) hxs' hys' rfl
    refine ⟨_, hs.blAddHeapRange_eq hlo hhi (by omega) hxs hys, ?_,
      fun x hx hheaders => hkeeps x (by omega) hheaders⟩
    rcases hcase with hsame | ⟨rs', os', hadd', hshape⟩
    · exact .inl hsame
    · exact .inr ⟨lo, hi, rs', os', by omega, by omega, by omega, by omega, by omega, by omega,
        hadd', hshape⟩

end

/-! ## `BlFreeHeap` -/

section
variable {xs ys : List Range} {us vs : List Nat} {p q r : Range}

theorem freeBoth_shape (hs : Shape h (xs ++ p :: r :: q :: ys) (us ++ q.base :: vs))
    (hl : Layout (xs ++ p :: r :: q :: ys) (us ++ q.base :: vs))
    (hl' : Layout (xs ++ { p with stop := q.stop } :: ys) (us ++ vs)) {h₁ : Heap}
    (hh₁ : h₁ = ((h.removeRange r.base).removeRange q.base).removeFree q.base) :
    Shape (h₁.setEnd p.base (h₁.rangeEnd q.base)) (xs ++ { p with stop := q.stop } :: ys) (us ++ vs) ∧
    KeepsBut 0 24 ((xs ++ p :: r :: q :: ys).map (·.base)) h.mem
      (h₁.setEnd p.base (h₁.rangeEnd q.base)).mem := by
  have h0 := hs.headers fun r hr => List.mem_map_of_mem hr
  simp only [List.map_append, List.map_cons] at h0
  rw [List.append_cons (xs.map (·.base)) p.base (r.base :: _)] at h0
  have h1 := h0.removeRange.removeRange.removeFree
  rw [← hh₁] at h1
  have hstop := hs.stop_eq
  have hfree := hs.free_eq
  simp only [List.forall_mem_append, List.forall_mem_cons] at hstop hfree
  rw [h1.stop_eq q.base (by simp), hstop.2.2.2.1]
  have h2 := h1.setEnd (n := p.base) (by simp) (hl.valid q (by simp)).stop_lt
  obtain ⟨hxs, hys⟩ := hl'.middle
  refine ⟨.of_headers hl' (by simpa using h2) ?_ ?_, by simpa using h2.keeps⟩
  · simp only [List.forall_mem_append, List.forall_mem_cons, Function.update_self]
    exact ⟨field_update hstop.1 fun r hr => (hxs r hr).1.ne, trivial,
      field_update hstop.2.2.2.2 fun r hr => (hys r hr).1.ne'⟩
  · simp only [List.forall_mem_append, List.forall_mem_cons]
    exact ⟨hfree.1, hfree.2.1, hfree.2.2.2.2⟩

theorem freePrev_shape (hs : Shape h (xs ++ p :: r :: ys) os) (hl : Layout (xs ++ p :: r :: ys) os)
    (hl' : Layout (xs ++ { p with stop := r.stop } :: ys) os) :
    Shape ((h.removeRange r.base).setEnd p.base ((h.removeRange r.base).rangeEnd r.base))
      (xs ++ { p with stop := r.stop } :: ys) os ∧
    KeepsBut 0 24 ((xs ++ p :: r :: ys).map (·.base)) h.mem
      ((h.removeRange r.base).setEnd p.base ((h.removeRange r.base).rangeEnd r.base)).mem := by
  have h0 := hs.headers fun r hr => List.mem_map_of_mem hr
  simp only [List.map_append, List.map_cons] at h0
  rw [List.append_cons (xs.map (·.base)) p.base (r.base :: _)] at h0
  have h1 := h0.removeRange
  have hstop := hs.stop_eq
  have hfree := hs.free_eq
  simp only [List.forall_mem_append, List.forall_mem_cons] at hstop hfree
  rw [h1.stop_eq r.base (by simp), hstop.2.2.1]
  have h2 := h1.setEnd (n := p.base) (by simp) (hl.valid r (by simp)).stop_lt
  obtain ⟨hxs, hys⟩ := hl'.middle
  refine ⟨.of_headers hl' (by simpa using h2) ?_ ?_, by simpa using h2.keeps⟩
  · simp only [List.forall_mem_append, List.forall_mem_cons, Function.update_self]
    exact ⟨field_update hstop.1 fun r hr => (hxs r hr).1.ne, trivial,
      field_update hstop.2.2.2 fun r hr => (hys r hr).1.ne'⟩
  · simp only [List.forall_mem_append, List.forall_mem_cons]
    exact ⟨hfree.1, hfree.2.1, hfree.2.2.2⟩

theorem freeNext_shape (hs : Shape h (xs ++ r :: q :: ys) (us ++ q.base :: vs))
    (hl : Layout (xs ++ r :: q :: ys) (us ++ q.base :: vs))
    (hl' : Layout (xs ++ { r with stop := q.stop, free := true } :: ys) (r.base :: (us ++ vs)))
    {h₁ : Heap} (hh₁ : h₁ = (h.removeRange q.base).removeFree q.base) :
    Shape (((h₁.setEnd r.base (h₁.rangeEnd q.base)).setFree r.base true).insertFree 0 r.base)
      (xs ++ { r with stop := q.stop, free := true } :: ys) (r.base :: (us ++ vs)) ∧
    KeepsBut 0 24 ((xs ++ r :: q :: ys).map (·.base)) h.mem
      (((h₁.setEnd r.base (h₁.rangeEnd q.base)).setFree r.base true).insertFree 0 r.base).mem := by
  have h0 := hs.headers fun r hr => List.mem_map_of_mem hr
  simp only [List.map_append, List.map_cons] at h0
  rw [List.append_cons (xs.map (·.base)) r.base (q.base :: _)] at h0
  have h1 := h0.removeRange.removeFree
  rw [← hh₁] at h1
  have hstop := hs.stop_eq
  have hfree := hs.free_eq
  simp only [List.forall_mem_append, List.forall_mem_cons] at hstop hfree
  rw [h1.stop_eq q.base (by simp), hstop.2.2.1]
  have h2 := (h1.setEnd (n := r.base) (by simp) (hl.valid q (by simp)).stop_lt).setFree
    (n := r.base) (by simp) true
  have h3 := h2.insertFree_front (n := r.base) (by simp) (List.nodup_cons.1 hl'.nodup).1
  obtain ⟨hxs, hys⟩ := hl'.middle
  refine ⟨.of_headers hl' (by simpa using h3) ?_ ?_, by simpa using h3.keeps⟩
  · simp only [List.forall_mem_append, List.forall_mem_cons, Function.update_self]
    exact ⟨field_update hstop.1 fun r hr => (hxs r hr).1.ne, trivial,
      field_update hstop.2.2.2 fun r hr => (hys r hr).1.ne'⟩
  · simp only [List.forall_mem_append, List.forall_mem_cons, Function.update_self]
    exact ⟨field_update hfree.1 fun r hr => (hxs r hr).1.ne, trivial,
      field_update hfree.2.2.2 fun r hr => (hys r hr).1.ne'⟩

theorem freeAlone_shape (hs : Shape h (xs ++ r :: ys) os)
    (hl' : Layout (xs ++ { r with free := true } :: ys) (r.base :: os)) :
    Shape ((h.setFree r.base true).insertFree 0 r.base) (xs ++ { r with free := true } :: ys)
      (r.base :: os) ∧
    KeepsBut 0 24 ((xs ++ r :: ys).map (·.base)) h.mem
      ((h.setFree r.base true).insertFree 0 r.base).mem := by
  have h0 := hs.headers fun r hr => List.mem_map_of_mem hr
  have h1 := h0.setFree (n := r.base) (by simp) true
  have h2 := h1.insertFree_front (n := r.base) (by simp) (List.nodup_cons.1 hl'.nodup).1
  have hstop := hs.stop_eq
  have hfree := hs.free_eq
  simp only [List.forall_mem_append, List.forall_mem_cons] at hstop hfree
  obtain ⟨hxs, hys⟩ := hl'.middle
  refine ⟨.of_headers hl' (by simpa using h2) ?_ ?_, h2.keeps⟩
  · simp only [List.forall_mem_append, List.forall_mem_cons]
    exact hstop
  · simp only [List.forall_mem_append, List.forall_mem_cons, Function.update_self]
    exact ⟨field_update hfree.1 fun r hr => (hxs r hr).1.ne, trivial,
      field_update hfree.2.2 fun r hr => (hys r hr).1.ne'⟩

/-- A free neighbour, in memory as in the layout. -/
theorem Shape.mergePrev_iff (hs : Shape h (xs ++ r :: ys) os) (hl : Layout (xs ++ r :: ys) os) :
    (h.prev r.base ≠ 0 ∧ h.isFree (h.prev r.base) = true ∧ h.rangeEnd (h.prev r.base) = r.base) ↔
      ∃ xs₀ p, xs = xs₀ ++ [p] ∧ p.free = true ∧ p.stop = r.base := by
  rw [hs.prev_eq]
  rcases List.eq_nil_or_concat xs with rfl | ⟨xs₀, p, rfl⟩
  · simp
  · simp only [List.concat_eq_append] at *
    have hp0 : p.base ≠ 0 := (hl.valid p (by simp)).pos
    have hprev : ((xs₀ ++ [p]).map (·.base)).getLastD 0 = p.base := by simp
    rw [hprev, hs.free_eq p (by simp), hs.stop_eq p (by simp)]
    constructor
    · rintro ⟨-, hfree, hstop⟩
      exact ⟨xs₀, p, rfl, hfree, hstop⟩
    · rintro ⟨xs₁, p', heq, hfree, hstop⟩
      obtain ⟨-, hp⟩ := List.append_inj' heq rfl
      rw [List.singleton_inj] at hp
      subst hp
      exact ⟨hp0, hfree, hstop⟩

theorem Shape.mergeNext_iff (hs : Shape h (xs ++ r :: ys) os) (hl : Layout (xs ++ r :: ys) os) :
    (h.next r.base ≠ 0 ∧ h.isFree (h.next r.base) = true ∧ h.rangeEnd r.base = h.next r.base) ↔
      ∃ q ys₀, ys = q :: ys₀ ∧ q.free = true ∧ r.stop = q.base := by
  rw [hs.next_eq, hs.stop_eq r (by simp)]
  cases ys with
  | nil => simp
  | cons q ys =>
    have hq0 : q.base ≠ 0 := (hl.valid q (by simp)).pos
    rw [List.map_cons, List.headD_cons, hs.free_eq q (by simp)]
    constructor
    · rintro ⟨-, hfree, hstop⟩
      exact ⟨q, ys, rfl, hfree, hstop⟩
    · rintro ⟨q', ys₀, heq, hfree, hstop⟩
      rw [List.cons.injEq] at heq
      rw [heq.1]
      exact ⟨heq.1 ▸ hq0, hfree, hstop⟩

/-- Only neighbours touch. -/
theorem Layout.not_touch_before (hl : Layout (xs ++ r :: ys) os)
    (hnot : ¬∃ xs₀ p, xs = xs₀ ++ [p] ∧ p.free = true ∧ p.stop = r.base) :
    ∀ s ∈ xs, s.free = true → s.stop ≠ r.base := by
  intro s hs hfree hstop
  rcases List.eq_nil_or_concat xs with rfl | ⟨xs₀, p, rfl⟩
  · cases hs
  · simp only [List.concat_eq_append] at *
    rcases List.mem_append.1 hs with hs | hs
    · have hl₀ : Layout (xs₀ ++ p :: r :: ys) os := by simpa using hl
      have := (hl₀.middle.1 s hs).2
      have := (hl.middle.1 p (by simp)).1
      omega
    · rw [List.mem_singleton] at hs
      subst hs
      exact hnot ⟨xs₀, s, rfl, hfree, hstop⟩

theorem Layout.not_touch_behind (hl : Layout (xs ++ r :: ys) os)
    (hnot : ¬∃ q ys₀, ys = q :: ys₀ ∧ q.free = true ∧ r.stop = q.base) :
    ∀ s ∈ ys, s.free = true → r.stop ≠ s.base := by
  intro s hs hfree hstop
  cases ys with
  | nil => cases hs
  | cons q ys =>
    rcases List.mem_cons.1 hs with rfl | hs
    · exact hnot ⟨s, ys, rfl, hfree, hstop⟩
    · have hl₀ : Layout (xs ++ [r] ++ q :: ys) os := by simpa using hl
      have := (hl₀.middle.2 s hs).1
      have := (hl.middle.2 q (by simp)).2
      omega

/-- A block is freed by its address behind the header. -/
theorem blFreeHeap_refines (hs : Shape h rs os) (hl : Layout rs os) (hr : r ∈ rs)
    (hrfree : r.free = false) :
    ∃ rs' os', Released r rs os rs' os' ∧ Shape (blFreeHeap h (r.base + 24)) rs' os' ∧
      KeepsBut 0 24 (rs.map (·.base)) h.mem (blFreeHeap h (r.base + 24)).mem := by
  obtain ⟨xs, ys, rfl⟩ := List.append_of_mem hr
  have hprev := hs.prev_eq
  have hnext := hs.next_eq
  have hprev_iff := hs.mergePrev_iff hl
  have hnext_iff := hs.mergeNext_iff hl
  have hrange : blFreeHeap h (r.base + 24) = releaseRange h r.base := by
    unfold blFreeHeap
    rw [if_pos (by omega), heapRangeSize, Nat.add_sub_cancel]
  rw [hrange]
  generalize hh' : releaseRange h r.base = h'
  simp only [releaseRange] at hh'
  by_cases hp : ∃ xs₀ p, xs = xs₀ ++ [p] ∧ p.free = true ∧ p.stop = r.base <;>
    by_cases hq : ∃ q ys₀, ys = q :: ys₀ ∧ q.free = true ∧ r.stop = q.base
  · rw [if_pos (hprev_iff.2 hp), if_pos (hnext_iff.2 hq)] at hh'
    obtain ⟨xs₀, p, rfl, hpfree, hpstop⟩ := hp
    obtain ⟨q, ys, rfl, hqfree, hrstop⟩ := hq
    have hprev' : h.prev r.base = p.base := by rw [hprev]; simp
    rw [hprev', hnext, List.map_cons, List.headD_cons] at hh'
    rw [List.append_assoc, List.singleton_append] at *
    obtain ⟨us, vs, rfl⟩ := hl.exists_order (r := q) (by simp) hqfree
    have hrel : Released r (xs₀ ++ p :: r :: q :: ys) (us ++ q.base :: vs)
        (xs₀ ++ { p with stop := q.stop } :: ys) (us ++ vs) := .both hpfree hqfree hpstop hrstop
    have hshape := freeBoth_shape hs hl (hrel.layout hl hrfree) rfl
    rw [hh'] at hshape
    exact ⟨_, _, hrel, hshape⟩
  · rw [if_pos (hprev_iff.2 hp), if_neg (mt hnext_iff.1 hq)] at hh'
    have hys := hl.not_touch_behind hq
    obtain ⟨xs₀, p, rfl, hpfree, hpstop⟩ := hp
    have hprev' : h.prev r.base = p.base := by rw [hprev]; simp
    rw [hprev'] at hh'
    rw [List.append_assoc, List.singleton_append] at *
    have hrel : Released r (xs₀ ++ p :: r :: ys) os (xs₀ ++ { p with stop := r.stop } :: ys) os :=
      .prev hpfree hpstop hys
    have hshape := freePrev_shape hs hl (hrel.layout hl hrfree)
    rw [hh'] at hshape
    exact ⟨_, _, hrel, hshape⟩
  · rw [if_neg (mt hprev_iff.1 hp), if_pos (hnext_iff.2 hq)] at hh'
    have hxs := hl.not_touch_before hp
    obtain ⟨q, ys, rfl, hqfree, hrstop⟩ := hq
    rw [hnext, List.map_cons, List.headD_cons] at hh'
    obtain ⟨us, vs, rfl⟩ := hl.exists_order (r := q) (by simp) hqfree
    have hrel : Released r (xs ++ r :: q :: ys) (us ++ q.base :: vs)
        (xs ++ { r with stop := q.stop, free := true } :: ys) (r.base :: (us ++ vs)) :=
      .next hxs hqfree hrstop
    have hshape := freeNext_shape hs hl (hrel.layout hl hrfree) rfl
    rw [hh'] at hshape
    exact ⟨_, _, hrel, hshape⟩
  · rw [if_neg (mt hprev_iff.1 hp), if_neg (mt hnext_iff.1 hq)] at hh'
    have hrel : Released r (xs ++ r :: ys) os (xs ++ { r with free := true } :: ys)
        (r.base :: os) := .alone (hl.not_touch_before hp) (hl.not_touch_behind hq)
    have hshape := freeAlone_shape hs (hrel.layout hl hrfree)
    rw [hh'] at hshape
    exact ⟨_, _, hrel, hshape⟩

end

/-! ## `BlAllocateHeap` -/

section
variable {xs ys : List Range} {us vs : List Nat} {r : Range} {lo hi : Nat}

/-- The range behind the block, when there is one. -/
theorem carveTail_headers {W T : List Nat} (hs : Shape h (xs ++ r :: ys) (us ++ r.base :: vs))
    (hl : Layout (xs ++ r :: ys) (us ++ r.base :: vs)) (hhi : hi < r.stop)
    (hroom : r.stop - hi ≥ heapRangeSize → r.base + 24 ≤ hi)
    (hT : T = if r.stop - hi ≥ heapRangeSize then [hi] else [])
    (hW : ∀ b ∈ T ++ (xs ++ r :: ys).map (·.base), b ∈ W) :
    ∃ stop free,
      Headers h.mem W (carveTail h r.base hi).1 (T ++ (xs ++ r :: ys).map (·.base))
        (xs.map (·.base) ++ r.base :: (T ++ ys.map (·.base))) (us ++ r.base :: (T ++ vs)) stop free ∧
      (∀ s ∈ xs ++ r :: ys, stop s.base = s.stop) ∧ (∀ s ∈ xs ++ r :: ys, free s.base = s.free) ∧
      (∀ t ∈ T, stop t = r.stop ∧ free t = true) ∧
      (carveTail h r.base hi).2 = if r.stop - hi ≥ heapRangeSize then hi else r.stop := by
  have hstop := hs.stop_eq r (by simp)
  simp only [carveTail, hstop]
  by_cases htail : r.stop - hi ≥ heapRangeSize
  · rw [if_pos htail] at hT
    subst hT
    simp only [htail, if_true]
    have hroom := hroom htail
    have hrvalid := hl.valid r (by simp)
    have hrlt := hrvalid.stop_lt
    have hvalid : ∀ s ∈ xs ++ r :: ys, s.base + 24 ≤ s.stop := fun s hs => (hl.valid s hs).room
    obtain ⟨hxs, hys⟩ := hl.middle
    simp only [heapRangeSize] at htail
    -- the new header lies in `r`, behind that of `r`
    have hsep : ∀ s ∈ xs ++ r :: ys, hi + 24 ≤ s.base ∨ s.base + 24 ≤ hi := by
      intro s hs
      have := hvalid s hs
      rcases List.mem_append.1 hs with hs | hs
      · have := (hxs s hs).2
        omega
      · rcases List.mem_cons.1 hs with rfl | hs
        · omega
        · have := (hys s hs).2
          omega
    have hne : ∀ s ∈ xs ++ r :: ys, s.base ≠ hi := by
      intro s hs
      have := hsep s hs
      omega
    have hapart : Apart (hi :: (xs ++ r :: ys).map (·.base)) :=
      hl.apart.cons ⟨by omega, by omega⟩ (List.forall_mem_map.2 hsep)
    have hnotin : hi ∉ (xs.map (·.base) ++ [r.base]) ++ ys.map (·.base) := by
      have hmem : hi ∉ (xs ++ r :: ys).map (·.base) := by
        rw [List.mem_map]
        rintro ⟨s, hs, heq⟩
        exact hne s hs heq
      simpa using hmem
    have hos : hi ∉ (us ++ [r.base]) ++ vs := by
      intro hmem
      obtain ⟨s, hs, -, heq⟩ := (hl.mem_iff hi).1 (by simpa using hmem)
      exact hne s hs heq
    have h0 := hs.headers fun s hs => hW _ (List.mem_cons_of_mem _ (List.mem_map_of_mem hs))
    have h1 := (((h0.reown hapart (fun b hb => List.mem_cons_of_mem _ hb)
      (fun b hb => List.mem_cons_of_mem _ (hs.rep.freeRanges_sub b hb)) hW).setEnd
        List.mem_cons_self hrlt).setFree List.mem_cons_self true)
    rw [List.map_append, List.map_cons,
      List.append_cons (xs.map (·.base)) r.base (ys.map (·.base)), List.append_cons us] at h1
    have h2 := (h1.insertRange (by simp) hnotin).insertFree (by simp) hos
    refine ⟨Function.update h.rangeEnd hi r.stop, Function.update h.isFree hi true, ?_,
      field_update hs.stop_eq hne, field_update hs.free_eq hne, by simp, trivial⟩
    simpa using h2
  · rw [if_neg htail] at hT
    subst hT
    simp only [htail, if_false, List.nil_append, List.not_mem_nil, false_imp_iff, implies_true,
      and_true]
    have h0 := hs.headers fun s hs => hW _ (List.mem_map_of_mem hs)
    refine ⟨_, _, by simpa using h0, hs.stop_eq, hs.free_eq⟩

/-- The range before the block, when there is one. -/
theorem carveHead_headers {m₀ : ByteMemory} {W B as cs ws : List Nat} {stop : Nat → Nat}
    {free : Nat → Bool} (hh : Headers m₀ W h B (as ++ r.base :: cs) (us ++ r.base :: ws) stop free)
    (hlo : lo < 4294967296) :
    ∀ H, H = (if lo - r.base ≥ heapRangeSize then [r.base] else []) →
      Headers m₀ W (carveHead h r.base lo).1 B (as ++ H ++ cs) (us ++ H ++ ws)
        (if lo - r.base ≥ heapRangeSize then Function.update stop r.base lo else stop) free ∧
      (carveHead h r.base lo).2 = (as ++ H).getLastD 0 := by
  rintro H rfl
  have hr : r.base ∈ B := hh.rep.heapRanges_sub _ (by simp)
  simp only [carveHead]
  split
  · exact ⟨by simpa using hh.setEnd hr hlo, by simp⟩
  · have hprev : h.prev r.base = as.getLastD 0 := by
      have hlist := hh.rep.heapRanges
      simp only [Nat.add_zero, List.map_id'] at hlist
      simp only [Heap.prev, container_zero]
      exact hlist.prev_eq
    exact ⟨by simpa using hh.removeRange.removeFree, by simpa using hprev⟩

theorem placeHeader_headers {m₀ : ByteMemory} {W B bs cs os : List Nat} {stop : Nat → Nat}
    {free : Nat → Bool} (hh : Headers m₀ W h B (bs ++ cs) os stop free) (hlo : lo ∈ B)
    (hnew : lo ∉ bs ++ cs) (hhi : hi < 4294967296) :
    Headers m₀ W (placeHeader h (bs.getLastD 0) lo hi) B (bs ++ lo :: cs) os
      (Function.update stop lo hi) (Function.update free lo false) :=
  ((hh.setEnd hlo hhi).setFree hlo false).insertRange hlo hnew

/-- The bytes that belong to the heap: its free ranges and the headers of the others. -/
def Range.Heaps (s : Range) (x : Nat) : Prop :=
  s.base ≤ x ∧ x < if s.free then s.stop else s.base + 24

theorem carve_refines {permanent : Bool} (hs : Shape h (xs ++ r :: ys) (us ++ r.base :: vs))
    (hl : Layout (xs ++ r :: ys) (us ++ r.base :: vs)) (hr : r.free = true)
    (hge : r.base ≤ lo) (hlt : lo < hi) (hfit : hi < r.stop) (hlo_dvd : 4 ∣ lo) (hhi_dvd : 4 ∣ hi)
    (hheader : permanent = false → lo + 24 ≤ hi)
    (hroom : r.stop - hi ≥ heapRangeSize → r.base + 24 ≤ hi) :
    ∃ stop rs' os', hi ≤ stop ∧ stop ≤ r.stop ∧ 4 ∣ stop ∧ stop < hi + heapRangeSize ∧
      Carved lo stop permanent (xs ++ r :: ys) (us ++ r.base :: vs) rs' os' ∧
      Shape (carve h r.base lo hi permanent) rs' os' ∧
      ∀ x, (∀ s ∈ xs ++ r :: ys, ¬s.Heaps x) → (carve h r.base lo hi permanent).mem x = h.mem x := by
  have hrvalid := hl.valid r (by simp)
  have hrstop := hrvalid.stop_lt
  have hvalid : ∀ s ∈ xs ++ r :: ys, s.base + 24 ≤ s.stop := fun s hs => (hl.valid s hs).room
  obtain ⟨hxs, hys⟩ := hl.middle
  obtain ⟨keepTail, hkeepTail⟩ : ∃ k, k = decide (r.stop - hi ≥ heapRangeSize) := ⟨_, rfl⟩
  obtain ⟨keepHead, hkeepHead⟩ : ∃ k, k = decide (lo - r.base ≥ heapRangeSize) := ⟨_, rfl⟩
  obtain ⟨stop, hstop⟩ : ∃ s, s = if keepTail then hi else r.stop := ⟨_, rfl⟩
  have hbounds : hi ≤ stop ∧ stop ≤ r.stop ∧ 4 ∣ stop ∧ stop < hi + heapRangeSize := by
    rw [hstop]
    by_cases htail : r.stop - hi ≥ heapRangeSize
    · rw [hkeepTail, decide_eq_true htail, if_pos rfl]
      exact ⟨le_rfl, hfit.le, hhi_dvd, Nat.lt_add_of_pos_right (by decide)⟩
    · rw [hkeepTail, decide_eq_false htail, if_neg Bool.false_ne_true]
      exact ⟨hfit.le, le_rfl, hrvalid.stop_dvd, by omega⟩
  have hcarved : Carved lo stop permanent (xs ++ r :: ys) (us ++ r.base :: vs)
      (xs ++ pieces r lo stop permanent keepHead keepTail ++ ys)
      (us ++ ((if keepHead then [r.base] else []) ++ (if keepTail then [stop] else [])) ++ vs) := by
    refine .mk hr hge hbounds.2.1 keepHead keepTail ?_ ?_ ?_
    · intro hkeep
      rw [hkeepHead, decide_eq_true_eq, heapRangeSize] at hkeep
      omega
    · intro hkeep
      rw [hkeep, if_pos rfl] at hstop
      rw [hkeepTail, decide_eq_true_eq, heapRangeSize] at hkeep
      omega
    · intro hkeep
      rw [hstop, hkeep]
      rfl
  have hl' := hcarved.layout hl hlo_dvd hbounds.2.2.1 (by omega) fun hperm => by
    have := hheader hperm
    omega
  -- the lists that the three steps leave
  obtain ⟨T, hT⟩ : ∃ T, T = if r.stop - hi ≥ heapRangeSize then [hi] else [] := ⟨_, rfl⟩
  obtain ⟨H, hH⟩ : ∃ H, H = if lo - r.base ≥ heapRangeSize then [r.base] else [] := ⟨_, rfl⟩
  have hT' : (if keepTail then [stop] else []) = T := by
    rw [hT, hstop, hkeepTail]
    simp only [decide_eq_true_eq]
    split <;> rfl
  have hH' : (if keepHead then [r.base] else []) = H := by
    rw [hH, hkeepHead]
    simp only [decide_eq_true_eq]
  have hT_mem : ∀ t ∈ T, t = hi ∧ r.stop - hi ≥ heapRangeSize := by
    rw [hT]
    split
    · exact List.forall_mem_singleton.2 ⟨rfl, ‹_›⟩
    · exact fun t ht => absurd ht List.not_mem_nil
  have hH_mem : ∀ t ∈ H, t = r.base ∧ lo - r.base ≥ heapRangeSize := by
    rw [hH]
    split
    · exact List.forall_mem_singleton.2 ⟨rfl, ‹_›⟩
    · exact fun t ht => absurd ht List.not_mem_nil
  have hbases : (xs ++ pieces r lo stop permanent keepHead keepTail ++ ys).map (·.base) =
      xs.map (·.base) ++ H ++ ((if permanent then [] else [lo]) ++ (T ++ ys.map (·.base))) := by
    simp only [List.map_append, pieces_map_base, hT', hH', List.append_assoc]
  rw [hT', hH'] at hcarved hl'
  obtain ⟨W, hW⟩ : ∃ W, W = (if permanent then [] else [lo]) ++ (T ++ (xs ++ r :: ys).map (·.base)) :=
    ⟨_, rfl⟩
  obtain ⟨stop₁, free₁, h1, hstop₁, hfree₁, htail, hend⟩ := carveTail_headers (W := W) hs hl hfit
    hroom hT fun b hb => by rw [hW]; exact List.mem_append_right _ hb
  obtain ⟨h2, hanchor⟩ := carveHead_headers h1 (show lo < 4294967296 by omega) H hH
  have hcarve : carve h r.base lo hi permanent =
      if permanent then (carveHead (carveTail h r.base hi).1 r.base lo).1
      else placeHeader (carveHead (carveTail h r.base hi).1 r.base lo).1
        ((xs.map (·.base) ++ H).getLastD 0) lo stop := by
    have hstop' : (carveTail h r.base hi).2 = stop := by
      rw [hend, hstop, hkeepTail]
      simp only [decide_eq_true_eq]
    simp only [carve, hanchor, hstop']
  -- what is written lies in the heap
  have hkeeps : ∀ x, (∀ s ∈ xs ++ r :: ys, ¬s.Heaps x) → ∀ b ∈ W, x < b + 0 ∨ b + 0 + 24 ≤ x := by
    intro x hx b hb
    have hxr := hx r (by simp)
    simp only [Range.Heaps, hr, if_true] at hxr
    rw [hW] at hb
    rcases List.mem_append.1 hb with hb | hb
    · cases hperm : permanent with
      | true =>
        rw [hperm] at hb
        cases hb
      | false =>
        rw [hperm] at hb
        have := hheader hperm
        rw [List.mem_singleton.1 hb]
        omega
    · rcases List.mem_append.1 hb with hb | hb
      · obtain ⟨rfl, htail⟩ := hT_mem b hb
        simp only [heapRangeSize] at htail
        omega
      · obtain ⟨s, hs, rfl⟩ := List.mem_map.1 hb
        have hxs := hx s hs
        have := hvalid s hs
        simp only [Range.Heaps] at hxs
        split at hxs <;> omega
  -- the fields of the ranges, before the header of the block
  obtain ⟨stop₂, hstop₂⟩ : ∃ f, f = if lo - r.base ≥ heapRangeSize then
    Function.update stop₁ r.base lo else stop₁ := ⟨_, rfl⟩
  rw [← hstop₂] at h2
  simp only [List.forall_mem_append, List.forall_mem_cons] at hstop₁ hfree₁
  have hother : ∀ b, b ≠ r.base → stop₂ b = stop₁ b := by
    intro b hb
    rw [hstop₂]
    split
    · rw [Function.update_of_ne hb]
    · rfl
  have hxs₂ : ∀ s ∈ xs, stop₂ s.base = s.stop := fun s hs => by
    rw [hother _ (hxs s hs).1.ne, hstop₁.1 s hs]
  have hys₂ : ∀ s ∈ ys, stop₂ s.base = s.stop := fun s hs => by
    rw [hother _ (hys s hs).1.ne', hstop₁.2.2 s hs]
  have hr₂ : keepHead = true → stop₂ r.base = lo := by
    intro hkeep
    rw [hkeepHead, decide_eq_true_eq] at hkeep
    rw [hstop₂, if_pos hkeep, Function.update_self]
  have htail₂ : keepTail = true → hi ∈ T ∧ stop = hi ∧ stop₂ hi = r.stop := by
    intro hkeep
    rw [hkeep, if_pos rfl] at hstop
    rw [hkeepTail, decide_eq_true_eq] at hkeep
    have hmem : hi ∈ T := by
      rw [hT, if_pos hkeep]
      exact List.mem_singleton_self hi
    exact ⟨hmem, hstop, by rw [hother hi (by omega), (htail hi hmem).1]⟩
  have hfree₂ : keepTail = true → free₁ stop = true := by
    intro hkeep
    obtain ⟨hmem, heq, -⟩ := htail₂ hkeep
    rw [heq]
    exact (htail hi hmem).2
  refine ⟨stop, _, _, hbounds.1, hbounds.2.1, hbounds.2.2.1, hbounds.2.2.2, hcarved, ?_⟩
  rw [hcarve]
  cases hperm : permanent with
  | true =>
    rw [hperm] at hbases hl'
    simp only [if_true, List.nil_append] at hbases ⊢
    have h3 := h2
    rw [← hbases, List.append_assoc us, ← List.append_assoc H, ← List.append_assoc us] at h3
    refine ⟨.of_headers hl' h3 (pieces_field hxs₂ hys₂ hr₂ nofun ?_)
      (pieces_field hfree₁.1 hfree₁.2.2 (fun _ => hfree₁.2.1) nofun fun hkeep => ?_),
      fun x hx => h2.keeps x (hkeeps x hx)⟩
    · intro hkeep
      rw [(htail₂ hkeep).2.1, (htail₂ hkeep).2.2]
    · rw [hfree₂ hkeep, hr]
  | false =>
    rw [hperm] at hbases hl' hW
    simp only [Bool.false_eq_true, if_false, List.singleton_append] at hbases hW ⊢
    generalize (carveHead (carveTail h r.base hi).1 r.base lo).1 = h₂ at h2 ⊢
    have hold : ∀ s ∈ xs ++ r :: ys, s.base ∈ T ++ (xs ++ r :: ys).map (·.base) :=
      fun s hs => List.mem_append_right _ (List.mem_map_of_mem hs)
    -- the header of `r` may be gone, and the one of the block is there
    have hnodup := hl'.bases_nodup
    rw [hbases] at hnodup
    have hnotin : lo ∉ xs.map (·.base) ++ H ++ (T ++ ys.map (·.base)) :=
      (List.nodup_cons.1 (List.nodup_middle.1 hnodup)).1
    have h3 := h2.reown hl'.apart
      (fun b hb => by rw [hbases]; exact List.perm_middle.mem_iff.2 (List.mem_cons_of_mem _ hb))
      (fun o ho => by
        obtain ⟨s, hs, -, rfl⟩ := (hl'.mem_iff o).1 (by simpa only [List.append_assoc] using ho)
        exact List.mem_map_of_mem hs)
      (fun b hb => by
        rw [hbases] at hb
        rw [hW]
        simp only [List.map_append, List.map_cons, List.mem_append, List.mem_cons] at hb ⊢
        have := hH_mem b
        grind)
    have h4 := placeHeader_headers h3 (by rw [hbases]; simp) hnotin (show stop < 4294967296 by omega)
    have hne : ∀ s ∈ xs ++ ys, s.base ≠ lo := by
      intro s hs
      rcases List.mem_append.1 hs with hs | hs
      · have := (hxs s hs).1
        omega
      · have := (hys s hs).2
        omega
    rw [← hbases, List.append_assoc us, ← List.append_assoc H, ← List.append_assoc us] at h4
    have hhead_ne : keepHead = true → r.base ≠ lo := by
      intro hkeep
      rw [hkeepHead, decide_eq_true_eq, heapRangeSize] at hkeep
      omega
    have htail_ne : stop ≠ lo := by omega
    have hstop₃ : ∀ b, b ∈ T ++ (xs ++ r :: ys).map (·.base) → b ≠ lo →
        Function.update h₂.rangeEnd lo stop b = stop₂ b := fun b hb hb' => by
      rw [Function.update_of_ne hb', h2.stop_eq b hb]
    have hfree₃ : ∀ b, b ∈ T ++ (xs ++ r :: ys).map (·.base) → b ≠ lo →
        Function.update h₂.isFree lo false b = free₁ b := fun b hb hb' => by
      rw [Function.update_of_ne hb', h2.free_eq b hb]
    have htail_mem : keepTail = true → stop ∈ T ++ (xs ++ r :: ys).map (·.base) := fun hkeep => by
      obtain ⟨hmem, heq, -⟩ := htail₂ hkeep
      exact List.mem_append_left _ (heq ▸ hmem)
    refine ⟨.of_headers hl' h4 (pieces_field (fun s hs => ?_) (fun s hs => ?_) (fun hkeep => ?_)
        (fun _ => Function.update_self ..) fun hkeep => ?_)
      (pieces_field (fun s hs => ?_) (fun s hs => ?_) (fun hkeep => ?_)
        (fun _ => Function.update_self ..) fun hkeep => ?_), fun x hx => h4.keeps x (hkeeps x hx)⟩
    · rw [hstop₃ _ (hold s (by simp [hs])) (hne s (by simp [hs])), hxs₂ s hs]
    · rw [hstop₃ _ (hold s (by simp [hs])) (hne s (by simp [hs])), hys₂ s hs]
    · rw [hstop₃ _ (hold r (by simp)) (hhead_ne hkeep), hr₂ hkeep]
    · rw [hstop₃ _ (htail_mem hkeep) htail_ne, (htail₂ hkeep).2.1, (htail₂ hkeep).2.2]
    · rw [hfree₃ _ (hold s (by simp [hs])) (hne s (by simp [hs])), hfree₁.1 s hs]
    · rw [hfree₃ _ (hold s (by simp [hs])) (hne s (by simp [hs])), hfree₁.2.2 s hs]
    · rw [hfree₃ _ (hold r (by simp)) (hhead_ne hkeep), hfree₁.2.1]
    · rw [hfree₃ _ (htail_mem hkeep) htail_ne, hfree₂ hkeep, hr]

/-- Where the block goes in a range that fits: nothing has wrapped. -/
theorem fits_bounds {size headExtra k range : Nat} (hk : k < 32) (hk2 : 2 ≤ k)
    (hrange : range ≠ 0 ∧ 4 ∣ range ∧ range + 24 ≤ h.rangeEnd range ∧ h.rangeEnd range < 4294967296)
    (hextra : headExtra = 0 ∨ headExtra = 24) (hsize : 0 < size ∧ 4 ∣ size)
    (hsize_lt : size + headExtra < 4294967296)
    (hfits : fits h size (2 ^ k) headExtra range = true) :
    ∃ lo, valueBase range (2 ^ k) headExtra = lo + headExtra ∧
      sub32 (valueBase range (2 ^ k) headExtra) headExtra = lo ∧
      add32 (valueBase range (2 ^ k) headExtra) size = lo + headExtra + size ∧
      range ≤ lo ∧ lo + headExtra + size < h.rangeEnd range ∧ 4 ∣ lo ∧
      2 ^ k ∣ lo + headExtra := by
  have hfour : 4 ∣ 2 ^ k := pow_dvd_pow 2 hk2
  have hsum : add32 range headExtra = range + headExtra := by
    unfold add32
    omega
  have hdvd := alignUp_dvd hk (show range + headExtra < 4294967296 by omega)
  have hge := alignUp_ge hk (show range + headExtra < 4294967296 by omega)
  have hlt := alignUp_lt (range + headExtra) (2 ^ k)
  simp only [fits, valueBase, hsum, decide_eq_true_eq, not_or, not_lt, ge_iff_le, not_le] at hfits ⊢
  generalize alignUp (range + headExtra) (2 ^ k) = value at hdvd hge hlt hfits ⊢
  obtain ⟨hend, hbase, hstop⟩ := hfits
  have h4 : 4 ∣ value := hfour.trans hdvd
  -- a value that wrapped to 0 lies before the range, or ends before it starts
  have hvalue : value ≠ 0 := by
    rintro rfl
    simp only [sub32, add32] at hend hbase
    omega
  have hge := (hge hvalue).1
  have hsub : sub32 value headExtra = value - headExtra := by
    unfold sub32
    omega
  have hadd : add32 value size = value + size := by
    rw [hsub] at hend
    unfold add32 at hend ⊢
    omega
  rw [hsub] at hbase
  rw [hadd] at hstop
  refine ⟨value - headExtra, by omega, hsub, by omega, hbase, by omega, by omega, ?_⟩
  rwa [Nat.sub_add_cancel (by omega)]

/-- The header behind a permanent block would overlap the header of the range that the block is
taken from: the block ends within it, and enough is left. -/
def cramped (h : Heap) (size alignment : Nat) : Bool :=
  let alignment := if alignment < heapAlignment then heapAlignment else alignment
  let size := alignUp size heapAlignment
  match firstFit h size alignment 0 with
  | .ok (some range) =>
    let allocEnd := add32 (valueBase range alignment 0) size
    h.rangeEnd range - allocEnd ≥ heapRangeSize ∧ allocEnd < range + heapRangeSize
  | _ => false

/-- The block is in a free range, which it leaves the way `carve` does. -/
theorem blAllocateHeap_cases {size k headExtra : Nat} {permanent : Bool} (hs : Shape h rs os)
    (hl : Layout rs os) (hsize : 0 < size) (hsize_lt : size + 3 < 4294967296) (hk : k < 32)
    (hheader : permanent = false → size + 27 < 4294967296)
    (hextra : headExtra = if permanent then 0 else heapRangeSize) :
    blAllocateHeap h size (2 ^ k) permanent = .error (.crash "out of memory") ∨
    ∃ r ∈ rs, ∃ lo, r.free = true ∧
      blAllocateHeap h size (2 ^ k) permanent =
        .ok (carve h r.base lo (lo + headExtra + roundUp size) permanent, lo + headExtra) ∧
      r.base ≤ lo ∧ lo + headExtra + roundUp size < r.stop ∧ 4 ∣ lo ∧ 2 ^ k ∣ lo + headExtra ∧
      (permanent = true → cramped h size (2 ^ k) = false →
        r.stop - (lo + headExtra + roundUp size) ≥ heapRangeSize →
          r.base + 24 ≤ lo + headExtra + roundUp size) := by
  -- the alignment that is used
  have halign : (if 2 ^ k < heapAlignment then heapAlignment else 2 ^ k) = 2 ^ max k 2 := by
    rcases lt_or_ge k 2 with hlt | hge
    · have hpow : 2 ^ k < 2 ^ 2 := Nat.pow_lt_pow_right (by decide) hlt
      rw [max_eq_right hlt.le, if_pos (show 2 ^ k < heapAlignment from hpow)]
      rfl
    · have hpow : 2 ^ 2 ≤ 2 ^ k := Nat.pow_le_pow_right (by decide) hge
      rw [max_eq_left hge, if_neg (show ¬2 ^ k < heapAlignment from not_lt.2 hpow)]
  have hextra' : headExtra = 0 ∨ headExtra = 24 := by
    rw [hextra]
    cases permanent
    · exact .inr rfl
    · exact .inl rfl
  have hup : alignUp size heapAlignment = roundUp size := alignUp_four hsize_lt
  have hround : 0 < roundUp size ∧ 4 ∣ roundUp size ∧ roundUp size ≤ size + 3 := by
    unfold roundUp
    omega
  simp only [blAllocateHeap, cramped, halign, ← hextra, hup, hs.firstFit_eq]
  generalize roundUp size = size' at hround ⊢
  rw [if_neg (by omega)]
  cases hfind : os.find? (fits h size' (2 ^ max k 2) headExtra) with
  | none => exact .inl rfl
  | some range =>
    have hfits := List.find?_some hfind
    obtain ⟨r, hr, hfree, rfl⟩ := (hl.mem_iff range).1 (List.mem_of_find?_eq_some hfind)
    have hvalid := hl.valid r hr
    have hend := hs.stop_eq r hr
    have hsize_extra : size' + headExtra < 4294967296 := by
      rw [hextra]
      cases hperm : permanent with
      | true =>
        simp only [if_true]
        omega
      | false =>
        have := hheader hperm
        simp only [Bool.false_eq_true, if_false, heapRangeSize]
        omega
    obtain ⟨lo, hvalue, hsub, hadd, hge, hstop, hlo_dvd, hdvd⟩ := fits_bounds (by omega)
      (le_max_right k 2)
      ⟨hvalid.pos, hvalid.base_dvd, by rw [hend]; exact hvalid.room, by rw [hend]; exact hvalid.stop_lt⟩
      hextra' ⟨by omega, by omega⟩ hsize_extra hfits
    rw [hend] at hstop
    refine .inr ⟨r, hr, lo, hfree, ?_, hge, hstop, hlo_dvd,
      (pow_dvd_pow 2 (le_max_left k 2)).trans hdvd, fun hperm hroom htail => ?_⟩
    · show Except.ok (carve h r.base (sub32 (valueBase r.base (2 ^ max k 2) headExtra) headExtra)
        (add32 (valueBase r.base (2 ^ max k 2) headExtra) size') permanent,
        valueBase r.base (2 ^ max k 2) headExtra) = _
      rw [hsub, hadd, hvalue]
    · have hextra0 : headExtra = 0 := by rw [hextra, hperm]; rfl
      rw [hextra0] at hfind hadd htail ⊢
      simp only [heapRangeSize, hfind, hadd, hend, decide_eq_false_iff_not] at htail hroom
      omega

theorem blAllocateHeap_refines {size k : Nat} {permanent : Bool} (hs : Shape h rs os)
    (hl : Layout rs os) (hsize : 0 < size) (hsize_lt : size + 3 < 4294967296) (hk : k < 32)
    (hheader : permanent = false → size + 27 < 4294967296)
    (hroom : permanent = true → cramped h size (2 ^ k) = false) :
    blAllocateHeap h size (2 ^ k) permanent = .error (.crash "out of memory") ∨
    ∃ h' lo stop rs' os',
      blAllocateHeap h size (2 ^ k) permanent = .ok (h', if permanent then lo else lo + 24) ∧
      (if permanent then lo else lo + 24) + size ≤ stop ∧
      stop < (if permanent then lo else lo + 24) + roundUp size + 24 ∧ 4 ∣ lo ∧ 4 ∣ stop ∧
      2 ^ k ∣ (if permanent then lo else lo + 24) ∧ Carved lo stop permanent rs os rs' os' ∧
      Shape h' rs' os' ∧ ∀ x, (∀ s ∈ rs, ¬s.Heaps x) → h'.mem x = h.mem x := by
  obtain ⟨headExtra, hextra⟩ : ∃ e, e = if permanent then 0 else heapRangeSize := ⟨_, rfl⟩
  rcases blAllocateHeap_cases hs hl hsize hsize_lt hk hheader hextra with
    hcrash | ⟨r, hr, lo, hfree, hcall, hge, hstop, hlo_dvd, hdvd, hcramped⟩
  · exact .inl hcrash
  have hround : size ≤ roundUp size ∧ 4 ∣ roundUp size := by
    unfold roundUp
    omega
  have hptr : (if permanent then lo else lo + 24) = lo + headExtra := by
    rw [hextra]
    cases permanent <;> rfl
  have hheader' : permanent = false → headExtra = 24 := by
    rintro rfl
    exact hextra
  have hextra_dvd : 4 ∣ headExtra := by
    rw [hextra]
    cases permanent <;> decide
  have hroom' : r.stop - (lo + headExtra + roundUp size) ≥ heapRangeSize →
      r.base + 24 ≤ lo + headExtra + roundUp size := by
    intro htail
    cases hperm : permanent with
    | true => exact hcramped hperm (hroom hperm) htail
    | false =>
      have := hheader' hperm
      omega
  obtain ⟨xs, ys, rfl⟩ := List.append_of_mem hr
  obtain ⟨us, vs, rfl⟩ := hl.exists_order (by simp) hfree
  obtain ⟨stop, rs', os', hhi, -, hstop_dvd, hstop_lt, hcarved, hshape, hkeeps⟩ :=
    carve_refines hs hl hfree hge
      (show lo < lo + headExtra + roundUp size by omega) hstop hlo_dvd (by omega)
      (fun hperm => by have := hheader' hperm; omega) hroom'
  simp only [heapRangeSize] at hstop_lt
  exact .inr ⟨_, lo, stop, rs', os', by rw [hptr]; exact hcall, by omega, by omega, hlo_dvd,
    hstop_dvd, by rw [hptr]; exact hdvd, hcarved, hshape, hkeeps⟩

end

end

end XrLinux.Bootloader
