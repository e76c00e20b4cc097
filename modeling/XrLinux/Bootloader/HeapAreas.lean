import XrLinux.Lib.Intervals
import XrLinux.Bootloader.HeapRuns

/-!
# Bootloader — the areas of the heap, in any order

`BlAddHeapRange` called for one area after the other, on a heap from which nothing is taken.
`covered` says which bytes the areas leave in the heap, whatever the order; the ranges are then
the canonical list of intervals that covers them. `Heap.Placed` is what an area must be for the
call to see both of its neighbours: with no range below it the one behind is not looked at, and
one that reaches behind the next range is cut there for good.
-/

namespace XrLinux.Bootloader

open Intervals

/-- The first multiple of the alignment in the area, and the last one up to its end. -/
def Area.lo (a : Area) : Nat := a.base + 3 - (a.base + 3) % 4

def Area.hi (a : Area) : Nat := a.base + a.size - (a.base + a.size) % 4

def Heap.rangeAt (h : Heap) (range : Nat) : Range :=
  { base := range, stop := h.rangeEnd range, free := h.isFree range }

/-- The ranges of `BlHeapRanges`, by its links. -/
def Heap.ranges (h : Heap) : List Range :=
  match foreach h.next (fun range rs => .yield (rs ++ [h.rangeAt range])) rounds
      (container 0 h.heapRanges.head) [] with
  | .ok rs => rs
  | .error _ => []

def addAreas (h : Heap) (areas : List Area) : Except Stop Heap :=
  areas.foldlM (fun h a => blAddHeapRange h a.base a.size) h

/-- Either nothing is left of the area after rounding, or it starts above the first range or ends
before it, and ends at the latest where the next range does. -/
def Heap.Placed (h : Heap) (a : Area) : Prop :=
  if a.hi ≤ a.lo then a.base + 3 < 4294967296 ∨ a.base + a.size = 4294967296
  else a.base + a.size < 4294967296 ∧ (a.base ≠ 0 ∨ a.hi < heapRangeSize) ∧
    ((∃ r ∈ h.ranges, r.base < a.lo) ∨ ∀ r ∈ h.ranges, a.hi < r.base) ∧
    ∀ r ∈ h.ranges, a.lo ≤ r.base → a.hi ≤ r.stop

instance Heap.decidablePlaced (h : Heap) : DecidablePred h.Placed := by
  intro a
  unfold Heap.Placed
  infer_instance

/-- Each of the areas, on the heap that the ones before it leave. -/
def Heap.placedAll (h : Heap) : List Area → Bool
  | [] => true
  | a :: areas =>
    decide (h.Placed a) &&
      match blAddHeapRange h a.base a.size with
      | .ok h => h.placedAll areas
      | .error _ => true

/-! ## What the areas cover -/

/-- With the area as well: too small a piece is dropped, unless it meets what is there. -/
def grow (S : Set Nat) (a : Area) : Set Nat :=
  {x | x ∈ S ∨ (heapRangeSize ≤ a.hi - a.lo ∨ ∃ y ∈ S, a.lo ≤ y + 1 ∧ y ≤ a.hi) ∧
    a.lo ≤ x ∧ x < a.hi}

def covered (areas : List Area) : Set Nat := areas.foldl grow ∅

/-- Nothing of the area is too small for a header. -/
def Area.Large (a : Area) : Prop := a.lo < a.hi → heapRangeSize ≤ a.hi - a.lo

instance Area.decidableLarge : DecidablePred Area.Large := by
  intro a
  unfold Area.Large
  infer_instance

theorem mem_foldl_grow {S : Set Nat} {areas : List Area} (hlarge : ∀ a ∈ areas, a.Large) {x : Nat} :
    x ∈ areas.foldl grow S ↔ x ∈ S ∨ ∃ a ∈ areas, a.lo ≤ x ∧ x < a.hi := by
  induction areas generalizing S with
  | nil => simp
  | cons a areas ih =>
    rw [List.foldl_cons, ih fun b hb => hlarge b (List.mem_cons_of_mem _ hb)]
    have hgrow : x ∈ grow S a ↔ x ∈ S ∨ a.lo ≤ x ∧ x < a.hi := by
      constructor
      · rintro (hx | ⟨-, hx⟩)
        · exact .inl hx
        · exact .inr hx
      · rintro (hx | hx)
        · exact .inl hx
        · exact .inr ⟨.inl (hlarge a List.mem_cons_self (by omega)), hx⟩
    rw [hgrow, List.exists_mem_cons_iff, or_assoc]

/-- Bytes that are covered already, or a piece that is dropped. -/
theorem grow_of_subset {S : Set Nat} {a : Area}
    (h : heapRangeSize ≤ a.hi - a.lo ∨ (∃ y ∈ S, a.lo ≤ y + 1 ∧ y ≤ a.hi) →
      ∀ x, a.lo ≤ x → x < a.hi → x ∈ S) : grow S a = S := by
  ext x
  constructor
  · rintro (hx | ⟨hmeets, hlo, hhi⟩)
    · exact hx
    · exact h hmeets x hlo hhi
  · exact .inl

/-- Large areas leave their union. -/
theorem mem_covered {areas : List Area} (hlarge : ∀ a ∈ areas, a.Large) {x : Nat} :
    x ∈ covered areas ↔ ∃ a ∈ areas, a.lo ≤ x ∧ x < a.hi := by
  unfold covered
  rw [mem_foldl_grow hlarge]
  simp

theorem covered_perm {areas areas' : List Area} (hperm : areas.Perm areas')
    (hlarge : ∀ a ∈ areas, a.Large) : covered areas = covered areas' := by
  ext x
  rw [mem_covered hlarge, mem_covered fun a ha => hlarge a (hperm.mem_iff.2 ha)]
  simp only [hperm.mem_iff]

/-! ## A heap that covers a set -/

/-- The lists hold the free ranges `rs`, in order and with gaps between them, and these cover
`S`. -/
structure Covering (h : Heap) (rs : List Range) (os : List Nat) (S : Set Nat) : Prop where
  shape : Shape h rs os
  layout : Layout rs os
  allFree : ∀ r ∈ rs, r.free = true
  separated : rs.Pairwise fun r s => r.stop < s.base
  covers : ∀ x, (∃ r ∈ rs, r.Contains x) ↔ x ∈ S

section
variable {h h' : Heap} {rs rs' : List Range} {os os' : List Nat} {S : Set Nat}

theorem foreachList_map {α β : Type*} (f : Nat → β) (g : α → Nat) (as : List α) (bs : List β) :
    foreachList (fun r bs => .yield (bs ++ [f r])) (as.map g) bs = bs ++ as.map fun a => f (g a) := by
  induction as generalizing bs with
  | nil => simp [foreachList]
  | cons a as ih =>
    show foreachList _ (as.map g) (bs ++ [f (g a)]) = _
    rw [ih, List.map_cons, List.append_assoc, List.singleton_append]

theorem Shape.ranges_eq (hs : Shape h rs os) : h.ranges = rs := by
  unfold Heap.ranges
  rw [hs.foreach_ranges, foreachList_map]
  show [] ++ rs.map _ = rs
  rw [List.nil_append]
  refine (List.map_congr_left fun r hr => ?_).trans (List.map_id rs)
  show h.rangeAt r.base = r
  unfold Heap.rangeAt
  rw [hs.stop_eq r hr, hs.free_eq r hr]

theorem covers_map_iff {x : Nat} :
    Covers (rs.map fun r => (r.base, r.stop)) x ↔ ∃ r ∈ rs, r.Contains x := by
  simp [Covers, Range.Contains]

theorem Covering.canonical (hc : Covering h rs os S) :
    Canonical (rs.map fun r => (r.base, r.stop)) where
  proper i hi := by
    obtain ⟨r, hr, rfl⟩ := List.mem_map.1 hi
    have := (hc.layout.valid r hr).room
    show r.base < r.stop
    omega
  separated := List.pairwise_map.2 hc.separated

/-- The set determines the ranges. -/
theorem Covering.ranges_unique (hc : Covering h rs os S) (hc' : Covering h' rs' os' S) :
    rs = rs' := by
  have hspans : rs.map (fun r => (r.base, r.stop)) = rs'.map fun r => (r.base, r.stop) := by
    refine hc.canonical.eq_of_covers hc'.canonical fun x => ?_
    rw [covers_map_iff, covers_map_iff, hc.covers, hc'.covers]
  have hall : ∀ ts : List Range, (∀ r ∈ ts, r.free = true) →
      (ts.map fun r => (r.base, r.stop)).map
        (fun i => ({ base := i.1, stop := i.2, free := true } : Range)) = ts := by
    intro ts hfree
    rw [List.map_map]
    refine (List.map_congr_left fun r hr => ?_).trans (List.map_id ts)
    rw [Function.comp_apply, ← hfree r hr]
    rfl
  rw [← hall rs hc.allFree, hspans, hall rs' hc'.allFree]

/-! ## One area -/

section
variable {base stop : Nat}

theorem exists_contains_append {rs ss : List Range} {x : Nat} :
    (∃ r ∈ rs ++ ss, r.Contains x) ↔ (∃ r ∈ rs, r.Contains x) ∨ ∃ r ∈ ss, r.Contains x := by
  simp only [List.mem_append, or_and_right, exists_or]

theorem Added.covers (hadd : Added base stop rs os rs' os') (hl : Layout rs os) (hlt : base < stop)
    (x : Nat) : (∃ r ∈ rs', r.Contains x) ↔
      (∃ r ∈ rs, r.Contains x) ∨ base ≤ x ∧ x < stop := by
  have hroom : ∀ r ∈ rs, r.base < r.stop := fun r hr => by have := (hl.valid r hr).room; omega
  cases hadd <;>
    simp only [exists_contains_append, List.exists_mem_cons_iff, List.forall_mem_append,
      List.forall_mem_cons] at hroom ⊢ <;> grind [Range.Contains]

theorem Added.allFree (hadd : Added base stop rs os rs' os') (hfree : ∀ r ∈ rs, r.free = true) :
    ∀ r ∈ rs', r.free = true := by
  cases hadd <;> simp only [List.forall_mem_append, List.forall_mem_cons] at hfree ⊢ <;> grind

theorem Covering.added (hc : Covering h rs os S) (hadd : Added base stop rs os rs' os')
    (hs' : Shape h' rs' os') (hl' : Layout rs' os') (hlt : base < stop)
    (hsep : rs'.Pairwise fun r s => r.stop < s.base) :
    Covering h' rs' os' {x | x ∈ S ∨ base ≤ x ∧ x < stop} where
  shape := hs'
  layout := hl'
  allFree := hadd.allFree hc.allFree
  separated := hsep
  covers x := by
    rw [hadd.covers hc.layout hlt, hc.covers]
    rfl

variable {xs ys : List Range}

/-- A piece that overlaps none of the ranges. -/
theorem Covering.addBetween (hc : Covering h (xs ++ ys) os S) (hbase : base ≠ 0 ∨ stop < 24)
    (hbase_dvd : 4 ∣ base) (hstop_dvd : 4 ∣ stop) (hlt : base < stop) (hstop : stop < 4294967296)
    (hxs : ∀ r ∈ xs, r.stop ≤ base) (hys : ∀ r ∈ ys, stop ≤ r.base)
    (hfirst : xs = [] → ∀ r ∈ ys, stop < r.base)
    (hh' : h' = addBetween h ((xs.map (·.base)).getLastD 0)
        (if (xs.map (·.base)).getLastD 0 ≠ 0 then (ys.map (·.base)).headD 0 else 0) base stop) :
    (24 ≤ stop - base ∨ (∃ r ∈ xs, r.stop = base) ∨ ∃ r ∈ ys, r.base = stop) ∧
      (∃ rs' os', Covering h' rs' os' {x | x ∈ S ∨ base ≤ x ∧ x < stop}) ∨
      h' = h ∧ stop - base < 24 ∧ (∀ r ∈ xs, r.stop < base) ∧ ∀ r ∈ ys, stop < r.base := by
  have hs := hc.shape
  have hl := hc.layout
  have hsep := hc.separated
  have hroom : ∀ r ∈ xs ++ ys, r.base + 24 ≤ r.stop := fun r hr => (hl.valid r hr).room
  have hbase0 : xs ≠ [] → base ≠ 0 := by
    intro hne
    obtain ⟨r, hr⟩ := List.exists_mem_of_ne_nil xs hne
    have := hxs r hr
    have := hroom r (by simp [hr])
    omega
  have hassoc : ∀ xs₀ (p : Range) zs, xs₀ ++ [p] ++ zs = xs₀ ++ p :: zs := fun _ _ zs => by simp
  rcases addBetween_cases hs hl hlt hxs hys hh' with
    ⟨xs₀, p, q, ys, rfl, rfl, hp, hq, heq⟩ | ⟨xs₀, p, rfl, hp, hys', heq⟩ |
      ⟨q, ys, h₁, h₂, hne, rfl, hxs', hq, hh₁, hh₂, heq⟩ | ⟨hxs', hys', heq⟩
  · obtain ⟨us, vs, rfl⟩ := hl.exists_order (r := q) (by simp) hq.1
    rw [hassoc] at hc hs hl hsep
    have hadd : Added base stop (xs₀ ++ p :: q :: ys) (us ++ q.base :: vs)
        (xs₀ ++ { p with stop := q.stop } :: ys) (us ++ vs) := .both hp.1 hq.1 hp.2 hq.2
    have hl' := hadd.layout hl (hbase0 (by simp)) hbase_dvd hstop_dvd hlt hstop
    refine .inl ⟨.inr (.inl ⟨p, by simp, hp.2⟩), _, _,
      hc.added hadd (heq ▸ (addBoth_shape hs hl hl').1) hl' hlt ?_⟩
    simp only [List.pairwise_append, List.pairwise_cons, List.forall_mem_cons] at hsep ⊢
    grind
  · rw [hassoc] at hc hs hl hsep
    have hadd : Added base stop (xs₀ ++ p :: ys) os (xs₀ ++ { p with stop := stop } :: ys) os :=
      .prev hp.1 hp.2 hys
    have hl' := hadd.layout hl (hbase0 (by simp)) hbase_dvd hstop_dvd hlt hstop
    have hfree := hc.allFree
    refine .inl ⟨.inr (.inl ⟨p, by simp, hp.2⟩), _, _,
      hc.added hadd (heq ▸ (addPrev_shape hs hl').1) hl' hlt ?_⟩
    simp only [List.pairwise_append, List.pairwise_cons, List.forall_mem_cons,
      List.forall_mem_append] at hsep hfree ⊢
    grind
  · obtain ⟨us, vs, rfl⟩ := hl.exists_order (r := q) (by simp) hq.1
    have hadd : Added base stop (xs ++ q :: ys) (us ++ q.base :: vs)
        (xs ++ { q with base := base } :: ys) (base :: (us ++ vs)) := .next hxs hq.1 hq.2
    have hl' := hadd.layout hl (hbase0 hne) hbase_dvd hstop_dvd hlt hstop
    have hfree := hc.allFree
    refine .inl ⟨.inr (.inr ⟨q, by simp, hq.2⟩), _, _,
      hc.added hadd (heq ▸ (addNext_shape hs hq.1 hl' hh₁ hh₂).1) hl' hlt ?_⟩
    simp only [List.pairwise_append, List.pairwise_cons, List.forall_mem_cons,
      List.forall_mem_append] at hsep hfree ⊢
    grind
  · have hfree := hc.allFree
    have hxs_lt : ∀ r ∈ xs, r.stop < base := fun r hr =>
      lt_of_le_of_ne (hxs r hr) (hxs' r hr (hfree r (by simp [hr])))
    have hys_lt : ∀ r ∈ ys, stop < r.base := by
      intro r hr
      by_cases hne : xs = []
      · exact hfirst hne r hr
      · exact lt_of_le_of_ne (hys r hr) (hys' hne r hr (hfree r (by simp [hr]))).symm
    by_cases hroom' : stop - base < heapRangeSize
    · rw [if_pos hroom'] at heq
      exact .inr ⟨heq, hroom', hxs_lt, hys_lt⟩
    · rw [if_neg hroom'] at heq
      simp only [heapRangeSize] at hroom'
      have hadd : Added base stop (xs ++ ys) os
          (xs ++ { base := base, stop := stop, free := true } :: ys) (base :: os) :=
        .fresh (fun r hr => ⟨hxs r hr, fun _ => (hxs_lt r hr).ne⟩) hys (by omega)
      have hl' := hadd.layout hl (by omega) hbase_dvd hstop_dvd hlt hstop
      refine .inl ⟨.inl (by omega), _, _,
        hc.added hadd (heq ▸ (addFresh_shape hs hl').1) hl' hlt ?_⟩
      obtain ⟨hxs₀, hys₀, hall⟩ := List.pairwise_append.1 hsep
      refine List.pairwise_append.2 ⟨hxs₀, List.pairwise_cons.2 ⟨hys_lt, hys₀⟩, fun r hr => ?_⟩
      exact List.forall_mem_cons.2 ⟨hxs_lt r hr, hall r hr⟩

/-- The ends are clipped once. -/
theorem addBetween_clip {prev next base' stop' : Nat}
    (hbase' : base' = if prev ≠ 0 ∧ h.rangeEnd prev > base then h.rangeEnd prev else base)
    (hstop' : stop' = if next ≠ 0 ∧ stop > next then next else stop) :
    addBetween h prev next base stop = addBetween h prev next base' stop' := by
  have hbase : (if prev ≠ 0 ∧ h.rangeEnd prev > base' then h.rangeEnd prev else base') = base' := by
    rw [hbase']
    grind
  have hstop : (if next ≠ 0 ∧ stop' > next then next else stop') = stop' := by
    rw [hstop']
    grind
  unfold addBetween
  rw [hbase, hstop, ← hbase', ← hstop']

/-- Nothing is left of the piece. -/
theorem addBetween_nothing {prev next base' stop' : Nat}
    (hbase' : base' = if prev ≠ 0 ∧ h.rangeEnd prev > base then h.rangeEnd prev else base)
    (hstop' : stop' = if next ≠ 0 ∧ stop > next then next else stop) (hle : stop' ≤ base') :
    addBetween h prev next base stop = h := by
  unfold addBetween
  rw [← hbase', ← hstop']
  exact if_pos hle

/-- Where the piece starts that the ranges below the area leave of it. -/
theorem Covering.clip_before (hc : Covering h (xs ++ ys) os S) {lo : Nat} (hlo : 4 ∣ lo) :
    ∃ base, base = (if (xs.map (·.base)).getLastD 0 ≠ 0 ∧
        h.rangeEnd ((xs.map (·.base)).getLastD 0) > lo then
        h.rangeEnd ((xs.map (·.base)).getLastD 0) else lo) ∧
      lo ≤ base ∧ 4 ∣ base ∧ (xs = [] → base = lo) ∧
      ((∀ r ∈ xs, r.base < lo) → ∀ r ∈ xs, r.stop ≤ base) ∧
      (base = lo ∨ ∃ r ∈ xs, r.stop = base) := by
  refine ⟨_, rfl, ?_⟩
  rcases List.eq_nil_or_concat xs with rfl | ⟨xs₀, p, rfl⟩
  · simp [hlo]
  · simp only [List.concat_eq_append] at *
    have hl : Layout (xs₀ ++ p :: ys) os := by simpa using hc.layout
    have hp := hl.valid p (by simp)
    have hprev : ((xs₀ ++ [p]).map (·.base)).getLastD 0 = p.base := by simp
    rw [hprev, hc.shape.stop_eq p (by simp)]
    -- the ranges before `p` end before it
    have hbefore : ∀ base, lo ≤ base → p.stop ≤ base →
        (∀ r ∈ xs₀ ++ [p], r.base < lo) → ∀ r ∈ xs₀ ++ [p], r.stop ≤ base := by
      intro base hlo_le hle hall r hr
      rcases List.mem_append.1 hr with hr | hr
      · have := (hl.middle.1 r hr).2
        have := hall p (by simp)
        omega
      · rw [List.mem_singleton.1 hr]
        exact hle
    by_cases hgt : p.stop > lo
    · rw [if_pos ⟨hp.pos, hgt⟩]
      exact ⟨hgt.le, hp.stop_dvd, by simp, hbefore _ hgt.le le_rfl, .inr ⟨p, by simp, rfl⟩⟩
    · rw [if_neg fun hboth => hgt hboth.2]
      exact ⟨le_rfl, hlo, fun _ => rfl, hbefore _ le_rfl (not_lt.1 hgt), .inl rfl⟩

/-- Where the piece ends that the range behind the area leaves of it. -/
theorem Covering.clip_behind (hc : Covering h (xs ++ ys) os S) {hi : Nat} (hhi : 4 ∣ hi)
    (hfirst : xs = [] → ∀ r ∈ ys, hi < r.base) (hcut : ∀ r ∈ ys, hi ≤ r.stop) :
    ∃ stop, stop = (if (if (xs.map (·.base)).getLastD 0 ≠ 0 then (ys.map (·.base)).headD 0 else 0) ≠ 0 ∧
        hi > (if (xs.map (·.base)).getLastD 0 ≠ 0 then (ys.map (·.base)).headD 0 else 0) then
        (if (xs.map (·.base)).getLastD 0 ≠ 0 then (ys.map (·.base)).headD 0 else 0) else hi) ∧
      stop ≤ hi ∧ 4 ∣ stop ∧ (∀ r ∈ ys, stop ≤ r.base) ∧ (xs = [] → ∀ r ∈ ys, stop < r.base) ∧
      (stop = hi ∨ ∃ r ∈ ys, r.base = stop ∧ hi ≤ r.stop) := by
  refine ⟨_, rfl, ?_⟩
  rcases List.eq_nil_or_concat xs with rfl | ⟨xs₀, p, rfl⟩
  · have hall := hfirst rfl
    simp only [List.map_nil, List.getLastD_nil, ne_eq, not_true_eq_false, if_false, false_and]
    exact ⟨le_rfl, hhi, fun r hr => (hall r hr).le, fun _ => hall, .inl trivial⟩
  · simp only [List.concat_eq_append] at *
    have hp0 : p.base ≠ 0 := (hc.layout.valid p (by simp)).pos
    have hprev : ((xs₀ ++ [p]).map (·.base)).getLastD 0 = p.base := by simp
    rw [hprev, if_pos hp0]
    cases ys with
    | nil => simp [hhi]
    | cons q ys =>
      have hl : Layout (xs₀ ++ [p] ++ q :: ys) os := hc.layout
      have hq := hl.valid q (by simp)
      have hbehind : ∀ stop, stop ≤ q.base → ∀ r ∈ q :: ys, stop ≤ r.base :=
        fun stop hle => List.forall_mem_cons.2 ⟨hle, fun r hr => hle.trans (hl.middle.2 r hr).1.le⟩
      rw [List.map_cons, List.headD_cons]
      by_cases hgt : hi > q.base
      · rw [if_pos ⟨hq.pos, hgt⟩]
        exact ⟨hgt.le, hq.base_dvd, hbehind _ le_rfl, by simp,
          .inr ⟨q, by simp, rfl, hcut q (by simp)⟩⟩
      · rw [if_neg fun hboth => hgt hboth.2]
        exact ⟨le_rfl, hhi, hbehind _ (not_lt.1 hgt), by simp, .inl rfl⟩

end

/-- With nothing left after rounding, the heap stays as it is. -/
theorem blAddHeapRange_empty {a : Area} (h : Heap) (ha : a.base + a.size ≤ 4294967296)
    (hempty : a.hi ≤ a.lo) (hplaced : a.base + 3 < 4294967296 ∨ a.base + a.size = 4294967296) :
    blAddHeapRange h a.base a.size = .ok h := by
  unfold Area.hi Area.lo at hempty
  have hdown := alignDown_four (x := add32 a.base a.size) (Nat.mod_lt _ (by decide))
  suffices hle : alignDown (add32 a.base a.size) heapAlignment ≤ alignUp a.base heapAlignment from
    if_pos hle
  rw [hdown]
  rcases hplaced with hlt | heq
  · rw [alignUp_four hlt]
    unfold add32
    omega
  · -- the end of the address space wraps to 0
    rw [add32, heq, Nat.mod_self]
    exact Nat.zero_le _

theorem Covering.add (hc : Covering h rs os S) {a : Area} (ha : a.base + a.size ≤ 4294967296)
    (hplaced : h.Placed a) :
    ∃ h' rs' os', blAddHeapRange h a.base a.size = .ok h' ∧ Covering h' rs' os' (grow S a) := by
  unfold Heap.Placed at hplaced
  by_cases hempty : a.hi ≤ a.lo
  · rw [if_pos hempty] at hplaced
    have hsame : grow S a = S := grow_of_subset fun _ x hlo hlt => absurd (hlo.trans_lt hlt) (by omega)
    exact ⟨h, rs, os, blAddHeapRange_empty h ha hempty hplaced, by rw [hsame]; exact hc⟩
  · rw [if_neg hempty, hc.shape.ranges_eq] at hplaced
    obtain ⟨hwrap, hzero, hfirst, hcut⟩ := hplaced
    have hlo : 4 ∣ a.lo := Nat.dvd_sub_mod _
    have hhi : 4 ∣ a.hi := Nat.dvd_sub_mod _
    have hbounds : a.hi < 4294967296 ∧ a.base ≤ a.lo ∧ a.base + 3 < 4294967296 ∧
        (a.base ≠ 0 → a.lo ≠ 0) := by
      clear hzero hfirst hcut
      unfold Area.hi Area.lo at *
      omega
    obtain ⟨xs, ys, rfl, hxs, hys⟩ := hc.layout.exists_split a.lo
    have hup : alignUp a.base heapAlignment = a.lo := alignUp_four hbounds.2.2.1
    have hdown : alignDown (add32 a.base a.size) heapAlignment = a.hi := by
      rw [show add32 a.base a.size = a.base + a.size from Nat.mod_eq_of_lt hwrap]
      exact alignDown_four hwrap
    have hcall := hc.shape.blAddHeapRange_eq hup hdown (by omega) hxs hys
    have hfirst' : xs = [] → ∀ r ∈ ys, a.hi < r.base := by
      rintro rfl r hr
      rcases hfirst with ⟨s, hs, hlt⟩ | hall
      · exact absurd hlt (not_lt.2 (hys s hs))
      · exact hall r hr
    obtain ⟨base, hbase, hbase_lo, hbase_dvd, -, hbefore, hstart⟩ := hc.clip_before hlo
    obtain ⟨stop, hstop, hstop_hi, hstop_dvd, hbehind, hfirst'', hend⟩ :=
      hc.clip_behind hhi hfirst' fun r hr => hcut r (by simp [hr]) (hys r hr)
    clear hfirst
    have hroom : ∀ r ∈ xs ++ ys, r.base + 24 ≤ r.stop := fun r hr => (hc.layout.valid r hr).room
    -- what is clipped off is in the ranges already
    have hin : ∀ x, a.lo ≤ x → x < a.hi → x < base ∨ stop ≤ x → x ∈ S := by
      intro x hlo_le hlt hclip
      rw [← hc.covers]
      rcases hclip with hclip | hclip
      · rcases hstart with heq | ⟨r, hr, hrstop⟩
        · omega
        · have := hxs r hr
          exact ⟨r, by simp [hr], by omega, by omega⟩
      · rcases hend with heq | ⟨r, hr, hrbase, hle⟩
        · omega
        · exact ⟨r, by simp [hr], by omega, by omega⟩
    by_cases hlt : base < stop
    · rw [addBetween_clip hbase hstop] at hcall
      have hzero' : base ≠ 0 ∨ stop < 24 :=
        hzero.imp (fun hne heq => hbounds.2.2.2 hne (Nat.le_zero.1 (heq ▸ hbase_lo)))
          fun hlt => hstop_hi.trans_lt hlt
      rcases hc.addBetween hzero' hbase_dvd hstop_dvd hlt (by omega) (hbefore hxs) hbehind hfirst''
        rfl with ⟨hmeets, rs', os', hc'⟩ | ⟨hsame, hsmall, hxs', hys'⟩
      · refine ⟨_, rs', os', hcall, ?_⟩
        suffices hgrow : grow S a = {x | x ∈ S ∨ base ≤ x ∧ x < stop} by
          rw [hgrow]
          exact hc'
        ext x
        constructor
        · rintro (hx | ⟨-, hlo_le, hlt_hi⟩)
          · exact .inl hx
          · by_cases hclip : x < base ∨ stop ≤ x
            · exact .inl (hin x hlo_le hlt_hi hclip)
            · exact .inr (by omega)
        · rintro (hx | ⟨hbase_le, hlt_stop⟩)
          · exact .inl hx
          · refine .inr ⟨?_, by omega, by omega⟩
            -- the neighbour that the piece touches
            rcases hmeets with hlarge | ⟨r, hr, hrstop⟩ | ⟨r, hr, hrbase⟩
            · exact .inl (by simp only [heapRangeSize]; omega)
            · have := hroom r (by simp [hr])
              exact .inr ⟨base - 1, (hc.covers _).1 ⟨r, by simp [hr], by omega, by omega⟩,
                by omega, by omega⟩
            · have := hroom r (by simp [hr])
              exact .inr ⟨stop, (hc.covers _).1 ⟨r, by simp [hr], by omega, by omega⟩,
                by omega, by omega⟩
      · rw [hsame] at hcall
        refine ⟨h, xs ++ ys, os, hcall, ?_⟩
        have hbase_eq : base = a.lo := by
          rcases hstart with heq | ⟨r, hr, heq⟩
          · exact heq
          · exact absurd heq (hxs' r hr).ne
        have hstop_eq : stop = a.hi := by
          rcases hend with heq | ⟨r, hr, heq, -⟩
          · exact heq
          · exact absurd heq (hys' r hr).ne'
        rw [grow_of_subset]
        · exact hc
        · -- the piece is the whole area, too small and with nothing beside it
          rintro (hlarge | ⟨y, hy, hlo_le, hle_hi⟩)
          · simp only [heapRangeSize] at hlarge
            omega
          · obtain ⟨r, hr, hry⟩ := (hc.covers y).2 hy
            simp only [Range.Contains] at hry
            rcases List.mem_append.1 hr with hr | hr
            · have := hxs' r hr
              omega
            · have := hys' r hr
              omega
    · rw [addBetween_nothing hbase hstop (not_lt.1 hlt)] at hcall
      refine ⟨h, xs ++ ys, os, hcall, ?_⟩
      rw [grow_of_subset fun _ x hlo_le hlt' => hin x hlo_le hlt' (by omega)]
      exact hc

/-! ## All areas -/

theorem Covering.addAreas (hc : Covering h rs os S) {areas : List Area}
    (hareas : ∀ a ∈ areas, a.base + a.size ≤ 4294967296) (hplaced : h.placedAll areas = true) :
    ∃ h' rs' os', addAreas h areas = .ok h' ∧ Covering h' rs' os' (areas.foldl grow S) := by
  induction areas generalizing h rs os S with
  | nil => exact ⟨h, rs, os, rfl, hc⟩
  | cons a areas ih =>
    unfold Heap.placedAll at hplaced
    rw [Bool.and_eq_true, decide_eq_true_eq] at hplaced
    obtain ⟨ha, hrest⟩ := hplaced
    obtain ⟨h₁, rs₁, os₁, hcall, hc₁⟩ := hc.add (hareas a List.mem_cons_self) ha
    rw [hcall] at hrest
    obtain ⟨h', rs', os', hcalls, hc'⟩ :=
      ih hc₁ (fun b hb => hareas b (List.mem_cons_of_mem _ hb)) hrest
    refine ⟨h', rs', os', ?_, hc'⟩
    show (blAddHeapRange h a.base a.size >>= fun h => XrLinux.Bootloader.addAreas h areas) = _
    rw [hcall]
    exact hcalls

theorem covering_start (mem : ByteMemory) : Covering (World.start mem).heap [] [] ∅ where
  shape := (World.start_inv mem).shape
  layout := (World.start_inv mem).sound.layout
  allFree := by simp
  separated := .nil
  covers x := by simp

end

/-- The heap covers what the areas leave, in sorted ranges with gaps between them; the same large
areas in another order leave the same ranges. -/
theorem addAreas_orderFree {mem : ByteMemory} {areas : List Area}
    (hareas : ∀ a ∈ areas, a.base + a.size ≤ 4294967296)
    (hplaced : (World.start mem).heap.placedAll areas = true) :
    ∃ h rs os, addAreas (World.start mem).heap areas = .ok h ∧ Covering h rs os (covered areas) ∧
      ((∀ a ∈ areas, a.Large) →
        (∀ x, (∃ r ∈ rs, r.Contains x) ↔ ∃ a ∈ areas, a.lo ≤ x ∧ x < a.hi) ∧
        ∀ (mem' : ByteMemory) (areas' : List Area), areas.Perm areas' →
          (World.start mem').heap.placedAll areas' = true →
          ∃ h' os', addAreas (World.start mem').heap areas' = .ok h' ∧
            Covering h' rs os' (covered areas')) := by
  obtain ⟨h, rs, os, hcalls, hc⟩ := (covering_start mem).addAreas hareas hplaced
  refine ⟨h, rs, os, hcalls, hc, fun hlarge => ⟨fun x => ?_, fun mem' areas' hperm hplaced' => ?_⟩⟩
  · rw [hc.covers]
    exact mem_covered hlarge
  · obtain ⟨h', rs', os', hcalls', hc'⟩ := (covering_start mem').addAreas
      (fun a ha => hareas a (hperm.mem_iff.2 ha)) hplaced'
    have hsame : Covering h rs os (covered areas') := covered_perm hperm hlarge ▸ hc
    have hrs : rs = rs' := hsame.ranges_unique hc'
    exact ⟨h', os', hcalls', hrs ▸ hc'⟩

/-- Three areas that overlap, the middle one last and in between. -/
theorem addAreas_orderFree_overlap :
    ∃ h rs os h' os',
      addAreas (World.start fun _ => 0).heap [{ base := 0x1000, size := 0x1000 },
        { base := 0x3000, size := 0x1000 }, { base := 0x1f00, size := 0x1200 }] = .ok h ∧
      addAreas (World.start fun _ => 0).heap [{ base := 0x1000, size := 0x1000 },
        { base := 0x1f00, size := 0x1200 }, { base := 0x3000, size := 0x1000 }] = .ok h' ∧
      Covering h rs os (covered [{ base := 0x1000, size := 0x1000 },
        { base := 0x3000, size := 0x1000 }, { base := 0x1f00, size := 0x1200 }]) ∧
      Covering h' rs os' (covered [{ base := 0x1000, size := 0x1000 },
        { base := 0x1f00, size := 0x1200 }, { base := 0x3000, size := 0x1000 }]) := by
  obtain ⟨h, rs, os, hcalls, hc, hrest⟩ :=
    @addAreas_orderFree (fun _ => 0) [{ base := 0x1000, size := 0x1000 },
      { base := 0x3000, size := 0x1000 }, { base := 0x1f00, size := 0x1200 }] (by decide)
      (by decide +kernel)
  obtain ⟨h', os', hcalls', hc'⟩ := (hrest (by decide)).2 (fun _ => 0)
    [{ base := 0x1000, size := 0x1000 }, { base := 0x1f00, size := 0x1200 },
      { base := 0x3000, size := 0x1000 }] (by decide) (by decide +kernel)
  exact ⟨h, rs, os, h', os', hcalls, hcalls', hc, hc'⟩

/-- The second area ends where the first one starts, and is not joined with it. -/
theorem addAreas_descending_fails :
    ¬∀ areas : List Area, (∀ a ∈ areas, a.base + a.size ≤ 4294967296) →
      ∃ h rs os, addAreas (World.start fun _ => 0).heap areas = .ok h ∧
        Covering h rs os (covered areas) := by
  intro hall
  obtain ⟨h, rs, os, hcalls, hc⟩ := hall [{ base := 0x2000, size := 0x1000 },
    { base := 0x1000, size := 0x1000 }] (by decide)
  have hranges : (addAreas (World.start fun _ => 0).heap [{ base := 0x2000, size := 0x1000 },
      { base := 0x1000, size := 0x1000 }]).map (·.ranges) =
      .ok [{ base := 0x1000, stop := 0x2000, free := true },
        { base := 0x2000, stop := 0x3000, free := true }] := by
    decide +kernel
  rw [hcalls] at hranges
  have hrs : rs = [{ base := 0x1000, stop := 0x2000, free := true },
      { base := 0x2000, stop := 0x3000, free := true }] := by
    rw [← hc.shape.ranges_eq]
    exact Except.ok.inj hranges
  have hsep := hc.separated
  rw [hrs] at hsep
  exact absurd hsep (by decide)

end XrLinux.Bootloader
