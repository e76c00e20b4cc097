import XrLinux.Machine.Bytes

/-!
# Linux — flushes of a range

`local_flush_icache_range` and `local_flush_tlb_range`. A flush is a write to a control register: 3
to `icachectrl` for all pages, or a page with bit 1, and 1 to the two of the TBs, for all entries,
which is also what `local_flush_tlb_page` does for now.
-/

namespace XrLinux.Linux.RangeFlush

open Machine

def pageSize : Word := 1 <<< 12

def pageMask : Word := ~~~(pageSize - 1)

/-- `DIV_ROUND_UP`. The sum wraps. -/
def divRoundUp (n d : Word) : Word := (n + d - 1) / d

inductive FlushReg where
  | icachectrl | itbctrl | dtbctrl
  deriving DecidableEq

/-- A `mtcr`. -/
structure CrWrite where
  reg : FlushReg
  value : Word
  deriving DecidableEq

def localFlushIcacheAll : List CrWrite := [⟨.icachectrl, 3⟩]

def localFlushIcachePage (page : Word) : List CrWrite := [⟨.icachectrl, page &&& pageMask ||| 2⟩]

def localFlushTlbAll : List CrWrite := [⟨.itbctrl, 1⟩, ⟨.dtbctrl, 1⟩]

def localFlushTlbPage (_addr : Word) : List CrWrite := localFlushTlbAll

/-- The loop over the pages, with the writes so far. -/
def flushLoop (flushPage : Word → List CrWrite) (nrPtesInRange : Word) :
    Nat → Word → Word → List CrWrite → Option (List CrWrite)
  | 0, _, _, _ => none
  | fuel + 1, i, start, writes =>
    if i < nrPtesInRange then
      flushLoop flushPage nrPtesInRange fuel (i + 1) (start + pageSize) (writes ++ flushPage start)
    else some writes

def icacheFlushAllThreshold : Word := 64

def localFlushIcacheRange (fuel : Nat) (start stop : Word) : Option (List CrWrite) :=
  let nrPtesInRange := divRoundUp (stop - start) pageSize
  if nrPtesInRange > icacheFlushAllThreshold then some localFlushIcacheAll
  else flushLoop localFlushIcachePage nrPtesInRange fuel 0 start []

/-- `FLUSH_TLB_MAX_SIZE`. -/
def flushTlbMaxSize : Word := ~~~0

def tlbFlushAllThreshold : Word := 64

def localFlushTlbRange (fuel : Nat) (start size : Word) : Option (List CrWrite) :=
  if size = flushTlbMaxSize then some localFlushTlbAll
  else
    let nrPtesInRange := divRoundUp size pageSize
    if nrPtesInRange > tlbFlushAllThreshold then some localFlushTlbAll
    else flushLoop localFlushTlbPage nrPtesInRange fuel 0 start []

/-! ## What is flushed -/

/-- The page has an address from `start` to before `stop`. -/
def Meets (start stop : Word) (page : Nat) : Prop :=
  ∃ a, start.toNat ≤ a ∧ a < stop.toNat ∧ a / 4096 = page

def FlushesIcache (writes : List CrWrite) (page : Nat) : Prop :=
  ∃ value, ⟨.icachectrl, value⟩ ∈ writes ∧ (value = 3 ∨ value.toNat = page * 4096 + 2)

/-- The entries of all pages go at once. -/
def FlushesTlb (writes : List CrWrite) (_page : Nat) : Prop :=
  ⟨.itbctrl, 1⟩ ∈ writes ∧ ⟨.dtbctrl, 1⟩ ∈ writes

/-- The routine comes to its end, and has flushed every page of the range by then. -/
def FlushesRange (routine : Nat → Option (List CrWrite)) (flushes : List CrWrite → Nat → Prop)
    (start stop : Word) : Prop :=
  ∃ writes, (∃ n, ∀ fuel ≥ n, routine fuel = some writes) ∧
    ∀ page, Meets start stop page → flushes writes page

section
variable {flushPage : Word → List CrWrite} {start stop : Word}

/-- The writes for `k` pages. -/
def pageFlushes (flushPage : Word → List CrWrite) : Nat → Word → List CrWrite
  | 0, _ => []
  | k + 1, start => flushPage start ++ pageFlushes flushPage k (start + pageSize)

theorem flushLoop_eq {nr : Word} {k fuel : Nat} {i : Word} (writes : List CrWrite)
    (hi : i.toNat + k = nr.toNat) (hfuel : k < fuel) :
    flushLoop flushPage nr fuel i start writes = some (writes ++ pageFlushes flushPage k start) := by
  induction k generalizing fuel i start writes with
  | zero =>
    obtain ⟨fuel, rfl⟩ := Nat.exists_eq_add_of_le' (show 1 ≤ fuel by omega)
    have hdone : ¬ i < nr := by
      rw [BitVec.lt_def]
      omega
    rw [flushLoop, if_neg hdone, pageFlushes, List.append_nil]
  | succ k ih =>
    obtain ⟨fuel, rfl⟩ := Nat.exists_eq_add_of_le' (show 1 ≤ fuel by omega)
    have hmore : i < nr := by
      rw [BitVec.lt_def]
      omega
    have hlt := nr.isLt
    have hnext : (i + 1).toNat + k = nr.toNat := by
      rw [BitVec.toNat_add, show (1 : Word).toNat = 1 from rfl, Nat.mod_eq_of_lt (by omega)]
      omega
    rw [flushLoop, if_pos hmore, ih _ hnext (by omega), List.append_assoc]
    rfl

theorem mem_pageFlushes {w : CrWrite} {k : Nat} :
    w ∈ pageFlushes flushPage k start ↔
      ∃ j < k, w ∈ flushPage (start + BitVec.ofNat 32 (j * 4096)) := by
  induction k generalizing start with
  | zero => simp [pageFlushes]
  | succ k ih =>
    have hstep : ∀ j, start + pageSize + BitVec.ofNat 32 (j * 4096) =
        start + BitVec.ofNat 32 ((j + 1) * 4096) := by
      intro j
      have hsize : pageSize = BitVec.ofNat 32 4096 := rfl
      rw [hsize, BitVec.add_assoc, ← BitVec.ofNat_add]
      congr 2
      omega
    rw [pageFlushes, List.mem_append, ih]
    constructor
    · rintro (h | ⟨j, hj, h⟩)
      · exact ⟨0, by omega, by simpa using h⟩
      · rw [hstep] at h
        exact ⟨j + 1, by omega, h⟩
    · intro ⟨j, hj, h⟩
      cases j with
      | zero => exact .inl (by simpa using h)
      | succ j =>
        right
        refine ⟨j, by omega, ?_⟩
        rw [hstep]
        exact h

/-! ## Pages -/

/-- How many pages are flushed: none when the sum wraps. -/
theorem divRoundUp_toNat (n : Word) :
    (divRoundUp n pageSize).toNat =
      if n.toNat ≤ 4294963200 then (n.toNat + 4095) / 4096 else (n.toNat - 4294963201) / 4096 := by
  have hlt := n.isLt
  have hsum : (n + pageSize - 1).toNat = (n.toNat + 4095) % 4294967296 := by
    have hone : n + pageSize - 1 = n + 4095 := by
      rw [BitVec.sub_eq_add_neg, BitVec.add_assoc]
      rfl
    rw [hone, BitVec.toNat_add]
    rfl
  rw [divRoundUp, BitVec.toNat_udiv, hsum, show pageSize.toNat = 4096 from rfl]
  split_ifs <;> omega

theorem pageMask_toNat (x : Word) : (x &&& pageMask).toNat = x.toNat / 4096 * 4096 :=
  @toNat_and_high _ 12 20 _ rfl (by decide)

/-- What is written for a page. -/
theorem flushed_toNat (x : Word) :
    (x &&& pageMask ||| 2).toNat = x.toNat / 4096 * 4096 + 2 := by
  have hpage : x.toNat / 4096 * 4096 = (x.toNat / 4096) <<< 12 := by
    rw [Nat.shiftLeft_eq]
  rw [BitVec.toNat_or, pageMask_toNat, hpage, show (2 : Word).toNat = 2 from rfl,
    ← Nat.shiftLeft_add_eq_or_of_lt (by decide)]

/-! ## Ranges -/

theorem flushesRange_iff {routine : Nat → Option (List CrWrite)} {writes : List CrWrite}
    {flushes : List CrWrite → Nat → Prop}
    (hroutine : ∃ n, ∀ fuel ≥ n, routine fuel = some writes) :
    FlushesRange routine flushes start stop ↔
      ∀ page, Meets start stop page → flushes writes page := by
  obtain ⟨n, hn⟩ := hroutine
  constructor
  · intro ⟨writes', ⟨n', hn'⟩, h⟩
    -- with enough rounds for both the writes are the same
    have hsame := (hn (max n n') (le_max_left _ _)).symm.trans (hn' (max n n') (le_max_right _ _))
    rwa [Option.some.inj hsame]
  · exact fun h => ⟨writes, ⟨n, hn⟩, h⟩

/-- What both routines do with a number of pages. -/
theorem rangeWrites (flushAll : List CrWrite) (flushPage : Word → List CrWrite) (nr start : Word) :
    ∃ n, ∀ fuel ≥ n, (if nr > 64 then some flushAll else flushLoop flushPage nr fuel 0 start []) =
      some (if nr > 64 then flushAll else pageFlushes flushPage nr.toNat start) := by
  refine ⟨nr.toNat + 1, fun fuel hfuel => ?_⟩
  split_ifs
  · rfl
  · exact flushLoop_eq [] (Nat.zero_add _) (by omega)

theorem gt_threshold_iff (nr : Word) : nr > 64 ↔ 64 < nr.toNat := BitVec.lt_def

theorem sub_toNat (h : start < stop) : (stop - start).toNat = stop.toNat - start.toNat := by
  rw [BitVec.lt_def] at h
  have hlt := stop.isLt
  rw [BitVec.toNat_sub]
  omega

theorem meets_page_iff (h : start < stop) (page : Nat) :
    Meets start stop page ↔ start.toNat / 4096 ≤ page ∧ page ≤ (stop.toNat - 1) / 4096 := by
  rw [BitVec.lt_def] at h
  constructor
  · rintro ⟨a, hlo, hhi, rfl⟩
    omega
  · intro ⟨hlo, hhi⟩
    exact ⟨max start.toNat (page * 4096), by omega, by omega, by omega⟩

/-- The pages from that of `start` on. -/
theorem flushesIcache_pages_iff {k : Nat} (hfits : start.toNat + k * 4096 < 4294967296 + 4096)
    (page : Nat) :
    FlushesIcache (pageFlushes localFlushIcachePage k start) page ↔
      start.toNat / 4096 ≤ page ∧ page < start.toNat / 4096 + k := by
  have hpage : ∀ j < k, (start + BitVec.ofNat 32 (j * 4096)).toNat = start.toNat + j * 4096 := by
    intro j hj
    rw [BitVec.toNat_add, BitVec.toNat_ofNat]
    omega
  constructor
  · intro ⟨value, hmem, hvalue⟩
    obtain ⟨j, hj, hwrite⟩ := mem_pageFlushes.mp hmem
    obtain ⟨-, rfl⟩ := CrWrite.mk.inj (List.mem_singleton.mp hwrite)
    have hflushed := flushed_toNat (start + BitVec.ofNat 32 (j * 4096))
    rw [hpage j hj] at hflushed
    rcases hvalue with hall | hpage
    · -- the flush of a page is none of all
      rw [hall] at hflushed
      have hthree : (3 : Word).toNat = 3 := rfl
      omega
    · omega
  · intro ⟨hlo, hhi⟩
    have hj : page - start.toNat / 4096 < k := by omega
    refine ⟨_, mem_pageFlushes.mpr ⟨_, hj, List.mem_singleton.mpr rfl⟩, .inr ?_⟩
    rw [flushed_toNat, hpage _ hj]
    omega

/-- All writes of the instruction cache. -/
theorem flushesIcache_iff (h : start < stop) :
    FlushesRange (fun fuel => localFlushIcacheRange fuel start stop) FlushesIcache start stop ↔
      stop.toNat - start.toNat ≤ 4294963200 ∧ (64 * 4096 < stop.toNat - start.toNat ∨
        start.toNat % 4096 + (stop.toNat - start.toNat) ≤
          (stop.toNat - start.toNat + 4095) / 4096 * 4096) := by
  have hlt : start.toNat < stop.toNat := BitVec.lt_def.mp h
  have hstop := stop.isLt
  have hnr := divRoundUp_toNat (stop - start)
  rw [sub_toNat h] at hnr
  have hroutine : ∃ n, ∀ fuel ≥ n, localFlushIcacheRange fuel start stop = some _ :=
    rangeWrites localFlushIcacheAll localFlushIcachePage (divRoundUp (stop - start) pageSize) start
  rw [flushesRange_iff hroutine]
  have hthreshold := gt_threshold_iff (divRoundUp (stop - start) pageSize)
  by_cases hall : divRoundUp (stop - start) pageSize > 64
  · rw [if_pos hall]
    refine iff_of_true (fun page _ => ⟨3, List.mem_singleton.mpr rfl, .inl rfl⟩) ?_
    have := hthreshold.mp hall
    split_ifs at hnr <;> omega
  · rw [if_neg hall]
    have hfew := mt hthreshold.mpr hall
    have hfits : start.toNat + (divRoundUp (stop - start) pageSize).toNat * 4096 <
        4294967296 + 4096 := by
      split_ifs at hnr <;> omega
    constructor
    · intro hflushed
      have hfirst := (flushesIcache_pages_iff hfits _).mp
        (hflushed (start.toNat / 4096) ((meets_page_iff h _).mpr (by omega)))
      have hlast := (flushesIcache_pages_iff hfits _).mp
        (hflushed ((stop.toNat - 1) / 4096) ((meets_page_iff h _).mpr (by omega)))
      split_ifs at hnr <;> omega
    · intro hcond page hmeets
      have hpage := (meets_page_iff h page).mp hmeets
      rw [flushesIcache_pages_iff hfits]
      split_ifs at hnr <;> omega

/-- One flush of a page is enough for the TBs. -/
theorem flushesTlb_iff (h : start < stop) :
    FlushesRange (fun fuel => localFlushTlbRange fuel start (stop - start)) FlushesTlb start stop ↔
      stop.toNat - start.toNat ≤ 4294963200 ∨ stop.toNat - start.toNat = 4294967295 := by
  have hlt : start.toNat < stop.toNat := BitVec.lt_def.mp h
  have hstop := stop.isLt
  have hall : ∀ page, FlushesTlb localFlushTlbAll page := fun _ => ⟨by decide, by decide⟩
  have hmax : stop - start = flushTlbMaxSize ↔ stop.toNat - start.toNat = 4294967295 := by
    rw [← sub_toNat h, ← BitVec.toNat_inj]
    rfl
  by_cases hsize : stop - start = flushTlbMaxSize
  · have hroutine : ∀ fuel ≥ 0, localFlushTlbRange fuel start (stop - start) =
        some localFlushTlbAll := fun _ _ => if_pos hsize
    rw [flushesRange_iff ⟨0, hroutine⟩]
    exact iff_of_true (fun page _ => hall page) (.inr (hmax.mp hsize))
  · obtain ⟨n, hn⟩ := rangeWrites localFlushTlbAll localFlushTlbPage
      (divRoundUp (stop - start) pageSize) start
    have hroutine : ∀ fuel ≥ n, localFlushTlbRange fuel start (stop - start) = some _ :=
      fun fuel hfuel => (if_neg hsize).trans (hn fuel hfuel)
    have hnot : ¬ stop.toNat - start.toNat = 4294967295 := mt hmax.mpr hsize
    have hnr := divRoundUp_toNat (stop - start)
    rw [sub_toNat h] at hnr
    rw [flushesRange_iff ⟨n, hroutine⟩]
    have hthreshold := gt_threshold_iff (divRoundUp (stop - start) pageSize)
    by_cases hmany : divRoundUp (stop - start) pageSize > 64
    · rw [if_pos hmany]
      refine iff_of_true (fun page _ => hall page) (.inl ?_)
      have := hthreshold.mp hmany
      split_ifs at hnr <;> omega
    · rw [if_neg hmany]
      constructor
      · intro hflushed
        have hfirst := (hflushed (start.toNat / 4096) ((meets_page_iff h _).mpr (by omega))).1
        obtain ⟨j, hj, -⟩ := mem_pageFlushes.mp hfirst
        split_ifs at hnr <;> omega
      · intro hcond page _
        have hpos : 0 < (divRoundUp (stop - start) pageSize).toNat := by
          split_ifs at hnr <;> omega
        exact ⟨mem_pageFlushes.mpr ⟨0, hpos, (hall page).1⟩,
          mem_pageFlushes.mpr ⟨0, hpos, (hall page).2⟩⟩

end

/-- **Range flushes.** A range of addresses is flushed, and the routine comes to its end: for the
instruction cache if and only if rounding the length up does not wrap and either the length is above
64 pages or the range meets no more pages than its length has; for the TBs if and only if rounding up
does not wrap or the length is the one that stands for everything. -/
theorem rangeFlush_iff (start stop : Word) (h : start < stop) :
    (FlushesRange (fun fuel => localFlushIcacheRange fuel start stop) FlushesIcache start stop ↔
      stop.toNat - start.toNat ≤ 4294963200 ∧ (64 * 4096 < stop.toNat - start.toNat ∨
        start.toNat % 4096 + (stop.toNat - start.toNat) ≤
          (stop.toNat - start.toNat + 4095) / 4096 * 4096)) ∧
    (FlushesRange (fun fuel => localFlushTlbRange fuel start (stop - start)) FlushesTlb start stop ↔
      stop.toNat - start.toNat ≤ 4294963200 ∨ stop.toNat - start.toNat = 4294967295) :=
  ⟨flushesIcache_iff h, flushesTlb_iff h⟩

theorem rangeFlush_iff_page :
    (FlushesRange (fun fuel => localFlushIcacheRange fuel 0x1000 0x2000) FlushesIcache 0x1000 0x2000 ↔
      4096 ≤ 4294963200 ∧ (64 * 4096 < 4096 ∨ 0 + 4096 ≤ 8191 / 4096 * 4096)) ∧
    (FlushesRange (fun fuel => localFlushTlbRange fuel 0x1000 (0x2000 - 0x1000)) FlushesTlb
      0x1000 0x2000 ↔ 4096 ≤ 4294963200 ∨ 4096 = 4294967295) :=
  rangeFlush_iff 0x1000 0x2000 (by decide)

/-- Two instructions on both sides of a page boundary. -/
theorem rangeFlush_misses_page :
    ¬ ∀ start stop : Word, start < stop →
      FlushesRange (fun fuel => localFlushIcacheRange fuel start stop) FlushesIcache start stop := by
  intro h
  have hflushed := (flushesIcache_iff (by decide)).mp (h 0x7fff0ffc 0x7fff1004 (by decide))
  exact absurd hflushed (by decide)

end XrLinux.Linux.RangeFlush
