import XrLinux.Bootloader.MemoryBanks
import XrLinux.Linux.Pgtable

/-!
# Linux — the linear mapping

`create_linear_mapping_page_table` of `mm/init.c`, which maps the ranges of memory from
`PAGE_OFFSET` on. The root table is used at `swapper_pg_dir`; a new table is written through a page
of the fixmap. The loops keep what has been mapped (`Mapped`), and only their own entries differ
from the tables that they start with (`Keeps`).
-/

namespace XrLinux.Linux.Paging

open Machine Mmu

/-- `start`, how many pages have been allocated, and the tables. -/
structure Mapping where
  start : Word
  taken : Nat
  mmu : Mmu

/-- The loop over the entries of a table. -/
def mapEntries (ptep : Word) : Nat → Nat → Mapping → Option Mapping
  | 0, _, m => some m
  | count + 1, pteIdx, m => do
    let mmu ← m.mmu.write (ptep + BitVec.ofNat 32 (4 * pteIdx))
      (pfnPte (pfnDown m.start) pageKernelBase)
    mapEntries ptep count (pteIdx + 1) { m with start := m.start + 4096, mmu }

/-- A new table behind an entry: the entry, `memset` of the table and its entries. -/
def mapTable (k : Kernel) (pgdIdx pteHead curPteTail : Nat) (m : Mapping) : Option Mapping := do
  let mmu ← m.mmu.write (swapperPgDir + BitVec.ofNat 32 (4 * pgdIdx))
    (pfnPte (pfnDown (k.alloc m.taken)) pageKernelBase)
  let mmu ← setFixmap k fixTemp (k.alloc m.taken) pageKernelBase mmu
  let mmu ← storeWords (fixmapOffset fixTemp (k.alloc m.taken)) (fun _ => 0) 1024 0 mmu
  let m ← mapEntries (fixmapOffset fixTemp (k.alloc m.taken)) (curPteTail + 1 - pteHead) pteHead
    { m with taken := m.taken + 1, mmu }
  let mmu ← setFixmap k fixTemp 0 0 m.mmu
  some { m with mmu }

/-- One turn of the loop over the root table. Where there is a table already, `pte_phys` is used
without having been set. -/
def mapSlot (k : Kernel) (pgdIdx pteHead curPteTail : Nat) (m : Mapping) : Option Mapping := do
  let entry ← m.mmu.read (swapperPgDir + BitVec.ofNat 32 (4 * pgdIdx))
  if entry = 0 then mapTable k pgdIdx pteHead curPteTail m else none

/-- The loop over the root table. -/
def mapSlots (k : Kernel) (pgdTail pteTail : Nat) : Nat → Nat → Nat → Mapping → Option Mapping
  | 0, _, _, m => some m
  | count + 1, pgdIdx, pteHead, m => do
    let m ← mapSlot k pgdIdx pteHead (if pgdIdx ≠ pgdTail then 1023 else pteTail) m
    mapSlots k pgdTail pteTail count (pgdIdx + 1) 0 m

/-- `create_linear_mapping_range`. -/
def createLinearMappingRange (k : Kernel) (stop : Word) (m : Mapping) : Option Mapping :=
  mapSlots k (pgdIndex (va (stop - 1))) (pteIndex (va (stop - 1)))
    (pgdIndex (va (stop - 1)) + 1 - pgdIndex (va m.start)) (pgdIndex (va m.start))
    (pteIndex (va m.start)) m

/-- A range of memory. -/
structure Range where
  start : Word
  stop : Word

/-- `create_linear_mapping_page_table`. -/
def createLinearMappingPageTable (k : Kernel) : List Range → Mapping → Option Mapping
  | [], m => some m
  | r :: ranges, m =>
    if r.start ≥ r.stop then some m
    else do
      let m ← createLinearMappingRange k r.stop { m with
        start := if r.start ≤ linearMappingVaToPa pageOffset ∧
          linearMappingVaToPa pageOffset < r.stop then linearMappingVaToPa pageOffset else r.start }
      createLinearMappingPageTable k ranges m

/-! ## The tables before -/

/-- What `setup_vm` leaves and what the image is linked for: the root table maps itself and is at
`swapper_pg_dir`, `fixmap_pte` is a page of the image and the table of the fixmap, the temporary page
is free, the other tables are none of these, and nothing is mapped from `PAGE_OFFSET` on. -/
structure Booted (k : Kernel) (s : Mmu) (fixmapFrame : Nat) : Prop where
  recursive : follow (s.frames s.root 512) = some s.root
  swapper : s.page 513 0 = some s.root
  fixmap_table : follow (s.frames s.root 639) = some fixmapFrame
  fixmap_address : At k.fixmapPte (k.fixmapPte.toNat / 4194304) (k.fixmapPte.toNat / 4096 % 1024) 0
  fixmap_image : kernelLinkAddr ≤ k.fixmapPte ∧ k.fixmapPte < fixaddrStart
  fixmap_page : s.pageOf k.fixmapPte = some fixmapFrame
  fixmap_ne : fixmapFrame ≠ s.root
  temp_free : s.frames fixmapFrame 1022 = 0
  tables_ne : ∀ d < 768, d ≠ 512 → d ≠ 639 → ∀ table, follow (s.frames s.root d) = some table →
    table ≠ s.root ∧ table ≠ fixmapFrame
  linear_empty : ∀ d, 768 ≤ d → d < 1024 → s.frames s.root d = 0

/-- The number of the frame of a page that has been allocated. -/
def Kernel.frame (k : Kernel) (taken : Nat) : Nat := (k.alloc taken).toNat / 4096

/-- `memblock_phys_alloc` returns no page twice, and none that is mapped: `reserve_mapped_memory` has
reserved these. -/
structure Fresh (k : Kernel) (s : Mmu) : Prop where
  aligned : ∀ j < k.pages.length, (k.alloc j).toNat % 4096 = 0
  injective : ∀ i < k.pages.length, ∀ j < k.pages.length, k.frame i = k.frame j → i = j
  unmapped : ∀ j < k.pages.length, ∀ d < 1024, ∀ t < 1024, s.page d t ≠ some (k.frame j)

/-- Only the new tables, the entries for them and that of the temporary page differ. -/
structure Keeps (k : Kernel) (s₀ : Mmu) (fixmapFrame : Nat) (s : Mmu) : Prop where
  root_eq : s.root = s₀.root
  frames_eq : ∀ q i, (∀ j < k.pages.length, q ≠ k.frame j) → (q = s₀.root → i < 768) →
    (q = fixmapFrame → i ≠ 1022) → s.frames q i = s₀.frames q i

section
variable {k : Kernel} {s₀ s : Mmu} {fixmapFrame : Nat} {d t i j first count frame : Nat}
  {x : Word}

/-! ### What is mapped stays mapped -/

theorem Fresh.ne_table (h : Fresh k s₀) (hboot : Booted k s₀ fixmapFrame) (hj : j < k.pages.length)
    (hd : d < 1024) (htable : follow (s₀.frames s₀.root d) = some frame) : frame ≠ k.frame j := by
  rintro rfl
  exact h.unmapped j hj 512 (by decide) d hd ((page_eq_some hboot.recursive).trans htable)

theorem Fresh.ne_root (h : Fresh k s₀) (hboot : Booted k s₀ fixmapFrame) (hj : j < k.pages.length) :
    s₀.root ≠ k.frame j :=
  h.ne_table hboot hj (by decide) hboot.recursive

theorem Fresh.ne_fixmap (h : Fresh k s₀) (hboot : Booted k s₀ fixmapFrame)
    (hj : j < k.pages.length) : fixmapFrame ≠ k.frame j :=
  h.ne_table hboot hj (by decide) hboot.fixmap_table

theorem Keeps.entry (h : Keeps k s₀ fixmapFrame s) (hboot : Booted k s₀ fixmapFrame)
    (hfresh : Fresh k s₀) (hd : d < 768) : s.frames s.root d = s₀.frames s₀.root d := by
  rw [h.root_eq]
  refine h.frames_eq _ d ?_ (fun _ => hd) fun heq => absurd heq.symm hboot.fixmap_ne
  exact fun j hj => hfresh.ne_root hboot hj

/-- Pages outside of the fixmap and of the tables' own. -/
theorem Keeps.page (h : Keeps k s₀ fixmapFrame s) (hboot : Booted k s₀ fixmapFrame)
    (hfresh : Fresh k s₀) (hd : d < 768) (hself : d ≠ 512) (hfixmap : d ≠ 639) :
    s.page d t = s₀.page d t := by
  apply page_congr h.root_eq
  · rw [← h.entry hboot hfresh hd, h.root_eq]
  · intro table htable
    have hne := hboot.tables_ne d hd hself hfixmap table htable
    exact h.frames_eq table t (fun j hj => hfresh.ne_table hboot hj (by omega) htable)
      (fun heq => absurd heq hne.1) fun heq => absurd heq hne.2

theorem Keeps.swapper (h : Keeps k s₀ fixmapFrame s) (hboot : Booted k s₀ fixmapFrame)
    (hfresh : Fresh k s₀) : s.page 513 0 = some s₀.root := by
  rw [h.page hboot hfresh (by decide) (by decide) (by decide), hboot.swapper]

theorem Keeps.fixmap (h : Keeps k s₀ fixmapFrame s) (hboot : Booted k s₀ fixmapFrame)
    (hfresh : Fresh k s₀) :
    s.page (k.fixmapPte.toNat / 4194304) (k.fixmapPte.toNat / 4096 % 1024) = some fixmapFrame := by
  have hlo : 2151682048 ≤ k.fixmapPte.toNat := hboot.fixmap_image.1
  have hhi : k.fixmapPte.toNat < 2680160256 := hboot.fixmap_image.2
  rw [h.page hboot hfresh (by omega) (by omega) (by omega)]
  exact hboot.fixmap_page

/-- The table of the fixmap. -/
theorem Keeps.temp (h : Keeps k s₀ fixmapFrame s) (hboot : Booted k s₀ fixmapFrame)
    (hfresh : Fresh k s₀) : s.page 639 t = follow (s.frames fixmapFrame t) := by
  apply page_eq_some
  rw [h.entry hboot hfresh (by decide), hboot.fixmap_table]

/-! ### The stores keep it so -/

theorem Keeps.putRoot (h : Keeps k s₀ fixmapFrame s) (value : Nat → Word) (hd : 768 ≤ d) :
    Keeps k s₀ fixmapFrame (s.put s₀.root d 1 value) where
  root_eq := h.root_eq
  frames_eq q i hpages hroot hfixmap := by
    rw [put_frames_of_ne value _, h.frames_eq q i hpages hroot hfixmap]
    by_cases hq : q = s₀.root
    · have := hroot hq
      omega
    · exact .inl hq

theorem Keeps.putTemp (h : Keeps k s₀ fixmapFrame s) (value : Nat → Word) :
    Keeps k s₀ fixmapFrame (s.put fixmapFrame 1022 1 value) where
  root_eq := h.root_eq
  frames_eq q i hpages hroot hfixmap := by
    rw [put_frames_of_ne value _, h.frames_eq q i hpages hroot hfixmap]
    by_cases hq : q = fixmapFrame
    · have := hfixmap hq
      omega
    · exact .inl hq

theorem Keeps.putPage (h : Keeps k s₀ fixmapFrame s) (value : Nat → Word)
    (hj : j < k.pages.length) : Keeps k s₀ fixmapFrame (s.put (k.frame j) first count value) where
  root_eq := h.root_eq
  frames_eq q i hpages hroot hfixmap := by
    rw [put_frames_of_ne value (.inl (hpages j hj)), h.frames_eq q i hpages hroot hfixmap]

/-! ### The addresses -/

theorem at_swapper (hd : d < 1024) : At (swapperPgDir + BitVec.ofNat 32 (4 * d)) 513 0 d :=
  At.add ⟨rfl, by decide, by decide⟩ hd

theorem at_temp : At (fixToVirt fixTemp) 639 1022 0 := ⟨rfl, by decide, by decide⟩

theorem fixmapOffset_eq (hx : x.toNat % 4096 = 0) : fixmapOffset fixTemp x = fixToVirt fixTemp := by
  have hzero : x &&& 4095 = 0 := by
    apply BitVec.eq_of_toNat_eq
    rw [@toNat_and_mask _ 12 4095 rfl, show 2 ^ 12 = 4096 from rfl, hx]
    rfl
  rw [fixmapOffset, hzero, add_zero]

theorem setFixmap_eq (h : Keeps k s₀ fixmapFrame s) (hboot : Booted k s₀ fixmapFrame)
    (hfresh : Fresh k s₀) (phys prot : Word) :
    setFixmap k fixTemp phys prot s =
      some (s.put fixmapFrame 1022 1 fun _ => if prot ≠ 0 then pfnPte (pfnDown phys) prot else 0) := by
  have hindex : pteIndex (fixToVirt fixTemp) = 1022 := by decide
  rw [setFixmap, if_neg (by decide), hindex]
  exact (hboot.fixmap_address.add (show 1022 < 1024 by decide)).write_eq _ (h.fixmap hboot hfresh)

/-! ## One table -/

/-- The loop over the entries stores them one after the other. -/
theorem mapEntries_eq {m : Mapping} (hx : At x d t 0) (hpage : m.mmu.page d t = some frame)
    (hbeside : m.mmu.Beside d frame) (hfits : i + count ≤ 1024)
    (hstart : m.start.toNat + count * 4096 < 4294967296) :
    mapEntries x count i m =
      some ⟨m.start + BitVec.ofNat 32 (count * 4096), m.taken,
        m.mmu.put frame i count fun l => entryOf (m.start.toNat / 4096 + (l - i))⟩ := by
  induction count generalizing m i with
  | zero =>
    rw [put_zero, Nat.zero_mul, BitVec.add_zero]
    rfl
  | succ count ih =>
    have hentry : pfnPte (pfnDown m.start) pageKernelBase =
        entryOf (m.start.toNat / 4096 + (i - i)) := by
      rw [pfnPte_pfnDown, Nat.sub_self, Nat.add_zero]
    have hstore := (hx.add (show i < 1024 by omega)).write_eq
      (pfnPte (pfnDown m.start) pageKernelBase) hpage
    rw [hentry] at hstore
    have hstart' : (m.start + 4096).toNat = m.start.toNat + 4096 := by
      rw [BitVec.toNat_add]
      show (m.start.toNat + 4096) % 4294967296 = _
      omega
    have hrest := @ih (i + 1) ⟨m.start + 4096, m.taken,
      m.mmu.put frame i 1 fun _ => entryOf (m.start.toNat / 4096 + (i - i))⟩
      ((page_put_of_beside _ hbeside).trans hpage) (hbeside.put _ hbeside.1) (by omega)
      (by rw [hstart']; omega)
    have hvalue : ∀ l, i + 1 ≤ l → l < i + 1 + count →
        entryOf ((m.start + 4096).toNat / 4096 + (l - (i + 1))) =
          entryOf (m.start.toNat / 4096 + (l - i)) := by
      intro l hlo _
      rw [hstart']
      exact congrArg entryOf (by omega)
    have hsum : m.start + 4096 + BitVec.ofNat 32 (count * 4096) =
        m.start + BitVec.ofNat 32 ((count + 1) * 4096) := by
      rw [Nat.add_mul, BitVec.ofNat_add, add_assoc, add_comm (4096 : Word)]
      rfl
    rw [mapEntries, hentry, hstore]
    refine hrest.trans ?_
    rw [put_congr hvalue, put_put fun l => entryOf (m.start.toNat / 4096 + (l - i)), hsum]

theorem Kernel.frame_lt (k : Kernel) (j : Nat) : k.frame j < 1048576 := by
  have := (k.alloc j).isLt
  show (k.alloc j).toNat / 4096 < 1048576
  omega

/-- A new table behind entry `d`, which is also the temporary page. -/
def tableEntered (k : Kernel) (fixmapFrame d j : Nat) (s : Mmu) : Mmu :=
  (s.put s.root d 1 fun _ => entryOf (k.frame j)).put fixmapFrame 1022 1
    fun _ => entryOf (k.frame j)

/-- The table has `count` entries from `i` on, the first of them for page `q`. -/
def tableFilled (k : Kernel) (fixmapFrame d i count q j : Nat) (s : Mmu) : Mmu :=
  ((tableEntered k fixmapFrame d j s).put (k.frame j) 0 1024 fun _ => 0).put (k.frame j) i count
    fun l => entryOf (q + (l - i))

/-- The temporary page is no more. -/
def tableMade (k : Kernel) (fixmapFrame d i count q j : Nat) (s : Mmu) : Mmu :=
  (tableFilled k fixmapFrame d i count q j s).put fixmapFrame 1022 1 fun _ => 0

theorem Keeps.entered (h : Keeps k s₀ fixmapFrame s) (hd : 768 ≤ d) :
    Keeps k s₀ fixmapFrame (tableEntered k fixmapFrame d j s) := by
  unfold tableEntered
  rw [h.root_eq]
  exact (h.putRoot _ hd).putTemp _

theorem entered_page (h : Keeps k s₀ fixmapFrame (tableEntered k fixmapFrame d j s))
    (hboot : Booted k s₀ fixmapFrame) (hfresh : Fresh k s₀) (hj : j < k.pages.length) :
    (tableEntered k fixmapFrame d j s).page 639 1022 = some (k.frame j) ∧
      (tableEntered k fixmapFrame d j s).Beside 639 (k.frame j) := by
  refine ⟨?_, ?_, ?_⟩
  · rw [h.temp hboot hfresh, tableEntered, put_frames_self _ le_rfl (by decide)]
    exact follow_entryOf (k.frame_lt j)
  · rw [h.root_eq]
    exact (hfresh.ne_root hboot hj).symm
  · rw [h.entry hboot hfresh (by decide), hboot.fixmap_table]
    intro heq
    exact hfresh.ne_fixmap hboot hj (Option.some.inj heq)

theorem Keeps.filled {q : Nat} (h : Keeps k s₀ fixmapFrame s) (hd : 768 ≤ d)
    (hj : j < k.pages.length) :
    Keeps k s₀ fixmapFrame (tableFilled k fixmapFrame d i count q j s) :=
  ((h.entered hd).putPage _ hj).putPage _ hj

theorem mapTable_eq {m : Mapping} {tail : Nat} (h : Keeps k s₀ fixmapFrame m.mmu)
    (hboot : Booted k s₀ fixmapFrame) (hfresh : Fresh k s₀) (hlo : 768 ≤ d) (hhi : d < 1024)
    (htaken : m.taken < k.pages.length) (htail : tail < 1024) (hle : i ≤ tail)
    (hstart : m.start.toNat + (tail + 1 - i) * 4096 < 4294967296) :
    mapTable k d i tail m =
      some ⟨m.start + BitVec.ofNat 32 ((tail + 1 - i) * 4096), m.taken + 1,
        tableMade k fixmapFrame d i (tail + 1 - i) (m.start.toNat / 4096) m.taken m.mmu⟩ := by
  have hoffset := fixmapOffset_eq (hfresh.aligned m.taken htaken)
  have hentry : pfnPte (pfnDown (k.alloc m.taken)) pageKernelBase = entryOf (k.frame m.taken) :=
    pfnPte_pfnDown _
  -- The root table, and the temporary page.
  have hswapper := (at_swapper hhi).write_eq (entryOf (k.frame m.taken)) (h.swapper hboot hfresh)
  have hset : setFixmap k fixTemp (k.alloc m.taken) pageKernelBase
      (m.mmu.put s₀.root d 1 fun _ => entryOf (k.frame m.taken)) =
      some (tableEntered k fixmapFrame d m.taken m.mmu) := by
    rw [setFixmap_eq (h.putRoot _ hlo) hboot hfresh, if_pos (by decide), hentry, tableEntered,
      h.root_eq]
  have h2 : Keeps k s₀ fixmapFrame (tableEntered k fixmapFrame d m.taken m.mmu) := h.entered hlo
  obtain ⟨hpage, hbeside⟩ := entered_page h2 hboot hfresh htaken
  -- The table.
  have hzero := storeWords_eq at_temp (fun _ => 0) hpage hbeside (show 0 + 1024 ≤ 1024 from le_rfl)
  have hentries : mapEntries (fixToVirt fixTemp) (tail + 1 - i) i
      ⟨m.start, m.taken + 1, (tableEntered k fixmapFrame d m.taken m.mmu).put (k.frame m.taken) 0
        1024 fun _ => 0⟩ =
      some ⟨m.start + BitVec.ofNat 32 ((tail + 1 - i) * 4096), m.taken + 1,
        tableFilled k fixmapFrame d i (tail + 1 - i) (m.start.toNat / 4096) m.taken m.mmu⟩ :=
    mapEntries_eq at_temp ((page_put_of_beside _ hbeside).trans hpage)
      (hbeside.put (fun _ => 0) hbeside.1) (by omega) hstart
  have h4 : Keeps k s₀ fixmapFrame (tableFilled k fixmapFrame d i (tail + 1 - i)
      (m.start.toNat / 4096) m.taken m.mmu) := h.filled hlo htaken
  have hclear := setFixmap_eq h4 hboot hfresh 0 0
  rw [if_neg (by decide)] at hclear
  unfold mapTable
  simp only [hentry, hoffset, hswapper, Option.bind_eq_bind, Option.bind_some, hset, hzero,
    hentries, hclear]
  rfl

/-! ### What is in memory then -/

section
variable {q l : Nat}

theorem made_frames_of_ne (hroot : frame = s.root → l ≠ d) (hpage : frame ≠ k.frame j)
    (htemp : frame = fixmapFrame → l ≠ 1022) :
    (tableMade k fixmapFrame d i count q j s).frames frame l = s.frames frame l := by
  have hfixmap : frame ≠ fixmapFrame ∨ l < 1022 ∨ 1022 + 1 ≤ l := by
    by_cases heq : frame = fixmapFrame
    · have := htemp heq
      omega
    · exact .inl heq
  have hentry : frame ≠ s.root ∨ l < d ∨ d + 1 ≤ l := by
    by_cases heq : frame = s.root
    · have := hroot heq
      omega
    · exact .inl heq
  rw [tableMade, put_frames_of_ne _ hfixmap, tableFilled, put_frames_of_ne _ (.inl hpage),
    put_frames_of_ne _ (.inl hpage), tableEntered, put_frames_of_ne _ hfixmap,
    put_frames_of_ne _ hentry]

theorem made_root (hpage : s.root ≠ k.frame j) (hfixmap : s.root ≠ fixmapFrame) :
    (tableMade k fixmapFrame d i count q j s).frames s.root d = entryOf (k.frame j) := by
  rw [tableMade, put_frames_of_ne _ (.inl hfixmap), tableFilled, put_frames_of_ne _ (.inl hpage),
    put_frames_of_ne _ (.inl hpage), tableEntered, put_frames_of_ne _ (.inl hfixmap),
    put_frames_self _ le_rfl (by omega)]

theorem made_zero (hfixmap : k.frame j ≠ fixmapFrame) (hl : l < 1024)
    (hout : l < i ∨ i + count ≤ l) :
    (tableMade k fixmapFrame d i count q j s).frames (k.frame j) l = 0 := by
  rw [tableMade, put_frames_of_ne _ (.inl hfixmap), tableFilled, put_frames_of_ne _ (.inr hout),
    put_frames_self _ (Nat.zero_le l) (by omega)]

theorem made_entry (hfixmap : k.frame j ≠ fixmapFrame) (hlo : i ≤ l) (hhi : l < i + count) :
    (tableMade k fixmapFrame d i count q j s).frames (k.frame j) l = entryOf (q + (l - i)) := by
  rw [tableMade, put_frames_of_ne _ (.inl hfixmap), tableFilled, put_frames_self _ hlo hhi]

end

end

/-- The pages of `done`, by number, are mapped by tables that have been made for that and map nothing
else. -/
structure Mapped (k : Kernel) (s₀ : Mmu) (fixmapFrame : Nat) (done : Nat → Prop) (m : Mapping) :
    Prop where
  keeps : Keeps k s₀ fixmapFrame m.mmu
  taken_le : m.taken ≤ k.pages.length
  temp_free : m.mmu.frames fixmapFrame 1022 = 0
  entry : ∀ q, done q → ∃ j < m.taken,
    m.mmu.frames s₀.root (768 + q / 1024) = entryOf (k.frame j) ∧
      ∀ p, p / 1024 = q / 1024 →
        (done p → m.mmu.frames (k.frame j) (p % 1024) = entryOf p) ∧
          (¬ done p → m.mmu.frames (k.frame j) (p % 1024) = 0)
  unused : ∀ d, 768 ≤ d → d < 1024 → (∀ q, done q → 768 + q / 1024 ≠ d) →
    m.mmu.frames s₀.root d = 0

section
variable {k : Kernel} {s₀ : Mmu} {fixmapFrame : Nat} {done : Nat → Prop} {m : Mapping}

theorem Mapped.start (hboot : Booted k s₀ fixmapFrame) (start : Word) :
    Mapped k s₀ fixmapFrame (fun _ => False) ⟨start, 0, s₀⟩ where
  keeps := ⟨rfl, fun _ _ _ _ _ => rfl⟩
  taken_le := Nat.zero_le _
  temp_free := hboot.temp_free
  entry _ h := h.elim
  unused d hlo hhi _ := hboot.linear_empty d hlo hhi

/-- Pages `q` to `last`, all behind one entry that none of the pages before is behind. -/
theorem Mapped.table {q last : Nat} (h : Mapped k s₀ fixmapFrame done m)
    (hboot : Booted k s₀ fixmapFrame) (hfresh : Fresh k s₀) (hq : m.start.toNat / 4096 = q)
    (hle : q ≤ last) (hslot : last / 1024 = q / 1024) (hlt : last < 262144)
    (hnew : ∀ p, done p → p / 1024 < q / 1024) (htaken : m.taken < k.pages.length) :
    ∃ m', mapTable k (768 + q / 1024) (q % 1024) (last % 1024) m = some m' ∧
      m'.taken = m.taken + 1 ∧ m'.start.toNat = m.start.toNat + (last + 1 - q) * 4096 ∧
      Mapped k s₀ fixmapFrame (fun p => done p ∨ q ≤ p ∧ p ≤ last) m' := by
  have hcount : last % 1024 + 1 - q % 1024 = last + 1 - q := by omega
  have hstart : m.start.toNat + (last % 1024 + 1 - q % 1024) * 4096 < 4294967296 := by omega
  have heq := mapTable_eq h.keeps hboot hfresh (show 768 ≤ 768 + q / 1024 by omega) (by omega)
    htaken (show last % 1024 < 1024 by omega) (show q % 1024 ≤ last % 1024 by omega) hstart
  rw [hcount, hq] at heq
  have hroot := h.keeps.root_eq
  have hne_root : s₀.root ≠ k.frame m.taken := hfresh.ne_root hboot htaken
  have hne_fixmap : fixmapFrame ≠ k.frame m.taken := hfresh.ne_fixmap hboot htaken
  -- The root table apart from the new entry, and the tables made before.
  have hentries : ∀ d, d ≠ 768 + q / 1024 →
      (tableMade k fixmapFrame (768 + q / 1024) (q % 1024) (last + 1 - q) q m.taken
        m.mmu).frames s₀.root d = m.mmu.frames s₀.root d := fun d hd =>
    made_frames_of_ne (fun _ => hd) hne_root fun heq => absurd heq hboot.fixmap_ne.symm
  have htables : ∀ j < m.taken, ∀ l,
      (tableMade k fixmapFrame (768 + q / 1024) (q % 1024) (last + 1 - q) q m.taken
        m.mmu).frames (k.frame j) l = m.mmu.frames (k.frame j) l := by
    intro j hj l
    have hj' : j < k.pages.length := hj.trans htaken
    apply made_frames_of_ne
    · intro heq
      exact absurd (heq.trans hroot).symm (hfresh.ne_root hboot hj')
    · intro heq
      exact hj.ne (hfresh.injective j hj' m.taken htaken heq)
    · intro heq
      exact absurd heq.symm (hfresh.ne_fixmap hboot hj')
  refine ⟨_, heq, rfl, ?_, ?_, htaken, put_frames_self _ le_rfl (by decide), ?_, ?_⟩
  · show (m.start + BitVec.ofNat 32 ((last + 1 - q) * 4096)).toNat = _
    rw [BitVec.toNat_add, BitVec.toNat_ofNat]
    omega
  · exact (h.keeps.filled (by omega) htaken).putTemp _
  · rintro p (hp | ⟨hlo, hhi⟩)
    · obtain ⟨j, hj, hentry, hpages⟩ := h.entry p hp
      have hbefore := hnew p hp
      refine ⟨j, Nat.lt_succ_of_lt hj, (hentries _ (by omega)).trans hentry, fun p' hp' => ?_⟩
      -- A table made before, where the new pages are not.
      have hother : ¬ (q ≤ p' ∧ p' ≤ last) := by omega
      rw [or_iff_left hother, htables j hj]
      exact hpages p' hp'
    · have hindex : 768 + p / 1024 = 768 + q / 1024 := by omega
      refine ⟨m.taken, Nat.lt_succ_self _, ?_, fun p' hp' => ⟨?_, ?_⟩⟩
      · rw [hindex, ← hroot]
        rw [← hroot] at hne_root
        exact made_root hne_root (hroot ▸ hboot.fixmap_ne.symm)
      · rintro (hdone | ⟨hlo', hhi'⟩)
        · have := hnew p' hdone
          omega
        · have hpage : q + (p' % 1024 - q % 1024) = p' := by omega
          refine (made_entry hne_fixmap.symm (by omega) (by omega)).trans ?_
          rw [hpage]
      · intro hout
        have : ¬ (q ≤ p' ∧ p' ≤ last) := fun hin => hout (.inr hin)
        exact made_zero hne_fixmap.symm (by omega) (by omega)
  · intro d hlo hhi hunused
    refine (hentries d ?_).trans (h.unused d hlo hhi fun p hp => hunused p (.inl hp))
    exact (hunused q (.inr ⟨le_rfl, hle⟩)).symm

/-! ## The loops -/

theorem Mapped.congr {done' : Nat → Prop} (h : Mapped k s₀ fixmapFrame done m)
    (hiff : ∀ p, done p ↔ done' p) : Mapped k s₀ fixmapFrame done' m :=
  (funext fun p => propext (hiff p) : done = done') ▸ h

/-- An entry of the root table, as the loop reads it. -/
theorem Mapped.read (h : Mapped k s₀ fixmapFrame done m) (hboot : Booted k s₀ fixmapFrame)
    (hfresh : Fresh k s₀) {d : Nat} (hd : d < 1024) :
    m.mmu.read (swapperPgDir + BitVec.ofNat 32 (4 * d)) = some (m.mmu.frames s₀.root d) :=
  (at_swapper hd).read_eq (h.keeps.swapper hboot hfresh)

theorem Mapped.slot {q last : Nat} (h : Mapped k s₀ fixmapFrame done m)
    (hboot : Booted k s₀ fixmapFrame) (hfresh : Fresh k s₀) (hq : m.start.toNat / 4096 = q)
    (hle : q ≤ last) (hslot : last / 1024 = q / 1024) (hlt : last < 262144)
    (hnew : ∀ p, done p → p / 1024 < q / 1024) (htaken : m.taken < k.pages.length) :
    ∃ m', mapSlot k (768 + q / 1024) (q % 1024) (last % 1024) m = some m' ∧
      m'.taken = m.taken + 1 ∧ m'.start.toNat = m.start.toNat + (last + 1 - q) * 4096 ∧
      Mapped k s₀ fixmapFrame (fun p => done p ∨ q ≤ p ∧ p ≤ last) m' := by
  have hzero : m.mmu.frames s₀.root (768 + q / 1024) = 0 := by
    apply h.unused _ (by omega) (by omega)
    intro p hp
    have := hnew p hp
    omega
  have hread := h.read hboot hfresh (show 768 + q / 1024 < 1024 by omega)
  rw [hzero] at hread
  rw [mapSlot, hread]
  exact h.table hboot hfresh hq hle hslot hlt hnew htaken

/-- Behind an entry that is in use there is nothing to be mapped. -/
theorem Mapped.slot_none {p pteHead curPteTail : Nat} (h : Mapped k s₀ fixmapFrame done m)
    (hboot : Booted k s₀ fixmapFrame) (hfresh : Fresh k s₀) (hp : done p) (hlt : p < 262144) :
    mapSlot k (768 + p / 1024) pteHead curPteTail m = none := by
  obtain ⟨j, -, hentry, -⟩ := h.entry p hp
  have hread := h.read hboot hfresh (show 768 + p / 1024 < 1024 by omega)
  rw [hentry] at hread
  rw [mapSlot, hread]
  exact if_neg (entryOf_ne_zero (k.frame_lt j))

/-- The loop over `n + 1` entries. -/
theorem Mapped.slots {n q last : Nat} (h : Mapped k s₀ fixmapFrame done m)
    (hboot : Booted k s₀ fixmapFrame) (hfresh : Fresh k s₀) (hq : m.start.toNat / 4096 = q)
    (hle : q ≤ last) (hslot : last / 1024 = q / 1024 + n) (hlt : last < 262144)
    (hnew : ∀ p, done p → p / 1024 < q / 1024) (htaken : m.taken + n < k.pages.length) :
    ∃ m', mapSlots k (768 + last / 1024) (last % 1024) (n + 1) (768 + q / 1024) (q % 1024) m =
        some m' ∧
      m'.taken = m.taken + (n + 1) ∧
      Mapped k s₀ fixmapFrame (fun p => done p ∨ q ≤ p ∧ p ≤ last) m' := by
  induction n generalizing m q done with
  | zero =>
    obtain ⟨m', hmap, htaken', -, hmapped⟩ := h.slot hboot hfresh hq hle hslot hlt hnew htaken
    refine ⟨m', ?_, htaken', hmapped⟩
    have htail : ¬ 768 + q / 1024 ≠ 768 + last / 1024 := by omega
    rw [mapSlots, if_neg htail, hmap]
    rfl
  | succ n ih =>
    -- The pages up to the end of the first table.
    obtain ⟨mid, hmid⟩ : ∃ mid, mid = q / 1024 * 1024 + 1023 := ⟨_, rfl⟩
    obtain ⟨m', hmap, htaken', hstart, hmapped⟩ := h.slot hboot hfresh hq
      (show q ≤ mid by omega) (by omega) (by omega) hnew (by omega)
    have hrest : ∀ p, (done p ∨ q ≤ p ∧ p ≤ mid) → p / 1024 < (mid + 1) / 1024 := by
      rintro p (hp | hp)
      · have := hnew p hp
        omega
      · omega
    obtain ⟨m'', hmaps, htaken'', hmapped'⟩ := ih hmapped (show m'.start.toNat / 4096 = mid + 1 by
      omega) (by omega) (by omega) hrest (by omega)
    have htail : 768 + q / 1024 ≠ 768 + last / 1024 := by omega
    have hlast : mid % 1024 = 1023 := by omega
    have hnext : 768 + (mid + 1) / 1024 = 768 + q / 1024 + 1 := by omega
    have hfirst : (mid + 1) % 1024 = 0 := by omega
    rw [hlast] at hmap
    rw [hnext, hfirst] at hmaps
    refine ⟨m'', ?_, by omega, hmapped'.congr fun p => ?_⟩
    · rw [mapSlots, if_pos htail, hmap]
      exact hmaps
    · rw [or_assoc]
      refine or_congr_right ?_
      omega

end

/-! ## The ranges of memory -/

/-- The first page of a range. -/
def Range.first (r : Range) : Nat := r.start.toNat / 4096

def Range.last (r : Range) : Nat := (r.stop.toNat - 1) / 4096

/-- How many tables there are for a range. -/
def Range.tables (r : Range) : Nat := r.last / 1024 - r.first / 1024 + 1

/-- A range as `for_each_mem_range` has it, in the 1 GiB that the linear mapping has room for. -/
structure Range.Proper (r : Range) : Prop where
  nonempty : r.start.toNat < r.stop.toNat
  stop_le : r.stop.toNat ≤ 1073741824

/-- No table is for two of the ranges. -/
def TablesApart (ranges : List Range) : Prop :=
  ranges.Pairwise fun r r' => r.last / 1024 < r'.first / 1024

/-- The pages of the ranges. -/
def InRanges (ranges : List Range) (p : Nat) : Prop := ∃ r ∈ ranges, r.first ≤ p ∧ p ≤ r.last

section
variable {k : Kernel} {s₀ : Mmu} {fixmapFrame : Nat} {done : Nat → Prop} {m : Mapping} {r : Range}
  {ranges : List Range}

theorem va_toNat {x : Word} (hx : x.toNat < 1073741824) : (va x).toNat = 3221225472 + x.toNat := by
  rw [va, BitVec.toNat_add]
  show (x.toNat + 3221225472) % 4294967296 = _
  omega

theorem va_index {x : Word} (hx : x.toNat < 1073741824) :
    pgdIndex (va x) = 768 + x.toNat / 4096 / 1024 ∧
      pteIndex (va x) = x.toNat / 4096 % 1024 := by
  rw [pgdIndex_eq, pteIndex_eq, va_toNat hx]
  omega

theorem Range.Proper.bounds (h : r.Proper) :
    r.first ≤ r.last ∧ r.last < 262144 ∧ r.first / 1024 ≤ r.last / 1024 := by
  have hlt := h.nonempty
  have hle := h.stop_le
  unfold Range.first Range.last
  omega

theorem createLinearMappingRange_eq (h : r.Proper) (taken : Nat) (mmu : Mmu) :
    createLinearMappingRange k r.stop ⟨r.start, taken, mmu⟩ =
      mapSlots k (768 + r.last / 1024) (r.last % 1024) r.tables (768 + r.first / 1024)
        (r.first % 1024) ⟨r.start, taken, mmu⟩ := by
  have hlt := h.nonempty
  have hle := h.stop_le
  obtain ⟨-, -, hbounds⟩ := h.bounds
  have hlast : (r.stop - 1).toNat = r.stop.toNat - 1 := by
    rw [BitVec.toNat_sub]
    show (4294967296 - 1 + r.stop.toNat) % 4294967296 = _
    omega
  obtain ⟨hstop, hstop'⟩ := va_index (x := r.stop - 1) (by omega)
  obtain ⟨hstart, hstart'⟩ := va_index (x := r.start) (by omega)
  rw [hlast] at hstop hstop'
  have hcount : 768 + r.last / 1024 + 1 - (768 + r.first / 1024) = r.tables := by
    unfold Range.tables
    omega
  rw [createLinearMappingRange, hstop, hstop', hstart, hstart', ← hcount]
  rfl

theorem Mapped.range (h : Mapped k s₀ fixmapFrame done m) (hboot : Booted k s₀ fixmapFrame)
    (hfresh : Fresh k s₀) (hr : r.Proper) (hnew : ∀ p, done p → p / 1024 < r.first / 1024)
    (htaken : m.taken + r.tables ≤ k.pages.length) :
    ∃ m', createLinearMappingRange k r.stop { m with start := r.start } = some m' ∧
      m'.taken = m.taken + r.tables ∧
      Mapped k s₀ fixmapFrame (fun p => done p ∨ r.first ≤ p ∧ p ≤ r.last) m' := by
  obtain ⟨hle, hlt, hslot⟩ := hr.bounds
  have hstart : Mapped k s₀ fixmapFrame done { m with start := r.start } :=
    ⟨h.keeps, h.taken_le, h.temp_free, h.entry, h.unused⟩
  rw [createLinearMappingRange_eq hr]
  unfold Range.tables at htaken ⊢
  exact hstart.slots hboot hfresh rfl hle (by omega) hlt hnew (by show m.taken + _ < _; omega)

theorem Mapped.range_none {p : Nat} (h : Mapped k s₀ fixmapFrame done m)
    (hboot : Booted k s₀ fixmapFrame) (hfresh : Fresh k s₀) (hr : r.Proper) (hp : done p)
    (hslot : p / 1024 = r.first / 1024) :
    createLinearMappingRange k r.stop { m with start := r.start } = none := by
  obtain ⟨hle, hlt, -⟩ := hr.bounds
  have hstart : Mapped k s₀ fixmapFrame done { m with start := r.start } :=
    ⟨h.keeps, h.taken_le, h.temp_free, h.entry, h.unused⟩
  rw [createLinearMappingRange_eq hr, Range.tables, mapSlots, ← hslot,
    hstart.slot_none hboot hfresh hp (by omega)]
  rfl

/-- One turn of the loop over the ranges. -/
theorem createLinearMappingPageTable_cons (hr : r.Proper) :
    createLinearMappingPageTable k (r :: ranges) m =
      (createLinearMappingRange k r.stop { m with start := r.start }).bind
        (createLinearMappingPageTable k ranges) := by
  have hsome : ¬ r.start ≥ r.stop := by
    have hlt := hr.nonempty
    show ¬ r.stop.toNat ≤ r.start.toNat
    omega
  have hstart : (if r.start ≤ linearMappingVaToPa pageOffset ∧
      linearMappingVaToPa pageOffset < r.stop then linearMappingVaToPa pageOffset else r.start) =
      r.start := by
    split_ifs with hzero
    · apply BitVec.eq_of_toNat_eq
      have hle : r.start.toNat ≤ 0 := hzero.1
      show 0 = r.start.toNat
      omega
    · rfl
  rw [createLinearMappingPageTable, if_neg hsome, hstart]
  rfl

theorem inRanges_cons {p : Nat} :
    InRanges (r :: ranges) p ↔ (r.first ≤ p ∧ p ≤ r.last) ∨ InRanges ranges p := by
  unfold InRanges
  rw [List.exists_mem_cons_iff]

/-- The ranges that are left, where none needs a table that is in use. -/
theorem Mapped.allRanges (h : Mapped k s₀ fixmapFrame done m) (hboot : Booted k s₀ fixmapFrame)
    (hfresh : Fresh k s₀) (hproper : ∀ r ∈ ranges, r.Proper) (hapart : TablesApart ranges)
    (hnew : ∀ r ∈ ranges, ∀ p, done p → p / 1024 < r.first / 1024)
    (htaken : m.taken + (ranges.map Range.tables).sum ≤ k.pages.length) :
    ∃ m', createLinearMappingPageTable k ranges m = some m' ∧
      Mapped k s₀ fixmapFrame (fun p => done p ∨ InRanges ranges p) m' := by
  induction ranges generalizing m done with
  | nil =>
    refine ⟨m, rfl, h.congr fun p => ?_⟩
    have hnone : ¬ InRanges [] p := fun ⟨r, hr, _⟩ => List.not_mem_nil hr
    exact (or_iff_left hnone).symm
  | cons r ranges ih =>
    obtain ⟨hr, hrest⟩ := List.forall_mem_cons.mp hproper
    obtain ⟨hfirst, hapart'⟩ := List.pairwise_cons.mp hapart
    obtain ⟨hnew_r, hnew'⟩ := List.forall_mem_cons.mp hnew
    rw [List.map_cons, List.sum_cons] at htaken
    obtain ⟨m₁, hmap, htaken₁, hmapped⟩ := h.range hboot hfresh hr hnew_r (by omega)
    have hnext : ∀ r' ∈ ranges, ∀ p, (done p ∨ r.first ≤ p ∧ p ≤ r.last) →
        p / 1024 < r'.first / 1024 := by
      rintro r' hr' p (hp | hp)
      · exact hnew' r' hr' p hp
      · have := hfirst r' hr'
        omega
    obtain ⟨m', hmaps, hmapped'⟩ := ih hmapped hrest hapart' hnext (by omega)
    refine ⟨m', ?_, hmapped'.congr fun p => ?_⟩
    · rw [createLinearMappingPageTable_cons hr, hmap]
      exact hmaps
    · rw [or_assoc, inRanges_cons]

/-- Where one needs a table that is in use there is no outcome. -/
theorem Mapped.apart {m' : Mapping} (h : Mapped k s₀ fixmapFrame done m)
    (hboot : Booted k s₀ fixmapFrame) (hfresh : Fresh k s₀) (hproper : ∀ r ∈ ranges, r.Proper)
    (hsorted : ranges.Pairwise fun r r' => r.stop.toNat ≤ r'.start.toNat)
    (hbefore : ∀ r ∈ ranges, ∀ p, done p → p ≤ r.first)
    (htaken : m.taken + (ranges.map Range.tables).sum ≤ k.pages.length)
    (hmaps : createLinearMappingPageTable k ranges m = some m') :
    TablesApart ranges ∧ ∀ r ∈ ranges, ∀ p, done p → p / 1024 < r.first / 1024 := by
  induction ranges generalizing m done with
  | nil => exact ⟨List.Pairwise.nil, fun r hr => absurd hr List.not_mem_nil⟩
  | cons r ranges ih =>
    obtain ⟨hr, hrest⟩ := List.forall_mem_cons.mp hproper
    obtain ⟨hfirst, hsorted'⟩ := List.pairwise_cons.mp hsorted
    obtain ⟨hbefore_r, hbefore'⟩ := List.forall_mem_cons.mp hbefore
    rw [List.map_cons, List.sum_cons] at htaken
    rw [createLinearMappingPageTable_cons hr] at hmaps
    have hnew : ∀ p, done p → p / 1024 < r.first / 1024 := by
      intro p hp
      have hle := hbefore_r p hp
      by_contra hnot
      rw [h.range_none hboot hfresh hr hp (by omega)] at hmaps
      cases hmaps
    obtain ⟨m₁, hmap, htaken₁, hmapped⟩ := h.range hboot hfresh hr hnew (by omega)
    rw [hmap, Option.bind_some] at hmaps
    have hlt := hr.nonempty
    have hlast : r.first ≤ r.last := hr.bounds.1
    obtain ⟨hapart, hnext⟩ := ih hmapped hrest hsorted' (by
      rintro r' hr' p (hp | hp)
      · exact hbefore' r' hr' p hp
      · have hstop := hfirst r' hr'
        unfold Range.last at hp
        unfold Range.first
        omega) (by omega) hmaps
    refine ⟨List.pairwise_cons.mpr ⟨?_, hapart⟩, List.forall_mem_cons.mpr ⟨hnew, ?_⟩⟩
    · exact fun r' hr' => hnext r' hr' r.last (.inr ⟨hlast, le_rfl⟩)
    · exact fun r' hr' p hp => hnext r' hr' p (.inl hp)

end

/-! ## What is mapped then -/

/-- The pages of the ranges are mapped from `PAGE_OFFSET` on; no other address is mapped that was not
before, those in `aside` apart; and what stands in the tables stays there. -/
structure LinearlyMapped (s : Mmu) (ranges : List Range) (aside : Word → Prop) (s' : Mmu) :
    Prop where
  reached : ∀ x, pageOffset ≤ x → InRanges ranges ((linearMappingVaToPa x).toNat / 4096) →
    s'.walk x = some (linearMappingVaToPa x)
  only : ∀ x, s.walk x = none → s'.walk x ≠ none →
    (pageOffset ≤ x ∧ InRanges ranges ((linearMappingVaToPa x).toNat / 4096)) ∨ aside x
  kept : ∀ d < 1024, ∀ table, follow (s.frames s.root d) = some table →
    s'.frames s'.root d = s.frames s.root d ∧
      ∀ t < 1024, s.frames table t ≠ 0 → s'.frames table t = s.frames table t

/-- The 4 MiB where the tables are pages. -/
def InTables (x : Word) : Prop := x.toNat / 4194304 = 512

section
variable {k : Kernel} {s₀ : Mmu} {fixmapFrame : Nat} {done : Nat → Prop} {m : Mapping} {x : Word}

theorem linear_toNat (hx : pageOffset ≤ x) :
    (linearMappingVaToPa x).toNat = x.toNat - 3221225472 ∧ 3221225472 ≤ x.toNat := by
  have hle : 3221225472 ≤ x.toNat := hx
  have hlt := x.isLt
  refine ⟨?_, hle⟩
  rw [linearMappingVaToPa, BitVec.toNat_sub]
  show (4294967296 - 3221225472 + x.toNat) % 4294967296 = _
  omega

/-- An address of the linear mapping, in a page that is done. -/
theorem Mapped.walk_linear (h : Mapped k s₀ fixmapFrame done m) (hx : pageOffset ≤ x)
    (hdone : done ((linearMappingVaToPa x).toNat / 4096)) :
    m.mmu.walk x = some (linearMappingVaToPa x) := by
  obtain ⟨hphys, hle⟩ := linear_toNat hx
  have hlt := x.isLt
  rw [hphys] at hdone
  obtain ⟨j, -, htable, hpages⟩ := h.entry _ hdone
  have hentry := (hpages _ rfl).1 hdone
  have hd : x.toNat / 4194304 = 768 + (x.toNat - 3221225472) / 4096 / 1024 := by omega
  have ht : x.toNat / 4096 % 1024 = (x.toNat - 3221225472) / 4096 % 1024 := by omega
  have hfollow : follow (m.mmu.frames m.mmu.root (x.toNat / 4194304)) = some (k.frame j) := by
    rw [hd, h.keeps.root_eq, htable, follow_entryOf (k.frame_lt j)]
  have hpage : m.mmu.pageOf x = some ((x.toNat - 3221225472) / 4096) := by
    rw [pageOf, page_eq_some hfollow, ht, hentry, follow_entryOf (by omega)]
  rw [walk, hpage, Option.map_some]
  refine congrArg some (BitVec.eq_of_toNat_eq ?_)
  rw [hphys, BitVec.toNat_ofNat]
  omega

/-- From `PAGE_OFFSET` on nothing else is mapped. -/
theorem Mapped.linear_done {d t : Nat} (h : Mapped k s₀ fixmapFrame done m) (hlo : 768 ≤ d)
    (hhi : d < 1024) (ht : t < 1024) (hpage : m.mmu.page d t ≠ none) :
    done ((d - 768) * 1024 + t) := by
  by_contra hnot
  apply hpage
  by_cases hused : ∃ q, done q ∧ 768 + q / 1024 = d
  · obtain ⟨q, hq, rfl⟩ := hused
    obtain ⟨j, -, htable, hpages⟩ := h.entry q hq
    have hzero := (hpages ((768 + q / 1024 - 768) * 1024 + t) (by omega)).2 hnot
    have hindex : ((768 + q / 1024 - 768) * 1024 + t) % 1024 = t := by omega
    rw [hindex] at hzero
    have hfollow : follow (m.mmu.frames m.mmu.root (768 + q / 1024)) = some (k.frame j) := by
      rw [h.keeps.root_eq, htable, follow_entryOf (k.frame_lt j)]
    rw [page_eq_some hfollow, hzero, follow_zero]
  · have hempty := h.unused d hlo hhi fun q hq heq => hused ⟨q, hq, heq⟩
    rw [page, h.keeps.root_eq, hempty, follow_zero, Option.bind_none]

/-- The fixmap maps no more than before. -/
theorem Mapped.page_fixmap {t : Nat} (h : Mapped k s₀ fixmapFrame done m)
    (hboot : Booted k s₀ fixmapFrame) (hfresh : Fresh k s₀) : m.mmu.page 639 t = s₀.page 639 t := by
  rw [h.keeps.temp hboot hfresh, page_eq_some hboot.fixmap_table]
  by_cases ht : t = 1022
  · rw [ht, h.temp_free, hboot.temp_free]
  · rw [h.keeps.frames_eq fixmapFrame t (fun j hj => hfresh.ne_fixmap hboot hj)
      (fun heq => absurd heq hboot.fixmap_ne) fun _ => ht]

theorem Mapped.only (h : Mapped k s₀ fixmapFrame done m) (hboot : Booted k s₀ fixmapFrame)
    (hfresh : Fresh k s₀) (hbefore : s₀.walk x = none) (hafter : m.mmu.walk x ≠ none) :
    (pageOffset ≤ x ∧ done ((linearMappingVaToPa x).toNat / 4096)) ∨ InTables x := by
  have hlt := x.isLt
  have hpage : m.mmu.page (x.toNat / 4194304) (x.toNat / 4096 % 1024) ≠ none := fun hnone =>
    hafter (Option.map_eq_none_iff.mpr hnone)
  have hpage' : s₀.page (x.toNat / 4194304) (x.toNat / 4096 % 1024) = none :=
    Option.map_eq_none_iff.mp hbefore
  by_cases hself : x.toNat / 4194304 = 512
  · exact .inr hself
  left
  by_cases hlinear : 768 ≤ x.toNat / 4194304
  · have hdone := h.linear_done hlinear (by omega) (Nat.mod_lt _ (by decide)) hpage
    have hle : pageOffset ≤ x := by
      show 3221225472 ≤ x.toNat
      omega
    refine ⟨hle, ?_⟩
    rw [(linear_toNat hle).1]
    have hindex : (x.toNat - 3221225472) / 4096 =
        (x.toNat / 4194304 - 768) * 1024 + x.toNat / 4096 % 1024 := by omega
    rw [hindex]
    exact hdone
  · -- Elsewhere it is as before.
    exfalso
    apply hpage
    by_cases hfixmap : x.toNat / 4194304 = 639
    · rw [hfixmap] at hpage' ⊢
      rw [h.page_fixmap hboot hfresh, hpage']
    · rw [h.keeps.page hboot hfresh (by omega) hself hfixmap, hpage']

theorem Mapped.kept {d table : Nat} (h : Mapped k s₀ fixmapFrame done m)
    (hboot : Booted k s₀ fixmapFrame) (hfresh : Fresh k s₀) (hd : d < 1024)
    (htable : follow (s₀.frames s₀.root d) = some table) :
    m.mmu.frames m.mmu.root d = s₀.frames s₀.root d ∧
      ∀ t < 1024, s₀.frames table t ≠ 0 → m.mmu.frames table t = s₀.frames table t := by
  have hlt : d < 768 := by
    by_contra hnot
    rw [hboot.linear_empty d (by omega) hd, follow_zero] at htable
    cases htable
  refine ⟨h.keeps.entry hboot hfresh hlt, fun t ht hne => ?_⟩
  apply h.keeps.frames_eq table t fun j hj => hfresh.ne_table hboot hj hd htable
  · rintro rfl
    by_contra hnot
    exact hne (hboot.linear_empty t (by omega) ht)
  · rintro rfl rfl
    exact hne hboot.temp_free

end

/-- **The linear mapping.** For ranges of memory below 1 GiB, no two of them with pages behind the
same entry of the root table, the pages of the ranges are mapped from `PAGE_OFFSET` on; no other
address is mapped that was not before, those where the tables are pages apart; and no entry is lost
or changed that stood in a table before. -/
theorem createLinearMappingPageTable_correct (k : Kernel) (s : Mmu) (ranges : List Range)
    {fixmapFrame : Nat} (hboot : Booted k s fixmapFrame) (hfresh : Fresh k s)
    (hproper : ∀ r ∈ ranges, r.Proper) (hapart : TablesApart ranges)
    (hpages : (ranges.map Range.tables).sum ≤ k.pages.length) :
    ∃ m, createLinearMappingPageTable k ranges ⟨0, 0, s⟩ = some m ∧
      LinearlyMapped s ranges InTables m.mmu := by
  have henough : 0 + (ranges.map Range.tables).sum ≤ k.pages.length := by omega
  obtain ⟨m, hmap, hmapped⟩ := (Mapped.start hboot 0).allRanges hboot hfresh hproper hapart
    (fun _ _ _ hp => hp.elim) henough
  have hranges : Mapped k s fixmapFrame (InRanges ranges) m :=
    hmapped.congr fun p => or_iff_right not_false
  refine ⟨m, hmap, ?_, ?_, ?_⟩
  · exact fun x hx hdone => hranges.walk_linear hx hdone
  · exact fun x hbefore hafter => hranges.only hboot hfresh hbefore hafter
  · exact fun d hd table htable => hranges.kept hboot hfresh hd htable

/-! ## The memory that the bootloader reports -/

section
open Bootloader Intervals

/-- A node of the device tree. -/
def reportedRange (range : Nat × Nat) : Range :=
  ⟨BitVec.ofNat 32 range.1, BitVec.ofNat 32 range.2⟩

variable {i start stop : Nat} {banks : List Nat}

/-- What is reported begins where a bank does. -/
theorem addMemoryLoop_start (h : BanksFit i banks) (hstart : start % bxRamBankInterval = 0) :
    ∀ range ∈ addMemoryLoop i banks start stop, range.1 % bxRamBankInterval = 0 := by
  induction banks generalizing i start stop with
  | nil =>
    intro range hin
    unfold addMemoryLoop at hin
    split_ifs at hin
    · exact List.eq_of_mem_singleton hin ▸ hstart
    · exact absurd hin List.not_mem_nil
  | cons pages banks ih =>
    obtain ⟨hbase, -, -⟩ := h.sums
    have hnext : i * bxRamBankInterval % bxRamBankInterval = 0 := Nat.mul_mod_left _ _
    intro range hin
    unfold addMemoryLoop at hin
    simp only [hbase] at hin
    split_ifs at hin
    · exact ih h.tail hstart range hin
    · rcases List.mem_append.mp hin with hopen | hrest
      · exact List.eq_of_mem_singleton hopen ▸ hstart
      · exact ih h.tail hnext range hrest
    · exact ih h.tail hnext range hin
    · exact ih h.tail hstart range hin

/-- Eight banks end at 256 MiB. -/
theorem addMemoryLoop_stop (h : BanksFit 0 banks) (hlength : banks.length ≤ 8) :
    ∀ range ∈ addMemoryLoop 0 banks 0 0, range.1 < range.2 ∧ range.2 ≤ 268435456 := by
  intro range hin
  obtain ⟨hcanonical, -, hcovers⟩ := addMemoryLoop_spec h le_rfl (Nat.zero_le _)
  have hlt := hcanonical.proper range hin
  -- The last address that is reported is in a bank.
  have hlast : InBanks 0 banks (range.2 - 1) := by
    refine ((hcovers _).mp ⟨range, hin, by omega, by omega⟩).resolve_left ?_
    omega
  obtain ⟨k, pages, hbank, -, hhi⟩ := hlast
  have hk : k < banks.length := (List.getElem?_eq_some_iff.mp hbank).1
  have hpages := h.pages_le pages (List.mem_of_getElem? hbank)
  unfold bxRamBankInterval at hhi hpages
  omega

/-- The ranges of up to eight banks are proper and in order, and no table is for two of them. -/
theorem banks_tablesApart (h : BanksFit 0 banks) (hlength : banks.length ≤ 8) :
    (∀ r ∈ (addMemoryLoop 0 banks 0 0).map reportedRange, r.Proper) ∧
      ((addMemoryLoop 0 banks 0 0).map reportedRange).Pairwise
        (fun r r' => r.stop.toNat ≤ r'.start.toNat) ∧
      TablesApart ((addMemoryLoop 0 banks 0 0).map reportedRange) := by
  have hseparated := (addMemoryLoop_spec h le_rfl (Nat.zero_le _)).1.separated
  have hbounds := addMemoryLoop_stop h hlength
  have htoNat : ∀ range ∈ addMemoryLoop 0 banks 0 0,
      (reportedRange range).start.toNat = range.1 ∧ (reportedRange range).stop.toNat = range.2 := by
    intro range hin
    have hrange := hbounds range hin
    show (BitVec.ofNat 32 range.1).toNat = _ ∧ (BitVec.ofNat 32 range.2).toNat = _
    rw [BitVec.toNat_ofNat, BitVec.toNat_ofNat]
    omega
  refine ⟨?_, ?_, ?_⟩
  · intro r hr
    obtain ⟨range, hin, rfl⟩ := List.mem_map.mp hr
    have hrange := hbounds range hin
    obtain ⟨hstart, hstop⟩ := htoNat range hin
    exact ⟨by omega, by omega⟩
  · refine List.pairwise_map.mpr (hseparated.imp_of_mem fun hin hin' hgap => ?_)
    rw [(htoNat _ hin).2, (htoNat _ hin').1]
    exact hgap.le
  · refine List.pairwise_map.mpr (hseparated.imp_of_mem fun hin hin' hgap => ?_)
    have hrange := hbounds _ hin
    have haligned := @addMemoryLoop_start 0 0 0 banks h (Nat.zero_mod _) _ hin'
    unfold Range.last Range.first
    rw [(htoNat _ hin).2, (htoNat _ hin').1]
    unfold bxRamBankInterval at haligned
    omega

end

/-- The root table in frame 1, with itself, a table for the image in frame 2 and the fixmap in
frame 3; the image is a page of text in frame 16 and `fixmap_pte`. -/
def demoMmu : Mmu where
  root := 1
  frames q i :=
    if q = 1 then
      if i = 512 then entryOf 1 else if i = 513 then entryOf 2 else if i = 639 then entryOf 3 else 0
    else if q = 2 then
      if i = 0 then entryOf 1 else if i = 1 then entryOf 16 else if i = 2 then entryOf 3 else 0
    else 0

/-- Frames 256 and 257 are allocated. -/
def demoKernel : Kernel := ⟨0x80402000, [0x100000, 0x101000]⟩

theorem demo_follow {q i p : Nat} (h : follow (demoMmu.frames q i) = some p) :
    p = 1 ∨ p = 2 ∨ p = 3 ∨ p = 16 := by
  unfold demoMmu at h
  dsimp only at h
  split_ifs at h
  all_goals first
    | (rw [follow_entryOf (by decide), Option.some.injEq] at h; omega)
    | (rw [follow_zero] at h; cases h)

theorem demo_booted : Booted demoKernel demoMmu 3 where
  recursive := by decide
  swapper := by decide
  fixmap_table := by decide
  fixmap_address := ⟨by decide, by decide, by decide⟩
  fixmap_image := by decide
  fixmap_page := by decide
  fixmap_ne := by decide
  temp_free := by decide
  tables_ne d _ hself hfixmap table h := by
    have hroot : demoMmu.frames demoMmu.root d = if d = 513 then entryOf 2 else 0 := by
      show (if d = 512 then entryOf 1 else if d = 513 then entryOf 2
        else if d = 639 then entryOf 3 else 0) = _
      rw [if_neg hself, if_neg hfixmap]
    rw [hroot] at h
    split_ifs at h
    · rw [follow_entryOf (by decide)] at h
      cases h
      decide
    · cases h
  linear_empty d hlo _ := by
    show (if d = 512 then entryOf 1 else if d = 513 then entryOf 2
      else if d = 639 then entryOf 3 else 0) = 0
    rw [if_neg (by omega), if_neg (by omega), if_neg (by omega)]

theorem demo_fresh : Fresh demoKernel demoMmu where
  aligned := by decide
  injective := by decide
  unmapped j hj d _ t _ h := by
    have hframe : 256 ≤ demoKernel.frame j :=
      (by decide : ∀ j < 2, 256 ≤ demoKernel.frame j) j hj
    obtain ⟨table, -, hpage⟩ := exists_table h
    have := demo_follow hpage
    omega

/-- 2 MiB of memory. -/
def demoRanges : List Range := [⟨0, 0x200000⟩]

theorem demoRanges_proper : ∀ r ∈ demoRanges, r.Proper :=
  List.forall_mem_singleton.mpr ⟨by decide, by decide⟩

theorem createLinearMappingPageTable_correct_demo :
    ∃ m, createLinearMappingPageTable demoKernel demoRanges ⟨0, 0, demoMmu⟩ = some m ∧
      LinearlyMapped demoMmu demoRanges InTables m.mmu :=
  createLinearMappingPageTable_correct demoKernel demoMmu demoRanges demo_booted demo_fresh
    demoRanges_proper (List.pairwise_singleton _ _) (by decide)

/-- Two pages of memory behind the same entry. -/
def sharedRanges : List Range := [⟨0, 0x1000⟩, ⟨0x2000, 0x3000⟩]

/-- The new table is mapped at 0x80300000, where the tables are pages; and a second range behind the
same entry is not mapped at all. -/
theorem linearMapping_fails :
    (¬ ∃ m, createLinearMappingPageTable demoKernel demoRanges ⟨0, 0, demoMmu⟩ = some m ∧
      LinearlyMapped demoMmu demoRanges (fun _ => False) m.mmu) ∧
    createLinearMappingPageTable demoKernel sharedRanges ⟨0, 0, demoMmu⟩ = none := by
  have hstart := Mapped.start demo_booted 0
  constructor
  · rintro ⟨m, hmap, -, honly, -⟩
    obtain ⟨m', hmap', hmapped⟩ := hstart.allRanges demo_booted demo_fresh
      demoRanges_proper (List.pairwise_singleton _ _) (fun _ _ _ hp => hp.elim) (by decide)
    cases hmap.symm.trans hmap'
    obtain ⟨j, -, htable, -⟩ := hmapped.entry 0 (.inr ⟨_, List.mem_singleton_self _, by decide⟩)
    have hroot := hmapped.keeps.root_eq
    have hself : follow (m.mmu.frames m.mmu.root 512) = some 1 := by
      rw [hmapped.keeps.entry demo_booted demo_fresh (by decide)]
      decide
    have hpage : m.mmu.page 512 768 = some (demoKernel.frame j) := by
      rw [page_eq_some hself]
      exact (congrArg follow htable).trans (follow_entryOf (Kernel.frame_lt _ j))
    have hwalk : m.mmu.walk 0x80300000 ≠ none := by
      intro hnone
      cases hpage.symm.trans (Option.map_eq_none_iff.mp hnone)
    rcases honly 0x80300000 (by decide) hwalk with ⟨hle, -⟩ | hfalse
    · exact absurd hle (by decide)
    · exact hfalse
  · cases hmap : createLinearMappingPageTable demoKernel sharedRanges ⟨0, 0, demoMmu⟩ with
    | none => rfl
    | some m =>
      have hproper : ∀ r ∈ sharedRanges, r.Proper :=
        List.forall_mem_cons.mpr ⟨⟨by decide, by decide⟩,
          List.forall_mem_singleton.mpr ⟨by decide, by decide⟩⟩
      have hapart := (hstart.apart demo_booted demo_fresh hproper
        (List.pairwise_pair.mpr (by decide)) (fun _ _ _ hp => hp.elim) (by decide) hmap).1
      exact absurd (List.pairwise_pair.mp hapart) (by decide)

end XrLinux.Linux.Paging
