import XrLinux.Bootloader.BypassReads

/-!
# Bootloader — loading the kernel

`BiLoadKernel` of `main.c`, on the page tables of `paging.c` and the volume that the kernel is read
from. What it leaves is said by `PagesPlaced`: the pages up to some page are mapped, each to a page from the
heap that holds what the image has there, and the rest of the tables is as it was. Each of the loader's
four pieces of code is a page more, and its two loops are runs of such pages.
-/

namespace XrLinux.Bootloader

open Prog ByteMemory

/-! ## The header -/

/-- `struct BiKernelHeader`. The machine has numbers in the order of the file. -/
structure BiKernelHeader where
  magic : Nat
  minorVersion : Nat
  majorVersion : Nat
  virtualAddr : Nat
  msize : Nat
  entry : Nat
  flags : Nat
  dtbAddress : Nat
  maxDtbEnd : Nat
  deriving DecidableEq

/-- `sizeof(BlKernelHeader)`. -/
def kernelHeaderSize : Nat := 32

def BiKernelHeader.ofBytes (m : ByteMemory) : BiKernelHeader where
  magic := m.read32 0
  minorVersion := m.read16 4
  majorVersion := m.read16 6
  virtualAddr := m.read32 8
  msize := m.read32 12
  entry := m.read32 16
  flags := m.read32 20
  dtbAddress := m.read32 24
  maxDtbEnd := m.read32 28

/-- `BL_FLAG_MAP_DTB` is set. -/
def BiKernelHeader.mapDtb (h : BiKernelHeader) : Bool := h.flags &&& 1 ≠ 0

def biRangesOverlap (a0 a1 b0 b1 : Nat) : Bool := a0 ≤ b1 ∧ b0 ≤ a1

/-- The checks of the header, and what the rest of the loader sees of it. -/
def BiKernelHeader.check (h : BiKernelHeader) : Except Stop BiKernelHeader :=
  if h.magic ≠ 0x584c5258 then .error (.crash "invalid magic number")
  else if h.majorVersion ≠ 2 then .error (.crash "unsupported major version")
  else if h.entry < h.virtualAddr ∨ sub32 h.entry h.virtualAddr ≥ h.msize then
    .error (.crash "kernel entry point outside kernel image")
  else if h.mapDtb then
    let h := { h with dtbAddress := alignUp h.dtbAddress pageSize }
    if h.maxDtbEnd ≤ h.dtbAddress then
      .error (.crash "device tree mapping area has negative size")
    else if biRangesOverlap h.virtualAddr (sub32 (add32 h.virtualAddr h.msize) 1) h.dtbAddress
        h.maxDtbEnd then
      .error (.crash "device tree mapping area overlaps kernel image")
    else .ok h
  else .ok h

/-- Its crash for a file that is longer than the image; `%lx` is of 64 bits. -/
def fileTooLarge (fileSize : Nat) : Stop :=
  .crash ("kernel file too large (0x" ++ String.ofList (Nat.toDigits 16 fileSize) ++ " bytes)")

/-! ## The loader -/

/-- The page tables, with all of memory, and the disk. -/
structure Loading where
  paging : Paging
  disk : DiskState

abbrev LoadProg := Prog Loading Stop

namespace Loading

def setPaging (s : Loading) (paging : Paging) : Loading := { s with paging }

def setDisk (s : Loading) (disk : DiskState) : Loading := { s with disk }

def setMem (s : Loading) (mem : ByteMemory) : Loading :=
  { s with paging := { s.paging with mem } }

end Loading

/-- A read from the disk into memory. -/
def fillMemory (fill : ByteMemory → DiskProg ByteMemory) : LoadProg Unit := do
  let m := (← Prog.get).paging.mem
  let m ← Prog.zoom Loading.disk Loading.setDisk (fill m)
  Prog.modify fun s => s.setMem m

/-- A page: its buffer, what goes in there, and its place. -/
def loadPage (src : PageSource) (fill : Nat → ByteMemory → DiskProg ByteMemory) (virt : Nat) :
    LoadProg Unit := do
  let buffer ← Prog.zoom Loading.paging Loading.setPaging (allocatePage src)
  fillMemory (fill buffer)
  Prog.zoom Loading.paging Loading.setPaging (blMapPage src virt buffer)

/-- `while (current < limit)`, a page each time. -/
def loadPages (page : Nat → LoadProg Unit) (limit : Nat) : Nat → Nat → LoadProg Nat
  | 0, _ => Prog.stop .diverges
  | fuel + 1, current =>
    if current < limit then do
      page current
      loadPages page limit fuel (add32 current pageSize)
    else pure current

/-- `if (current < limit)`, for a page. -/
def loadPageBelow (page : Nat → LoadProg Unit) (limit current : Nat) : LoadProg Nat :=
  if current < limit then do
    page current
    return add32 current pageSize
  else pure current

section
variable (src : PageSource) (fw : Firmware) (part : BlPartition) (fs : Fs) (inode : BiInode)

/-- The first page, when the image starts inside of it. -/
def fillHead (virtualAddr current buffer : Nat) (m : ByteMemory) : DiskProg ByteMemory := do
  let headCount := sub32 virtualAddr current
  let tailCount := sub32 pageSize headCount
  let readCount := min tailCount (biInodeSize fs inode)
  let m := m.put buffer headCount fun _ => 0
  let m ← blFsFileRead fw part fs inode m (buffer + headCount) readCount 0 false
  return if readCount ≠ tailCount then
    m.put (buffer + headCount + readCount) (sub32 tailCount readCount) fun _ => 0 else m

/-- A page that the file has all of. -/
def fillWhole (virtualAddr current buffer : Nat) (m : ByteMemory) : DiskProg ByteMemory :=
  blFsFileRead fw part fs inode m buffer pageSize (sub32 current virtualAddr) true

/-- The page that the file ends in. -/
def fillTail (virtualAddr fileEnd current buffer : Nat) (m : ByteMemory) : DiskProg ByteMemory := do
  let headCount := sub32 fileEnd current
  let tailCount := sub32 pageSize headCount
  let m ← blFsFileRead fw part fs inode m buffer headCount (sub32 current virtualAddr) false
  return m.put (buffer + headCount) tailCount fun _ => 0

/-- A page behind the file. -/
def fillZero (buffer : Nat) (m : ByteMemory) : DiskProg ByteMemory :=
  return m.put buffer pageSize fun _ => 0

/-- The part of `BiLoadKernel` that puts the image in its place. -/
def loadImage (virtualAddr msize : Nat) : LoadProg Unit := do
  let fileEnd := add32 virtualAddr (biInodeSize fs inode)
  let current ← loadPageBelow
    (fun current => loadPage src (fillHead fw part fs inode virtualAddr current) current) virtualAddr
    (alignDown virtualAddr pageSize)
  let current ← loadPages
    (fun current => loadPage src (fillWhole fw part fs inode virtualAddr current) current)
    (alignDown fileEnd pageSize) rounds current
  let current ← loadPageBelow
    (fun current => loadPage src (fillTail fw part fs inode virtualAddr fileEnd current) current)
    fileEnd current
  let _ ← loadPages (fun current => loadPage src fillZero current)
    (alignUp (add32 virtualAddr msize) pageSize) rounds current

/-- `BiLoadKernel`, with the file that `BlFsFind` has found. What it returns is `BlKernelHeader`. -/
def biLoadKernel (file : Option BiInode) : LoadProg BiKernelHeader :=
  match file with
  | none => Prog.stop (.crash "failed to open kernel file")
  | some inode => do
    let bytes ← Prog.zoom Loading.disk Loading.setDisk
      (blFsFileRead fw part fs inode (fun _ => 0) 0 kernelHeaderSize 0 false)
    let header ← Prog.lift (BiKernelHeader.ofBytes bytes).check
    if biInodeSize fs inode > header.msize then Prog.stop (fileTooLarge (biInodeSize fs inode))
    else do
      loadImage src fw part fs inode header.virtualAddr header.msize
      return header

end

/-! ## Pages in their places -/

/-- There was no memory for one of the pages that are taken for `count` pages and their tables. -/
def Exhausted (src : PageSource) (taken count : Nat) (stop : Stop) : Prop :=
  stop = .crash "out of memory" ∧ ∃ n < taken + 2 * count, src.page n = none

theorem Exhausted.mono {src : PageSource} {taken count count' : Nat} {stop : Stop}
    (h : Exhausted src taken count stop) (hle : count ≤ count') : Exhausted src taken count' stop := by
  obtain ⟨hstop, n, hn, hnone⟩ := h
  exact ⟨hstop, n, by omega, hnone⟩

/-- The pages from `lo` up to `hi` are in place, each in a page of the heap behind the first `taken₀`,
and the others are where they were. -/
structure PagesPlaced (src : PageSource) (byte : Nat → BitVec 8) (map₀ : Nat → Option Nat)
    (taken₀ lo hi : Nat) (s : Paging) (map leaf : Nat → Option Nat) : Prop where
  tables : Tables src s map leaf
  used : Used map leaf
  outside : ∀ page, page < lo ∨ hi ≤ page → map page = map₀ page
  inside : ∀ page, lo ≤ page → page < hi → ∃ n phys, n < s.taken ∧ src.page n = some phys ∧
    map page = some phys ∧ (∀ d, leaf d ≠ some phys) ∧
    ∀ i < pageSize, s.mem (phys + i) = byte (page * pageSize + i)
  injective : ∀ page page', lo ≤ page → page < hi → lo ≤ page' → page' < hi →
    map page = map page' → page = page'
  taken_ge : taken₀ ≤ s.taken
  taken_le : s.taken ≤ taken₀ + 2 * (hi - lo)

/-- They are, and the disk can be read. -/
def Loading.PagesPlaced (vol : Volume) (src : PageSource) (byte : Nat → BitVec 8)
    (map₀ : Nat → Option Nat) (taken₀ lo hi : Nat) (s : Loading) : Prop :=
  vol.Steady s.disk ∧ ∃ map leaf, Bootloader.PagesPlaced src byte map₀ taken₀ lo hi s.paging map leaf

section
variable {src : PageSource} {vol : Volume} {byte : Nat → BitVec 8} {map₀ map leaf : Nat → Option Nat}
  {taken₀ lo hi : Nat} {s : Loading}

/-- What is written to a page that is no table leaves the tables as they are. -/
theorem Tables.putPage {s : Paging} (h : Tables src s map leaf) {p taken : Nat}
    (hp : p % pageSize = 0) (hroot : p ≠ src.root) (hleaf : ∀ d, leaf d ≠ some p)
    (htaken : s.taken ≤ taken) (bytes : Nat → BitVec 8) :
    Tables src { mem := s.mem.put p pageSize bytes, taken } map leaf := by
  have hentry : ∀ q, q % pageSize = 0 → p ≠ q → ∀ j < levelSize,
      Paging.entry { mem := s.mem.put p pageSize bytes, taken } q j = s.entry q j := by
    intro q hq hne j hj
    simp only [pageSize, levelSize] at hp hq hj ⊢
    exact SameOn.read32 fun x _ _ => put_of_not_mem s.mem bytes (by omega)
  refine ⟨fun d hd => ?_, fun d q hq => ?_, h.leaf_injective, h.none_eq, fun d q hq t ht => ?_,
    h.map_address⟩
  · rw [hentry _ src.root_address.2.1 hroot d hd]
    exact h.root_eq d hd
  · obtain ⟨n, hn, hpage⟩ := h.leaf_page d q hq
    exact ⟨n, lt_of_lt_of_le hn htaken, hpage⟩
  · have hne : p ≠ q := by
      rintro rfl
      exact hleaf d hq
    rw [hentry q (h.leaf_address hq).1.2.1 hne t ht]
    exact h.some_eq d q hq t ht

theorem add32_pageSize {page : Nat} (h : page * pageSize + pageSize < 4294967296) :
    add32 (page * pageSize) pageSize = (page + 1) * pageSize := by
  rw [Nat.add_mul, Nat.one_mul]
  exact Nat.mod_eq_of_lt h

/-- One page more, if its buffer can be filled. -/
theorem loadPage_post {fill : Nat → ByteMemory → DiskProg ByteMemory} {good : Prop}
    (h : s.PagesPlaced vol src byte map₀ taken₀ lo hi) (hlo : lo ≤ hi) (hhi : hi < 1048576)
    (hfill : ∀ buffer m disk, buffer % pageSize = 0 → vol.Steady disk →
      Post (fill buffer m) disk (fun m' disk' => good ∧ vol.Steady disk' ∧
        m' = m.put buffer pageSize fun i => byte (hi * pageSize + i)) fun _ _ => ¬good) :
    Post (loadPage src fill (hi * pageSize)) s
      (fun _ s' => good ∧ s'.PagesPlaced vol src byte map₀ taken₀ lo (hi + 1))
      fun stop _ => Exhausted src taken₀ (hi + 1 - lo) stop ∨ ¬good := by
  obtain ⟨hsteady, map, leaf, hplaced⟩ := h
  have hge := hplaced.taken_ge
  have hle := hplaced.taken_le
  unfold loadPage
  rw [post_bind, post_zoom, allocatePage, post_bind, post_get]
  cases hpage : src.page s.paging.taken with
  | none => exact .inl ⟨rfl, s.paging.taken, by omega, hpage⟩
  | some p =>
    obtain ⟨haddr, hroot⟩ := src.page_address _ _ hpage
    -- a page that was taken before is another one
    have hnew : ∀ n q, n ≠ s.paging.taken → src.page n = some q → q ≠ p := by
      rintro n q hn hq rfl
      exact hn (src.page_injective _ _ _ hq hpage)
    have hleafnew : ∀ d, leaf d ≠ some p := by
      intro d hd
      obtain ⟨n, hn, hq⟩ := hplaced.tables.leaf_page d p hd
      exact hnew n p (by omega) hq rfl
    rw [post_bind, post_modify, post_pure, post_bind]
    unfold fillMemory
    rw [post_bind, post_get, post_bind, post_zoom]
    refine (hfill p _ s.disk haddr.2.1 hsteady).mono ?_ fun _ _ => .inr
    rintro m' disk' ⟨hgood, hsteady', rfl⟩
    rw [post_modify, post_zoom]
    have htables := hplaced.tables.putPage haddr.2.1 hroot hleafnew (Nat.le_succ s.paging.taken)
      fun i => byte (hi * pageSize + i)
    have hvirt : hi * pageSize < 4294967296 := by
      simp only [pageSize]
      omega
    have hnumber : hi * pageSize / pageSize = hi := Nat.mul_div_cancel _ (by decide)
    refine (blMapPage_places htables hplaced.used hvirt ⟨haddr.2.1, haddr.2.2⟩).mono ?_ ?_
    · rintro _ s' ⟨leaf', htables', hused', hge', hle', hfrom, hmem⟩
      rw [hnumber] at htables' hused'
      dsimp only at hge' hle' hfrom hmem
      have hkeeps : ∀ n q, n < s.paging.taken + 1 → src.page n = some q → (∀ d, leaf d ≠ some q) →
          (∀ d, leaf' d ≠ some q) ∧ ∀ i < pageSize, s'.mem (q + i) =
            (s.paging.mem.put p pageSize fun i => byte (hi * pageSize + i)) (q + i) := by
        intro n q hn hq hnone
        have hnone' : ∀ d, leaf' d ≠ some q := by
          intro d hd
          rcases hfrom d q hd with hold | hnext
          · exact hnone d hold
          · have := src.page_injective _ _ _ hq hnext
            omega
        obtain ⟨hqaddr, hqroot⟩ := src.page_address _ _ hq
        exact ⟨hnone', hmem q hqaddr.2.1 hqroot hnone'⟩
      have hframe : ∀ page, lo ≤ page → page < hi + 1 → ∃ n phys, n < s'.taken ∧
          src.page n = some phys ∧ Function.update map hi (some p) page = some phys ∧
          (∀ d, leaf' d ≠ some phys) ∧ (page < hi → n < s.paging.taken) ∧
          ∀ i < pageSize, s'.mem (phys + i) = byte (page * pageSize + i) := by
        intro page hlo' hhi'
        by_cases heq : page = hi
        · subst heq
          obtain ⟨hnone', hbytes⟩ := hkeeps s.paging.taken p (Nat.lt_succ_self _) hpage hleafnew
          refine ⟨s.paging.taken, p, by omega, hpage, Function.update_self .., hnone', by omega,
            fun i hi => ?_⟩
          rw [hbytes i hi]
          exact put_byte s.paging.mem _ hi
        · obtain ⟨n, q, hn, hq, hmap, hnone, hbytes⟩ := hplaced.inside page hlo' (by omega)
          obtain ⟨hnone', hbytes'⟩ := hkeeps n q (by omega) hq hnone
          have hqp := hnew n q (by omega) hq
          refine ⟨n, q, by omega, hq, ?_, hnone', fun _ => hn, fun i hi => ?_⟩
          · rw [Function.update_of_ne heq]
            exact hmap
          · rw [hbytes' i hi, ← hbytes i hi]
            exact put_page_of_ne s.paging.mem _ haddr.2.1 (src.page_address _ _ hq).1.2.1 hqp hi
      refine ⟨hgood, hsteady', Function.update map hi (some p), leaf', htables', hused',
        fun page hout => ?_, fun page hlo' hhi' => ?_, fun a b hlo₁ hhi₁ hlo₂ hhi₂ hsame => ?_,
        by show taken₀ ≤ s'.taken; omega, by show s'.taken ≤ _; omega⟩
      · rw [Function.update_of_ne (by omega)]
        exact hplaced.outside page (by omega)
      · obtain ⟨n, q, hn, hq, hmap, hnone, -, hbytes⟩ := hframe page hlo' hhi'
        exact ⟨n, q, hn, hq, hmap, hnone, hbytes⟩
      · -- the new page is in none of the frames of the others
        have hother : ∀ page, lo ≤ page → page < hi → map page ≠ some p := by
          intro page hlo' hhi' hp
          obtain ⟨n, q, hn, hq, hmap, -⟩ := hplaced.inside page hlo' hhi'
          rw [hp, Option.some.injEq] at hmap
          exact hnew n q (by omega) hq hmap.symm
        by_cases ha : a = hi
        · by_cases hb : b = hi
          · rw [ha, hb]
          · rw [ha, Function.update_self, Function.update_of_ne hb] at hsame
            exact absurd hsame.symm (hother b hlo₂ (by omega))
        · by_cases hb : b = hi
          · rw [hb, Function.update_self, Function.update_of_ne ha] at hsame
            exact absurd hsame (hother a hlo₁ (by omega))
          · rw [Function.update_of_ne ha, Function.update_of_ne hb] at hsame
            exact hplaced.injective a b hlo₁ (by omega) hlo₂ (by omega) hsame
    · rintro stop s' ⟨rfl, rfl, hnone⟩
      exact .inl ⟨rfl, s.paging.taken + 1, by omega, hnone⟩

/-- A loop, if each of its pages can be filled. -/
theorem loadPages_post {page : Nat → LoadProg Unit} {good : Nat → Prop} {limit current fuel : Nat}
    (hpage : ∀ n s, current ≤ n → n < limit → s.PagesPlaced vol src byte map₀ taken₀ lo n →
      Post (page (n * pageSize)) s
        (fun _ s' => good n ∧ s'.PagesPlaced vol src byte map₀ taken₀ lo (n + 1))
        fun stop _ => Exhausted src taken₀ (n + 1 - lo) stop ∨ ¬good n)
    (hlimit : limit < 1048576) (hfuel : limit - current < fuel)
    (h : s.PagesPlaced vol src byte map₀ taken₀ lo current) :
    Post (loadPages page (limit * pageSize) fuel (current * pageSize)) s
      (fun next s' => next = max current limit * pageSize ∧
        s'.PagesPlaced vol src byte map₀ taken₀ lo (max current limit) ∧
        ∀ n, current ≤ n → n < limit → good n)
      fun stop _ => Exhausted src taken₀ (limit - lo) stop ∨
        ∃ n, current ≤ n ∧ n < limit ∧ ¬good n := by
  induction fuel generalizing current s with
  | zero => omega
  | succ fuel ih =>
    unfold loadPages
    by_cases hmore : current < limit
    · have hlt : current * pageSize < limit * pageSize :=
        Nat.mul_lt_mul_of_pos_right hmore (by decide)
      have hnext := @add32_pageSize current (by simp only [pageSize]; omega)
      rw [if_pos hlt, post_bind]
      refine (hpage current s le_rfl hmore h).mono (fun _ s' hstep => ?_) fun stop _ hstop => ?_
      · obtain ⟨hgood, hplaced⟩ := hstep
        rw [hnext]
        refine (ih (fun n s hn => hpage n s (by omega)) (by omega) hplaced).mono ?_ ?_
        · rintro next s'' ⟨rfl, hplaced', hall⟩
          rw [Nat.max_eq_right (by omega)] at hplaced' ⊢
          rw [Nat.max_eq_right (by omega)]
          refine ⟨rfl, hplaced', fun n hn hlt => ?_⟩
          by_cases heq : n = current
          · exact heq ▸ hgood
          · exact hall n (by omega) hlt
        · rintro stop s'' (hout | ⟨n, hn, hlt, hbad⟩)
          · exact .inl hout
          · exact .inr ⟨n, by omega, hlt, hbad⟩
      · rcases hstop with hout | hbad
        · exact .inl (hout.mono (by omega))
        · exact .inr ⟨current, le_rfl, hmore, hbad⟩
    · have hle : limit * pageSize ≤ current * pageSize := Nat.mul_le_mul_right _ (not_lt.1 hmore)
      rw [if_neg (not_lt.2 hle), post_pure, Nat.max_eq_left (not_lt.1 hmore)]
      exact ⟨rfl, h, fun n hn hlt => absurd hlt (by omega)⟩

/-- A page if there is one. -/
theorem loadPageBelow_post {page : Nat → LoadProg Unit} {good : Prop} {limit current : Nat}
    (hlt : current * pageSize < limit → current < 1048575)
    (hpage : current * pageSize < limit → Post (page (current * pageSize)) s
      (fun _ s' => good ∧ s'.PagesPlaced vol src byte map₀ taken₀ lo (current + 1))
      fun stop _ => Exhausted src taken₀ (current + 1 - lo) stop ∨ ¬good)
    (h : s.PagesPlaced vol src byte map₀ taken₀ lo current) :
    Post (loadPageBelow page limit (current * pageSize)) s
      (fun next s' => ∃ n, next = n * pageSize ∧ s'.PagesPlaced vol src byte map₀ taken₀ lo n ∧
        (current * pageSize < limit ∧ n = current + 1 ∨ limit ≤ current * pageSize ∧ n = current))
      fun stop _ => current * pageSize < limit ∧
        (Exhausted src taken₀ (current + 1 - lo) stop ∨ ¬good) := by
  unfold loadPageBelow
  by_cases hbelow : current * pageSize < limit
  · have hcurrent := hlt hbelow
    have hnext := @add32_pageSize current (by simp only [pageSize]; omega)
    rw [if_pos hbelow, post_bind]
    refine (hpage hbelow).mono ?_ fun _ _ => And.intro hbelow
    rintro _ s' ⟨-, hplaced⟩
    rw [post_pure]
    exact ⟨current + 1, hnext, hplaced, .inl ⟨hbelow, rfl⟩⟩
  · rw [if_neg hbelow]
    exact ⟨current, rfl, h, .inr ⟨not_lt.1 hbelow, rfl⟩⟩

end

/-! ## What goes into the buffers -/

/-- What the image has at an address: the file from `virtualAddr` on, and zeros around it. -/
def Volume.File.imageByte {vol : Volume} (file : vol.File) (virtualAddr x : Nat) : BitVec 8 :=
  if virtualAddr ≤ x ∧ x < virtualAddr + biInodeSize vol.fs file.inode then
    vol.fileByte file.map (x - virtualAddr)
  else 0

/-- All of the page is in the file. -/
def Volume.File.WholePage {vol : Volume} (file : vol.File) (virtualAddr page : Nat) : Prop :=
  virtualAddr ≤ page * pageSize ∧ (page + 1) * pageSize ≤ virtualAddr + biInodeSize vol.fs file.inode

/-- What the file has for the page is in whole sectors of the disk. -/
def Volume.File.InSectors {vol : Volume} (file : vol.File) (virtualAddr page : Nat) : Prop :=
  vol.RangeAligned file.map 0 pageSize (page * pageSize - virtualAddr)

/-- Around the cache nothing but whole sectors can be read. -/
def Volume.File.PagesInSectors {vol : Volume} (file : vol.File) (virtualAddr : Nat) : Prop :=
  ∀ page, file.WholePage virtualAddr page → file.InSectors virtualAddr page

section
variable {vol : Volume} {file : vol.File} {virtualAddr buffer : Nat} {m : ByteMemory} {disk : DiskState}

theorem Volume.File.imageByte_inside {x : Nat} (hlo : virtualAddr ≤ x)
    (hhi : x < virtualAddr + biInodeSize vol.fs file.inode) :
    file.imageByte virtualAddr x = vol.fileByte file.map (x - virtualAddr) := if_pos ⟨hlo, hhi⟩

theorem Volume.File.imageByte_outside {x : Nat}
    (h : x < virtualAddr ∨ virtualAddr + biInodeSize vol.fs file.inode ≤ x) :
    file.imageByte virtualAddr x = 0 := if_neg (by omega)

/-- `BlFsFileRead`, of what the file has. -/
theorem blFsFileRead_returns {inode : BiInode} {map : Nat → Nat} {size position : Nat}
    {bypassCache : Bool} (hmaps : vol.Maps inode map) (hs : vol.Steady disk)
    (hlt : size < 4294967296) (hin : position + size ≤ biInodeSize vol.fs inode)
    (haligned : bypassCache = true → vol.RangeAligned map buffer size position) :
    Returns (blFsFileRead vol.fw vol.part vol.fs inode m buffer size position bypassCache) disk
      fun m' disk' => vol.Steady disk' ∧
        m' = m.put buffer size fun i => vol.fileByte map (position + i) := by
  by_cases hsize : size = 0
  · subst hsize
    unfold blFsFileRead
    dsimp only
    rw [if_pos (.inl rfl)]
    exact ⟨hs, (put_zero ..).symm⟩
  · rw [blFsFileRead_eq hmaps hsize hlt hin]
    exact biReadFromInode_returns hmaps hs hin haligned

theorem fillHead_post (hs : vol.Steady disk)
    (hinside : virtualAddr / pageSize * pageSize < virtualAddr) :
    Post (fillHead vol.fw vol.part vol.fs file.inode virtualAddr (virtualAddr / pageSize * pageSize)
        buffer m) disk
      (fun m' disk' => True ∧ vol.Steady disk' ∧ m' = m.put buffer pageSize fun i =>
        file.imageByte virtualAddr (virtualAddr / pageSize * pageSize + i)) fun _ _ => ¬True := by
  obtain ⟨head, hhead⟩ : ∃ head, virtualAddr - virtualAddr / pageSize * pageSize = head := ⟨_, rfl⟩
  obtain ⟨size, hsize⟩ : ∃ size, biInodeSize vol.fs file.inode = size := ⟨_, rfl⟩
  obtain ⟨g, hg⟩ : ∃ g : Nat → BitVec 8,
      (fun i => file.imageByte virtualAddr (virtualAddr / pageSize * pageSize + i)) = g := ⟨_, rfl⟩
  have hpage : head < 4096 := by
    simp only [pageSize] at hhead
    omega
  have hheadCount : sub32 virtualAddr (virtualAddr / pageSize * pageSize) = head := by
    unfold sub32
    omega
  have htailCount : sub32 pageSize head = 4096 - head := by
    simp only [sub32, pageSize]
    omega
  have hrest : sub32 (4096 - head) (min (4096 - head) size) = 4096 - head - min (4096 - head) size := by
    unfold sub32
    omega
  -- the page has zeros, what is read, and zeros again
  have hbefore : ∀ i < head, g i = 0 := by
    intro i hi
    rw [← hg]
    exact Volume.File.imageByte_outside (by omega)
  have hread : ∀ i < min (4096 - head) size, g (head + i) = vol.fileByte file.map (0 + i) := by
    intro i hi
    rw [← hg]
    refine (Volume.File.imageByte_inside (by omega) (by omega)).trans ?_
    congr 1
    omega
  have hafter : ∀ i < 4096 - head - min (4096 - head) size,
      g (head + min (4096 - head) size + i) = 0 := by
    intro i hi
    rw [← hg]
    exact Volume.File.imageByte_outside (by omega)
  unfold fillHead
  dsimp only
  rw [hheadCount, htailCount, hsize, hrest, hg, post_bind]
  refine (Returns.post (blFsFileRead_returns file.maps hs (by omega) (by omega)
    fun h => Bool.noConfusion h)).mono ?_ fun _ _ => id
  rintro m' disk' ⟨hs', rfl⟩
  rw [post_pure, ← put_congr m hbefore, ← put_congr _ hread, put_put]
  refine ⟨trivial, hs', ?_⟩
  split
  · rename_i hshort
    rw [← put_congr _ hafter, Nat.add_assoc buffer, put_put]
    exact congrArg (fun n => m.put buffer n g) (by simp only [pageSize]; omega)
  · rename_i hall
    exact congrArg (fun n => m.put buffer n g) (by simp only [pageSize]; omega)

theorem fillWhole_post {page : Nat} (hs : vol.Steady disk) (hbuffer : buffer % pageSize = 0)
    (hpage : page < 1048576) (hwhole : file.WholePage virtualAddr page) :
    Post (fillWhole vol.fw vol.part vol.fs file.inode virtualAddr (page * pageSize) buffer m) disk
      (fun m' disk' => file.InSectors virtualAddr page ∧ vol.Steady disk' ∧
        m' = m.put buffer pageSize fun i => file.imageByte virtualAddr (page * pageSize + i))
      fun _ _ => ¬file.InSectors virtualAddr page := by
  obtain ⟨hlo, hhi⟩ := hwhole
  rw [Nat.add_mul, Nat.one_mul] at hhi
  have hposition : sub32 (page * pageSize) virtualAddr = page * pageSize - virtualAddr := by
    simp only [sub32, pageSize] at hlo ⊢
    omega
  have hin : page * pageSize - virtualAddr + pageSize ≤ biInodeSize vol.fs file.inode := by omega
  unfold fillWhole
  rw [hposition]
  by_cases hsectors : file.InSectors virtualAddr page
  · refine (Returns.post (blFsFileRead_returns file.maps hs (by decide) hin fun _ =>
      (rangeAligned_page hbuffer).2 hsectors)).mono ?_ fun _ _ => False.elim
    rintro m' disk' ⟨hs', rfl⟩
    refine ⟨hsectors, hs', put_congr m fun i hi => ?_⟩
    rw [Volume.File.imageByte_inside (by omega) (by omega)]
    congr 1
    omega
  · rw [blFsFileRead_eq file.maps (by decide) (by decide) hin]
    exact (readInodeBlocks_crash file.maps hs hin fun h =>
      hsectors ((rangeAligned_page hbuffer).1 h)).mono (fun _ _ => False.elim) fun _ _ _ => hsectors

theorem fillTail_post {page : Nat} (hs : vol.Steady disk) (hlo : virtualAddr ≤ page * pageSize)
    (hend : virtualAddr + biInodeSize vol.fs file.inode < 4294967296)
    (hinside : page * pageSize < virtualAddr + biInodeSize vol.fs file.inode)
    (hlast : virtualAddr + biInodeSize vol.fs file.inode < (page + 1) * pageSize) :
    Post (fillTail vol.fw vol.part vol.fs file.inode virtualAddr
        (virtualAddr + biInodeSize vol.fs file.inode) (page * pageSize) buffer m) disk
      (fun m' disk' => True ∧ vol.Steady disk' ∧
        m' = m.put buffer pageSize fun i => file.imageByte virtualAddr (page * pageSize + i))
      fun _ _ => ¬True := by
  obtain ⟨size, hsize⟩ : ∃ size, biInodeSize vol.fs file.inode = size := ⟨_, rfl⟩
  obtain ⟨g, hg⟩ : ∃ g : Nat → BitVec 8,
      (fun i => file.imageByte virtualAddr (page * pageSize + i)) = g := ⟨_, rfl⟩
  rw [Nat.add_mul, Nat.one_mul, hsize] at hlast
  rw [hsize] at hend hinside
  obtain ⟨head, hhead⟩ : ∃ head, virtualAddr + size - page * pageSize = head := ⟨_, rfl⟩
  have hpage : head < 4096 := by
    simp only [pageSize] at hhead hlast
    omega
  have hheadCount : sub32 (virtualAddr + size) (page * pageSize) = head := by
    unfold sub32
    omega
  have htailCount : sub32 pageSize head = 4096 - head := by
    simp only [sub32, pageSize]
    omega
  have hposition : sub32 (page * pageSize) virtualAddr = page * pageSize - virtualAddr := by
    unfold sub32
    omega
  have hread : ∀ i < head, g i = vol.fileByte file.map (page * pageSize - virtualAddr + i) := by
    intro i hi
    rw [← hg]
    refine (Volume.File.imageByte_inside (by omega) (by omega)).trans ?_
    congr 1
    omega
  have hafter : ∀ i < 4096 - head, g (head + i) = 0 := by
    intro i hi
    rw [← hg]
    exact Volume.File.imageByte_outside (by omega)
  unfold fillTail
  dsimp only
  rw [hsize, hheadCount, htailCount, hposition, hg, post_bind]
  refine (Returns.post (blFsFileRead_returns file.maps hs (by omega) (by omega)
    fun h => Bool.noConfusion h)).mono ?_ fun _ _ => id
  rintro m' disk' ⟨hs', rfl⟩
  rw [post_pure, ← put_congr m hread, ← put_congr _ hafter, put_put]
  exact ⟨trivial, hs', congrArg (fun n => m.put buffer n g) (by simp only [pageSize]; omega)⟩

theorem fillZero_post {page : Nat} (hs : vol.Steady disk)
    (hend : virtualAddr + biInodeSize vol.fs file.inode ≤ page * pageSize) :
    Post (fillZero buffer m) disk
      (fun m' disk' => True ∧ vol.Steady disk' ∧
        m' = m.put buffer pageSize fun i => file.imageByte virtualAddr (page * pageSize + i))
      fun _ _ => ¬True :=
  ⟨trivial, hs, put_congr m fun _ _ => (Volume.File.imageByte_outside (by omega)).symm⟩

end

/-! ## The image -/

section
variable {src : PageSource} {vol : Volume} {file : vol.File} {map₀ leaf₀ : Nat → Option Nat}
  {taken₀ virtualAddr msize : Nat} {s : Loading}

/-- The number of the page behind the image. -/
def imageEnd (virtualAddr msize : Nat) : Nat := (virtualAddr + msize + 4095) / pageSize

theorem alignDown_page {x : Nat} (hx : x < 4294967296) :
    alignDown x pageSize = x / pageSize * pageSize := by
  have hdown := @alignDown_eq 12 (by decide) x hx
  rw [show pageSize = 2 ^ 12 from rfl, hdown]
  omega

theorem alignUp_page {x : Nat} (hx : x ≤ 0xfffff000) :
    alignUp x pageSize = (x + 4095) / pageSize * pageSize := by
  have hup := @alignUp_eq 12 (by decide) x (by omega)
  rw [if_pos (by omega)] at hup
  rw [show pageSize = 2 ^ 12 from rfl, hup]
  omega

/-- All of the image is in place, or there was not the memory for it, or some page of it is not in whole
sectors. -/
theorem loadImage_post
    (h : s.PagesPlaced vol src (file.imageByte virtualAddr) map₀ taken₀ (virtualAddr / pageSize)
      (virtualAddr / pageSize))
    (hfile : biInodeSize vol.fs file.inode ≤ msize) (hmsize : 0 < msize)
    (hfits : virtualAddr + msize ≤ 0xfffff000) :
    Post (loadImage src vol.fw vol.part vol.fs file.inode virtualAddr msize) s
      (fun _ s' => file.PagesInSectors virtualAddr ∧
        s'.PagesPlaced vol src (file.imageByte virtualAddr) map₀ taken₀ (virtualAddr / pageSize)
          (imageEnd virtualAddr msize))
      fun stop _ => Exhausted src taken₀ (imageEnd virtualAddr msize - virtualAddr / pageSize) stop ∨
        ¬file.PagesInSectors virtualAddr := by
  obtain ⟨size, hsize⟩ : ∃ size, biInodeSize vol.fs file.inode = size := ⟨_, rfl⟩
  obtain ⟨first, hfirst⟩ : ∃ first, virtualAddr / pageSize = first := ⟨_, rfl⟩
  obtain ⟨last, hlast⟩ : ∃ last, imageEnd virtualAddr msize = last := ⟨_, rfl⟩
  obtain ⟨whole, hwhole⟩ : ∃ whole, (virtualAddr + size) / pageSize = whole := ⟨_, rfl⟩
  rw [hsize] at hfile
  rw [hfirst] at h ⊢
  rw [hlast]
  have hpages : first * 4096 ≤ virtualAddr ∧ virtualAddr < first * 4096 + 4096 ∧
      whole * 4096 ≤ virtualAddr + size ∧ virtualAddr + size < whole * 4096 + 4096 ∧
      virtualAddr + msize ≤ last * 4096 ∧ last * 4096 < virtualAddr + msize + 4096 := by
    unfold imageEnd at hlast
    simp only [pageSize] at hfirst hlast hwhole
    omega
  have hfileEnd : add32 virtualAddr size = virtualAddr + size := Nat.mod_eq_of_lt (by omega)
  have hend : add32 virtualAddr msize = virtualAddr + msize := Nat.mod_eq_of_lt (by omega)
  have hbad : ∀ n, file.WholePage virtualAddr n → ¬file.InSectors virtualAddr n →
      ¬file.PagesInSectors virtualAddr := fun n hn hnot hall => hnot (hall n hn)
  unfold loadImage
  dsimp only
  rw [hsize, hfileEnd, hend, alignDown_page (by omega), alignDown_page (by omega),
    alignUp_page (by omega), hfirst, hwhole, show (virtualAddr + msize + 4095) / pageSize = last from hlast,
    post_bind]
  -- the page that the image starts inside of
  refine (@loadPageBelow_post src vol _ map₀ taken₀ first s _ True virtualAddr first
    (fun _ => by omega)
    (fun hinside => ?_) h).mono ?_ ?_
  · have hinside' : virtualAddr / pageSize * pageSize < virtualAddr := by rwa [hfirst]
    refine loadPage_post h le_rfl (by omega) fun buffer m disk _ hs => ?_
    have hhead := @fillHead_post vol file virtualAddr buffer m disk hs hinside'
    rwa [hfirst] at hhead
  · rintro _ s₁ ⟨head, rfl, hplaced₁, hheadEq⟩
    have hhead : first ≤ head ∧ head ≤ first + 1 ∧ virtualAddr ≤ head * 4096 ∧
        (head = first + 1 → first * 4096 < virtualAddr) := by
      simp only [pageSize] at hheadEq
      omega
    rw [post_bind]
    -- the pages that the file has all of
    refine (@loadPages_post src vol _ map₀ taken₀ first s₁ _ (file.InSectors virtualAddr) whole head
      rounds (fun n s hn hlt hs => ?_) (by omega) (by simp only [rounds]; omega) hplaced₁).mono ?_ ?_
    · refine loadPage_post hs (by omega) (by omega) fun buffer m disk hbuffer hsteady => ?_
      refine fillWhole_post hsteady hbuffer (by omega) ⟨?_, ?_⟩
      · simp only [pageSize]
        omega
      · rw [hsize]
        simp only [pageSize]
        omega
    · rintro _ s₂ ⟨rfl, hplaced₂, hgood⟩
      have hall : file.PagesInSectors virtualAddr := by
        rintro n ⟨hlo, hhi⟩
        rw [hsize] at hhi
        simp only [pageSize] at hlo hhi
        exact hgood n (by omega) (by omega)
      rw [post_bind]
      -- the page that the file ends in
      refine (@loadPageBelow_post src vol _ map₀ taken₀ first s₂ _ True (virtualAddr + size)
        (max head whole) (fun hinside => ?_) (fun hinside => ?_) hplaced₂).mono ?_ ?_
      · simp only [pageSize] at hinside
        omega
      · refine loadPage_post hplaced₂ (by omega) (by omega) fun buffer m disk _ hs => ?_
        have htail := @fillTail_post vol file virtualAddr buffer m disk (max head whole) hs
        rw [hsize] at htail
        simp only [pageSize] at htail hinside ⊢
        exact htail (by omega) (by omega) hinside (by omega)
      · rintro _ s₃ ⟨behind, rfl, hplaced₃, hbehindEq⟩
        have hbehind : first ≤ behind ∧ behind ≤ last ∧ virtualAddr + size ≤ behind * 4096 := by
          simp only [pageSize] at hbehindEq
          omega
        rw [post_bind]
        -- the pages behind the file
        refine (@loadPages_post src vol _ map₀ taken₀ first s₃ _ (fun _ => True) last behind
          rounds (fun n s hn hlt hs => ?_) (by omega) (by simp only [rounds]; omega) hplaced₃).mono ?_ ?_
        · refine loadPage_post hs (by omega) (by omega) fun buffer m disk _ hsteady => ?_
          refine fillZero_post hsteady ?_
          rw [hsize]
          simp only [pageSize]
          omega
        · rintro next s₄ ⟨-, hplaced₄, -⟩
          rw [Nat.max_eq_right hbehind.2.1] at hplaced₄
          exact ⟨hall, hplaced₄⟩
        · rintro stop s₄ (hout | ⟨n, -, -, hnot⟩)
          · exact .inl hout
          · exact absurd trivial hnot
      · rintro stop s₃ ⟨hinside, hout | hnot⟩
        · simp only [pageSize] at hinside
          exact .inl (hout.mono (by omega))
        · exact absurd trivial hnot
    · rintro stop s₂ (hout | ⟨n, hn, hlt, hnot⟩)
      · exact .inl (hout.mono (by omega))
      · refine .inr (hbad n ⟨?_, ?_⟩ hnot)
        · simp only [pageSize]
          omega
        · rw [hsize]
          simp only [pageSize]
          omega
  · rintro stop s₁ ⟨hinside, hout | hnot⟩
    · simp only [pageSize] at hinside
      exact .inl (hout.mono (by omega))
    · exact absurd trivial hnot

end

/-! ## What the loader leaves -/

/-- Where the tables map an address to, as `BlGetMapping` finds it. -/
def Paging.translate (src : PageSource) (s : Paging) (virt : Nat) : Option Nat :=
  ((blGetMapping src virt).run s).1.toOption

/-- The area of the image, in whole pages. -/
def BiKernelHeader.InArea (h : BiKernelHeader) (x : Nat) : Prop :=
  h.virtualAddr / pageSize * pageSize ≤ x ∧ x < imageEnd h.virtualAddr h.msize * pageSize

/-- The kernel image as the boot protocol has it. -/
structure ImageLoaded (src : PageSource) {vol : Volume} (file : vol.File) (h : BiKernelHeader)
    (s s' : Paging) : Prop where
  mapped : ∀ x, h.InArea x → ∃ phys, s'.translate src x = some phys ∧
    s'.mem phys = file.imageByte h.virtualAddr x
  apart : ∀ x y, h.InArea x → h.InArea y → s'.translate src x = s'.translate src y → x = y
  others : ∀ x < 4294967296, ¬h.InArea x → s'.translate src x = s.translate src x

section
variable {src : PageSource} {vol : Volume} {file : vol.File} {map leaf map₀ leaf₀ : Nat → Option Nat}
  {h h' : BiKernelHeader}

theorem Tables.translate_eq {s : Paging} (htables : Tables src s map leaf) {virt : Nat}
    (hvirt : virt < 4294967296) :
    s.translate src virt = (map (virt / pageSize)).map fun phys => phys + virt % pageSize := by
  obtain ⟨message, hrun, -⟩ := blGetMapping_run htables hvirt
  unfold Paging.translate
  rw [hrun]
  cases map (virt / pageSize) <;> rfl

theorem BiKernelHeader.ofBytes_congr {m m' : ByteMemory} (h : ∀ i < kernelHeaderSize, m i = m' i) :
    ofBytes m = ofBytes m' := by
  have h32 : ∀ a, a + 4 ≤ 32 → m.read32 a = m'.read32 a := fun a ha =>
    SameOn.read32 fun x _ hx => h x (lt_of_lt_of_le hx ha)
  have h16 : ∀ a, a + 2 ≤ 32 → m.read16 a = m'.read16 a := by
    intro a ha
    unfold read16
    rw [h a (show a < 32 by omega), h (a + 1) (show a + 1 < 32 by omega)]
  unfold ofBytes
  rw [h32 0 (by decide), h16 4 (by decide), h16 6 (by decide), h32 8 (by decide), h32 12 (by decide),
    h32 16 (by decide), h32 20 (by decide), h32 24 (by decide), h32 28 (by decide)]

/-- What a header that passes is like, and what the rest of the loader sees of it. -/
theorem BiKernelHeader.check_ok (hlt : h.entry < 4294967296) (hcheck : h.check = .ok h') :
    h.magic = 0x584c5258 ∧ h.majorVersion = 2 ∧ h.virtualAddr ≤ h.entry ∧
      h.entry - h.virtualAddr < h.msize ∧
      (h.mapDtb = false ∧ h' = h ∨
        h.mapDtb = true ∧ h' = { h with dtbAddress := alignUp h.dtbAddress pageSize } ∧
          alignUp h.dtbAddress pageSize < h.maxDtbEnd ∧
          biRangesOverlap h.virtualAddr (sub32 (add32 h.virtualAddr h.msize) 1)
            (alignUp h.dtbAddress pageSize) h.maxDtbEnd = false) := by
  unfold check at hcheck
  split at hcheck
  · cases hcheck
  · rename_i hmagic
    split at hcheck
    · cases hcheck
    · rename_i hmajor
      split at hcheck
      · cases hcheck
      · rename_i hentry
        have hsub : sub32 h.entry h.virtualAddr = h.entry - h.virtualAddr := by
          unfold sub32
          omega
        rw [hsub] at hentry
        refine ⟨not_not.1 hmagic, not_not.1 hmajor, by omega, by omega, ?_⟩
        split at hcheck
        · rename_i hmap
          dsimp only at hcheck
          split at hcheck
          · cases hcheck
          · rename_i hsize
            split at hcheck
            · cases hcheck
            · rename_i hoverlap
              cases hcheck
              exact .inr ⟨hmap, rfl, not_le.1 hsize, eq_false_of_ne_true hoverlap⟩
        · rename_i hmap
          cases hcheck
          exact .inl ⟨eq_false_of_ne_true hmap, rfl⟩

theorem BiKernelHeader.check_image (hlt : h.entry < 4294967296) (hcheck : h.check = .ok h') :
    h'.virtualAddr = h.virtualAddr ∧ h'.msize = h.msize ∧ 0 < h.msize := by
  obtain ⟨-, -, -, hentry, hdtb⟩ := check_ok hlt hcheck
  rcases hdtb with ⟨-, rfl⟩ | ⟨-, rfl, -⟩ <;> exact ⟨rfl, rfl, by omega⟩

theorem BiKernelHeader.inArea_iff {x : Nat} :
    h.InArea x ↔ h.virtualAddr / pageSize ≤ x / pageSize ∧
      x / pageSize < imageEnd h.virtualAddr h.msize := by
  unfold BiKernelHeader.InArea
  rw [Nat.le_div_iff_mul_le (by decide), Nat.div_lt_iff_lt_mul (by decide)]

theorem BiKernelHeader.InArea.lt {x : Nat} (hx : h.InArea x)
    (hfits : h.virtualAddr + h.msize ≤ 0xfffff000) : x < 4294967296 := by
  have hlt := hx.2
  simp only [imageEnd, pageSize] at hlt
  omega

/-- An address of the area is in the page that its page is mapped to. -/
theorem PagesPlaced.frame {taken₀ : Nat} {s : Paging}
    (hplaced : PagesPlaced src (file.imageByte h.virtualAddr) map₀ taken₀ (h.virtualAddr / pageSize)
      (imageEnd h.virtualAddr h.msize) s map leaf)
    (hfits : h.virtualAddr + h.msize ≤ 0xfffff000) {x : Nat} (hx : h.InArea x) :
    ∃ n phys, n < s.taken ∧ src.page n = some phys ∧ map (x / pageSize) = some phys ∧
      (∀ d, leaf d ≠ some phys) ∧ s.translate src x = some (phys + x % pageSize) ∧
      s.mem (phys + x % pageSize) = file.imageByte h.virtualAddr x := by
  obtain ⟨hlo, hhi⟩ := BiKernelHeader.inArea_iff.1 hx
  obtain ⟨n, phys, hn, hpage, hmap, hnone, hbytes⟩ := hplaced.inside _ hlo hhi
  refine ⟨n, phys, hn, hpage, hmap, hnone, ?_, ?_⟩
  · rw [hplaced.tables.translate_eq (hx.lt hfits), hmap]
    rfl
  · rw [hbytes _ (Nat.mod_lt _ (by decide)), Nat.div_add_mod']

/-- No two addresses of the area are mapped to one. -/
theorem PagesPlaced.apart {taken₀ : Nat} {s : Paging}
    (hplaced : PagesPlaced src (file.imageByte h.virtualAddr) map₀ taken₀ (h.virtualAddr / pageSize)
      (imageEnd h.virtualAddr h.msize) s map leaf)
    (hfits : h.virtualAddr + h.msize ≤ 0xfffff000) {x y : Nat} (hx : h.InArea x) (hy : h.InArea y)
    (hsame : s.translate src x = s.translate src y) : x = y := by
  obtain ⟨_, p, -, hp, hmap, -, hpx, -⟩ := hplaced.frame hfits hx
  obtain ⟨_, q, -, hq, hmap', -, hqy, -⟩ := hplaced.frame hfits hy
  have hpaddr := (src.page_address _ _ hp).1.2.1
  have hqaddr := (src.page_address _ _ hq).1.2.1
  rw [hpx, hqy, Option.some.injEq] at hsame
  have hframe : p = q ∧ x % pageSize = y % pageSize := by
    have hxmod := Nat.mod_lt x (show 0 < pageSize by decide)
    have hymod := Nat.mod_lt y (show 0 < pageSize by decide)
    simp only [pageSize] at hpaddr hqaddr hsame hxmod hymod ⊢
    omega
  -- one frame is of one page
  obtain ⟨hxlo, hxhi⟩ := BiKernelHeader.inArea_iff.1 hx
  obtain ⟨hylo, hyhi⟩ := BiKernelHeader.inArea_iff.1 hy
  have hpage := hplaced.injective _ _ hxlo hxhi hylo hyhi (by rw [hmap, hmap', hframe.1])
  rw [← Nat.div_add_mod' x pageSize, ← Nat.div_add_mod' y pageSize, hpage, hframe.2]

/-- What the pages in their places come to. -/
theorem PagesPlaced.imageLoaded {taken₀ : Nat} {s s' : Paging} (htables : Tables src s map₀ leaf₀)
    (hfits : h.virtualAddr + h.msize ≤ 0xfffff000)
    (hplaced : PagesPlaced src (file.imageByte h.virtualAddr) map₀ taken₀ (h.virtualAddr / pageSize)
      (imageEnd h.virtualAddr h.msize) s' map leaf) :
    ImageLoaded src file h s s' where
  mapped x hx := by
    obtain ⟨-, phys, -, -, -, -, htranslate, hbyte⟩ := hplaced.frame hfits hx
    exact ⟨_, htranslate, hbyte⟩
  apart x y := hplaced.apart hfits
  others x hx hout := by
    have hnot : ¬(h.virtualAddr / pageSize ≤ x / pageSize ∧
        x / pageSize < imageEnd h.virtualAddr h.msize) := fun hin =>
      hout (BiKernelHeader.inArea_iff.2 hin)
    rw [hplaced.tables.translate_eq hx, htables.translate_eq hx, hplaced.outside _ (by omega)]

/-- `BiLoadKernel`, with the tables it leaves. -/
theorem biLoadKernel_post {s : Loading} (htables : Tables src s.paging map₀ leaf₀)
    (hused : Used map₀ leaf₀) (hs : vol.Steady s.disk)
    (hsize : kernelHeaderSize ≤ biInodeSize vol.fs file.inode)
    (hheader : BiKernelHeader.ofBytes (vol.fileByte file.map) = h)
    (hfits : h.virtualAddr + h.msize ≤ 0xfffff000) :
    Post (biLoadKernel src vol.fw vol.part vol.fs (some file.inode)) s
      (fun h' s' => h.check = .ok h' ∧ biInodeSize vol.fs file.inode ≤ h.msize ∧
        file.PagesInSectors h.virtualAddr ∧
        s'.PagesPlaced vol src (file.imageByte h.virtualAddr) map₀ s.paging.taken
          (h.virtualAddr / pageSize) (imageEnd h.virtualAddr h.msize))
      fun stop _ => h.check = .error stop ∨
        (h.msize < biInodeSize vol.fs file.inode ∧ stop = fileTooLarge (biInodeSize vol.fs file.inode)) ∨
        Exhausted src s.paging.taken
          (imageEnd h.virtualAddr h.msize - h.virtualAddr / pageSize) stop ∨
        ¬file.PagesInSectors h.virtualAddr := by
  have hentry : h.entry < 4294967296 := by
    rw [← hheader]
    exact read32_lt _ _
  unfold biLoadKernel
  rw [post_bind, post_zoom]
  refine (Returns.post (blFsFileRead_returns file.maps hs (by decide)
    (by rw [Nat.zero_add]; exact hsize) fun h => Bool.noConfusion h)).mono ?_ fun _ _ => False.elim
  rintro bytes disk ⟨hs', rfl⟩
  have hread : BiKernelHeader.ofBytes
      (put (fun _ => 0) 0 kernelHeaderSize fun i => vol.fileByte file.map (0 + i)) = h := by
    rw [← hheader]
    refine BiKernelHeader.ofBytes_congr fun i hi => ?_
    have hbyte := put_byte (fun _ => 0) (a := 0) (fun i => vol.fileByte file.map (0 + i)) hi
    rwa [Nat.zero_add] at hbyte
  rw [hread, post_bind]
  cases hcheck : h.check with
  | error stop => exact .inl rfl
  | ok h' =>
    rw [post_lift_ok]
    obtain ⟨hva, hms, hpos⟩ := BiKernelHeader.check_image hentry hcheck
    rw [hva, hms]
    by_cases hlarge : biInodeSize vol.fs file.inode > h.msize
    · rw [if_pos hlarge]
      exact .inr (.inl ⟨hlarge, rfl⟩)
    · rw [if_neg hlarge, post_bind]
      have hfirst : Loading.PagesPlaced vol src (file.imageByte h.virtualAddr) map₀ s.paging.taken
          (h.virtualAddr / pageSize) (h.virtualAddr / pageSize) (s.setDisk disk) :=
        ⟨hs', map₀, leaf₀, htables, hused, fun _ _ => rfl, fun _ hlo hhi => absurd hlo (by omega),
          fun _ _ hlo hhi => absurd hlo (by omega), le_rfl, by rw [Nat.sub_self]; exact le_rfl⟩
      refine (loadImage_post hfirst (not_lt.1 hlarge) hpos hfits).mono ?_ fun stop _ hstop =>
        .inr (.inr hstop)
      rintro _ s' ⟨hall, hplaced⟩
      exact ⟨rfl, not_lt.1 hlarge, hall, hplaced⟩

/-- `BiLoadKernel` either has all of the image in its area, in pages of its own, with zeros where the
image has no file, and has changed the mapping of nothing else; or it stops: at a header that the checks
refuse, at a file longer than the image, when there is no page left of two for each page of the area, or at
a page of the file that is not in whole sectors of the disk. -/
theorem biLoadKernel_image {s : Loading} (htables : Tables src s.paging map₀ leaf₀)
    (hused : Used map₀ leaf₀) (hs : vol.Steady s.disk)
    (hsize : kernelHeaderSize ≤ biInodeSize vol.fs file.inode)
    (hheader : BiKernelHeader.ofBytes (vol.fileByte file.map) = h)
    (hfits : h.virtualAddr + h.msize ≤ 0xfffff000) :
    Post (biLoadKernel src vol.fw vol.part vol.fs (some file.inode)) s
      (fun h' s' => h.check = .ok h' ∧ biInodeSize vol.fs file.inode ≤ h.msize ∧
        file.PagesInSectors h.virtualAddr ∧ ImageLoaded src file h s.paging s'.paging ∧
        ∃ phys, s'.paging.translate src h'.entry = some phys)
      fun stop _ => h.check = .error stop ∨
        (h.msize < biInodeSize vol.fs file.inode ∧ stop = fileTooLarge (biInodeSize vol.fs file.inode)) ∨
        Exhausted src s.paging.taken
          (imageEnd h.virtualAddr h.msize - h.virtualAddr / pageSize) stop ∨
        ¬file.PagesInSectors h.virtualAddr := by
  refine (biLoadKernel_post htables hused hs hsize hheader hfits).mono ?_ fun _ _ => id
  rintro h' s' ⟨hcheck, hle, hall, -, map, leaf, hplaced⟩
  have hentry : h.entry < 4294967296 := by
    rw [← hheader]
    exact read32_lt _ _
  have hloaded := hplaced.imageLoaded htables hfits
  obtain ⟨-, -, hlo, hhi, hdtb⟩ := BiKernelHeader.check_ok hentry hcheck
  have hsame : h'.entry = h.entry := by
    rcases hdtb with ⟨-, rfl⟩ | ⟨-, rfl, -⟩ <;> rfl
  obtain ⟨phys, hphys, -⟩ := hloaded.mapped h.entry (by
    simp only [BiKernelHeader.InArea, imageEnd, pageSize]
    omega)
  exact ⟨hcheck, hle, hall, hloaded, phys, hsame ▸ hphys⟩

end

/-! ## A small kernel -/

/-- The words of its header: it starts inside of a page, is five pages long, and wants its device tree at
the second page. -/
def smallKernelWords : List Nat :=
  [0x584c5258, 0x20000, 0xc0000800, 0x5000, 0xc0000820, 1, 0x1000, 0x7fff]

/-- A volume with 64 sectors, and the header in its third block. -/
def smallKernelDisk : ByteMemory := fun x =>
  if 2048 ≤ x ∧ x < 2080 then
    BitVec.ofNat 8 (smallKernelWords.getD ((x - 2048) / 4) 0 / 256 ^ (x % 4))
  else superblockImage 10 x

def smallKernelVolume : Volume where
  fw := .ofImage smallKernelDisk 72 (by decide)
  disk := smallKernelDisk
  serves := Firmware.ofImage_serves _ _ _
  entry := { bootIndicator := 0, type := 0x83, startingLba := 0, sizeInLba := 72 }
  onDisk := by decide
  fits := by decide
  accepted := by decide +kernel
  inodes_pos := by decide +kernel

theorem smallKernelVolume_shift : smallKernelVolume.shift = 10 := by decide +kernel

/-- Three pages, with nothing but zeros behind the first block. -/
def smallKernel : smallKernelVolume.File :=
  smallFile smallKernelVolume smallKernelVolume_shift (by decide) 12288 le_rfl

theorem smallKernel_size : biInodeSize smallKernelVolume.fs smallKernel.inode = 12288 :=
  biInodeSize_of_small rfl

def smallKernelHeader : BiKernelHeader where
  magic := 0x584c5258
  minorVersion := 0
  majorVersion := 2
  virtualAddr := 0xc0000800
  msize := 0x5000
  entry := 0xc0000820
  flags := 1
  dtbAddress := 0x1000
  maxDtbEnd := 0x7fff

theorem smallKernelHeader_check : smallKernelHeader.check = .ok smallKernelHeader := by
  unfold BiKernelHeader.check
  rw [if_neg (by decide), if_neg (by decide), if_neg (by decide), if_pos (by decide)]
  dsimp only
  rw [show alignUp smallKernelHeader.dtbAddress pageSize = 0x1000 by decide, if_neg (by decide),
    if_neg (by decide)]
  rfl

theorem smallKernel_header :
    BiKernelHeader.ofBytes (smallKernelVolume.fileByte smallKernel.map) = smallKernelHeader := by
  have hbyte : ∀ i < kernelHeaderSize,
      smallKernelVolume.fileByte smallKernel.map i = smallKernelDisk (2048 + i) := by
    intro i hi
    have hblock : i / 1024 = 0 ∧ i % 1024 = i := by
      unfold kernelHeaderSize at hi
      omega
    have hmap : smallKernel.map 0 = 2 := by decide
    have hbytes : ∀ x, smallKernelVolume.bytes x = smallKernelDisk (0 * 512 + x) := fun _ => rfl
    unfold Volume.fileByte
    rw [smallKernelVolume_shift, show 2 ^ 10 = 1024 from rfl, hblock.1, hblock.2, hmap,
      if_neg (by decide), hbytes, Nat.zero_mul, Nat.zero_add]
  rw [BiKernelHeader.ofBytes_congr hbyte]
  decide +kernel

theorem smallKernel_inSectors : smallKernel.PagesInSectors 0xc0000800 := by
  intro page hwhole x hlo _ hhole
  have hstart := hwhole.1
  rw [smallKernelVolume_shift] at hhole
  -- the first block is in the first page
  have hzero : x / 2 ^ 10 ≠ 0 := by
    simp only [pageSize] at hlo hstart
    omega
  exact absurd (if_neg hzero) hhole

/-- Before anything is loaded. -/
def smallLoading : Loading where
  paging := .start .example fun _ => 0
  disk := .init

/-- It is loaded, and starts with its magic number. -/
theorem biLoadKernel_image_small : ∃ h s,
    (biLoadKernel .example smallKernelVolume.fw smallKernelVolume.part smallKernelVolume.fs
      (some smallKernel.inode)).run smallLoading = (.ok h, s) ∧ h.entry = 0xc0000820 ∧
        ∃ phys, s.paging.translate .example 0xc0000800 = some phys ∧ s.paging.mem phys = 0x58 := by
  -- for any volume with such a file, so that nothing is run
  have hload : ∀ (vol : Volume) (file : vol.File) (s : Loading),
      Tables .example s.paging (fun _ => none) (fun _ => none) → s.paging.taken = 0 →
      vol.Steady s.disk → biInodeSize vol.fs file.inode = 12288 →
      BiKernelHeader.ofBytes (vol.fileByte file.map) = smallKernelHeader →
      file.PagesInSectors 0xc0000800 → vol.fileByte file.map 0 = 0x58 → ∃ h s',
        (biLoadKernel .example vol.fw vol.part vol.fs (some file.inode)).run s = (.ok h, s') ∧
          h.entry = 0xc0000820 ∧ ∃ phys, s'.paging.translate .example 0xc0000800 = some phys ∧
            s'.paging.mem phys = 0x58 := by
    intro vol file s htables htaken hsteady hsize hheader hsectors hmagic
    have hpost := biLoadKernel_image htables (fun d hd => absurd rfl hd) hsteady
      (by rw [hsize]; decide) hheader (by simp [smallKernelHeader])
    refine returns_iff.1 (hpost.mono ?_ ?_)
    · rintro h s' ⟨hcheck, -, -, hloaded, -⟩
      rw [smallKernelHeader_check, Except.ok.injEq] at hcheck
      subst hcheck
      obtain ⟨phys, hphys, hbyte⟩ := hloaded.mapped 0xc0000800 (by
        simp only [BiKernelHeader.InArea, smallKernelHeader, imageEnd, pageSize]
        omega)
      refine ⟨rfl, phys, hphys, hbyte.trans ?_⟩
      exact (@Volume.File.imageByte_inside vol file 0xc0000800 _ le_rfl (by omega)).trans hmagic
    · rintro stop s' (hcheck | ⟨hlarge, -⟩ | ⟨-, n, hn, hnone⟩ | hnot)
      · rw [smallKernelHeader_check] at hcheck
        cases hcheck
      · rw [hsize] at hlarge
        exact absurd hlarge (by decide)
      · simp only [smallKernelHeader, imageEnd, pageSize] at hn
        have hpage : PageSource.example.page n = some (0x10000 + n * 0x1000) :=
          if_pos (by omega)
        rw [hpage] at hnone
        cases hnone
      · exact hnot hsectors
  exact hload smallKernelVolume smallKernel smallLoading (Tables.start _ _) rfl
    ⟨[], DiskState.init_ready _ _⟩ smallKernel_size smallKernel_header smallKernel_inSectors
    (by decide +kernel)

end XrLinux.Bootloader
