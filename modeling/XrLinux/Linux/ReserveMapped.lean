import XrLinux.Bootloader.Paging
import XrLinux.Linux.KernelMapping

/-!
# Linux — `reserve_mapped_memory`

What the bootloader has mapped must not be allocated again, nor must the tables themselves. The
kernel goes over its tables where they are pages, behind the entry of the root table for itself, with
a pointer to the entry of the root table and one to the entries of pages. Where there is no table the
latter skips a page that is not there.
-/

namespace XrLinux.Linux.Paging

open Machine Mmu

/-- `pte_pfn`. -/
def ptePfn (entry : Word) : Word := (entry &&& 0x1ffffe0) >>> 5

/-- The pages that are reserved, by their addresses, and `memblock_reserve` of one more. -/
abbrev Reserved := List Word

def memblockReserve (phys : Word) (reserved : Reserved) : Reserved := reserved ++ [phys]

/-- The loop over the entries of a table. A load from a page that is not there is a trap. -/
def reserveTable (s : Mmu) : Nat → Word → Reserved → Option (Word × Reserved)
  | 0, curPte, reserved => some (curPte, reserved)
  | count + 1, curPte, reserved => do
    let entry ← s.read curPte
    reserveTable s count (curPte + 4)
      (if entry ≠ 0 then memblockReserve (ptePfn entry <<< 12) reserved else reserved)

/-- The loop over the root table. -/
def reserveTables (s : Mmu) : Nat → Word → Word → Reserved → Option Reserved
  | 0, _, _, reserved => some reserved
  | count + 1, curPgd, curPte, reserved => do
    let entry ← s.read curPgd
    if entry ≠ 0 then do
      let (curPte, reserved) ← reserveTable s 1024 curPte reserved
      reserveTables s count (curPgd + 4) curPte reserved
    else reserveTables s count (curPgd + 4) (curPte + 4 * 1024) reserved

/-- `reserve_mapped_memory`. -/
def reserveMappedMemory (s : Mmu) : Option Reserved :=
  reserveTables s 1024 swapperPgDir pgtableAddr []

/-! ## The loops -/

/-- The page of an entry. -/
def target (entry : Word) : Word := ptePfn entry <<< 12

theorem ptePfn_toNat (entry : Word) : (ptePfn entry).toNat = entry.toNat / 32 % 1048576 := by
  have hmask : (0x1ffffe0 : Word).toNat >>> 5 = 2 ^ 20 - 1 := by decide
  rw [ptePfn, BitVec.toNat_ushiftRight, BitVec.toNat_and, Nat.shiftRight_and_distrib, hmask,
    Nat.and_two_pow_sub_one_eq_mod, Nat.shiftRight_eq_div_pow]

theorem target_toNat (entry : Word) : (target entry).toNat = entry.toNat / 32 % 1048576 * 4096 := by
  rw [target, BitVec.toNat_shiftLeft, ptePfn_toNat, Nat.shiftLeft_eq]
  omega

theorem follow_target {entry : Word} {frame : Nat} (h : follow entry = some frame) :
    target entry = BitVec.ofNat 32 (frame * 4096) := by
  apply BitVec.eq_of_toNat_eq
  unfold follow at h
  split_ifs at h
  cases h
  rw [target_toNat, BitVec.toNat_ofNat]
  omega

theorem mem_reserved {entry phys : Word} {reserved : Reserved} :
    phys ∈ (if entry ≠ 0 then memblockReserve (ptePfn entry <<< 12) reserved else reserved) ↔
      phys ∈ reserved ∨ entry ≠ 0 ∧ phys = target entry := by
  split_ifs with hne
  · rw [memblockReserve, List.mem_append, List.mem_singleton]
    exact or_congr_right (and_iff_right hne).symm
  · exact (or_iff_left fun h => hne h.1).symm

/-- Where the entry of page `i` is. -/
def pteAddr (i : Nat) : Word := pgtableAddr + BitVec.ofNat 32 (4 * i)

theorem pteAddr_at {d t : Nat} (hd : d < 1024) (ht : t < 1024) :
    At (pteAddr (1024 * d + t)) 512 d t := by
  refine ⟨?_, hd, ht⟩
  have hbase : pgtableAddr.toNat = 2147483648 := rfl
  rw [pteAddr, BitVec.toNat_add, hbase, BitVec.toNat_ofNat]
  omega

theorem pteAddr_add (i count : Nat) :
    pteAddr i + BitVec.ofNat 32 (4 * count) = pteAddr (i + count) := by
  rw [pteAddr, pteAddr, BitVec.add_assoc, ← BitVec.ofNat_add, Nat.mul_add]

section
variable {s : Mmu} {table d : Nat} (hrec : follow (s.frames s.root 512) = some s.root)
  (hd : d < 1024) (htable : follow (s.frames s.root d) = some table)
include hrec hd htable

/-- The words of a table, from one on. -/
theorem reserveTable_eq (count t : Nat) (reserved : Reserved) (hfits : t + count ≤ 1024) :
    ∃ reserved', reserveTable s count (pteAddr (1024 * d + t)) reserved =
        some (pteAddr (1024 * d + (t + count)), reserved') ∧
      ∀ phys, phys ∈ reserved' ↔ phys ∈ reserved ∨
        ∃ j, t ≤ j ∧ j < t + count ∧ s.frames table j ≠ 0 ∧ phys = target (s.frames table j) := by
  induction count generalizing t reserved with
  | zero =>
    refine ⟨reserved, rfl, fun phys => ⟨.inl, fun h => h.resolve_right ?_⟩⟩
    rintro ⟨j, hlo, hhi, -⟩
    omega
  | succ count ih =>
    have hread := (pteAddr_at hd (show t < 1024 by omega)).read_eq
      ((page_eq_some hrec).trans htable)
    obtain ⟨reserved', hloop, hmem⟩ := ih (t + 1)
      (if s.frames table t ≠ 0 then memblockReserve (ptePfn (s.frames table t) <<< 12) reserved
        else reserved) (by omega)
    refine ⟨reserved', ?_, fun phys => (hmem phys).trans ?_⟩
    · rw [reserveTable, hread]
      show reserveTable s count (pteAddr (1024 * d + t) + BitVec.ofNat 32 (4 * 1)) _ = _
      rw [pteAddr_add, Nat.add_assoc, hloop, Nat.add_assoc, Nat.add_comm 1 count]
    · rw [mem_reserved, or_assoc]
      refine or_congr_right ⟨?_, ?_⟩
      · rintro (⟨hne, heq⟩ | ⟨j, hlo, hhi, hj⟩)
        · exact ⟨t, le_rfl, by omega, hne, heq⟩
        · exact ⟨j, by omega, by omega, hj⟩
      · rintro ⟨j, hlo, hhi, hj⟩
        rcases Nat.eq_or_lt_of_le hlo with rfl | hlt
        · exact .inl hj
        · exact .inr ⟨j, hlt, by omega, hj⟩

end

/-- What is behind an entry of the root table, in its table. -/
def BehindEntry (s : Mmu) (d : Nat) (phys : Word) : Prop :=
  ∃ table, follow (s.frames s.root d) = some table ∧
    ∃ t < 1024, s.frames table t ≠ 0 ∧ phys = target (s.frames table t)

/-- What is behind the entries of the root table from `d` on. -/
def Behind (s : Mmu) (d count : Nat) (phys : Word) : Prop :=
  ∃ e, d ≤ e ∧ e < d + count ∧ BehindEntry s e phys

theorem behind_succ {s : Mmu} {d count : Nat} {phys : Word} :
    Behind s d (count + 1) phys ↔ BehindEntry s d phys ∨ Behind s (d + 1) count phys := by
  constructor
  · rintro ⟨e, hlo, hhi, he⟩
    rcases Nat.eq_or_lt_of_le hlo with rfl | hlt
    · exact .inl he
    · exact .inr ⟨e, hlt, by omega, he⟩
  · rintro (hd | ⟨e, hlo, hhi, he⟩)
    · exact ⟨d, le_rfl, by omega, hd⟩
    · exact ⟨e, by omega, by omega, he⟩

theorem pgd_at {d : Nat} (hd : d < 1024) :
    At (swapperPgDir + BitVec.ofNat 32 (4 * d)) 513 0 d := by
  refine ⟨?_, by decide, hd⟩
  have hbase : swapperPgDir.toNat = 2151677952 := rfl
  rw [BitVec.toNat_add, hbase, BitVec.toNat_ofNat]
  omega

section
variable {s : Mmu} (hrec : follow (s.frames s.root 512) = some s.root)
  (hswapper : s.page 513 0 = some s.root)
  (hvalid : ∀ d < 1024, s.frames s.root d ≠ 0 → follow (s.frames s.root d) ≠ none)
include hrec hswapper hvalid

/-- The pointer to the entries of pages is in step with the one to the root table. -/
theorem reserveTables_eq (count d : Nat) (reserved : Reserved) (hfits : d + count ≤ 1024) :
    ∃ reserved', reserveTables s count (swapperPgDir + BitVec.ofNat 32 (4 * d))
        (pteAddr (1024 * d)) reserved = some reserved' ∧
      ∀ phys, phys ∈ reserved' ↔ phys ∈ reserved ∨ Behind s d count phys := by
  induction count generalizing d reserved with
  | zero =>
    refine ⟨reserved, rfl, fun phys => ⟨.inl, fun h => h.resolve_right ?_⟩⟩
    rintro ⟨e, hlo, hhi, -⟩
    omega
  | succ count ih =>
    have hread := (pgd_at (show d < 1024 by omega)).read_eq hswapper
    have hnext : swapperPgDir + BitVec.ofNat 32 (4 * d) + 4 =
        swapperPgDir + BitVec.ofNat 32 (4 * (d + 1)) := by
      rw [BitVec.add_assoc, Nat.mul_succ, BitVec.ofNat_add]
      rfl
    have hskip : pteAddr (1024 * d) + 4 * 1024 = pteAddr (1024 * (d + 1)) :=
      pteAddr_add (1024 * d) 1024
    cases hfollow : follow (s.frames s.root d) with
    | none =>
      -- no table, and a page is skipped that is not there
      have hzero : s.frames s.root d = 0 :=
        not_not.mp fun hne => hvalid d (by omega) hne hfollow
      obtain ⟨reserved', hloop, hmem⟩ := ih (d + 1) reserved (by omega)
      refine ⟨reserved', ?_, fun phys => (hmem phys).trans (or_congr_right ?_)⟩
      · rw [reserveTables, hread]
        show (if s.frames s.root d ≠ 0 then _ else _) = _
        rw [if_neg (not_not.mpr hzero), hnext, hskip, hloop]
      · rw [behind_succ]
        refine (or_iff_right ?_).symm
        rintro ⟨table, htable, -⟩
        cases hfollow.symm.trans htable
    | some table =>
      obtain ⟨reserved₁, htable, hmem₁⟩ := reserveTable_eq hrec (show d < 1024 by omega) hfollow 1024
        0 reserved (by omega)
      obtain ⟨reserved', hloop, hmem⟩ := ih (d + 1) reserved₁ (by omega)
      have hne : s.frames s.root d ≠ 0 := by
        intro hzero
        rw [hzero, follow_zero] at hfollow
        cases hfollow
      refine ⟨reserved', ?_, fun phys => (hmem phys).trans ?_⟩
      · rw [reserveTables, hread]
        show (if s.frames s.root d ≠ 0 then _ else _) = _
        rw [if_pos hne]
        rw [Nat.add_zero] at htable
        rw [htable]
        show reserveTables s count _ (pteAddr (1024 * d + (0 + 1024))) reserved₁ = _
        rw [hnext, Nat.zero_add, ← Nat.mul_succ, hloop]
      · rw [hmem₁, or_assoc, behind_succ]
        refine or_congr_right (or_congr_left ⟨?_, ?_⟩)
        · rintro ⟨j, -, hj, hentry⟩
          exact ⟨table, hfollow, j, by omega, hentry⟩
        · rintro ⟨table', htable', j, hj, hentry⟩
          cases hfollow.symm.trans htable'
          exact ⟨j, Nat.zero_le j, by omega, hentry⟩

/-- Of tables that are pages by the entry 512 of the root table, and with the root table a page at
`swapper_pg_dir`, what is behind any entry is reserved and nothing else. -/
theorem reserveMappedMemory_eq : ∃ reserved, reserveMappedMemory s = some reserved ∧
    ∀ phys, phys ∈ reserved ↔ ∃ d < 1024, BehindEntry s d phys := by
  obtain ⟨reserved, hloop, hmem⟩ := reserveTables_eq hrec hswapper hvalid 1024 0 [] (by decide)
  refine ⟨reserved, hloop, fun phys => (hmem phys).trans ?_⟩
  constructor
  · rintro (hnil | ⟨d, -, hd, hentry⟩)
    · cases hnil
    · exact ⟨d, by omega, hentry⟩
  · rintro ⟨d, hd, hentry⟩
    exact .inr ⟨d, Nat.zero_le d, by omega, hentry⟩

end

/-! ## The tables of the bootloader -/

open Bootloader (PageSource Paging PagingCall Tables Used mapped levelSize biDecodePte
  biCreatePte)

/-- The tables of the bootloader, by frames. -/
def mmuOf (src : PageSource) (p : Paging) : Mmu where
  root := src.root / Bootloader.pageSize
  frames q i := BitVec.ofNat 32 (p.entry (q * Bootloader.pageSize) i)

/-- `_start`: the entry for recursive paging, of the physical address of the root table. -/
def startEntered (s : Mmu) : Mmu :=
  s.put s.root (pgtableAddr >>> 22).toNat 1 fun _ => BitVec.ofNat 32 (s.root * 4096) >>> 7 ||| 0x17

/-- The kernel as it is loaded. Its image, with the header first, and the device tree are above
`KERNEL_LINK_ADDR` and below the fixmap, in pages that are none of the tables; `fixmap_pte` is a page
of the image, which is zero. -/
structure ImageMapped (k : Kernel) (src : PageSource) (p : Paging) (calls : List PagingCall)
    (fixmapFrame : Nat) : Prop where
  inside : ∀ page, mapped calls page ≠ none →
    kernelLinkAddr.toNat / 4096 ≤ page ∧ page < fixaddrStart.toNat / 4096
  header : mapped calls (kernelLinkAddr.toNat / 4096) ≠ none
  own : ∀ page phys, mapped calls page = some phys →
    phys ≠ src.root ∧ ∀ n < p.taken, src.page n ≠ some phys
  fixmap_aligned : k.fixmapPte.toNat % 4096 = 0
  fixmap_page : mapped calls (k.fixmapPte.toNat / 4096) = some (fixmapFrame * 4096)
  fixmap_zero : ∀ i < 1024, p.entry (fixmapFrame * 4096) i = 0

/-- A page of the tree of the bootloader: the root table, a table behind it, or what an entry of a
table that is not zero is for. -/
def InTree (src : PageSource) (p : Paging) (phys : Nat) : Prop :=
  phys = src.root ∨ ∃ d < levelSize, p.entry src.root d ≠ 0 ∧
    (phys = biDecodePte (p.entry src.root d) ∨
      ∃ t < levelSize, p.entry (biDecodePte (p.entry src.root d)) t ≠ 0 ∧
        phys = biDecodePte (p.entry (biDecodePte (p.entry src.root d)) t))

theorem follow_pte {o : Option Nat} (ho : ∀ x, o = some x → x < 4294967296) :
    follow (BitVec.ofNat 32 (Bootloader.pte o)) = o.map (· / 4096) := by
  cases o with
  | none => rfl
  | some x =>
    have hlt := ho x rfl
    have hword : (BitVec.ofNat 32 (biCreatePte x) : Word).toNat = x / 4096 * 32 + 0x17 := by
      rw [BitVec.toNat_ofNat, Bootloader.biCreatePte_eq]
      omega
    have hodd : (x / 4096 * 32 + 0x17) % 2 = 1 := by omega
    have hframe : (x / 4096 * 32 + 0x17) / 32 % 1048576 = x / 4096 := by omega
    rw [Bootloader.pte, follow, hword, if_pos hodd, hframe, Option.map_some]

/-- Bits V, W, K and G with a frame number. -/
theorem follow_or {entry : Word} {frame : Nat} (hentry : entry.toNat = frame <<< 5)
    (hframe : frame < 1048576) : follow (entry ||| 0x17) = some frame := by
  have hword : (entry ||| 0x17).toNat = frame * 32 + 0x17 := by
    rw [BitVec.toNat_or, hentry, show (0x17 : Word).toNat = 0x17 from rfl,
      ← Nat.shiftLeft_add_eq_or_of_lt (by decide), Nat.shiftLeft_eq]
  have hodd : (frame * 32 + 0x17) % 2 = 1 := by omega
  have hdiv : (frame * 32 + 0x17) / 32 % 1048576 = frame := by omega
  rw [follow, hword, if_pos hodd, hdiv]

theorem startEntry_follow {root : Nat} (hroot : root < 1048576) :
    follow (BitVec.ofNat 32 (root * 4096) >>> 7 ||| 0x17) = some root := by
  refine follow_or ?_ hroot
  rw [BitVec.toNat_ushiftRight, BitVec.toNat_ofNat, Nat.shiftRight_eq_div_pow, Nat.shiftLeft_eq]
  omega

section
variable {src : PageSource} {p : Paging} {map leaf : Nat → Option Nat}

theorem root_lt (src : PageSource) : src.root / Bootloader.pageSize < 1048576 := by
  have hlt := src.root_address.2.2
  simp only [Bootloader.pageSize]
  omega

variable (h : Tables src p map leaf)
include h

theorem leaf_div {d x : Nat} (hx : leaf d = some x) :
    x / 4096 * 4096 = x ∧ x < 4294967296 ∧ x / 4096 ≠ src.root / Bootloader.pageSize := by
  obtain ⟨⟨-, halign, hlt⟩, hne⟩ := h.leaf_address hx
  have hroot := src.root_address.2.1
  simp only [Bootloader.pageSize] at halign hroot ⊢
  omega

/-- The root table as the kernel finds it. -/
theorem startEntered_root {d : Nat} (hd : d < 1024) (hne : d ≠ 512) :
    (startEntered (mmuOf src p)).frames (src.root / Bootloader.pageSize) d =
      BitVec.ofNat 32 (Bootloader.pte (leaf d)) := by
  have hindex : (pgtableAddr >>> 22).toNat = 512 := by decide
  have hroot : src.root / Bootloader.pageSize * Bootloader.pageSize = src.root :=
    Nat.div_mul_cancel (Nat.dvd_of_mod_eq_zero src.root_address.2.1)
  rw [startEntered, put_frames_of_ne _ (by omega)]
  show BitVec.ofNat 32 (p.entry (src.root / Bootloader.pageSize * Bootloader.pageSize) d) = _
  rw [hroot, h.root_eq d hd]

theorem startEntered_follow {d : Nat} (hd : d < 1024) (hne : d ≠ 512) :
    follow ((startEntered (mmuOf src p)).frames (src.root / Bootloader.pageSize) d) =
      (leaf d).map (· / 4096) := by
  rw [startEntered_root h hd hne]
  exact follow_pte fun x hx => (leaf_div h hx).2.1

/-- The other tables. -/
theorem startEntered_table {d x t : Nat} (hx : leaf d = some x) (ht : t < 1024) :
    (startEntered (mmuOf src p)).frames (x / 4096) t =
      BitVec.ofNat 32 (Bootloader.pte (map (d * 1024 + t))) := by
  obtain ⟨halign, -, hne⟩ := leaf_div h hx
  have hroot : x / 4096 ≠ (mmuOf src p).root := hne
  rw [startEntered, put_frames_of_ne _ (.inl hroot)]
  show BitVec.ofNat 32 (p.entry (x / 4096 * 4096) t) = _
  rw [halign, h.some_eq d x hx t ht]
  rfl

end

section
variable {src : PageSource} {p : Paging} {calls : List PagingCall} {leaf : Nat → Option Nat}
  {k : Kernel} {fixmapFrame : Nat} (h : Tables src p (mapped calls) leaf)
  (hused : Used (mapped calls) leaf) (himage : ImageMapped k src p calls fixmapFrame)

include hused himage in
/-- There are tables for the image and the device tree only. -/
theorem leaf_inside {d : Nat} (hd : leaf d ≠ none) : 513 ≤ d ∧ d < 639 := by
  obtain ⟨t, ht, hmap⟩ := hused d hd
  have hinside := himage.inside _ hmap
  have hlo : kernelLinkAddr.toNat / 4096 = 525313 := by decide
  have hhi : fixaddrStart.toNat / 4096 = 654336 := by decide
  simp only [levelSize] at ht hinside
  omega

include himage in
theorem fixmap_bounds : 2151682048 ≤ k.fixmapPte.toNat ∧ k.fixmapPte.toNat < 2680160256 := by
  have hinside := himage.inside (k.fixmapPte.toNat / 4096) (by rw [himage.fixmap_page]; simp)
  have hlo : kernelLinkAddr.toNat / 4096 = 525313 := by decide
  have hhi : fixaddrStart.toNat / 4096 = 654336 := by decide
  omega

include h himage

theorem link_leaf : leaf 513 ≠ none := by
  intro hnone
  exact himage.header (h.none_eq 513 hnone 1 (by decide))

theorem fixmap_frame : fixmapFrame < 1048576 ∧ fixmapFrame ≠ src.root / Bootloader.pageSize ∧
    ∀ d x, leaf d = some x → x / 4096 ≠ fixmapFrame := by
  have hlt := (h.map_address _ _ himage.fixmap_page).2
  have hroot := src.root_address.2.1
  obtain ⟨hne, htables⟩ := himage.own _ _ himage.fixmap_page
  simp only [Bootloader.pageSize] at hroot ⊢
  refine ⟨by omega, by omega, fun d x hx heq => ?_⟩
  obtain ⟨n, hn, hpage⟩ := h.leaf_page d x hx
  have hdiv := (leaf_div h hx).1
  exact htables n hn (by rw [hpage, ← heq, hdiv])

/-- The page of the fixmap's table. -/
theorem fixmap_pageOf : (startEntered (mmuOf src p)).pageOf k.fixmapPte = some fixmapFrame := by
  have hbounds := fixmap_bounds himage
  have hframe := (fixmap_frame h himage).1
  have hpage : k.fixmapPte.toNat / 4194304 * 1024 + k.fixmapPte.toNat / 4096 % 1024 =
      k.fixmapPte.toNat / 4096 := by omega
  have hleaf : leaf (k.fixmapPte.toNat / 4194304) ≠ none := by
    intro hnone
    have hmap := h.none_eq _ hnone (k.fixmapPte.toNat / 4096 % 1024) (Nat.mod_lt _ (by decide))
    simp only [levelSize] at hmap
    rw [hpage, himage.fixmap_page] at hmap
    cases hmap
  obtain ⟨x, hx⟩ := Option.ne_none_iff_exists'.mp hleaf
  have hroot := startEntered_follow h (d := k.fixmapPte.toNat / 4194304) (by omega) (by omega)
  rw [hx, Option.map_some] at hroot
  rw [pageOf, page_eq_some hroot, startEntered_table h hx (Nat.mod_lt _ (by decide)), hpage,
    himage.fixmap_page]
  refine (follow_pte fun y hy => ?_).trans ?_
  · cases hy
    omega
  · rw [Option.map_some, Nat.mul_div_cancel _ (by decide)]

theorem startEntered_fixmap {i : Nat} (hi : i < 1024) :
    (startEntered (mmuOf src p)).frames fixmapFrame i = 0 := by
  have hne : fixmapFrame ≠ (mmuOf src p).root := (fixmap_frame h himage).2.1
  rw [startEntered, put_frames_of_ne _ (.inl hne)]
  exact congrArg (BitVec.ofNat 32) (himage.fixmap_zero i hi)

include hused in
/-- The tables that the kernel starts with. -/
theorem startEntered_loaded : Loaded k (startEntered (mmuOf src p)) fixmapFrame := by
  have hbounds := fixmap_bounds himage
  obtain ⟨-, hframe, htables⟩ := fixmap_frame h himage
  have hfollow := fun d hd hne => @startEntered_follow src p _ leaf h d hd hne
  have hself : follow ((startEntered (mmuOf src p)).frames (src.root / Bootloader.pageSize) 512) =
      some (src.root / Bootloader.pageSize) := by
    rw [startEntered]
    refine (congrArg follow (put_frames_self _ ?_ ?_)).trans (startEntry_follow (root_lt src))
    · decide
    · decide
  refine ⟨hself, ?_, ?_, ⟨?_, ?_, ?_⟩, ⟨?_, ?_⟩, fixmap_pageOf h himage, hframe, ?_, ?_, ?_⟩
  · show follow ((startEntered (mmuOf src p)).frames (src.root / Bootloader.pageSize) 513) ≠ none
    rw [hfollow 513 (by decide) (by decide)]
    simpa using link_leaf h himage
  · intro d hlo hhi
    show follow ((startEntered (mmuOf src p)).frames (src.root / Bootloader.pageSize) d) ≠
      follow ((startEntered (mmuOf src p)).frames (src.root / Bootloader.pageSize) 513)
    rw [hfollow d (by omega) (by omega), hfollow 513 (by decide) (by decide)]
    obtain ⟨x, hx⟩ := Option.ne_none_iff_exists'.mp (link_leaf h himage)
    intro heq
    rw [hx, Option.map_some] at heq
    obtain ⟨y, hy, hdiv⟩ := Option.map_eq_some_iff.mp heq
    -- the same frame is the same page, and that has one entry only
    have hxdiv := (leaf_div h hx).1
    have hydiv := (leaf_div h hy).1
    have hsame := h.leaf_injective d 513 x (by rw [hy]; congr 1; omega) hx
    omega
  · have haligned := himage.fixmap_aligned
    omega
  · exact Nat.mod_lt _ (by decide)
  · decide
  · exact BitVec.le_def.mpr hbounds.1
  · exact BitVec.lt_def.mpr hbounds.2
  · exact startEntered_fixmap h himage (by decide)
  · intro d hlt hne table htable
    obtain ⟨x, hx, rfl⟩ := Option.map_eq_some_iff.mp
      ((hfollow d (by omega) hne).symm.trans htable)
    exact ⟨(leaf_div h hx).2.2, htables d x hx⟩
  · intro d hlo hhi
    have hnone : leaf d = none := not_not.mp fun hsome => by
      have hinside := leaf_inside hused himage hsome
      omega
    show (startEntered (mmuOf src p)).frames (src.root / Bootloader.pageSize) d = 0
    rw [startEntered_root h hhi (by omega), hnone]
    rfl

end

/-! ## What is reserved -/

/-- A proper entry is not zero, and is for one page. -/
theorem target_iff {entry phys : Word} {frame : Nat} (h : follow entry = some frame) :
    (entry ≠ 0 ∧ phys = target entry) ↔ phys.toNat = frame * 4096 := by
  have hlt := follow_lt h
  have htarget : (target entry).toNat = frame * 4096 := by
    rw [follow_target h, BitVec.toNat_ofNat]
    omega
  have hne : entry ≠ 0 := by
    rintro rfl
    cases h
  rw [and_iff_right hne, ← BitVec.toNat_inj, htarget]

/-- An entry of the bootloader. -/
theorem target_pte_iff {o : Option Nat} (ho : ∀ x, o = some x → x / 4096 * 4096 = x ∧ x < 4294967296)
    {phys : Word} :
    (BitVec.ofNat 32 (Bootloader.pte o) ≠ 0 ∧ phys = target (BitVec.ofNat 32 (Bootloader.pte o))) ↔
      o = some phys.toNat := by
  have hfollow := @follow_pte o fun x hx => (ho x hx).2
  cases o with
  | none => exact ⟨fun h => absurd rfl h.1, nofun⟩
  | some x => rw [target_iff hfollow, (ho x rfl).1, Option.some_inj, eq_comm]

/-- An entry that is not zero, and what it is for. -/
theorem pte_decode {o : Option Nat} (ho : ∀ x, o = some x → x % Bootloader.pageSize = 0 ∧ x < 4294967296)
    {phys : Nat} : Bootloader.pte o ≠ 0 ∧ phys = biDecodePte (Bootloader.pte o) ↔ o = some phys := by
  cases o with
  | none => exact ⟨fun h => absurd rfl h.1, nofun⟩
  | some x =>
    obtain ⟨halign, hlt⟩ := ho x rfl
    rw [Bootloader.pte, Bootloader.biDecodePte_biCreatePte halign hlt, Option.some_inj]
    exact ⟨fun h => h.2.symm, fun h => ⟨Bootloader.biCreatePte_ne_zero x, h.symm⟩⟩

/-- The tree by what is mapped. -/
theorem inTree_iff {src : PageSource} {p : Paging} {map leaf : Nat → Option Nat}
    (h : Tables src p map leaf) {phys : Nat} :
    InTree src p phys ↔ phys = src.root ∨ ∃ d < 1024, ∃ x, leaf d = some x ∧
      (phys = x ∨ ∃ t < 1024, map (d * 1024 + t) = some phys) := by
  have hroot {d x : Nat} (hd : d < 1024) :
      p.entry src.root d ≠ 0 ∧ x = biDecodePte (p.entry src.root d) ↔ leaf d = some x := by
    rw [h.root_eq d hd]
    exact pte_decode fun x hx => (h.leaf_address hx).1.2
  have hpage {d x y t : Nat} (hx : leaf d = some x) (ht : t < 1024) :
      p.entry x t ≠ 0 ∧ y = biDecodePte (p.entry x t) ↔ map (d * 1024 + t) = some y := by
    rw [h.some_eq d x hx t ht]
    exact pte_decode fun y hy => h.map_address _ y hy
  refine or_congr_right ⟨?_, ?_⟩
  · rintro ⟨d, hd, hne, hphys⟩
    have hx := (hroot hd).mp ⟨hne, rfl⟩
    refine ⟨d, hd, _, hx, hphys.imp_right ?_⟩
    rintro ⟨t, ht, hentry⟩
    exact ⟨t, ht, (hpage hx ht).mp hentry⟩
  · rintro ⟨d, hd, x, hx, hphys⟩
    obtain ⟨hne, rfl⟩ := (hroot hd).mpr hx
    refine ⟨d, hd, hne, hphys.imp_right ?_⟩
    rintro ⟨t, ht, hmap⟩
    exact ⟨t, ht, (hpage hx ht).mpr hmap⟩

section
variable {src : PageSource} {p : Paging} {calls : List PagingCall} {leaf : Nat → Option Nat}
  {k : Kernel} {fixmapFrame x₀ : Nat} (h : Tables src p (mapped calls) leaf)
  (hused : Used (mapped calls) leaf) (himage : ImageMapped k src p calls fixmapFrame)
  (hx₀ : leaf 513 = some x₀)

/-- The tables after `setup_vm`. -/
def setUp (src : PageSource) (p : Paging) (x₀ fixmapFrame : Nat) : Mmu :=
  (swapperEntered (startEntered (mmuOf src p)) (x₀ / 4096)).put (src.root / Bootloader.pageSize) 639 1
    fun _ => entryOf fixmapFrame

include h hx₀ in
theorem setUp_root {d : Nat} (hne : d ≠ 639) :
    (setUp src p x₀ fixmapFrame).frames (src.root / Bootloader.pageSize) d =
      (startEntered (mmuOf src p)).frames (src.root / Bootloader.pageSize) d := by
  have hroot := (leaf_div h hx₀).2.2
  rw [setUp, put_frames_of_ne _ (by omega), swapperEntered, put_frames_of_ne _ (.inl hroot.symm)]

theorem setUp_fixmap :
    (setUp src p x₀ fixmapFrame).frames (src.root / Bootloader.pageSize) 639 = entryOf fixmapFrame :=
  put_frames_self _ le_rfl (by decide)

theorem setUp_table {q i : Nat} (hq : q ≠ src.root / Bootloader.pageSize) (hne : q ≠ x₀ / 4096 ∨ i ≠ 0) :
    (setUp src p x₀ fixmapFrame).frames q i = (startEntered (mmuOf src p)).frames q i := by
  rw [setUp, put_frames_of_ne _ (.inl hq), swapperEntered, put_frames_of_ne _ (by omega)]

theorem setUp_swapper (hne : x₀ / 4096 ≠ src.root / Bootloader.pageSize) :
    (setUp src p x₀ fixmapFrame).frames (x₀ / 4096) 0 = entryOf (src.root / Bootloader.pageSize) := by
  rw [setUp, put_frames_of_ne _ (.inl hne)]
  exact put_frames_self _ le_rfl (by decide)

include h hused himage hx₀ in
theorem setUp_valid {d : Nat} (hd : d < 1024)
    (hne : (setUp src p x₀ fixmapFrame).frames (src.root / Bootloader.pageSize) d ≠ 0) :
    follow ((setUp src p x₀ fixmapFrame).frames (src.root / Bootloader.pageSize) d) ≠ none := by
  have hframe := (fixmap_frame h himage).1
  have hself := (startEntered_loaded h hused himage).recursive
  by_cases hfix : d = 639
  · rw [hfix, setUp_fixmap, follow_entryOf hframe]
    exact Option.some_ne_none _
  rw [setUp_root h hx₀ hfix] at hne ⊢
  by_cases hrec : d = 512
  · rw [hrec]
    exact fun hnone => absurd (hself.symm.trans hnone) (Option.some_ne_none _)
  rw [startEntered_root h hd hrec] at hne
  rw [startEntered_follow h hd hrec]
  cases hleaf : leaf d with
  | none =>
    rw [hleaf] at hne
    exact absurd rfl hne
  | some x => exact Option.some_ne_none _

include h himage in
/-- A page that is mapped is in a table. -/
theorem ImageMapped.tree_of_mapped {page phys : Nat} (hmap : mapped calls page = some phys) :
    ∃ d < 1024, ∃ x, leaf d = some x ∧
      (phys = x ∨ ∃ t < 1024, mapped calls (d * 1024 + t) = some phys) := by
  have hinside := (himage.inside page (by rw [hmap]; simp)).2
  have hhi : fixaddrStart.toNat / 4096 = 654336 := by decide
  have hpage : page / 1024 * 1024 + page % 1024 = page := by omega
  cases hleaf : leaf (page / 1024) with
  | none =>
    have hnone := h.none_eq _ hleaf (page % 1024) (Nat.mod_lt _ (by decide))
    simp only [levelSize] at hnone
    rw [hpage, hmap] at hnone
    cases hnone
  | some x =>
    refine ⟨page / 1024, by omega, x, hleaf, .inr ⟨page % 1024, Nat.mod_lt _ (by decide), ?_⟩⟩
    rw [hpage, hmap]

include h hused himage hx₀ in
/-- Behind the entry of the root table for itself are the tables. -/
theorem behind_root {phys : Word} :
    BehindEntry (setUp src p x₀ fixmapFrame) 512 phys ↔
      phys.toNat = src.root ∨ phys.toNat = fixmapFrame * 4096 ∨
        ∃ d < 1024, leaf d = some phys.toNat := by
  have hself := (startEntered_loaded h hused himage).recursive
  have hroot : src.root / Bootloader.pageSize * 4096 = src.root :=
    Nat.div_mul_cancel (Nat.dvd_of_mod_eq_zero src.root_address.2.1)
  have hrec : follow ((setUp src p x₀ fixmapFrame).frames (src.root / Bootloader.pageSize) 512) =
      some (src.root / Bootloader.pageSize) := by
    rw [setUp_root h hx₀ (by decide)]
    exact hself
  have hfix : follow ((setUp src p x₀ fixmapFrame).frames (src.root / Bootloader.pageSize) 639) =
      some fixmapFrame := by
    rw [setUp_fixmap]
    exact follow_entryOf (fixmap_frame h himage).1
  have hleaf {d : Nat} (hd : d < 1024) (hne : d ≠ 512) (hne' : d ≠ 639) :
      (setUp src p x₀ fixmapFrame).frames (src.root / Bootloader.pageSize) d =
        BitVec.ofNat 32 (Bootloader.pte (leaf d)) :=
    (setUp_root h hx₀ hne').trans (startEntered_root h hd hne)
  have hpage (d : Nat) := @target_pte_iff (leaf d)
    (fun x hx => ⟨(leaf_div h hx).1, (leaf_div h hx).2.1⟩) phys
  constructor
  · rintro ⟨table, htable, t, ht, hentry⟩
    cases hrec.symm.trans htable
    by_cases hself : t = 512
    · rw [hself] at hentry
      exact .inl (((target_iff hrec).mp hentry).trans hroot)
    · by_cases hfixmap : t = 639
      · rw [hfixmap] at hentry
        exact .inr (.inl ((target_iff hfix).mp hentry))
      · rw [hleaf ht hself hfixmap] at hentry
        exact .inr (.inr ⟨t, ht, (hpage t).mp hentry⟩)
  · rintro (hphys | hphys | ⟨d, hd, hphys⟩)
    · exact ⟨_, hrec, 512, by decide, (target_iff hrec).mpr (hphys.trans hroot.symm)⟩
    · exact ⟨_, hrec, 639, by decide, (target_iff hfix).mpr hphys⟩
    · have hinside := leaf_inside hused himage (show leaf d ≠ none by rw [hphys]; simp)
      refine ⟨_, hrec, d, hd, ?_⟩
      rw [hleaf hd (by omega) (by omega)]
      exact (hpage d).mpr hphys

include h hused himage hx₀ in
/-- Behind another are the pages. -/
theorem behind_leaf {d : Nat} (hd : d < 1024) (hne : d ≠ 512) {phys : Word} :
    BehindEntry (setUp src p x₀ fixmapFrame) d phys ↔
      leaf d ≠ none ∧ ((d = 513 ∧ phys.toNat = src.root) ∨
        ∃ t < 1024, mapped calls (d * 1024 + t) = some phys.toNat) := by
  have hroot : src.root / Bootloader.pageSize * 4096 = src.root :=
    Nat.div_mul_cancel (Nat.dvd_of_mod_eq_zero src.root_address.2.1)
  by_cases hfix : d = 639
  · -- nothing is mapped in the fixmap yet
    obtain ⟨hlt, hne_root, htables⟩ := fixmap_frame h himage
    have hnone : leaf d = none := not_not.mp fun hsome => by
      have hinside := leaf_inside hused himage hsome
      omega
    refine ⟨?_, fun hsome => absurd hnone hsome.1⟩
    rintro ⟨table, htable, t, ht, hword, -⟩
    rw [hfix] at htable
    cases (htable.symm.trans (congrArg follow setUp_fixmap)).trans (follow_entryOf hlt)
    rw [setUp_table hne_root (.inl fun heq => htables 513 x₀ hx₀ heq.symm),
      startEntered_fixmap h himage ht] at hword
    exact absurd rfl hword
  have hfollow : follow ((setUp src p x₀ fixmapFrame).frames (src.root / Bootloader.pageSize) d) =
      (leaf d).map (· / 4096) := by
    rw [setUp_root h hx₀ hfix, startEntered_follow h hd hne]
  cases hleaf : leaf d with
  | none =>
    rw [hleaf] at hfollow
    refine ⟨?_, fun hsome => absurd rfl hsome.1⟩
    rintro ⟨table, htable, -⟩
    cases hfollow.symm.trans htable
  | some x =>
    rw [hleaf] at hfollow
    have hx := leaf_div h hleaf
    have hswapper := @target_iff _ phys _ (follow_entryOf (root_lt src))
    have hpage (t : Nat) := @target_pte_iff (mapped calls (d * 1024 + t)) (fun y hy =>
      ⟨Nat.div_mul_cancel (Nat.dvd_of_mod_eq_zero (h.map_address _ y hy).1),
        (h.map_address _ y hy).2⟩) phys
    -- the first entry of the table at 513, and the others
    have hword {t : Nat} (ht : t < 1024) (hother : d ≠ 513 ∨ t ≠ 0) :
        (setUp src p x₀ fixmapFrame).frames (x / 4096) t =
          BitVec.ofNat 32 (Bootloader.pte (mapped calls (d * 1024 + t))) := by
      rw [setUp_table hx.2.2, startEntered_table h hleaf ht]
      refine hother.imp_left fun hd513 heq => hd513 ?_
      have hx₀' := leaf_div h hx₀
      exact h.leaf_injective d 513 x₀ (by rw [hleaf]; congr 1; omega) hx₀
    refine ⟨?_, ?_⟩
    · rintro ⟨table, htable, t, ht, hentry⟩
      cases hfollow.symm.trans htable
      refine ⟨Option.some_ne_none x, ?_⟩
      by_cases hfirst : d = 513 ∧ t = 0
      · obtain ⟨rfl, rfl⟩ := hfirst
        cases hleaf.symm.trans hx₀
        rw [setUp_swapper hx.2.2] at hentry
        exact .inl ⟨rfl, (hswapper.mp hentry).trans hroot⟩
      · rw [hword ht (by omega)] at hentry
        exact .inr ⟨t, ht, (hpage t).mp hentry⟩
    · rintro ⟨-, ⟨rfl, hphys⟩ | ⟨t, ht, hmap⟩⟩
      · cases hleaf.symm.trans hx₀
        refine ⟨_, hfollow, 0, by decide, ?_⟩
        rw [setUp_swapper hx.2.2]
        exact hswapper.mpr (hphys.trans hroot.symm)
      · have hinside := (himage.inside _ (show mapped calls (d * 1024 + t) ≠ none by
          rw [hmap]; simp)).1
        have hlo : kernelLinkAddr.toNat / 4096 = 525313 := by decide
        refine ⟨_, hfollow, t, ht, ?_⟩
        rw [hword ht (by omega)]
        exact (hpage t).mpr hmap

end

/-- **`reserve_mapped_memory`.** After any calls of `BlMapPage` by the bootloader, `setup_vm` reserves
the pages of the tree that the bootloader has made and nothing else, at the addresses that they have;
and so all that is mapped. It reads no entry of a table that is not there. -/
theorem reserveMappedMemory_exact (src : PageSource) (mem : ByteMemory) (calls : List PagingCall)
    (p : Paging) (k : Kernel) (fixmapFrame : Nat)
    (hrun : Run.run (Bootloader.pagingStep src) (.start src mem) calls = some p)
    (himage : ImageMapped k src p calls fixmapFrame) :
    ∃ s reserved, setupVm k (startEntered (mmuOf src p)) = some s ∧
      reserveMappedMemory s = some reserved ∧
      (∀ phys : Word, phys ∈ reserved ↔ InTree src p phys.toNat) ∧
      ∀ page phys, mapped calls page = some phys → BitVec.ofNat 32 phys ∈ reserved := by
  obtain ⟨leaf, h, hused⟩ := Bootloader.run_tables hrun
  obtain ⟨x₀, hx₀⟩ := Option.ne_none_iff_exists'.mp (link_leaf h himage)
  have hloaded := startEntered_loaded h hused himage
  have htable := startEntered_follow h (show 513 < 1024 by decide) (by decide)
  rw [hx₀, Option.map_some] at htable
  have hbooted := hloaded.booted htable
  obtain ⟨reserved, hreserve, hmem⟩ := reserveMappedMemory_eq
    (s := setUp src p x₀ fixmapFrame) hbooted.recursive hbooted.swapper
    fun d hd hne => setUp_valid h hused himage hx₀ hd hne
  have hexact : ∀ phys : Word, phys ∈ reserved ↔ InTree src p phys.toNat := by
    intro phys
    rw [hmem, inTree_iff h]
    constructor
    · rintro ⟨d, hd, hentry⟩
      by_cases hself : d = 512
      · rw [hself, behind_root h hused himage hx₀] at hentry
        rcases hentry with hroot | hfix | ⟨e, he, hleaf⟩
        · exact .inl hroot
        · exact .inr (himage.tree_of_mapped h (himage.fixmap_page.trans (congrArg some hfix.symm)))
        · exact .inr ⟨e, he, _, hleaf, .inl rfl⟩
      · rw [behind_leaf h hused himage hx₀ hd hself] at hentry
        obtain ⟨hsome, ⟨-, hroot⟩ | hpage⟩ := hentry
        · exact .inl hroot
        · obtain ⟨x, hx⟩ := Option.ne_none_iff_exists'.mp hsome
          exact .inr ⟨d, hd, x, hx, .inr hpage⟩
    · rintro (hroot | ⟨d, hd, x, hx, hx' | hpage⟩)
      · exact ⟨512, by decide, (behind_root h hused himage hx₀).mpr (.inl hroot)⟩
      · exact ⟨512, by decide,
          (behind_root h hused himage hx₀).mpr (.inr (.inr ⟨d, hd, hx' ▸ hx⟩))⟩
      · have hsome : leaf d ≠ none := by
          rw [hx]
          exact Option.some_ne_none x
        have hinside := leaf_inside hused himage hsome
        exact ⟨d, hd, (behind_leaf h hused himage hx₀ hd (by omega)).mpr ⟨hsome, .inr hpage⟩⟩
  refine ⟨_, reserved, setupVm_eq hloaded htable, hreserve, hexact, fun page phys hmap => ?_⟩
  have hlt := (h.map_address page phys hmap).2
  rw [hexact, BitVec.toNat_ofNat, Nat.mod_eq_of_lt hlt, inTree_iff h]
  exact .inr (himage.tree_of_mapped h hmap)

/-- The header's page, and one of zeros with `fixmap_pte`. -/
def twoPages : List PagingCall := [.map 0x80401 0x123, .map 0x80402 0x456]

def twoPagesKernel : Kernel := ⟨0x80402000, []⟩

theorem mapped_twoPages {page phys : Nat} (h : mapped twoPages page = some phys) :
    page = 0x80401 ∧ phys = 0x123000 ∨ page = 0x80402 ∧ phys = 0x456000 := by
  have hmap : mapped twoPages = Function.update (Function.update (fun _ => none) 0x80401
      (some 0x123000)) 0x80402 (some 0x456000) := rfl
  rw [hmap, Function.update_apply, Function.update_apply] at h
  split_ifs at h with hsecond hfirst
  · exact .inr ⟨hsecond, (Option.some.inj h).symm⟩
  · exact .inl ⟨hfirst, (Option.some.inj h).symm⟩

theorem twoPages_imageMapped {p : Paging}
    (hrun : Run.run (Bootloader.pagingStep .example) (.start .example fun _ => 0) twoPages = some p) :
    ImageMapped twoPagesKernel .example p twoPages 0x456 where
  inside page hpage := by
    obtain ⟨phys, hphys⟩ := Option.ne_none_iff_exists'.mp hpage
    rcases mapped_twoPages hphys with ⟨rfl, -⟩ | ⟨rfl, -⟩ <;> decide
  header := by decide
  own page phys hmap := by
    have hphys : phys = 0x123000 ∨ phys = 0x456000 :=
      (mapped_twoPages hmap).imp And.right And.right
    refine ⟨?_, fun n _ hpage => ?_⟩
    · show phys ≠ 0x1000
      omega
    · have hpage : (if n < 16 then some (0x10000 + n * 0x1000) else none) = some phys := hpage
      split_ifs at hpage with hn
      have heq := Option.some.inj hpage
      omega
  fixmap_aligned := by decide
  fixmap_page := by decide
  fixmap_zero := by
    have hzero : (Run.run (Bootloader.pagingStep .example) (.start .example fun _ => 0)
        twoPages).all (fun p : Paging =>
          (List.range 1024).all fun i => p.entry (0x456 * 4096) i == 0) = true := by
      decide +kernel
    rw [hrun, Option.all_some, List.all_eq_true] at hzero
    exact fun i hi => beq_iff_eq.mp (hzero i (List.mem_range.mpr hi))

/-- A kernel of two pages. -/
theorem reserveMappedMemory_exact_two : ∃ p s reserved,
    setupVm twoPagesKernel (startEntered (mmuOf .example p)) = some s ∧
      reserveMappedMemory s = some reserved ∧
      (∀ phys : Word, phys ∈ reserved ↔ InTree .example p phys.toNat) ∧
      ∀ page phys, mapped twoPages page = some phys → BitVec.ofNat 32 phys ∈ reserved := by
  obtain ⟨p, hrun⟩ : ∃ p, Run.run (Bootloader.pagingStep .example)
      (.start .example fun _ => 0) twoPages = some p :=
    Option.isSome_iff_exists.1 (by decide +kernel)
  exact ⟨p, reserveMappedMemory_exact .example (fun _ => 0) twoPages p twoPagesKernel 0x456 hrun
    (twoPages_imageMapped hrun)⟩

end XrLinux.Linux.Paging
