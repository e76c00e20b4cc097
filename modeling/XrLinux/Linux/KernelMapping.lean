import XrLinux.Linux.LinearMapping

/-!
# Linux — `setup_vm`, `__pa` and `__va`

The tables that `setup_vm` makes of those of the bootloader are such that memory can be mapped with
them. From then on `__pa` of an address of the linear mapping is arithmetic, and of another a look
into the tables where the root table maps itself.
-/

namespace XrLinux.Linux.Paging

open Machine Mmu

/-- `_PGD_ADDR`, where the root table is by its own entry. -/
def pgdAddr : Word := pgtableAddr ||| pgtableAddr >>> 10

def createPgdMapping (x phys : Word) (s : Mmu) : Option Mmu := do
  let entry ← s.read (pgdAddr + BitVec.ofNat 32 (4 * pgdIndex x))
  if entry ≠ 0 then none
  else
    s.write (pgdAddr + BitVec.ofNat 32 (4 * pgdIndex x)) (pfnPte (pfnDown phys) pageKernelBase)

/-- The tables of `setup_vm`: the root table at `swapper_pg_dir`, and the table of the fixmap. -/
def setupVm (k : Kernel) (s : Mmu) : Option Mmu := do
  let earlyPgDir ← pa s pgdAddr
  let s ← s.write (pgtableAddr ||| swapperPgDir >>> 10)
    (pfnPte (pfnDown earlyPgDir) pageKernelBase)
  let fixmapPte ← pa s k.fixmapPte
  createPgdMapping fixaddrStart fixmapPte s

/-! ## The conversions -/

section
variable {k : Kernel} {s₀ s : Mmu} {fixmapFrame : Nat} {x : Word} {m : Mapping}
  {ranges : List Range}

/-- An address of the image, below the fixmap, that is mapped before. -/
structure InImage (s : Mmu) (x : Word) : Prop where
  link_le : kernelLinkAddr ≤ x
  lt_fixaddr : x < fixaddrStart
  mapped : s.walk x ≠ none

/-- An address of the linear mapping. -/
structure InLinear (ranges : List Range) (x : Word) : Prop where
  offset_le : pageOffset ≤ x
  memory : ∃ r ∈ ranges, r.start ≤ linearMappingVaToPa x ∧ linearMappingVaToPa x < r.stop

/-- `__pa` is what a walk of the tables finds, and `__va` is back. -/
def Converts (s : Mmu) (x : Word) : Prop :=
  ∃ phys, s.walk x = some phys ∧ pa s x = some phys ∧ (isLinearMapping x = true → va phys = x)

/-- The memory is mapped, and the address is converted right then. -/
def PaCorrect (k : Kernel) (s : Mmu) (ranges : List Range) (x : Word) : Prop :=
  ∃ m, createLinearMappingPageTable k ranges ⟨0, 0, s⟩ = some m ∧ Converts m.mmu x

theorem va_pa (x : Word) : va (linearMappingVaToPa x) = x := sub_add_cancel x pageOffset

/-- The linear mapping. -/
theorem Mapped.linear {done : Nat → Prop} (h : Mapped k s₀ fixmapFrame done m)
    (hdone : ∀ p, InRanges ranges p → done p) (hx : InLinear ranges x) : Converts m.mmu x := by
  obtain ⟨r, hr, hstart, hstop⟩ := hx.memory
  have hlinear : isLinearMapping x = true := decide_eq_true hx.offset_le
  have hpage : InRanges ranges ((linearMappingVaToPa x).toNat / 4096) := by
    have hlt : (linearMappingVaToPa x).toNat < r.stop.toNat := hstop
    refine ⟨r, hr, ?_, ?_⟩
    · exact Nat.div_le_div_right hstart
    · exact Nat.div_le_div_right (by omega)
  refine ⟨_, h.walk_linear hx.offset_le (hdone _ hpage), ?_, fun _ => va_pa x⟩
  rw [pa, if_pos hlinear]

/-- Elsewhere `__pa` is the start of the page. -/
theorem pa_below {phys : Word} (hrec : follow (s.frames s.root 512) = some s.root)
    (hx : ¬ pageOffset ≤ x) (hwalk : s.walk x = some phys) :
    pa s x = some (phys - BitVec.ofNat 32 (x.toNat % 4096)) := by
  have hlt := x.isLt
  have hlinear : ¬ isLinearMapping x = true := fun heq => hx (of_decide_eq_true heq)
  obtain ⟨frame, hpage, hphys⟩ := Option.map_eq_some_iff.mp hwalk
  obtain ⟨table, htable, hframe⟩ := exists_table hpage
  -- The entry of the page, where the root table maps itself.
  have hat : At (x >>> 10 &&& ~~~(3 : Word) ||| pgtableAddr) 512 (x.toNat / 4194304)
      (x.toNat / 4096 % 1024) := by
    refine ⟨?_, by omega, by omega⟩
    rw [recursive_toNat]
    omega
  have hread := hat.read_eq ((page_eq_some hrec).trans htable)
  rw [pa, if_neg hlinear, kernelMappingVaToPa, hread, Option.map_some]
  refine congrArg some (BitVec.eq_of_toNat_eq ?_)
  have hvalue : (s.frames table (x.toNat / 4096 % 1024)).toNat / 32 % 1048576 = frame := by
    unfold follow at hframe
    split_ifs at hframe
    exact Option.some.inj hframe
  have hframe_lt := follow_lt hframe
  rw [shifted_toNat, hvalue, ← hphys, BitVec.toNat_sub, BitVec.toNat_ofNat, BitVec.toNat_ofNat]
  omega

/-- The image is still mapped as it was. -/
theorem Keeps.walk (h : Keeps k s₀ fixmapFrame s) (hboot : Booted k s₀ fixmapFrame)
    (hfresh : Fresh k s₀) (hx : InImage s₀ x) : s.walk x = s₀.walk x := by
  have hlo : 2151682048 ≤ x.toNat := hx.link_le
  have hhi : x.toNat < 2680160256 := hx.lt_fixaddr
  rw [Mmu.walk, pageOf, h.page hboot hfresh (by omega) (by omega) (by omega)]
  rfl

theorem Keeps.converts_iff (h : Keeps k s₀ fixmapFrame s) (hboot : Booted k s₀ fixmapFrame)
    (hfresh : Fresh k s₀) (hx : InImage s₀ x) : Converts s x ↔ x.toNat % 4096 = 0 := by
  have hhi : x.toNat < 2680160256 := hx.lt_fixaddr
  have hbelow : ¬ pageOffset ≤ x := by
    intro hle
    have : 3221225472 ≤ x.toNat := hle
    omega
  have hrec : follow (s.frames s.root 512) = some s.root := by
    rw [h.entry hboot hfresh (by decide), hboot.recursive, h.root_eq]
  obtain ⟨phys, hphys⟩ := Option.ne_none_iff_exists'.mp hx.mapped
  have hwalk : s.walk x = some phys := (h.walk hboot hfresh hx).trans hphys
  have hpa := pa_below hrec hbelow hwalk
  constructor
  · rintro ⟨phys', hwalk', hpa', -⟩
    cases hwalk.symm.trans hwalk'
    have hsub : phys - BitVec.ofNat 32 (x.toNat % 4096) = phys :=
      Option.some.inj (hpa.symm.trans hpa')
    have hzero : (BitVec.ofNat 32 (x.toNat % 4096) : Word).toNat = 0 := by
      rw [sub_eq_self.mp hsub]
      rfl
    rw [BitVec.toNat_ofNat] at hzero
    omega
  · intro haligned
    rw [haligned] at hpa
    refine ⟨phys, hwalk, hpa.trans (congrArg some (BitVec.sub_zero phys)), fun hlinear => ?_⟩
    exact absurd (of_decide_eq_true hlinear) hbelow

end

/-! ## From `setup_vm` on -/

/-- What the bootloader leaves, with the entry that the first instructions of the kernel make: the
root table maps itself, behind it are tables for the image, each of its own, and nothing above; the
table of the fixmap is a page of the image, with no temporary page in it. -/
structure Loaded (k : Kernel) (s : Mmu) (fixmapFrame : Nat) : Prop where
  recursive : follow (s.frames s.root 512) = some s.root
  link_table : follow (s.frames s.root 513) ≠ none
  tables_injective : ∀ d, 513 < d → d < 639 →
    follow (s.frames s.root d) ≠ follow (s.frames s.root 513)
  fixmap_address : At k.fixmapPte (k.fixmapPte.toNat / 4194304) (k.fixmapPte.toNat / 4096 % 1024) 0
  fixmap_image : kernelLinkAddr ≤ k.fixmapPte ∧ k.fixmapPte < fixaddrStart
  fixmap_page : s.pageOf k.fixmapPte = some fixmapFrame
  fixmap_ne : fixmapFrame ≠ s.root
  temp_free : s.frames fixmapFrame 1022 = 0
  tables_ne : ∀ d < 639, d ≠ 512 → ∀ table, follow (s.frames s.root d) = some table →
    table ≠ s.root ∧ table ≠ fixmapFrame
  above_empty : ∀ d, 639 ≤ d → d < 1024 → s.frames s.root d = 0

section
variable {k : Kernel} {s : Mmu} {fixmapFrame : Nat}

/-- `__pa` of the start of a page. -/
theorem pa_page {x : Word} {d t frame : Nat} (hrec : follow (s.frames s.root 512) = some s.root)
    (hx : ¬ pageOffset ≤ x) (hat : At x d t 0) (hpage : s.page d t = some frame) :
    pa s x = some (BitVec.ofNat 32 (frame * 4096)) := by
  have heq := hat.toNat_eq
  have hoffset : x.toNat % 4096 = 0 := by omega
  have hwalk : s.walk x = some (BitVec.ofNat 32 (frame * 4096)) := by
    rw [walk, hat.pageOf_eq, hpage, hoffset, Option.map_some, Nat.add_zero]
  rw [pa_below hrec hx hwalk, hoffset]
  exact congrArg some (BitVec.sub_zero _)

theorem pfnPte_page {frame : Nat} (hlt : frame < 1048576) :
    pfnPte (pfnDown (BitVec.ofNat 32 (frame * 4096))) pageKernelBase = entryOf frame := by
  have hframe : (BitVec.ofNat 32 (frame * 4096) : Word).toNat / 4096 = frame := by
    rw [BitVec.toNat_ofNat]
    omega
  rw [pfnPte_pfnDown, hframe]

theorem createPgdMapping_eq {frame : Nat} (hrec : follow (s.frames s.root 512) = some s.root)
    (hempty : s.frames s.root 639 = 0) (hlt : frame < 1048576) :
    createPgdMapping fixaddrStart (BitVec.ofNat 32 (frame * 4096)) s =
      some (s.put s.root 639 1 fun _ => entryOf frame) := by
  have hindex : pgdIndex fixaddrStart = 639 := by decide
  have hat : At (pgdAddr + BitVec.ofNat 32 (4 * 639)) 512 512 639 :=
    At.add ⟨rfl, by decide, by decide⟩ (by decide)
  have hpage : s.page 512 512 = some s.root := (page_eq_some hrec).trans hrec
  have hread := hat.read_eq hpage
  rw [hempty] at hread
  rw [createPgdMapping, hindex, hread, pfnPte_page hlt]
  exact hat.write_eq _ hpage

/-- The entry of the page at `swapper_pg_dir`. -/
def swapperEntered (s : Mmu) (table : Nat) : Mmu := s.put table 0 1 fun _ => entryOf s.root

section
variable {table : Nat} (h : Loaded k s fixmapFrame) (htable : follow (s.frames s.root 513) = some table)
include h htable

theorem Loaded.entries (d : Nat) : (swapperEntered s table).frames s.root d = s.frames s.root d :=
  put_frames_of_ne _ (.inl (h.tables_ne 513 (by decide) (by decide) table htable).1.symm)

/-- The image is not touched. -/
theorem Loaded.fixmap : (swapperEntered s table).pageOf k.fixmapPte = some fixmapFrame := by
  have hlo : 2151682048 ≤ k.fixmapPte.toNat := h.fixmap_image.1
  have hhi : k.fixmapPte.toNat < 2680160256 := h.fixmap_image.2
  rw [← h.fixmap_page]
  refine @page_congr s (swapperEntered s table) _ _ rfl (h.entries htable _) ?_
  intro table' htable'
  apply put_frames_of_ne
  -- It is behind another entry, or behind this one and not the first.
  by_cases hd : k.fixmapPte.toNat / 4194304 = 513
  · right
    omega
  · left
    rintro rfl
    exact h.tables_injective _ (by omega) (by omega) (htable'.trans htable.symm)

theorem Loaded.booted : Booted k
    ((swapperEntered s table).put s.root 639 1 fun _ => entryOf fixmapFrame) fixmapFrame := by
  have hfixmap := h.fixmap htable
  have hroot_lt : s.root < 1048576 := follow_lt h.recursive
  have hentries : ∀ d, d ≠ 639 → ((swapperEntered s table).put s.root 639 1
      fun _ => entryOf fixmapFrame).frames s.root d = s.frames s.root d := fun d hd =>
    (put_frames_of_ne _ (by omega)).trans (h.entries htable d)
  obtain ⟨hne_root, hne_fixmap⟩ := h.tables_ne 513 (by decide) (by decide) table htable
  refine ⟨?_, ?_, ?_, h.fixmap_address, h.fixmap_image, ?_, h.fixmap_ne, ?_, ?_, ?_⟩
  · exact (congrArg follow (hentries 512 (by decide))).trans h.recursive
  · rw [page_eq_some ((congrArg follow (hentries 513 (by decide))).trans htable),
      put_frames_of_ne _ (.inl hne_root), swapperEntered, put_frames_self _ le_rfl (by decide)]
    exact follow_entryOf hroot_lt
  · rw [put_root]
    refine (congrArg follow (put_frames_self _ le_rfl (by decide))).trans ?_
    exact follow_entryOf (page_lt hfixmap)
  · rw [← hfixmap]
    have hhi : k.fixmapPte.toNat < 2680160256 := h.fixmap_image.2
    have hlo : 2151682048 ≤ k.fixmapPte.toNat := h.fixmap_image.1
    refine @page_congr (swapperEntered s table) _ _ _ (put_root _) ?_ ?_
    · exact put_frames_of_ne _ (by omega)
    · intro table' htable'
      refine put_frames_of_ne _ (.inl ?_)
      have hfollow := (congrArg follow (h.entries htable _)).symm.trans htable'
      exact (h.tables_ne _ (by omega) (by omega) table' hfollow).1
  · rw [put_frames_of_ne _ (.inl h.fixmap_ne), swapperEntered,
      put_frames_of_ne _ (.inl hne_fixmap.symm), h.temp_free]
  · intro d hlt hself hfixmap' table' htable'
    have hfollow := (congrArg follow (hentries d hfixmap')).symm.trans htable'
    by_cases hd : d < 639
    · exact h.tables_ne d hd hself table' hfollow
    · rw [h.above_empty d (by omega) (by omega), follow_zero] at hfollow
      cases hfollow
  · intro d hlo hhi
    exact (hentries d (by omega)).trans (h.above_empty d (by omega) hhi)

end

/-- The tables that `setup_vm` makes. -/
theorem setupVm_eq (h : Loaded k s fixmapFrame) {table : Nat}
    (htable : follow (s.frames s.root 513) = some table) :
    setupVm k s = some ((swapperEntered s table).put s.root 639 1 fun _ => entryOf fixmapFrame) := by
  have hpgd := pa_page h.recursive (show ¬ pageOffset ≤ pgdAddr by decide)
    (show At pgdAddr 512 512 0 from ⟨rfl, by decide, by decide⟩)
    ((page_eq_some h.recursive).trans h.recursive)
  have hwrite := At.write_eq (show At (pgtableAddr ||| swapperPgDir >>> 10) 512 513 0 from
    ⟨rfl, by decide, by decide⟩) (entryOf s.root) ((page_eq_some h.recursive).trans htable)
  have hrec : follow ((swapperEntered s table).frames s.root 512) = some s.root :=
    (congrArg follow (h.entries htable 512)).trans h.recursive
  have hbelow : ¬ pageOffset ≤ k.fixmapPte := by
    intro hle
    have hlo : 3221225472 ≤ k.fixmapPte.toNat := hle
    have hhi : k.fixmapPte.toNat < 2680160256 := h.fixmap_image.2
    omega
  have hfixmap := h.fixmap htable
  have hpte := pa_page hrec hbelow h.fixmap_address hfixmap
  have hmapping := createPgdMapping_eq hrec
    ((h.entries htable 639).trans (h.above_empty 639 le_rfl (by decide))) (page_lt hfixmap)
  rw [setupVm, hpgd]
  show Option.bind (s.write _ (pfnPte (pfnDown _) _)) _ = _
  rw [pfnPte_page (follow_lt h.recursive), hwrite]
  show Option.bind (pa (swapperEntered s table) k.fixmapPte) _ = _
  rw [hpte]
  exact hmapping

/-- `setup_vm` makes the tables that memory is mapped with. -/
theorem setupVm_booted (h : Loaded k s fixmapFrame) :
    ∃ s', setupVm k s = some s' ∧ Booted k s' fixmapFrame := by
  obtain ⟨table, htable⟩ := Option.ne_none_iff_exists'.mp h.link_table
  exact ⟨_, setupVm_eq h htable, h.booted htable⟩

end

/-- **`__pa` and `__va`.** For an address of the image or of the linear mapping, once memory has been
mapped, `__pa` is what a walk of the tables finds and `__va` is back: if and only if no table is for
two of the ranges of memory, so that the mapping is made at all, and the address is one of the linear
mapping or at the start of its page. `__pa` of any other is the start of the page. -/
theorem paCorrect_iff (k : Kernel) (s : Mmu) (ranges : List Range) (x : Word) {fixmapFrame : Nat}
    (hboot : Booted k s fixmapFrame) (hfresh : Fresh k s) (hproper : ∀ r ∈ ranges, r.Proper)
    (hsorted : ranges.Pairwise fun r r' => r.stop.toNat ≤ r'.start.toNat)
    (hpages : (ranges.map Range.tables).sum ≤ k.pages.length)
    (hx : InImage s x ∨ InLinear ranges x) :
    PaCorrect k s ranges x ↔
      TablesApart ranges ∧ (isLinearMapping x = true ∨ x.toNat % 4096 = 0) := by
  have hstart := Mapped.start hboot 0
  have hbefore : ∀ r ∈ ranges, ∀ p, False → p ≤ r.first := fun _ _ _ hp => hp.elim
  have henough : 0 + (ranges.map Range.tables).sum ≤ k.pages.length := by omega
  have hsome := fun hapart => hstart.allRanges hboot hfresh hproper hapart
    (fun _ _ _ hp => hp.elim) henough
  constructor
  · rintro ⟨m, hmap, hconverts⟩
    have hapart := (hstart.apart hboot hfresh hproper hsorted hbefore henough hmap).1
    obtain ⟨m', hmap', hmapped⟩ := hsome hapart
    cases hmap.symm.trans hmap'
    refine ⟨hapart, ?_⟩
    rcases hx with himage | hlinear
    · exact .inr ((hmapped.keeps.converts_iff hboot hfresh himage).mp hconverts)
    · exact .inl (decide_eq_true hlinear.offset_le)
  · rintro ⟨hapart, haddr⟩
    obtain ⟨m, hmap, hmapped⟩ := hsome hapart
    refine ⟨m, hmap, ?_⟩
    rcases hx with himage | hlinear
    · refine (hmapped.keeps.converts_iff hboot hfresh himage).mpr (haddr.resolve_left fun heq => ?_)
      have hle : 3221225472 ≤ x.toNat := of_decide_eq_true heq
      have hhi : x.toNat < 2680160256 := himage.lt_fixaddr
      omega
    · exact hmapped.linear (fun p hp => .inr hp) hlinear

/-- An address of the linear mapping that is in the middle of a page. -/
theorem paCorrect_iff_demo : PaCorrect demoKernel demoMmu demoRanges 0xc0001234 :=
  (paCorrect_iff demoKernel demoMmu demoRanges 0xc0001234 demo_booted demo_fresh demoRanges_proper
    (List.pairwise_singleton _ _) (by decide)
    (.inr ⟨by decide, ⟨0, 0x200000⟩, List.mem_singleton_self _, by decide, by decide⟩)).mpr
    ⟨List.pairwise_singleton _ _, .inl (by decide)⟩

/-- The second word of the image. -/
theorem pa_loses_offset : demoMmu.walk 0x80401004 = some 0x10004 ∧
    pa demoMmu 0x80401004 = some 0x10000 ∧
    ¬ PaCorrect demoKernel demoMmu demoRanges 0x80401004 := by
  refine ⟨by decide, by decide, ?_⟩
  rintro ⟨m, hmap, hconverts⟩
  obtain ⟨m', hmap', hmapped⟩ := (Mapped.start demo_booted 0).allRanges demo_booted demo_fresh
    demoRanges_proper (List.pairwise_singleton _ _) (fun _ _ _ hp => hp.elim) (by decide)
  cases hmap.symm.trans hmap'
  have himage : InImage demoMmu 0x80401004 := ⟨by decide, by decide, by decide⟩
  exact absurd ((hmapped.keeps.converts_iff demo_booted demo_fresh himage).mp hconverts) (by decide)

end XrLinux.Linux.Paging
