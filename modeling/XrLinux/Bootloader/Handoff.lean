import XrLinux.Bootloader.LoadKernel

/-!
# Bootloader — what the kernel is started with

The end of `BlMain`, on page tables and disk: the kernel is loaded, its entry point looked up, and the
device tree blob mapped where the kernel wants it. `KernelReady` is what the boot protocol promises of
the page tables. The checks of the header are about bytes and the tables about pages, and so the promise
is kept except where the blob ends in the page that the image begins in, or behind the end of the address
space.
-/

namespace XrLinux.Bootloader

open Prog ByteMemory

section
variable (src : PageSource) (fw : Firmware) (part : BlPartition) (fs : Fs)

/-- The loop of `BlDtBuildBlob` that maps the blob. -/
def mapDtb (virt phys totalSize : Nat) : Nat → Nat → PagingProg Unit
  | 0, _ => Prog.stop .diverges
  | fuel + 1, offset =>
    if offset < totalSize then do
      blMapPage src (add32 virt offset) (add32 phys offset)
      mapDtb virt phys totalSize fuel (add32 offset pageSize)
    else pure ()

/-- What `BlDtBuildBlob` does for `BL_FLAG_MAP_DTB`, for a blob at `blob`. -/
def placeDtb (header : BiKernelHeader) (blob totalSize : Nat) : PagingProg Unit :=
  if header.mapDtb then
    if add32 header.dtbAddress (sub32 totalSize 1) > header.maxDtbEnd then
      Prog.stop (.crash "device tree too large to map")
    else mapDtb src header.dtbAddress blob totalSize rounds 0
  else pure ()

/-- `BlMain` from `BiLoadKernel` on, up to the transition: the header and the address that the kernel is
entered at. The heap has put the blob at `blob`. -/
def handOff (file : Option BiInode) (blob totalSize : Nat) : LoadProg (BiKernelHeader × Nat) := do
  let header ← biLoadKernel src fw part fs file
  let entrypoint ← Prog.zoom Loading.paging Loading.setPaging (blGetMapping src header.entry)
  Prog.zoom Loading.paging Loading.setPaging (placeDtb src header blob totalSize)
  return (header, entrypoint)

end

/-- The page tables as the boot protocol has them, and nothing of the image in the blob's memory. -/
structure KernelReady (src : PageSource) {vol : Volume} (file : vol.File) (h : BiKernelHeader)
    (blob totalSize : Nat) (s : Paging) : Prop where
  image : ∀ x, h.InArea x → ∃ phys, s.translate src x = some phys ∧
    s.mem phys = file.imageByte h.virtualAddr x ∧ (phys < blob ∨ blob + totalSize ≤ phys)
  apart : ∀ x y, h.InArea x → h.InArea y → s.translate src x = s.translate src y → x = y
  deviceTree : h.mapDtb = true → ∀ i < totalSize,
    h.dtbAddress + i < 4294967296 ∧ s.translate src (h.dtbAddress + i) = some (blob + i)

/-- The blob ends inside the address space, and not in the page that the image begins in. -/
def BiKernelHeader.DtbFits (h : BiKernelHeader) (totalSize : Nat) : Prop :=
  h.dtbAddress + totalSize ≤ 4294967296 ∧
    (h.virtualAddr < h.dtbAddress ∨
      (h.dtbAddress + totalSize - 1) / pageSize < h.virtualAddr / pageSize)

instance (h : BiKernelHeader) (totalSize : Nat) : Decidable (h.DtbFits totalSize) :=
  inferInstanceAs (Decidable (_ ∧ _))

/-! ## The loop -/

/-- The first `count` pages of the blob are mapped, and the pages of the heap that are no tables are as
they were. -/
structure DtbMapped (src : PageSource) (virt blob : Nat) (s₀ : Paging) (map₀ leaf₀ : Nat → Option Nat)
    (count : Nat) (s : Paging) (map leaf : Nat → Option Nat) : Prop where
  tables : Tables src s map leaf
  used : Used map leaf
  taken_ge : s₀.taken ≤ s.taken
  taken_le : s.taken ≤ s₀.taken + count
  inside : virt + count * pageSize ≤ 4294967296 → ∀ page, virt / pageSize ≤ page →
    page < virt / pageSize + count → map page = some (blob + (page - virt / pageSize) * pageSize)
  outside : virt + count * pageSize ≤ 4294967296 → ∀ page,
    page < virt / pageSize ∨ virt / pageSize + count ≤ page → map page = map₀ page
  frames : ∀ n q, n < s₀.taken → src.page n = some q → (∀ d, leaf₀ d ≠ some q) →
    (∀ d, leaf d ≠ some q) ∧ ∀ i < pageSize, s.mem (q + i) = s₀.mem (q + i)

section
variable {src : PageSource} {virt blob totalSize count fuel : Nat} {s₀ s : Paging}
  {map₀ leaf₀ map leaf : Nat → Option Nat}

/-- A page more. -/
theorem DtbMapped.next (h : DtbMapped src virt blob s₀ map₀ leaf₀ count s map leaf)
    (hblob : blob % pageSize = 0) (hmem : blob + count * pageSize < 4294967296) :
    Post (blMapPage src (add32 virt (count * pageSize)) (add32 blob (count * pageSize))) s
      (fun _ s' => ∃ map' leaf', DtbMapped src virt blob s₀ map₀ leaf₀ (count + 1) s' map' leaf')
      fun stop _ => stop = .crash "out of memory" ∧ ∃ n ≤ s₀.taken + count, src.page n = none := by
  have hphys : add32 blob (count * pageSize) = blob + count * pageSize := Nat.mod_eq_of_lt hmem
  have hphysPage : (blob + count * pageSize) % pageSize = 0 := by
    rw [Nat.add_mul_mod_self_right]
    exact hblob
  have hvirtLt : add32 virt (count * pageSize) < 4294967296 := Nat.mod_lt _ (by decide)
  rw [hphys]
  refine (blMapPage_places h.tables h.used hvirtLt ⟨hphysPage, hmem⟩).mono ?_
    fun _ _ hstop => ⟨hstop.1, s.taken, h.taken_le, hstop.2.2⟩
  rintro _ s' ⟨leaf', htables, hused, hge, hle, hfrom, hkeeps⟩
  -- where no address wraps, the page is the next one
  have hpage : virt + (count + 1) * pageSize ≤ 4294967296 →
      add32 virt (count * pageSize) / pageSize = virt / pageSize + count := by
    intro hfits
    have hadd : add32 virt (count * pageSize) = virt + count * pageSize := by
      refine Nat.mod_eq_of_lt ?_
      simp only [pageSize] at hfits ⊢
      omega
    rw [hadd, Nat.add_mul_div_right _ _ (by decide)]
  have hless : virt + (count + 1) * pageSize ≤ 4294967296 → virt + count * pageSize ≤ 4294967296 := by
    simp only [pageSize]
    omega
  refine ⟨_, leaf', htables, hused, h.taken_ge.trans hge,
    hle.trans (Nat.add_le_add_right h.taken_le 1), fun hfits page hlo hhi => ?_,
    fun hfits page hout => ?_, fun n q hn hq hnone => ?_⟩
  · rw [hpage hfits]
    by_cases heq : page = virt / pageSize + count
    · rw [heq, Function.update_self, Nat.add_sub_cancel_left]
    · rw [Function.update_of_ne heq]
      exact h.inside (hless hfits) page hlo (by omega)
  · rw [hpage hfits, Function.update_of_ne (by omega)]
    exact h.outside (hless hfits) page (by omega)
  · obtain ⟨hleaf, hbytes⟩ := h.frames n q hn hq hnone
    have hleaf' : ∀ d, leaf' d ≠ some q := by
      intro d hd
      rcases hfrom d q hd with hold | hnew
      · exact hleaf d hold
      · have hsame := src.page_injective _ _ _ hq hnew
        have htaken := h.taken_ge
        omega
    obtain ⟨haddr, hroot⟩ := src.page_address _ _ hq
    exact ⟨hleaf', fun i hi => (hkeeps q haddr.2.1 hroot hleaf' i hi).trans (hbytes i hi)⟩

/-- All pages of the blob. -/
theorem mapDtb_post (hblob : blob % pageSize = 0) (hmem : blob + totalSize ≤ 4294967296)
    (hsize : totalSize + 4096 ≤ 4294967296)
    (hfuel : (totalSize + 4095) / pageSize - count < fuel)
    (hcount : count ≤ (totalSize + 4095) / pageSize)
    (h : DtbMapped src virt blob s₀ map₀ leaf₀ count s map leaf) :
    Post (mapDtb src virt blob totalSize fuel (count * pageSize)) s
      (fun _ s' => ∃ map' leaf', DtbMapped src virt blob s₀ map₀ leaf₀
        ((totalSize + 4095) / pageSize) s' map' leaf')
      fun stop _ => stop = .crash "out of memory" ∧
        ∃ n < s₀.taken + (totalSize + 4095) / pageSize, src.page n = none := by
  induction fuel generalizing count s map leaf with
  | zero => exact absurd hfuel (Nat.not_lt_zero _)
  | succ fuel ih =>
    unfold mapDtb
    by_cases hmore : count * pageSize < totalSize
    · have hnext := add32_pageSize (lt_of_lt_of_le (Nat.add_lt_add_right hmore pageSize) hsize)
      have hleft : count + 1 ≤ (totalSize + 4095) / pageSize := by
        simp only [pageSize] at hmore ⊢
        omega
      rw [if_pos hmore, post_bind, hnext]
      refine (h.next hblob (by omega)).mono ?_ ?_
      · rintro _ s' ⟨map', leaf', h'⟩
        exact ih (by omega) hleft h'
      · rintro stop _ ⟨hstop, n, hn, hnone⟩
        exact ⟨hstop, n, by omega, hnone⟩
    · rw [if_neg hmore, post_pure]
      have hall : (totalSize + 4095) / pageSize = count := by
        simp only [pageSize] at hcount hmore ⊢
        omega
      exact ⟨map, leaf, hall ▸ h⟩

end

/-! ## The tables the kernel gets -/

section
variable {src : PageSource} {vol : Volume} {file : vol.File} {map leaf map₀ leaf₀ : Nat → Option Nat}
  {h : BiKernelHeader} {blob totalSize taken₀ : Nat} {s s' : Paging}

theorem Tables.blGetMapping_ok (htables : Tables src s map leaf) {virt phys : Nat}
    (hvirt : virt < 4294967296) (hphys : s.translate src virt = some phys) :
    (blGetMapping src virt).run s = (.ok phys, s) := by
  obtain ⟨message, hrun, -⟩ := blGetMapping_run htables hvirt
  unfold Paging.translate at hphys
  rw [hrun] at hphys ⊢
  cases hmap : map (virt / pageSize) with
  | none =>
    rw [hmap] at hphys
    cases hphys
  | some p =>
    rw [hmap] at hphys
    cases hphys
    rfl

/-- The page tables behind the loader, where nothing of the blob is mapped into the area of the image. -/
theorem PagesPlaced.kernelReady
    (hplaced : PagesPlaced src (file.imageByte h.virtualAddr) map₀ taken₀ (h.virtualAddr / pageSize)
      (imageEnd h.virtualAddr h.msize) s map leaf)
    (hfits : h.virtualAddr + h.msize ≤ 0xfffff000)
    (hapart : ∀ n p, src.page n = some p → p + pageSize ≤ blob ∨ blob + totalSize ≤ p)
    {map' leaf' : Nat → Option Nat} (htables : Tables src s' map' leaf')
    (hsame : ∀ page, h.virtualAddr / pageSize ≤ page → page < imageEnd h.virtualAddr h.msize →
      map' page = map page)
    (hmem : ∀ n q, n < s.taken → src.page n = some q → (∀ d, leaf d ≠ some q) →
      ∀ i < pageSize, s'.mem (q + i) = s.mem (q + i))
    (hdtb : h.mapDtb = true → ∀ i < totalSize, h.dtbAddress + i < 4294967296 ∧
      s'.translate src (h.dtbAddress + i) = some (blob + i)) :
    KernelReady src file h blob totalSize s' := by
  have htranslate : ∀ x, h.InArea x → s'.translate src x = s.translate src x := by
    intro x hx
    obtain ⟨hlo, hhi⟩ := BiKernelHeader.inArea_iff.1 hx
    rw [htables.translate_eq (hx.lt hfits), hplaced.tables.translate_eq (hx.lt hfits),
      hsame _ hlo hhi]
  refine ⟨fun x hx => ?_, fun x y hx hy heq => ?_, hdtb⟩
  · obtain ⟨n, p, hn, hpage, -, hnone, hphys, hbyte⟩ := hplaced.frame hfits hx
    have hoffset := Nat.mod_lt x (show 0 < pageSize by decide)
    refine ⟨p + x % pageSize, (htranslate x hx).trans hphys, ?_, ?_⟩
    · rw [hmem n p hn hpage hnone _ hoffset]
      exact hbyte
    · have hside := hapart n p hpage
      omega
  · rw [htranslate x hx, htranslate y hy] at heq
    exact hplaced.apart hfits hx hy heq

end

/-! ## The blob beside the image -/

section
variable {src : PageSource} {vol : Volume} {file : vol.File} {map leaf map₀ leaf₀ : Nat → Option Nat}
  {h h' : BiKernelHeader} {blob totalSize taken₀ : Nat} {s s' : Paging}

/-- What the checks of the header say of the two areas. -/
theorem BiKernelHeader.check_areas (hlt : h.entry < 4294967296) (hdtb : h.dtbAddress < 4294967296)
    (hfits : h.virtualAddr + h.msize ≤ 0xfffff000) (hcheck : h.check = .ok h')
    (hmap : h'.mapDtb = true) :
    h'.virtualAddr = h.virtualAddr ∧ h'.msize = h.msize ∧ h'.dtbAddress % pageSize = 0 ∧
      h'.dtbAddress < 4294967296 ∧ h'.dtbAddress < h'.maxDtbEnd ∧
      (h'.maxDtbEnd < h.virtualAddr ∨ h.virtualAddr + h.msize ≤ h'.dtbAddress) := by
  obtain ⟨-, -, hlo, hhi, ⟨hno, rfl⟩ | ⟨-, rfl, hpos, hoverlap⟩⟩ := check_ok hlt hcheck
  · rw [hno] at hmap
    cases hmap
  · have hlast : sub32 (add32 h.virtualAddr h.msize) 1 = h.virtualAddr + h.msize - 1 := by
      unfold sub32 add32
      omega
    rw [hlast] at hoverlap
    simp only [biRangesOverlap, decide_eq_false_iff_not] at hoverlap
    refine ⟨rfl, rfl, Nat.mod_eq_zero_of_dvd (@alignUp_dvd 12 (by decide) _ hdtb),
      alignUp_lt _ _, hpos, ?_⟩
    dsimp only
    omega

/-- With the blob mapped the page tables are as promised exactly if it fits. -/
theorem DtbMapped.kernelReady_iff
    (hplaced : PagesPlaced src (file.imageByte h.virtualAddr) map₀ taken₀ (h.virtualAddr / pageSize)
      (imageEnd h.virtualAddr h.msize) s map leaf)
    (hmapDtb : h.mapDtb = true) (hmsize : 0 < h.msize)
    (hfits : h.virtualAddr + h.msize ≤ 0xfffff000) (haligned : h.dtbAddress % pageSize = 0)
    (hareas : h.maxDtbEnd < h.virtualAddr ∨ h.virtualAddr + h.msize ≤ h.dtbAddress)
    (hpos : 0 < totalSize)
    (hlimit : add32 h.dtbAddress (totalSize - 1) ≤ h.maxDtbEnd)
    (hapart : ∀ n p, src.page n = some p → p + pageSize ≤ blob ∨ blob + totalSize ≤ p)
    {map' leaf' : Nat → Option Nat} (hmapped : DtbMapped src h.dtbAddress blob s map leaf
      ((totalSize + 4095) / pageSize) s' map' leaf') :
    KernelReady src file h blob totalSize s' ↔ h.DtbFits totalSize := by
  obtain ⟨count, hcount⟩ : ∃ count, (totalSize + 4095) / pageSize = count := ⟨_, rfl⟩
  obtain ⟨d, hd⟩ : ∃ d, h.dtbAddress = d * pageSize := ⟨h.dtbAddress / pageSize, by
    rw [← Nat.div_add_mod' h.dtbAddress pageSize, haligned, Nat.add_zero,
      Nat.mul_div_cancel _ (by decide)]⟩
  have hdpage : h.dtbAddress / pageSize = d := by
    rw [hd]
    exact Nat.mul_div_cancel _ (by decide)
  -- the last page of the blob
  have hlast : count * pageSize < totalSize + pageSize ∧ totalSize ≤ count * pageSize := by
    simp only [pageSize] at hcount ⊢
    omega
  have hlastPage : (h.dtbAddress + totalSize - 1) / pageSize = d + count - 1 := by
    rw [hd]
    simp only [pageSize] at hlast ⊢
    omega
  have hcountPos : 0 < count := by
    simp only [pageSize] at hlast
    omega
  have hend : h.dtbAddress + totalSize ≤ 4294967296 →
      h.dtbAddress + (totalSize - 1) ≤ h.maxDtbEnd := by
    intro htop
    rwa [show add32 h.dtbAddress (totalSize - 1) = h.dtbAddress + (totalSize - 1) from
      Nat.mod_eq_of_lt (by omega)] at hlimit
  rw [hcount] at hmapped
  unfold BiKernelHeader.DtbFits
  rw [hlastPage]
  constructor
  · intro hready
    have htop : h.dtbAddress + totalSize ≤ 4294967296 := by
      have hin := (hready.deviceTree hmapDtb (totalSize - 1) (by omega)).1
      omega
    have hall : h.dtbAddress + count * pageSize ≤ 4294967296 := by
      rw [hd] at htop ⊢
      simp only [pageSize] at htop hlast ⊢
      omega
    refine ⟨htop, ?_⟩
    by_contra hnot
    -- else the page that the image begins in is the blob's
    have hend := hend htop
    have hsame : h.virtualAddr / pageSize = d + count - 1 := by
      have hle : (h.dtbAddress + totalSize - 1) / pageSize ≤ h.virtualAddr / pageSize :=
        Nat.div_le_div_right (by omega)
      omega
    have hx : h.InArea (h.virtualAddr / pageSize * pageSize) := by
      rw [BiKernelHeader.inArea_iff, Nat.mul_div_cancel _ (by decide)]
      refine ⟨le_rfl, ?_⟩
      simp only [imageEnd, pageSize]
      omega
    obtain ⟨phys, hphys, -, hside⟩ := hready.image _ hx
    rw [hmapped.tables.translate_eq (hx.lt hfits), Nat.mul_div_cancel _ (by decide),
      Nat.mul_mod_left, hmapped.inside hall _ (by omega) (by omega), hdpage, hsame,
      show d + count - 1 - d = count - 1 by omega] at hphys
    have hphys : blob + (count - 1) * pageSize + 0 = phys := Option.some.inj hphys
    simp only [pageSize] at hlast hphys
    omega
  · rintro ⟨htop, hside⟩
    have hend := hend htop
    have hall : h.dtbAddress + count * pageSize ≤ 4294967296 := by
      rw [hd] at htop ⊢
      simp only [pageSize] at htop hlast ⊢
      omega
    refine hplaced.kernelReady hfits hapart hmapped.tables (fun page hlo hhi => ?_)
      (fun n q hn hq hnone => (hmapped.frames n q hn hq hnone).2) fun _ i hi => ?_
    · refine hmapped.outside hall page ?_
      rw [hdpage]
      rcases hside with hbelow | hbelow
      · -- the image ends below the blob
        rw [hd] at hareas hbelow hend
        simp only [imageEnd, pageSize] at hhi hareas hbelow hend
        omega
      · omega
    · have hpage : (h.dtbAddress + i) / pageSize = d + i / pageSize := by
        rw [hd, Nat.add_comm, Nat.add_mul_div_right _ _ (by decide), Nat.add_comm]
      have hoffset : (h.dtbAddress + i) % pageSize = i % pageSize := by
        rw [hd, Nat.add_comm, Nat.add_mul_mod_self_right]
      have hinside : i / pageSize < count := by
        rw [Nat.div_lt_iff_lt_mul (by decide)]
        omega
      refine ⟨by omega, ?_⟩
      rw [hmapped.tables.translate_eq (by omega), hpage, hoffset,
        hmapped.inside hall _ (by rw [hdpage]; exact Nat.le_add_right ..) (by rw [hdpage]; omega),
        hdpage, Nat.add_sub_cancel_left]
      have hsum : blob + i / pageSize * pageSize + i % pageSize = blob + i := by
        rw [Nat.add_assoc, Nat.div_add_mod']
      exact congrArg some hsum

/-- The kernel is entered at the image's entry point. What the boot protocol promises of the page tables
holds exactly if the blob, where the kernel asks for it, ends inside the address space and not in the page
that the image begins in. -/
theorem handOff_ready_iff {s : Loading} (htables : Tables src s.paging map₀ leaf₀)
    (hused : Used map₀ leaf₀) (hs : vol.Steady s.disk)
    (hsize : kernelHeaderSize ≤ biInodeSize vol.fs file.inode)
    (hheader : BiKernelHeader.ofBytes (vol.fileByte file.map) = h)
    (hfits : h.virtualAddr + h.msize ≤ 0xfffff000)
    (hblob : h.mapDtb = true → blob % pageSize = 0) (hpos : 0 < totalSize)
    (htotal : totalSize + 4096 ≤ 4294967296) (hmem : blob + totalSize ≤ 4294967296)
    (hapart : ∀ n p, src.page n = some p → p + pageSize ≤ blob ∨ blob + totalSize ≤ p) :
    Post (handOff src vol.fw vol.part vol.fs (some file.inode) blob totalSize) s
      (fun r s' => h.check = .ok r.1 ∧ s'.paging.mem r.2 = file.imageByte h.virtualAddr h.entry ∧
        (KernelReady src file r.1 blob totalSize s'.paging ↔
          (r.1.mapDtb = true → r.1.DtbFits totalSize)))
      fun stop _ => h.check = .error stop ∨
        (stop = .crash "out of memory" ∧ ∃ n < s.paging.taken +
          2 * (imageEnd h.virtualAddr h.msize - h.virtualAddr / pageSize) +
            (totalSize + 4095) / pageSize, src.page n = none) ∨
        (h.msize < biInodeSize vol.fs file.inode ∧ stop = fileTooLarge (biInodeSize vol.fs file.inode)) ∨
        ¬file.PagesInSectors h.virtualAddr ∨
        (h.mapDtb = true ∧ stop = .crash "device tree too large to map" ∧
          h.maxDtbEnd < add32 (alignUp h.dtbAddress pageSize) (totalSize - 1)) := by
  have hentry : h.entry < 4294967296 := by
    rw [← hheader]
    exact read32_lt _ _
  have hdtb : h.dtbAddress < 4294967296 := by
    rw [← hheader]
    exact read32_lt _ _
  have hlast : sub32 totalSize 1 = totalSize - 1 := by
    unfold sub32
    omega
  unfold handOff
  rw [post_bind]
  refine (biLoadKernel_post htables hused hs hsize hheader hfits).mono ?_ fun stop _ hstop => ?_
  · rintro h' s₁ ⟨hcheck, -, -, -, map, leaf, hplaced⟩
    obtain ⟨-, -, hlo, hhi, hcases⟩ := BiKernelHeader.check_ok hentry hcheck
    have hsame : h'.entry = h.entry ∧ h'.virtualAddr = h.virtualAddr ∧ h'.msize = h.msize ∧
        h'.maxDtbEnd = h.maxDtbEnd ∧ h'.mapDtb = h.mapDtb := by
      rcases hcases with ⟨-, rfl⟩ | ⟨-, rfl, -⟩ <;> exact ⟨rfl, rfl, rfl, rfl, rfl⟩
    obtain ⟨hentry', hva, hms, hmax, hmap⟩ := hsame
    rw [← hva, ← hms] at hplaced hfits
    -- the entry point is in the area
    have hx : h'.InArea h'.entry := by
      rw [hentry']
      simp only [BiKernelHeader.InArea, imageEnd, pageSize]
      omega
    obtain ⟨n, p, hn, hpage, -, hnone, hphys, hbyte⟩ := hplaced.frame hfits hx
    rw [post_bind, post_zoom]
    refine post_of_run_ok (hplaced.tables.blGetMapping_ok (hx.lt hfits) hphys) ?_
    rw [post_bind, post_zoom]
    unfold placeDtb
    rw [hlast]
    by_cases hno : h'.mapDtb = true
    · obtain ⟨-, -, haligned, hdlt, hdpos, hareas⟩ :=
        BiKernelHeader.check_areas hentry hdtb (by rw [← hva, ← hms]; exact hfits) hcheck hno
      rw [if_pos hno]
      by_cases hover : add32 h'.dtbAddress (totalSize - 1) > h'.maxDtbEnd
      · rw [if_pos hover, post_stop]
        rcases hcases with ⟨hnot, rfl⟩ | ⟨hyes, rfl, -⟩
        · rw [hno] at hnot
          cases hnot
        · exact .inr (.inr (.inr (.inr ⟨hyes, rfl, hover⟩)))
      · rw [if_neg hover]
        have hstart : DtbMapped src h'.dtbAddress blob s₁.paging map leaf 0 s₁.paging map leaf :=
          ⟨hplaced.tables, hplaced.used, le_rfl, le_rfl, fun _ page hlo' hhi' => absurd hlo' (by omega),
            fun _ _ _ => rfl, fun n q _ _ hnone => ⟨hnone, fun _ _ => rfl⟩⟩
        have hloop := @mapDtb_post src h'.dtbAddress blob totalSize 0 rounds s₁.paging s₁.paging map
          leaf map leaf (hblob (hmap ▸ hno)) hmem htotal
          (by simp only [rounds, pageSize]; omega) (Nat.zero_le _) hstart
        rw [Nat.zero_mul] at hloop
        refine hloop.mono ?_ fun stop _ hstop => ?_
        swap
        · obtain ⟨hstop, n, hn, hnone⟩ := hstop
          have hle := hplaced.taken_le
          rw [hva, hms] at hle
          exact .inr (.inl ⟨hstop, n, by omega, hnone⟩)
        rintro _ s₂ ⟨map', leaf', hmapped⟩
        rw [post_pure]
        refine ⟨hcheck, ?_, ?_⟩
        · refine ((hmapped.frames n p hn hpage hnone).2 _ (Nat.mod_lt _ (by decide))).trans ?_
          rw [hbyte, hva, hentry']
        · have hiff := hmapped.kernelReady_iff hplaced hno (by omega) hfits haligned
            (by rw [hva, hms]; exact hareas) hpos (not_lt.1 hover) hapart
          exact hiff.trans ⟨fun hdtbFits _ => hdtbFits, fun hall => hall hno⟩
    · rw [if_neg hno, post_pure]
      refine ⟨hcheck, ?_, ?_⟩
      · show s₁.paging.mem (p + h'.entry % pageSize) = _
        rw [hbyte, hva, hentry']
      · exact ⟨fun _ hyes => absurd hyes hno, fun _ => hplaced.kernelReady hfits hapart
          hplaced.tables (fun _ _ _ => rfl) (fun _ _ _ _ _ _ _ => rfl) fun hyes => absurd hyes hno⟩
  · rcases hstop with hcheck | hlarge | ⟨hstop, n, hn, hnone⟩ | hsectors
    · exact .inl hcheck
    · exact .inr (.inr (.inl hlarge))
    · exact .inr (.inl ⟨hstop, n, lt_of_lt_of_le hn (Nat.le_add_right _ _), hnone⟩)
    · exact .inr (.inr (.inr (.inl hsectors)))

end

/-- The small kernel, with a blob of a page and a half. -/
theorem handOff_ready_iff_small : ∃ h entrypoint s,
    (handOff .example smallKernelVolume.fw smallKernelVolume.part smallKernelVolume.fs
      (some smallKernel.inode) 0x40000 0x1800).run smallLoading = (.ok (h, entrypoint), s) ∧
        KernelReady .example smallKernel h 0x40000 0x1800 s.paging := by
  -- for any volume with such a file, so that nothing is run
  have hstart : ∀ (vol : Volume) (file : vol.File) (s : Loading),
      Tables .example s.paging (fun _ => none) (fun _ => none) → s.paging.taken = 0 →
      vol.Steady s.disk → biInodeSize vol.fs file.inode = 12288 →
      BiKernelHeader.ofBytes (vol.fileByte file.map) = smallKernelHeader →
      file.PagesInSectors 0xc0000800 → ∃ h entrypoint s',
        (handOff .example vol.fw vol.part vol.fs (some file.inode) 0x40000 0x1800).run s =
          (.ok (h, entrypoint), s') ∧ KernelReady .example file h 0x40000 0x1800 s'.paging := by
    intro vol file s htables htaken hsteady hsize hheader hsectors
    have hpost := @handOff_ready_iff .example vol file _ _ _ 0x40000 0x1800 s htables
      (fun d hd => absurd rfl hd) hsteady (by rw [hsize]; decide) hheader
      (by simp [smallKernelHeader]) (fun _ => rfl) (by decide) (by decide) (by decide)
      fun n p hp => .inl (by
        by_cases hn : n < 16
        · have hpage : PageSource.example.page n = some (0x10000 + n * 0x1000) := if_pos hn
          rw [hpage, Option.some.injEq] at hp
          simp only [pageSize]
          omega
        · have hpage : PageSource.example.page n = none := if_neg hn
          rw [hpage] at hp
          cases hp)
    have hreturns : Returns (handOff .example vol.fw vol.part vol.fs (some file.inode) 0x40000 0x1800)
        s fun r s' => KernelReady .example file r.1 0x40000 0x1800 s'.paging := by
      refine hpost.mono ?_ ?_
      · rintro ⟨h, entrypoint⟩ s' ⟨hcheck, -, hready⟩
        rw [smallKernelHeader_check, Except.ok.injEq] at hcheck
        have hcheck : smallKernelHeader = h := hcheck
        subst hcheck
        exact hready.2 fun _ => show smallKernelHeader.DtbFits 0x1800 by decide
      rintro stop s' (hcheck | ⟨-, n, hn, hnone⟩ | ⟨hlarge, -⟩ | hnot | ⟨-, -, hover⟩)
      · rw [smallKernelHeader_check] at hcheck
        cases hcheck
      · simp only [smallKernelHeader, imageEnd, pageSize] at hn
        have hpage : PageSource.example.page n = some (0x10000 + n * 0x1000) := if_pos (by omega)
        rw [hpage] at hnone
        cases hnone
      · rw [hsize] at hlarge
        exact absurd hlarge (by decide)
      · exact hnot hsectors
      · exact absurd hover (by decide)
    obtain ⟨⟨h, entrypoint⟩, s', hrun, hready⟩ := returns_iff.1 hreturns
    exact ⟨h, entrypoint, s', hrun, hready⟩
  exact hstart smallKernelVolume smallKernel smallLoading (Tables.start _ _) rfl
    ⟨[], DiskState.init_ready _ _⟩ smallKernel_size smallKernel_header smallKernel_inSectors

end XrLinux.Bootloader
