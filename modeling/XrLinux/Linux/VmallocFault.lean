import XrLinux.Lib.Run
import XrLinux.Linux.ReserveMapped

/-!
# Linux — faults in the `vmalloc` area

The entries of the `vmalloc` area are made in the directory of `init_mm`. Another directory has those
that there are when it is made, and a later one after the first fault at an address behind it. The
fault finds the directory by the frame number that `xr17032_switch_mm` has left in `scratch3`; what
`_start` leaves there is an entry.

Processors switch directories and fault, and the kernel makes directories and mappings, in any order.
-/

namespace XrLinux.Linux.VmallocFault

open Machine Mmu
open Paging (pageOffset fixaddrTop swapperPgDir pageKernelBase pfnPte pgdIndex pteIndex va ptePfn
  entryOf)

/-- `VMALLOC_START`. -/
def vmallocStart : Word := fixaddrTop

/-- `VMALLOC_END`. -/
def vmallocEnd : Word := pageOffset

/-- `USER_PTRS_PER_PGD`. -/
def userPtrsPerPgd : Nat := 512

/-- `pfn_to_virt`. -/
def pfnToVirt (pfn : Word) : Word := va (pfn <<< 12)

/-- Of the generic headers: `pgd_present`, `p4d_present` and `pud_present` of levels that are folded,
and `pud_leaf` and `pmd_leaf`. -/
structure FoldedLevels where
  pgdPresent : Word → Bool
  p4dPresent : Word → Bool
  pudPresent : Word → Bool
  pudLeaf : Word → Bool
  pmdLeaf : Word → Bool

/-- Of a level that is folded, all is present and nothing is a leaf. -/
structure FoldedLevels.Folded (lv : FoldedLevels) : Prop where
  present : ∀ entry, lv.pgdPresent entry = true ∧ lv.p4dPresent entry = true ∧
    lv.pudPresent entry = true
  leaf : ∀ entry, lv.pudLeaf entry = false ∧ lv.pmdLeaf entry = false

/-- Bits 0 and 4: `pmd_present` and `pte_present`. -/
def present (entry : Word) : Bool := entry &&& 0x11 != 0

/-- The frame of the directory of `init_mm`, the memory that the kernel starts with, and what the
tables make of an address that is not in the linear mapping. -/
structure Boot where
  root : Nat
  mem : Word → Word
  translate : Word → Word

/-- The physical address. -/
def Boot.phys (b : Boot) (x : Word) : Word := if pageOffset ≤ x then x - pageOffset else b.translate x

/-- `virt_to_pfn`. -/
def Boot.virtToPfn (b : Boot) (x : Word) : Word := b.phys x >>> 12

/-- Where entry `i` of a table is. -/
def entryAddr (frame i : Nat) : Word := BitVec.ofNat 32 (frame * 4096 + i * 4)

/-- Physical memory, and of each processor the wired entry of the TB, by which it has its directory,
and `scratch3`. `dirs` are the frames of the directories that have been made, `tables` those of the
tables of the `vmalloc` area. -/
structure Sys (κ : Type) where
  mem : Word → Word
  dtbpte : κ → Word
  scratch3 : κ → Word
  dirs : List Nat
  tables : List Nat

/-- `init_mm.pgd`, or a directory that has been made. -/
inductive Directory where
  | initMm
  | made (frame : Nat)
  deriving DecidableEq

/-- It is there. -/
def Directory.known (dirs : List Nat) : Directory → Bool
  | .initMm => true
  | .made frame => dirs.contains frame

/-- `mm->pgd`. -/
def Directory.pgd : Directory → Word
  | .initMm => swapperPgDir
  | .made frame => pfnToVirt (BitVec.ofNat 32 frame)

inductive Event (κ : Type) where
  /-- `switch_mm` to another directory. -/
  | switch (cpu : κ) (next : Directory)
  /-- `pgd_alloc`, for which `__pgd_alloc` has returned a frame. -/
  | alloc (frame : Nat)
  /-- `pmd_populate_kernel` of an entry of the `vmalloc` area, with a new table. -/
  | populate (index frame : Nat)
  /-- `set_pte` in a table of the `vmalloc` area. -/
  | setPte (index t : Nat) (entry : Word)
  | fault (cpu : κ) (userMode : Bool) (addr : Word)

/-- How a fault ends: with `local_flush_tlb_page`, `no_context` or a signal, or not in
`vmalloc_fault`. -/
inductive Outcome where
  | resolved
  | noContext
  | signal
  | other
  deriving DecidableEq

section
variable {κ : Type} [DecidableEq κ] (lv : FoldedLevels) (b : Boot)

/-- `_start` on every processor. -/
def start : Sys κ :=
  let t5 := BitVec.ofNat 32 (b.root * 4096) >>> 7 ||| 0x17
  -- `s1` is `t5 RSH 5`, and then 4, before `scratch3` is written; that is `t5`
  { mem := b.mem, dtbpte := fun _ => t5, scratch3 := fun _ => t5, dirs := [], tables := [] }

/-- `xr17032_switch_mm`. -/
def xr17032SwitchMm (s : Sys κ) (cpu : κ) (pfn : Word) : Sys κ :=
  { s with
    dtbpte := Function.update s.dtbpte cpu (pfn <<< 5 ||| 0x17)
    scratch3 := Function.update s.scratch3 cpu pfn }

/-- `pgd_alloc`: a page of zeros, and `sync_kernel_mappings`. -/
def pgdAlloc (s : Sys κ) (frame : Nat) : Sys κ :=
  { s with
    mem := fun x =>
      if x.toNat / 4096 = frame then
        if x.toNat % 4096 / 4 < userPtrsPerPgd then 0
        else s.mem (b.phys (swapperPgDir + BitVec.ofNat 32 (4 * (x.toNat % 4096 / 4))))
      else s.mem x
    dirs := frame :: s.dirs }

/-- `pmd_populate_kernel`, with a table of zeros. -/
def pmdPopulateKernel (s : Sys κ) (index frame : Nat) : Sys κ :=
  { s with
    mem := Function.update (fun x => if x.toNat / 4096 = frame then 0 else s.mem x)
      (b.phys (swapperPgDir + BitVec.ofNat 32 (4 * index)))
      (pfnPte (BitVec.ofNat 32 frame) pageKernelBase)
    tables := frame :: s.tables }

/-- `vmalloc_fault`. -/
def vmallocFault (s : Sys κ) (cpu : κ) (userMode : Bool) (addr : Word) : Sys κ × Outcome :=
  if userMode then (s, .signal)
  else
    let index := pgdIndex addr
    let pgd := b.phys (pfnToVirt (s.scratch3 cpu) + BitVec.ofNat 32 (4 * index))
    let pgdK := b.phys (swapperPgDir + BitVec.ofNat 32 (4 * index))
    if !lv.pgdPresent (s.mem pgdK) then (s, .noContext)
    else
      -- `set_pgd`, before the entry is looked at any further
      let s := { s with mem := Function.update s.mem pgd (s.mem pgdK) }
      let entry := s.mem pgdK
      if !lv.p4dPresent entry then (s, .noContext)
      else if !lv.pudPresent entry then (s, .noContext)
      else if lv.pudLeaf entry then (s, .resolved)
      else if !present entry then (s, .noContext)
      else if lv.pmdLeaf entry then (s, .resolved)
      else
        let pte := s.mem (b.phys (pfnToVirt (ptePfn entry) + BitVec.ofNat 32 (4 * pteIndex addr)))
        if !present pte then (s, .noContext) else (s, .resolved)

/-- `handle_page_fault`, as far as it is about the `vmalloc` area. -/
def handlePageFault (s : Sys κ) (cpu : κ) (userMode : Bool) (addr : Word) : Sys κ × Outcome :=
  if vmallocStart ≤ addr ∧ addr ≤ vmallocEnd then vmallocFault lv b s cpu userMode addr
  else (s, .other)

/-- An entry of the `vmalloc` area. -/
def InArea (index : Nat) : Prop := 640 ≤ index ∧ index < 768

instance (index : Nat) : Decidable (InArea index) := inferInstanceAs (Decidable (_ ∧ _))

/-- A page of the linear mapping that is none of the tables. -/
def Free (s : Sys κ) (frame : Nat) : Prop :=
  frame < 262144 ∧ frame ≠ b.root ∧ frame ∉ s.dirs ∧ frame ∉ s.tables

instance (s : Sys κ) (frame : Nat) : Decidable (Free b s frame) :=
  inferInstanceAs (Decidable (_ ∧ _ ∧ _ ∧ _))

/-- One event. Pages that are allocated are free, and what is added to the mappings was not there. -/
def step (s : Sys κ) : Event κ → Option (Sys κ)
  | .switch cpu next =>
    if next.known s.dirs then
      some (xr17032SwitchMm s cpu (b.virtToPfn next.pgd))
    else none
  | .alloc frame => if Free b s frame then some (pgdAlloc b s frame) else none
  | .populate index frame =>
    if InArea index ∧ s.mem (entryAddr b.root index) = 0 ∧ Free b s frame then
      some (pmdPopulateKernel b s index frame)
    else none
  | .setPte index t entry =>
    match follow (s.mem (entryAddr b.root index)) with
    | none => none
    | some frame =>
      if InArea index ∧ t < 1024 ∧ entry.toNat % 2 = 1 then
        some { s with mem := Function.update s.mem (entryAddr frame t) entry }
      else none
  | .fault cpu userMode addr => some (handlePageFault lv b s cpu userMode addr).1

/-- The directory of `init_mm` leads to a page. -/
def MappedInMaster (s : Sys κ) (addr : Word) : Prop :=
  ∃ table, follow (s.mem (entryAddr b.root (pgdIndex addr))) = some table ∧
    follow (s.mem (entryAddr table (pteIndex addr))) ≠ none

/-- What a fault is to do where the processor has the directory `d`. Nothing but the entry for the
address is written, with what the directory of `init_mm` has, and that is in the part of the kernel.
It is resolved if the kernel has it, at an address that is in the area and mapped, and only then. -/
structure FaultCorrect (s : Sys κ) (cpu : κ) (userMode : Bool) (addr : Word) (d : Nat) : Prop where
  uses : follow (s.dtbpte cpu) = some d
  only : ∀ x, x ≠ entryAddr d (pgdIndex addr) →
    (handlePageFault lv b s cpu userMode addr).1.mem x = s.mem x
  entry : (handlePageFault lv b s cpu userMode addr).1.mem = s.mem ∨
    userPtrsPerPgd ≤ pgdIndex addr ∧
      (handlePageFault lv b s cpu userMode addr).1.mem (entryAddr d (pgdIndex addr)) =
        s.mem (entryAddr b.root (pgdIndex addr))
  synced : userMode = false → vmallocStart ≤ addr → addr < vmallocEnd →
    (handlePageFault lv b s cpu userMode addr).1.mem (entryAddr d (pgdIndex addr)) =
      s.mem (entryAddr b.root (pgdIndex addr))
  resolved : (handlePageFault lv b s cpu userMode addr).2 = .resolved ↔
    userMode = false ∧ vmallocStart ≤ addr ∧ addr < vmallocEnd ∧ MappedInMaster b s addr

/-- An entry of the area that a directory has is the one of `init_mm`. -/
def Synced (s : Sys κ) : Prop :=
  ∀ d ∈ s.dirs, ∀ i, InArea i →
    s.mem (entryAddr d i) = 0 ∨ s.mem (entryAddr d i) = s.mem (entryAddr b.root i)

/-- A fault of the kernel in the area, its end included, is on a processor that has switched before, and
not at its end. -/
def FaultMeets (switched : Prop) (userMode : Bool) (addr : Word) : Prop :=
  userMode = false → vmallocStart ≤ addr → addr ≤ vmallocEnd → switched ∧ addr ≠ vmallocEnd

/-- Every fault is so, where the processors of `W` have switched at the start. -/
def Meets : (κ → Prop) → List (Event κ) → Prop
  | _, [] => True
  | W, .switch cpu _ :: events => Meets (fun cpu' => cpu' = cpu ∨ W cpu') events
  | W, .fault cpu userMode addr :: events => FaultMeets (W cpu) userMode addr ∧ Meets W events
  | W, _ :: events => Meets W events

end

/-! ## Addresses -/

/-- The frame of a directory. -/
def Directory.frame (b : Boot) : Directory → Nat
  | .initMm => b.root
  | .made frame => frame

section
variable {b : Boot} {frame i : Nat}

theorem entryAddr_toNat (hframe : frame < 1048576) (hi : i < 1024) :
    (entryAddr frame i).toNat = frame * 4096 + i * 4 := by
  rw [entryAddr, BitVec.toNat_ofNat]
  omega

theorem entryAddr_inj {frame' i' : Nat} (hframe : frame < 1048576) (hi : i < 1024)
    (hframe' : frame' < 1048576) (hi' : i' < 1024) :
    entryAddr frame i = entryAddr frame' i' ↔ frame = frame' ∧ i = i' := by
  rw [← BitVec.toNat_inj, entryAddr_toNat hframe hi, entryAddr_toNat hframe' hi']
  omega

/-- A word of the linear mapping. -/
theorem phys_pfnToVirt (hframe : frame < 262144) (hi : i < 1024) :
    b.phys (pfnToVirt (BitVec.ofNat 32 frame) + BitVec.ofNat 32 (4 * i)) = entryAddr frame i := by
  have hoffset : pageOffset.toNat = 3221225472 := rfl
  have hpage : (BitVec.ofNat 32 frame <<< 12 : Word).toNat = frame * 4096 := by
    rw [BitVec.toNat_shiftLeft, BitVec.toNat_ofNat, Nat.shiftLeft_eq]
    omega
  have hvirt : (pfnToVirt (BitVec.ofNat 32 frame) + BitVec.ofNat 32 (4 * i)).toNat =
      3221225472 + (frame * 4096 + i * 4) := by
    rw [pfnToVirt, va, BitVec.toNat_add, BitVec.toNat_add, hpage, hoffset, BitVec.toNat_ofNat]
    omega
  have hlinear : pageOffset ≤ pfnToVirt (BitVec.ofNat 32 frame) + BitVec.ofNat 32 (4 * i) := by
    rw [BitVec.le_def, hvirt, hoffset]
    omega
  apply BitVec.eq_of_toNat_eq
  rw [Boot.phys, if_pos hlinear, BitVec.toNat_sub_of_le hlinear, hvirt, hoffset,
    entryAddr_toNat (by omega) hi]
  omega

/-- The directory of `init_mm`, where the kernel has it. -/
structure Boot.Proper (b : Boot) : Prop where
  root_low : b.root < 262144
  swapper : ∀ i < 1024, b.translate (swapperPgDir + BitVec.ofNat 32 (4 * i)) = entryAddr b.root i
  area_empty : ∀ i, InArea i → b.mem (entryAddr b.root i) = 0

theorem Boot.Proper.phys_swapper (h : b.Proper) (hi : i < 1024) :
    b.phys (swapperPgDir + BitVec.ofNat 32 (4 * i)) = entryAddr b.root i := by
  have hbelow : ¬ pageOffset ≤ swapperPgDir + BitVec.ofNat 32 (4 * i) := by
    have hoffset : pageOffset.toNat = 3221225472 := rfl
    have hswapper : swapperPgDir.toNat = 2151677952 := rfl
    rw [BitVec.le_def, BitVec.toNat_add, hoffset, hswapper, BitVec.toNat_ofNat]
    omega
  rw [Boot.phys, if_neg hbelow]
  exact h.swapper i hi

theorem entryAddr_shift (hframe : frame < 1048576) :
    entryAddr frame 0 >>> 12 = BitVec.ofNat 32 frame := by
  apply BitVec.eq_of_toNat_eq
  rw [BitVec.toNat_ushiftRight, entryAddr_toNat hframe (by decide), Nat.shiftRight_eq_div_pow,
    BitVec.toNat_ofNat]
  omega

theorem Boot.Proper.virtToPfn_pgd (h : b.Proper) {next : Directory}
    (hlow : next.frame b < 262144) :
    b.virtToPfn next.pgd = BitVec.ofNat 32 (next.frame b) := by
  cases next with
  | initMm =>
    have hphys := h.phys_swapper (show 0 < 1024 by decide)
    rw [Nat.mul_zero, BitVec.add_zero] at hphys
    have hroot : b.root < 1048576 := h.root_low.trans (by decide)
    show b.phys swapperPgDir >>> 12 = BitVec.ofNat 32 b.root
    rw [hphys]
    exact entryAddr_shift hroot
  | made frame =>
    have hphys := @phys_pfnToVirt b frame 0 hlow (by decide)
    rw [Nat.mul_zero, BitVec.add_zero] at hphys
    have hframe : frame < 1048576 := Nat.lt_trans hlow (by decide)
    show b.phys (pfnToVirt (BitVec.ofNat 32 frame)) >>> 12 = BitVec.ofNat 32 frame
    rw [hphys]
    exact entryAddr_shift hframe

end

/-! ## The invariant -/

/-- The frames of the directories and of the tables are apart, each processor has a directory, and the
tables of the area have proper entries, of which the directories have some. -/
structure Inv {κ : Type} (b : Boot) (s : Sys κ) : Prop where
  dirs_low : ∀ d ∈ s.dirs, d < 262144 ∧ d ≠ b.root
  tables_low : ∀ f ∈ s.tables, f < 262144 ∧ f ≠ b.root ∧ f ∉ s.dirs
  uses : ∀ cpu, ∃ d, (d = b.root ∨ d ∈ s.dirs) ∧ follow (s.dtbpte cpu) = some d
  area : ∀ i, InArea i → s.mem (entryAddr b.root i) = 0 ∨
    ∃ f ∈ s.tables, s.mem (entryAddr b.root i) = entryOf f
  ptes : ∀ f ∈ s.tables, ∀ t < 1024,
    s.mem (entryAddr f t) = 0 ∨ (s.mem (entryAddr f t)).toNat % 2 = 1
  synced : Synced b s

/-- A processor has the directory that it has in `scratch3`. -/
def Switched {κ : Type} (s : Sys κ) (cpu : κ) : Prop :=
  ∃ d < 262144, s.scratch3 cpu = BitVec.ofNat 32 d ∧ follow (s.dtbpte cpu) = some d

section
variable {κ : Type} {lv : FoldedLevels} {b : Boot} {s : Sys κ}

theorem inv_start (hb : b.Proper) : Inv b (start b : Sys κ) where
  dirs_low := fun _ hd => (List.not_mem_nil hd).elim
  tables_low := fun _ hf => (List.not_mem_nil hf).elim
  uses := fun _ => ⟨b.root, .inl rfl, Paging.startEntry_follow (by have := hb.root_low; omega)⟩
  area := fun i hi => .inl (hb.area_empty i hi)
  ptes := fun _ hf => (List.not_mem_nil hf).elim
  synced := fun _ hd => (List.not_mem_nil hd).elim

theorem Inv.known_low (h : Inv b s) (hb : b.Proper) {next : Directory}
    (hknown : next.known s.dirs = true) :
    next.frame b < 262144 ∧ (next.frame b = b.root ∨ next.frame b ∈ s.dirs) := by
  cases next with
  | initMm => exact ⟨hb.root_low, .inl rfl⟩
  | made frame =>
    have hmem : frame ∈ s.dirs := List.contains_iff_mem.mp hknown
    exact ⟨(h.dirs_low frame hmem).1, .inr hmem⟩

/-- The entry of a switch is for the frame of the directory. -/
theorem switch_follow {frame : Nat} (hframe : frame < 262144) :
    follow (BitVec.ofNat 32 frame <<< 5 ||| 0x17) = some frame := by
  refine Paging.follow_or ?_ (by omega)
  rw [BitVec.toNat_shiftLeft, BitVec.toNat_ofNat, Nat.shiftLeft_eq, Nat.shiftLeft_eq]
  omega

theorem Inv.switch [DecidableEq κ] (h : Inv b s) (hb : b.Proper) (cpu : κ) {next : Directory}
    (hknown : next.known s.dirs = true) :
    Inv b (xr17032SwitchMm s cpu (b.virtToPfn next.pgd)) ∧
      Switched (xr17032SwitchMm s cpu (b.virtToPfn next.pgd)) cpu := by
  obtain ⟨hlow, hused⟩ := h.known_low hb hknown
  have hpfn := hb.virtToPfn_pgd hlow
  have hentry : (xr17032SwitchMm s cpu (b.virtToPfn next.pgd)).dtbpte cpu =
      BitVec.ofNat 32 (next.frame b) <<< 5 ||| 0x17 := by
    rw [hpfn]
    exact Function.update_self ..
  refine ⟨{ h with uses := fun cpu' => ?_ }, next.frame b, hlow, ?_, ?_⟩
  · by_cases hcpu : cpu' = cpu
    · rw [hcpu, hentry]
      exact ⟨next.frame b, hused, switch_follow hlow⟩
    · have hkept : (xr17032SwitchMm s cpu (b.virtToPfn next.pgd)).dtbpte cpu' = s.dtbpte cpu' :=
        Function.update_of_ne hcpu _ _
      rw [hkept]
      exact h.uses cpu'
  · rw [hpfn]
    exact Function.update_self ..
  · rw [hentry]
    exact switch_follow hlow

/-- The new page of a directory or of a table. -/
theorem page_frame {frame frame' i : Nat} (hframe : frame' < 262144) (hi : i < 1024) :
    (entryAddr frame' i).toNat / 4096 = frame ↔ frame' = frame := by
  rw [entryAddr_toNat (by omega) hi]
  omega

theorem Inv.alloc (h : Inv b s) (hb : b.Proper) {frame : Nat} (hfree : Free b s frame) :
    Inv b (pgdAlloc b s frame) := by
  obtain ⟨hlow, hroot, hdirs, htables⟩ := hfree
  have hother {f i : Nat} (hf : f < 262144) (hi : i < 1024) (hne : f ≠ frame) :
      (pgdAlloc b s frame).mem (entryAddr f i) = s.mem (entryAddr f i) :=
    if_neg fun heq => hne ((page_frame hf hi).mp heq)
  have hcopy {i : Nat} (hi : InArea i) :
      (pgdAlloc b s frame).mem (entryAddr frame i) = s.mem (entryAddr b.root i) := by
    have hlt : i < 1024 := by have := hi.2; omega
    have hindex : (entryAddr frame i).toNat % 4096 / 4 = i := by
      rw [entryAddr_toNat (by omega) hlt]
      omega
    refine (if_pos ((page_frame hlow hlt).mpr rfl)).trans ?_
    rw [hindex]
    refine (if_neg ?_).trans (congrArg s.mem (hb.phys_swapper hlt))
    have := hi.1
    simp only [userPtrsPerPgd]
    omega
  have hroot_low := hb.root_low
  refine ⟨?_, ?_, ?_, ?_, ?_, ?_⟩
  · intro d hd
    rcases List.mem_cons.mp hd with rfl | hd
    · exact ⟨hlow, hroot⟩
    · exact h.dirs_low d hd
  · intro f hf
    obtain ⟨hf_low, hf_root, hf_dirs⟩ := h.tables_low f hf
    refine ⟨hf_low, hf_root, fun hmem => ?_⟩
    rcases List.mem_cons.mp hmem with rfl | hmem
    · exact htables hf
    · exact hf_dirs hmem
  · intro cpu
    obtain ⟨d, hd, hfollow⟩ := h.uses cpu
    exact ⟨d, hd.imp_right (List.mem_cons_of_mem frame), hfollow⟩
  · intro i hi
    rw [hother hroot_low (by have := hi.2; omega) hroot.symm]
    exact h.area i hi
  · intro f hf t ht
    have hne : f ≠ frame := by
      rintro rfl
      exact htables hf
    rw [hother (h.tables_low f hf).1 ht hne]
    exact h.ptes f hf t ht
  · intro d hd i hi
    have hlt : i < 1024 := by have := hi.2; omega
    rw [hother hroot_low hlt hroot.symm]
    rcases List.mem_cons.mp hd with rfl | hmem
    · exact .inr (hcopy hi)
    · have hne : d ≠ frame := by
        rintro rfl
        exact hdirs hmem
      rw [hother (h.dirs_low d hmem).1 hlt hne]
      exact h.synced d hmem i hi

theorem Inv.populate (h : Inv b s) (hb : b.Proper) {index frame : Nat} (hindex : InArea index)
    (hempty : s.mem (entryAddr b.root index) = 0) (hfree : Free b s frame) :
    Inv b (pmdPopulateKernel b s index frame) := by
  obtain ⟨hlow, hroot, hdirs, htables⟩ := hfree
  have hroot_low := hb.root_low
  have hindex_lt : index < 1024 := by have := hindex.2; omega
  have hmem : (pmdPopulateKernel b s index frame).mem =
      Function.update (fun x => if x.toNat / 4096 = frame then 0 else s.mem x)
        (entryAddr b.root index) (entryOf frame) := by
    rw [← hb.phys_swapper hindex_lt]
    rfl
  have hentry : (pmdPopulateKernel b s index frame).mem (entryAddr b.root index) = entryOf frame := by
    rw [hmem, Function.update_self]
  have hother {f i : Nat} (hf : f < 262144) (hi : i < 1024) (hne : f ≠ b.root ∨ i ≠ index)
      (hne' : f ≠ frame) :
      (pmdPopulateKernel b s index frame).mem (entryAddr f i) = s.mem (entryAddr f i) := by
    rw [hmem, Function.update_of_ne]
    · exact if_neg fun heq => hne' ((page_frame hf hi).mp heq)
    · rw [ne_eq, entryAddr_inj (by omega) hi (by omega) hindex_lt]
      omega
  have hzero {i : Nat} (hi : i < 1024) :
      (pmdPopulateKernel b s index frame).mem (entryAddr frame i) = 0 := by
    rw [hmem, Function.update_of_ne]
    · exact if_pos ((page_frame hlow hi).mpr rfl)
    · rw [ne_eq, entryAddr_inj (by omega) hi (by omega) hindex_lt]
      omega
  refine ⟨h.dirs_low, ?_, h.uses, ?_, ?_, ?_⟩
  · intro f hf
    rcases List.mem_cons.mp hf with rfl | hf
    · exact ⟨hlow, hroot, hdirs⟩
    · exact h.tables_low f hf
  · intro i hi
    by_cases hi' : i = index
    · rw [hi', hentry]
      exact .inr ⟨frame, List.mem_cons_self, rfl⟩
    · rw [hother hroot_low (by have := hi.2; omega) (.inr hi') hroot.symm]
      exact (h.area i hi).imp_right fun ⟨f, hf, heq⟩ => ⟨f, List.mem_cons_of_mem frame hf, heq⟩
  · intro f hf t ht
    rcases List.mem_cons.mp hf with rfl | hold
    · exact .inl (hzero ht)
    · have hne : f ≠ frame := by
        rintro rfl
        exact htables hold
      obtain ⟨hf_low, hf_root, -⟩ := h.tables_low f hold
      rw [hother hf_low ht (.inl hf_root) hne]
      exact h.ptes f hold t ht
  · intro d hd i hi
    have hlt : i < 1024 := by have := hi.2; omega
    obtain ⟨hd_low, hd_root⟩ := h.dirs_low d hd
    have hne : d ≠ frame := by
      rintro rfl
      exact hdirs hd
    rw [hother hd_low hlt (.inl hd_root) hne]
    by_cases hi' : i = index
    · -- no directory can have an entry that there was not
      have hold := h.synced d hd i hi
      rw [hi', hempty, or_self] at hold
      rw [hi']
      exact .inl hold
    · rw [hother hroot_low hlt (.inr hi') hroot.symm]
      exact h.synced d hd i hi

/-- Memory that is changed beside the area of `init_mm`. -/
theorem Inv.of_mem (h : Inv b s) {mem : Word → Word}
    (hmaster : ∀ i, InArea i → mem (entryAddr b.root i) = s.mem (entryAddr b.root i))
    (hptes : ∀ f ∈ s.tables, ∀ t < 1024,
      mem (entryAddr f t) = s.mem (entryAddr f t) ∨ (mem (entryAddr f t)).toNat % 2 = 1)
    (hdirs : ∀ d ∈ s.dirs, ∀ i, InArea i → mem (entryAddr d i) = s.mem (entryAddr d i) ∨
      mem (entryAddr d i) = s.mem (entryAddr b.root i)) :
    Inv b { s with mem } where
  dirs_low := h.dirs_low
  tables_low := h.tables_low
  uses := h.uses
  area i hi := by
    show mem (entryAddr b.root i) = 0 ∨ ∃ f ∈ s.tables, mem (entryAddr b.root i) = entryOf f
    rw [hmaster i hi]
    exact h.area i hi
  ptes f hf t ht := by
    show mem (entryAddr f t) = 0 ∨ (mem (entryAddr f t)).toNat % 2 = 1
    rcases hptes f hf t ht with heq | hodd
    · rw [heq]
      exact h.ptes f hf t ht
    · exact .inr hodd
  synced d hd i hi := by
    show mem (entryAddr d i) = 0 ∨ mem (entryAddr d i) = mem (entryAddr b.root i)
    rw [hmaster i hi]
    rcases hdirs d hd i hi with heq | heq
    · rw [heq]
      exact h.synced d hd i hi
    · exact .inr heq

/-- The table behind an entry of the area. -/
theorem Inv.table (h : Inv b s) {index frame : Nat} (hindex : InArea index)
    (hfollow : follow (s.mem (entryAddr b.root index)) = some frame) :
    frame ∈ s.tables ∧ s.mem (entryAddr b.root index) = entryOf frame := by
  rcases h.area index hindex with hzero | ⟨f, hf, heq⟩
  · rw [hzero] at hfollow
    cases hfollow
  · rw [heq, Paging.follow_entryOf ((h.tables_low f hf).1.trans (by decide))] at hfollow
    cases hfollow
    exact ⟨hf, heq⟩

theorem Inv.setPte (h : Inv b s) (hb : b.Proper) {index t frame : Nat} {entry : Word}
    (hindex : InArea index) (ht : t < 1024) (hentry : entry.toNat % 2 = 1)
    (hfollow : follow (s.mem (entryAddr b.root index)) = some frame) :
    Inv b { s with mem := Function.update s.mem (entryAddr frame t) entry } := by
  have hroot_low := hb.root_low
  have hframe := (h.table hindex hfollow).1
  obtain ⟨hlow, hroot, hdirs⟩ := h.tables_low frame hframe
  have hother {f i : Nat} (hf : f < 262144) (hi : i < 1024) (hne : f ≠ frame) :
      Function.update s.mem (entryAddr frame t) entry (entryAddr f i) = s.mem (entryAddr f i) := by
    refine Function.update_of_ne ?_ _ _
    rw [ne_eq, entryAddr_inj (by omega) hi (by omega) ht]
    omega
  apply h.of_mem
  · intro i hi
    exact hother hroot_low (by have := hi.2; omega) hroot.symm
  · intro f hf u hu
    by_cases hsame : entryAddr f u = entryAddr frame t
    · rw [hsame, Function.update_self]
      exact .inr hentry
    · exact .inl (Function.update_of_ne hsame _ _)
  · intro d hd i hi
    have hne : d ≠ frame := by
      rintro rfl
      exact hdirs hd
    exact .inl (hother (h.dirs_low d hd).1 (by have := hi.2; omega) hne)

/-! ## A fault -/

/-- The entry that is written is the one of the directory in use. -/
theorem Switched.pgd_eq {cpu : κ} {d index : Nat} (h : Switched s cpu)
    (hd : follow (s.dtbpte cpu) = some d) (hindex : index < 1024) :
    b.phys (pfnToVirt (s.scratch3 cpu) + BitVec.ofNat 32 (4 * index)) = entryAddr d index := by
  obtain ⟨d', hlow, hscratch, hd'⟩ := h
  cases hd.symm.trans hd'
  rw [hscratch]
  exact phys_pfnToVirt hlow hindex

/-- The state after `set_pgd`. -/
def copied (b : Boot) (s : Sys κ) (d index : Nat) : Sys κ :=
  { s with mem := Function.update s.mem (entryAddr d index) (s.mem (entryAddr b.root index)) }

theorem copied_mem (d index : Nat) : (copied b s d index).mem =
    Function.update s.mem (entryAddr d index) (s.mem (entryAddr b.root index)) := rfl

theorem copied_self (d index : Nat) :
    (copied b s d index).mem (entryAddr d index) = s.mem (entryAddr b.root index) := by
  rw [copied_mem, Function.update_self]

theorem copied_master (index : Nat) {d : Nat} :
    (copied b s d index).mem (entryAddr b.root index) = s.mem (entryAddr b.root index) := by
  by_cases hsame : entryAddr b.root index = entryAddr d index
  · rw [hsame, copied_self, hsame]
  · rw [copied_mem, Function.update_of_ne hsame]

section
variable (h : Inv b s) (hb : b.Proper) {d index : Nat} (hd : d = b.root ∨ d ∈ s.dirs)
include h hb hd

theorem Inv.used_low : d < 262144 := by
  rcases hd with rfl | hd
  · exact hb.root_low
  · exact (h.dirs_low d hd).1

theorem copied_other {f i : Nat} (hindex : index < 1024) (hf : f < 262144) (hi : i < 1024)
    (hne : f ≠ d ∨ i ≠ index) :
    (copied b s d index).mem (entryAddr f i) = s.mem (entryAddr f i) := by
  have hlow := h.used_low hb hd
  rw [copied_mem, Function.update_of_ne]
  rw [ne_eq, entryAddr_inj (by omega) hi (by omega) hindex]
  omega

theorem copied_table {f t : Nat} (hindex : index < 1024) (hf : f ∈ s.tables) (ht : t < 1024) :
    (copied b s d index).mem (entryAddr f t) = s.mem (entryAddr f t) := by
  obtain ⟨hlow, hroot, hdirs⟩ := h.tables_low f hf
  refine copied_other h hb hd hindex hlow ht (.inl ?_)
  rintro rfl
  exact hd.elim hroot hdirs

theorem Inv.afterCopy (hindex : InArea index) : Inv b (copied b s d index) := by
  have hindex_lt : index < 1024 := by have := hindex.2; omega
  show Inv b { s with mem := (copied b s d index).mem }
  apply h.of_mem
  · intro i hi
    by_cases hi' : i = index
    · rw [hi']
      exact copied_master index
    · exact copied_other h hb hd hindex_lt hb.root_low (by have := hi.2; omega) (.inr hi')
  · exact fun f hf t ht => .inl (copied_table h hb hd hindex_lt hf ht)
  · intro d' hd' i hi
    by_cases hsame : d' = d ∧ i = index
    · obtain ⟨rfl, rfl⟩ := hsame
      exact .inr (copied_self d' i)
    · exact .inl (copied_other h hb hd hindex_lt (h.dirs_low d' hd').1 (by have := hi.2; omega)
        (by omega))

end

/-- How it ends after `set_pgd`, by the entry and the one behind it. -/
def walkOutcome (entry pte : Word) : Outcome :=
  if present entry && present pte then .resolved else .noContext

/-- The walk, from the entry that has been copied. -/
theorem walk_eq (hlv : lv.Folded) (s : Sys κ) (entry pte : Word) :
    (if !lv.p4dPresent entry then (s, Outcome.noContext)
      else if !lv.pudPresent entry then (s, .noContext)
      else if lv.pudLeaf entry then (s, .resolved)
      else if !present entry then (s, .noContext)
      else if lv.pmdLeaf entry then (s, .resolved)
      else if !present pte then (s, .noContext) else (s, .resolved)) =
    (s, walkOutcome entry pte) := by
  obtain ⟨-, hp4d, hpud⟩ := hlv.present entry
  rw [hp4d, hpud, (hlv.leaf entry).1, (hlv.leaf entry).2, walkOutcome]
  cases present entry
  · rfl
  · cases present pte <;> rfl

theorem vmallocFault_of [DecidableEq κ] (hlv : lv.Folded) {cpu : κ} {addr pgd pgdK : Word}
    (hpgd : b.phys (pfnToVirt (s.scratch3 cpu) + BitVec.ofNat 32 (4 * pgdIndex addr)) = pgd)
    (hpgdK : b.phys (swapperPgDir + BitVec.ofNat 32 (4 * pgdIndex addr)) = pgdK) {s' : Sys κ}
    (hs' : s' = { s with mem := Function.update s.mem pgd (s.mem pgdK) }) :
    vmallocFault lv b s cpu false addr =
      (s', walkOutcome (s'.mem pgdK) (s'.mem
        (b.phys (pfnToVirt (ptePfn (s'.mem pgdK)) + BitVec.ofNat 32 (4 * pteIndex addr))))) := by
  subst hpgd hpgdK hs'
  refine (if_neg Bool.false_ne_true).trans ((if_neg ?_).trans (walk_eq hlv _ _ _))
  rw [(hlv.present _).1]
  exact Bool.false_ne_true

theorem present_of_odd {entry : Word} (h : entry.toNat % 2 = 1) : present entry = true := by
  have hbit : (entry &&& 0x11).getLsbD 0 = true := by
    rw [BitVec.getLsbD_and, BitVec.getLsbD, Nat.testBit_zero, h]
    rfl
  rw [present, bne_iff_ne]
  intro hzero
  rw [hzero] at hbit
  exact Bool.false_ne_true hbit

theorem follow_ne_none_iff {entry : Word} : follow entry ≠ none ↔ entry.toNat % 2 = 1 := by
  unfold follow
  split_ifs with hodd
  · exact iff_of_true (Option.some_ne_none _) hodd
  · exact iff_of_false (fun h => h rfl) hodd

/-- Of an entry that is zero or there, presence is its first bit. -/
theorem present_iff {entry : Word} (h : entry = 0 ∨ entry.toNat % 2 = 1) :
    present entry = true ↔ follow entry ≠ none := by
  rw [follow_ne_none_iff]
  rcases h with rfl | hodd
  · decide
  · exact iff_of_true (present_of_odd hodd) hodd

theorem ptePfn_entryOf {q : Nat} (hq : q < 1048576) : ptePfn (entryOf q) = BitVec.ofNat 32 q := by
  apply BitVec.eq_of_toNat_eq
  rw [Paging.ptePfn_toNat, Paging.entryOf_toNat hq, BitVec.toNat_ofNat]
  omega

theorem pteIndex_lt (addr : Word) : pteIndex addr < 1024 := by
  rw [Paging.pteIndex_eq]
  exact Nat.mod_lt _ (by decide)

theorem inArea_pgdIndex {addr : Word} (hstart : vmallocStart ≤ addr) (hend : addr < vmallocEnd) :
    InArea (pgdIndex addr) := by
  have hstart' : vmallocStart.toNat = 2684354560 := rfl
  have hend' : vmallocEnd.toNat = 3221225472 := rfl
  rw [BitVec.le_def, hstart'] at hstart
  rw [BitVec.lt_def, hend'] at hend
  rw [Paging.pgdIndex_eq, InArea]
  omega

section
variable (h : Inv b s) (hb : b.Proper) {cpu : κ} {d : Nat} (hd : d = b.root ∨ d ∈ s.dirs)
  {addr : Word} (harea : InArea (pgdIndex addr))
include h hb hd harea

/-- The walk finds what the directory of `init_mm` leads to, whichever entry has been written. -/
theorem walkOutcome_resolved_iff :
    walkOutcome (s.mem (entryAddr b.root (pgdIndex addr)))
        ((copied b s d (pgdIndex addr)).mem
          (b.phys (pfnToVirt (ptePfn (s.mem (entryAddr b.root (pgdIndex addr)))) +
            BitVec.ofNat 32 (4 * pteIndex addr)))) = .resolved ↔
      MappedInMaster b s addr := by
  have hindex : pgdIndex addr < 1024 := Nat.lt_trans harea.2 (by decide)
  have hpte := pteIndex_lt addr
  rcases h.area _ harea with hzero | ⟨f, hf, hentry⟩
  · rw [hzero, MappedInMaster, hzero]
    refine iff_of_false (fun heq => by cases heq) ?_
    rintro ⟨table, htable, -⟩
    cases htable
  · have hlow := (h.tables_low f hf).1
    have hfollow := Paging.follow_entryOf (Nat.lt_trans hlow (by decide) : f < 1048576)
    have hpresent : present (entryOf f) = true :=
      present_of_odd (follow_ne_none_iff.mp (by rw [hfollow]; exact Option.some_ne_none f))
    rw [hentry, ptePfn_entryOf (Nat.lt_trans hlow (by decide)), phys_pfnToVirt hlow hpte,
      copied_table h hb hd hindex hf hpte, walkOutcome, hpresent, Bool.true_and, MappedInMaster,
      hentry, hfollow]
    have hodd := present_iff (h.ptes f hf _ hpte)
    constructor
    · intro heq
      refine ⟨f, rfl, hodd.mp ?_⟩
      by_contra hnot
      rw [if_neg hnot] at heq
      cases heq
    · rintro ⟨table, htable, hmapped⟩
      cases htable
      exact if_pos (hodd.mpr hmapped)

end

/-- In the area and from the kernel. -/
def Handled (userMode : Bool) (addr : Word) : Prop :=
  userMode = false ∧ vmallocStart ≤ addr ∧ addr < vmallocEnd

/-- Elsewhere nothing is done. -/
theorem FaultMeets.handled_or [DecidableEq κ] {switched : Prop} {userMode : Bool} {addr : Word}
    (h : FaultMeets switched userMode addr) (cpu : κ) :
    (Handled userMode addr ∧ switched) ∨ (¬ Handled userMode addr ∧
      ∃ outcome ≠ Outcome.resolved, handlePageFault lv b s cpu userMode addr = (s, outcome)) := by
  by_cases hin : vmallocStart ≤ addr ∧ addr ≤ vmallocEnd
  · cases userMode with
    | false =>
      obtain ⟨hswitched, hne⟩ := h rfl hin.1 hin.2
      exact .inl ⟨⟨rfl, hin.1, BitVec.lt_of_le_ne hin.2 hne⟩, hswitched⟩
    | true =>
      have hsignal : handlePageFault lv b s cpu true addr = (s, .signal) :=
        (if_pos hin).trans (if_pos rfl)
      exact .inr ⟨fun hhandled => (by cases hhandled.1), .signal, by decide, hsignal⟩
  · refine .inr ⟨fun hhandled => hin ?_, .other, by decide, if_neg hin⟩
    exact ⟨hhandled.2.1, BitVec.le_of_lt hhandled.2.2⟩

section
variable [DecidableEq κ] (hlv : lv.Folded) (hb : b.Proper) {cpu : κ} {d : Nat}
  (hswitched : Switched s cpu) (hfollow : follow (s.dtbpte cpu) = some d) {addr : Word}
  (hhandled : Handled false addr)
include hlv hb hswitched hfollow hhandled

/-- The walk of the fault on a processor that has switched. -/
theorem handlePageFault_eq : handlePageFault lv b s cpu false addr =
    (copied b s d (pgdIndex addr), walkOutcome (s.mem (entryAddr b.root (pgdIndex addr)))
      ((copied b s d (pgdIndex addr)).mem
        (b.phys (pfnToVirt (ptePfn (s.mem (entryAddr b.root (pgdIndex addr)))) +
          BitVec.ofNat 32 (4 * pteIndex addr))))) := by
  obtain ⟨-, hstart, hend⟩ := hhandled
  have hindex : pgdIndex addr < 1024 :=
    Nat.lt_trans (inArea_pgdIndex hstart hend).2 (by decide)
  have hcopied : copied b s d (pgdIndex addr) = copied b s d (pgdIndex addr) := rfl
  have hin : vmallocStart ≤ addr ∧ addr ≤ vmallocEnd := ⟨hstart, BitVec.le_of_lt hend⟩
  refine (if_pos hin).trans ?_
  rw [vmallocFault_of hlv (hswitched.pgd_eq hfollow hindex) (hb.phys_swapper hindex) hcopied,
    copied_master]

end

theorem Inv.faultCorrect [DecidableEq κ] (hlv : lv.Folded) (hb : b.Proper) (h : Inv b s) {cpu : κ}
    {userMode : Bool} {addr : Word} (hmeets : FaultMeets (Switched s cpu) userMode addr) :
    ∃ d, FaultCorrect lv b s cpu userMode addr d := by
  obtain ⟨d, hused, hfollow⟩ := h.uses cpu
  refine ⟨d, ?_⟩
  rcases @FaultMeets.handled_or κ lv b s _ _ _ _ hmeets cpu with
    ⟨hhandled, hswitched⟩ | ⟨hhandled, outcome, hnot, heq⟩
  · obtain ⟨rfl, hstart, hend⟩ := id hhandled
    have harea := inArea_pgdIndex hstart hend
    have heq := handlePageFault_eq hlv hb hswitched hfollow hhandled
    have hkernel : userPtrsPerPgd ≤ pgdIndex addr := Nat.le_trans (by decide) harea.1
    have hmem : (handlePageFault lv b s cpu false addr).1.mem =
        (copied b s d (pgdIndex addr)).mem := by rw [heq]
    refine ⟨hfollow, ?_, ?_, ?_, ?_⟩
    · intro x hx
      rw [hmem, copied_mem, Function.update_of_ne hx]
    · rw [hmem]
      exact .inr ⟨hkernel, copied_self d _⟩
    · rw [hmem]
      exact fun _ _ _ => copied_self d _
    · rw [heq]
      refine (walkOutcome_resolved_iff h hb hused harea).trans ?_
      exact ⟨fun hmapped => ⟨rfl, hstart, hend, hmapped⟩, fun hall => hall.2.2.2⟩
  · have hmem : (handlePageFault lv b s cpu userMode addr).1.mem = s.mem := by rw [heq]
    refine ⟨hfollow, fun x _ => congrFun hmem x, .inl hmem, ?_, ?_⟩
    · exact fun huser hstart hend => absurd ⟨huser, hstart, hend⟩ hhandled
    · rw [heq]
      refine iff_of_false hnot fun hall => hhandled ?_
      exact ⟨hall.1, hall.2.1, hall.2.2.1⟩

/-! ## Runs -/

/-- What is kept: the invariant, and of each processor of `W` that it has switched. -/
def Kept (b : Boot) (W : κ → Prop) (s : Sys κ) : Prop :=
  Inv b s ∧ ∀ cpu, W cpu → Switched s cpu

section
variable [DecidableEq κ] (hlv : lv.Folded) (hb : b.Proper) {W : κ → Prop} (hkept : Kept b W s)
include hb hkept

theorem Kept.switch (cpu : κ) {next : Directory} (hknown : next.known s.dirs = true) :
    Kept b (fun cpu' => cpu' = cpu ∨ W cpu')
      (xr17032SwitchMm s cpu (b.virtToPfn next.pgd)) := by
  obtain ⟨hinv, hswitched⟩ := hkept.1.switch hb cpu hknown
  refine ⟨hinv, fun cpu' hcpu' => ?_⟩
  by_cases hsame : cpu' = cpu
  · rw [hsame]
    exact hswitched
  · obtain ⟨d, hlow, hscratch, hfollow⟩ := hkept.2 cpu' (hcpu'.resolve_left hsame)
    refine ⟨d, hlow, ?_, ?_⟩
    · exact (Function.update_of_ne hsame _ _).trans hscratch
    · exact (congrArg follow (Function.update_of_ne hsame _ _)).trans hfollow

include hlv

theorem Kept.fault {cpu : κ} {userMode : Bool} {addr : Word}
    (hmeets : FaultMeets (W cpu) userMode addr) :
    Kept b W (handlePageFault lv b s cpu userMode addr).1 := by
  rcases @FaultMeets.handled_or κ lv b s _ _ _ _ hmeets cpu with ⟨hhandled, hcpu⟩ | ⟨-, outcome, -, heq⟩
  · obtain ⟨rfl, hstart, hend⟩ := id hhandled
    obtain ⟨d, hused, hfollow⟩ := hkept.1.uses cpu
    rw [handlePageFault_eq hlv hb (hkept.2 cpu hcpu) hfollow hhandled]
    exact ⟨hkept.1.afterCopy hb hused (inArea_pgdIndex hstart hend), hkept.2⟩
  · rw [heq]
    exact hkept

end

section
variable [DecidableEq κ] {index frame : Nat}

theorem step_switch (cpu : κ) {next : Directory} (h : next.known s.dirs = true) :
    step lv b s (.switch cpu next) = some (xr17032SwitchMm s cpu (b.virtToPfn next.pgd)) := if_pos h

theorem step_alloc (h : Free b s frame) :
    step lv b s (.alloc frame) = some (pgdAlloc b s frame) := if_pos h

theorem step_populate
    (h : InArea index ∧ s.mem (entryAddr b.root index) = 0 ∧ Free b s frame) :
    step lv b s (.populate index frame) = some (pmdPopulateKernel b s index frame) := if_pos h

end

/-- Along a run whose faults are as `Meets` has them. -/
theorem Kept.run [DecidableEq κ] (hlv : lv.Folded) (hb : b.Proper) {events : List (Event κ)} :
    ∀ {W : κ → Prop} {s s' : Sys κ}, Kept b W s → Meets W events →
      Run.run (step lv b) s events = some s' →
      Kept b (fun cpu => W cpu ∨ ∃ next, Event.switch cpu next ∈ events) s' := by
  induction events with
  | nil =>
    intro W s s' hkept _ hrun
    cases hrun
    refine ⟨hkept.1, fun cpu hcpu => hkept.2 cpu (hcpu.resolve_right ?_)⟩
    rintro ⟨next, hmem⟩
    exact List.not_mem_nil hmem
  | cons event events ih =>
    intro W s s' hkept hmeets hrun
    obtain ⟨t, hstep, hrest⟩ := Run.run_cons_eq_some.mp hrun
    -- what the rest of the run keeps is as much as the whole, but for a switch that comes first
    have hmore {W' : κ → Prop}
        (hall : Kept b (fun cpu => W' cpu ∨ ∃ next, Event.switch cpu next ∈ events) s')
        (hW : ∀ cpu, (W cpu ∨ ∃ next, Event.switch cpu next = event) → W' cpu) :
        Kept b (fun cpu => W cpu ∨ ∃ next, Event.switch cpu next ∈ event :: events) s' := by
      refine ⟨hall.1, fun cpu hcpu => hall.2 cpu ?_⟩
      rcases hcpu with hold | ⟨next, hmem⟩
      · exact .inl (hW cpu (.inl hold))
      · rcases List.mem_cons.mp hmem with heq | hmem
        · exact .inl (hW cpu (.inr ⟨next, heq⟩))
        · exact .inr ⟨next, hmem⟩
    have hother (hnot : ∀ cpu next, Event.switch cpu next ≠ event) (hkept' : Kept b W t)
        (hmeets' : Meets W events) :
        Kept b (fun cpu => W cpu ∨ ∃ next, Event.switch cpu next ∈ event :: events) s' := by
      refine hmore (ih hkept' hmeets' hrest) fun cpu hcpu => hcpu.resolve_right ?_
      rintro ⟨next, heq⟩
      exact hnot cpu next heq
    cases event with
    | switch cpu next =>
      obtain ⟨hknown, heq⟩ := Option.ite_none_right_eq_some.mp hstep
      cases heq
      refine hmore (ih (hkept.switch hb cpu hknown) hmeets hrest) ?_
      rintro cpu' (hold | ⟨next', heq⟩)
      · exact .inr hold
      · cases heq
        exact .inl rfl
    | alloc frame =>
      obtain ⟨hfree, heq⟩ := Option.ite_none_right_eq_some.mp hstep
      cases heq
      exact hother nofun ⟨hkept.1.alloc hb hfree, hkept.2⟩ hmeets
    | populate index frame =>
      obtain ⟨⟨hindex, hempty, hfree⟩, heq⟩ := Option.ite_none_right_eq_some.mp hstep
      cases heq
      exact hother nofun ⟨hkept.1.populate hb hindex hempty hfree, hkept.2⟩ hmeets
    | setPte index u entry =>
      rw [step] at hstep
      cases hfollow : follow (s.mem (entryAddr b.root index)) with
      | none =>
        rw [hfollow] at hstep
        cases hstep
      | some frame =>
        rw [hfollow] at hstep
        obtain ⟨⟨hindex, hu, hentry⟩, heq⟩ := Option.ite_none_right_eq_some.mp hstep
        cases heq
        exact hother nofun ⟨hkept.1.setPte hb hindex hu hentry hfollow, hkept.2⟩ hmeets
    | fault cpu userMode addr =>
      obtain ⟨hfault, hmeets⟩ := hmeets
      cases hstep
      exact hother nofun (hkept.fault hlv hb hfault) hmeets

/-- From boot on, whatever processors switch, directories and mappings are made and faults there have
been, the directories have of the area what the one of `init_mm` has, and a fault does what it is to
do. -/
theorem vmallocFault_correct [DecidableEq κ] (hlv : lv.Folded) (hb : b.Proper)
    {events : List (Event κ)} (hmeets : Meets (fun _ => False) events)
    (hrun : Run.run (step lv b) (start b) events = some s) :
    Synced b s ∧ ∀ cpu userMode addr,
      FaultMeets (∃ next, Event.switch cpu next ∈ events) userMode addr →
      ∃ d, FaultCorrect lv b s cpu userMode addr d := by
  have hstart : Kept b (fun _ => False) (start b : Sys κ) := ⟨inv_start hb, fun _ hno => hno.elim⟩
  have hkept := hstart.run hlv hb hmeets hrun
  refine ⟨hkept.1.synced, fun cpu userMode addr hfault => hkept.1.faultCorrect hlv hb ?_⟩
  intro huser hlow hhigh
  obtain ⟨hswitch, hne⟩ := hfault huser hlow hhigh
  exact ⟨hkept.2 cpu (.inr hswitch), hne⟩

end

/-- As the generic headers have them. -/
def folded : FoldedLevels where
  pgdPresent _ := true
  p4dPresent _ := true
  pudPresent _ := true
  pudLeaf _ := false
  pmdLeaf _ := false

theorem folded_folded : folded.Folded :=
  ⟨fun _ => ⟨rfl, rfl, rfl⟩, fun _ => ⟨rfl, rfl⟩⟩

/-- The directory of `init_mm` in frame 16, and memory that is otherwise zero. -/
def bootAt : Boot where
  root := 16
  mem _ := 0
  translate x := x - swapperPgDir + 0x10000

theorem bootAt_proper : bootAt.Proper where
  root_low := by decide
  swapper i hi := by
    show swapperPgDir + BitVec.ofNat 32 (4 * i) - swapperPgDir + 0x10000 = entryAddr 16 i
    rw [BitVec.add_comm swapperPgDir, BitVec.add_sub_cancel]
    apply BitVec.eq_of_toNat_eq
    rw [entryAddr_toNat (by decide) hi, BitVec.toNat_add, BitVec.toNat_ofNat]
    show (4 * i % 4294967296 + 65536) % 4294967296 = 16 * 4096 + i * 4
    omega
  area_empty _ _ := rfl

/-- A directory, a switch to it, an entry that it does not have yet, and the fault that copies it. -/
theorem vmallocFault_correct_copy : ∃ s : Sys Unit,
    Run.run (step folded bootAt) (start bootAt)
      [.alloc 32, .switch () (.made 32), .populate 640 0x100, .fault () false 0xA0001000] = some s ∧
    Synced bootAt s ∧ ∃ d, FaultCorrect folded bootAt s () false 0xA0002000 d := by
  have hmeets : Meets (fun _ : Unit => False)
      [.alloc 32, .switch () (.made 32), .populate 640 0x100, .fault () false 0xA0001000] :=
    ⟨fun _ _ _ => ⟨.inl rfl, by decide⟩, trivial⟩
  have hrun : ∃ s : Sys Unit, Run.run (step folded bootAt) (start bootAt)
      [.alloc 32, .switch () (.made 32), .populate 640 0x100, .fault () false 0xA0001000] =
        some s := by
    exact ⟨_, Run.run_cons_eq_some.mpr ⟨_, step_alloc (by decide),
      Run.run_cons_eq_some.mpr ⟨_, step_switch () (by decide),
        Run.run_cons_eq_some.mpr ⟨_, step_populate (by decide),
          Run.run_cons_eq_some.mpr ⟨_, rfl, rfl⟩⟩⟩⟩⟩
  obtain ⟨s, hrun⟩ := hrun
  obtain ⟨hsynced, hfault⟩ := vmallocFault_correct folded_folded bootAt_proper hmeets hrun
  refine ⟨s, hrun, hsynced, hfault () false _ fun _ _ _ => ⟨⟨.made 32, ?_⟩, by decide⟩⟩
  exact List.mem_cons_of_mem _ List.mem_cons_self

/-- A processor that has not switched writes the entry into frame `0x217`. -/
theorem vmallocFault_foreign : ∃ s : Sys Unit,
    Run.run (step folded bootAt) (start bootAt) [.populate 640 0x100] = some s ∧
    ∀ d, ¬ FaultCorrect folded bootAt s () false 0xA0001000 d := by
  obtain ⟨s, hs⟩ : ∃ s : Sys Unit, s = pmdPopulateKernel bootAt (start bootAt) 640 0x100 := ⟨_, rfl⟩
  have hstep : step folded bootAt (start bootAt) (.populate 640 0x100) = some s := by
    rw [hs]
    exact step_populate (by decide)
  refine ⟨s, Run.run_cons_eq_some.mpr ⟨s, hstep, rfl⟩, fun d h => ?_⟩
  have hscratch : s.scratch3 () = 0x217 := by
    rw [hs]
    decide
  have hroot : follow (s.dtbpte ()) = some 16 := by
    rw [hs]
    decide
  have hmaster : s.mem 0x10A00 = entryOf 0x100 := by
    rw [hs]
    decide
  have hforeign : s.mem 0x217A00 = 0 := by
    rw [hs]
    decide
  clear hs hstep
  have hpgd : bootAt.phys (pfnToVirt (s.scratch3 ()) + BitVec.ofNat 32 (4 * pgdIndex 0xA0001000)) =
      0x217A00 := by
    rw [hscratch]
    decide
  have hpgdK : bootAt.phys (swapperPgDir + BitVec.ofNat 32 (4 * pgdIndex 0xA0001000)) =
      0x10A00 := by decide
  have hin : vmallocStart ≤ (0xA0001000 : Word) ∧ (0xA0001000 : Word) ≤ vmallocEnd := by decide
  obtain ⟨s', hs'⟩ : ∃ s' : Sys Unit,
      s' = { s with mem := Function.update s.mem 0x217A00 (s.mem 0x10A00) } := ⟨_, rfl⟩
  have hfault : (handlePageFault folded bootAt s () false 0xA0001000).1 = s' := by
    rw [handlePageFault, if_pos hin, vmallocFault_of folded_folded hpgd hpgdK hs']
  have hmem : s'.mem 0x217A00 = entryOf 0x100 := by
    have hself : s'.mem 0x217A00 = s.mem 0x10A00 := by
      rw [hs']
      dsimp only
      rw [Function.update_self]
    rw [hself, hmaster]
  have hd : d = 16 := Option.some.inj (h.uses.symm.trans hroot)
  have hne : (0x217A00 : Word) ≠ entryAddr d (pgdIndex 0xA0001000) := by
    rw [hd]
    decide
  have honly := h.only 0x217A00 hne
  rw [hfault, hmem, hforeign] at honly
  exact absurd honly (by decide)

end XrLinux.Linux.VmallocFault
