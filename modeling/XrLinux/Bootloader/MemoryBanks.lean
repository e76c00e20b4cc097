import Mathlib.Data.Fin.VecNotation
import XrLinux.Lib.Intervals
import XrLinux.Bootloader.HeapRuns
import XrLinux.Bootloader.BoundedPrint

/-!
# Bootloader — memory banks

What `a4x/main.c` makes of the RAM banks that the firmware reports: nodes of the device tree, where
banks that follow each other without a gap are one, and ranges for the heap, without what the image
of the loader takes.

`bxDtAddMemory` keeps one interval open. Everything before it is already a list with gaps, and it
ends at or before the bank that comes next (`addMemoryLoop_spec`).
-/

namespace XrLinux.Bootloader

open Intervals

/-- `BX_RAM_BANK_INTERVAL`. -/
def bxRamBankInterval : Nat := 0x2000000

/-- What `BxDtAddMemoryBank` asks the device tree for: the name of a node and its properties. -/
structure MemoryNode where
  name : List (BitVec 8)
  deviceType : List (BitVec 8)
  reg : List Nat

/-- `BxDtAddMemoryBank`; the name is the output of `memory@%zx`. -/
def bxDtAddMemoryBank (start stop : Nat) : MemoryNode :=
  { name := [0x6d, 0x65, 0x6d, 0x6f, 0x72, 0x79, 0x40] ++
      (Number.hexadecimal (.ofNat 64 start)).text 0
    deviceType := [0x6d, 0x65, 0x6d, 0x6f, 0x72, 0x79]
    reg := [start, sub32 stop start] }

/-- The loop of `BxDtAddMemory`, over the banks from bank `i` on. -/
def addMemoryLoop : Nat → List Nat → Nat → Nat → List (Nat × Nat)
  | _, [], start, stop => if start ≠ stop then [(start, stop)] else []
  | i, pages :: banks, start, stop =>
    if pages = 0 then addMemoryLoop (i + 1) banks start stop
    else
      let base := i * bxRamBankInterval % 4294967296
      if base ≠ stop then
        (if start ≠ stop then [(start, stop)] else []) ++
          addMemoryLoop (i + 1) banks base (add32 base (pages * 0x1000 % 4294967296))
      else addMemoryLoop (i + 1) banks start (add32 base (pages * 0x1000 % 4294967296))

/-- `BxDtAddMemory`: the nodes, in the order in which they are created. -/
def bxDtAddMemory (banks : List Nat) : List MemoryNode :=
  (addMemoryLoop 0 banks 0 0).map fun range => bxDtAddMemoryBank range.1 range.2

/-- The loop of `BxAddMemoryRanges`. -/
def addRangesLoop (minHeapAddr : Nat) : Nat → List Nat → List (Nat × Nat)
  | _, [] => []
  | i, pages :: banks =>
    if pages = 0 then addRangesLoop minHeapAddr (i + 1) banks
    else
      let base := i * bxRamBankInterval % 4294967296
      let stop := add32 base (pages * 0x1000 % 4294967296)
      let base := if base < minHeapAddr then minHeapAddr else base
      if base ≥ stop then addRangesLoop minHeapAddr (i + 1) banks
      else (base, stop) :: addRangesLoop minHeapAddr (i + 1) banks

/-- `BxAddMemoryRanges`: the calls of `BlAddHeapRange`. -/
def bxAddMemoryRanges (minHeapAddr : Nat) (banks : List Nat) : List Call :=
  (addRangesLoop minHeapAddr 0 banks).map fun range => .add range.1 (sub32 range.2 range.1)

/-! ## What the banks hold -/

/-- The address lies in one of the banks from bank `i` on. -/
def InBanks (i : Nat) (banks : List Nat) (x : Nat) : Prop :=
  ∃ k pages, banks[k]? = some pages ∧ (i + k) * bxRamBankInterval ≤ x ∧
    x < (i + k) * bxRamBankInterval + pages * 0x1000

/-- The banks from bank `i` on are no longer than their interval, and end below 2^32. -/
structure BanksFit (i : Nat) (banks : List Nat) : Prop where
  pages_le : ∀ pages ∈ banks, pages * 0x1000 ≤ bxRamBankInterval
  below : (i + banks.length) * bxRamBankInterval < 4294967296

section
variable {i pages start stop x : Nat} {banks : List Nat}

theorem BanksFit.tail (h : BanksFit i (pages :: banks)) : BanksFit (i + 1) banks where
  pages_le other hother := h.pages_le other (List.mem_cons_of_mem _ hother)
  below := by
    have hbelow := h.below
    rw [List.length_cons] at hbelow
    rw [show i + 1 + banks.length = i + (banks.length + 1) by omega]
    exact hbelow

theorem inBanks_nil : ¬ InBanks i [] x := by
  rintro ⟨k, pages, hk, -⟩
  cases hk

theorem inBanks_cons : InBanks i (pages :: banks) x ↔
    (i * bxRamBankInterval ≤ x ∧ x < i * bxRamBankInterval + pages * 0x1000) ∨
      InBanks (i + 1) banks x := by
  constructor
  · rintro ⟨k, pages', hk, hlo, hhi⟩
    cases k with
    | zero =>
      cases hk
      exact Or.inl ⟨hlo, hhi⟩
    | succ k =>
      refine Or.inr ⟨k, pages', hk, ?_, ?_⟩
      · rwa [show i + 1 + k = i + (k + 1) by omega]
      · rwa [show i + 1 + k = i + (k + 1) by omega]
  · rintro (⟨hlo, hhi⟩ | ⟨k, pages', hk, hlo, hhi⟩)
    · exact ⟨0, pages, rfl, hlo, hhi⟩
    · refine ⟨k + 1, pages', hk, ?_, ?_⟩
      · rwa [show i + (k + 1) = i + 1 + k by omega]
      · rwa [show i + (k + 1) = i + 1 + k by omega]

/-- The base and the end of a bank do not wrap. -/
theorem BanksFit.sums (h : BanksFit i (pages :: banks)) :
    i * bxRamBankInterval % 4294967296 = i * bxRamBankInterval ∧
      add32 (i * bxRamBankInterval) (pages * 0x1000 % 4294967296) =
        i * bxRamBankInterval + pages * 0x1000 ∧
      i * bxRamBankInterval + pages * 0x1000 ≤ (i + 1) * bxRamBankInterval := by
  have hbelow := h.below
  have hpages : pages * 0x1000 ≤ 0x2000000 := h.pages_le pages List.mem_cons_self
  have hnext : (i + 1) * 0x2000000 ≤ (i + (banks.length + 1)) * 0x2000000 :=
    Nat.mul_le_mul_right _ (by omega)
  rw [List.length_cons] at hbelow
  have hbelow' : (i + (banks.length + 1)) * 0x2000000 < 4294967296 := hbelow
  show i * 0x2000000 % 4294967296 = i * 0x2000000 ∧
    (i * 0x2000000 + pages * 0x1000 % 4294967296) % 4294967296 = i * 0x2000000 + pages * 0x1000 ∧
      i * 0x2000000 + pages * 0x1000 ≤ (i + 1) * 0x2000000
  omega

/-- The open interval, if it is one. -/
theorem covers_open :
    Covers (if start ≠ stop then [(start, stop)] else []) x ↔ start ≤ x ∧ x < stop := by
  by_cases hopen : start ≠ stop
  · rw [if_pos hopen, covers_cons]
    exact or_iff_left (not_covers_nil x)
  · rw [if_neg hopen]
    exact iff_of_false (not_covers_nil x) (by omega)

theorem addMemoryLoop_spec (h : BanksFit i banks) (hle : start ≤ stop)
    (hstop : stop ≤ i * bxRamBankInterval) :
    Canonical (addMemoryLoop i banks start stop) ∧
      (∀ range ∈ addMemoryLoop i banks start stop, start ≤ range.1 ∧ range.2 < 4294967296) ∧
      ∀ x, Covers (addMemoryLoop i banks start stop) x ↔
        (start ≤ x ∧ x < stop) ∨ InBanks i banks x := by
  induction banks generalizing i start stop with
  | nil =>
    have hbelow : i * bxRamBankInterval < 4294967296 := h.below
    have hall : ∀ range ∈ addMemoryLoop i [] start stop, range = (start, stop) ∧ start ≠ stop := by
      intro range hin
      unfold addMemoryLoop at hin
      split at hin
      · next hopen => exact ⟨List.mem_singleton.1 hin, hopen⟩
      · exact absurd hin List.not_mem_nil
    refine ⟨⟨?_, ?_⟩, ?_, ?_⟩
    · intro range hin
      obtain ⟨rfl, hopen⟩ := hall range hin
      show start < stop
      omega
    · unfold addMemoryLoop
      split
      · exact List.pairwise_singleton _ _
      · exact List.Pairwise.nil
    · intro range hin
      obtain ⟨rfl, -⟩ := hall range hin
      exact ⟨Nat.le_refl _, Nat.lt_of_le_of_lt hstop hbelow⟩
    · intro x
      rw [or_iff_left inBanks_nil]
      exact covers_open
  | cons pages banks ih =>
    obtain ⟨hbase, hend, hfits⟩ := h.sums
    unfold addMemoryLoop
    simp only [hbase, hend]
    by_cases hempty : pages = 0
    · -- an empty bank changes nothing
      subst hempty
      obtain ⟨hcanonical, hrange, hcovers⟩ := ih h.tail hle (by omega)
      rw [if_pos rfl]
      refine ⟨hcanonical, hrange, fun x => ?_⟩
      rw [hcovers, inBanks_cons]
      constructor
      · rintro (hopen | hin)
        · exact Or.inl hopen
        · exact Or.inr (Or.inr hin)
      · rintro (hopen | hnone | hin)
        · exact Or.inl hopen
        · omega
        · exact Or.inr hin
    rw [if_neg hempty]
    by_cases hgap : i * bxRamBankInterval ≠ stop
    · -- a gap: what is open ends here
      obtain ⟨hcanonical, hrange, hcovers⟩ := @ih (i + 1) (i * bxRamBankInterval)
        (i * bxRamBankInterval + pages * 0x1000) h.tail (by omega) hfits
      rw [if_pos hgap]
      refine ⟨?_, ?_, fun x => ?_⟩
      · by_cases hopen : start ≠ stop
        · rw [if_pos hopen]
          refine ⟨?_, ?_⟩
          · intro range hin
            rcases List.mem_cons.1 hin with rfl | hin
            · show start < stop
              omega
            · exact hcanonical.proper range hin
          · refine List.pairwise_cons.2 ⟨fun range hin => ?_, hcanonical.separated⟩
            have hlo := (hrange range hin).1
            show stop < range.1
            omega
        · rw [if_neg hopen]
          exact hcanonical
      · intro range hin
        rcases List.mem_append.1 hin with hin | hin
        · have hbelow := h.below
          have hleBase : i * bxRamBankInterval ≤ (i + (pages :: banks).length) * bxRamBankInterval :=
            Nat.mul_le_mul_right _ (by omega)
          split at hin
          · rw [List.mem_singleton.1 hin]
            exact ⟨Nat.le_refl _, by show stop < _; omega⟩
          · exact absurd hin List.not_mem_nil
        · obtain ⟨hlo, hhi⟩ := hrange range hin
          exact ⟨by omega, hhi⟩
      · rw [covers_append, covers_open, hcovers, inBanks_cons]
    · -- the bank follows what is open
      obtain ⟨hcanonical, hrange, hcovers⟩ := @ih (i + 1) start
        (i * bxRamBankInterval + pages * 0x1000) h.tail (by omega) hfits
      rw [if_neg hgap]
      refine ⟨hcanonical, hrange, fun x => ?_⟩
      rw [hcovers, inBanks_cons, ← or_assoc]
      exact or_congr_left (by omega)

theorem addRangesLoop_spec (minHeapAddr : Nat) (h : BanksFit i banks) :
    (∀ range ∈ addRangesLoop minHeapAddr i banks,
        i * bxRamBankInterval ≤ range.1 ∧ range.1 < range.2 ∧ range.2 < 4294967296) ∧
      (addRangesLoop minHeapAddr i banks).Pairwise (fun r r' => r.2 ≤ r'.1) ∧
      ∀ x, Covers (addRangesLoop minHeapAddr i banks) x ↔ InBanks i banks x ∧ minHeapAddr ≤ x := by
  induction banks generalizing i with
  | nil =>
    refine ⟨fun range hin => absurd hin List.not_mem_nil, List.Pairwise.nil, fun x => ?_⟩
    exact iff_of_false (not_covers_nil x) fun hin => inBanks_nil hin.1
  | cons pages banks ih =>
    obtain ⟨hbase, hend, hfits⟩ := h.sums
    obtain ⟨hrange, hdisj, hcovers⟩ := ih h.tail
    have hnext : i * bxRamBankInterval ≤ (i + 1) * bxRamBankInterval :=
      Nat.mul_le_mul_right _ (Nat.le_succ i)
    have hbelow : i * bxRamBankInterval + pages * 0x1000 < 4294967296 := by
      have hall := h.below
      have hmore : (i + 1) * bxRamBankInterval ≤ (i + (pages :: banks).length) * bxRamBankInterval :=
        Nat.mul_le_mul_right _ (by rw [List.length_cons]; omega)
      omega
    have hskip : ∀ range ∈ addRangesLoop minHeapAddr (i + 1) banks,
        i * bxRamBankInterval ≤ range.1 ∧ range.1 < range.2 ∧ range.2 < 4294967296 := by
      intro range hin
      obtain ⟨hlo, hproper⟩ := hrange range hin
      exact ⟨Nat.le_trans hnext hlo, hproper⟩
    unfold addRangesLoop
    simp only [hbase, hend]
    -- what is left of the bank above the image
    generalize hclip : (if i * bxRamBankInterval < minHeapAddr then minHeapAddr
      else i * bxRamBankInterval) = base
    have hmax : ∀ x, base ≤ x ↔ i * bxRamBankInterval ≤ x ∧ minHeapAddr ≤ x := by
      intro x
      rw [← hclip]
      split <;> omega
    by_cases hempty : pages = 0
    · subst hempty
      rw [if_pos rfl]
      refine ⟨hskip, hdisj, fun x => ?_⟩
      rw [hcovers, inBanks_cons]
      exact and_congr_left fun _ => ⟨Or.inr, fun hin => hin.resolve_left (by omega)⟩
    rw [if_neg hempty]
    by_cases hbelowImage : base ≥ i * bxRamBankInterval + pages * 0x1000
    · rw [if_pos hbelowImage]
      refine ⟨hskip, hdisj, fun x => ?_⟩
      rw [hcovers, inBanks_cons]
      have hx := hmax x
      exact and_congr_left fun himage => ⟨Or.inr, fun hin => hin.resolve_left (by omega)⟩
    · rw [if_neg hbelowImage]
      refine ⟨?_, ?_, fun x => ?_⟩
      · intro range hin
        rcases List.mem_cons.1 hin with rfl | hin
        · have hlo := (hmax base).1 (Nat.le_refl _)
          exact ⟨hlo.1, by show base < _; omega, hbelow⟩
        · exact hskip range hin
      · refine List.pairwise_cons.2 ⟨fun range hin => ?_, hdisj⟩
        have hlo := (hrange range hin).1
        show i * bxRamBankInterval + pages * 0x1000 ≤ range.1
        omega
      · have hx := hmax x
        rw [covers_cons, hcovers, inBanks_cons]
        show base ≤ x ∧ x < i * bxRamBankInterval + pages * 0x1000 ∨ _ ↔ _
        rw [hx, or_and_right]
        exact or_congr_left (by omega)

end

/-! ## The nodes and the ranges -/

/-- Intervals that do not wrap keep their ends when they are passed with their size. -/
theorem add_sub32 {start stop : Nat} (hle : start ≤ stop) (hstop : stop < 4294967296) :
    start + sub32 stop start = stop := by
  unfold sub32
  omega

/-- The memory that a node describes. -/
def MemoryNode.range (node : MemoryNode) : Nat × Nat :=
  (node.reg.getD 0 0, node.reg.getD 0 0 + node.reg.getD 1 0)

/-- The memory that the heap is given. -/
def Call.range : Call → Option (Nat × Nat)
  | .add base size => some (base, base + size)
  | .alloc .. | .free _ | .write .. => none

theorem bxDtAddMemoryBank_range {start stop : Nat} (hle : start ≤ stop)
    (hstop : stop < 4294967296) : (bxDtAddMemoryBank start stop).range = (start, stop) := by
  simp only [MemoryNode.range, bxDtAddMemoryBank, List.getD_cons_zero, List.getD_cons_succ,
    add_sub32 hle hstop]

theorem add_range {start stop : Nat} (hle : start ≤ stop) (hstop : stop < 4294967296) :
    (Call.add start (sub32 stop start)).range = some (start, stop) := by
  simp only [Call.range, add_sub32 hle hstop]

/-- The name of a node is printed from its first address. -/
theorem bxDtAddMemoryBank_name (start : BitVec 32) (stop : Nat) :
    Output [0x6d, 0x65, 0x6d, 0x6f, 0x72, 0x79, 0x40, 0x25, 0x7a, 0x78] [.word start.toNat]
      (bxDtAddMemoryBank start.toNat stop).name := by
  let s : Specifier :=
    { digits := []
      typeCode := .z
      conversion := 0x78
      isDigit_digits := fun _ hc => absurd hc List.not_mem_nil
      conversion_plain := fun hplain => nomatch hplain }
  have hpiece : Piece s [.word start.toNat]
      ((Number.hexadecimal (start.setWidth 64)).text 0) [] :=
    Piece.hexadecimal (s := s) start rfl (fun hl => nomatch hl)
  have hspecifier : Output [0x25, 0x7a, 0x78] [.word start.toNat]
      ((Number.hexadecimal (start.setWidth 64)).text 0 ++ []) :=
    .piece (s := s) hpiece (.nil : Output [] [] [])
  have hwide : BitVec.ofNat 64 start.toNat = start.setWidth 64 := by
    apply BitVec.eq_of_toNat_eq
    rw [BitVec.toNat_ofNat, BitVec.toNat_setWidth]
  rw [List.append_nil] at hspecifier
  unfold bxDtAddMemoryBank
  rw [hwide]
  exact .char (by decide) (.char (by decide) (.char (by decide) (.char (by decide)
    (.char (by decide) (.char (by decide) (.char (by decide) hspecifier))))))

/-- The memory that is there. -/
def Populated (banks : Fin 8 → Nat) (x : Nat) : Prop :=
  ∃ i : Fin 8, i * bxRamBankInterval ≤ x ∧ x < i * bxRamBankInterval + banks i * 0x1000

theorem inBanks_ofFn (banks : Fin 8 → Nat) (x : Nat) :
    InBanks 0 (List.ofFn banks) x ↔ Populated banks x := by
  constructor
  · rintro ⟨k, pages, hk, hlo, hhi⟩
    rw [Nat.zero_add] at hlo hhi
    obtain ⟨hlt, rfl⟩ := List.getElem?_eq_some_iff.1 hk
    rw [List.getElem_ofFn] at hhi
    rw [List.length_ofFn] at hlt
    exact ⟨⟨k, hlt⟩, hlo, hhi⟩
  · rintro ⟨i, hlo, hhi⟩
    refine ⟨i, banks i, ?_, ?_, ?_⟩
    · rw [List.getElem?_ofFn, dif_pos i.isLt]
    · rwa [Nat.zero_add]
    · rwa [Nat.zero_add]

theorem banksFit_ofFn {banks : Fin 8 → Nat} (h : ∀ i, banks i * 0x1000 ≤ bxRamBankInterval) :
    BanksFit 0 (List.ofFn banks) where
  pages_le pages hin := by
    obtain ⟨i, rfl⟩ := List.mem_ofFn.1 hin
    exact h i
  below := by
    rw [List.length_ofFn]
    decide

/-- The nodes are the populated memory, in order and with gaps; the heap gets the part of it that
is not below the end of the image. -/
theorem memory_banks (banks : Fin 8 → Nat) (imageEnd : Nat)
    (h : ∀ i, banks i * 0x1000 ≤ bxRamBankInterval) :
    Canonical ((bxDtAddMemory (List.ofFn banks)).map MemoryNode.range) ∧
      (∀ x, Covers ((bxDtAddMemory (List.ofFn banks)).map MemoryNode.range) x ↔
        Populated banks x) ∧
      ((bxAddMemoryRanges imageEnd (List.ofFn banks)).filterMap Call.range).Pairwise
        (fun r r' => r.2 ≤ r'.1) ∧
      ∀ x, Covers ((bxAddMemoryRanges imageEnd (List.ofFn banks)).filterMap Call.range) x ↔
        Populated banks x ∧ imageEnd ≤ x := by
  have hfit := banksFit_ofFn h
  obtain ⟨hcanonical, hbound, hcovers⟩ :=
    @addMemoryLoop_spec 0 0 0 (List.ofFn banks) hfit (Nat.le_refl 0) (Nat.zero_le _)
  obtain ⟨hranges, hdisj, hheap⟩ := addRangesLoop_spec imageEnd hfit
  have hnodes : (bxDtAddMemory (List.ofFn banks)).map MemoryNode.range =
      addMemoryLoop 0 (List.ofFn banks) 0 0 := by
    unfold bxDtAddMemory
    rw [List.map_map]
    refine (List.map_congr_left fun range hin => ?_).trans (List.map_id _)
    have hproper := hcanonical.proper range hin
    exact bxDtAddMemoryBank_range (Nat.le_of_lt hproper) (hbound range hin).2
  have hcalls : (bxAddMemoryRanges imageEnd (List.ofFn banks)).filterMap Call.range =
      addRangesLoop imageEnd 0 (List.ofFn banks) := by
    unfold bxAddMemoryRanges
    rw [List.filterMap_map]
    refine (List.filterMap_congr fun range hin => ?_).trans List.filterMap_some
    obtain ⟨-, hproper, hlt⟩ := hranges range hin
    exact add_range (Nat.le_of_lt hproper) hlt
  rw [hnodes, hcalls]
  refine ⟨hcanonical, fun x => ?_, hdisj, fun x => ?_⟩
  · rw [hcovers, inBanks_ofFn]
    exact or_iff_right (by omega)
  · rw [hheap, inBanks_ofFn]

/-- Two full banks, a gap, and a partial bank. -/
theorem memory_banks_gap :
    Canonical ((bxDtAddMemory (List.ofFn ![0x2000, 0x2000, 0, 0x80, 0, 0, 0, 0])).map
        MemoryNode.range) ∧
      (bxDtAddMemory (List.ofFn ![0x2000, 0x2000, 0, 0x80, 0, 0, 0, 0])).map MemoryNode.range =
        [(0, 0x4000000), (0x6000000, 0x6080000)] :=
  ⟨(memory_banks ![0x2000, 0x2000, 0, 0x80, 0, 0, 0, 0] 0x10000 (by decide)).1, by decide⟩

end XrLinux.Bootloader
