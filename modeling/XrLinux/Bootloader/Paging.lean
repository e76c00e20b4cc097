import Mathlib.Data.Nat.Bitwise
import XrLinux.Lib.ByteMemory
import XrLinux.Lib.Prog
import XrLinux.Lib.Run
import XrLinux.Bootloader.List

/-!
# Bootloader — `paging.c`

The page tables that the kernel starts with: a root table and, for each of its entries in use, a
table from the heap. `Tables` says which map from virtual to physical pages they stand for; mapping
a page updates the map, and looking an address up reads it.
-/

namespace XrLinux.Bootloader

open Prog ByteMemory

/-- `BL_PAGE_SIZE`. -/
def pageSize : Nat := 4096

/-- `BI_LEVEL_COUNT`. -/
def levelCount : Nat := 2

/-- `BI_LEVEL_SIZE`. -/
def levelSize : Nat := 1024

def biCreatePte (phys : Nat) : Nat := (phys >>> 12) <<< 5 ||| 0x17

def biDecodePte (pte : Nat) : Nat := ((pte >>> 5) &&& 0xfffff) <<< 12

def biPteIndex (virt level : Nat) : Nat := (virt >>> (12 + 10 * level)) &&& 1023

def PageAddress (p : Nat) : Prop := p ≠ 0 ∧ p % pageSize = 0 ∧ p < 4294967296

/-- `BlPageTable`, and the pages that `BlAllocateHeap(BL_PAGE_SIZE, BL_PAGE_SIZE, true)` returns one
after another, as long as there is memory. No page is returned twice. -/
structure PageSource where
  root : Nat
  page : Nat → Option Nat
  root_address : PageAddress root
  page_address : ∀ n p, page n = some p → PageAddress p ∧ p ≠ root
  page_injective : ∀ m n p, page m = some p → page n = some p → m = n

structure Paging where
  mem : ByteMemory
  taken : Nat

abbrev PagingProg := Prog Paging Stop

namespace Paging

/-- `table[index]`. -/
def entry (s : Paging) (table index : Nat) : Nat := s.mem.read32 (table + 4 * index)

def setEntry (s : Paging) (table index pte : Nat) : Paging :=
  { s with mem := s.mem.write32 (table + 4 * index) pte }

/-- An empty root table. -/
def start (src : PageSource) (mem : ByteMemory) : Paging :=
  { mem := mem.put src.root pageSize fun _ => 0, taken := 0 }

end Paging

def allocatePage (src : PageSource) : PagingProg Nat := do
  match src.page (← Prog.get).taken with
  | none => Prog.stop (.crash "out of memory")
  | some p =>
    Prog.modify fun s => { s with taken := s.taken + 1 }
    return p

/-- The loop of `BiGetTable`, down to the table of level 0. -/
def biGetTableFrom (src : PageSource) (virt : Nat) (allowCreation : Bool) :
    Nat → Nat → PagingProg Nat
  | 0, table => pure table
  | level + 1, table => do
    let index := biPteIndex virt (level + 1)
    let entry := (← Prog.get).entry table index
    if entry ≠ 0 then biGetTableFrom src virt allowCreation level (biDecodePte entry)
    else if allowCreation then do
      let newTable ← allocatePage src
      Prog.modify fun s => { s with mem := s.mem.put newTable pageSize fun _ => 0 }
      Prog.modify fun s => s.setEntry table index (biCreatePte newTable)
      biGetTableFrom src virt allowCreation level newTable
    else Prog.stop (.crash "BiGetTable: not found")

def biGetTable (src : PageSource) (virt : Nat) (allowCreation : Bool) : PagingProg Nat :=
  biGetTableFrom src virt allowCreation (levelCount - 1) src.root

def blMapPage (src : PageSource) (virt phys : Nat) : PagingProg Unit := do
  let table ← biGetTable src virt true
  Prog.modify fun s => s.setEntry table (biPteIndex virt 0) (biCreatePte phys)

def blGetMapping (src : PageSource) (virt : Nat) : PagingProg Nat := do
  let table ← biGetTable src virt false
  let pte := (← Prog.get).entry table (biPteIndex virt 0)
  if pte = 0 then Prog.stop (.crash "BiGetMapping: not found")
  else return biDecodePte pte ||| (virt &&& 4095)

/-! ## Entries and indices -/

theorem biCreatePte_eq (phys : Nat) : biCreatePte phys = phys / 4096 * 32 + 0x17 := by
  unfold biCreatePte
  rw [← Nat.shiftLeft_add_eq_or_of_lt (by decide), Nat.shiftRight_eq_div_pow, Nat.shiftLeft_eq]

theorem biDecodePte_eq (pte : Nat) : biDecodePte pte = pte / 32 % 1048576 * 4096 := by
  unfold biDecodePte
  rw [show 0xfffff = 2 ^ 20 - 1 from rfl, Nat.and_two_pow_sub_one_eq_mod, Nat.shiftLeft_eq,
    Nat.shiftRight_eq_div_pow]

theorem biPteIndex_eq (virt level : Nat) :
    biPteIndex virt level = virt / 2 ^ (12 + 10 * level) % 1024 := by
  unfold biPteIndex
  rw [show 1023 = 2 ^ 10 - 1 from rfl, Nat.and_two_pow_sub_one_eq_mod, Nat.shiftRight_eq_div_pow]

theorem biCreatePte_ne_zero (phys : Nat) : biCreatePte phys ≠ 0 := by
  rw [biCreatePte_eq]
  omega

theorem biDecodePte_biCreatePte {phys : Nat} (halign : phys % pageSize = 0)
    (hlt : phys < 4294967296) : biDecodePte (biCreatePte phys) = phys := by
  rw [biDecodePte_eq, biCreatePte_eq]
  simp only [pageSize] at halign
  omega

theorem biCreatePte_lt {phys : Nat} (hlt : phys < 4294967296) : biCreatePte phys < 4294967296 := by
  rw [biCreatePte_eq]
  omega

/-- Both indices of an address make up the number of its page. -/
theorem biPteIndex_page (virt : Nat) (hlt : virt < 4294967296) :
    biPteIndex virt 1 * levelSize + biPteIndex virt 0 = virt / pageSize ∧
      biPteIndex virt 1 < levelSize ∧ biPteIndex virt 0 < levelSize := by
  rw [biPteIndex_eq, biPteIndex_eq]
  simp only [levelSize, pageSize, Nat.mul_one, Nat.mul_zero, Nat.add_zero, Nat.reduceAdd,
    Nat.reducePow]
  omega

/-! ## The map -/

/-- The entry for what an index is mapped to. -/
def pte : Option Nat → Nat
  | none => 0
  | some phys => biCreatePte phys

/-- The tables map pages, by number, as `map` does; `leaf` are the tables behind the root. -/
structure Tables (src : PageSource) (s : Paging) (map leaf : Nat → Option Nat) : Prop where
  root_eq : ∀ d < levelSize, s.entry src.root d = pte (leaf d)
  leaf_page : ∀ d p, leaf d = some p → ∃ n < s.taken, src.page n = some p
  leaf_injective : ∀ d e p, leaf d = some p → leaf e = some p → d = e
  none_eq : ∀ d, leaf d = none → ∀ t < levelSize, map (d * levelSize + t) = none
  some_eq : ∀ d p, leaf d = some p → ∀ t < levelSize, s.entry p t = pte (map (d * levelSize + t))
  map_address : ∀ page phys, map page = some phys → phys % pageSize = 0 ∧ phys < 4294967296

/-- No table is there for nothing. -/
def Used (map leaf : Nat → Option Nat) : Prop :=
  ∀ d, leaf d ≠ none → ∃ t < levelSize, map (d * levelSize + t) ≠ none

theorem update_ne_none {map : Nat → Option Nat} {page page' phys : Nat} (h : map page' ≠ none) :
    Function.update map page (some phys) page' ≠ none := by
  rw [Function.update_apply]
  split_ifs
  · exact Option.some_ne_none phys
  · exact h

section
variable {src : PageSource} {s : Paging} {map leaf : Nat → Option Nat}

theorem Tables.leaf_address (h : Tables src s map leaf) {d p : Nat} (hp : leaf d = some p) :
    PageAddress p ∧ p ≠ src.root := by
  obtain ⟨n, -, hn⟩ := h.leaf_page d p hp
  exact src.page_address n p hn

/-- An entry of one page is beside every other entry. -/
theorem Paging.entry_setEntry {p q : Nat} (hp : p % pageSize = 0) (hq : q % pageSize = 0)
    {i j v : Nat} (hi : i < levelSize) (hj : j < levelSize) (hne : p ≠ q ∨ i ≠ j) :
    (s.setEntry p i v).entry q j = s.entry q j := by
  refine (sameOn_write32 s.mem v ?_).read32
  simp only [pageSize, levelSize] at *
  omega

theorem Paging.entry_setEntry_self {p i v : Nat} (hv : v < 4294967296) :
    (s.setEntry p i v).entry p i = v :=
  read32_write32_self _ _ hv

/-- A page filled with zeros leaves the other pages alone. -/
theorem Paging.entry_clear {p q j : Nat} (hp : p % pageSize = 0) (hq : q % pageSize = 0)
    (hj : j < levelSize) (hne : p ≠ q) :
    Paging.entry { s with mem := s.mem.put p pageSize fun _ => 0 } q j = s.entry q j := by
  refine SameOn.read32 fun x hlo hhi => ?_
  show s.mem.put p pageSize (fun _ => 0) x = s.mem x
  refine put_of_not_mem s.mem _ ?_
  simp only [pageSize, levelSize] at *
  omega

theorem Paging.entry_clear_self {p j : Nat} (hj : j < levelSize) :
    Paging.entry { s with mem := s.mem.put p pageSize fun _ => 0 } p j = 0 := by
  have hzero : ∀ k < pageSize, s.mem.put p pageSize (fun _ => 0) (p + k) = 0 :=
    fun k hk => put_byte _ _ hk
  simp only [levelSize] at hj
  simp only [pageSize] at hzero
  unfold Paging.entry read32
  simp only [Nat.add_assoc]
  rw [show pageSize = 4096 from rfl]
  rw [hzero _ (by omega), hzero _ (by omega), hzero _ (by omega), hzero _ (by omega)]
  rfl

/-- A table from the heap goes behind a root entry that was zero. -/
theorem Tables.addLeaf (h : Tables src s map leaf) {d p : Nat} (hd : d < levelSize)
    (hnone : leaf d = none) (hp : src.page s.taken = some p) :
    Tables src (Paging.setEntry { s with
      mem := s.mem.put p pageSize fun _ => 0
      taken := s.taken + 1 } src.root d (biCreatePte p)) map
      (Function.update leaf d (some p)) := by
  obtain ⟨haddr, hroot⟩ := src.page_address _ _ hp
  have hroot_page : src.root % pageSize = 0 := src.root_address.2.1
  -- the new table is none of those in use
  have hnew : ∀ e q, leaf e = some q → q ≠ p := by
    rintro e q hq rfl
    obtain ⟨n, hn, hpage⟩ := h.leaf_page e q hq
    have := src.page_injective _ _ _ hpage hp
    omega
  obtain ⟨s₁, hs₁⟩ : ∃ s₁ : Paging, s₁ =
    { s with mem := s.mem.put p pageSize fun _ => 0, taken := s.taken + 1 } := ⟨_, rfl⟩
  have hclear : ∀ q, q % pageSize = 0 → q ≠ p → ∀ j < levelSize, s₁.entry q j = s.entry q j := by
    intro q hq hne j hj
    rw [hs₁]
    exact Paging.entry_clear (s := s) haddr.2.1 hq hj hne.symm
  have hzero : ∀ j < levelSize, s₁.entry p j = 0 := by
    intro j hj
    rw [hs₁]
    exact Paging.entry_clear_self (s := s) hj
  have hbeside : ∀ q, q % pageSize = 0 → q ≠ src.root → ∀ j < levelSize,
      (s₁.setEntry src.root d (biCreatePte p)).entry q j = s₁.entry q j :=
    fun q hq hne j hj => Paging.entry_setEntry hroot_page hq hd hj (.inl hne.symm)
  rw [← hs₁]
  refine ⟨fun e he => ?_, fun e q hq => ?_, fun e f q he hf => ?_, fun e he => ?_,
    fun e q hq t ht => ?_, h.map_address⟩
  · by_cases hed : e = d
    · subst hed
      rw [Function.update_self]
      exact Paging.entry_setEntry_self (biCreatePte_lt haddr.2.2)
    · rw [Function.update_of_ne hed, ← h.root_eq e he,
        Paging.entry_setEntry hroot_page hroot_page hd he (.inr (Ne.symm hed)),
        hclear _ hroot_page hroot.symm e he]
  · have htaken : (s₁.setEntry src.root d (biCreatePte p)).taken = s.taken + 1 := by
      rw [hs₁]
      rfl
    rw [htaken]
    by_cases hed : e = d
    · subst hed
      rw [Function.update_self] at hq
      exact ⟨s.taken, Nat.lt_succ_self _, hq ▸ hp⟩
    · rw [Function.update_of_ne hed] at hq
      obtain ⟨n, hn, hpage⟩ := h.leaf_page e q hq
      exact ⟨n, by omega, hpage⟩
  · by_cases hed : e = d <;> by_cases hfd : f = d
    · rw [hed, hfd]
    · rw [hed, Function.update_self] at he
      rw [Function.update_of_ne hfd] at hf
      exact absurd (Option.some.inj he).symm (hnew f q hf)
    · rw [hfd, Function.update_self] at hf
      rw [Function.update_of_ne hed] at he
      exact absurd (Option.some.inj hf).symm (hnew e q he)
    · rw [Function.update_of_ne hed] at he
      rw [Function.update_of_ne hfd] at hf
      exact h.leaf_injective e f q he hf
  · by_cases hed : e = d
    · rw [hed, Function.update_self] at he
      cases he
    · rw [Function.update_of_ne hed] at he
      exact h.none_eq e he
  · by_cases hed : e = d
    · subst hed
      rw [Function.update_self, Option.some.injEq] at hq
      subst hq
      rw [hbeside p haddr.2.1 hroot t ht, hzero t ht, h.none_eq e hnone t ht]
      rfl
    · rw [Function.update_of_ne hed] at hq
      obtain ⟨hqaddr, hqroot⟩ := h.leaf_address hq
      rw [hbeside q hqaddr.2.1 hqroot t ht, hclear q hqaddr.2.1 (hnew e q hq) t ht]
      exact h.some_eq e q hq t ht

/-- An entry of a table is set. -/
theorem Tables.setLeaf (h : Tables src s map leaf) {d t p phys : Nat} (ht : t < levelSize)
    (hp : leaf d = some p) (hphys : phys % pageSize = 0 ∧ phys < 4294967296) :
    Tables src (s.setEntry p t (biCreatePte phys))
      (Function.update map (d * levelSize + t) (some phys)) leaf := by
  obtain ⟨haddr, hroot⟩ := h.leaf_address hp
  refine ⟨fun e he => ?_, h.leaf_page, h.leaf_injective, fun e he u hu => ?_,
    fun e q hq u hu => ?_, fun page phys' hpage => ?_⟩
  · rw [← h.root_eq e he]
    exact Paging.entry_setEntry haddr.2.1 src.root_address.2.1 ht he (.inl hroot)
  · have hed : e ≠ d := by
      rintro rfl
      rw [hp] at he
      cases he
    rw [Function.update_of_ne, h.none_eq e he u hu]
    simp only [levelSize] at ht hu ⊢
    omega
  · by_cases hsame : e = d ∧ u = t
    · obtain ⟨rfl, rfl⟩ := hsame
      rw [hp, Option.some.injEq] at hq
      subst hq
      rw [Function.update_self]
      exact Paging.entry_setEntry_self (biCreatePte_lt hphys.2)
    · rw [Function.update_of_ne, ← h.some_eq e q hq u hu]
      · refine Paging.entry_setEntry haddr.2.1 (h.leaf_address hq).1.2.1 ht hu ?_
        by_cases hed : e = d
        · exact .inr fun htu => hsame ⟨hed, htu.symm⟩
        · refine .inl ?_
          rintro rfl
          exact hed (h.leaf_injective e d p hq hp)
      · simp only [levelSize] at ht hu ⊢
        omega
  · by_cases hpage' : page = d * levelSize + t
    · rw [hpage', Function.update_self, Option.some.injEq] at hpage
      exact hpage ▸ hphys
    · rw [Function.update_of_ne hpage'] at hpage
      exact h.map_address page phys' hpage

/-! ## The two operations -/

/-- The table of an address is there, or is made, or there is no memory for it. -/
theorem biGetTable_creates (h : Tables src s map leaf) {virt : Nat} (hvirt : virt < 4294967296) :
    Post (biGetTable src virt true) s
      (fun table s' => ∃ leaf', Tables src s' map leaf' ∧ leaf' (biPteIndex virt 1) = some table ∧
        ∀ d, leaf' d ≠ none → leaf d ≠ none ∨ d = biPteIndex virt 1)
      fun e _ => e = .crash "out of memory" := by
  obtain ⟨-, hd, -⟩ := biPteIndex_page virt hvirt
  unfold biGetTable
  show Post (biGetTableFrom src virt true 1 src.root) s _ _
  unfold biGetTableFrom
  rw [post_bind, post_get]
  dsimp only
  rw [h.root_eq _ hd]
  cases hleaf : leaf (biPteIndex virt 1) with
  | some p =>
    have haddr := (h.leaf_address hleaf).1
    rw [pte, if_pos (biCreatePte_ne_zero p), biDecodePte_biCreatePte haddr.2.1 haddr.2.2]
    exact ⟨leaf, h, hleaf, fun _ => .inl⟩
  | none =>
    rw [pte, if_neg (by simp), if_pos rfl, post_bind, allocatePage, post_bind, post_get]
    cases hpage : src.page s.taken with
    | none => rfl
    | some p =>
      rw [post_bind, post_modify, post_pure, post_bind, post_modify, post_bind, post_modify]
      refine ⟨_, h.addLeaf hd hleaf hpage, Function.update_self .., fun e he => ?_⟩
      by_cases hed : e = biPteIndex virt 1
      · exact .inr hed
      · rw [Function.update_of_ne hed] at he
        exact .inl he

theorem blMapPage_post (h : Tables src s map leaf) (hused : Used map leaf) {virt phys : Nat}
    (hvirt : virt < 4294967296) (hphys : phys % pageSize = 0 ∧ phys < 4294967296) :
    Post (blMapPage src virt phys) s
      (fun _ s' => ∃ leaf', Tables src s' (Function.update map (virt / pageSize) (some phys)) leaf' ∧
        Used (Function.update map (virt / pageSize) (some phys)) leaf')
      fun e _ => e = .crash "out of memory" := by
  obtain ⟨hpage, hd, ht⟩ := biPteIndex_page virt hvirt
  refine Post.bind (biGetTable_creates h hvirt) fun table s' ⟨leaf', htables, hleaf, hnew⟩ => ?_
  rw [post_modify, ← hpage]
  refine ⟨leaf', htables.setLeaf ht hleaf hphys, fun d hne => ?_⟩
  rcases hnew d hne with hold | rfl
  · obtain ⟨t, htlt, hmap⟩ := hused d hold
    exact ⟨t, htlt, update_ne_none hmap⟩
  · exact ⟨biPteIndex virt 0, ht, by rw [Function.update_self]; simp⟩

theorem put_page_of_ne (m : ByteMemory) (bytes : Nat → BitVec 8) {p q i : Nat} (hp : p % pageSize = 0)
    (hq : q % pageSize = 0) (hne : q ≠ p) (hi : i < pageSize) :
    m.put p pageSize bytes (q + i) = m (q + i) := by
  simp only [pageSize] at hp hq hi ⊢
  exact put_of_not_mem m bytes (by omega)

/-- A page that is neither the root nor one of the tables keeps its bytes when a table gets an entry. -/
theorem Paging.mem_setEntry {p q i index pte : Nat} (hp : p % pageSize = 0) (hq : q % pageSize = 0)
    (hne : q ≠ p) (hindex : index < levelSize) (hi : i < pageSize) :
    (s.setEntry p index pte).mem (q + i) = s.mem (q + i) := by
  simp only [pageSize, levelSize] at hp hq hindex hi
  exact write32_of_not_mem s.mem pte (by omega)

/-- What `biGetTable` does to the tables and to the memory, and why it fails if it does. -/
theorem biGetTable_makes (h : Tables src s map leaf) {virt : Nat} (hvirt : virt < 4294967296) :
    Post (biGetTable src virt true) s
      (fun table s' => ∃ leaf', Tables src s' map leaf' ∧ leaf' (biPteIndex virt 1) = some table ∧
        (∀ d, leaf' d ≠ none → leaf d ≠ none ∨ d = biPteIndex virt 1) ∧
        s.taken ≤ s'.taken ∧ s'.taken ≤ s.taken + 1 ∧
        (∀ d p, leaf' d = some p → leaf d = some p ∨ src.page s.taken = some p) ∧
        ∀ q, q % pageSize = 0 → q ≠ src.root → (∀ d, leaf' d ≠ some q) →
          ∀ i < pageSize, s'.mem (q + i) = s.mem (q + i))
      fun e s' => e = .crash "out of memory" ∧ s' = s ∧ src.page s.taken = none := by
  obtain ⟨-, hd, -⟩ := biPteIndex_page virt hvirt
  unfold biGetTable
  show Post (biGetTableFrom src virt true 1 src.root) s _ _
  unfold biGetTableFrom
  rw [post_bind, post_get]
  dsimp only
  rw [h.root_eq _ hd]
  cases hleaf : leaf (biPteIndex virt 1) with
  | some p =>
    have haddr := (h.leaf_address hleaf).1
    rw [pte, if_pos (biCreatePte_ne_zero p), biDecodePte_biCreatePte haddr.2.1 haddr.2.2]
    exact ⟨leaf, h, hleaf, fun _ => .inl, le_rfl, Nat.le_succ _, fun _ _ => .inl,
      fun _ _ _ _ _ _ => rfl⟩
  | none =>
    rw [pte, if_neg (by simp), if_pos rfl, post_bind, allocatePage, post_bind, post_get]
    cases hpage : src.page s.taken with
    | none => exact ⟨rfl, rfl, rfl⟩
    | some p =>
      rw [post_bind, post_modify, post_pure, post_bind, post_modify, post_bind, post_modify]
      have haddr := (src.page_address _ _ hpage).1
      refine ⟨_, h.addLeaf hd hleaf hpage, Function.update_self .., fun e he => ?_,
        Nat.le_succ _, le_rfl, fun e q he => ?_, fun q hq hroot hnone i hi => ?_⟩
      · by_cases hed : e = biPteIndex virt 1
        · exact .inr hed
        · rw [Function.update_of_ne hed] at he
          exact .inl he
      · by_cases hed : e = biPteIndex virt 1
        · rw [hed, Function.update_self] at he
          exact .inr he
        · rw [Function.update_of_ne hed] at he
          exact .inl he
      · have hne : q ≠ p := by
          rintro rfl
          exact hnone (biPteIndex virt 1) (Function.update_self ..)
        refine (Paging.mem_setEntry src.root_address.2.1 hq hroot hd hi).trans ?_
        exact put_page_of_ne s.mem (fun _ => 0) haddr.2.1 hq hne hi

/-- Mapping a page writes to the tables only. -/
theorem blMapPage_places (h : Tables src s map leaf) (hused : Used map leaf) {virt phys : Nat}
    (hvirt : virt < 4294967296) (hphys : phys % pageSize = 0 ∧ phys < 4294967296) :
    Post (blMapPage src virt phys) s
      (fun _ s' => ∃ leaf', Tables src s' (Function.update map (virt / pageSize) (some phys)) leaf' ∧
        Used (Function.update map (virt / pageSize) (some phys)) leaf' ∧
        s.taken ≤ s'.taken ∧ s'.taken ≤ s.taken + 1 ∧
        (∀ d p, leaf' d = some p → leaf d = some p ∨ src.page s.taken = some p) ∧
        ∀ q, q % pageSize = 0 → q ≠ src.root → (∀ d, leaf' d ≠ some q) →
          ∀ i < pageSize, s'.mem (q + i) = s.mem (q + i))
      fun e s' => e = .crash "out of memory" ∧ s' = s ∧ src.page s.taken = none := by
  obtain ⟨hpage, hd, ht⟩ := biPteIndex_page virt hvirt
  refine Post.bind (biGetTable_makes h hvirt) fun table s' hmade => ?_
  obtain ⟨leaf', htables, hleaf, hnew, hge, hle, hfrom, hmem⟩ := hmade
  rw [post_modify, ← hpage]
  refine ⟨leaf', htables.setLeaf ht hleaf hphys, fun d hne => ?_, hge, hle, hfrom,
    fun q hq hroot hnone i hi => ?_⟩
  · rcases hnew d hne with hold | rfl
    · obtain ⟨t, htlt, hmap⟩ := hused d hold
      exact ⟨t, htlt, update_ne_none hmap⟩
    · exact ⟨biPteIndex virt 0, ht, by rw [Function.update_self]; simp⟩
  · have hne : q ≠ table := by
      rintro rfl
      exact hnone _ hleaf
    exact (Paging.mem_setEntry (htables.leaf_address hleaf).1.2.1 hq hne ht hi).trans
      (hmem q hq hroot hnone i hi)

theorem or_pageOffset {phys virt : Nat} (halign : phys % pageSize = 0) :
    phys ||| (virt &&& 4095) = phys + virt % pageSize := by
  obtain ⟨frame, rfl⟩ : ∃ frame, phys = frame <<< 12 := by
    refine ⟨phys / 4096, ?_⟩
    rw [Nat.shiftLeft_eq]
    simp only [pageSize] at halign
    omega
  rw [show 4095 = 2 ^ 12 - 1 from rfl, Nat.and_two_pow_sub_one_eq_mod,
    ← Nat.shiftLeft_add_eq_or_of_lt (Nat.mod_lt _ (by decide))]
  rfl

/-- Looking up is reading the map; it changes nothing. -/
theorem blGetMapping_run (h : Tables src s map leaf) {virt : Nat} (hvirt : virt < 4294967296) :
    ∃ message, (blGetMapping src virt).run s =
      ((match map (virt / pageSize) with
        | some phys => .ok (phys + virt % pageSize)
        | none => .error (.crash message)), s) ∧
      (message = "BiGetTable: not found" ∨ message = "BiGetMapping: not found") := by
  obtain ⟨hpage, hd, ht⟩ := biPteIndex_page virt hvirt
  have hroot := h.root_eq _ hd
  rw [← hpage]
  have htable : (biGetTable src virt false).run s =
      (if s.entry src.root (biPteIndex virt 1) ≠ 0 then
        pure (biDecodePte (s.entry src.root (biPteIndex virt 1)))
      else Prog.stop (.crash "BiGetTable: not found") : PagingProg Nat).run s := rfl
  cases hleaf : leaf (biPteIndex virt 1) with
  | none =>
    rw [hroot, hleaf, pte, if_neg (by simp)] at htable
    refine ⟨"BiGetTable: not found", ?_, .inl rfl⟩
    rw [h.none_eq _ hleaf _ ht]
    exact run_bind_error htable
  | some p =>
    have haddr := (h.leaf_address hleaf).1
    rw [hroot, hleaf, pte, if_pos (biCreatePte_ne_zero p),
      biDecodePte_biCreatePte haddr.2.1 haddr.2.2] at htable
    refine ⟨"BiGetMapping: not found", ?_, .inr rfl⟩
    have hrun : (blGetMapping src virt).run s =
        (if s.entry p (biPteIndex virt 0) = 0 then Prog.stop (.crash "BiGetMapping: not found")
        else pure (biDecodePte (s.entry p (biPteIndex virt 0)) ||| (virt &&& 4095)) :
          PagingProg Nat).run s := run_bind_ok htable
    rw [hrun, h.some_eq _ p hleaf _ ht]
    cases hmap : map (biPteIndex virt 1 * levelSize + biPteIndex virt 0) with
    | none => rfl
    | some phys =>
      obtain ⟨halign, hlt⟩ := h.map_address _ _ hmap
      rw [pte, if_neg (biCreatePte_ne_zero phys), biDecodePte_biCreatePte halign hlt,
        or_pageOffset halign]
      rfl

end

/-! ## Runs -/

/-- What happens to the tables: pages are mapped, by number, and the rest of the bootloader writes
to memory of its own. -/
inductive PagingCall where
  | map (page frame : BitVec 20)
  | write (address : Nat) (byte : BitVec 8)

/-- An address in none of the tables. -/
def Paging.Beside (src : PageSource) (s : Paging) (address : Nat) : Prop :=
  (address < src.root ∨ src.root + pageSize ≤ address) ∧
    ∀ n < s.taken, (src.page n).all fun p => address < p ∨ p + pageSize ≤ address

instance Paging.decidableBeside (src : PageSource) (s : Paging) (address : Nat) :
    Decidable (s.Beside src address) := by
  unfold Paging.Beside
  infer_instance

def pagingStep (src : PageSource) (s : Paging) : PagingCall → Option Paging
  | .map page frame =>
    match (blMapPage src (page.toNat * pageSize) (frame.toNat * pageSize)).run s with
    | (.ok (), s') => some s'
    | (.error _, _) => none
  | .write address byte =>
    if s.Beside src address then some { s with mem := s.mem.write8 address byte } else none

/-- Where each page is mapped to, after the calls. -/
def mapped (calls : List PagingCall) : Nat → Option Nat :=
  calls.foldl (fun map call =>
    match call with
    | .map page frame => Function.update map page.toNat (some (frame.toNat * pageSize))
    | .write _ _ => map) fun _ => none

/-- Zero, or a frame number with the bits V, W, K and G. -/
def ProperEntry (entry : Nat) : Prop := entry = 0 ∨ ∃ frame < 1048576, entry = frame * 32 + 0x17

section
variable {src : PageSource} {s s' : Paging} {map leaf : Nat → Option Nat}

theorem Tables.start (src : PageSource) (mem : ByteMemory) :
    Tables src (.start src mem) (fun _ => none) fun _ => none where
  root_eq _ hd := Paging.entry_clear_self (s := { mem, taken := 0 }) hd
  leaf_page := by simp
  leaf_injective := by simp
  none_eq := by simp
  some_eq := by simp
  map_address := by simp

theorem Tables.write8 (h : Tables src s map leaf) {address : Nat} (byte : BitVec 8)
    (hbeside : s.Beside src address) :
    Tables src { s with mem := s.mem.write8 address byte } map leaf := by
  obtain ⟨hroot, hpages⟩ := hbeside
  have hkeep : ∀ p, address < p ∨ p + pageSize ≤ address → ∀ i < levelSize,
      Paging.entry { s with mem := s.mem.write8 address byte } p i = s.entry p i := by
    intro p hp i hi
    refine (sameOn_write8 s.mem byte ?_).read32
    simp only [pageSize, levelSize] at hp hi
    omega
  refine ⟨fun d hd => ?_, h.leaf_page, h.leaf_injective, h.none_eq, fun d p hp t ht => ?_,
    h.map_address⟩
  · rw [hkeep _ hroot d hd]
    exact h.root_eq d hd
  · obtain ⟨n, hn, hpage⟩ := h.leaf_page d p hp
    have hbeside := hpages n hn
    rw [hpage, Option.all_some, decide_eq_true_eq] at hbeside
    rw [hkeep p hbeside t ht]
    exact h.some_eq d p hp t ht

/-- What a call makes of the map. -/
def PagingCall.apply (map : Nat → Option Nat) : PagingCall → Nat → Option Nat
  | .map page frame => Function.update map page.toNat (some (frame.toNat * pageSize))
  | .write _ _ => map

theorem pagingStep_tables {call : PagingCall} (h : ∃ leaf, Tables src s map leaf ∧ Used map leaf)
    (hstep : pagingStep src s call = some s') :
    ∃ leaf, Tables src s' (call.apply map) leaf ∧ Used (call.apply map) leaf := by
  obtain ⟨leaf, h, hused⟩ := h
  cases call with
  | map page frame =>
    have hpage := page.isLt
    have hframe := frame.isLt
    have hvirt : page.toNat * pageSize < 4294967296 := by
      simp only [pageSize]
      omega
    have hphys : frame.toNat * pageSize % pageSize = 0 ∧ frame.toNat * pageSize < 4294967296 := by
      simp only [pageSize]
      omega
    have hpost := blMapPage_post h hused hvirt hphys
    rw [Nat.mul_div_cancel _ (by decide)] at hpost
    dsimp only [pagingStep] at hstep
    split at hstep
    · rename_i hrun
      cases hstep
      exact hpost.of_run_ok hrun
    · cases hstep
  | write address byte =>
    dsimp only [pagingStep] at hstep
    split_ifs at hstep with hbeside
    cases hstep
    exact ⟨leaf, h.write8 byte hbeside, hused⟩

theorem run_pagingStep_tables {calls : List PagingCall}
    (h : ∃ leaf, Tables src s map leaf ∧ Used map leaf)
    (hrun : Run.run (pagingStep src) s calls = some s') :
    ∃ leaf, Tables src s' (calls.foldl PagingCall.apply map) leaf ∧
      Used (calls.foldl PagingCall.apply map) leaf := by
  induction calls generalizing s map with
  | nil =>
    cases hrun
    exact h
  | cons call calls ih =>
    obtain ⟨s₁, hstep, hrest⟩ := Run.run_cons_eq_some.1 hrun
    exact ih (pagingStep_tables h hstep) hrest

theorem mapped_eq (calls : List PagingCall) :
    calls.foldl PagingCall.apply (fun _ => none) = mapped calls := by
  refine congrFun (congrFun (congrArg List.foldl ?_) _) calls
  funext map call
  cases call <;> rfl

/-- After any calls, from the empty root table on. -/
theorem run_tables {mem : ByteMemory} {calls : List PagingCall}
    (hrun : Run.run (pagingStep src) (.start src mem) calls = some s) :
    ∃ leaf, Tables src s (mapped calls) leaf ∧ Used (mapped calls) leaf := by
  have htables := run_pagingStep_tables ⟨_, Tables.start src mem, fun _ h => absurd rfl h⟩ hrun
  rwa [mapped_eq] at htables

theorem pte_proper {o : Option Nat} (ho : ∀ phys, o = some phys → phys < 4294967296) :
    ProperEntry (pte o) := by
  cases o with
  | none => exact .inl rfl
  | some phys =>
    have := ho phys rfl
    exact .inr ⟨phys / 4096, by omega, biCreatePte_eq phys⟩

theorem Tables.proper (h : Tables src s map leaf) {d : Nat} (hd : d < levelSize) :
    ProperEntry (s.entry src.root d) ∧ (s.entry src.root d ≠ 0 → ∀ t < levelSize,
      ProperEntry (s.entry (biDecodePte (s.entry src.root d)) t)) := by
  rw [h.root_eq d hd]
  refine ⟨pte_proper fun p hp => (h.leaf_address hp).1.2.2, fun hne t ht => ?_⟩
  cases hleaf : leaf d with
  | none =>
    rw [hleaf] at hne
    exact absurd rfl hne
  | some p =>
    have haddr := (h.leaf_address hleaf).1
    rw [pte, biDecodePte_biCreatePte haddr.2.1 haddr.2.2, h.some_eq d p hleaf t ht]
    exact pte_proper fun phys hphys => (h.map_address _ _ hphys).2

/-- After any calls the tables are the map that the calls make: looking up finds what was mapped
last and nothing else, every entry is a proper one, and the next page can be mapped unless memory
has run out. -/
theorem pageTables_mapped {mem : ByteMemory} {calls : List PagingCall}
    (hrun : Run.run (pagingStep src) (.start src mem) calls = some s) :
    (∀ virt : BitVec 32, ∃ message,
      (blGetMapping src virt.toNat).run s =
        ((match mapped calls (virt.toNat / pageSize) with
          | some phys => .ok (phys + virt.toNat % pageSize)
          | none => .error (.crash message)), s) ∧
        (message = "BiGetTable: not found" ∨ message = "BiGetMapping: not found")) ∧
    (∀ d < levelSize, ProperEntry (s.entry src.root d) ∧ (s.entry src.root d ≠ 0 →
      ∀ t < levelSize, ProperEntry (s.entry (biDecodePte (s.entry src.root d)) t))) ∧
    ∀ page frame : BitVec 20,
      Post (blMapPage src (page.toNat * pageSize) (frame.toNat * pageSize)) s (fun _ _ => True)
        fun e _ => e = .crash "out of memory" := by
  obtain ⟨leaf, h, hused⟩ := run_tables hrun
  refine ⟨fun virt => blGetMapping_run h virt.isLt, fun d hd => h.proper hd, fun page frame => ?_⟩
  have hpage := page.isLt
  have hframe := frame.isLt
  exact (blMapPage_post h hused (by simp only [pageSize]; omega)
    ⟨Nat.mul_mod_left .., by simp only [pageSize]; omega⟩).mono (fun _ _ _ => trivial) fun _ _ => id

end

/-- A root table at 0x1000 and pages from 0x10000 on. -/
def PageSource.example : PageSource where
  root := 0x1000
  page n := if n < 16 then some (0x10000 + n * 0x1000) else none
  root_address := ⟨by decide, by decide, by decide⟩
  page_address := by
    intro n p hp
    split_ifs at hp with hn
    cases hp
    refine ⟨⟨by omega, ?_, by omega⟩, by omega⟩
    simp only [pageSize]
    omega
  page_injective := by
    intro m n p hm hn
    split_ifs at hm hn with hm' hn'
    cases hm
    have := Option.some.inj hn
    omega

/-- Two pages behind one root entry, one of them mapped twice, and a page that was never mapped. -/
theorem pageTables_mapped_remap :
    ∃ s, Run.run (pagingStep .example) (.start .example fun _ => 0xff)
        [.map 0x80000 0x123, .map 0x80001 0x456, .map 0x80000 0x789] = some s ∧
      (blGetMapping .example 0x80000abc).run s = (.ok 0x789abc, s) ∧
      (blGetMapping .example 0x80001000).run s = (.ok 0x456000, s) ∧
      ∃ message, (blGetMapping .example 0x1000).run s = (.error (.crash message), s) := by
  obtain ⟨s, hrun⟩ : ∃ s, Run.run (pagingStep .example) (.start .example fun _ => 0xff)
      [.map 0x80000 0x123, .map 0x80001 0x456, .map 0x80000 0x789] = some s :=
    Option.isSome_iff_exists.1 (by decide +kernel)
  have hget := (pageTables_mapped hrun).1
  obtain ⟨_, hfirst, -⟩ := hget 0x80000abc
  obtain ⟨_, hsecond, -⟩ := hget 0x80001000
  obtain ⟨message, hthird, -⟩ := hget 0x1000
  exact ⟨s, hrun, hfirst, hsecond, message, hthird⟩

end XrLinux.Bootloader
