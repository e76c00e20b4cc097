import XrLinux.Machine.Bytes
import XrLinux.Machine.Mmu

/-!
# Linux — `asm/page.h`, `asm/pgtable.h` and the fixmap

The layout of the address space, the entries of the tables, `__pa` and `__va`, and the pages of the
fixmap that the kernel maps where it has to write to memory it has no address for.
-/

namespace XrLinux.Linux.Paging

open Machine Mmu

def pageOffset : Word := 0xc0000000

/-- `_PGTABLE_ADDR`, which is `TASK_SIZE`. -/
def pgtableAddr : Word := 0x80000000

def swapperPgDir : Word := pgtableAddr + 0x400000

def kernelLinkAddr : Word := swapperPgDir + 0x1000

/-- `FIXADDR_TOP`, below the 512 MiB of `vmalloc`. -/
def fixaddrTop : Word := pageOffset - 0x20000000

def fixaddrStart : Word := fixaddrTop - 0x400000

/-- Bits P, W, K, G, A and D: `PAGE_KERNEL`, `PAGE_KERNEL_EXEC` and `PAGE_TABLE`. -/
def pageKernelBase : Word := 0x6000017

def isLinearMapping (x : Word) : Bool := pageOffset ≤ x

def linearMappingVaToPa (x : Word) : Word := x - pageOffset

def kernelMappingVaToPa (s : Mmu) (x : Word) : Option Word :=
  (s.read (x >>> 10 &&& ~~~(3 : Word) ||| pgtableAddr)).map fun y =>
    (y &&& ~~~(0x1f : Word)) <<< 7

/-- `__pa`. -/
def pa (s : Mmu) (x : Word) : Option Word :=
  if isLinearMapping x then some (linearMappingVaToPa x) else kernelMappingVaToPa s x

/-- `__va`. -/
def va (x : Word) : Word := x + pageOffset

/-- `pfn_pte` and `pfn_pgd`. -/
def pfnPte (pfn prot : Word) : Word := pfn <<< 5 ||| prot

/-- `PFN_DOWN`. -/
def pfnDown (x : Word) : Word := x >>> 12

def pgdIndex (x : Word) : Nat := (x >>> 22 &&& 1023).toNat

def pteIndex (x : Word) : Nat := (x >>> 12 &&& 1023).toNat

/-! ## The fixmap -/

def fixHole : Nat := 0

def fixTemp : Nat := 2

/-- `__end_of_fixed_addresses`, with 7 slots of 64 pages for `early_ioremap`. -/
def endOfFixedAddresses : Nat := 3 + 7 * 64

def fixToVirt (idx : Nat) : Word := fixaddrTop - BitVec.ofNat 32 (idx * 4096)

/-- Where `fixmap_pte` is, and what `memblock_phys_alloc` returns from one call to the next; after
that it returns zero. -/
structure Kernel where
  fixmapPte : Word
  pages : List Word

def Kernel.alloc (k : Kernel) (taken : Nat) : Word := k.pages.getD taken 0

/-- `__set_fixmap`. -/
def setFixmap (k : Kernel) (idx : Nat) (phys prot : Word) (s : Mmu) : Option Mmu :=
  if idx ≤ fixHole ∨ endOfFixedAddresses ≤ idx then none
  else
    s.write (k.fixmapPte + BitVec.ofNat 32 (4 * pteIndex (fixToVirt idx)))
      (if prot ≠ 0 then pfnPte (pfnDown phys) prot else 0)

/-- What `set_fixmap_offset` returns. -/
def fixmapOffset (idx : Nat) (phys : Word) : Word := fixToVirt idx + (phys &&& 4095)
/-! ## Entries and addresses -/

/-- A page that is mapped, by its number. -/
def entryOf (q : Nat) : Word := pfnPte (BitVec.ofNat 32 q) pageKernelBase

theorem entryOf_toNat {q : Nat} (hq : q < 1048576) : (entryOf q).toNat = 0x6000017 + q * 32 := by
  have hlow : q * 32 ||| 0x17 = q * 32 + 0x17 := by
    rw [show q * 32 = q <<< 5 by rw [Nat.shiftLeft_eq], ← Nat.shiftLeft_add_eq_or_of_lt (by decide)]
  have hhigh : 3 <<< 25 ||| (q * 32 + 0x17) = 3 <<< 25 + (q * 32 + 0x17) :=
    (Nat.shiftLeft_add_eq_or_of_lt (by omega) 3).symm
  have hshift : (BitVec.ofNat 32 q <<< 5 : Word).toNat = q * 32 := by
    rw [BitVec.toNat_shiftLeft, BitVec.toNat_ofNat, Nat.shiftLeft_eq]
    omega
  have hprot : pageKernelBase.toNat = 0x17 ||| 3 <<< 25 := by decide
  rw [entryOf, pfnPte, BitVec.toNat_or, hshift, hprot, ← Nat.or_assoc, hlow, Nat.or_comm, hhigh]
  have : 3 <<< 25 = 100663296 := rfl
  omega

theorem follow_entryOf {q : Nat} (hq : q < 1048576) : follow (entryOf q) = some q := by
  have hodd : (0x6000017 + q * 32) % 2 = 1 := by omega
  have hpfn : (0x6000017 + q * 32) / 32 % 1048576 = q := by omega
  rw [follow, entryOf_toNat hq, if_pos hodd, hpfn]

theorem entryOf_ne_zero {q : Nat} (hq : q < 1048576) : entryOf q ≠ 0 := by
  intro h
  have hfollow := follow_entryOf hq
  rw [h, follow_zero] at hfollow
  cases hfollow

theorem pfnPte_pfnDown (x : Word) : pfnPte (pfnDown x) pageKernelBase = entryOf (x.toNat / 4096) := by
  have hdown : pfnDown x = BitVec.ofNat 32 (x.toNat / 4096) := by
    apply BitVec.eq_of_toNat_eq
    rw [pfnDown, BitVec.toNat_ushiftRight, Nat.shiftRight_eq_div_pow, BitVec.toNat_ofNat]
    have := x.isLt
    omega
  rw [hdown, entryOf]

theorem pgdIndex_eq (x : Word) : pgdIndex x = x.toNat / 4194304 := by
  have hlt := x.isLt
  rw [pgdIndex, BitVec.toNat_and, BitVec.toNat_ushiftRight, Nat.shiftRight_eq_div_pow,
    show (1023 : Word).toNat = 2 ^ 10 - 1 from rfl, Nat.and_two_pow_sub_one_eq_mod]
  omega

theorem pteIndex_eq (x : Word) : pteIndex x = x.toNat / 4096 % 1024 := by
  rw [pteIndex, BitVec.toNat_and, BitVec.toNat_ushiftRight, Nat.shiftRight_eq_div_pow,
    show (1023 : Word).toNat = 2 ^ 10 - 1 from rfl, Nat.and_two_pow_sub_one_eq_mod]

/-- The address of the entry of a page. -/
theorem recursive_toNat (x : Word) :
    (x >>> 10 &&& ~~~(3 : Word) ||| pgtableAddr).toNat = 2147483648 + x.toNat / 4096 * 4 := by
  have hlt := x.isLt
  have hentry : (x >>> 10 &&& ~~~(3 : Word)).toNat = x.toNat / 4096 * 4 := by
    rw [@toNat_and_high _ 2 30 _ rfl (by decide), BitVec.toNat_ushiftRight,
      Nat.shiftRight_eq_div_pow]
    omega
  have hbase : pgtableAddr.toNat = 1 <<< 31 := by decide
  rw [BitVec.toNat_or, hentry, hbase, Nat.or_comm, ← Nat.shiftLeft_add_eq_or_of_lt (by omega)]
  rfl

/-- What is left of an entry. -/
theorem shifted_toNat (y : Word) :
    ((y &&& ~~~(0x1f : Word)) <<< 7).toNat = y.toNat / 32 % 1048576 * 4096 := by
  rw [BitVec.toNat_shiftLeft, @toNat_and_high _ 5 27 _ rfl (by decide), Nat.shiftLeft_eq]
  omega
end XrLinux.Linux.Paging
