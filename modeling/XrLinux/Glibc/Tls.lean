import XrLinux.Binutils.TlsGot

/-!
# glibc — thread-local storage

`dl-tls.h` and the thread-local part of `elf_machine_rela`. The thread pointer points to the first
static TLS block, and `__tls_get_addr` adds `TLS_DTV_OFFSET` to what it finds, since the offsets
that the linker and the loader write are that much too small.
-/

namespace XrLinux.Glibc

open Binutils

abbrev Word := BitVec 32

/-- `TLS_TP_OFFSET`. -/
def tlsTpOffset : Word := 0

/-- `TLS_DTV_OFFSET`. -/
def tlsDtvOffset : Word := 0x800

/-- `TLS_TCB_SIZE`: the TCB is before the thread pointer. -/
def tlsTcbSize : Nat := 0

/-- `struct link_map`. -/
structure LinkMap where
  lAddr : Word
  lTlsOffset : Word
  lTlsModid : Word

/-- `TLS_TPREL_VALUE`. -/
def tlsTprelValue (symMap : LinkMap) (stValue : Word) : Word :=
  symMap.lTlsOffset + stValue - tlsTpOffset

/-- `TLS_DTPREL_VALUE`. -/
def tlsDtprelValue (stValue : Word) : Word := stValue - tlsDtvOffset

/-- `elf_machine_rela` for the relocations of thread-local symbols. `RESOLVE_MAP` finds the object
that defines the symbol, and the symbol's value there. -/
def elfMachineTlsRela (map : LinkMap) (resolveMap : Int → Option (LinkMap × Word))
    (mem : Word → Word) (reloc : DynRela) : Word → Word :=
  let addrField := map.lAddr + reloc.offset.setWidth 32
  match reloc.type, resolveMap reloc.indx with
  | .tlsDtpmod, some (symMap, _) => Function.update mem addrField symMap.lTlsModid
  | .tlsDtprel, some (_, stValue) =>
    Function.update mem addrField (tlsDtprelValue stValue + reloc.addend.setWidth 32)
  | .tlsTprel, some (symMap, stValue) =>
    Function.update mem addrField (tlsTprelValue symMap stValue + reloc.addend.setWidth 32)
  | _, _ => mem

/-- The GOT as it is mapped, after its relocations. -/
def loadGot (map : LinkMap) (resolveMap : Int → Option (LinkMap × Word)) (got : Got) :
    Word → Word :=
  got.relas.foldl (elfMachineTlsRela map resolveMap) fun a => got.words (a - map.lAddr)

/-- A thread of a running executable whose TLS segment is linked at `tlsVma`, and where the dynamic
symbol `dynindx` stands for the address `sym` in that segment. -/
structure Process (tlsVma sym : Vma) (dynindx : Int) where
  map : LinkMap
  resolveMap : Int → Option (LinkMap × Word)
  tp : Word
  dtv : Word → Word
  tlsGetAddr : Word → Word → Word
  /-- The alignment of the TLS segment. -/
  align : Nat
  /-- The linker aligns the start of the TLS segment (`_bfd_elf_tls_setup`). -/
  segment_aligned : align ∣ tlsVma.toNat
  /-- The executable's block comes first, as low as its alignment lets it. -/
  lTlsOffset_ge : tlsTcbSize ≤ map.lTlsOffset.toNat
  lTlsOffset_congr : map.lTlsOffset.toNat % align = tlsVma.toNat % align
  lTlsOffset_least : ∀ offset, tlsTcbSize ≤ offset → offset % align = tlsVma.toNat % align →
    map.lTlsOffset.toNat ≤ offset
  /-- The executable is module 1. -/
  lTlsModid_eq : map.lTlsModid = 1
  /-- `TLS_DTV_AT_TP`. -/
  dtv_eq : dtv map.lTlsModid = tp + map.lTlsOffset
  /-- `__tls_get_addr`, of the two words of a `tls_index`. -/
  tlsGetAddr_eq : ∀ tiModule tiOffset,
    tlsGetAddr tiModule tiOffset = dtv tiModule + tiOffset + tlsDtvOffset
  /-- The value of a thread-local symbol is its offset in the segment. -/
  resolveMap_eq : resolveMap dynindx = some (map, (sym - tlsVma).setWidth 32)

variable {tlsVma sym : Vma} {dynindx : Int}

/-- The block of the executable is at the thread pointer, whatever its alignment. -/
theorem Process.lTlsOffset_eq (p : Process tlsVma sym dynindx) : p.map.lTlsOffset = 0 := by
  have hle := p.lTlsOffset_least 0 (Nat.le_refl 0) (by
    rw [Nat.zero_mod, Nat.mod_eq_zero_of_dvd p.segment_aligned])
  exact BitVec.eq_of_toNat_eq (Nat.le_zero.1 hle)

end XrLinux.Glibc
