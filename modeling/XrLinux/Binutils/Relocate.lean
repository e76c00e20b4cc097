import XrLinux.Binutils.Pcrel

/-!
# Binutils — relocating an input section

`xr17032_elf_relocate_section`, as far as the section itself goes: what it makes of each relocation,
the table of high parts and the list of low parts. What it writes elsewhere, to the GOT and to the
sections of dynamic relocations, has no influence on that.

The relocations are those of a final link whose symbols are not in discarded sections. Questions
about a symbol that the generic linker answers are fields of the symbol.
-/

namespace XrLinux.Binutils

open ByteMemory

/-- `(bfd_vma) -1`, for no offset. -/
def noOffset : Vma := -1

/-- `PLT_HEADER_SIZE`. -/
def pltHeaderSize : Vma := 28

/-- `PLT_ENTRY_SIZE`. -/
def pltEntrySize : Vma := 16

/-- `GOT_ENTRY_SIZE`. -/
def gotEntrySize : Vma := 4

/-- `GOTPLT_HEADER_SIZE`. -/
def gotpltHeaderSize : Vma := 8

/-- `TLS_GD_GOT_ENTRY_SIZE`. -/
def tlsGdGotEntrySize : Vma := 8

/-- `TP_OFFSET`. -/
def tpOffset : Vma := 0

/-- `DTP_OFFSET`. -/
def dtpOffset : Vma := 0x800

/-- `struct elf_link_hash_entry`. -/
structure HashEntry where
  /-- `type == STT_GNU_IFUNC`. -/
  isIfunc : Bool
  defRegular : Bool
  defDynamic : Bool
  nonGotRef : Bool
  /-- `root.type == bfd_link_hash_undefweak`. -/
  isUndefweak : Bool
  /-- `ELF_ST_VISIBILITY (h->other) == STV_DEFAULT`. -/
  hasDefaultVisibility : Bool
  pltOffset : Vma
  /-- `XR17032_RESOLVED_LOCALLY`. -/
  resolvedLocally : Bool
  /-- `SYMBOL_REFERENCES_LOCAL`. -/
  referencesLocal : Bool
  deriving DecidableEq

/-- The symbol of a relocation. -/
structure RelocSymbol where
  /-- Its address, from `_bfd_elf_rela_local_sym` or `RELOC_FOR_GLOBAL_SYMBOL`. -/
  relocation : Vma
  unresolvedReloc : Bool
  /-- `STT_SECTION`. -/
  isSection : Bool
  /-- Also for a local symbol, if it is an ifunc. -/
  h : Option HashEntry
  /-- The offset in the GOT, without its lowest bit. -/
  gotOffset : Vma
  /-- `tls_type & GOT_TLS_GD`. -/
  usesGd : Bool
  /-- `XR17032_GENERATE_DYNAMIC_RELOC`, unless the word is relocated all the same. -/
  leftToDynamic : Bool
  /-- The place of the relocation is not in the output, by `_bfd_elf_section_offset`. -/
  placeDropped : Bool
  deriving DecidableEq

/-- `struct bfd_link_info`, with the sections that the linker made. `none` is for a section that
there is not; the others are at their addresses. -/
structure LinkInfo where
  /-- `bfd_link_pic`. -/
  pic : Bool
  splt : Option Vma
  iplt : Vma
  sgot : Option Vma
  sgotplt : Vma
  igotplt : Vma
  tlsSec : Option Vma
  deriving DecidableEq

/-- `dtpoff`. -/
def dtpoff (info : LinkInfo) (address : Vma) : Vma :=
  match info.tlsSec with
  | none => 0
  | some vma => address - vma - dtpOffset

/-- `tpoff`. -/
def tpoff (info : LinkInfo) (address : Vma) : Vma :=
  match info.tlsSec with
  | none => 0
  | some vma => address - vma - tpOffset

/-- Two relocations are for different places and have no byte in common. -/
def Rela.Apart (a b : Rela) : Prop :=
  (a.offset < b.offset ∧ a.offset + a.type.bitsize / 8 ≤ b.offset) ∨
    (b.offset < a.offset ∧ b.offset + b.type.bitsize / 8 ≤ a.offset)

theorem Rela.Apart.symm {a b : Rela} (h : a.Apart b) : b.Apart a := Or.symm h

/-- An input section. -/
structure InputSection where
  secAddr : Vma
  contents : ByteMemory
  /-- `SEC_ALLOC`. -/
  alloc : Bool
  /-- `SEC_READONLY`. -/
  readonly : Bool
  /-- `SEC_DEBUGGING`. -/
  debugging : Bool
  /-- `SHT_NOTE`. -/
  note : Bool
  relocs : List (Rela × RelocSymbol)
  small : ∀ r ∈ relocs, r.1.offset < 2 ^ 64
  apart : relocs.Pairwise fun a b => a.1.Apart b.1

/-- What is done about a relocation. -/
inductive Action where
  /-- `continue`. -/
  | skip
  /-- `perform_relocation`. -/
  | perform (relocation : Vma)
  /-- `xr17032_record_pcrel_hi_reloc` and then `perform_relocation`. -/
  | performHi (relocation recorded : Vma)
  /-- `xr17032_record_pcrel_lo_reloc`. -/
  | lo
  /-- An error that is reported. -/
  | error (e : RelocError)
  /-- An error that makes the whole link fail. -/
  | fail
  deriving DecidableEq

/-- The address of the PLT entry of an ifunc. -/
def ifuncPlt (info : LinkInfo) (h : HashEntry) : Vma := info.splt.getD info.iplt + h.pltOffset

/-- The address of the GOT slot of an ifunc. Without one, its slot in `.got.plt` is used. -/
def ifuncSlot (info : LinkInfo) (sgot : Vma) (sym : RelocSymbol) (h : HashEntry) : Vma :=
  if sym.gotOffset = noOffset then
    if info.splt.isSome then
      let pltIdx := (h.pltOffset - pltHeaderSize) / pltEntrySize
      info.sgotplt + (gotpltHeaderSize + pltIdx * gotEntrySize)
    else
      let pltIdx := h.pltOffset / pltEntrySize
      info.igotplt + pltIdx * gotEntrySize
  else sgot + sym.gotOffset

/-- `xr17032_elf_relocate_section` for an ifunc that is defined in a non-shared object, if it does
not go on as for any function. -/
def ifuncAction (info : LinkInfo) (sec : InputSection) (rel : Rela) (sym : RelocSymbol)
    (h : HashEntry) : Option Action :=
  if ¬ sec.alloc then
    if sec.note then none else if sec.debugging then some .skip else some .fail
  else if h.pltOffset = noOffset ∧ rel.type ∉
      [.r32, .lo16, .lo16_1, .lo16_2, .hi16, .hi16Got] then some .fail
  else
    let relocation := ifuncPlt info h
    match rel.type with
    | .r32 =>
      if rel.addend ≠ 0 then some .fail
      else if (info.pic ∧ h.nonGotRef) ∨ h.pltOffset = noOffset then some .skip
      else some (.perform relocation)
    | .hi16Got =>
      match info.sgot with
      | none => some .fail
      | some sgot =>
        let relocation := ifuncSlot info sgot sym h
        some (.performHi relocation relocation)
    | .jump | .hi16 | .lo16 | .lo16_1 | .lo16_2 => some (.perform relocation)
    | .hi16Pcrel | .hi16Plt => some (.performHi relocation relocation)
    | _ => some .fail

/-- The address that a call of a function goes to. -/
def callTarget (info : LinkInfo) (sym : RelocSymbol) : Vma :=
  match sym.h with
  | none => sym.relocation
  | some h =>
    let relocation :=
      if h.isUndefweak ∧ (¬ info.pic ∨ h.pltOffset = noOffset) then 0 else sym.relocation
    if info.pic ∧ h.pltOffset ≠ noOffset then info.splt.getD 0 + h.pltOffset else relocation

/-- The function may turn out to be another one than the one that the linker sees. -/
def mayBindExternally (info : LinkInfo) (sec : InputSection) (sym : RelocSymbol) : Bool :=
  match sym.h with
  | none => false
  | some h => info.pic && h.pltOffset == noOffset && !h.referencesLocal && sec.alloc &&
      sec.readonly && h.hasDefaultVisibility

/-- The slot of a symbol in the GOT. When it is used in two ways, the slots for general-dynamic
come first. -/
def gotSlot (info : LinkInfo) (sym : RelocSymbol) (isIe : Bool) : Vma :=
  info.sgot.getD 0 + sym.gotOffset + if isIe ∧ sym.usesGd then tlsGdGotEntrySize else 0

/-- The switch of `xr17032_elf_relocate_section`, with `unresolved_reloc`. -/
def relocAction (info : LinkInfo) (sec : InputSection) (rel : Rela) (sym : RelocSymbol) :
    Action × Bool :=
  let unresolved := sym.unresolvedReloc
  match rel.type with
  | .none | .copy | .jumpSlot | .relative => (.skip, false)
  | .r8 | .r16 | .r32Pcrel | .branch | .imm16 | .imm16_1 | .imm16_2 | .imm16_16 | .imm16Signed
  | .lo16 | .lo16_1 | .lo16_2 | .hi16 => (.perform sym.relocation, unresolved)
  | .hi16Got =>
    let unresolved := match sym.h with
      | some h => unresolved && h.resolvedLocally
      | none => unresolved
    if rel.addend ≠ 0 then (.error .dangerous, unresolved)
    else
      let relocation := gotSlot info sym false
      (.performHi relocation (relocation + rel.addend), unresolved)
  | .jump | .hi16Plt =>
    let relocation := callTarget info sym
    let unresolved := match sym.h with
      | some h => unresolved && !(info.pic && h.pltOffset != noOffset)
      | none => unresolved
    if mayBindExternally info sec sym then (.error .notSupported, unresolved)
    else if rel.type = .hi16Plt then
      (.performHi relocation (relocation + rel.addend), unresolved)
    else (.perform relocation, unresolved)
  | .hi16Tprel | .lo16Tprel | .lo16_1Tprel | .lo16_2Tprel =>
    (.perform (tpoff info sym.relocation), unresolved)
  | .hi16Pcrel => (.performHi sym.relocation (sym.relocation + rel.addend), unresolved)
  | .lo16Pcrel | .lo16_1Pcrel | .lo16_2Pcrel =>
    if sym.isSection ∧ rel.addend ≠ 0 then (.error .dangerous, unresolved) else (.lo, false)
  | .tlsDtprel => (.perform (dtpoff info sym.relocation), unresolved)
  | .r32 =>
    if sec.alloc ∧ sym.leftToDynamic then (.skip, false)
    else (.perform sym.relocation, unresolved)
  | .hi16TlsGot =>
    let relocation := gotSlot info sym true
    (.performHi relocation relocation, false)
  | .hi16TlsGd =>
    let relocation := gotSlot info sym false
    (.performHi relocation relocation, false)
  | .irelative | .tlsTprel | .tlsDtpmod | .r8Pcrel | .r16Pcrel => (.error .notSupported, unresolved)

/-- What debuggers read may refer to symbols of shared objects, and what is not in the output to
any. -/
def unresolvedAllowed (sec : InputSection) (sym : RelocSymbol) : Bool :=
  sym.placeDropped || match sym.h with
    | some h => sec.debugging && h.defDynamic
    | none => false

/-- What `xr17032_elf_relocate_section` does about a relocation. -/
def Action.of (info : LinkInfo) (sec : InputSection) (rel : Rela) (sym : RelocSymbol) : Action :=
  let ifunc := match sym.h with
    | some h => if h.isIfunc ∧ h.defRegular then ifuncAction info sec rel sym h else none
    | none => none
  match ifunc with
  | some action => action
  | none =>
    let (action, unresolved) := relocAction info sec rel sym
    if unresolved ∧ ¬ unresolvedAllowed sec sym then .error .notSupported else action

/-- Why a link fails. -/
inductive LinkError where
  | reloc (e : RelocError)
  | pcrelLo (e : LoError)
  | failed
  deriving DecidableEq

structure RelocState where
  contents : ByteMemory
  pcrel : PcrelRelocs

/-- `perform_relocation` and the switch on what it returns. -/
def doRelocation (sec : InputSection) (rel : Rela) (relocation : Vma) (s : RelocState) :
    Except LinkError RelocState :=
  match performRelocation rel relocation sec.secAddr s.contents with
  | .ok contents => .ok { s with contents }
  | .error e => .error (.reloc e)

/-- A round of the loop over the relocations. -/
def relocateOne (info : LinkInfo) (sec : InputSection) (s : RelocState) (r : Rela × RelocSymbol) :
    Except LinkError RelocState :=
  let (rel, sym) := r
  match Action.of info sec rel sym with
  | .skip => .ok s
  | .perform relocation => doRelocation sec rel relocation s
  | .performHi relocation recorded =>
    let pc := sec.secAddr + BitVec.ofNat 64 rel.offset
    doRelocation sec rel relocation { s with pcrel := s.pcrel.recordHi pc recorded rel.type }
  | .lo => .ok { s with pcrel := s.pcrel.recordLo sym.relocation rel }
  | .error e => .error (.reloc e)
  | .fail => .error .failed

/-- The loop over the relocations, which an error ends. -/
def relocateAll (info : LinkInfo) (sec : InputSection) : Except LinkError RelocState :=
  sec.relocs.foldlM (relocateOne info sec) { contents := sec.contents, pcrel := initPcrelRelocs }

/-- `xr17032_elf_relocate_section`. -/
def relocateSection (info : LinkInfo) (sec : InputSection) : Except LinkError ByteMemory :=
  match relocateAll info sec with
  | .error e => .error e
  | .ok s =>
    match resolvePcrelLoRelocs sec.secAddr s.pcrel.hiRelocs s.pcrel.loRelocs s.contents with
    | (none, contents) => .ok contents
    | (some e, _) => .error (.pcrelLo e)

end XrLinux.Binutils
