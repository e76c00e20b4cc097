import XrLinux.Binutils.Relocate

/-!
# Binutils — the GOT slots of a thread-local symbol

What `xr17032_elf_relocate_section` writes to the GOT, and which dynamic relocations it emits, at
the first general-dynamic or initial-exec reference to a symbol. The words of the GOT are a memory
of words, at the addresses that the linker gives them.
-/

namespace XrLinux.Binutils

/-- What `XR17032_TLS_GD_IE_NEED_DYN_RELOC` asks about a global symbol besides its hash entry. -/
structure DynSymbol where
  dynindx : Int
  /-- `WILL_CALL_FINISH_DYNAMIC_SYMBOL`. -/
  willCallFinishDynamicSymbol : Bool
  deriving DecidableEq

/-- `XR17032_TLS_GD_IE_NEED_DYN_RELOC`: `indx` and `need_relocs`. -/
def tlsGdIeNeedDynReloc (dll : Bool) (h : Option HashEntry) (dyn : DynSymbol) : Int × Bool :=
  match h with
  | none => (0, dll)
  | some h =>
    let indx :=
      if dyn.dynindx ≠ -1 ∧ dyn.willCallFinishDynamicSymbol ∧ (dll ∨ ¬ h.referencesLocal)
      then dyn.dynindx else 0
    (indx, (dll || indx != 0) && (h.hasDefaultVisibility || !h.isUndefweak))

/-- `Elf_Internal_Rela` of a dynamic relocation. -/
structure DynRela where
  offset : Vma
  type : RelocType
  indx : Int
  addend : Vma
  deriving DecidableEq

/-- `htab->elf.sgot` and `htab->elf.srelgot`. -/
structure Got where
  words : BitVec 32 → BitVec 32
  relas : List DynRela

/-- `bfd_put_32` to the contents of the GOT. -/
def Got.put32 (got : Got) (address value : Vma) : Got :=
  { got with words := Function.update got.words (address.setWidth 32) (value.setWidth 32) }

/-- `xr17032_elf_append_rela`. -/
def Got.appendRela (got : Got) (rela : DynRela) : Got := { got with relas := got.relas ++ [rela] }

section
variable (info : LinkInfo) (sym : RelocSymbol) (indx : Int) (needRelocs : Bool)

/-- The general-dynamic slots, of the module and of the offset in it. -/
def initGd (got : Got) : Got :=
  let slot := gotSlot info sym false
  if needRelocs then
    let got := (got.put32 slot 0).appendRela ⟨slot, .tlsDtpmod, indx, 0⟩
    if indx = 0 then got.put32 (slot + 4) (dtpoff info sym.relocation)
    else (got.put32 (slot + 4) 0).appendRela ⟨slot + 4, .tlsDtprel, indx, 0⟩
  else
    -- module 1, the executable
    (got.put32 slot 1).put32 (slot + 4) (dtpoff info sym.relocation)

/-- The initial-exec slot. -/
def initIe (got : Got) : Got :=
  let slot := gotSlot info sym true
  if needRelocs then
    (got.put32 slot 0).appendRela
      ⟨slot, .tlsTprel, indx, if indx = 0 then tpoff info sym.relocation else 0⟩
  else got.put32 slot (tpoff info sym.relocation)

end

/-- The GOT entries of a symbol, which have not been initialized yet. -/
def initTlsSlots (info : LinkInfo) (dll usesIe : Bool) (sym : RelocSymbol) (dyn : DynSymbol)
    (got : Got) : Got :=
  let (indx, needRelocs) := tlsGdIeNeedDynReloc dll sym.h dyn
  let got := if sym.usesGd then initGd info sym indx needRelocs got else got
  if usesIe then initIe info sym indx needRelocs got else got

/-- In an executable, dynamic relocations name a symbol. -/
theorem indx_ne_zero_of_needRelocs {h : Option HashEntry} {dyn : DynSymbol}
    (hneed : (tlsGdIeNeedDynReloc false h dyn).2) : (tlsGdIeNeedDynReloc false h dyn).1 ≠ 0 := by
  cases h with
  | none => cases hneed
  | some h =>
    simp only [tlsGdIeNeedDynReloc, Bool.false_or, Bool.and_eq_true, bne_iff_ne] at hneed ⊢
    exact hneed.1

/-- The index is that of the symbol, if any. -/
theorem indx_eq_dynindx {dll : Bool} {h : Option HashEntry} {dyn : DynSymbol}
    (hne : (tlsGdIeNeedDynReloc dll h dyn).1 ≠ 0) :
    (tlsGdIeNeedDynReloc dll h dyn).1 = dyn.dynindx := by
  cases h with
  | none => exact absurd rfl hne
  | some h =>
    simp only [tlsGdIeNeedDynReloc] at hne ⊢
    split at hne
    next hdyn => exact if_pos hdyn
    next => exact absurd rfl hne

end XrLinux.Binutils
