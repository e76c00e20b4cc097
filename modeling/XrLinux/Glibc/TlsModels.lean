import XrLinux.Binutils.PcrelSound
import XrLinux.Glibc.Tls

/-!
# glibc — the TLS models of an executable

One thread-local symbol plus addend, reached in three ways: local-exec adds the offset that the
linker put into two instructions to the thread pointer; initial-exec adds what it loads from the
GOT; and general-dynamic passes two words of the GOT to `__tls_get_addr`. In the last two the linker
puts the addend of the relocation into the high part of the *slot's* address, and into neither the
low part nor the slot. `tlsModels_agree_iff` says that this is the only difference.
-/

namespace XrLinux.Glibc

open Binutils ByteMemory

/-! ## Local-exec -/

/-- `LO16_TPREL` and its scaled forms. -/
def tprelType : LowKind → RelocType
  | .plain => .lo16Tprel
  | .scaled1 => .lo16_1Tprel
  | .scaled2 => .lo16_2Tprel

/-- The two halves of a thread-pointer-relative offset. -/
structure LocalExec (info : LinkInfo) (sym : RelocSymbol) (addend : Vma) where
  sec : InputSection
  contents : ByteMemory
  linked : relocateSection info sec = .ok contents
  kind : LowKind
  hiOffset : Nat
  loOffset : Nat
  hi_mem : (⟨hiOffset, .hi16Tprel, addend⟩, sym) ∈ sec.relocs
  lo_mem : (⟨loOffset, tprelType kind, addend⟩, sym) ∈ sec.relocs

/-- `lui`, `add` of the thread pointer, and the low part in an addition or an access. -/
def LocalExec.address {info : LinkInfo} {sym : RelocSymbol} {addend : Vma}
    (le : LocalExec info sym addend) (tp : Word) : Word :=
  pairAddress tp le.kind.scale (le.contents.read32 le.hiOffset) (le.contents.read32 le.loOffset)

/-- A relocation that is performed is still in its place after the low parts are resolved. -/
theorem relocateSection_perform {info : LinkInfo} {sec : InputSection} {contents : ByteMemory}
    (h : relocateSection info sec = .ok contents) {rel : Rela} {sym : RelocSymbol}
    (hmem : (rel, sym) ∈ sec.relocs) {relocation : Vma}
    (haction : Action.of info sec rel sym = .perform relocation) (himm : rel.type.IsImm)
    {kind : ImmKind} (hkind : encodeReloc rel.type = encodeReloc kind.type) :
    kind.Accepts (rel.target relocation sec.secAddr).toNat ∧
      contents.read32 rel.offset = linkedWord kind (rel.target relocation sec.secAddr).toNat
        (sec.contents.read32 rel.offset) := by
  obtain ⟨s, hall, hresolve⟩ := relocateSection_ok h
  obtain ⟨t, t', hround, hbefore, hafter, _⟩ := relocateAll_split hall hmem
  have hsize : rel.type.bitsize / 8 = 4 := by rw [himm.bitsize_eq]
  rw [hsize] at hbefore hafter
  rw [relocateOne, haction] at hround
  obtain ⟨written, hperform, rfl⟩ := doRelocation_ok hround
  have haccepts : kind.Accepts (rel.target relocation sec.secAddr).toNat := by
    by_contra hnot
    have herror := performRelocation_imm_error relocation sec.secAddr t.contents hkind hnot
    rw [herror] at hperform
    cases hperform
  have hword := performRelocation_imm relocation sec.secAddr t.contents himm hkind haccepts
  obtain rfl := Except.ok.inj (hperform.symm.trans hword)
  -- no low part is for the same bytes
  have hsymm : Std.Symm fun a b : Rela × RelocSymbol => a.1.Apart b.1 :=
    ⟨fun _ _ => Rela.Apart.symm⟩
  have haway : ∀ r ∈ s.pcrel.loRelocs, rel.offset + 4 ≤ r.reloc.offset ∨
      r.reloc.offset + r.reloc.type.bitsize / 8 ≤ rel.offset := by
    intro r hr
    obtain ⟨q, hq, hlo, rfl⟩ := (mem_loRelocs hall).mp hr
    have hne : (rel, sym) ≠ q := by
      rintro rfl
      rw [haction] at hlo
      cases hlo
    have hapart := sec.apart.forall hmem hq hne
    unfold Rela.Apart at hapart
    dsimp only at hapart ⊢
    rw [hsize] at hapart
    omega
  refine ⟨haccepts, ?_⟩
  rw [(resolve_frame hresolve haway).read32, hafter.read32, ← hbefore.read32]
  exact read32_write32_self _ _ (linkedWord_lt _ _ _)

/-- What is done about a thread-pointer-relative relocation. -/
theorem action_tprel {info : LinkInfo} {sec : InputSection} {contents : ByteMemory}
    (h : relocateSection info sec = .ok contents) {rel : Rela} {sym : RelocSymbol}
    (hmem : (rel, sym) ∈ sec.relocs) (htls : ∀ e, sym.h = some e → e.isIfunc = false)
    (htype : rel.type = .hi16Tprel ∨ ∃ kind, rel.type = tprelType kind) :
    Action.of info sec rel sym = .perform (tpoff info sym.relocation) := by
  have hplain : Action.of info sec rel sym =
      if sym.unresolvedReloc ∧ ¬unresolvedAllowed sec sym then .error .notSupported
      else .perform (tpoff info sym.relocation) := by
    have hreloc : relocAction info sec rel sym =
        (.perform (tpoff info sym.relocation), sym.unresolvedReloc) := by
      rcases htype with htype | ⟨kind, htype⟩
      · rw [relocAction, htype]
      · cases kind <;> rw [relocAction, htype] <;> rfl
    unfold Action.of
    rw [hreloc]
    cases hsym : sym.h with
    | none => rfl
    | some e =>
      dsimp only
      rw [htls e hsym]
      rfl
  obtain ⟨s, hall, _⟩ := relocateSection_ok h
  obtain ⟨t, t', hround, _⟩ := relocateAll_split hall hmem
  rw [relocateOne, hplain] at hround
  rw [hplain]
  by_cases hbad : sym.unresolvedReloc ∧ ¬unresolvedAllowed sec sym
  · rw [if_pos hbad] at hround
    cases hround
  · exact if_neg hbad

theorem tprelType_isImm (kind : LowKind) : (tprelType kind).IsImm := by
  cases kind <;> exact ⟨rfl, rfl⟩

theorem encodeReloc_tprelType (kind : LowKind) :
    encodeReloc (tprelType kind) = encodeReloc kind.imm.type := by
  cases kind <;> rfl

theorem target_tprelType (kind : LowKind) (position : Nat) (addend value secAddr : Vma) :
    Rela.target ⟨position, tprelType kind, addend⟩ value secAddr = value + addend := by
  cases kind <;> rfl

/-- Local-exec reaches the symbol plus addend. -/
theorem LocalExec.address_eq {info : LinkInfo} {sym : RelocSymbol} {addend : Vma}
    (le : LocalExec info sym addend) (htls : ∀ e, sym.h = some e → e.isIfunc = false)
    (tp : Word) :
    le.address tp = tp + (tpoff info sym.relocation + addend).setWidth 32 := by
  have hhi := action_tprel le.linked le.hi_mem htls (.inl rfl)
  have hlo := action_tprel le.linked le.lo_mem htls (.inr ⟨le.kind, rfl⟩)
  obtain ⟨_, hhiWord⟩ := relocateSection_perform le.linked le.hi_mem hhi ⟨rfl, rfl⟩
    (show encodeReloc .hi16Tprel = encodeReloc ImmKind.hi16.type from rfl)
  obtain ⟨haccepts, hloWord⟩ := relocateSection_perform le.linked le.lo_mem hlo
    (tprelType_isImm le.kind) (encodeReloc_tprelType le.kind)
  rw [target_tprelType] at haccepts hloWord
  rw [le.kind.accepts_iff] at haccepts
  have hhigh : le.contents.read32 le.hiOffset / 65536 =
      (tpoff info sym.relocation + addend).toNat / 65536 % 65536 := by
    rw [hhiWord, linkedWord_div]
    rfl
  have hlow : le.contents.read32 le.loOffset / 65536 * 2 ^ le.kind.scale =
      (tpoff info sym.relocation + addend).toNat % 65536 := by
    rw [hloWord, linkedWord_div, le.kind.field_eq]
    apply Nat.div_mul_cancel
    exact (Nat.dvd_mod_iff le.kind.scale_dvd).mpr haccepts
  rw [address, pairAddress_eq tp le.kind.scale _ hhigh, hlow]
  exact congrArg (tp + ·) (highHalf_add_lowHalf _)

/-! ## Through the GOT -/

/-- A high part that refers to the slots of the symbol, and its low part. Instructions and the GOT
are made of words. -/
structure SlotAccess (info : LinkInfo) (sym : RelocSymbol) (type : RelocType) (addend : Vma) where
  sec : InputSection
  contents : ByteMemory
  linked : relocateSection info sec = .ok contents
  pair : PcrelPair sec
  type_eq : pair.hi.1.type = type
  addend_eq : pair.hi.1.addend = addend
  sym_eq : pair.hi.2 = sym
  lo_addend : pair.lo.1.addend = 0
  pc_aligned : 4 ∣ (sec.pc pair.hi.1).toNat

/-- What the pair computes in an object that is loaded at `lAddr`. -/
def SlotAccess.address {info : LinkInfo} {sym : RelocSymbol} {type : RelocType} {addend : Vma}
    (access : SlotAccess info sym type addend) (lAddr : Word) : Word :=
  pairAddress ((access.sec.pc access.pair.hi.1).setWidth 32 + lAddr) access.pair.kind.scale
    (access.contents.read32 access.pair.hi.1.offset)
    (access.contents.read32 access.pair.lo.1.offset)

/-- The slots that a high part refers to. -/
def slotOf (info : LinkInfo) (sym : RelocSymbol) (type : RelocType) : Vma :=
  gotSlot info sym (decide (type = .hi16TlsGot))

/-- The addend goes into the high half only. -/
theorem SlotAccess.address_eq {info : LinkInfo} {sym : RelocSymbol} {type : RelocType}
    {addend : Vma} (access : SlotAccess info sym type addend)
    (htype : type = .hi16TlsGot ∨ type = .hi16TlsGd)
    (htls : ∀ e, sym.h = some e → e.isIfunc = false)
    (haligned : 4 ∣ (slotOf info sym type).toNat) (lAddr : Word) :
    ∃ offset : Vma, offset = slotOf info sym type - access.sec.pc access.pair.hi.1 ∧
      access.address lAddr = (access.sec.pc access.pair.hi.1).setWidth 32 + lAddr +
        (highHalf (offset + addend) + lowHalf offset) := by
  refine ⟨_, rfl, ?_⟩
  have hplain : ifuncOf access.sec access.pair.hi.2 = none := by
    rw [access.sym_eq, ifuncOf]
    cases hsym : sym.h with
    | none => rfl
    | some e =>
      dsimp only
      rw [htls e hsym]
      rfl
  have hoffset : access.pair.hiOffset info =
      slotOf info sym type - access.sec.pc access.pair.hi.1 := by
    rw [PcrelPair.hiOffset, hiAddress, hplain, access.type_eq, access.sym_eq]
    rcases htype with rfl | rfl <;> rfl
  have hrecorded : recordedAddend access.sec access.pair.hi.1 access.pair.hi.2 = 0 := by
    rw [recordedAddend, hplain, access.type_eq]
    rcases htype with rfl | rfl <;> rfl
  have hlo : access.pair.loOffset info =
      slotOf info sym type - access.sec.pc access.pair.hi.1 := by
    rw [PcrelPair.loOffset, hrecorded, access.lo_addend, hoffset, add_zero, add_zero]
  have hdvd : 2 ^ access.pair.kind.scale ∣ (access.pair.loOffset info).toNat := by
    have hfour : 2 ^ access.pair.kind.scale ∣ 4 := by cases access.pair.kind <;> decide
    have hpc := access.pc_aligned
    refine dvd_trans hfour ?_
    rw [hlo, BitVec.toNat_sub]
    omega
  rw [address, access.pair.address_eq (access.pair.linked access.linked) hdvd, hlo, hoffset,
    access.addend_eq]

theorem highHalf_congr {x y : Vma} (h : x.setWidth 32 = y.setWidth 32) :
    highHalf x = highHalf y := by
  rw [← BitVec.toNat_inj, BitVec.toNat_setWidth, BitVec.toNat_setWidth] at h
  have hhigh : x.toNat / 65536 % 65536 = y.toNat / 65536 % 65536 := by omega
  rw [highHalf, highHalf, hhigh]

/-- The high halves of two offsets are a multiple of 65536 apart. -/
theorem dvd_highHalf_sub (x y : Vma) : 65536 ∣ (highHalf x - highHalf y).toNat := by
  have hdvd (v : Vma) : 65536 ∣ (highHalf v).toNat := by
    rw [highHalf, BitVec.toNat_ofNat]
    omega
  have hx := hdvd x
  have hy := hdvd y
  rw [BitVec.toNat_sub]
  omega

theorem setWidth_add (x y : Vma) : (x + y).setWidth 32 = x.setWidth 32 + y.setWidth 32 :=
  BitVec.setWidth_add x y (by omega)

/-- How far the addend takes an access away from the slot. -/
theorem SlotAccess.exists_address {info : LinkInfo} {sym : RelocSymbol} {type : RelocType}
    {addend : Vma} (access : SlotAccess info sym type addend)
    (htype : type = .hi16TlsGot ∨ type = .hi16TlsGd)
    (htls : ∀ e, sym.h = some e → e.isIfunc = false)
    (haligned : 4 ∣ (slotOf info sym type).toNat) (lAddr : Word) :
    ∃ away : Word, access.address lAddr = (slotOf info sym type).setWidth 32 + lAddr + away ∧
      65536 ∣ away.toNat ∧ (addend.setWidth 32 = 0 → away = 0) := by
  obtain ⟨offset, hoffset, haddress⟩ := access.address_eq htype htls haligned lAddr
  refine ⟨highHalf (offset + addend) - highHalf offset, ?_, dvd_highHalf_sub _ _, fun hzero => ?_⟩
  · have hslot : (slotOf info sym type).setWidth 32 =
        (access.sec.pc access.pair.hi.1).setWidth 32 + offset.setWidth 32 := by
      rw [← setWidth_add, hoffset, add_sub_cancel]
    rw [haddress, hslot, ← highHalf_add_lowHalf offset]
    generalize highHalf (offset + addend) = high, highHalf offset = high', lowHalf offset = low,
      (access.sec.pc access.pair.hi.1).setWidth 32 = pc
    abel
  · have hsame : (offset + addend).setWidth 32 = offset.setWidth 32 := by
      rw [setWidth_add, hzero, add_zero]
    rw [highHalf_congr hsame, sub_self]

/-! ## The slots -/

/-- The references to one thread-local symbol plus addend in an executable. -/
structure TlsAccesses where
  info : LinkInfo
  tlsVma : Vma
  tlsSec_eq : info.tlsSec = some tlsVma
  sym : RelocSymbol
  dyn : DynSymbol
  addend : Vma
  /-- `STT_TLS`. -/
  tls : ∀ e, sym.h = some e → e.isIfunc = false
  /-- There is a general-dynamic reference. -/
  usesGd : sym.usesGd = true
  got_aligned : 4 ∣ (gotSlot info sym false).toNat
  localExec : LocalExec info sym addend
  initialExec : SlotAccess info sym .hi16TlsGot addend
  generalDynamic : SlotAccess info sym .hi16TlsGd addend

namespace TlsAccesses

variable (t : TlsAccesses) (p : Process t.tlsVma t.sym.relocation t.dyn.dynindx)

/-- The GOT that the linker makes of one with the contents `words`, after the loader. -/
def memory (words : Word → Word) : Word → Word :=
  loadGot p.map p.resolveMap (initTlsSlots t.info false true t.sym t.dyn ⟨words, []⟩)

/-- The three ways lead to the same address, whatever else is in the GOT. -/
def Agree : Prop :=
  ∀ words : Word → Word,
    let mem := t.memory p words
    let tlsIndex := t.generalDynamic.address p.map.lAddr
    t.localExec.address p.tp = p.tp + mem (t.initialExec.address p.map.lAddr) ∧
      t.localExec.address p.tp = p.tlsGetAddr (mem tlsIndex) (mem (tlsIndex + 4))

/-- The first slot of the symbol at run time. -/
def slot : Word := (gotSlot t.info t.sym false).setWidth 32 + p.map.lAddr

/-- Where the symbol is in its segment. -/
def symOffset : Word := (t.sym.relocation - t.tlsVma).setWidth 32

theorem dtpoff_eq : (dtpoff t.info t.sym.relocation).setWidth 32 = t.symOffset - tlsDtvOffset := by
  rw [dtpoff, t.tlsSec_eq]
  have hbias : (-dtpOffset).setWidth 32 = -tlsDtvOffset := by decide
  show (t.sym.relocation - t.tlsVma - dtpOffset).setWidth 32 = _
  rw [sub_eq_add_neg _ dtpOffset, setWidth_add, hbias, ← sub_eq_add_neg, symOffset]

theorem tpoff_eq : tpoff t.info t.sym.relocation = t.sym.relocation - t.tlsVma := by
  rw [tpoff, t.tlsSec_eq]
  show t.sym.relocation - t.tlsVma - tpOffset = _
  rw [tpOffset, sub_zero]

theorem gotSlot_ie : gotSlot t.info t.sym true = gotSlot t.info t.sym false + 8 := by
  rw [gotSlot, gotSlot, t.usesGd, if_pos ⟨rfl, rfl⟩, if_neg fun h => Bool.false_ne_true h.1,
    add_zero, tlsGdGotEntrySize]

/-- Where a word of the GOT is mapped. -/
theorem update_mapped (words : Word → Word) (lAddr x value a : Word) :
    Function.update words x value (a - lAddr) =
      if a = x + lAddr then value else words (a - lAddr) := by
  simp only [Function.update_apply, sub_eq_iff_eq_add]

/-- Filled by the linker or by the loader, the slots hold the module, the biased offset in it and
the offset from the thread pointer; the rest of the GOT is left alone. -/
theorem memory_eq (words : Word → Word) :
    t.memory p words = fun a =>
      if a = t.slot p + 8 then t.symOffset
      else if a = t.slot p + 4 then t.symOffset - tlsDtvOffset
      else if a = t.slot p then 1
      else words (a - p.map.lAddr) := by
  have hslot (n : Vma) : (gotSlot t.info t.sym false + n).setWidth 32 + p.map.lAddr =
      t.slot p + n.setWidth 32 := by
    rw [setWidth_add, slot, add_right_comm]
  have hgd := t.dtpoff_eq
  have hie : (tpoff t.info t.sym.relocation).setWidth 32 = t.symOffset := by
    rw [t.tpoff_eq, symOffset]
  have hneed := @indx_ne_zero_of_needRelocs t.sym.h t.dyn
  have hdynindx := @indx_eq_dynindx false t.sym.h t.dyn
  have hresolve := p.resolveMap_eq
  unfold memory initTlsSlots
  generalize tlsGdIeNeedDynReloc false t.sym.h t.dyn = decision at hneed hdynindx ⊢
  obtain ⟨indx, needRelocs⟩ := decision
  funext a
  cases needRelocs with
  | false =>
    simp only [loadGot, initGd, initIe, Got.put32, t.usesGd, t.gotSlot_ie, Bool.false_eq_true,
      if_true, if_false, List.foldl_nil, update_mapped, hslot, hgd, hie]
    rfl
  | true =>
    have hne : indx ≠ 0 := hneed rfl
    obtain rfl : indx = t.dyn.dynindx := hdynindx hne
    have hslot' (n : Vma) : p.map.lAddr + (gotSlot t.info t.sym false + n).setWidth 32 =
        t.slot p + n.setWidth 32 := by rw [add_comm, hslot]
    have hbase : (gotSlot t.info t.sym false).setWidth 32 + p.map.lAddr = t.slot p := rfl
    have hbase' : p.map.lAddr + (gotSlot t.info t.sym false).setWidth 32 = t.slot p :=
      add_comm _ _
    have hdtprel : tlsDtprelValue t.symOffset + (0 : Vma).setWidth 32 =
        t.symOffset - tlsDtvOffset := add_zero _
    have htprel : tlsTprelValue p.map t.symOffset + (0 : Vma).setWidth 32 = t.symOffset := by
      rw [tlsTprelValue, p.lTlsOffset_eq, tlsTpOffset, zero_add, sub_zero]
      exact add_zero _
    rw [← symOffset] at hresolve
    simp only [loadGot, initGd, initIe, Got.put32, Got.appendRela, t.usesGd, t.gotSlot_ie, if_true,
      hne, if_false, List.nil_append, List.cons_append, List.foldl_cons, List.foldl_nil,
      elfMachineTlsRela, hresolve, p.lTlsModid_eq, hdtprel, htprel, Function.update_apply,
      sub_eq_iff_eq_add, hslot, hslot', hbase, hbase']
    -- the zeros that the linker has put there are all replaced
    split_ifs <;> first | rfl | contradiction

/-- Where the initial-exec access is, with what the addend adds to it. -/
theorem exists_initialExec :
    ∃ away : Word, t.initialExec.address p.map.lAddr = t.slot p + 8 + away ∧
      65536 ∣ away.toNat ∧ (t.addend.setWidth 32 = 0 → away = 0) := by
  have haligned : 4 ∣ (slotOf t.info t.sym .hi16TlsGot).toNat := by
    have hgot := t.got_aligned
    show 4 ∣ (gotSlot t.info t.sym true).toNat
    rw [t.gotSlot_ie, BitVec.toNat_add]
    show 4 ∣ (_ + 8) % _
    omega
  obtain ⟨away, haddress, hdvd, hzero⟩ :=
    t.initialExec.exists_address (.inl rfl) t.tls haligned p.map.lAddr
  refine ⟨away, ?_, hdvd, hzero⟩
  rw [haddress]
  show (gotSlot t.info t.sym true).setWidth 32 + p.map.lAddr + away = _
  rw [t.gotSlot_ie, setWidth_add, slot, add_right_comm _ _ p.map.lAddr]
  rfl

/-- The `tls_index` of the general-dynamic access when there is nothing to add. -/
theorem generalDynamic_address (h : t.addend.setWidth 32 = 0) :
    t.generalDynamic.address p.map.lAddr = t.slot p := by
  obtain ⟨away, haddress, _, hzero⟩ :=
    t.generalDynamic.exists_address (.inr rfl) t.tls t.got_aligned p.map.lAddr
  rw [haddress, hzero h]
  exact add_zero _

theorem localExec_address :
    t.localExec.address p.tp = p.tp + (t.symOffset + t.addend.setWidth 32) := by
  rw [t.localExec.address_eq t.tls, t.tpoff_eq, setWidth_add, symOffset]

/-- An access that the addend takes away from the slot finds something else. -/
theorem addend_eq_zero_of_agree (h : t.Agree p) : t.addend.setWidth 32 = 0 := by
  obtain ⟨away, haddress, hdvd, _⟩ := t.exists_initialExec p
  -- a GOT with a wrong value wherever there is no slot of the symbol
  have hagree := (h fun _ => t.symOffset + t.addend.setWidth 32 + 1).1
  rw [t.localExec_address, haddress, add_right_inj, memory_eq] at hagree
  dsimp only at hagree
  split at hagree
  next => exact add_eq_left.1 hagree
  next hne =>
    rw [add_assoc] at hagree
    split at hagree
    next h4 =>
      obtain rfl : away = 4 - 8 := eq_sub_of_add_eq' (add_left_cancel h4)
      exact absurd hdvd (by decide)
    next =>
      split at hagree
      next h0 =>
        obtain rfl : away = 0 - 8 := eq_sub_of_add_eq' (add_eq_left.1 h0)
        exact absurd hdvd (by decide)
      next => exact absurd (left_eq_add.1 hagree) (by decide)

theorem agree_of_addend_eq_zero (h : t.addend.setWidth 32 = 0) : t.Agree p := by
  intro words
  obtain ⟨away, haddress, _, hzero⟩ := t.exists_initialExec p
  have hindex := t.generalDynamic_address p h
  have hle : t.localExec.address p.tp = p.tp + t.symOffset := by
    rw [t.localExec_address, h, add_zero]
  rw [hzero h, add_zero] at haddress
  have h4 : ¬(t.slot p + 4 = t.slot p + 8) := fun heq => absurd (add_left_cancel heq) (by decide)
  have h0 : ¬(t.slot p = t.slot p + 8) := fun heq => absurd (left_eq_add.1 heq) (by decide)
  have h0' : ¬(t.slot p = t.slot p + 4) := fun heq => absurd (left_eq_add.1 heq) (by decide)
  dsimp only
  rw [hle, haddress, hindex, memory_eq]
  dsimp only
  rw [if_pos rfl, if_neg h4, if_pos rfl, if_neg h0, if_neg h0', if_pos rfl, p.tlsGetAddr_eq,
    ← p.lTlsModid_eq, p.dtv_eq, p.lTlsOffset_eq, add_zero, add_assoc, sub_add_cancel]
  exact ⟨rfl, rfl⟩

end TlsAccesses

/-- The three models agree exactly when there is no addend. -/
theorem tlsModels_agree_iff (t : TlsAccesses) (p : Process t.tlsVma t.sym.relocation t.dyn.dynindx) :
    t.Agree p ↔ t.addend.setWidth 32 = 0 :=
  ⟨t.addend_eq_zero_of_agree p, t.agree_of_addend_eq_zero p⟩

/-! ## An addend -/

/-- A static executable with a TLS segment at 65536 and a GOT at 131072. -/
def demoInfo : LinkInfo := ⟨false, none, 0, some 131072, 0, 0, some 65536⟩

/-- A local thread-local symbol at the start of the segment. -/
def demoSym : RelocSymbol := ⟨65536, false, false, none, 0, true, false, false⟩

/-- A label in the section. -/
def demoLabel (position : Vma) : RelocSymbol :=
  ⟨position, false, false, none, noOffset, false, false, false⟩

/-- The three ways to the symbol plus 4. -/
def demoSection : InputSection where
  secAddr := 0
  contents := fun _ => 0
  alloc := true
  readonly := true
  debugging := false
  note := false
  relocs := [(⟨0, .hi16Tprel, 4⟩, demoSym), (⟨4, .lo16Tprel, 4⟩, demoSym),
    (⟨8, .hi16TlsGot, 4⟩, demoSym), (⟨12, .lo16_2Pcrel, 0⟩, demoLabel 8),
    (⟨16, .hi16TlsGd, 4⟩, demoSym), (⟨20, .lo16Pcrel, 0⟩, demoLabel 16)]
  small := by decide
  apart := by
    unfold Rela.Apart
    decide

def demoContents : ByteMemory :=
  match relocateSection demoInfo demoSection with
  | .ok contents => contents
  | .error _ => fun _ => 0

theorem demoSection_linked : relocateSection demoInfo demoSection = .ok demoContents := rfl

def demoAccesses : TlsAccesses where
  info := demoInfo
  tlsVma := 65536
  tlsSec_eq := rfl
  sym := demoSym
  dyn := ⟨-1, false⟩
  addend := 4
  tls := fun _ h => nomatch h
  usesGd := rfl
  got_aligned := by decide
  localExec :=
    { sec := demoSection
      contents := demoContents
      linked := demoSection_linked
      kind := .plain
      hiOffset := 0
      loOffset := 4
      hi_mem := .head _
      lo_mem := .tail _ (.head _) }
  initialExec :=
    { sec := demoSection
      contents := demoContents
      linked := demoSection_linked
      pair :=
        { hi := (⟨8, .hi16TlsGot, 4⟩, demoSym)
          lo := (⟨12, .lo16_2Pcrel, 0⟩, demoLabel 8)
          kind := .scaled2
          hi_mem := .tail _ (.tail _ (.head _))
          lo_mem := .tail _ (.tail _ (.tail _ (.head _)))
          isPcrelHi := .tlsGot
          lo_type := rfl
          label_eq := rfl
          loaded := .inl rfl }
      type_eq := rfl
      addend_eq := rfl
      sym_eq := rfl
      lo_addend := rfl
      pc_aligned := by decide }
  generalDynamic :=
    { sec := demoSection
      contents := demoContents
      linked := demoSection_linked
      pair :=
        { hi := (⟨16, .hi16TlsGd, 4⟩, demoSym)
          lo := (⟨20, .lo16Pcrel, 0⟩, demoLabel 16)
          kind := .plain
          hi_mem := .tail _ (.tail _ (.tail _ (.tail _ (.head _))))
          lo_mem := .tail _ (.tail _ (.tail _ (.tail _ (.tail _ (.head _)))))
          isPcrelHi := .tlsGd
          lo_type := rfl
          label_eq := rfl
          loaded := .inl rfl }
      type_eq := rfl
      addend_eq := rfl
      sym_eq := rfl
      lo_addend := rfl
      pc_aligned := by decide }

/-- A thread whose static TLS block is at 4096. -/
def demoProcess : Process demoAccesses.tlsVma demoAccesses.sym.relocation demoAccesses.dyn.dynindx
    where
  map := ⟨0, 0, 1⟩
  resolveMap := fun _ => some (⟨0, 0, 1⟩, (65536 - 65536 : Vma).setWidth 32)
  tp := 4096
  dtv := fun _ => 4096
  tlsGetAddr := fun _ tiOffset => 4096 + tiOffset + tlsDtvOffset
  align := 4
  segment_aligned := by decide
  lTlsOffset_ge := by decide
  lTlsOffset_congr := by decide
  lTlsOffset_least := fun offset _ _ => Nat.zero_le offset
  lTlsModid_eq := rfl
  dtv_eq := by decide
  tlsGetAddr_eq := fun _ _ => rfl
  resolveMap_eq := rfl

/-- Local-exec reaches the second word of the segment, and the others the first. -/
theorem demoAccesses_disagree : ¬demoAccesses.Agree demoProcess := by
  intro h
  have hzero : demoAccesses.addend.setWidth 32 = 0 :=
    demoAccesses.addend_eq_zero_of_agree demoProcess h
  exact absurd hzero (by decide)

end XrLinux.Glibc
