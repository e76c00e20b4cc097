import XrLinux.Lib.ByteMemory
import XrLinux.Binutils.Imm

/-!
# Binutils — static relocations

The relocation types of `elf/xr17032.h`, the columns of `howto_table` that matter to a relocation
that the linker performs itself, and `perform_relocation`.
-/

namespace XrLinux.Binutils

open ByteMemory

/-- `R_XR17032_*`. The assembler knows the same types as `BFD_RELOC_XR17032_*`. -/
inductive RelocType where
  | none
  | r32
  | relative
  | irelative
  | jumpSlot
  | copy
  | tlsTprel
  | tlsDtpmod
  | tlsDtprel
  | r8
  | r16
  | r8Pcrel
  | r16Pcrel
  | r32Pcrel
  | jump
  | branch
  | imm16
  | imm16_1
  | imm16_2
  | imm16_16
  | imm16Signed
  | lo16
  | lo16_1
  | lo16_2
  | hi16
  | lo16Pcrel
  | lo16_1Pcrel
  | lo16_2Pcrel
  | hi16Pcrel
  | hi16Got
  | hi16Plt
  | hi16TlsGot
  | hi16TlsGd
  | lo16Tprel
  | lo16_1Tprel
  | lo16_2Tprel
  | hi16Tprel
  deriving DecidableEq

namespace RelocType

/-- `howto->pc_relative`. -/
def pcRelative : RelocType → Bool
  | r8Pcrel | r16Pcrel | r32Pcrel | branch => true
  | hi16Pcrel | hi16Got | hi16Plt | hi16TlsGot | hi16TlsGd => true
  | _ => false

/-- `howto->bitsize`. -/
def bitsize : RelocType → Nat
  | none | copy => 0
  | jumpSlot => 64
  | r8 | r8Pcrel => 8
  | r16 | r16Pcrel => 16
  | _ => 32

/-- `howto->dst_mask`. -/
def dstMask : RelocType → Vma
  | none | jumpSlot | copy => 0
  | r8 | r8Pcrel => 0xff
  | r16 | r16Pcrel => 0xffff
  | jump => 0xfffffff8
  | branch => 0xfffff800
  | imm16 | imm16_1 | imm16_2 | imm16_16 | imm16Signed => 0xffff0000
  | lo16 | lo16_1 | lo16_2 | hi16 => 0xffff0000
  | lo16Pcrel | lo16_1Pcrel | lo16_2Pcrel => 0xffff0000
  | hi16Pcrel | hi16Got | hi16Plt | hi16TlsGot | hi16TlsGd => 0xffff0000
  | lo16Tprel | lo16_1Tprel | lo16_2Tprel | hi16Tprel => 0xffff0000
  | _ => 0xffffffff

end RelocType

/-- `bfd_reloc_status_type`, other than `bfd_reloc_ok`. -/
inductive RelocError where
  | overflow
  | notSupported
  | dangerous
  deriving DecidableEq

/-- `bfd_get`. -/
def bfdGet (bits : Nat) (contents : ByteMemory) (offset : Nat) : Vma :=
  match bits with
  | 8 => (contents offset).setWidth 64
  | 16 => BitVec.ofNat 64 (contents.read16 offset)
  | 32 => BitVec.ofNat 64 (contents.read32 offset)
  | _ => 0

/-- `bfd_put`. -/
def bfdPut (bits : Nat) (contents : ByteMemory) (offset : Nat) (word : Vma) : ByteMemory :=
  match bits with
  | 8 => contents.write8 offset (word.setWidth 8)
  | 16 => contents.write16 offset word.toNat
  | 32 => contents.write32 offset word.toNat
  | _ => contents

/-- A check of `perform_relocation` and the encoding it admits. -/
def encodeIf (valid : Vma → Prop) [DecidablePred valid] (encode : Vma → Vma) (value : Vma) :
    Except RelocError Vma :=
  if valid value then .ok (encode value) else .error .overflow

instance : DecidablePred xrImmValidI := inferInstanceAs (DecidablePred (validImm 0))
instance : DecidablePred xrImmValidI1 := inferInstanceAs (DecidablePred (validImm 1))
instance : DecidablePred xrImmValidI2 := inferInstanceAs (DecidablePred (validImm 2))
instance : DecidablePred xrImmValidI16 := inferInstanceAs (DecidablePred (validImm 16))

/-- The switch of `perform_relocation`. -/
def encodeReloc (type : RelocType) (pc value : Vma) : Except RelocError Vma :=
  match type with
  | .r32 | .tlsDtprel | .r8 | .r16 | .r8Pcrel | .r16Pcrel | .r32Pcrel => .ok value
  | .jump => encodeIf (xrImmValidJ · pc) xrImmEncodeJ value
  | .branch => encodeIf xrImmValidB xrImmEncodeB value
  | .imm16 => encodeIf xrImmValidI xrImmEncodeI value
  | .imm16_1 => encodeIf xrImmValidI1 xrImmEncodeI1 value
  | .imm16_2 => encodeIf xrImmValidI2 xrImmEncodeI2 value
  | .imm16_16 => encodeIf xrImmValidI16 xrImmEncodeI16 value
  | .imm16Signed => encodeIf xrImmValidIS xrImmEncodeIS value
  | .lo16 | .lo16Tprel | .lo16Pcrel => encodeIf xrImmValidI xrImmEncodeI (xrImmLowPart value)
  | .lo16_1 | .lo16_1Tprel | .lo16_1Pcrel =>
    encodeIf xrImmValidI1 xrImmEncodeI1 (xrImmLowPart value)
  | .lo16_2 | .lo16_2Tprel | .lo16_2Pcrel =>
    encodeIf xrImmValidI2 xrImmEncodeI2 (xrImmLowPart value)
  | .hi16 | .hi16Pcrel | .hi16Got | .hi16Plt | .hi16TlsGot | .hi16TlsGd | .hi16Tprel =>
    encodeIf xrImmValidI16 xrImmEncodeI16 (xrImmHighPart value)
  | .none | .relative | .irelative | .jumpSlot | .copy | .tlsTprel | .tlsDtpmod =>
    .error .notSupported

/-- `Elf_Internal_Rela`, with its type and without its symbol. -/
structure Rela where
  offset : Nat
  type : RelocType
  addend : Vma
  deriving DecidableEq

/-- `perform_relocation`, in a section that is loaded at `secAddr`. -/
def performRelocation (rel : Rela) (value secAddr : Vma) (contents : ByteMemory) :
    Except RelocError ByteMemory := do
  let pc := secAddr + BitVec.ofNat 64 rel.offset
  let value := if rel.type.pcRelative then value - pc else value
  let value := value + rel.addend
  let value ← encodeReloc rel.type pc value
  let word := bfdGet rel.type.bitsize contents rel.offset
  let word := word &&& ~~~rel.type.dstMask ||| value &&& rel.type.dstMask
  return bfdPut rel.type.bitsize contents rel.offset word

/-- The value that `perform_relocation` encodes. -/
def Rela.target (rel : Rela) (value secAddr : Vma) : Vma :=
  (if rel.type.pcRelative then value - (secAddr + BitVec.ofNat 64 rel.offset) else value) +
    rel.addend

/-- The word at the relocation with an encoded value in its field. -/
def Rela.merge (rel : Rela) (contents : ByteMemory) (value : Vma) : Vma :=
  bfdGet rel.type.bitsize contents rel.offset &&& ~~~rel.type.dstMask ||| value &&& rel.type.dstMask

theorem performRelocation_eq (rel : Rela) (value secAddr : Vma) (contents : ByteMemory) :
    performRelocation rel value secAddr contents =
      (encodeReloc rel.type (secAddr + BitVec.ofNat 64 rel.offset) (rel.target value secAddr)).map
        fun value => bfdPut rel.type.bitsize contents rel.offset (rel.merge contents value) := by
  rw [performRelocation]
  show (encodeReloc rel.type _ (rel.target value secAddr) >>= _) = _
  cases encodeReloc rel.type (secAddr + BitVec.ofNat 64 rel.offset) (rel.target value secAddr) with
  | error e => rfl
  | ok e => rfl

theorem sameOn_bfdPut (contents : ByteMemory) {bits offset b len : Nat} (word : Vma)
    (h : b + len ≤ offset ∨ offset + bits / 8 ≤ b) :
    SameOn contents (bfdPut bits contents offset word) b len := by
  unfold bfdPut
  split
  · exact sameOn_write8 _ _ (by omega)
  · exact sameOn_write16 _ _ (by omega)
  · exact sameOn_write32 _ _ (by omega)
  · exact SameOn.refl _ _ _

/-- Only the bytes that the relocation is for change. -/
theorem sameOn_performRelocation {rel : Rela} {value secAddr : Vma} {contents contents' : ByteMemory}
    (h : performRelocation rel value secAddr contents = .ok contents') {b len : Nat}
    (hb : b + len ≤ rel.offset ∨ rel.offset + rel.type.bitsize / 8 ≤ b) :
    SameOn contents contents' b len := by
  rw [performRelocation_eq] at h
  cases hencode : encodeReloc rel.type (secAddr + BitVec.ofNat 64 rel.offset)
      (rel.target value secAddr) with
  | error e =>
    rw [hencode] at h
    cases h
  | ok e =>
    rw [hencode] at h
    cases h
    exact sameOn_bfdPut contents _ hb

/-- Whether there is an error does not depend on what is in the section. -/
theorem performRelocation_error_congr {rel : Rela} {value secAddr : Vma} {e : RelocError}
    (contents contents' : ByteMemory)
    (h : performRelocation rel value secAddr contents = .error e) :
    performRelocation rel value secAddr contents' = .error e := by
  rw [performRelocation_eq] at h ⊢
  cases hencode : encodeReloc rel.type (secAddr + BitVec.ofNat 64 rel.offset)
      (rel.target value secAddr) with
  | error e' =>
    rw [hencode] at h
    exact h
  | ok e' =>
    rw [hencode] at h
    cases h

/-! ## Immediate fields -/

/-- The upper half of a word is the field of every immediate relocation. -/
structure RelocType.IsImm (type : RelocType) : Prop where
  bitsize_eq : type.bitsize = 32
  dstMask_eq : type.dstMask = 0xffff0000

/-- Only the field of the word changes. -/
theorem merge_toNat {w f : Nat} {value : Vma} (hw : w < 4294967296) (hf : f < 65536)
    (hvalue : value.toNat = f * 65536) :
    (BitVec.ofNat 64 w &&& ~~~(0xffff0000 : Vma) ||| value &&& 0xffff0000).toNat =
      w % 65536 + f * 65536 := by
  have hlow : (BitVec.ofNat 64 w &&& ~~~(0xffff0000 : Vma)).toNat = w % 65536 := by
    have hfits : BitVec.ofNat 64 w &&& (0xffffffff : Vma) = BitVec.ofNat 64 w := by
      rw [← BitVec.toNat_inj, BitVec.toNat_and, BitVec.toNat_ofNat, Nat.mod_eq_of_lt (by omega)]
      exact (Nat.and_two_pow_sub_one_eq_mod w 32).trans (Nat.mod_eq_of_lt hw)
    have hmask : BitVec.ofNat 64 w &&& ~~~(0xffff0000 : Vma) = xrImmLowPart (BitVec.ofNat 64 w) := by
      rw [← hfits, BitVec.and_assoc, hfits]
      rfl
    rw [hmask, xrImmLowPart_toNat, BitVec.toNat_ofNat]
    omega
  have hhigh : value &&& 0xffff0000 = value := by
    rw [← BitVec.toNat_inj]
    show (xrImmHighPart value).toNat = _
    rw [xrImmHighPart_toNat, hvalue]
    omega
  rw [hhigh, BitVec.toNat_or, hlow, hvalue, Nat.or_comm, ← Nat.shiftLeft_eq f 16,
    ← Nat.shiftLeft_add_eq_or_of_lt (show w % 65536 < 2 ^ 16 by omega), Nat.shiftLeft_eq]
  omega

/-- The immediates of a constant. -/
inductive ImmKind where
  | imm16
  | imm16_1
  | imm16_2
  | imm16_16
  | imm16Signed
  | lo16
  | lo16_1
  | lo16_2
  | hi16
  deriving DecidableEq

namespace ImmKind

def type : ImmKind → RelocType
  | imm16 => .imm16
  | imm16_1 => .imm16_1
  | imm16_2 => .imm16_2
  | imm16_16 => .imm16_16
  | imm16Signed => .imm16Signed
  | lo16 => .lo16
  | lo16_1 => .lo16_1
  | lo16_2 => .lo16_2
  | hi16 => .hi16

/-- The values that the immediate can hold, or whose part it can hold. -/
def Accepts (kind : ImmKind) (value : Nat) : Prop :=
  match kind with
  | imm16 => value < 65536
  | imm16_1 => value < 65536 * 2 ∧ 2 ∣ value
  | imm16_2 => value < 65536 * 4 ∧ 4 ∣ value
  | imm16_16 => value < 65536 * 65536 ∧ 65536 ∣ value
  | imm16Signed => value < 32768 ∨ 2 ^ 64 - 32768 ≤ value
  | lo16 => True
  | lo16_1 => 2 ∣ value
  | lo16_2 => 4 ∣ value
  | hi16 => True

instance (kind : ImmKind) (value : Nat) : Decidable (kind.Accepts value) := by
  cases kind <;> unfold Accepts <;> infer_instance

/-- The field for a value. -/
def field (kind : ImmKind) (value : Nat) : Nat :=
  match kind with
  | imm16 | imm16Signed | lo16 => value % 65536
  | imm16_1 => value / 2 % 65536
  | imm16_2 => value / 4 % 65536
  | imm16_16 | hi16 => value / 65536 % 65536
  | lo16_1 => value % 65536 / 2
  | lo16_2 => value % 65536 / 4

theorem field_lt (kind : ImmKind) (value : Nat) : kind.field value < 65536 := by
  cases kind <;> simp only [field] <;> omega

theorem isImm (kind : ImmKind) : kind.type.IsImm := by
  cases kind <;> exact ⟨rfl, rfl⟩

theorem not_pcRelative (kind : ImmKind) : kind.type.pcRelative = false := by
  cases kind <;> rfl

end ImmKind

theorem encodeIf_of (valid : Vma → Prop) [DecidablePred valid] (encode : Vma → Vma) {value : Vma}
    {accepts : Prop} {f : Nat} (hvalid : valid value ↔ accepts)
    (hencode : (encode value).toNat = f * 65536) :
    (accepts → ∃ e, encodeIf valid encode value = .ok e ∧ e.toNat = f * 65536) ∧
      (¬ accepts → encodeIf valid encode value = .error .overflow) := by
  constructor
  · intro h
    exact ⟨encode value, if_pos (hvalid.mpr h), hencode⟩
  · intro h
    exact if_neg (mt hvalid.mp h)

/-- The linker encodes what the immediate can hold. -/
theorem encodeReloc_imm (kind : ImmKind) (pc value : Vma) :
    (kind.Accepts value.toNat →
      ∃ e, encodeReloc kind.type pc value = .ok e ∧ e.toNat = kind.field value.toNat * 65536) ∧
    (¬ kind.Accepts value.toNat → encodeReloc kind.type pc value = .error .overflow) := by
  have hvalue := value.isLt
  cases kind with
  | imm16 =>
    apply encodeIf_of xrImmValidI xrImmEncodeI
    · rw [xrImmValidI, validImm_iff (by omega)]
      simp only [ImmKind.Accepts]
      omega
    · rw [xrImmEncodeI, encodeImm_toNat, Nat.pow_zero, Nat.div_one]
      rfl
  | imm16_1 =>
    apply encodeIf_of xrImmValidI1 xrImmEncodeI1
    · exact validImm_iff (by omega) value
    · exact encodeImm_toNat 1 value
  | imm16_2 =>
    apply encodeIf_of xrImmValidI2 xrImmEncodeI2
    · exact validImm_iff (by omega) value
    · exact encodeImm_toNat 2 value
  | imm16_16 =>
    apply encodeIf_of xrImmValidI16 xrImmEncodeI16
    · exact validImm_iff (by omega) value
    · exact encodeImm_toNat 16 value
  | imm16Signed =>
    apply encodeIf_of xrImmValidIS xrImmEncodeIS
    · exact xrImmValidIS_iff value
    · rw [xrImmEncodeIS, xrImmEncodeI, encodeImm_toNat, Nat.pow_zero, Nat.div_one]
      rfl
  | lo16 =>
    apply encodeIf_of xrImmValidI xrImmEncodeI
    · rw [xrImmValidI, validImm_iff (by omega), xrImmLowPart_toNat]
      exact iff_of_true ⟨Nat.mod_lt _ (by omega), one_dvd _⟩ trivial
    · rw [xrImmEncodeI, encodeImm_toNat, xrImmLowPart_toNat, Nat.pow_zero, Nat.div_one]
      exact congrArg (· * 65536) (Nat.mod_mod _ _)
  | lo16_1 =>
    apply encodeIf_of xrImmValidI1 xrImmEncodeI1
    · rw [xrImmValidI1, validImm_iff (by omega), xrImmLowPart_toNat]
      simp only [ImmKind.Accepts]
      omega
    · rw [xrImmEncodeI1, encodeImm_toNat, xrImmLowPart_toNat]
      simp only [ImmKind.field]
      omega
  | lo16_2 =>
    apply encodeIf_of xrImmValidI2 xrImmEncodeI2
    · rw [xrImmValidI2, validImm_iff (by omega), xrImmLowPart_toNat]
      simp only [ImmKind.Accepts]
      omega
    · rw [xrImmEncodeI2, encodeImm_toNat, xrImmLowPart_toNat]
      simp only [ImmKind.field]
      omega
  | hi16 =>
    apply encodeIf_of xrImmValidI16 xrImmEncodeI16
    · exact iff_of_true (validImm_highPart value) trivial
    · rw [encodeImm_highPart]
      exact encodeImm_toNat 16 value

/-- The word that the linker makes of one with an immediate to fill in. -/
def linkedWord (kind : ImmKind) (value word : Nat) : Nat :=
  word % 65536 + kind.field value * 65536

theorem linkedWord_lt (kind : ImmKind) (value word : Nat) :
    linkedWord kind value word < 4294967296 := by
  have hfield := kind.field_lt value
  rw [linkedWord]
  omega

theorem linkedWord_div (kind : ImmKind) (value word : Nat) :
    linkedWord kind value word / 65536 = kind.field value := by
  rw [linkedWord]
  omega

section
variable {rel : Rela} {kind : ImmKind} (value secAddr : Vma) (contents : ByteMemory)
  (himm : rel.type.IsImm) (hkind : encodeReloc rel.type = encodeReloc kind.type)
include hkind

include himm in
/-- `perform_relocation` on a type that is encoded like an immediate of a constant. -/
theorem performRelocation_imm (h : kind.Accepts (rel.target value secAddr).toNat) :
    performRelocation rel value secAddr contents =
      .ok (contents.write32 rel.offset
        (linkedWord kind (rel.target value secAddr).toNat (contents.read32 rel.offset))) := by
  obtain ⟨e, hencode, he⟩ := (encodeReloc_imm kind (secAddr + BitVec.ofNat 64 rel.offset)
    (rel.target value secAddr)).1 h
  have hword := merge_toNat (contents.read32_lt rel.offset) (kind.field_lt _) he
  rw [performRelocation_eq, hkind, hencode]
  show Except.ok (bfdPut rel.type.bitsize contents rel.offset (rel.merge contents e)) = _
  rw [Rela.merge, himm.bitsize_eq, himm.dstMask_eq, linkedWord, ← hword]
  rfl

theorem performRelocation_imm_error (h : ¬ kind.Accepts (rel.target value secAddr).toNat) :
    performRelocation rel value secAddr contents = .error .overflow := by
  rw [performRelocation_eq, hkind, (encodeReloc_imm kind _ _).2 h]
  rfl

end

end XrLinux.Binutils
