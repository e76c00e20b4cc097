import Mathlib.Logic.Function.Basic
import Mathlib.Tactic.Abel
import XrLinux.Binutils.Reloc

/-!
# Binutils — pc-relative pairs in the linker

The low part of a pc-relative address names the instruction that has the high part. So while a
section is relocated the high parts are collected in a table and the low parts in a list, which is
gone through at the end.
-/

namespace XrLinux.Binutils

open ByteMemory

/-- `xr17032_pcrel_hi_reloc`. `value` is an offset from `address`. -/
structure PcrelHiReloc where
  address : Vma
  value : Vma
  type : RelocType
  deriving DecidableEq

/-- `xr17032_pcrel_lo_reloc`, without what is the same for a whole section. -/
structure PcrelLoReloc where
  address : Vma
  reloc : Rela
  deriving DecidableEq

/-- `xr17032_pcrel_relocs`. -/
structure PcrelRelocs where
  hiRelocs : Vma → Option PcrelHiReloc
  loRelocs : List PcrelLoReloc

/-- `xr17032_init_pcrel_relocs`. -/
def initPcrelRelocs : PcrelRelocs := { hiRelocs := fun _ => none, loRelocs := [] }

/-- `xr17032_record_pcrel_hi_reloc`. -/
def PcrelRelocs.recordHi (p : PcrelRelocs) (addr value : Vma) (type : RelocType) : PcrelRelocs :=
  { p with hiRelocs := Function.update p.hiRelocs addr (some ⟨addr, value - addr, type⟩) }

/-- `xr17032_record_pcrel_lo_reloc`. -/
def PcrelRelocs.recordLo (p : PcrelRelocs) (addr : Vma) (reloc : Rela) : PcrelRelocs :=
  { p with loRelocs := ⟨addr, reloc⟩ :: p.loRelocs }

/-- What `xr17032_resolve_pcrel_lo_relocs` reports. -/
inductive LoError where
  /-- `%pcrel_lo missing matching %pcrel_hi`. -/
  | missing
  /-- `%pcrel_lo with addend isn't allowed for R_XR17032_HI16_GOT`. -/
  | gotAddend
  /-- `%pcrel_lo overflow with an addend`. -/
  | overflow
  deriving DecidableEq

/-- The checks of `xr17032_resolve_pcrel_lo_relocs`, with the high part that a low part is for. -/
def findHi (hiRelocs : Vma → Option PcrelHiReloc) (r : PcrelLoReloc) :
    Except LoError PcrelHiReloc :=
  match hiRelocs r.address with
  | none => .error .missing
  | some entry =>
    if (entry.type = .hi16Got ∨ entry.type = .hi16Plt) ∧ r.reloc.addend ≠ 0 then .error .gotAddend
    else if xrImmHighPart entry.value ≠ xrImmHighPart (entry.value + r.reloc.addend) then
      .error .overflow
    else .ok entry

theorem findHi_ok {hiRelocs : Vma → Option PcrelHiReloc} {r : PcrelLoReloc} {entry : PcrelHiReloc}
    (h : findHi hiRelocs r = .ok entry) :
    hiRelocs r.address = some entry ∧
      (entry.type = .hi16Got ∨ entry.type = .hi16Plt → r.reloc.addend = 0) ∧
      xrImmHighPart entry.value = xrImmHighPart (entry.value + r.reloc.addend) := by
  unfold findHi at h
  split at h
  · cases h
  · next found hfound =>
    split at h
    · cases h
    · next haddend =>
      split at h
      · cases h
      · next hhigh =>
        obtain rfl := Except.ok.inj h
        exact ⟨hfound, fun htype => by_contra fun hne => haddend ⟨htype, hne⟩, not_not.mp hhigh⟩

/-- `xr17032_resolve_pcrel_lo_relocs`, which ends at the first error it finds. -/
def resolvePcrelLoRelocs (secAddr : Vma) (hiRelocs : Vma → Option PcrelHiReloc) :
    List PcrelLoReloc → ByteMemory → Option LoError × ByteMemory
  | [], contents => (none, contents)
  | r :: rest, contents =>
    match findHi hiRelocs r with
    | .error e => (some e, contents)
    | .ok entry =>
      match performRelocation r.reloc entry.value secAddr contents with
      | .ok contents => resolvePcrelLoRelocs secAddr hiRelocs rest contents
      -- What `perform_relocation` returns is not looked at.
      | .error _ => resolvePcrelLoRelocs secAddr hiRelocs rest contents

/-! ## The two halves -/

/-- The low parts, by what the instruction does with its immediate. -/
inductive LowKind where
  | plain
  | scaled1
  | scaled2
  deriving DecidableEq

namespace LowKind

def type : LowKind → RelocType
  | plain => .lo16Pcrel
  | scaled1 => .lo16_1Pcrel
  | scaled2 => .lo16_2Pcrel

def scale : LowKind → Nat
  | plain => 0
  | scaled1 => 1
  | scaled2 => 2

/-- The relocation of a constant that is encoded in the same way. -/
def imm : LowKind → ImmKind
  | plain => .lo16
  | scaled1 => .lo16_1
  | scaled2 => .lo16_2

theorem isImm (kind : LowKind) : kind.type.IsImm := by
  cases kind <;> exact ⟨rfl, rfl⟩

theorem encodeReloc_eq (kind : LowKind) : encodeReloc kind.type = encodeReloc kind.imm.type := by
  cases kind <;> rfl

theorem target_eq (kind : LowKind) (position : Nat) (addend value secAddr : Vma) :
    Rela.target ⟨position, kind.type, addend⟩ value secAddr = value + addend := by
  cases kind <;> rfl

theorem accepts_iff (kind : LowKind) (value : Nat) :
    kind.imm.Accepts value ↔ 2 ^ kind.scale ∣ value := by
  cases kind with
  | plain => exact iff_of_true trivial (one_dvd _)
  | scaled1 => exact Iff.rfl
  | scaled2 => exact Iff.rfl

theorem field_eq (kind : LowKind) (value : Nat) :
    kind.imm.field value = value % 65536 / 2 ^ kind.scale := by
  cases kind with
  | plain => exact (Nat.div_one _).symm
  | scaled1 => rfl
  | scaled2 => rfl

end LowKind

/-- A low part is put in its place if it is a multiple of what the instruction scales by. -/
theorem performRelocation_low (kind : LowKind) (position : Nat) (addend value secAddr : Vma)
    (contents : ByteMemory) (h : 2 ^ kind.scale ∣ (value + addend).toNat) :
    performRelocation ⟨position, kind.type, addend⟩ value secAddr contents =
      .ok (contents.write32 position
        (linkedWord kind.imm (value + addend).toNat (contents.read32 position))) := by
  have htarget := kind.target_eq position addend value secAddr
  rw [performRelocation_imm value secAddr contents kind.isImm kind.encodeReloc_eq
    (by rwa [htarget, kind.accepts_iff]), htarget]

theorem performRelocation_low_error (kind : LowKind) (position : Nat) (addend value secAddr : Vma)
    (contents : ByteMemory) (h : ¬ 2 ^ kind.scale ∣ (value + addend).toNat) :
    performRelocation ⟨position, kind.type, addend⟩ value secAddr contents = .error .overflow := by
  apply performRelocation_imm_error value secAddr contents kind.encodeReloc_eq
  rwa [kind.target_eq, kind.accepts_iff]

/-- The types whose pc-relative high part is collected. -/
inductive RelocType.IsPcrelHi : RelocType → Prop where
  | pcrel : IsPcrelHi .hi16Pcrel
  | got : IsPcrelHi .hi16Got
  | plt : IsPcrelHi .hi16Plt
  | tlsGot : IsPcrelHi .hi16TlsGot
  | tlsGd : IsPcrelHi .hi16TlsGd

theorem RelocType.IsPcrelHi.isImm {type : RelocType} (h : type.IsPcrelHi) : type.IsImm := by
  cases h <;> exact ⟨rfl, rfl⟩

theorem LowKind.scale_dvd (kind : LowKind) : 2 ^ kind.scale ∣ 65536 := by
  cases kind <;> decide

theorem LowKind.not_isPcrelHi (kind : LowKind) : ¬ kind.type.IsPcrelHi := by
  intro h
  cases kind <;> cases h

/-- A high part always finds its place. -/
theorem performRelocation_high {type : RelocType} (h : type.IsPcrelHi) (position : Nat)
    (addend value secAddr : Vma) (contents : ByteMemory) :
    performRelocation ⟨position, type, addend⟩ value secAddr contents =
      .ok (contents.write32 position
        (linkedWord .hi16 (value - (secAddr + BitVec.ofNat 64 position) + addend).toNat
          (contents.read32 position))) := by
  have hkind : encodeReloc type = encodeReloc ImmKind.hi16.type := by cases h <;> rfl
  have htarget : Rela.target ⟨position, type, addend⟩ value secAddr =
      value - (secAddr + BitVec.ofNat 64 position) + addend := by cases h <;> rfl
  have haccepts : ∀ v, ImmKind.hi16.Accepts v := fun _ => trivial
  rw [performRelocation_imm value secAddr contents h.isImm hkind (haccepts _), htarget]

/-! ## The address of a pair -/

/-- What the two instructions compute: `adr` adds its immediate, shifted by 16, to its own
address, and the other adds its immediate, scaled. -/
def pairAddress (pc : BitVec 32) (scale highWord lowWord : Nat) : BitVec 32 :=
  pc + BitVec.ofNat 32 (highWord / 65536 * 65536) + BitVec.ofNat 32 (lowWord / 65536 * 2 ^ scale)

/-- The two halves of a number, as far as it has 32 bits. -/
def highHalf (v : Vma) : BitVec 32 := BitVec.ofNat 32 (v.toNat / 65536 % 65536 * 65536)

def lowHalf (v : Vma) : BitVec 32 := BitVec.ofNat 32 (v.toNat % 65536)

theorem highHalf_add_lowHalf (v : Vma) : highHalf v + lowHalf v = v.setWidth 32 := by
  have hmod (n : Nat) : (n / 65536 % 65536 * 65536 + n % 65536) % 2 ^ 32 = n % 2 ^ 32 := by omega
  rw [highHalf, lowHalf, ← BitVec.ofNat_add, ← BitVec.ofNat_toNat, ← BitVec.toNat_inj,
    BitVec.toNat_ofNat, BitVec.toNat_ofNat, hmod]

theorem highHalf_inj {v x : Vma} :
    highHalf v = highHalf x ↔ xrImmHighPart v = xrImmHighPart x := by
  have hlt (n : Nat) : n / 65536 % 65536 * 65536 < 2 ^ 32 := by omega
  rw [highHalf, highHalf, ← BitVec.toNat_inj, ← BitVec.toNat_inj, BitVec.toNat_ofNat,
    BitVec.toNat_ofNat, xrImmHighPart_toNat, xrImmHighPart_toNat, Nat.mod_eq_of_lt (hlt _),
    Nat.mod_eq_of_lt (hlt _)]

theorem ofNat_eq_lowHalf {v : Vma} {n : Nat} (hn : n < 2 ^ 32) :
    BitVec.ofNat 32 n = lowHalf v ↔ n = v.toNat % 65536 := by
  have hlt : v.toNat % 65536 < 2 ^ 32 := by omega
  rw [lowHalf, ← BitVec.toNat_inj, BitVec.toNat_ofNat, BitVec.toNat_ofNat, Nat.mod_eq_of_lt hn,
    Nat.mod_eq_of_lt hlt]

theorem lowHalf_inj {v x : Vma} : lowHalf v = lowHalf x ↔ v.toNat % 65536 = x.toNat % 65536 :=
  ofNat_eq_lowHalf (by omega)

/-- A high part and the low part of something else make this exactly if they have the same high
part. -/
theorem halves_eq_iff {v x : Vma} :
    highHalf v + lowHalf x = x.setWidth 32 ↔ xrImmHighPart v = xrImmHighPart x := by
  rw [← highHalf_add_lowHalf x, add_left_inj, highHalf_inj]

/-- A high part with an addend and a low part without it. -/
theorem halves_add_eq_iff {u a l : Vma} (h : xrImmHighPart u = xrImmHighPart (u + l)) :
    highHalf (u + a) + lowHalf (u + l) = (u + a + l).setWidth 32 ↔ 65536 ∣ a.toNat := by
  have hhigh : highHalf (u + a) = (u + a).setWidth 32 - lowHalf (u + a) :=
    eq_sub_of_add_eq (highHalf_add_lowHalf _)
  have hlow : lowHalf (u + l) = (u + l).setWidth 32 - (u.setWidth 32 - lowHalf u) := by
    rw [← highHalf_add_lowHalf u, ← highHalf_add_lowHalf (u + l), highHalf_inj.mpr h]
    abel
  have hadd : ∀ x y : Vma, (x + y).setWidth 32 = x.setWidth 32 + y.setWidth 32 :=
    fun x y => BitVec.setWidth_add x y (by omega)
  have hsum : highHalf (u + a) + lowHalf (u + l) =
      (u + a + l).setWidth 32 + (lowHalf u - lowHalf (u + a)) := by
    rw [hhigh, hlow, hadd (u + a) l, hadd u a, hadd u l]
    abel
  rw [hsum, add_eq_left, sub_eq_zero, lowHalf_inj, BitVec.toNat_add]
  omega

theorem pairAddress_eq (pc : BitVec 32) (scale : Nat) {v : Vma} {highWord : Nat} (lowWord : Nat)
    (hhigh : highWord / 65536 = v.toNat / 65536 % 65536) :
    pairAddress pc scale highWord lowWord =
      pc + (highHalf v + BitVec.ofNat 32 (lowWord / 65536 * 2 ^ scale)) := by
  rw [pairAddress, hhigh, add_assoc]
  rfl

/-- With the right high part, a pair computes the address if the low part is right as well. -/
theorem pairAddress_eq_iff (pc : BitVec 32) {scale : Nat} (hscale : scale ≤ 2) (v : Vma)
    {highWord lowWord : Nat} (hhigh : highWord / 65536 = v.toNat / 65536 % 65536)
    (hlow : lowWord < 4294967296) :
    pairAddress pc scale highWord lowWord = pc + v.setWidth 32 ↔
      lowWord / 65536 * 2 ^ scale = v.toNat % 65536 := by
  have hscaled : lowWord / 65536 * 2 ^ scale < 2 ^ 32 := by
    have hpow : 2 ^ scale ≤ 2 ^ 2 := Nat.pow_le_pow_right (by omega) hscale
    calc lowWord / 65536 * 2 ^ scale ≤ lowWord / 65536 * 2 ^ 2 := Nat.mul_le_mul_left _ hpow
      _ < 2 ^ 32 := by omega
  rw [pairAddress_eq pc scale lowWord hhigh, add_right_inj, ← highHalf_add_lowHalf, add_right_inj,
    ofNat_eq_lowHalf hscaled]

end XrLinux.Binutils
