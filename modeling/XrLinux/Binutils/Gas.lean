import XrLinux.Binutils.Reloc

/-!
# Binutils — fixups of the assembler

`md_apply_fix` resolves what it can of a fixup and leaves the rest to the linker. The instruction
word is already in the section when it does, and it only ever adds bits to it.
-/

namespace XrLinux.Binutils

open ByteMemory

/-- What is asked of a `symbolS`: `S_GET_VALUE`, `S_IS_LOCAL` and `S_GET_SEGMENT`. -/
structure Symbol where
  value : Vma
  isLocal : Bool
  segment : Nat
  deriving DecidableEq

/-- `fixS`. `position` is where its frag and its place in the frag put it, `offset` the value that
`md_apply_fix` is called with. -/
structure Fix where
  position : Nat
  type : RelocType
  addsy : Option Symbol
  subsy : Option Symbol
  pcrel : Bool
  offset : Vma
  deriving DecidableEq

/-- `xr17032_pcrel_hi_fixup`, under its section and address. -/
structure PcrelHiFixup where
  address : Vma
  symbol : Symbol
  target : Vma
  deriving DecidableEq

structure GasState where
  contents : ByteMemory
  /-- `xr17032_pcrel_hi_fixup_hash`. -/
  hiFixups : Nat → Vma → Option PcrelHiFixup
  /-- Calls of `as_bad`. -/
  errors : Nat
  /-- `abort` or `as_fatal` was called. -/
  fatal : Bool

/-- `md_pcrel_from`. -/
def mdPcrelFrom (fix : Fix) : Vma := BitVec.ofNat 64 fix.position

/-- The symbol is defined in the segment at hand and nothing outside can redefine it. -/
def Symbol.resolvesIn (sym : Symbol) (seg : Nat) : Bool :=
  sym.isLocal && sym.segment == seg

/-- `xr17032_apply_const_reloc`, where it does not abort. -/
def applyConstReloc (type : RelocType) (value : Vma) : Option (BitVec 32) :=
  match type with
  | .r32 => some (value.setWidth 32)
  | .imm16 | .imm16Signed | .lo16 => some ((xrImmEncodeI (xrImmLowPart value)).setWidth 32)
  | .imm16_1 | .lo16_1 => some ((xrImmEncodeI1 (xrImmLowPart value)).setWidth 32)
  | .imm16_2 | .lo16_2 => some ((xrImmEncodeI2 (xrImmLowPart value)).setWidth 32)
  | .imm16_16 | .hi16 => some ((xrImmEncodeI16 (xrImmHighPart value)).setWidth 32)
  | _ => none

namespace GasState

variable (s : GasState)

/-- `bfd_putl32 (bits | bfd_getl32 (buf), buf)`. -/
def orWord (position : Nat) (bits : Vma) : GasState :=
  { s with contents := bfdPut 32 s.contents position (bits ||| bfdGet 32 s.contents position) }

def asBad : GasState := { s with errors := s.errors + 1 }

/-- `xr17032_record_pcrel_fixup`. -/
def recordPcrelFixup (seg : Nat) (entry : PcrelHiFixup) : GasState :=
  let inSeg := Function.update (s.hiFixups seg) entry.address (some entry)
  { s with hiFixups := Function.update s.hiFixups seg inSeg }

end GasState

/-! The cases of `md_apply_fix`. Each returns `fx_done` with the state. -/

section
variable (seg : Nat) (fix : Fix) (type : RelocType) (value : Vma) (s : GasState)

def applyImm : Bool × GasState :=
  match applyConstReloc type value with
  | some bits => (fix.addsy.isNone, s.orWord fix.position (bits.setWidth 64))
  | none => (false, { s with fatal := true })

/-- `S_SET_THREAD_LOCAL` marks the symbol, which nothing here asks for. -/
def applyTls : Bool × GasState :=
  (false, if fix.addsy.isSome then s else s.asBad)

def applyData : Bool × GasState :=
  if fix.addsy.isNone then
    (true, { s with contents := bfdPut type.bitsize s.contents fix.position value })
  else (false, s)

def applyJump : Bool × GasState :=
  match fix.addsy with
  | some sym => (false, s.orWord fix.position (xrImmEncodeJ (sym.value + value)))
  | none => (false, s)

def applyBranch : Bool × GasState :=
  match fix.addsy with
  | some sym =>
    let delta := sym.value + value - mdPcrelFrom fix
    (sym.resolvesIn seg, s.orWord fix.position (xrImmEncodeB delta))
  | none => (false, s)

def applyPcrelData : Bool × GasState :=
  match fix.addsy with
  | some sym =>
    let delta := sym.value + value - mdPcrelFrom fix
    (sym.resolvesIn seg, { s with contents := bfdPut type.bitsize s.contents fix.position delta })
  | none => (false, s)

def applyPcrelHi : Bool × GasState :=
  match fix.addsy with
  | some sym =>
    if sym.resolvesIn seg then
      let target := sym.value + value
      let value := target - mdPcrelFrom fix
      (true, (s.recordPcrelFixup seg ⟨mdPcrelFrom fix, sym, target⟩).orWord fix.position
        (xrImmEncodeI16 (xrImmHighPart value)))
    else (false, s)
  | none => (false, s)

def applyPcrelLo : Bool × GasState :=
  match fix.addsy with
  | some sym =>
    match s.hiFixups seg (sym.value + value) with
    | some entry =>
      if entry.symbol.resolvesIn seg then
        let value := entry.target - entry.address
        (true, s.orWord fix.position
          (match type with
          | .lo16Pcrel => xrImmEncodeI value
          | .lo16_1Pcrel => xrImmEncodeI1 value
          | _ => xrImmEncodeI2 value))
      else (false, s)
    | none => (false, s)
  -- `S_GET_VALUE` of no symbol
  | none => (false, { s with fatal := true })

end

/-- The switch of `md_apply_fix`. -/
def applyFix (seg : Nat) (fix : Fix) (type : RelocType) (value : Vma) (s : GasState) :
    Bool × GasState :=
  match type with
  | .imm16 | .imm16_1 | .imm16_2 | .imm16_16 | .imm16Signed | .hi16 | .lo16 | .lo16_1 | .lo16_2 =>
    applyImm fix type value s
  | .hi16Got | .hi16Plt => (false, s)
  | .hi16Tprel | .lo16Tprel | .lo16_1Tprel | .lo16_2Tprel | .hi16TlsGot | .hi16TlsGd
  | .tlsDtprel => applyTls fix s
  | .r32 | .r16 | .r8 => applyData fix type value s
  | .jump => applyJump fix value s
  | .branch => applyBranch seg fix value s
  | .r8Pcrel | .r16Pcrel | .r32Pcrel => applyPcrelData seg fix type value s
  | .hi16Pcrel => applyPcrelHi seg fix value s
  | .lo16Pcrel | .lo16_1Pcrel | .lo16_2Pcrel => applyPcrelLo seg fix type value s
  | .none | .relative | .irelative | .jumpSlot | .copy | .tlsTprel | .tlsDtpmod =>
    (false, { s with fatal := true })

/-- The pc-relative type that takes the place of a type, if there is one. -/
def pcrelType : RelocType → Option RelocType
  | .r8 => some .r8Pcrel
  | .r16 => some .r16Pcrel
  | .r32 => some .r32Pcrel
  | _ => none

/-- The type that `md_apply_fix` goes on with. -/
def fixType (fix : Fix) (s : GasState) : RelocType × GasState :=
  if fix.pcrel then
    match pcrelType fix.type with
    | some type => (type, s)
    | none => (fix.type, s.asBad)
  else (fix.type, s)

/-- `md_apply_fix`, with `fx_done`. -/
def mdApplyFix (seg : Nat) (fix : Fix) (s : GasState) : Bool × GasState :=
  let value := if fix.pcrel then fix.offset + mdPcrelFrom fix else fix.offset
  let (type, s) := fixType fix s
  let (done, s) := applyFix seg fix type value s
  -- `as_bad_subtract`
  (done, if fix.subsy.isSome then s.asBad else s)

end XrLinux.Binutils
