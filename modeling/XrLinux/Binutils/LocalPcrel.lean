import XrLinux.Binutils.ConstReloc
import XrLinux.Binutils.Pcrel

/-!
# Binutils — pc-relative pairs in the assembler

A pair whose target is local to the segment never reaches the linker. The assembler looks the high
part up by the address of its instruction and encodes the whole offset in the low part, where the
linker encodes the lower 16 bits of it; a scaled instruction has room for more than these, and none
for the lowest.
-/

namespace XrLinux.Binutils

open ByteMemory

/-! ## What a fixup leaves alone -/

/-- Nothing but `size` bytes at `position` and the entry of that address has changed. -/
structure Frame (position size : Nat) (s s' : GasState) : Prop where
  contents : ∀ {b len}, b + len ≤ position ∨ position + size ≤ b →
    SameOn s.contents s'.contents b len
  hiFixups : ∀ seg {addr}, addr ≠ BitVec.ofNat 64 position →
    s'.hiFixups seg addr = s.hiFixups seg addr

namespace Frame

variable {position size : Nat} {s s' s'' : GasState}

theorem of_same (hcontents : s'.contents = s.contents) (hhiFixups : s'.hiFixups = s.hiFixups) :
    Frame position size s s' :=
  { contents := fun _ => hcontents ▸ SameOn.refl _ _ _, hiFixups := fun _ _ _ => by rw [hhiFixups] }

theorem refl : Frame position size s s := of_same rfl rfl

theorem trans (h : Frame position size s s') (h' : Frame position size s' s'') :
    Frame position size s s'' where
  contents hb := (h.contents hb).trans (h'.contents hb)
  hiFixups seg _ haddr := (h'.hiFixups seg haddr).trans (h.hiFixups seg haddr)

theorem put {bits : Nat} (word : Vma) :
    Frame position (bits / 8) s { s with contents := bfdPut bits s.contents position word } where
  contents h := sameOn_bfdPut s.contents word h
  hiFixups _ _ _ := rfl

theorem orWord (bits : Vma) : Frame position 4 s (s.orWord position bits) :=
  show Frame position (32 / 8) s _ from put _

theorem recordPcrelFixup (seg : Nat) {entry : PcrelHiFixup}
    (h : entry.address = BitVec.ofNat 64 position) :
    Frame position size s (s.recordPcrelFixup seg entry) where
  contents _ := SameOn.refl _ _ _
  hiFixups := by
    intro seg' addr haddr
    by_cases hseg : seg' = seg
    · rw [hseg]
      show Function.update s.hiFixups seg (Function.update (s.hiFixups seg) entry.address _) seg addr = _
      rw [Function.update_self, Function.update_of_ne (h ▸ haddr)]
    · show Function.update s.hiFixups seg (Function.update (s.hiFixups seg) entry.address _) seg' addr = _
      rw [Function.update_of_ne hseg]

end Frame

section
variable (seg : Nat) (fix : Fix) (type : RelocType) (value : Vma) (s : GasState)

theorem frame_applyImm : Frame fix.position 4 s (applyImm fix type value s).2 := by
  unfold applyImm
  split
  · exact Frame.orWord _
  · exact Frame.of_same rfl rfl

theorem frame_applyTls {size : Nat} : Frame fix.position size s (applyTls fix s).2 := by
  show Frame _ _ s (if _ then _ else _)
  split
  · exact Frame.refl
  · exact Frame.of_same rfl rfl

theorem frame_applyData : Frame fix.position (type.bitsize / 8) s (applyData fix type value s).2 := by
  unfold applyData
  split
  · exact Frame.put _
  · exact Frame.refl

theorem frame_applyJump : Frame fix.position 4 s (applyJump fix value s).2 := by
  unfold applyJump
  split
  · exact Frame.orWord _
  · exact Frame.refl

theorem frame_applyBranch : Frame fix.position 4 s (applyBranch seg fix value s).2 := by
  unfold applyBranch
  split
  · exact Frame.orWord _
  · exact Frame.refl

theorem frame_applyPcrelData :
    Frame fix.position (type.bitsize / 8) s (applyPcrelData seg fix type value s).2 := by
  unfold applyPcrelData
  split
  · exact Frame.put _
  · exact Frame.refl

theorem frame_applyPcrelHi : Frame fix.position 4 s (applyPcrelHi seg fix value s).2 := by
  unfold applyPcrelHi
  split
  · split
    · exact (Frame.recordPcrelFixup seg rfl).trans (Frame.orWord _)
    · exact Frame.refl
  · exact Frame.refl

theorem frame_applyPcrelLo : Frame fix.position 4 s (applyPcrelLo seg fix type value s).2 := by
  unfold applyPcrelLo
  split
  · split
    · split
      · exact Frame.orWord _
      · exact Frame.refl
    · exact Frame.refl
  · exact Frame.of_same rfl rfl

theorem frame_applyFix :
    Frame fix.position (type.bitsize / 8) s (applyFix seg fix type value s).2 := by
  cases type with
  | imm16 | imm16_1 | imm16_2 | imm16_16 | imm16Signed | hi16 | lo16 | lo16_1 | lo16_2 =>
    exact frame_applyImm fix _ value s
  | hi16Got | hi16Plt => exact Frame.refl
  | hi16Tprel | lo16Tprel | lo16_1Tprel | lo16_2Tprel | hi16TlsGot | hi16TlsGd | tlsDtprel =>
    exact frame_applyTls fix s
  | r32 | r16 | r8 => exact frame_applyData fix _ value s
  | jump => exact frame_applyJump fix value s
  | branch => exact frame_applyBranch seg fix value s
  | r8Pcrel | r16Pcrel | r32Pcrel => exact frame_applyPcrelData seg fix _ value s
  | hi16Pcrel => exact frame_applyPcrelHi seg fix value s
  | lo16Pcrel => exact frame_applyPcrelLo seg fix .lo16Pcrel value s
  | lo16_1Pcrel => exact frame_applyPcrelLo seg fix .lo16_1Pcrel value s
  | lo16_2Pcrel => exact frame_applyPcrelLo seg fix .lo16_2Pcrel value s
  | none | relative | irelative | jumpSlot | copy | tlsTprel | tlsDtpmod =>
    exact Frame.of_same rfl rfl

/-- How many bytes a fixup is for. -/
def Fix.size (fix : Fix) : Nat := fix.type.bitsize / 8

theorem pcrelType_bitsize {type' : RelocType} (h : pcrelType type = some type') :
    type'.bitsize = type.bitsize := by
  unfold pcrelType at h
  split at h
  · exact Option.some.inj h ▸ rfl
  · exact Option.some.inj h ▸ rfl
  · exact Option.some.inj h ▸ rfl
  · cases h

theorem fixType_bitsize : (fixType fix s).1.bitsize = fix.type.bitsize := by
  unfold fixType
  split
  · split
    · next h => exact pcrelType_bitsize fix.type h
    · rfl
  · rfl

theorem frame_fixType {size : Nat} : Frame fix.position size s (fixType fix s).2 := by
  unfold fixType
  split
  · split
    · exact Frame.refl
    · exact Frame.of_same rfl rfl
  · exact Frame.refl

theorem frame_mdApplyFix : Frame fix.position fix.size s (mdApplyFix seg fix s).2 := by
  have hswitch : ∀ value, Frame fix.position fix.size s
      (applyFix seg fix (fixType fix s).1 value (fixType fix s).2).2 := by
    intro value
    have hframe := frame_applyFix seg fix (fixType fix s).1 value (fixType fix s).2
    rw [fixType_bitsize] at hframe
    exact (frame_fixType fix s).trans hframe
  unfold mdApplyFix
  dsimp only
  split
  · exact (hswitch _).trans (Frame.of_same rfl rfl)
  · exact hswitch _

end

/-! ## Segments -/

/-- Two fixups are for different places and have no byte in common. -/
def Fix.Apart (a b : Fix) : Prop :=
  (a.position < b.position ∧ a.position + a.size ≤ b.position) ∨
    (b.position < a.position ∧ b.position + b.size ≤ a.position)

theorem Fix.Apart.symm {a b : Fix} (h : a.Apart b) : b.Apart a := Or.symm h

/-- A segment with its fixups in the order in which they are applied. -/
structure Segment where
  index : Nat
  contents : ByteMemory
  fixes : List Fix
  small : ∀ fix ∈ fixes, fix.position < 2 ^ 64
  /-- No two fixups are for the same bytes. -/
  apart : fixes.Pairwise Fix.Apart

/-- Fixups are applied one after the other. -/
def applyFixes (seg : Nat) (fixes : List Fix) (s : GasState) : GasState :=
  fixes.foldl (fun s fix => (mdApplyFix seg fix s).2) s

/-- The segment after its fixups, whatever was recorded before. -/
def Segment.final (seg : Segment) (hiFixups : Nat → Vma → Option PcrelHiFixup) : ByteMemory :=
  (applyFixes seg.index seg.fixes
    { contents := seg.contents, hiFixups, errors := 0, fatal := false }).contents

/-- What fixups apart from it leave of a fixup. -/
structure Keeps (fix : Fix) (s s' : GasState) : Prop where
  word : SameOn s.contents s'.contents fix.position fix.size
  entry : ∀ seg, s'.hiFixups seg (mdPcrelFrom fix) = s.hiFixups seg (mdPcrelFrom fix)

theorem Keeps.trans {fix : Fix} {s s' s'' : GasState} (h : Keeps fix s s') (h' : Keeps fix s' s'') :
    Keeps fix s s'' where
  word := h.word.trans h'.word
  entry seg := (h'.entry seg).trans (h.entry seg)

theorem Keeps.read32 {fix : Fix} {s s' : GasState} (h : Keeps fix s s') (hsize : fix.size = 4) :
    s'.contents.read32 fix.position = s.contents.read32 fix.position :=
  SameOn.read32 (hsize ▸ h.word)

theorem keeps_applyFixes (seg : Nat) {fix : Fix} {fixes : List Fix}
    (hapart : ∀ other ∈ fixes, other.Apart fix)
    (hsmall : ∀ other ∈ fixes, other.position < 2 ^ 64) (hfix : fix.position < 2 ^ 64)
    (s : GasState) : Keeps fix s (applyFixes seg fixes s) := by
  induction fixes generalizing s with
  | nil => exact ⟨SameOn.refl _ _ _, fun _ => rfl⟩
  | cons other rest ih =>
    have haway := hapart other List.mem_cons_self
    unfold Fix.Apart at haway
    have hframe := frame_mdApplyFix seg other s
    have hother := hsmall other List.mem_cons_self
    have hrest := ih (fun f hf => hapart f (List.mem_cons_of_mem _ hf))
      (fun f hf => hsmall f (List.mem_cons_of_mem _ hf)) (mdApplyFix seg other s).2
    have hkey : mdPcrelFrom fix ≠ BitVec.ofNat 64 other.position := by
      rw [mdPcrelFrom, Ne, ← BitVec.toNat_inj, BitVec.toNat_ofNat, BitVec.toNat_ofNat,
        Nat.mod_eq_of_lt hfix, Nat.mod_eq_of_lt hother]
      omega
    constructor
    · exact (hframe.contents (by omega)).trans hrest.word
    · intro seg'
      exact (hrest.entry seg').trans (hframe.hiFixups seg' hkey)

/-! ## The pair -/

/-- The fixup of an instruction with an operand. -/
def insnFix (position : Nat) (type : RelocType) (sym : Symbol) (addend : Vma) : Fix :=
  { position, type, addsy := some sym, subsy := none, pcrel := false, offset := addend }

/-- A pair that the assembler resolves. -/
structure ResolvedPair (seg : Segment) where
  kind : LowKind
  hiPosition : Nat
  sym : Symbol
  addend : Vma
  isLocal : sym.resolvesIn seg.index = true
  loPosition : Nat
  label : Symbol
  labelAddend : Vma
  before : List Fix
  between : List Fix
  after : List Fix
  fixes_eq : seg.fixes =
    before ++ insnFix hiPosition .hi16Pcrel sym addend ::
      (between ++ insnFix loPosition kind.type label labelAddend :: after)
  /-- The low part names the instruction with the high part. -/
  label_eq : label.value + labelAddend = BitVec.ofNat 64 hiPosition
  /-- The assembler leaves the immediates of both instructions empty. -/
  hi_empty : seg.contents.read32 hiPosition < 65536
  lo_empty : seg.contents.read32 loPosition < 65536

namespace ResolvedPair

variable {seg : Segment} (pair : ResolvedPair seg)

def hi : Fix := insnFix pair.hiPosition .hi16Pcrel pair.sym pair.addend

def lo : Fix := insnFix pair.loPosition pair.kind.type pair.label pair.labelAddend

/-- From the instruction with the high part to where the pair points. -/
def offset : Vma := pair.sym.value + pair.addend - BitVec.ofNat 64 pair.hiPosition

/-- What the linker makes of the pair in a section at `secAddr`. -/
def linked (secAddr : Vma) : ByteMemory :=
  let pc := secAddr + BitVec.ofNat 64 pair.hiPosition
  let symbol := secAddr + pair.sym.value
  let p := initPcrelRelocs.recordHi pc (symbol + pair.addend) .hi16Pcrel
  let p := p.recordLo pc ⟨pair.loPosition, pair.kind.type, 0⟩
  match performRelocation ⟨pair.hiPosition, .hi16Pcrel, pair.addend⟩ symbol secAddr
      seg.contents with
  | .ok contents => (resolvePcrelLoRelocs secAddr p.hiRelocs p.loRelocs contents).2
  | .error _ => seg.contents

end ResolvedPair

/-- The assembler reports a fixup, itself or in the code around it. -/
def Reported (reports : Vma → Bool) (seg : Nat) (fix : Fix) : Prop :=
  (∃ s, s.errors < (mdApplyFix seg fix s).2.errors) ∨ reports fix.offset = true

/-- The pair computes its target, in the words that the linker would make, unless it is reported. -/
def ResolvedPair.Correct {seg : Segment} (pair : ResolvedPair seg) (reports : Vma → Bool)
    (hiFixups : Nat → Vma → Option PcrelHiFixup) (secAddr : Vma) : Prop :=
  let final := seg.final hiFixups
  let linked := pair.linked secAddr
  Reported reports seg.index pair.hi ∨ Reported reports seg.index pair.lo ∨
    (pairAddress ((secAddr + BitVec.ofNat 64 pair.hiPosition).setWidth 32) pair.kind.scale
        (final.read32 pair.hiPosition) (final.read32 pair.loPosition) =
        (secAddr + pair.sym.value + pair.addend).setWidth 32 ∧
      final.read32 pair.hiPosition = linked.read32 pair.hiPosition ∧
      final.read32 pair.loPosition = linked.read32 pair.loPosition)

/-- The offset is a multiple of what the instruction scales by, in both of its halves. -/
def ResolvedPair.Fits {seg : Segment} (pair : ResolvedPair seg) : Prop :=
  2 ^ pair.kind.scale ∣ pair.offset.toNat % 65536 ∧
    2 ^ pair.kind.scale ∣ pair.offset.toNat / 65536

/-! ## What becomes of the words -/

theorem applyFixes_append (seg : Nat) (fixes fixes' : List Fix) (s : GasState) :
    applyFixes seg (fixes ++ fixes') s = applyFixes seg fixes' (applyFixes seg fixes s) :=
  List.foldl_append

theorem applyFixes_cons (seg : Nat) (fix : Fix) (fixes : List Fix) (s : GasState) :
    applyFixes seg (fix :: fixes) s = applyFixes seg fixes (mdApplyFix seg fix s).2 := rfl

/-- Bits that are added to an empty field. -/
theorem read32_orWord {s : GasState} {position f : Nat} {bits : Vma} (hf : f < 65536)
    (hbits : bits.toNat = f * 65536) (hempty : s.contents.read32 position < 65536) :
    (s.orWord position bits).contents.read32 position =
      s.contents.read32 position + f * 65536 := by
  have hword : (bits ||| bfdGet 32 s.contents position).toNat =
      f * 65536 + s.contents.read32 position := by
    rw [BitVec.toNat_or, hbits, bfdGet, BitVec.toNat_ofNat, Nat.mod_eq_of_lt (by omega),
      ← Nat.shiftLeft_eq f 16,
      ← Nat.shiftLeft_add_eq_or_of_lt (show s.contents.read32 position < 2 ^ 16 by omega),
      Nat.shiftLeft_eq]
  show (s.contents.write32 position _).read32 position = _
  rw [hword, read32_write32, Nat.mod_eq_of_lt (by omega), Nat.add_comm]

theorem hiFixups_recordPcrelFixup (seg : Nat) {s : GasState} (entry : PcrelHiFixup) :
    (s.recordPcrelFixup seg entry).hiFixups seg entry.address = some entry := by
  show Function.update s.hiFixups seg (Function.update (s.hiFixups seg) entry.address (some entry))
    seg entry.address = _
  rw [Function.update_self, Function.update_self]

namespace ResolvedPair

variable {seg : Segment} (pair : ResolvedPair seg)

theorem applyHi (s : GasState) :
    (mdApplyFix seg.index pair.hi s).2 =
      (s.recordPcrelFixup seg.index
        ⟨BitVec.ofNat 64 pair.hiPosition, pair.sym, pair.sym.value + pair.addend⟩).orWord
          pair.hiPosition (xrImmEncodeI16 (xrImmHighPart pair.offset)) := by
  show (applyPcrelHi seg.index pair.hi pair.addend s).2 = _
  unfold applyPcrelHi
  show (if pair.sym.resolvesIn seg.index then _ else _ : Bool × GasState).2 = _
  rw [if_pos pair.isLocal]
  rfl

/-- The field of the low part. -/
theorem applyLo {s : GasState}
    (hentry : s.hiFixups seg.index (BitVec.ofNat 64 pair.hiPosition) =
      some ⟨BitVec.ofNat 64 pair.hiPosition, pair.sym, pair.sym.value + pair.addend⟩) :
    (mdApplyFix seg.index pair.lo s).2 =
      s.orWord pair.loPosition (encodeImm pair.kind.scale pair.offset) := by
  have hlo : (mdApplyFix seg.index pair.lo s).2 =
      (applyPcrelLo seg.index pair.lo pair.kind.type pair.labelAddend s).2 := by
    unfold lo
    cases pair.kind <;> rfl
  rw [hlo]
  unfold applyPcrelLo
  simp only [lo, insnFix, pair.label_eq, hentry, pair.isLocal, if_true]
  cases pair.kind <;> rfl

theorem hi_size : pair.hi.size = 4 := by
  show RelocType.hi16Pcrel.bitsize / 8 = 4
  rfl

theorem lo_size : pair.lo.size = 4 := by
  show pair.kind.type.bitsize / 8 = 4
  cases pair.kind <;> rfl

theorem hi_apart_lo : pair.hi.Apart pair.lo := by
  have hapart := seg.apart
  rw [pair.fixes_eq, List.pairwise_append, List.pairwise_cons] at hapart
  exact hapart.2.1.1 pair.lo (List.mem_append_right _ List.mem_cons_self)

/-- The other fixups are for other bytes. -/
theorem others_apart {fix : Fix}
    (h : fix ∈ pair.before ∨ fix ∈ pair.between ∨ fix ∈ pair.after) :
    fix.Apart pair.hi ∧ fix.Apart pair.lo := by
  have hapart := seg.apart
  have hlater : ∀ fix ∈ pair.after, fix ∈ pair.between ++ pair.lo :: pair.after :=
    fun fix hfix => List.mem_append_right _ (List.mem_cons_of_mem _ hfix)
  have hlo : pair.lo ∈ pair.between ++ pair.lo :: pair.after :=
    List.mem_append_right _ List.mem_cons_self
  rw [pair.fixes_eq, List.pairwise_append, List.pairwise_cons, List.pairwise_append,
    List.pairwise_cons] at hapart
  obtain ⟨_, ⟨hhi, _, ⟨hlow, _⟩, hbetween⟩, hbefore⟩ := hapart
  rcases h with h | h | h
  · exact ⟨hbefore fix h pair.hi List.mem_cons_self,
      hbefore fix h pair.lo (List.mem_cons_of_mem _ hlo)⟩
  · exact ⟨(hhi fix (List.mem_append_left _ h)).symm, hbetween fix h pair.lo List.mem_cons_self⟩
  · exact ⟨(hhi fix (hlater fix h)).symm, (hlow fix h).symm⟩

theorem others_small {fix : Fix}
    (h : fix ∈ pair.before ∨ fix ∈ pair.between ∨ fix ∈ pair.after) : fix.position < 2 ^ 64 := by
  apply seg.small
  rw [pair.fixes_eq]
  rcases h with h | h | h
  · exact List.mem_append_left _ h
  · exact List.mem_append_right _ (List.mem_cons_of_mem _ (List.mem_append_left _ h))
  · exact List.mem_append_right _
      (List.mem_cons_of_mem _ (List.mem_append_right _ (List.mem_cons_of_mem _ h)))

theorem hi_small : pair.hi.position < 2 ^ 64 := by
  apply seg.small
  rw [pair.fixes_eq]
  exact List.mem_append_right _ List.mem_cons_self

theorem lo_small : pair.lo.position < 2 ^ 64 := by
  apply seg.small
  rw [pair.fixes_eq]
  exact List.mem_append_right _ (List.mem_cons_of_mem _
    (List.mem_append_right _ List.mem_cons_self))

/-- The other fixups leave the pair alone. -/
theorem others_keep {fixes : List Fix}
    (h : ∀ fix ∈ fixes, fix ∈ pair.before ∨ fix ∈ pair.between ∨ fix ∈ pair.after) (s : GasState) :
    Keeps pair.hi s (applyFixes seg.index fixes s) ∧
      Keeps pair.lo s (applyFixes seg.index fixes s) :=
  ⟨keeps_applyFixes seg.index (fun fix hfix => (pair.others_apart (h fix hfix)).1)
      (fun fix hfix => pair.others_small (h fix hfix)) pair.hi_small s,
    keeps_applyFixes seg.index (fun fix hfix => (pair.others_apart (h fix hfix)).2)
      (fun fix hfix => pair.others_small (h fix hfix)) pair.lo_small s⟩

/-- The fixups of the pair leave each other alone. -/
theorem lo_keeps_hi (s : GasState) : Keeps pair.lo s (mdApplyFix seg.index pair.hi s).2 := by
  have hapart : ∀ other ∈ [pair.hi], other.Apart pair.lo := by
    intro other h
    rw [List.mem_singleton.mp h]
    exact pair.hi_apart_lo
  have hsmall : ∀ other ∈ [pair.hi], other.position < 2 ^ 64 := by
    intro other h
    rw [List.mem_singleton.mp h]
    exact pair.hi_small
  exact keeps_applyFixes seg.index hapart hsmall pair.lo_small s

theorem hi_keeps_lo (s : GasState) : Keeps pair.hi s (mdApplyFix seg.index pair.lo s).2 := by
  have hapart : ∀ other ∈ [pair.lo], other.Apart pair.hi := by
    intro other h
    rw [List.mem_singleton.mp h]
    exact pair.hi_apart_lo.symm
  have hsmall : ∀ other ∈ [pair.lo], other.position < 2 ^ 64 := by
    intro other h
    rw [List.mem_singleton.mp h]
    exact pair.lo_small
  exact keeps_applyFixes seg.index hapart hsmall pair.hi_small s

/-- The words of the pair once the fixups of the segment are applied. -/
theorem final_words (hiFixups : Nat → Vma → Option PcrelHiFixup) :
    (seg.final hiFixups).read32 pair.hiPosition =
        seg.contents.read32 pair.hiPosition + pair.offset.toNat / 65536 % 65536 * 65536 ∧
      (seg.final hiFixups).read32 pair.loPosition =
        seg.contents.read32 pair.loPosition +
          pair.offset.toNat / 2 ^ pair.kind.scale % 65536 * 65536 := by
  let start : GasState := { contents := seg.contents, hiFixups, errors := 0, fatal := false }
  let s₁ := applyFixes seg.index pair.before start
  let s₂ := (mdApplyFix seg.index pair.hi s₁).2
  let s₃ := applyFixes seg.index pair.between s₂
  let s₄ := (mdApplyFix seg.index pair.lo s₃).2
  have hrun : seg.final hiFixups = (applyFixes seg.index pair.after s₄).contents := by
    rw [Segment.final, pair.fixes_eq, applyFixes_append, applyFixes_cons, applyFixes_append,
      applyFixes_cons]
    rfl
  obtain ⟨hhi₁, hlo₁⟩ := pair.others_keep (fun _ => Or.inl) start
  obtain ⟨hhi₃, hlo₃⟩ := pair.others_keep (fun _ h => .inr (.inl h)) s₂
  obtain ⟨hhi₅, hlo₅⟩ := pair.others_keep (fun _ h => .inr (.inr h)) s₄
  have hword₁ : s₁.contents.read32 pair.hiPosition = seg.contents.read32 pair.hiPosition :=
    hhi₁.read32 pair.hi_size
  have hword₂ : s₂.contents.read32 pair.hiPosition =
      seg.contents.read32 pair.hiPosition + pair.offset.toNat / 65536 % 65536 * 65536 := by
    show (mdApplyFix seg.index pair.hi s₁).2.contents.read32 _ = _
    rw [pair.applyHi, ← hword₁]
    apply read32_orWord (Nat.mod_lt _ (by omega))
    · rw [encodeImm_highPart]
      exact encodeImm_toNat 16 pair.offset
    · show s₁.contents.read32 pair.hiPosition < 65536
      rw [hword₁]
      exact pair.hi_empty
  -- The low part finds the entry of the high part: nothing in between is at its address.
  have hentry₃ : s₃.hiFixups seg.index (BitVec.ofNat 64 pair.hiPosition) =
      some ⟨BitVec.ofNat 64 pair.hiPosition, pair.sym, pair.sym.value + pair.addend⟩ := by
    refine (hhi₃.entry seg.index).trans ?_
    show (mdApplyFix seg.index pair.hi s₁).2.hiFixups seg.index _ = _
    rw [pair.applyHi]
    exact hiFixups_recordPcrelFixup seg.index _
  have hlow₃ : s₃.contents.read32 pair.loPosition = seg.contents.read32 pair.loPosition :=
    ((hlo₁.trans (pair.lo_keeps_hi s₁)).trans hlo₃).read32 pair.lo_size
  have hlow₄ : s₄.contents.read32 pair.loPosition =
      seg.contents.read32 pair.loPosition +
        pair.offset.toNat / 2 ^ pair.kind.scale % 65536 * 65536 := by
    show (mdApplyFix seg.index pair.lo s₃).2.contents.read32 _ = _
    rw [pair.applyLo hentry₃, ← hlow₃]
    apply read32_orWord (Nat.mod_lt _ (by omega)) (encodeImm_toNat _ _)
    rw [hlow₃]
    exact pair.lo_empty
  rw [hrun, ← hword₂, ← hlow₄]
  exact ⟨((hhi₃.trans (pair.hi_keeps_lo s₃)).trans hhi₅).read32 pair.hi_size,
    hlo₅.read32 pair.lo_size⟩

theorem disjoint :
    pair.hiPosition + 4 ≤ pair.loPosition ∨ pair.loPosition + 4 ≤ pair.hiPosition := by
  have h := pair.hi_apart_lo
  unfold Fix.Apart at h
  rw [pair.hi_size, pair.lo_size] at h
  exact h.imp And.right And.right

/-- The words that the linker makes of the pair: a low part that does not fit stays as it is. -/
theorem linked_words (secAddr : Vma) :
    (pair.linked secAddr).read32 pair.hiPosition =
        seg.contents.read32 pair.hiPosition + pair.offset.toNat / 65536 % 65536 * 65536 ∧
      (2 ^ pair.kind.scale ∣ pair.offset.toNat →
        (pair.linked secAddr).read32 pair.loPosition =
          seg.contents.read32 pair.loPosition +
            pair.offset.toNat % 65536 / 2 ^ pair.kind.scale * 65536) := by
  let pc := secAddr + BitVec.ofNat 64 pair.hiPosition
  let high := linkedWord .hi16 pair.offset.toNat (seg.contents.read32 pair.hiPosition)
  let contents := seg.contents.write32 pair.hiPosition high
  let entry : PcrelHiReloc := ⟨pc, pair.offset, .hi16Pcrel⟩
  let reloc : PcrelLoReloc := ⟨pc, ⟨pair.loPosition, pair.kind.type, 0⟩⟩
  have hhigh : high = seg.contents.read32 pair.hiPosition +
      pair.offset.toNat / 65536 % 65536 * 65536 := by
    show _ % 65536 + pair.offset.toNat / 65536 % 65536 * 65536 = _
    rw [Nat.mod_eq_of_lt pair.hi_empty]
  have hread : contents.read32 pair.hiPosition = high :=
    read32_write32_self _ _ (linkedWord_lt _ _ _)
  have hlow : contents.read32 pair.loPosition = seg.contents.read32 pair.loPosition :=
    (sameOn_write32 _ _ (by have := pair.disjoint; omega)).read32
  have hperform : performRelocation ⟨pair.hiPosition, .hi16Pcrel, pair.addend⟩
      (secAddr + pair.sym.value) secAddr seg.contents = .ok contents := by
    rw [performRelocation_high .pcrel, add_sub_add_left_eq_sub, sub_add_eq_add_sub]
    rfl
  have hvalue : secAddr + pair.sym.value + pair.addend - pc = pair.offset := by
    rw [add_assoc, add_sub_add_left_eq_sub]
    rfl
  have hfind : findHi (Function.update (fun _ => none) pc (some entry)) reloc = .ok entry := by
    unfold findHi
    simp only [reloc, Function.update_self]
    rw [if_neg (fun h => h.2 rfl), if_neg (fun h => h (by rw [add_zero]))]
  have hlinked : pair.linked secAddr = (resolvePcrelLoRelocs secAddr
      (Function.update (fun _ => none) pc (some entry)) [reloc] contents).2 := by
    unfold linked
    dsimp only
    rw [hperform]
    show (resolvePcrelLoRelocs secAddr (Function.update (fun _ => none) pc (some ⟨pc, _, _⟩)) _ _).2 = _
    rw [hvalue]
    rfl
  by_cases hfits : 2 ^ pair.kind.scale ∣ (pair.offset + 0).toNat
  · have hresolve : pair.linked secAddr = contents.write32 pair.loPosition
        (linkedWord pair.kind.imm (pair.offset + 0).toNat (contents.read32 pair.loPosition)) := by
      rw [hlinked]
      simp only [resolvePcrelLoRelocs, hfind, reloc, entry, performRelocation_low _ _ _ _ _ _ hfits]
    rw [hresolve]
    constructor
    · rw [(sameOn_write32 _ _ (by have := pair.disjoint; omega)).read32, hread, hhigh]
    · intro _
      rw [read32_write32_self _ _ (linkedWord_lt _ _ _), linkedWord, hlow,
        Nat.mod_eq_of_lt pair.lo_empty, pair.kind.field_eq, add_zero]
  · have hresolve : pair.linked secAddr = contents := by
      rw [hlinked]
      simp only [resolvePcrelLoRelocs, hfind, reloc, entry,
        performRelocation_low_error _ _ _ _ _ _ hfits]
    rw [hresolve]
    refine ⟨hread.trans hhigh, fun h => absurd ?_ hfits⟩
    rwa [add_zero]

end ResolvedPair

/-- `md_apply_fix` itself has nothing to report of a pair. -/
theorem ResolvedPair.reported_iff {seg : Segment} (pair : ResolvedPair seg)
    (reports : Vma → Bool) :
    (Reported reports seg.index pair.hi ↔ reports pair.addend = true) ∧
      (Reported reports seg.index pair.lo ↔ reports pair.labelAddend = true) := by
  have hhi : ∀ s, (mdApplyFix seg.index pair.hi s).2.errors = s.errors := by
    intro s
    rw [pair.applyHi]
    rfl
  have hlo : ∀ s, (mdApplyFix seg.index pair.lo s).2.errors = s.errors := by
    intro s
    have hcall : (mdApplyFix seg.index pair.lo s).2 =
        (applyPcrelLo seg.index pair.lo pair.kind.type pair.labelAddend s).2 := by
      unfold lo
      cases pair.kind <;> rfl
    rw [hcall]
    unfold applyPcrelLo
    split
    · split
      · split
        · rfl
        · rfl
      · rfl
    · rfl
  constructor
  · exact or_iff_right fun ⟨s, h⟩ => Nat.lt_irrefl _ (hhi s ▸ h)
  · exact or_iff_right fun ⟨s, h⟩ => Nat.lt_irrefl _ (hlo s ▸ h)

theorem ResolvedPair.fits_iff {seg : Segment} (pair : ResolvedPair seg) :
    pair.Fits ↔ pair.offset.toNat / 2 ^ pair.kind.scale % 65536 * 2 ^ pair.kind.scale =
      pair.offset.toNat % 65536 := by
  unfold Fits
  cases pair.kind with
  | plain => simp [LowKind.scale]
  | scaled1 =>
    simp only [LowKind.scale]
    omega
  | scaled2 =>
    simp only [LowKind.scale]
    omega

theorem ResolvedPair.exact_iff {seg : Segment} (pair : ResolvedPair seg)
    (hiFixups : Nat → Vma → Option PcrelHiFixup) (secAddr : Vma) :
    pairAddress ((secAddr + BitVec.ofNat 64 pair.hiPosition).setWidth 32) pair.kind.scale
        ((seg.final hiFixups).read32 pair.hiPosition)
        ((seg.final hiFixups).read32 pair.loPosition) =
      (secAddr + pair.sym.value + pair.addend).setWidth 32 ↔ pair.Fits := by
  obtain ⟨hhigh, hlow⟩ := pair.final_words hiFixups
  have hhi_empty := pair.hi_empty
  have hlo_empty := pair.lo_empty
  have htarget : (secAddr + pair.sym.value + pair.addend).setWidth 32 =
      (secAddr + BitVec.ofNat 64 pair.hiPosition).setWidth 32 + pair.offset.setWidth 32 := by
    rw [← BitVec.setWidth_add _ _ (show 32 ≤ 64 by omega), offset, add_assoc, add_assoc,
      add_sub_cancel]
  have hscale : pair.kind.scale ≤ 2 := by
    cases pair.kind <;> decide
  rw [htarget, pairAddress_eq_iff _ hscale pair.offset (by omega) (ByteMemory.read32_lt _ _), hlow,
    pair.fits_iff]
  have hfield : (seg.contents.read32 pair.loPosition +
      pair.offset.toNat / 2 ^ pair.kind.scale % 65536 * 65536) / 65536 =
        pair.offset.toNat / 2 ^ pair.kind.scale % 65536 := by
    omega
  rw [hfield]

/-- What fits is encoded by the linker in the same way. -/
theorem ResolvedPair.linked_eq {seg : Segment} (pair : ResolvedPair seg) (h : pair.Fits)
    (hiFixups : Nat → Vma → Option PcrelHiFixup) (secAddr : Vma) :
    (seg.final hiFixups).read32 pair.hiPosition = (pair.linked secAddr).read32 pair.hiPosition ∧
      (seg.final hiFixups).read32 pair.loPosition =
        (pair.linked secAddr).read32 pair.loPosition := by
  obtain ⟨hhigh, hlow⟩ := pair.final_words hiFixups
  obtain ⟨hhigh', hlow'⟩ := pair.linked_words secAddr
  have hfield := pair.fits_iff.mp h
  have hpow : 0 < 2 ^ pair.kind.scale := Nat.two_pow_pos _
  have hdvd : 2 ^ pair.kind.scale ∣ pair.offset.toNat := by
    obtain ⟨hlower, hupper⟩ := h
    rw [← Nat.div_add_mod pair.offset.toNat 65536]
    exact Nat.dvd_add (hupper.mul_left _) hlower
  rw [hhigh, hhigh', hlow, hlow' hdvd, ← hfield, Nat.mul_div_cancel _ hpow]
  exact ⟨rfl, rfl⟩

theorem pcrelPair_correct_iff (reports : Vma → Bool) (seg : Segment) (pair : ResolvedPair seg)
    (hiFixups : Nat → Vma → Option PcrelHiFixup) (secAddr : Vma) :
    pair.Correct reports hiFixups secAddr ↔
      pair.Fits ∨ reports pair.addend = true ∨ reports pair.labelAddend = true := by
  obtain ⟨hhi, hlo⟩ := pair.reported_iff reports
  have hexact := pair.exact_iff hiFixups secAddr
  rw [ResolvedPair.Correct, hhi, hlo]
  constructor
  · intro h
    rcases h with h | h | h
    · exact .inr (.inl h)
    · exact .inr (.inr h)
    · exact .inl (hexact.mp h.1)
  · intro h
    rcases h with h | h | h
    · exact .inr (.inr ⟨hexact.mpr h, pair.linked_eq h hiFixups secAddr⟩)
    · exact .inl h
    · exact .inr (.inl h)

/-- `adr` at 0 and a halfword access at 4, to a symbol at 65536. -/
def farSegment : Segment where
  index := 0
  contents := fun _ => 0
  fixes := [insnFix 0 .hi16Pcrel ⟨65536, true, 0⟩ 0, insnFix 4 .lo16_1Pcrel ⟨0, true, 0⟩ 0]
  small := by decide
  apart := by
    rw [List.pairwise_pair]
    exact .inl ⟨by decide, by decide⟩

def farPair : ResolvedPair farSegment where
  kind := .scaled1
  hiPosition := 0
  sym := ⟨65536, true, 0⟩
  addend := 0
  isLocal := rfl
  loPosition := 4
  label := ⟨0, true, 0⟩
  labelAddend := 0
  before := []
  between := []
  after := []
  fixes_eq := rfl
  label_eq := rfl
  hi_empty := by decide
  lo_empty := by decide

/-- Bit 16 of the offset is in the high part and once more in the low part. -/
theorem farPair_incorrect : ¬ farPair.Correct reportsWide (fun _ _ => none) 0 := by
  obtain ⟨hhi, hlo⟩ := farPair.reported_iff reportsWide
  rw [ResolvedPair.Correct, hhi, hlo]
  intro h
  rcases h with h | h | h
  · exact absurd h (by decide)
  · exact absurd h (by decide)
  · have hfits := (farPair.exact_iff (fun _ _ => none) 0).mp h.1
    exact absurd hfits.2 (by decide)

end XrLinux.Binutils
