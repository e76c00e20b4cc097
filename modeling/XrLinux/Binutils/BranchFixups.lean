import Mathlib.Tactic.Ring
import XrLinux.Binutils.ConstReloc

/-!
# Binutils — branches within a section

`md_apply_fix` resolves a branch to a local symbol of the same section for good: it encodes the
distance and marks the fixup as done, and `perform_relocation` never sees it. `XR_IMM_ENCODE_B`
keeps 21 bits of the distance in words, whatever the distance is, and only the linker asks
`XR_IMM_VALID_B` about it first. Jumps are always left to the linker.
-/

namespace XrLinux.Binutils

open ByteMemory

/-! ## Instructions -/

inductive BranchOp where
  | beq | bne | blt | bgt | ble | bge | bpe | bpo
  deriving DecidableEq, Repr

/-- `XR_OPCODE_B_*`. -/
def BranchOp.opcode : BranchOp → Nat
  | .beq => 0x3d
  | .bne => 0x35
  | .blt => 0x2d
  | .bgt => 0x25
  | .ble => 0x1d
  | .bge => 0x15
  | .bpe => 0x0d
  | .bpo => 0x05

/-- The instructions with an `XR_OP_BRANCH` or an `XR_OP_JUMP`. -/
inductive BranchInsn where
  | branch (op : BranchOp) (ra : Fin 32)
  | jump (link : Bool)
  deriving DecidableEq, Repr

/-- `insn_opcode` when `xr17032_ip` is through. -/
def BranchInsn.word : BranchInsn → Nat
  | .branch op ra => op.opcode ||| ra.val <<< 6
  | .jump link => if link then 7 else 6

/-- The type that `xr17032_ip` leaves in `imm_reloc`. -/
def BranchInsn.relocType : BranchInsn → RelocType
  | .branch _ _ => .branch
  | .jump _ => .jump

def BranchInsn.isBranch : BranchInsn → Bool
  | .branch _ _ => true
  | .jump _ => false

/-- Where the processor goes from `pc` when it takes the branch. -/
def BranchInsn.dest (insn : BranchInsn) (word pc : BitVec 32) : BitVec 32 :=
  match insn with
  | .branch _ _ => pc + (word.extractLsb' 11 21).signExtend 32 <<< 2
  | .jump _ => (word.extractLsb' 3 29).zeroExtend 32 <<< 2 ||| pc &&& 0x80000000

/-- `append_insn`, which puts the word into the section. -/
def appendInsn (insn : BranchInsn) (position : Nat) (s : GasState) : GasState :=
  { s with contents := s.contents.write32 position insn.word }

/-- The fixup that `append_insn` makes of the operand. -/
def branchFix (insn : BranchInsn) (position : Nat) (sym : Symbol) (offset : Vma) : Fix :=
  { position, type := insn.relocType, addsy := some sym, subsy := none, pcrel := false, offset }

/-! ## What is asked of a fixup -/

/-- The branch goes to the target, wherever the section is loaded. -/
def Reaches (insn : BranchInsn) (position : Nat) (target : Vma) (contents : ByteMemory) : Prop :=
  ∀ base : BitVec 32,
    insn.dest (BitVec.ofNat 32 (contents.read32 position)) (base + BitVec.ofNat 32 position) =
      base + target.setWidth 32

/-- What the linker makes of the same fixup, as a relocation of a section at `secAddr`. -/
def LinkerAccepts (insn : BranchInsn) (position : Nat) (sym : Symbol) (offset secAddr : Vma)
    (contents : ByteMemory) : Prop :=
  ∃ contents', performRelocation ⟨position, insn.relocType, offset⟩ (secAddr + sym.value) secAddr
    contents = .ok contents'

/-- A fixup that is done with. The errors are those of `md_apply_fix` and of its caller, which
knows only the offset and `reports` it or does not. -/
def FixupMeets (reports : Vma → Bool) (insn : BranchInsn) (position : Nat) (sym : Symbol)
    (offset secAddr : Vma) (seg : Nat) (s : GasState) : Prop :=
  let before := appendInsn insn position s
  let after := mdApplyFix seg (branchFix insn position sym offset) before
  let refused := before.errors < after.2.errors ∨ reports offset = true
  after.1 = true →
    (refused ∨ Reaches insn position (sym.value + offset) after.2.contents) ∧
      (¬refused ↔ LinkerAccepts insn position sym offset secAddr before.contents)

/-- The displacements that 21 bits of words hold. -/
def InReach (delta : Vma) : Prop :=
  -4194304 ≤ delta.toInt ∧ delta.toInt < 4194304 ∧ delta.toInt % 4 = 0

instance (delta : Vma) : Decidable (InReach delta) := by unfold InReach; infer_instance

/-! ## The field of a branch -/

theorem xrImmEncodeB_toNat (x : Vma) :
    (xrImmEncodeB x).toNat = x.toNat / 4 % 2097152 * 2048 := by
  have hfield := xrX_toNat x 2 (show 21 < 64 by omega)
  rw [xrImmEncodeB, BitVec.toNat_shiftLeft, Nat.shiftLeft_eq, hfield]
  omega

/-- `XR_IMM_VALID_B`, as numbers without a sign. -/
theorem xrImmValidB_iff_toNat (x : Vma) :
    xrImmValidB x ↔
      (x.toNat < 4194304 ∨ 2 ^ 64 - 4194304 ≤ x.toNat) ∧ x.toNat % 4 = 0 := by
  have hx := x.isLt
  have henc := xrImmEncodeB_toNat x
  have hfield : (xrX (xrImmEncodeB x) 11 21 <<< 2).toNat = x.toNat / 4 % 2097152 * 4 := by
    rw [BitVec.toNat_shiftLeft, Nat.shiftLeft_eq, xrX_toNat _ 11 (by omega), henc]
    omega
  have hbit : (xrImmEncodeB x >>> 31 &&& (1 : Vma)).toNat = x.toNat / 4194304 % 2 := by
    rw [BitVec.toNat_and, BitVec.toNat_ushiftRight, henc, Nat.shiftRight_eq_div_pow]
    show _ &&& 1 = _
    rw [Nat.and_one_is_mod]
    omega
  rw [xrImmValidB, xrImmExtractB]
  by_cases hsign : x.toNat / 4194304 % 2 = 0
  · have hzero : xrImmSign (xrImmEncodeB x) = 0#64 := by
      rw [xrImmSign, BitVec.eq_of_toNat_eq (hbit.trans hsign : _ = (0 : Vma).toNat)]
      rfl
    rw [hzero, BitVec.zero_shiftLeft, BitVec.or_zero, ← BitVec.toNat_inj, hfield]
    omega
  · -- the sign fills the bits from 23 on
    have hones : xrImmSign (xrImmEncodeB x) = BitVec.allOnes 64 := by
      have hone : x.toNat / 4194304 % 2 = 1 := by omega
      rw [xrImmSign, BitVec.eq_of_toNat_eq (hbit.trans hone : _ = (1 : Vma).toNat)]
      rfl
    have hor : (xrX (xrImmEncodeB x) 11 21 <<< 2 ||| BitVec.allOnes 64 <<< 23).toNat =
        (2 ^ 41 - 1) * 8388608 + x.toNat / 4 % 2097152 * 4 := by
      have hshift : (BitVec.allOnes 64 <<< 23).toNat = (2 ^ 41 - 1) <<< 23 := by decide
      rw [BitVec.toNat_or, Nat.or_comm, hfield, hshift,
        ← Nat.shiftLeft_add_eq_or_of_lt (show x.toNat / 4 % 2097152 * 4 < 2 ^ 23 by omega),
        Nat.shiftLeft_eq]
    rw [hones, ← BitVec.toNat_inj, hor]
    omega

theorem xrImmValidB_iff (x : Vma) : xrImmValidB x ↔ InReach x := by
  have hx := x.isLt
  rw [xrImmValidB_iff_toNat, InReach, BitVec.toInt_eq_toNat_cond]
  split <;> omega

/-- The word of a branch has nothing in the field. -/
theorem branch_word_lt (op : BranchOp) (ra : Fin 32) : (BranchInsn.branch op ra).word < 2048 := by
  have hop : op.opcode < 2 ^ 11 := by cases op <;> decide
  have hra : ra.val <<< 6 < 2 ^ 11 := by
    rw [Nat.shiftLeft_eq]
    omega
  exact Nat.or_lt_two_pow hop hra

/-- The displacement that the processor finds in the field. -/
theorem displacement_eq {delta : Vma} (h : InReach delta) {word : Nat} (hword : word < 2048) :
    ((BitVec.ofNat 32 ((xrImmEncodeB delta).toNat + word)).extractLsb' 11 21).signExtend 32 <<< 2 =
      delta.setWidth 32 := by
  obtain ⟨hlow, hhigh, halign⟩ := h
  have hdelta := delta.isLt
  have hint := BitVec.toInt_eq_toNat_cond delta
  have hfield : ((BitVec.ofNat 32 ((xrImmEncodeB delta).toNat + word)).extractLsb' 11 21).toNat =
      delta.toNat / 4 % 2097152 := by
    rw [BitVec.extractLsb'_toNat, BitVec.toNat_ofNat, xrImmEncodeB_toNat,
      Nat.shiftRight_eq_div_pow]
    omega
  have hsigned : ((BitVec.ofNat 32 ((xrImmEncodeB delta).toNat + word)).extractLsb' 11 21).toInt =
      delta.toInt / 4 := by
    rw [BitVec.toInt_eq_toNat_cond, hfield]
    split at hint <;> split <;> omega
  apply BitVec.eq_of_toInt_eq
  rw [BitVec.toInt_shiftLeft, BitVec.signExtend, hsigned, BitVec.toNat_ofInt, Nat.shiftLeft_eq,
    BitVec.toInt_setWidth, Int.bmod_def, Int.bmod_def]
  split at hint <;> split <;> split <;> omega

/-! ## The assembler and the linker -/

section
variable (op : BranchOp) (ra : Fin 32) (position : Nat) (sym : Symbol) (offset secAddr : Vma)
  (seg : Nat) (s : GasState)

/-- A branch is encoded without a check. -/
theorem mdApplyFix_branch :
    mdApplyFix seg (branchFix (.branch op ra) position sym offset) s =
      (sym.resolvesIn seg,
        s.orWord position (xrImmEncodeB (sym.value + offset - BitVec.ofNat 64 position))) := rfl

/-- A jump is not done with. -/
theorem mdApplyFix_jump (link : Bool) :
    (mdApplyFix seg (branchFix (.jump link) position sym offset) s).1 = false := rfl

theorem read32_appendInsn :
    (appendInsn (.branch op ra) position s).contents.read32 position =
      (BranchInsn.branch op ra).word := by
  have hword := branch_word_lt op ra
  exact s.contents.read32_write32_self position (by omega)

/-- The emitted word: the displacement over the opcode and the register. -/
theorem read32_emitted (delta : Vma) :
    ((appendInsn (.branch op ra) position s).orWord position
        (xrImmEncodeB delta)).contents.read32 position =
      (xrImmEncodeB delta).toNat + (BranchInsn.branch op ra).word := by
  have hword := branch_word_lt op ra
  have henc := xrImmEncodeB_toNat delta
  have hor : (xrImmEncodeB delta ||| BitVec.ofNat 64 (BranchInsn.branch op ra).word).toNat =
      (xrImmEncodeB delta).toNat + (BranchInsn.branch op ra).word := by
    have hshift : (xrImmEncodeB delta).toNat = (delta.toNat / 4 % 2097152) <<< 11 := by
      rw [henc, Nat.shiftLeft_eq]
    rw [BitVec.toNat_or, BitVec.toNat_ofNat, Nat.mod_eq_of_lt (by omega), hshift,
      ← Nat.shiftLeft_add_eq_or_of_lt (show _ < 2 ^ 11 from hword)]
  show ((appendInsn (.branch op ra) position s).contents.write32 position
    (xrImmEncodeB delta ||| BitVec.ofNat 64 (ByteMemory.read32 _ position)).toNat).read32
      position = _
  rw [read32_appendInsn, hor]
  exact read32_write32_self _ position (by omega)

/-- A displacement in reach takes the branch to its target. -/
theorem reaches_of_inReach (h : InReach (sym.value + offset - BitVec.ofNat 64 position)) :
    Reaches (.branch op ra) position (sym.value + offset)
      (mdApplyFix seg (branchFix (.branch op ra) position sym offset)
        (appendInsn (.branch op ra) position s)).2.contents := by
  intro base
  have htarget : base + BitVec.ofNat 32 position
      + (sym.value + offset - BitVec.ofNat 64 position).setWidth 32 =
        base + (sym.value + offset).setWidth 32 := by
    have hwidth := BitVec.setWidth_add (sym.value + offset - BitVec.ofNat 64 position)
      (BitVec.ofNat 64 position) (show 32 ≤ 64 by omega)
    rw [sub_add_cancel, BitVec.setWidth_ofNat_of_le (by omega)] at hwidth
    rw [hwidth]
    ring
  rw [mdApplyFix_branch, read32_emitted]
  show base + BitVec.ofNat 32 position + _ = _
  rw [displacement_eq h (branch_word_lt op ra), htarget]

/-- The linker asks first. -/
theorem linkerAccepts_iff (contents : ByteMemory) :
    LinkerAccepts (.branch op ra) position sym offset secAddr contents ↔
      InReach (sym.value + offset - BitVec.ofNat 64 position) := by
  have htarget : Rela.target ⟨position, .branch, offset⟩ (secAddr + sym.value) secAddr =
      sym.value + offset - BitVec.ofNat 64 position := by
    show secAddr + sym.value - (secAddr + BitVec.ofNat 64 position) + offset = _
    ring
  rw [LinkerAccepts, ← xrImmValidB_iff]
  show (∃ contents', performRelocation ⟨position, .branch, offset⟩ _ _ _ = _) ↔ _
  rw [performRelocation_eq, htarget]
  show (∃ contents', (encodeIf xrImmValidB xrImmEncodeB _).map _ = Except.ok contents') ↔ _
  unfold encodeIf
  split
  next hvalid => exact iff_of_true ⟨_, rfl⟩ hvalid
  next hvalid =>
    refine iff_of_false ?_ hvalid
    rintro ⟨contents', heq⟩
    cases heq

end

/-- The fixups that come out right: those left to the linker, and the branches whose displacement
fits and that are not reported. What does not fit has to be reported by chance. -/
theorem fixupMeets_iff (reports : Vma → Bool) (insn : BranchInsn) (position : Nat) (sym : Symbol)
    (offset secAddr : Vma) (seg : Nat) (s : GasState) :
    FixupMeets reports insn position sym offset secAddr seg s ↔
      (insn.isBranch = true → sym.resolvesIn seg = true →
        (InReach (sym.value + offset - BitVec.ofNat 64 position) ↔ reports offset = false)) := by
  cases insn with
  | jump link =>
    refine iff_of_true (fun hdone => ?_) fun hbranch => Bool.noConfusion hbranch
    rw [mdApplyFix_jump] at hdone
    exact Bool.noConfusion hdone
  | branch op ra =>
    have hreaches := reaches_of_inReach op ra position sym offset seg s
    have haccepts := linkerAccepts_iff op ra position sym offset secAddr
      (appendInsn (.branch op ra) position s).contents
    have hdone := congrArg Prod.fst (mdApplyFix_branch op ra position sym offset seg
      (appendInsn (.branch op ra) position s))
    have herrors := congrArg (fun result => result.2.errors) (mdApplyFix_branch op ra position sym
      offset seg (appendInsn (.branch op ra) position s))
    have hsilent : ¬(appendInsn (.branch op ra) position s).errors <
        (mdApplyFix seg (branchFix (.branch op ra) position sym offset)
          (appendInsn (.branch op ra) position s)).2.errors := by
      rw [herrors]
      exact Nat.lt_irrefl _
    simp only [FixupMeets, hdone, haccepts, hsilent, false_or, BranchInsn.isBranch, true_implies]
    refine imp_congr_right fun _ => ?_
    constructor
    · intro ⟨_, hiff⟩
      rw [← hiff, Bool.not_eq_true]
    · intro hiff
      refine ⟨?_, by rw [hiff, Bool.not_eq_true]⟩
      cases hreports : reports offset with
      | true => exact .inl rfl
      | false => exact .inr (hreaches (hiff.2 hreports))

/-- `beq t0, target`, 4 MiB in front of its target: the sign of the field is set, the branch goes as
far backwards, and there is no error. -/
theorem farBranch_not_met :
    ¬FixupMeets reportsWide (.branch .beq 1) 0 ⟨4194304, true, 0⟩ 0 0 0 emptyState := by
  intro h
  have hrefused := (h rfl).2
  rw [linkerAccepts_iff] at hrefused
  have hsilent : ¬((appendInsn (.branch .beq 1) 0 emptyState).errors <
      (mdApplyFix 0 (branchFix (.branch .beq 1) 0 ⟨4194304, true, 0⟩ 0)
        (appendInsn (.branch .beq 1) 0 emptyState)).2.errors ∨ reportsWide 0 = true) := by
    intro hor
    rcases hor with hlt | hwide
    · exact absurd hlt (by rw [mdApplyFix_branch]; exact Nat.lt_irrefl _)
    · exact absurd hwide (by decide)
  exact absurd (hrefused.1 hsilent) (by decide)

end XrLinux.Binutils
