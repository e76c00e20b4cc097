import XrLinux.Binutils.Gas

/-!
# Binutils — immediates that the assembler resolves itself

The linker refuses a value that the immediate cannot hold and replaces the field of the word. The
assembler takes the lower 16 bits of the value, also where the immediate is scaled and could hold
more, never refuses, and leaves in the field what is already there.
-/

namespace XrLinux.Binutils

open ByteMemory

/-- How many bits of the field the lower 16 bits of a value account for. -/
def ImmKind.kept (kind : ImmKind) : Nat :=
  match kind with
  | .imm16_1 => 15
  | .imm16_2 => 14
  | _ => 16

theorem target_const (kind : ImmKind) (position : Nat) (symbol addend secAddr : Vma) :
    Rela.target ⟨position, kind.type, addend⟩ symbol secAddr = symbol + addend := by
  rw [Rela.target, if_neg (by rw [kind.not_pcRelative]; exact Bool.noConfusion)]

/-! ## The assembler -/

theorem encodeImm_word (s : Nat) (x : Vma) :
    ((encodeImm s x).setWidth 32).toNat = x.toNat / 2 ^ s % 65536 * 65536 := by
  rw [BitVec.toNat_setWidth, encodeImm_toNat]
  omega

/-- The assembler encodes the lower bits, or the upper half. -/
theorem applyConstReloc_imm (kind : ImmKind) (value : Vma) :
    ∃ bits, applyConstReloc kind.type value = some bits ∧
      bits.toNat = kind.field value.toNat % 2 ^ kind.kept * 65536 := by
  have hlow := xrImmLowPart_toNat value
  have hplain : ((xrImmEncodeI (xrImmLowPart value)).setWidth 32).toNat =
      value.toNat % 65536 % 2 ^ 16 * 65536 := by
    rw [xrImmEncodeI, encodeImm_word, hlow, Nat.pow_zero, Nat.div_one]
    rfl
  have hscaled1 : ((xrImmEncodeI1 (xrImmLowPart value)).setWidth 32).toNat =
      value.toNat % 65536 / 2 * 65536 := by
    rw [xrImmEncodeI1, encodeImm_word, hlow]
    omega
  have hscaled2 : ((xrImmEncodeI2 (xrImmLowPart value)).setWidth 32).toNat =
      value.toNat % 65536 / 4 * 65536 := by
    rw [xrImmEncodeI2, encodeImm_word, hlow]
    omega
  have hshifted : ((xrImmEncodeI16 (xrImmHighPart value)).setWidth 32).toNat =
      value.toNat / 65536 % 65536 % 2 ^ 16 * 65536 := by
    rw [encodeImm_highPart, xrImmEncodeI16, encodeImm_word]
    omega
  cases kind with
  | imm16 => exact ⟨_, rfl, hplain⟩
  | imm16Signed => exact ⟨_, rfl, hplain⟩
  | lo16 => exact ⟨_, rfl, hplain⟩
  | imm16_16 => exact ⟨_, rfl, hshifted⟩
  | hi16 => exact ⟨_, rfl, hshifted⟩
  | imm16_1 =>
    refine ⟨_, rfl, hscaled1.trans ?_⟩
    simp only [ImmKind.field, ImmKind.kept]
    omega
  | imm16_2 =>
    refine ⟨_, rfl, hscaled2.trans ?_⟩
    simp only [ImmKind.field, ImmKind.kept]
    omega
  | lo16_1 =>
    refine ⟨_, rfl, hscaled1.trans ?_⟩
    simp only [ImmKind.field, ImmKind.kept]
    omega
  | lo16_2 =>
    refine ⟨_, rfl, hscaled2.trans ?_⟩
    simp only [ImmKind.field, ImmKind.kept]
    omega

/-- A fixup of a constant. -/
def constFix (kind : ImmKind) (position : Nat) (value : Vma) : Fix :=
  { position, type := kind.type, addsy := none, subsy := none, pcrel := false, offset := value }

/-- The word that the assembler makes of one. -/
def assembledWord (kind : ImmKind) (value word : Nat) : Nat :=
  kind.field value % 2 ^ kind.kept * 65536 ||| word

theorem mdApplyFix_const (kind : ImmKind) (position : Nat) (value : Vma) (seg : Nat) (s : GasState) :
    mdApplyFix seg (constFix kind position value) s =
      (true, { s with contents :=
        s.contents.write32 position (assembledWord kind value.toNat (s.contents.read32 position)) }) := by
  obtain ⟨bits, hbits, htoNat⟩ := applyConstReloc_imm kind value
  have happly : applyFix seg (constFix kind position value) kind.type value s =
      (true, s.orWord position (bits.setWidth 64)) := by
    have himm : applyFix seg (constFix kind position value) kind.type value s =
        applyImm (constFix kind position value) kind.type value s := by cases kind <;> rfl
    simp only [himm, applyImm, hbits]
    rfl
  have hword : (bits.setWidth 64 ||| bfdGet 32 s.contents position).toNat =
      assembledWord kind value.toNat (s.contents.read32 position) := by
    have hread := s.contents.read32_lt position
    have hlt := bits.isLt
    rw [BitVec.toNat_or, BitVec.toNat_setWidth, bfdGet, BitVec.toNat_ofNat,
      Nat.mod_eq_of_lt (by omega), Nat.mod_eq_of_lt (by omega), htoNat]
    rfl
  show applyFix seg (constFix kind position value) kind.type value s = _
  rw [happly, ← hword]
  rfl

/-! ## Agreement -/

/-- What the assembler does to a constant is what the linker does to it. The errors are those of
`md_apply_fix` and of its caller, which knows only the value and `reports` it or does not. -/
def Agrees (reports : Vma → Bool) (kind : ImmKind) (symbol addend secAddr : Vma) (position seg : Nat)
    (s : GasState) : Prop :=
  match performRelocation ⟨position, kind.type, addend⟩ symbol secAddr s.contents with
  | .ok contents =>
    (mdApplyFix seg (constFix kind position (symbol + addend)) s).2.contents = contents
  | .error _ =>
    s.errors < (mdApplyFix seg (constFix kind position (symbol + addend)) s).2.errors ∨
      reports (symbol + addend) = true

/-- The field of the word has no bit that the immediate does not have, and it has those that the
assembler forgets. -/
def Prefilled (kind : ImmKind) (value word : Nat) : Prop :=
  ∀ i < 16,
    (word.testBit (16 + i) = true → (kind.field value).testBit i = true) ∧
      ((kind.field value).testBit i = true → i < kind.kept ∨ word.testBit (16 + i) = true)

/-- When the assembler does with a constant what the linker does. -/
def AgreesWhen (reports : Vma → Bool) (kind : ImmKind) (value : Vma) (word : Nat) : Prop :=
  (kind.Accepts value.toNat ∧ Prefilled kind value.toNat word) ∨
    (¬ kind.Accepts value.toNat ∧ reports value = true)

theorem testBit_assembledWord (kind : ImmKind) (value word j : Nat) :
    (assembledWord kind value word).testBit j =
      (decide (16 ≤ j) && (decide (j - 16 < kind.kept) && (kind.field value).testBit (j - 16)) ||
        word.testBit j) := by
  rw [assembledWord, Nat.testBit_or]
  show ((_ * 2 ^ 16).testBit j || _) = _
  rw [← Nat.shiftLeft_eq, Nat.testBit_shiftLeft, Nat.testBit_mod_two_pow]

theorem testBit_linkedWord (kind : ImmKind) (value word j : Nat) :
    (linkedWord kind value word).testBit j =
      (decide (16 ≤ j) && (kind.field value).testBit (j - 16) ||
        decide (j < 16) && word.testBit j) := by
  have hor : linkedWord kind value word = kind.field value <<< 16 ||| word % 2 ^ 16 := by
    rw [← Nat.shiftLeft_add_eq_or_of_lt (Nat.mod_lt _ (Nat.two_pow_pos 16)), Nat.shiftLeft_eq,
      Nat.add_comm]
    rfl
  rw [hor, Nat.testBit_or, Nat.testBit_shiftLeft, Nat.testBit_mod_two_pow]

theorem assembledWord_lt (kind : ImmKind) (value : Nat) {word : Nat} (hword : word < 4294967296) :
    assembledWord kind value word < 4294967296 := by
  have hfield := kind.field_lt value
  have hkept := Nat.mod_le (kind.field value) (2 ^ kind.kept)
  exact Nat.or_lt_two_pow (n := 32) (show _ * 65536 < 2 ^ 32 by omega) hword

theorem assembledWord_eq_iff (kind : ImmKind) (value : Nat) {word : Nat} (hword : word < 4294967296) :
    assembledWord kind value word % 4294967296 = linkedWord kind value word % 4294967296 ↔
      Prefilled kind value word := by
  rw [Nat.mod_eq_of_lt (assembledWord_lt kind value hword),
    Nat.mod_eq_of_lt (linkedWord_lt kind value word)]
  constructor
  · intro h i hi
    have hbit := congrArg (fun n => n.testBit (16 + i)) h
    simp only [testBit_assembledWord, testBit_linkedWord, Nat.le_add_right, decide_true,
      Bool.true_and, Nat.add_sub_cancel_left, Nat.not_lt.mpr (Nat.le_add_right 16 i), decide_false,
      Bool.false_and, Bool.or_false] at hbit
    cases hfield : (kind.field value).testBit i with
    | true =>
      rw [hfield, Bool.and_true, Bool.or_eq_true, decide_eq_true_eq] at hbit
      exact ⟨fun _ => rfl, fun _ => hbit⟩
    | false =>
      rw [hfield, Bool.and_false, Bool.false_or] at hbit
      exact ⟨fun h => absurd h (by rw [hbit]; exact Bool.noConfusion), fun h => Bool.noConfusion h⟩
  · intro h
    apply Nat.eq_of_testBit_eq
    intro j
    rw [testBit_assembledWord, testBit_linkedWord]
    by_cases hlow : j < 16
    · simp [hlow, Nat.not_le.mpr hlow]
    · by_cases hhigh : j < 32
      · obtain ⟨hset, hneeded⟩ := h (j - 16) (by omega)
        rw [show 16 + (j - 16) = j by omega] at hset hneeded
        simp only [hlow, show 16 ≤ j by omega, decide_true, decide_false, Bool.true_and,
          Bool.false_and, Bool.or_false]
        cases hfield : (kind.field value).testBit (j - 16) with
        | true =>
          rw [Bool.and_true, Bool.or_eq_true, decide_eq_true_eq]
          exact hneeded hfield
        | false =>
          rw [Bool.and_false, Bool.false_or, Bool.eq_false_iff]
          intro hword
          rw [hset hword] at hfield
          exact Bool.noConfusion hfield
      · have hpow : 2 ^ 32 ≤ 2 ^ j := Nat.pow_le_pow_right (by omega) (by omega)
        have hpow' : 2 ^ 16 ≤ 2 ^ (j - 16) := Nat.pow_le_pow_right (by omega) (by omega)
        have hfield := kind.field_lt value
        rw [Nat.testBit_lt_two_pow (show word < 2 ^ j by omega),
          Nat.testBit_lt_two_pow (show kind.field value < 2 ^ (j - 16) by omega)]
        simp

/-- In a word without an immediate, nothing may be forgotten. -/
theorem prefilled_empty_iff (kind : ImmKind) (value : Nat) {word : Nat} (hword : word < 65536) :
    Prefilled kind value word ↔ kind.field value < 2 ^ kind.kept := by
  have hbit : ∀ i, word.testBit (16 + i) = false := by
    intro i
    have hpow : 2 ^ 16 ≤ 2 ^ (16 + i) := Nat.pow_le_pow_right (by omega) (by omega)
    exact Nat.testBit_lt_two_pow (by omega)
  constructor
  · intro h
    apply Nat.lt_pow_two_of_testBit
    intro i hi
    by_cases h16 : i < 16
    · rw [← Bool.not_eq_true]
      intro hset
      have hkept := (h i h16).2 hset
      rw [hbit] at hkept
      exact hkept.elim (Nat.not_lt.mpr hi) Bool.noConfusion
    · have hpow : 2 ^ 16 ≤ 2 ^ i := Nat.pow_le_pow_right (by omega) (by omega)
      exact Nat.testBit_lt_two_pow (lt_of_lt_of_le (kind.field_lt value) hpow)
  · intro h i _
    refine ⟨fun hset => absurd hset (by rw [hbit]; exact Bool.noConfusion), fun hset => .inl ?_⟩
    by_contra hkept
    have hpow : 2 ^ kind.kept ≤ 2 ^ i := Nat.pow_le_pow_right (by omega) (by omega)
    rw [Nat.testBit_lt_two_pow (lt_of_lt_of_le h hpow)] at hset
    exact Bool.noConfusion hset

section
variable {reports : Vma → Bool} {kind : ImmKind} {symbol addend : Vma} (secAddr : Vma)
  (position seg : Nat) (s : GasState)

theorem agrees_accepted (h : kind.Accepts (symbol + addend).toNat) :
    Agrees reports kind symbol addend secAddr position seg s ↔
      Prefilled kind (symbol + addend).toNat (s.contents.read32 position) := by
  have htarget := target_const kind position symbol addend secAddr
  rw [Agrees, mdApplyFix_const,
    performRelocation_imm symbol secAddr s.contents kind.isImm rfl (by rwa [htarget]), htarget]
  show s.contents.write32 _ _ = _ ↔ _
  rw [ByteMemory.write32_eq_iff, assembledWord_eq_iff _ _ (s.contents.read32_lt position)]

theorem agrees_refused (h : ¬ kind.Accepts (symbol + addend).toNat) :
    Agrees reports kind symbol addend secAddr position seg s ↔
      reports (symbol + addend) = true := by
  have htarget := target_const kind position symbol addend secAddr
  rw [Agrees, mdApplyFix_const,
    performRelocation_imm_error symbol secAddr s.contents rfl (by rwa [htarget])]
  show s.errors < s.errors ∨ _ ↔ _
  simp only [Nat.lt_irrefl, false_or]

end

theorem applyConstReloc_agrees_iff (reports : Vma → Bool) (kind : ImmKind)
    (symbol addend secAddr : Vma) (position seg : Nat) (s : GasState) :
    Agrees reports kind symbol addend secAddr position seg s ↔
      AgreesWhen reports kind (symbol + addend) (s.contents.read32 position) := by
  rw [AgreesWhen]
  by_cases haccepts : kind.Accepts (symbol + addend).toNat
  · rw [agrees_accepted _ _ _ _ haccepts]
    simp only [haccepts, true_and, not_true, false_and, or_false]
  · rw [agrees_refused _ _ _ _ haccepts]
    simp only [haccepts, false_and, not_false_eq_true, true_and, false_or]

/-- The caller's own check, that a value has no more than 32 bits. -/
def reportsWide (value : Vma) : Bool :=
  decide (4294967296 ≤ value.toNat ∧ value.toNat < 2 ^ 64 - 4294967296)

/-- An empty word at the start of an empty section. -/
def emptyState : GasState :=
  { contents := fun _ => 0, hiFixups := fun _ _ => none, errors := 0, fatal := false }

/-- A halfword access 65536 bytes from its base becomes one at the base; a byte access that far is
not refused but becomes one at the base as well. -/
theorem applyConstReloc_truncates :
    ¬ Agrees reportsWide .imm16_1 65536 0 0 0 0 emptyState ∧
      ¬ Agrees reportsWide .imm16 65536 0 0 0 0 emptyState := by
  constructor
  · rw [agrees_accepted _ _ _ _ (show ImmKind.imm16_1.Accepts _ by decide)]
    rw [prefilled_empty_iff _ _ (show emptyState.contents.read32 0 < 65536 by decide)]
    decide
  · rw [agrees_refused _ _ _ _ (show ¬ ImmKind.imm16.Accepts _ by decide)]
    decide

end XrLinux.Binutils
