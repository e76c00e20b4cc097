import Mathlib.Tactic.Ring
import XrLinux.Binutils.ConstReloc
import XrLinux.Gcc.Operand

/-!
# GCC port — addresses

Which addresses `xr17032_classify_address` accepts, what `xr17032_print_operand_address` makes of
them, and where an access with the printed operand goes once the assembler and the linker have put
the offset into its field. The field counts in units of the access.

A value of more than a word is accessed word by word, so every word of it counts
(`printsEveryWord_iff`). A constant address is accepted for being small only, whatever the access;
the alignment of a low part is left to whoever makes the `LO_SUM`.
-/

namespace XrLinux.Gcc.Address

open XrLinux.Machine XrLinux.Binutils

/-! ## Modes and symbols -/

/-- A machine mode, by the logarithm of its size. The largest ones have 32 bytes. -/
structure Mode where
  log2Size : Nat
  log2Size_le : log2Size ≤ 5
  deriving DecidableEq, Repr

namespace Mode

/-- `GET_MODE_SIZE`. -/
def size (mode : Mode) : Nat := 2 ^ mode.log2Size

/-- `GET_MODE_ALIGNMENT`, in bits, which is at most `BIGGEST_ALIGNMENT`. -/
def alignment (mode : Mode) : Nat := min (8 * mode.size) 32

/-- The mode of the accesses that a value is moved with. -/
def word (mode : Mode) : Mode := ⟨min mode.log2Size 2, (Nat.min_le_right _ _).trans (by decide)⟩

/-- How many of these accesses there are. -/
def words (mode : Mode) : Nat := 2 ^ (mode.log2Size - 2)

end Mode

/-- `enum xr17032_symbol_type`. -/
inductive SymbolType where
  | absolute | pcrel | gotDisp | tls | tlsLe | tlsIe | tlsGd
  deriving DecidableEq, Repr

/-- `xr17032_symbol_insns`, where it does not reach `gcc_unreachable`. -/
def symbolInsns : SymbolType → Option Nat
  | .tls => some 0
  | .absolute | .pcrel => some 2
  | .tlsLe | .gotDisp => some 3
  | .tlsIe | .tlsGd => none

/-- `xr17032_split_symbol_type`. -/
def splitSymbolType (type : SymbolType) : Bool :=
  type = .tlsLe || type = .absolute || type = .pcrel

/-- What the compiler and the linker know of symbolic constants. -/
structure Symbols (S : Type) where
  /-- `xr17032_classify_symbolic_expression`. -/
  type : S → SymbolType
  /-- `xr17032_tls_symbol_p`. -/
  tlsSymbol : S → Bool
  value : S → Word
  /-- What the linker computes for the low part. -/
  link : S → Vma
  /-- The label of an `adr`, whose low part goes with the high part in the `adr`. -/
  label : S → S
  label_type : ∀ s, type (label s) = .pcrel

/-- The number that an operator such as `%lo` stands for. -/
def Symbols.low {S : Type} (sym : Symbols S) (s : S) : Nat := (sym.link s).toNat % 65536

/-! ## Expressions -/

/-- The RTL of an address, over registers `ρ` and symbolic constants `S`. What is of no concern to
the back end is some function of the registers in it. -/
inductive Rtx (ρ S : Type) where
  | reg (r : ρ)
  | subreg (x : Rtx ρ S)
  | const (value : Int)
  | symbolic (s : S)
  | high (s : S)
  | plus (x y : Rtx ρ S)
  | mult (x y : Rtx ρ S)
  | ashift (x y : Rtx ρ S)
  | loSum (x : Rtx ρ S) (s : S)
  | other (regs : List ρ) (f : List Word → Word)

namespace Rtx

variable {ρ S : Type} (sym : Symbols S)

def value (env : ρ → Word) : Rtx ρ S → Word
  | reg r => env r
  | subreg x => x.value env
  | const c => BitVec.ofInt 32 c
  | symbolic s => sym.value s
  | high s => sym.value s - BitVec.ofNat 32 (sym.low s)
  | plus x y => x.value env + y.value env
  | mult x y => x.value env * y.value env
  | ashift x y => x.value env <<< (y.value env).toNat
  | loSum x s => x.value env + BitVec.ofNat 32 (sym.low s)
  | other regs f => f (regs.map env)

/-- `plus_constant`. -/
def plusConstant (x : Rtx ρ S) (c : Int) : Rtx ρ S :=
  if c = 0 then x
  else match x with
    | const c' => const (c' + c)
    | plus y (const c') => if c' + c = 0 then y else plus y (const (c' + c))
    | x => plus x (const c)

theorem value_plusConstant (env : ρ → Word) (x : Rtx ρ S) (c : Int) :
    (x.plusConstant c).value sym env = x.value sym env + BitVec.ofInt 32 c := by
  unfold plusConstant
  split
  next hzero => simp [hzero]
  next hzero =>
    split
    · rw [value, value, BitVec.ofInt_add]
    next y c' =>
      split
      next hsum =>
        have hcancel : BitVec.ofInt 32 c' + BitVec.ofInt 32 c = 0#32 := by
          rw [← BitVec.ofInt_add, hsum]
          rfl
        rw [value, value, BitVec.add_assoc, hcancel, BitVec.add_zero]
      next hsum => rw [value, value, value, value, BitVec.ofInt_add, BitVec.add_assoc]
    · rw [value, value]

end Rtx

/-! ## Acceptance -/

section
variable {ρ S : Type} (sym : Symbols S) (baseOk : ρ → Bool) (strict : Bool) (mode : Mode)

/-- `xr17032_valid_base_register_p`, with `xr17032_regno_ok_for_base_p` as `baseOk`. -/
def validBaseRegister : Rtx ρ S → Bool
  | .reg r => baseOk r
  | .subreg (.reg r) => !strict && baseOk r
  | _ => false

/-- `xr17032_valid_offset_p`. -/
def Mode.validOffset : Rtx ρ S → Bool
  | .const c =>
    smallOperand c && !(4 < mode.size && !smallOperand (c + mode.size - 4)) &&
      c % mode.size = 0
  | _ => false

/-- `xr17032_valid_lo_sum_p`. -/
def Mode.validLoSum (type : SymbolType) : Bool :=
  (match symbolInsns type with
    | some n => n ≠ 0
    | none => false) &&
  splitSymbolType type && !(32 < 8 * mode.size && mode.alignment < 8 * mode.size)

/-- `struct xr17032_address_info`. -/
inductive AddressInfo (ρ S : Type) where
  | reg (base offset : Rtx ρ S)
  | loSum (base : Rtx ρ S) (s : S)
  | constInt (value : Int)

/-- `xr17032_classify_address`. -/
def classifyAddress : Rtx ρ S → Option (AddressInfo ρ S)
  | .reg r =>
    if validBaseRegister baseOk strict (.reg r : Rtx ρ S) then some (.reg (.reg r) (.const 0))
    else none
  | .subreg x =>
    if validBaseRegister baseOk strict (.subreg x) then some (.reg (.subreg x) (.const 0)) else none
  | .plus x y =>
    if validBaseRegister baseOk strict x && mode.validOffset y then some (.reg x y) else none
  | .loSum x s =>
    if validBaseRegister baseOk strict x && mode.validLoSum (sym.type s) then some (.loSum x s)
    else none
  | .const c => if smallOperand c then some (.constInt c) else none
  | _ => none

/-- `xr17032_legitimate_address_p`. -/
def legitimateAddress (x : Rtx ρ S) : Bool := (classifyAddress sym baseOk strict mode x).isSome

end

/-! ## Printing -/

/-- `xr17032_mode_id`. -/
inductive Access where
  | byte | int | long
  deriving DecidableEq, Repr

def Mode.id (mode : Mode) : Option Access :=
  if mode.log2Size = 0 then some .byte
  else if mode.log2Size = 1 then some .int
  else if mode.log2Size = 2 then some .long
  else none

/-- By how much the processor shifts the field. -/
def Access.scale : Access → Nat
  | .byte => 0
  | .int => 1
  | .long => 2

/-- The number in a printed operand. -/
inductive Offset (S : Type) where
  | number (value : Int)
  /-- `%lo`, `%pcrel_lo` or `%tprel_lo` of a symbol. -/
  | low (s : S)

/-- `[base + offset]`, with the size of the access in front. -/
structure MemOperand (S : Type) where
  access : Access
  base : Reg
  offset : Offset S

section
variable {S : Type} (sym : Symbols S)

/-- After register allocation every register is one of the machine. -/
abbrev HardRtx (S : Type) := Rtx Reg S

/-- `REGNO_REG_CLASS` of these is `GENERAL_REGS`. -/
def hardBase (_ : Reg) : Bool := true

/-- `xr17032_print_operand_address`, where it comes to an end. -/
def printOperandAddress (mode : Mode) (x : HardRtx S) : Option (MemOperand S) := do
  let access ← mode.id
  match classifyAddress sym hardBase true mode x with
  | some (.reg (.reg r) (.const c)) => some ⟨access, r, .number c⟩
  | some (.loSum (.reg r) s) =>
    -- `xr17032_print_operand_reloc` knows no operator for the other types
    if splitSymbolType (sym.type s) then some ⟨access, r, .low s⟩ else none
  | some (.constInt c) => some ⟨access, zero, .number c⟩
  | _ => none

/-- The relocation of the assembler for a number, `XR_OP_MEM*_IMM`. -/
def Access.constKind : Access → ImmKind
  | .byte => .imm16
  | .int => .imm16_1
  | .long => .imm16_2

/-- The relocation of the linker for `%lo`, which encodes like `%pcrel_lo` and `%tprel_lo`. -/
def Access.lowKind : Access → ImmKind
  | .byte => .lo16
  | .int => .lo16_1
  | .long => .lo16_2

/-- What ends up in the instruction word, unless it is refused. -/
def MemOperand.bits (op : MemOperand S) : Option (BitVec 32) :=
  match op.offset with
  | .number c => applyConstReloc op.access.constKind.type (BitVec.ofInt 64 c)
  | .low s => ((encodeReloc op.access.lowKind.type 0 (sym.link s)).map (·.setWidth 32)).toOption

/-- The number that is printed. -/
def MemOperand.number (op : MemOperand S) : Int :=
  match op.offset with
  | .number c => c
  | .low s => sym.low s

/-- What the processor adds to the base. -/
def Access.displacement (access : Access) (bits : BitVec 32) : Nat :=
  (extractImm access.scale (bits.setWidth 64)).toNat

/-- The field of the instruction holds the number. -/
def MemOperand.Encodable (op : MemOperand S) : Prop :=
  (op.bits sym).map (fun bits => (op.access.displacement bits : Int)) = some (op.number sym)

/-- Where the access goes. -/
def MemOperand.address (op : MemOperand S) (regs : RegFile) : Option Word :=
  (op.bits sym).map fun bits => regs.get op.base + BitVec.ofNat 32 (op.access.displacement bits)

theorem Access.displacement_eq (access : Access) (bits : BitVec 32) :
    access.displacement bits = bits.toNat / 65536 * 2 ^ access.scale := by
  have hbits := bits.isLt
  have hwide : (bits.setWidth 64).toNat = bits.toNat := by
    rw [BitVec.toNat_setWidth]
    omega
  rw [displacement, extractImm_toNat (by cases access <;> decide), hwide,
    Nat.mod_eq_of_lt (by omega)]

/-- A number goes into the field if it is a multiple of the unit. Whatever its size is, the
assembler takes sixteen bits of it. -/
theorem encodable_number_iff (access : Access) (base : Reg) {c : Int} (hsmall : smallOperand c) :
    MemOperand.Encodable sym ⟨access, base, .number c⟩ ↔ c % 2 ^ access.scale = 0 := by
  simp only [smallOperand, Bool.and_eq_true, decide_eq_true_eq] at hsmall
  have hc : (BitVec.ofInt 64 c).toNat = c.toNat := by
    rw [BitVec.toNat_ofInt]
    omega
  obtain ⟨bits, hbits, htoNat⟩ := applyConstReloc_imm access.constKind (BitVec.ofInt 64 c)
  have hop : MemOperand.bits sym ⟨access, base, .number c⟩ = some bits := hbits
  rw [hc] at htoNat
  rw [MemOperand.Encodable, hop, Option.map_some, Option.some.injEq, Access.displacement_eq, htoNat]
  cases access <;>
    simp only [Access.constKind, ImmKind.field, ImmKind.kept, Access.scale, MemOperand.number] <;>
    omega

/-- A low part goes into the field if it is a multiple of the unit; otherwise the linker refuses
it. -/
theorem encodable_low_iff (access : Access) (base : Reg) (s : S) :
    MemOperand.Encodable sym ⟨access, base, .low s⟩ ↔ sym.low s % 2 ^ access.scale = 0 := by
  have hencode := encodeReloc_imm access.lowKind 0 (sym.link s)
  rw [MemOperand.Encodable]
  by_cases haccepts : access.lowKind.Accepts (sym.link s).toNat
  · obtain ⟨e, he, htoNat⟩ := hencode.1 haccepts
    have hop : MemOperand.bits sym ⟨access, base, .low s⟩ = some (e.setWidth 32) := by
      simp only [MemOperand.bits, he]
      rfl
    have hfield := access.lowKind.field_lt (sym.link s).toNat
    have hword : (e.setWidth 32).toNat = access.lowKind.field (sym.link s).toNat * 65536 := by
      rw [BitVec.toNat_setWidth, htoNat]
      omega
    rw [hop, Option.map_some, Option.some.injEq, Access.displacement_eq, hword]
    cases access <;>
      simp only [Access.lowKind, ImmKind.field, Access.scale, MemOperand.number, Symbols.low] <;>
      omega
  · have hop : MemOperand.bits sym ⟨access, base, .low s⟩ = none := by
      simp only [MemOperand.bits, hencode.2 haccepts]
      rfl
    rw [hop, Option.map_none]
    refine iff_of_false (by intro hnone; cases hnone) fun hdvd => haccepts ?_
    cases access <;> simp only [Access.lowKind, ImmKind.Accepts, Access.scale, Symbols.low] at hdvd ⊢
    all_goals omega

/-- An operand that is encodable takes the access to its base plus its number. -/
theorem MemOperand.address_of_encodable {op : MemOperand S} (h : op.Encodable sym)
    (regs : RegFile) :
    op.address sym regs = some (regs.get op.base + BitVec.ofInt 32 (op.number sym)) := by
  obtain ⟨bits, hbits, hnumber⟩ := Option.map_eq_some_iff.mp h
  rw [MemOperand.address, hbits, ← hnumber]
  rfl

/-! ## Every word of an access -/

theorem Mode.validLoSum_iff (mode : Mode) (type : SymbolType) :
    mode.validLoSum type ↔ (type = .absolute ∨ type = .pcrel ∨ type = .tlsLe) ∧ mode.size ≤ 4 := by
  simp only [Mode.validLoSum, Mode.alignment, Bool.and_eq_true, Bool.not_eq_true',
    Bool.and_eq_false_imp, decide_eq_true_eq]
  cases type <;> simp [symbolInsns, splitSymbolType] <;> omega

/-- After register allocation a base is a register. -/
theorem validBaseRegister_strict_iff (x : HardRtx S) :
    validBaseRegister hardBase true x ↔ ∃ r, x = .reg r := by
  constructor
  · intro h
    unfold validBaseRegister at h
    split at h
    · exact ⟨_, rfl⟩
    · cases h
    · cases h
  · rintro ⟨r, rfl⟩
    rfl

/-- Each word of a value at the address is printed with a number that its field holds, and goes to
its place. -/
def PrintsEveryWord (mode : Mode) (x : HardRtx S) : Prop :=
  ∀ w < mode.words, ∃ op,
    printOperandAddress sym mode.word (x.plusConstant (4 * w)) = some op ∧ op.Encodable sym ∧
      ∀ regs : RegFile, op.address sym regs =
        some (x.value sym regs.get + BitVec.ofNat 32 (4 * w))

/-- A constant address is a multiple of the unit and has room for the other words behind it; a low
part is a multiple of the unit. -/
def ConstantFits (mode : Mode) : HardRtx S → Prop
  | .const c => c % mode.word.size = 0 ∧ smallOperand (c + 4 * (mode.words - 1 : Nat))
  | .loSum _ s => sym.low s % mode.word.size = 0
  | _ => True

theorem Mode.exists_id (mode : Mode) :
    ∃ access, mode.word.id = some access ∧ 2 ^ access.scale = mode.word.size := by
  obtain ⟨n, hn⟩ := mode
  match n, hn with
  | 0, _ => exact ⟨.byte, rfl, rfl⟩
  | 1, _ => exact ⟨.int, rfl, rfl⟩
  | n + 2, _ =>
    refine ⟨.long, ?_, ?_⟩ <;> simp [Mode.id, Mode.word, Mode.size, Access.scale]

/-- A value is one access of its own size, or a number of words. -/
theorem Mode.size_eq (mode : Mode) :
    mode.size = mode.word.size * mode.words ∧
      (mode.words = 1 ∧ mode.size ≤ 4 ∨ mode.word.size = 4 ∧ mode.words ≤ 8) := by
  have hall : ∀ n ≤ 5, 2 ^ n = 2 ^ min n 2 * 2 ^ (n - 2) ∧
      (2 ^ (n - 2) = 1 ∧ 2 ^ n ≤ 4 ∨ 2 ^ min n 2 = 4 ∧ 2 ^ (n - 2) ≤ 8) := by decide
  exact hall mode.log2Size mode.log2Size_le

theorem Mode.word_size_le (mode : Mode) : mode.word.size ≤ 4 :=
  Nat.pow_le_pow_right (show 0 < 2 by omega) (Nat.min_le_right mode.log2Size 2)

theorem Mode.validOffset_iff (mode : Mode) (c : Int) :
    mode.validOffset (.const c : HardRtx S) ↔
      smallOperand c ∧ (4 < mode.size → smallOperand (c + mode.size - 4)) ∧ c % mode.size = 0 := by
  simp only [Mode.validOffset, Bool.and_eq_true, Bool.not_eq_true', Bool.and_eq_false_imp,
    decide_eq_true_eq, Bool.not_eq_false', and_assoc]

theorem Mode.word_validOffset_iff (mode : Mode) (c : Int) :
    mode.word.validOffset (.const c : HardRtx S) ↔ smallOperand c ∧ c % mode.word.size = 0 := by
  have hle := mode.word_size_le
  rw [Mode.validOffset_iff]
  refine ⟨fun h => ⟨h.1, h.2.2⟩, fun h => ⟨h.1, fun hlt => absurd hlt (by omega), h.2⟩⟩

section
variable {mode : Mode} {access : Access} (hid : mode.word.id = some access)
include hid

theorem print_reg (r : Reg) :
    printOperandAddress sym mode.word (.reg r) = some ⟨access, r, .number 0⟩ := by
  simp [printOperandAddress, hid, classifyAddress, validBaseRegister, hardBase]

theorem print_plus (r : Reg) {c : Int} (hsmall : smallOperand c) (hunit : c % mode.word.size = 0) :
    printOperandAddress sym mode.word (.plus (.reg r) (.const c)) =
      some ⟨access, r, .number c⟩ := by
  have hvalid := (mode.word_validOffset_iff (S := S) c).2 ⟨hsmall, hunit⟩
  simp [printOperandAddress, hid, classifyAddress, validBaseRegister, hardBase, hvalid]

theorem print_const (c : Int) :
    printOperandAddress sym mode.word (.const c) =
      if smallOperand c then some ⟨access, zero, .number c⟩ else none := by
  cases hsmall : smallOperand c <;> simp [printOperandAddress, hid, classifyAddress, hsmall]

theorem print_loSum (r : Reg) {s : S} (hlow : mode.word.validLoSum (sym.type s)) :
    printOperandAddress sym mode.word (.loSum (.reg r) s) = some ⟨access, r, .low s⟩ := by
  have hsplit : splitSymbolType (sym.type s) := by
    rcases ((mode.word.validLoSum_iff _).1 hlow).1 with htype | htype | htype <;>
      rw [htype] <;> rfl
  simp [printOperandAddress, hid, classifyAddress, validBaseRegister, hardBase, hlow, hsplit]

end

/-- What is left to show of a word that is printed with a number. -/
theorem number_meets {mode : Mode} {access : Access}
    (hscale : 2 ^ access.scale = mode.word.size) (base : Reg) {c : Int} (hsmall : smallOperand c)
    (hunit : c % mode.word.size = 0) :
    MemOperand.Encodable sym ⟨access, base, .number c⟩ ∧
      ∀ regs, MemOperand.address sym ⟨access, base, .number c⟩ regs =
        some (regs.get base + BitVec.ofInt 32 c) := by
  have hencodable := (encodable_number_iff sym access base hsmall).2 (by
    rw [← hunit, ← hscale]
    norm_cast)
  exact ⟨hencodable, MemOperand.address_of_encodable sym hencodable⟩

/-- The words of a base and an offset that are accepted. -/
theorem printsEveryWord_plus {mode : Mode} (r : Reg) {c : Int}
    (hvalid : mode.validOffset (.const c : HardRtx S)) :
    PrintsEveryWord sym mode (.plus (.reg r) (.const c)) := by
  obtain ⟨access, hid, hscale⟩ := mode.exists_id
  obtain ⟨hsize, hwords⟩ := mode.size_eq
  obtain ⟨hsmall, hroom, halign⟩ := (mode.validOffset_iff c).1 hvalid
  rw [smallOperand_iff] at hsmall hroom
  intro w hw
  have hmul : 4 < mode.size → mode.size = 4 * mode.words := by
    intro hlt
    rcases hwords with ⟨-, hle⟩ | ⟨hfour, -⟩
    · omega
    · rw [hsize, hfour]
  have hpos : 4 < mode.size ∨ w = 0 := by
    rcases hwords with ⟨hone, -⟩ | ⟨hfour, -⟩
    · omega
    · rw [hsize, hfour]
      omega
  have hsmall' : smallOperand (c + 4 * w) := by
    rw [smallOperand_iff]
    omega
  have hunit : (c + 4 * w) % mode.word.size = 0 := by
    have hdvd : (mode.word.size : Int) ∣ c := by
      refine Int.dvd_trans ?_ (Int.dvd_of_emod_eq_zero halign)
      exact ⟨mode.words, by rw [hsize]; push_cast; ring⟩
    refine Int.emod_eq_zero_of_dvd (Int.dvd_add hdvd ?_)
    rcases hwords with ⟨hone, -⟩ | ⟨hfour, -⟩
    · obtain rfl : w = 0 := by omega
      exact ⟨0, by ring⟩
    · exact ⟨w, by rw [hfour]; rfl⟩
  have hadjust : (Rtx.plus (.reg r) (.const c) : HardRtx S).plusConstant (4 * w) =
      .plus (.reg r) (.const (c + 4 * w)) := by
    unfold Rtx.plusConstant
    split
    next hzero => rw [hzero, add_zero]
    next hzero =>
      show (if c + 4 * (w : Int) = 0 then _ else _) = _
      rw [if_neg (by omega)]
  obtain ⟨hencodable, haddress⟩ := number_meets sym hscale r hsmall' hunit
  refine ⟨_, by rw [hadjust, print_plus sym hid r hsmall' hunit], hencodable, fun regs => ?_⟩
  rw [haddress, BitVec.ofInt_add, ← BitVec.add_assoc]
  simp only [Rtx.value]
  rfl

/-- A register alone is a register with the offset zero. -/
theorem printsEveryWord_reg (mode : Mode) (r : Reg) : PrintsEveryWord sym mode (.reg r) := by
  obtain ⟨access, hid, hscale⟩ := mode.exists_id
  obtain ⟨hsize, hwords⟩ := mode.size_eq
  have hvalid : mode.validOffset (.const 0 : HardRtx S) := by
    rw [Mode.validOffset_iff, smallOperand_iff, smallOperand_iff]
    rcases hwords with ⟨-, hle⟩ | ⟨hfour, hle⟩
    · exact ⟨by omega, fun hlt => by omega, Int.zero_emod _⟩
    · rw [hsize, hfour]
      exact ⟨by omega, fun hlt => by omega, Int.zero_emod _⟩
  intro w hw
  obtain ⟨op, hprint, hencodable, haddress⟩ := printsEveryWord_plus sym r hvalid w hw
  by_cases hzero : w = 0
  · subst hzero
    obtain ⟨hencodable, haddress⟩ := number_meets sym hscale r (c := 0) (by decide) (Int.zero_emod _)
    refine ⟨_, print_reg sym hid r, hencodable, fun regs => ?_⟩
    rw [haddress]
    simp [Rtx.value]
  · refine ⟨op, ?_, hencodable, fun regs => ?_⟩
    · have hne : (4 * (w : Int)) ≠ 0 := by omega
      simpa [Rtx.plusConstant, hne] using hprint
    · rw [haddress]
      simp [Rtx.value]

/-- The words of a constant address that is accepted. -/
theorem printsEveryWord_const_iff (mode : Mode) {c : Int} (hsmall : smallOperand c) :
    PrintsEveryWord sym mode (.const c) ↔
      c % mode.word.size = 0 ∧ smallOperand (c + 4 * (mode.words - 1 : Nat)) := by
  obtain ⟨access, hid, hscale⟩ := mode.exists_id
  obtain ⟨hsize, hwords⟩ := mode.size_eq
  have hpos : 0 < mode.words := Nat.two_pow_pos _
  have hadjust (w : Nat) : (Rtx.const c : HardRtx S).plusConstant (4 * w) =
      .const (c + 4 * w) := by
    unfold Rtx.plusConstant
    split
    next hzero => rw [hzero, add_zero]
    next hzero => rfl
  have hscale' : ((2 ^ access.scale : Nat) : Int) = mode.word.size := by rw [hscale]
  rw [smallOperand_iff] at hsmall
  constructor
  · intro h
    constructor
    · obtain ⟨op, hprint, hencodable, -⟩ := h 0 hpos
      rw [hadjust, print_const sym hid, if_pos (by rw [smallOperand_iff]; omega),
        Option.some.injEq] at hprint
      subst hprint
      have hunit := (encodable_number_iff sym access zero
        (by rw [smallOperand_iff]; omega)).1 hencodable
      rw [← hscale', ← hunit]
      push_cast
      congr 1
      omega
    · obtain ⟨op, hprint, -⟩ := h (mode.words - 1) (by omega)
      rw [hadjust, print_const sym hid] at hprint
      by_contra hlarge
      rw [if_neg hlarge] at hprint
      cases hprint
  · intro ⟨halign, hroom⟩ w hw
    rw [smallOperand_iff] at hroom
    have hsmall' : smallOperand (c + 4 * w) := by
      rw [smallOperand_iff]
      omega
    have hunit : (c + 4 * w) % mode.word.size = 0 := by
      rcases hwords with ⟨hone, -⟩ | ⟨hfour, -⟩
      · obtain rfl : w = 0 := by omega
        simpa using halign
      · rw [hfour] at halign ⊢
        omega
    obtain ⟨hencodable, haddress⟩ := number_meets sym hscale zero hsmall' hunit
    refine ⟨_, by rw [hadjust, print_const sym hid, if_pos hsmall'], hencodable, fun regs => ?_⟩
    rw [haddress, BitVec.ofInt_add, RegFile.get_zero]
    exact congrArg some (BitVec.zero_add _)

/-- A low part is the address of one access. -/
theorem printsEveryWord_loSum_iff {mode : Mode} (r : Reg) {s : S}
    (hlow : mode.validLoSum (sym.type s)) :
    PrintsEveryWord sym mode (.loSum (.reg r) s) ↔ sym.low s % mode.word.size = 0 := by
  obtain ⟨access, hid, hscale⟩ := mode.exists_id
  obtain ⟨hsize, hwords⟩ := mode.size_eq
  obtain ⟨htype, hle⟩ := (mode.validLoSum_iff _).1 hlow
  have hone : mode.words = 1 := by
    rcases hwords with ⟨hone, -⟩ | ⟨hfour, -⟩
    · exact hone
    · rw [hfour] at hsize
      have hpos : 0 < mode.words := Nat.two_pow_pos _
      omega
  have hlow' : mode.word.validLoSum (sym.type s) :=
    (mode.word.validLoSum_iff _).2 ⟨htype, mode.word_size_le⟩
  have hprint := print_loSum sym hid r hlow'
  rw [← hscale, ← encodable_low_iff sym access r s]
  constructor
  · intro h
    obtain ⟨op, hop, hencodable, -⟩ := h 0 (by omega)
    rw [show (Rtx.loSum (.reg r) s : HardRtx S).plusConstant (4 * (0 : Nat)) = .loSum (.reg r) s
      from rfl, hprint, Option.some.injEq] at hop
    rwa [hop]
  · intro hencodable w hw
    obtain rfl : w = 0 := by omega
    refine ⟨_, hprint, hencodable, fun regs => ?_⟩
    rw [MemOperand.address_of_encodable sym hencodable]
    simp [Rtx.value, MemOperand.number]

/-- An accepted address is printed right for the whole access unless it is a constant, or has a low
part, that does not fit. -/
theorem printsEveryWord_iff {mode : Mode} {x : HardRtx S}
    (haccepted : legitimateAddress sym hardBase true mode x) :
    PrintsEveryWord sym mode x ↔ ConstantFits sym mode x := by
  have hinfo := Option.isSome_iff_exists.1 haccepted
  cases x with
  | reg r => exact iff_of_true (printsEveryWord_reg sym mode r) trivial
  | const c =>
    refine printsEveryWord_const_iff sym mode ?_
    by_contra hlarge
    simp [classifyAddress, hlarge] at hinfo
  | plus y z =>
    simp only [classifyAddress, Option.ite_none_right_eq_some, Bool.and_eq_true,
      validBaseRegister_strict_iff] at hinfo
    obtain ⟨_, ⟨⟨r, rfl⟩, hvalid⟩, -⟩ := hinfo
    cases z with
    | const c => exact iff_of_true (printsEveryWord_plus sym r hvalid) trivial
    | _ => cases hvalid
  | loSum y s =>
    simp only [classifyAddress, Option.ite_none_right_eq_some, Bool.and_eq_true,
      validBaseRegister_strict_iff] at hinfo
    obtain ⟨_, ⟨⟨r, rfl⟩, hvalid⟩, -⟩ := hinfo
    exact printsEveryWord_loSum_iff sym r hvalid
  | subreg y =>
    simp only [classifyAddress, Option.ite_none_right_eq_some, validBaseRegister_strict_iff]
      at hinfo
    obtain ⟨_, ⟨r, heq⟩, -⟩ := hinfo
    cases heq
  | symbolic | high | mult | ashift | other =>
    obtain ⟨_, heq⟩ := hinfo
    cases heq

end

end XrLinux.Gcc.Address
