import XrLinux.Binutils.OperandScan

/-!
# Binutils — the grammar of operands

What an instruction line has to look like, and what it stands for. The same grammar is used with
two sets of rules: `Rules.full`, where brackets are closed and immediates are there, and
`Rules.lax`, which is what `xr17032_ip` goes by (`readOperands_eq_some_iff`).

Names are as long as they can be, and the name of a register is a register. Where there may be
blanks the rules say so; the scrubber leaves them only between names.
-/

namespace XrLinux.Binutils.Operands

/-! ## What is written -/

/-- The shift of an index, with its count. -/
abbrev Shift := Option (Nat × BitVec 64)

inductive Written (S : Type) where
  | reg (n : Nat)
  | shifted (n : Nat) (shift : Shift)
  | small (value : BitVec 64)
  | imm (reloc : RelocType) (e : Expression S)
  | memImm (base : Nat) (offset : Option (RelocType × Expression S))
  | memReg (base n : Nat) (shift : Shift)

def shiftBits : Shift → BitVec 32
  | none => 0
  | some shift => BitVec.ofNat 32 shift.1 <<< 26 ||| (shift.2 <<< 21).setWidth 32

namespace Written

variable {S : Type}

/-- Where an operand goes in the instruction. The base of the memory operand that is written first,
the destination, is register A. -/
def bits (isFirst : Bool) : Operand → Written S → BitVec 32
  | .regA, reg n => BitVec.ofNat 32 n <<< 6
  | .regB, reg n => BitVec.ofNat 32 n <<< 11
  | .regC, reg n => BitVec.ofNat 32 n <<< 16
  | .creg, reg n => BitVec.ofNat 32 n <<< 16
  | .regCShift, shifted n shift => BitVec.ofNat 32 n <<< 16 ||| shiftBits shift
  | .immSmall, small value => (value &&& 31).setWidth 32 <<< 11
  | .memImm _, memImm base _ => BitVec.ofNat 32 base <<< if isFirst then 6 else 11
  | .memReg _, memReg base n shift =>
    BitVec.ofNat 32 base <<< 11 ||| (BitVec.ofNat 32 n <<< 16 ||| shiftBits shift)
  | _, _ => 0

/-- What is left to a fixup. -/
def fix : Written S → Option (RelocType × Expression S)
  | imm reloc e => some (reloc, e)
  | memImm _ offset => offset
  | _ => none

end Written

/-- The bits of the operands from one on. -/
def bitsFrom {S : Type} (isFirst : Bool) : List Operand → List (Written S) → BitVec 32
  | op :: ops, w :: ws => w.bits isFirst op ||| bitsFrom false ops ws
  | _, _ => 0

/-- The instruction that an entry and its operands stand for. -/
def encode {S : Type} (e : Opcode) (ws : List (Written S)) : Insn S :=
  ⟨e, e.opcodeBits ||| bitsFrom true e.operands ws, ws.findSome? Written.fix⟩

/-! ## Rules -/

/-- Where readings differ. -/
structure Rules (S : Type) where
  /-- What may stand for an immediate. -/
  immediate : Expression S → Prop
  /-- The end of a memory operand behind its offset. -/
  closes : Text → Text → Prop
  /-- The end of a memory operand behind its base. -/
  closesBase : Text → Text → Prop

section
variable {S : Type} (gas : Gas S)

/-- An immediate is there and gas can make a fixup of it, and brackets are closed once. -/
def Rules.full : Rules S where
  immediate e := e.op ≠ .absent ∧ e.op ≠ .illegal ∧ gas.fixErrors e = 0
  closes s rest := skipBlanks s = ']' :: rest
  closesBase s rest := skipBlanks s = ']' :: rest ∧ peek (skipBlanks rest) ≠ ']'

/-- A bracket is passed over where there is one. -/
def passBracket (s : Text) : Text :=
  if peek (skipBlanks s) = ']' then (skipBlanks s).tail else s

/-- Anything is an immediate, brackets may stay open, and any character will do behind a base. -/
def Rules.lax : Rules S where
  immediate _ := True
  closes s rest := rest = passBracket s
  closesBase s rest := peek (skipBlanks s) ≠ '+' ∧ rest = passBracket (skipBlanks s).tail

/-! ## Operands -/

/-- An expression that gas has nothing to say about. -/
structure Reads (probing : Bool) (s : Text) (e : Expression S) (rest : Text) : Prop where
  expr_eq : (gas.expression probing s).expr = e
  rest_eq : (gas.expression probing s).rest = rest
  errors_eq : (gas.expression probing s).errors = 0

variable (rules : Rules S)

/-- An immediate, maybe with an operator such as `%lo`, which may itself be in parentheses. -/
inductive Immediate (ops : PercentOps) (reloc : RelocType) :
    Text → RelocType × Expression S → Text → Prop
  | plain {s rest : Text} {e : Expression S} (hplain : peek (skipOpen s 0).1 ≠ '%')
      (hreads : Reads gas ((skipOpen s 0).2 = 0) s e rest) (hvalid : rules.immediate e) :
      Immediate ops reloc s (reloc, e) rest
  | operator {s arg behind rest : Text} {type : RelocType} {e : Expression S}
      (hpercent : peek (skipOpen s 0).1 = '%')
      (hknown : parseRelocation ops (skipOpen s 0).1 = some (type, arg))
      (hone : peek (skipOpen arg (skipOpen s 0).2).1 ≠ '%')
      (hreads : Reads gas false arg e behind) (hvalid : rules.immediate e)
      (hclosed : skipClose behind (skipOpen s 0).2 = (rest, 0)) :
      Immediate ops reloc s (type, e) rest

/-- A register, or one that is shifted by a constant below 32. -/
inductive ShiftedReg : Text → Nat → Shift → Text → Prop
  | plain {s rest : Text} {n : Nat} (hreg : regLookup gas regNames s = some (n, rest))
      (hplain : regLookup gas shiftOpNames (skipBlanks rest) = none) :
      ShiftedReg s n none (skipBlanks rest)
  | shifted {s t u rest : Text} {n op : Nat} {e : Expression S}
      (hreg : regLookup gas regNames s = some (n, t))
      (hshift : regLookup gas shiftOpNames (skipBlanks t) = some (op, u))
      (hreads : Reads gas true u e rest) (hconst : e.op = .constant)
      (hsmall : (normalizeConstantExpr e).addNumber ≤ 31#64) :
      ShiftedReg s n (some (op, (normalizeConstantExpr e).addNumber)) rest

/-- The size of a memory operand and its bracket. -/
def Bracket (size : MemSize) (s rest : Text) : Prop :=
  ∃ t, regLookup gas memSizeNames s = some (size.shift, t) ∧ skipBlanks t = '[' :: rest

/-- The operators for the offset of a memory operand, and its relocation without one. -/
def MemSize.offset : MemSize → PercentOps × RelocType
  | .byte => (percentOpImm, .imm16)
  | .int => (percentOpImm1, .imm16_1)
  | .long => (percentOpImm2, .imm16_2)

inductive FitsMemImm (size : MemSize) : Text → Written S → Text → Prop
  | offset {s t u v x rest : Text} {base : Nat} {fix : RelocType × Expression S}
      (hbracket : Bracket gas size s t) (hbase : regLookup gas regNames t = some (base, u))
      (hplus : skipBlanks u = '+' :: v)
      (himm : Immediate gas rules (MemSize.offset size).1 (MemSize.offset size).2 v fix x)
      (hcloses : rules.closes x rest) : FitsMemImm size s (.memImm base (some fix)) rest
  | base {s t u rest : Text} {base : Nat}
      (hbracket : Bracket gas size s t) (hbase : regLookup gas regNames t = some (base, u))
      (hcloses : rules.closesBase u rest) : FitsMemImm size s (.memImm base none) rest
  | absolute {s t x rest : Text} {fix : RelocType × Expression S}
      (hbracket : Bracket gas size s t) (hbase : regLookup gas regNames t = none)
      (himm : Immediate gas rules (MemSize.offset size).1 (MemSize.offset size).2 t fix x)
      (hcloses : rules.closes x rest) : FitsMemImm size s (.memImm regZero (some fix)) rest

inductive FitsMemReg (size : MemSize) : Text → Written S → Text → Prop
  | index {s t u v x rest : Text} {base n : Nat} {shift : Shift}
      (hbracket : Bracket gas size s t) (hbase : regLookup gas regNames t = some (base, u))
      (hplus : skipBlanks u = '+' :: v) (hindex : ShiftedReg gas v n shift x)
      (hcloses : rules.closes x rest) : FitsMemReg size s (.memReg base n shift) rest

inductive FitsReg (table : NameTable) : Text → Written S → Text → Prop
  | reg {s rest : Text} {n : Nat} (hreg : regLookup gas table s = some (n, rest)) :
      FitsReg table s (.reg n) rest

inductive FitsTarget (reloc : RelocType) : Text → Written S → Text → Prop
  | target {s rest : Text} {e : Expression S} (hreads : Reads gas true s e rest)
      (hvalid : rules.immediate e) : FitsTarget reloc s (.imm reloc e) rest

inductive FitsImm (ops : PercentOps) (reloc : RelocType) : Text → Written S → Text → Prop
  | imm {s rest : Text} {fix : RelocType × Expression S}
      (himm : Immediate gas rules ops reloc s fix rest) :
      FitsImm ops reloc s (.imm fix.1 fix.2) rest

/-- A constant from -16 to 15. -/
inductive FitsImmSmall : Text → Written S → Text → Prop
  | small {s rest : Text} {e : Expression S} (hreads : Reads gas true s e rest)
      (hconst : e.op = .constant) (hsmall : (normalizeConstantExpr e).addNumber + 16#64 ≤ 31#64) :
      FitsImmSmall s (.small (normalizeConstantExpr e).addNumber) rest

inductive FitsRegCShift : Text → Written S → Text → Prop
  | shifted {s rest : Text} {n : Nat} {shift : Shift} (hreg : ShiftedReg gas s n shift rest) :
      FitsRegCShift s (.shifted n shift) rest

/-- A text begins with an operand, and this is written there. -/
def Fits : Operand → Text → Written S → Text → Prop
  | .jump => FitsTarget gas rules .jump
  | .branch => FitsTarget gas rules .branch
  | .imm => FitsImm gas rules percentOpImm .imm16
  | .imm1 => FitsImm gas rules percentOpImm1 .imm16_1
  | .imm2 => FitsImm gas rules percentOpImm2 .imm16_2
  | .imm16 => FitsImm gas rules percentOpImm16 .imm16_16
  | .immSign => FitsImm gas rules percentOpNull .imm16Signed
  | .immSmall => FitsImmSmall gas
  | .regA => FitsReg gas regNames
  | .regB => FitsReg gas regNames
  | .regC => FitsReg gas regNames
  | .regCShift => FitsRegCShift gas
  | .creg => FitsReg gas controlRegNames
  | .memImm size => FitsMemImm gas rules size
  | .memReg size => FitsMemReg gas rules size

/-- What follows an operand: commas with the others, and then the end. -/
inductive FitsTail : List Operand → Text → List (Written S) → Prop
  | nil {s : Text} (hend : peek (skipBlanks s) = nul) : FitsTail [] s []
  | cons {op : Operand} {ops : List Operand} {s t rest : Text} {w : Written S}
      {ws : List (Written S)} (hcomma : skipBlanks s = ',' :: t)
      (hfits : Fits gas rules op (skipBlanks t) w rest) (htail : FitsTail ops rest ws) :
      FitsTail (op :: ops) s (w :: ws)

/-- A text is a list of operands, with nothing left over. -/
inductive FitsOperands : List Operand → Text → List (Written S) → Prop
  | nil {s : Text} (hend : peek (skipBlanks s) = nul) : FitsOperands [] s []
  | cons {op : Operand} {ops : List Operand} {s rest : Text} {w : Written S}
      {ws : List (Written S)} (hfits : Fits gas rules op (skipBlanks s) w rest)
      (htail : FitsTail gas rules ops rest ws) : FitsOperands (op :: ops) s (w :: ws)

/-! ## Lines -/

/-- The mnemonic of a line and the text of its operands. The word `signed` belongs to the mnemonic
if there is one with it. -/
def splitMnemonic (str : Text) : List Char × Text :=
  let name := str.takeWhile fun c => !isSpace c && c ≠ nul
  let behind := str.drop name.length
  if isSpace (peek behind) then
    let operands := behind.tail
    let last := operands.drop 6
    if signedWord <+: operands ∧ (peek last = nul ∨ isSpace (peek last)) ∧
        findInsn (name ++ ' ' :: signedWord) ≠ [] then
      (name ++ ' ' :: signedWord, if peek last = nul then last else last.tail)
    else (name, operands)
  else (name, behind)

/-- A line fits an entry of its mnemonic in full. -/
structure FitsLine (str : Text) (e : Opcode) (ws : List (Written S)) : Prop where
  mem : e ∈ xr17032Opcodes
  mnemonic_eq : e.mnemonic = (splitMnemonic str).1
  operands : FitsOperands gas (Rules.full gas) e.operands (splitMnemonic str).2 ws

/-- The first of some entries that a text fits. -/
structure FirstFit (entries : List Opcode) (e : Opcode) (s : Text) (ws : List (Written S)) :
    Prop where
  fits : FitsOperands gas rules e.operands s ws
  first : ∃ before after, entries = before ++ e :: after ∧
    ∀ e' ∈ before, ∀ ws', ¬ FitsOperands gas rules e'.operands s ws'

end

end XrLinux.Binutils.Operands
