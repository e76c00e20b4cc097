import XrLinux.Binutils.Opcodes
import XrLinux.Binutils.Reloc

/-!
# Binutils — assembling an instruction

`md_assemble`: `xr17032_ip` finds the table entries of a line's mnemonic and reads the operands of
one after another until one goes through. Pointers into the line are modelled by what they point
at, up to the end of the buffer and not only of the line: some of them run over the NUL.

`expression`, the classes of characters and `fix_new_exp` are gas's own, and a parameter.
-/

namespace XrLinux.Binutils.Operands

/-! ## Text -/

/-- What a pointer points at. Behind the buffer there are NULs. -/
abbrev Text := List Char

def nul : Char := Char.ofNat 0

def tab : Char := Char.ofNat 9

/-- `*s`. -/
def peek (s : Text) : Char := s.headD nul

/-- `ISSPACE`. -/
def isSpace (c : Char) : Bool := c = ' ' || (9 ≤ c.toNat && c.toNat ≤ 13)

def isBlank (c : Char) : Bool := c = ' ' || c = tab

/-- `s += strspn (s, " \t")`. -/
def skipBlanks (s : Text) : Text := s.dropWhile isBlank

/-! ## gas -/

/-- `X_op`, as far as it is told apart here. -/
inductive ExprOp where
  | absent | illegal | constant | big | symbol | other
  deriving DecidableEq, Repr

/-- `expressionS`. The symbols in it are of no concern. -/
structure Expression (S : Type) where
  op : ExprOp
  addNumber : BitVec 64
  symbols : S

/-- What `expression` makes of a text. -/
structure Parsed (S : Type) where
  expr : Expression S
  /-- `input_line_pointer` behind it. -/
  rest : Text
  /-- How many errors it has reported. -/
  errors : Nat
  /-- The names in it, which go to `md_parse_name` first. -/
  names : List Text

structure Gas (S : Type) where
  nameBeginner : Char → Bool
  partOfName : Char → Bool
  /-- `expression`, with `probing_insn_operands`, which only matters to `md_parse_name`. -/
  expression : Bool → Text → Parsed S
  /-- The errors of `fix_new_exp` and what follows from it. -/
  fixErrors : Expression S → Nat

/-- What lasts from one instruction to the next. -/
structure Globals where
  /-- `expr_parse_end`. -/
  parseEnd : Text
  symbols : List Text
  /-- Symbols with the names of registers that are not in the table yet. -/
  deferred : List Text
  orphans : List Text
  errors : Nat

/-- The operands in the making. -/
structure Scan (S : Type) extends Globals where
  asarg : Text
  insnOpcode : BitVec 32
  imm : Expression S
  /-- `BFD_RELOC_UNUSED` is `none`. -/
  reloc : Option RelocType

/-- `xr17032_parse_name`; a name that it leaves gets its symbol from gas. -/
def parseName (probing : Bool) (g : Globals) (name : Text) : Globals :=
  if probing && (regNames.lookup name).isSome && name ∉ g.symbols then
    if name ∈ g.deferred then g
    else { g with orphans := g.orphans.erase name, deferred := g.deferred ++ [name] }
  else if name ∈ g.symbols then g
  else { g with symbols := g.symbols ++ [name] }

section
variable {S : Type} (gas : Gas S)

/-! ## Names and expressions -/

/-- A name, and what is behind it. -/
def splitName : Text → Text × Text
  | [] => ([], [])
  | c :: t =>
    if gas.nameBeginner c then (c :: t.takeWhile gas.partOfName, t.dropWhile gas.partOfName)
    else ((c :: t).takeWhile gas.partOfName, (c :: t).dropWhile gas.partOfName)

/-- `reg_lookup`. -/
def regLookup (table : NameTable) (s : Text) : Option (Nat × Text) :=
  (table.lookup (splitName gas s).1).map (·, (splitName gas s).2)

/-- `my_getExpression`. -/
def myGetExpression (probing : Bool) (str : Text) (g : Globals) : Expression S × Globals :=
  let parsed := gas.expression probing str
  let g' := parsed.names.foldl (parseName probing) g
  (parsed.expr, { g' with parseEnd := parsed.rest, errors := g'.errors + parsed.errors })

/-- A `percent_op_match` table. -/
abbrev PercentOps := List (String × RelocType)

def percentOpImm : PercentOps :=
  [("lo", .lo16), ("pcrel_lo", .lo16Pcrel), ("tprel_lo", .lo16Tprel)]

def percentOpImm1 : PercentOps :=
  [("lo", .lo16_1), ("pcrel_lo", .lo16_1Pcrel), ("tprel_lo", .lo16_1Tprel)]

def percentOpImm2 : PercentOps :=
  [("lo", .lo16_2), ("pcrel_lo", .lo16_2Pcrel), ("tprel_lo", .lo16_2Tprel)]

def percentOpImm16 : PercentOps :=
  [("hi", .hi16), ("pcrel_hi", .hi16Pcrel), ("got_pcrel_hi", .hi16Got), ("plt_pcrel_hi", .hi16Plt),
    ("tls_ie_pcrel_hi", .hi16TlsGot), ("tls_gd_pcrel_hi", .hi16TlsGd), ("tprel_hi", .hi16Tprel)]

def percentOpNull : PercentOps := []

/-- `parse_relocation`, at a `%`. Case does not matter, and a parenthesis follows. The output
supports all of the relocations. -/
def parseRelocation (ops : PercentOps) (str : Text) : Option (RelocType × Text) :=
  ops.findSome? fun op =>
    let rest := (str.tail.drop op.1.length).dropWhile isSpace
    if (str.tail.take op.1.length).map Char.toLower = op.1.toList ∧ peek rest = '(' then
      some (op.2, rest)
    else none

/-- Blanks and opening parentheses, which are counted. -/
def skipOpen : Text → Nat → Text × Nat
  | [], depth => ([], depth)
  | c :: t, depth =>
    if isBlank c then skipOpen t depth
    else if c = '(' then skipOpen t (depth + 1)
    else (c :: t, depth)

/-- As many closing parentheses, and blanks in front of them. -/
def skipClose : Text → Nat → Text × Nat
  | s, 0 => (s, 0)
  | [], depth => ([], depth)
  | c :: t, depth + 1 =>
    if c = ')' then skipClose t depth
    else if isBlank c then skipClose t (depth + 1)
    else (c :: t, depth + 1)

/-- The end of `my_getSmallExpression`, from the main expression on. -/
def smallExpressionAt (crux : Text) (depth : Nat) (probing : Bool) (s : Scan S) : Scan S :=
  let parsed := myGetExpression gas probing crux s.toGlobals
  let closed := skipClose parsed.2.parseEnd depth
  { parsed.2 with
    asarg := s.asarg
    insnOpcode := s.insnOpcode
    imm := parsed.1
    reloc := s.reloc
    parseEnd := closed.1
    -- "unclosed '('"
    errors := parsed.2.errors + if 0 < closed.2 then 1 else 0 }

/-- `my_getSmallExpression`. An operator that it does not know makes it return at once:
`expr_parse_end` stays where the last expression has left it. -/
def myGetSmallExpression (ops : PercentOps) (str : Text) (s : Scan S) : Scan S :=
  let opened := skipOpen str 0
  if peek opened.1 ≠ '%' then smallExpressionAt gas str 0 (opened.2 = 0) s
  else
    match parseRelocation ops opened.1 with
    | none => { s with imm := { s.imm with op := .illegal } }
    | some found =>
      if peek (skipOpen found.2 opened.2).1 ≠ '%' then
        smallExpressionAt gas found.2 opened.2 false { s with reloc := some found.1 }
      else { s with reloc := some found.1, imm := { s.imm with op := .illegal } }

/-- `normalize_constant_expr`. -/
def normalizeConstantExpr (e : Expression S) : Expression S :=
  let high := e.addNumber &&& 0xffffffff00000000
  if (e.op = .constant ∨ e.op = .symbol) ∧ (high = 0 ∨ high = 0xffffffff00000000) then
    { e with addNumber := (e.addNumber &&& 0xffffffff ^^^ 0x80000000) - 0x80000000 }
  else e

/-- The errors of `check_absolute_expr`. -/
def checkAbsoluteExpr (e : Expression S) : Nat := if e.op = .constant then 0 else 1

/-! ## Operands -/

/-- Reading an operand may fail, and leaves what it has done so far. -/
abbrev Step (S : Type) := Scan S × Bool

/-- A register operand, with its place in the instruction. -/
def readReg (table : NameTable) (place : Nat) (s : Scan S) : Step S :=
  match regLookup gas table s.asarg with
  | none => (s, false)
  | some found =>
    ({ s with asarg := found.2, insnOpcode := s.insnOpcode ||| BitVec.ofNat 32 found.1 <<< place },
      true)

/-- `XR_OP_JUMP` and `XR_OP_BRANCH`. -/
def readTarget (reloc : RelocType) (s : Scan S) : Step S :=
  let parsed := myGetExpression gas true s.asarg s.toGlobals
  ({ parsed.2 with
      asarg := parsed.2.parseEnd
      insnOpcode := s.insnOpcode
      imm := parsed.1
      reloc := some reloc }, true)

/-- The operands that end in `my_getSmallExpression`. -/
def readImm (ops : PercentOps) (reloc : RelocType) (s : Scan S) : Step S :=
  let read := myGetSmallExpression gas ops s.asarg { s with reloc := some reloc }
  ({ read with asarg := read.parseEnd }, true)

/-- `XR_OP_IMM_SMALL`. -/
def readImmSmall (s : Scan S) : Step S :=
  let parsed := myGetExpression gas true s.asarg s.toGlobals
  let number := (normalizeConstantExpr parsed.1).addNumber
  -- "immediate too large"
  let large := if 31#64 < number + 16#64 then 1 else 0
  ({ parsed.2 with
      asarg := parsed.2.parseEnd
      insnOpcode := s.insnOpcode ||| (number &&& 31).setWidth 32 <<< 11
      imm := s.imm
      reloc := s.reloc
      errors := parsed.2.errors + checkAbsoluteExpr parsed.1 + large }, true)

/-- The count of an inline shift. -/
def readShiftCount (shiftOp : Nat) (str : Text) (s : Scan S) : Step S :=
  let parsed := myGetExpression gas true str s.toGlobals
  let count := normalizeConstantExpr parsed.1
  -- "immediate too large"
  let large := if 31#64 < count.addNumber then 1 else 0
  ({ parsed.2 with
      asarg := parsed.2.parseEnd
      insnOpcode := s.insnOpcode ||| BitVec.ofNat 32 shiftOp <<< 26 |||
        (count.addNumber <<< 21).setWidth 32
      imm := { count with op := .absent }
      reloc := s.reloc
      errors := parsed.2.errors + checkAbsoluteExpr parsed.1 + large }, true)

/-- `XR_OP_REG_C_SHIFT`. -/
def readRegCShift (s : Scan S) : Step S :=
  match regLookup gas regNames s.asarg with
  | none => (s, false)
  | some found =>
    let s' := { s with
      asarg := skipBlanks found.2
      insnOpcode := s.insnOpcode ||| BitVec.ofNat 32 found.1 <<< 16 }
    match regLookup gas shiftOpNames s'.asarg with
    | none => (s', true)
    | some shift => readShiftCount gas shift.1 shift.2 s'

/-- The immediate offset of a memory operand. -/
def readOffset : MemSize → Scan S → Step S
  | .byte => readImm gas percentOpImm .imm16
  | .int => readImm gas percentOpImm1 .imm16_1
  | .long => readImm gas percentOpImm2 .imm16_2

/-- The start of a memory operand, up to the bracket. -/
def readBracket (size : MemSize) (s : Scan S) : Step S :=
  match regLookup gas memSizeNames s.asarg with
  | none => (s, false)
  | some found =>
    if found.1 ≠ size.shift then ({ s with asarg := found.2 }, false)
    else
      let rest := skipBlanks found.2
      ({ s with asarg := rest.tail }, peek rest = '[')

/-- A memory operand, `XR_OP_MEM*_IMM` or `XR_OP_MEM*_REG`, behind the bracket. What is behind the
base is passed over, whatever it is. -/
def readLocation (isFirst isReg : Bool) (size : MemSize) (s : Scan S) : Step S :=
  let base := regLookup gas regNames s.asarg
  let regno := (base.map (·.1)).getD regZero
  let rest := (base.map (skipBlanks ·.2)).getD s.asarg
  let missing := base.isSome && peek rest ≠ '+'
  let s' := { s with asarg := if base.isSome then rest.tail else rest }
  let place := if !isReg && isFirst then 6 else 11
  let s'' := { s' with insnOpcode := s.insnOpcode ||| BitVec.ofNat 32 regno <<< place }
  if isReg then if missing then (s', false) else readRegCShift gas s''
  else if missing then (s'', true)
  else readOffset gas size s''

/-- The `switch` of `xr17032_ip`. -/
def readOperand (isFirst : Bool) (op : Operand) (s : Scan S) : Step S :=
  match op with
  | .jump => readTarget gas .jump s
  | .branch => readTarget gas .branch s
  | .immSmall => readImmSmall gas s
  | .imm => readImm gas percentOpImm .imm16 s
  | .imm1 => readImm gas percentOpImm1 .imm16_1 s
  | .imm2 => readImm gas percentOpImm2 .imm16_2 s
  | .imm16 => readImm gas percentOpImm16 .imm16_16 s
  | .immSign => readImm gas percentOpNull .imm16Signed s
  | .regA => readReg gas regNames 6 s
  | .regB => readReg gas regNames 11 s
  | .regC => readReg gas regNames 16 s
  | .regCShift => readRegCShift gas s
  | .creg => readReg gas controlRegNames 16 s
  | .memImm size =>
    let read := readBracket gas size s
    if read.2 then readLocation gas isFirst false size read.1 else read
  | .memReg size =>
    let read := readBracket gas size s
    if read.2 then readLocation gas isFirst true size read.1 else read

/-- The loop over the operands of an entry, after the operand `prev`. -/
def readOperands (prev : Option Operand) : List Operand → Scan S → Step S
  | ops, s =>
    let rest := skipBlanks s.asarg
    -- a bracket may close a memory operand, and need not
    let bracket := prev.isSome && peek rest = ']'
    if bracket && !(prev.map Operand.isMem).getD false then ({ s with asarg := rest }, false)
    else
      let rest' := if bracket then skipBlanks rest.tail else rest
      match ops with
      | [] => ({ s with asarg := rest' }, peek rest' = nul)
      | op :: ops =>
        if prev.isSome && peek rest' ≠ ',' then ({ s with asarg := rest'.tail }, false)
        else
          let start := if prev.isSome then skipBlanks rest'.tail else rest'
          let read := readOperand gas prev.isNone op { s with asarg := start }
          if read.2 then readOperands (some op) ops read.1 else read

/-! ## Instructions -/

/-- The deferred symbols of the previous round become orphans. -/
def purgeDeferred (g : Globals) : Globals :=
  { g with orphans := g.orphans ++ g.deferred, deferred := [] }

def commitDeferred (g : Globals) : Globals :=
  { g with symbols := g.symbols ++ g.deferred, deferred := [] }

/-- The start of a round, with `create_insn`. -/
def startEntry (start : Text) (e : Opcode) (s : Scan S) : Scan S :=
  { purgeDeferred s.toGlobals with
    asarg := start
    insnOpcode := e.opcodeBits
    imm := { s.imm with op := .absent }
    reloc := none }

/-- One round of the loop over the entries. -/
def tryEntry (start : Text) (e : Opcode) (s : Scan S) : Step S :=
  readOperands gas none e.operands (startEntry start e s)

def tryEntries (start : Text) : List Opcode → Scan S → Scan S × Option Opcode
  | [], s => (s, none)
  | e :: es, s =>
    let tried := tryEntry gas start e s
    if tried.2 then ({ tried.1 with toGlobals := commitDeferred tried.1.toGlobals }, some e)
    else tryEntries start es tried.1

/-- The word behind the name of an instruction that may belong to it. -/
def signedWord : List Char := "signed".toList

/-- The entries of a line, and where their operands are. -/
def findEntries (str : Text) : List Opcode × Text :=
  let name := str.takeWhile fun c => !isSpace c && c ≠ nul
  let behind := str.drop name.length
  if isSpace (peek behind) then
    let asarg := behind.tail
    if signedWord <+: asarg ∧
        (peek (asarg.drop 6) = nul ∨ isSpace (peek (asarg.drop 6))) then
      let entries := findInsn (name ++ ' ' :: signedWord)
      -- one character behind the word is passed over, if only the NUL
      if entries ≠ [] then (entries, asarg.drop 7)
      -- the whole line is looked up: the name does not end any more
      else (findInsn (str.takeWhile (· ≠ nul)), asarg)
    else (findInsn name, asarg)
  else (findInsn name, behind)

/-- `struct xr17032_ip_error`. -/
inductive IpError where
  | unrecognizedOpcode
  | illegalOperands
  deriving DecidableEq, Repr

/-- `xr17032_cl_insn`, with the arguments of `fix_new_exp`. -/
structure Insn (S : Type) where
  entry : Opcode
  insnOpcode : BitVec 32
  fix : Option (RelocType × Expression S)

/-- `xr17032_ip`. -/
def xr17032Ip (str : Text) (s : Scan S) : Scan S × Except IpError Opcode :=
  let found := findEntries str
  let tried := tryEntries gas found.2 found.1 s
  match tried.2 with
  | some e => (tried.1, .ok e)
  | none =>
    (tried.1, .error (if found.1 = [] then .unrecognizedOpcode else .illegalOperands))

/-- What is left of a reading for `append_insn`. -/
def Scan.fix (s : Scan S) : Option (RelocType × Expression S) := s.reloc.map (·, s.imm)

/-- What gas has to say about a fixup. -/
def fixupErrors (fix : Option (RelocType × Expression S)) : Nat :=
  (fix.map fun fix => gas.fixErrors fix.2).getD 0

/-- `md_assemble`, with the instruction that it appends. -/
def mdAssemble (str : Text) (s : Scan S) : Globals × Option (Insn S) :=
  let ip := xr17032Ip gas str s
  match ip.2 with
  | .error _ => ({ ip.1.toGlobals with errors := ip.1.errors + 1 }, none)
  | .ok e =>
    ({ ip.1.toGlobals with errors := ip.1.errors + fixupErrors gas ip.1.fix },
      some ⟨e, ip.1.insnOpcode, ip.1.fix⟩)

end

end XrLinux.Binutils.Operands
