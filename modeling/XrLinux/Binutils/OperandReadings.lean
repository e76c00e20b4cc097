import XrLinux.Binutils.OperandGrammar

/-!
# Binutils — what the scanner reads

An operand goes through without an error exactly when the text fits it by the lax rules, and the
scanner has then put what is written there in its place (`Fits.reads`, `exists_fits`). This does
not hold of an immediate with an unknown operator, which is `UnknownAt`.
-/

namespace XrLinux.Binutils.Operands

section
variable {S : Type} (gas : Gas S)

/-- What is pointed at, unless it is the end. -/
theorem exists_of_peek {s : Text} {c : Char} (hc : c ≠ nul) (h : peek s = c) :
    ∃ t, s = c :: t := by
  cases s with
  | nil => exact absurd h.symm hc
  | cons d t => exact ⟨t, congrArg (· :: t) h⟩

/-! ## Errors are only added -/

@[simp] theorem foldl_parseName_errors (probing : Bool) (names : List Text) (g : Globals) :
    (names.foldl (parseName probing) g).errors = g.errors := by
  induction names generalizing g with
  | nil => rfl
  | cons name names ih =>
    rw [List.foldl_cons, ih, parseName]
    split <;> split <;> rfl

theorem myGetExpression_errors (probing : Bool) (str : Text) (g : Globals) :
    (myGetExpression gas probing str g).2.errors =
      g.errors + (gas.expression probing str).errors := by
  simp [myGetExpression]

theorem le_myGetExpression_errors (probing : Bool) (str : Text) (g : Globals) :
    g.errors ≤ (myGetExpression gas probing str g).2.errors := by
  rw [myGetExpression_errors]
  exact Nat.le_add_right _ _

theorem errors_le_smallExpressionAt (crux : Text) (depth : Nat) (probing : Bool) (s : Scan S) :
    s.errors ≤ (smallExpressionAt gas crux depth probing s).errors :=
  (le_myGetExpression_errors gas probing crux s.toGlobals).trans (Nat.le_add_right _ _)

theorem errors_le_myGetSmallExpression (ops : PercentOps) (str : Text) (s : Scan S) :
    s.errors ≤ (myGetSmallExpression gas ops str s).errors := by
  unfold myGetSmallExpression
  dsimp only
  split
  · exact errors_le_smallExpressionAt gas _ _ _ s
  · split
    · exact le_rfl
    · split
      · exact errors_le_smallExpressionAt gas _ _ _ _
      · exact le_rfl

theorem errors_le_readImm (ops : PercentOps) (reloc : RelocType) (s : Scan S) :
    s.errors ≤ (readImm gas ops reloc s).1.errors :=
  errors_le_myGetSmallExpression gas ops s.asarg { s with reloc := some reloc }

theorem readReg_errors (table : NameTable) (place : Nat) (s : Scan S) :
    (readReg gas table place s).1.errors = s.errors := by
  unfold readReg
  split <;> rfl

theorem errors_le_readRegCShift (s : Scan S) :
    s.errors ≤ (readRegCShift gas s).1.errors := by
  unfold readRegCShift
  dsimp only
  split
  · exact le_rfl
  · split
    · exact le_rfl
    · exact (le_myGetExpression_errors gas _ _ _).trans
        ((Nat.le_add_right _ _).trans (Nat.le_add_right _ _))

theorem readBracket_errors (size : MemSize) (s : Scan S) :
    (readBracket gas size s).1.errors = s.errors := by
  unfold readBracket
  split
  · rfl
  · split <;> rfl

/-- A scan that goes on at a place, with the register of a base. -/
def Scan.atBase (s : Scan S) (isFirst isReg : Bool) (base : Nat) (asarg : Text) : Scan S :=
  { s with
    asarg := asarg
    insnOpcode :=
      s.insnOpcode ||| BitVec.ofNat 32 base <<< if !isReg && isFirst then 6 else 11 }

theorem readLocation_plus {isFirst isReg : Bool} {size : MemSize} {s : Scan S} {base : Nat}
    {u v : Text} (hbase : regLookup gas regNames s.asarg = some (base, u))
    (hplus : skipBlanks u = '+' :: v) :
    readLocation gas isFirst isReg size s =
      if isReg then readRegCShift gas (s.atBase isFirst isReg base v)
      else readOffset gas size (s.atBase isFirst isReg base v) := by
  simp [readLocation, hbase, hplus, peek, Scan.atBase]

theorem readLocation_base {isFirst isReg : Bool} {size : MemSize} {s : Scan S} {base : Nat}
    {u : Text} (hbase : regLookup gas regNames s.asarg = some (base, u))
    (hplus : peek (skipBlanks u) ≠ '+') :
    readLocation gas isFirst isReg size s =
      if isReg then ({ s with asarg := (skipBlanks u).tail }, false)
      else (s.atBase isFirst isReg base (skipBlanks u).tail, true) := by
  simp [readLocation, hbase, hplus, Scan.atBase]

theorem readLocation_absolute {isFirst isReg : Bool} {size : MemSize} {s : Scan S}
    (hbase : regLookup gas regNames s.asarg = none) :
    readLocation gas isFirst isReg size s =
      if isReg then readRegCShift gas (s.atBase isFirst isReg regZero s.asarg)
      else readOffset gas size (s.atBase isFirst isReg regZero s.asarg) := by
  simp [readLocation, hbase, Scan.atBase]

theorem errors_le_readOffset (size : MemSize) (s : Scan S) :
    s.errors ≤ (readOffset gas size s).1.errors := by
  cases size <;> exact errors_le_readImm gas _ _ s

theorem errors_le_readLocation (isFirst isReg : Bool) (size : MemSize) (s : Scan S) :
    s.errors ≤ (readLocation gas isFirst isReg size s).1.errors := by
  have hfrom : ∀ base asarg, s.errors ≤
      (if isReg then readRegCShift gas (s.atBase isFirst isReg base asarg)
        else readOffset gas size (s.atBase isFirst isReg base asarg)).1.errors := by
    intro base asarg
    split
    · exact errors_le_readRegCShift gas (s.atBase isFirst isReg base asarg)
    · exact errors_le_readOffset gas size (s.atBase isFirst isReg base asarg)
  cases hbase : regLookup gas regNames s.asarg with
  | none =>
    rw [readLocation_absolute gas hbase]
    exact hfrom _ _
  | some found =>
    by_cases hplus : peek (skipBlanks found.2) = '+'
    · obtain ⟨v, hv⟩ := exists_of_peek (by decide) hplus
      rw [readLocation_plus gas hbase hv]
      exact hfrom _ _
    · rw [readLocation_base gas hbase hplus]
      split <;> exact le_rfl

theorem errors_le_readMem (isFirst isReg : Bool) (size : MemSize) (s : Scan S) :
    s.errors ≤ (if (readBracket gas size s).2 then
      readLocation gas isFirst isReg size (readBracket gas size s).1
      else readBracket gas size s).1.errors := by
  have hbracket := readBracket_errors gas size s
  split
  · rw [← hbracket]
    exact errors_le_readLocation gas _ _ _ _
  · exact hbracket.ge

theorem errors_le_readOperand (isFirst : Bool) (op : Operand) (s : Scan S) :
    s.errors ≤ (readOperand gas isFirst op s).1.errors := by
  cases op with
  | jump | branch => exact le_myGetExpression_errors gas _ _ _
  | imm | imm1 | imm2 | imm16 | immSign => exact errors_le_readImm gas _ _ s
  | immSmall =>
    exact (le_myGetExpression_errors gas _ _ _).trans
      ((Nat.le_add_right _ _).trans (Nat.le_add_right _ _))
  | regA | regB | regC | creg => exact (readReg_errors gas _ _ s).ge
  | regCShift => exact errors_le_readRegCShift gas s
  | memImm size | memReg size => exact errors_le_readMem gas isFirst _ size s

/-! ## Immediates -/

/-- An operator that the operand does not know, or a second one. -/
def UnknownOperator (ops : PercentOps) (s : Text) : Prop :=
  peek (skipOpen s 0).1 = '%' ∧
    ∀ found, parseRelocation ops (skipOpen s 0).1 = some found →
      peek (skipOpen found.2 (skipOpen s 0).2).1 = '%'

variable {gas}

theorem skipClose_zero (s : Text) : skipClose s 0 = (s, 0) := by
  cases s <;> rfl

/-- The main expression of an immediate. -/
theorem Reads.small {probing : Bool} {crux behind rest : Text} {e : Expression S} {depth : Nat}
    (h : Reads gas probing crux e behind) (hclosed : skipClose behind depth = (rest, 0))
    (s : Scan S) :
    let x := smallExpressionAt gas crux depth probing s
    x.parseEnd = rest ∧ x.insnOpcode = s.insnOpcode ∧ x.reloc = s.reloc ∧ x.imm = e ∧
      x.errors = s.errors := by
  obtain ⟨rfl, rfl, herrors⟩ := h
  simp [smallExpressionAt, hclosed, herrors, myGetExpression]

theorem exists_reads_small {probing : Bool} {crux : Text} {depth : Nat} {s : Scan S}
    (hquiet : (smallExpressionAt gas crux depth probing s).errors = s.errors) :
    ∃ e behind rest, Reads gas probing crux e behind ∧ skipClose behind depth = (rest, 0) := by
  have hsum : (smallExpressionAt gas crux depth probing s).errors =
      s.errors + (gas.expression probing crux).errors +
        if 0 < (skipClose (gas.expression probing crux).rest depth).2 then 1 else 0 := by
    rw [← myGetExpression_errors]
    rfl
  rw [hsum] at hquiet
  refine ⟨_, _, (skipClose (gas.expression probing crux).rest depth).1,
    ⟨rfl, rfl, by omega⟩, Prod.ext rfl ?_⟩
  show (skipClose (gas.expression probing crux).rest depth).2 = 0
  by_contra hopen
  rw [if_pos (Nat.pos_of_ne_zero hopen)] at hquiet
  omega

theorem Immediate.reads {ops : PercentOps} {reloc : RelocType} {str rest : Text}
    {fix : RelocType × Expression S} (h : Immediate gas Rules.lax ops reloc str fix rest)
    {s : Scan S} (hs : s.reloc = some reloc) :
    let x := myGetSmallExpression gas ops str s
    x.parseEnd = rest ∧ x.insnOpcode = s.insnOpcode ∧ x.fix = some fix ∧ x.errors = s.errors := by
  cases h with
  | plain hplain hreads _ =>
    obtain ⟨hend, hopcode, hreloc, himm, herrors⟩ := hreads.small (skipClose_zero _) s
    simp only [myGetSmallExpression, if_pos hplain]
    refine ⟨hend, hopcode, ?_, herrors⟩
    rw [Scan.fix, hreloc, hs, himm]
    rfl
  | operator hpercent hknown hone hreads _ hclosed =>
    obtain ⟨hend, hopcode, hreloc, himm, herrors⟩ := hreads.small hclosed
      { s with reloc := some _ }
    simp only [myGetSmallExpression, hpercent, hknown, if_pos hone, ne_eq, not_true, if_false]
    refine ⟨hend, hopcode, ?_, herrors⟩
    rw [Scan.fix, hreloc, himm]
    rfl

theorem exists_immediate (reloc : RelocType) {ops : PercentOps} {str : Text} {s : Scan S}
    (hknown : ¬ UnknownOperator ops str)
    (hquiet : (myGetSmallExpression gas ops str s).errors = s.errors) :
    ∃ fix rest, Immediate gas Rules.lax ops reloc str fix rest := by
  by_cases hplain : peek (skipOpen str 0).1 ≠ '%'
  · simp only [myGetSmallExpression, if_pos hplain] at hquiet
    obtain ⟨e, behind, rest, hreads, -⟩ := exists_reads_small hquiet
    exact ⟨_, _, .plain hplain hreads trivial⟩
  · rw [not_not] at hplain
    obtain ⟨found, hfound, hone⟩ : ∃ found,
        parseRelocation ops (skipOpen str 0).1 = some found ∧
          peek (skipOpen found.2 (skipOpen str 0).2).1 ≠ '%' := by
      by_contra hnone
      refine hknown ⟨hplain, fun found hfound => ?_⟩
      by_contra hone
      exact hnone ⟨found, hfound, hone⟩
    simp only [myGetSmallExpression, hplain, hfound, if_pos hone, ne_eq, not_true, if_false]
      at hquiet
    obtain ⟨e, behind, rest, hreads, hclosed⟩ := exists_reads_small hquiet
    exact ⟨_, _, .operator hplain hfound hone hreads trivial hclosed⟩

/-! ## Operands -/

/-- Where the next operand begins, once a bracket has been passed over. -/
def afterOperand (op : Operand) (s : Text) : Text := if op.isMem then passBracket s else s

/-- Whether an operand has a use for the expression of the fixup. -/
def Operand.usesImm : Operand → Bool
  | .regA | .regB | .regC | .creg | .immSmall => false
  | _ => true

/-- The scanner has read what is written for an operand. -/
structure ReadAs (isFirst : Bool) (op : Operand) (s : Scan S) (w : Written S) (rest : Text)
    (x : Scan S) : Prop where
  after_eq : afterOperand op x.asarg = rest
  opcode_eq : x.insnOpcode = s.insnOpcode ||| w.bits isFirst op
  fix_eq : s.reloc = none → x.fix = w.fix
  fix_kept : Operand.usesImm op = false → x.fix = s.fix
  errors_eq : x.errors = s.errors

theorem FitsReg.reads {table : NameTable} {s : Scan S} {w : Written S} {rest : Text}
    (h : FitsReg gas table s.asarg w rest) (place : Nat) :
    ∃ n, w = .reg n ∧ readReg gas table place s =
      ({ s with asarg := rest, insnOpcode := s.insnOpcode ||| BitVec.ofNat 32 n <<< place },
        true) := by
  cases h with
  | reg hreg => exact ⟨_, rfl, by rw [readReg, hreg]⟩

theorem exists_fitsReg {table : NameTable} {place : Nat} {s : Scan S}
    (hread : (readReg gas table place s).2 = true) :
    ∃ w, FitsReg gas table s.asarg w (readReg gas table place s).1.asarg := by
  unfold readReg at hread ⊢
  split at hread
  next => cases hread
  next found hfound => exact ⟨_, .reg hfound⟩

theorem FitsTarget.reads {reloc : RelocType} {s : Scan S} {w : Written S} {rest : Text}
    (h : FitsTarget gas Rules.lax reloc s.asarg w rest) :
    ∃ e, w = .imm reloc e ∧
      let x := readTarget gas reloc s
      x.2 = true ∧ x.1.asarg = rest ∧ x.1.insnOpcode = s.insnOpcode ∧
        x.1.fix = some (reloc, e) ∧ x.1.errors = s.errors := by
  cases h with
  | target hreads _ =>
    obtain ⟨rfl, rfl, herrors⟩ := hreads
    refine ⟨_, rfl, rfl, rfl, rfl, rfl, ?_⟩
    show (myGetExpression gas true s.asarg s.toGlobals).2.errors = s.errors
    rw [myGetExpression_errors, herrors, add_zero]

theorem exists_fitsTarget {reloc : RelocType} {s : Scan S}
    (hquiet : (readTarget gas reloc s).1.errors = s.errors) :
    ∃ w, FitsTarget gas Rules.lax reloc s.asarg w (readTarget gas reloc s).1.asarg := by
  change (myGetExpression gas true s.asarg s.toGlobals).2.errors = s.errors at hquiet
  rw [myGetExpression_errors] at hquiet
  exact ⟨_, .target ⟨rfl, rfl, by omega⟩ trivial⟩

theorem Immediate.reads_imm {ops : PercentOps} {reloc : RelocType} {s : Scan S} {rest : Text}
    {fix : RelocType × Expression S} (h : Immediate gas Rules.lax ops reloc s.asarg fix rest) :
    let x := readImm gas ops reloc s
    x.2 = true ∧ x.1.asarg = rest ∧ x.1.insnOpcode = s.insnOpcode ∧ x.1.fix = some fix ∧
      x.1.errors = s.errors := by
  obtain ⟨hend, hopcode, hfix, herrors⟩ := h.reads (s := { s with reloc := some reloc }) rfl
  exact ⟨rfl, hend, hopcode, hfix, herrors⟩

theorem exists_immediate_imm {ops : PercentOps} {reloc : RelocType} {s : Scan S}
    (hknown : ¬ UnknownOperator ops s.asarg)
    (hquiet : (readImm gas ops reloc s).1.errors = s.errors) :
    ∃ fix, Immediate gas Rules.lax ops reloc s.asarg fix (readImm gas ops reloc s).1.asarg := by
  obtain ⟨fix, rest, himm⟩ := exists_immediate reloc hknown hquiet
  refine ⟨fix, ?_⟩
  rw [himm.reads_imm.2.1]
  exact himm

theorem FitsImmSmall.reads {s : Scan S} {w : Written S} {rest : Text}
    (h : FitsImmSmall gas s.asarg w rest) :
    ∃ value, w = .small value ∧
      let x := readImmSmall gas s
      x.2 = true ∧ x.1.asarg = rest ∧
        x.1.insnOpcode = s.insnOpcode ||| (value &&& 31).setWidth 32 <<< 11 ∧
        x.1.fix = s.fix ∧ x.1.errors = s.errors := by
  cases h with
  | small hreads hconst hsmall =>
    obtain ⟨rfl, rfl, herrors⟩ := hreads
    refine ⟨_, rfl, rfl, rfl, rfl, rfl, ?_⟩
    have hlarge := BitVec.not_lt.2 hsmall
    simp [readImmSmall, checkAbsoluteExpr, myGetExpression, hconst, herrors, hlarge]

theorem exists_fitsImmSmall {s : Scan S} (hquiet : (readImmSmall gas s).1.errors = s.errors) :
    ∃ w, FitsImmSmall gas s.asarg w (readImmSmall gas s).1.asarg := by
  have hsum : (readImmSmall gas s).1.errors =
      s.errors + (gas.expression true s.asarg).errors +
        checkAbsoluteExpr (gas.expression true s.asarg).expr +
        if 31#64 < (normalizeConstantExpr (gas.expression true s.asarg).expr).addNumber + 16#64
        then 1 else 0 := by
    rw [← myGetExpression_errors]
    rfl
  rw [hsum] at hquiet
  refine ⟨_, .small ⟨rfl, rfl, by omega⟩ ?_ ?_⟩
  · by_contra hconst
    rw [checkAbsoluteExpr, if_neg hconst] at hquiet
    omega
  · by_contra hlarge
    rw [if_pos (BitVec.not_le.1 hlarge)] at hquiet
    omega

theorem ShiftedReg.reads {s : Scan S} {n : Nat} {shift : Shift} {rest : Text}
    (h : ShiftedReg gas s.asarg n shift rest) :
    let x := readRegCShift gas s
    x.2 = true ∧ x.1.asarg = rest ∧
      x.1.insnOpcode = s.insnOpcode ||| (BitVec.ofNat 32 n <<< 16 ||| shiftBits shift) ∧
      x.1.reloc = s.reloc ∧ x.1.errors = s.errors := by
  cases h with
  | plain hreg hplain =>
    simp [readRegCShift, hreg, hplain, shiftBits]
  | shifted hreg hshift hreads hconst hsmall =>
    obtain ⟨rfl, rfl, herrors⟩ := hreads
    have hlarge := BitVec.not_lt.2 hsmall
    simp [readRegCShift, hreg, hshift, readShiftCount, checkAbsoluteExpr, myGetExpression, hconst,
      herrors, hlarge, shiftBits, BitVec.or_assoc]

theorem exists_shiftedReg {s : Scan S} (hread : (readRegCShift gas s).2 = true)
    (hquiet : (readRegCShift gas s).1.errors = s.errors) :
    ∃ n shift, ShiftedReg gas s.asarg n shift (readRegCShift gas s).1.asarg := by
  cases hreg : regLookup gas regNames s.asarg with
  | none => simp [readRegCShift, hreg] at hread
  | some found =>
    cases hshift : regLookup gas shiftOpNames (skipBlanks found.2) with
    | none =>
      have hplain := ShiftedReg.plain (n := found.1) hreg hshift
      exact ⟨_, _, by simpa [readRegCShift, hreg, hshift] using hplain⟩
    | some shift =>
      let count := gas.expression true shift.2
      have hsum : (readRegCShift gas s).1.errors = s.errors + count.errors +
          checkAbsoluteExpr count.expr +
          if 31#64 < (normalizeConstantExpr count.expr).addNumber then 1 else 0 := by
        simp [readRegCShift, hreg, hshift, readShiftCount, myGetExpression, count]
      rw [hsum] at hquiet
      have hconst : count.expr.op = .constant := by
        by_contra hconst
        rw [checkAbsoluteExpr, if_neg hconst] at hquiet
        omega
      have hsmall : (normalizeConstantExpr count.expr).addNumber ≤ 31#64 := by
        by_contra hlarge
        rw [if_pos (BitVec.not_le.1 hlarge)] at hquiet
        omega
      have herrors : count.errors = 0 := by omega
      have hshifted := ShiftedReg.shifted (n := found.1) hreg hshift
        ⟨rfl, rfl, herrors⟩ hconst hsmall
      exact ⟨_, _, by simpa [readRegCShift, hreg, hshift, readShiftCount, myGetExpression]
        using hshifted⟩

/-! ## Memory operands -/

theorem readOffset_eq (size : MemSize) (s : Scan S) :
    readOffset gas size s = readImm gas (MemSize.offset size).1 (MemSize.offset size).2 s := by
  cases size <;> rfl

theorem Bracket.reads {size : MemSize} {s : Scan S} {rest : Text}
    (h : Bracket gas size s.asarg rest) :
    readBracket gas size s = ({ s with asarg := rest }, true) := by
  obtain ⟨t, hsize, hbracket⟩ := h
  simp [readBracket, hsize, hbracket, peek]

theorem exists_bracket {size : MemSize} {s : Scan S} (h : (readBracket gas size s).2 = true) :
    ∃ rest, Bracket gas size s.asarg rest := by
  cases hsize : regLookup gas memSizeNames s.asarg with
  | none => simp [readBracket, hsize] at h
  | some found =>
    by_cases hshift : found.1 = size.shift
    · have hpeek : peek (skipBlanks found.2) = '[' := by simpa [readBracket, hsize, hshift] using h
      obtain ⟨rest, hrest⟩ := exists_of_peek (by decide) hpeek
      exact ⟨rest, found.2, by rw [hsize, ← hshift], hrest⟩
    · simp [readBracket, hsize, hshift] at h

/-- A memory operand behind its bracket. -/
theorem Bracket.readOperand_imm {size : MemSize} {s : Scan S} {t : Text}
    (h : Bracket gas size s.asarg t) (isFirst : Bool) :
    readOperand gas isFirst (.memImm size) s =
      readLocation gas isFirst false size { s with asarg := t } := by
  simp [readOperand, h.reads]

theorem Bracket.readOperand_reg {size : MemSize} {s : Scan S} {t : Text}
    (h : Bracket gas size s.asarg t) (isFirst : Bool) :
    readOperand gas isFirst (.memReg size) s =
      readLocation gas isFirst true size { s with asarg := t } := by
  simp [readOperand, h.reads]

theorem exists_bracket_imm {isFirst : Bool} {size : MemSize} {s : Scan S}
    (h : (readOperand gas isFirst (.memImm size) s).2 = true) :
    ∃ t, Bracket gas size s.asarg t := by
  refine exists_bracket ?_
  by_contra hnone
  simp [readOperand, hnone] at h

theorem exists_bracket_reg {isFirst : Bool} {size : MemSize} {s : Scan S}
    (h : (readOperand gas isFirst (.memReg size) s).2 = true) :
    ∃ t, Bracket gas size s.asarg t := by
  refine exists_bracket ?_
  by_contra hnone
  simp [readOperand, hnone] at h

/-- The offset of a memory operand. -/
theorem readAs_offset {isFirst : Bool} {size : MemSize} {s : Scan S} {base : Nat}
    {t u v rest : Text} {fix : RelocType × Expression S}
    (himm : Immediate gas Rules.lax (MemSize.offset size).1 (MemSize.offset size).2 u fix v)
    (hcloses : rest = passBracket v) :
    let x := readOffset gas size (Scan.atBase { s with asarg := t } isFirst false base u)
    x.2 = true ∧ ReadAs isFirst (.memImm size) s (.memImm base (some fix)) rest x.1 := by
  intro x
  have hread := Immediate.reads_imm
    (s := Scan.atBase { s with asarg := t } isFirst false base u) himm
  rw [← readOffset_eq] at hread
  obtain ⟨hgoes, hend, hopcode, hfix, herrors⟩ := hread
  refine ⟨hgoes, ⟨?_, ?_, fun _ => hfix, (by intro huses; cases huses), herrors⟩⟩
  · rw [hcloses]
    exact congrArg passBracket hend
  · rw [hopcode]
    cases isFirst <;> rfl

theorem FitsMemImm.reads {size : MemSize} {s : Scan S} {w : Written S} {rest : Text}
    (h : FitsMemImm gas Rules.lax size s.asarg w rest) (isFirst : Bool) :
    (readOperand gas isFirst (.memImm size) s).2 = true ∧
      ReadAs isFirst (.memImm size) s w rest (readOperand gas isFirst (.memImm size) s).1 := by
  cases h with
  | @offset t u v x _ base fix hbracket hbase hplus himm hcloses =>
    rw [hbracket.readOperand_imm, readLocation_plus gas (s := { s with asarg := t }) hbase hplus]
    exact readAs_offset himm hcloses
  | @base t u _ base hbracket hbase hcloses =>
    obtain ⟨hplus, rfl⟩ := hcloses
    rw [hbracket.readOperand_imm, readLocation_base gas (s := { s with asarg := t }) hbase hplus]
    refine ⟨rfl, rfl, ?_, ?_, (by intro huses; cases huses), rfl⟩
    · cases isFirst <;> rfl
    · intro hreloc
      show s.reloc.map (·, s.imm) = none
      rw [hreloc, Option.map_none]
  | @absolute t x _ fix hbracket hbase himm hcloses =>
    rw [hbracket.readOperand_imm, readLocation_absolute gas (s := { s with asarg := t }) hbase]
    exact readAs_offset himm hcloses

theorem FitsMemReg.reads {size : MemSize} {s : Scan S} {w : Written S} {rest : Text}
    (h : FitsMemReg gas Rules.lax size s.asarg w rest) (isFirst : Bool) :
    (readOperand gas isFirst (.memReg size) s).2 = true ∧
      ReadAs isFirst (.memReg size) s w rest (readOperand gas isFirst (.memReg size) s).1 := by
  cases h with
  | @index t u v x _ base n shift hbracket hbase hplus hindex hcloses =>
    rw [hbracket.readOperand_reg, readLocation_plus gas (s := { s with asarg := t }) hbase hplus]
    obtain ⟨hgoes, hend, hopcode, hreloc, herrors⟩ := ShiftedReg.reads
      (s := Scan.atBase { s with asarg := t } isFirst true base v) hindex
    refine ⟨hgoes, ?_, ?_, ?_, (by intro huses; cases huses), herrors⟩
    · rw [hcloses]
      exact congrArg passBracket hend
    · rw [if_pos rfl, hopcode]
      exact BitVec.or_assoc _ _ _
    · intro hnone
      rw [if_pos rfl, Scan.fix, hreloc]
      show s.reloc.map _ = none
      rw [hnone, Option.map_none]

/-! ## Every operand -/

theorem ReadAs.of_fix {isFirst : Bool} {op : Operand} {s x : Scan S} {rest : Text}
    {fix : RelocType × Expression S} (hmem : op.isMem = false) (huses : Operand.usesImm op = true)
    (hbits : (Written.imm fix.1 fix.2).bits isFirst op = 0#32) (hend : x.asarg = rest)
    (hopcode : x.insnOpcode = s.insnOpcode) (hfix : x.fix = some fix)
    (herrors : x.errors = s.errors) :
    ReadAs isFirst op s (.imm fix.1 fix.2) rest x := by
  refine ⟨?_, ?_, fun _ => hfix, (by intro hnot; rw [huses] at hnot; cases hnot), herrors⟩
  · rw [afterOperand, hmem]
    exact hend
  · rw [hbits, hopcode, BitVec.or_zero]

theorem FitsReg.readAs {isFirst : Bool} {op : Operand} {table : NameTable} {place : Nat}
    {s : Scan S} {w : Written S} {rest : Text} (h : FitsReg gas table s.asarg w rest)
    (hmem : op.isMem = false)
    (hbits : ∀ n, (Written.reg n : Written S).bits isFirst op = BitVec.ofNat 32 n <<< place) :
    (readReg gas table place s).2 = true ∧
      ReadAs isFirst op s w rest (readReg gas table place s).1 := by
  obtain ⟨n, rfl, hread⟩ := h.reads place
  rw [hread]
  refine ⟨rfl, ?_, ?_, fun hreloc => ?_, fun _ => rfl, rfl⟩
  · rw [afterOperand, hmem]
    rfl
  · rw [hbits]
  · show s.reloc.map _ = none
    rw [hreloc, Option.map_none]

theorem FitsImm.reads {isFirst : Bool} {op : Operand} {ops : PercentOps} {reloc : RelocType}
    {s : Scan S} {w : Written S} {rest : Text} (h : FitsImm gas Rules.lax ops reloc s.asarg w rest)
    (hmem : op.isMem = false) (huses : Operand.usesImm op = true)
    (hbits : ∀ reloc' (e : Expression S), (Written.imm reloc' e).bits isFirst op = 0#32) :
    ReadAs isFirst op s w rest (readImm gas ops reloc s).1 := by
  cases h with
  | imm himm =>
    obtain ⟨-, hend, hopcode, hfix, herrors⟩ := himm.reads_imm
    exact .of_fix hmem huses (hbits _ _) hend hopcode hfix herrors

/-- What fits an operand is read for it. -/
theorem Fits.reads {op : Operand} {s : Scan S} {w : Written S} {rest : Text}
    (h : Fits gas Rules.lax op s.asarg w rest) (isFirst : Bool) :
    (readOperand gas isFirst op s).2 = true ∧
      ReadAs isFirst op s w rest (readOperand gas isFirst op s).1 := by
  cases op with
  | jump | branch =>
    obtain ⟨e, rfl, hgoes, hend, hopcode, hfix, herrors⟩ := FitsTarget.reads h
    exact ⟨hgoes, .of_fix rfl rfl rfl hend hopcode hfix herrors⟩
  | imm | imm1 | imm2 | imm16 | immSign =>
    exact ⟨rfl, FitsImm.reads h rfl rfl fun _ _ => rfl⟩
  | immSmall =>
    obtain ⟨value, rfl, hgoes, hend, hopcode, hfix, herrors⟩ := FitsImmSmall.reads h
    refine ⟨hgoes, hend, hopcode, fun hreloc => ?_, fun _ => hfix, herrors⟩
    show (readImmSmall gas s).1.fix = none
    rw [hfix, Scan.fix, hreloc, Option.map_none]
  | regA | regB | regC | creg => exact FitsReg.readAs h rfl fun _ => rfl
  | regCShift =>
    cases h with
    | shifted hreg =>
      obtain ⟨hgoes, hend, hopcode, hreloc, herrors⟩ := hreg.reads
      refine ⟨hgoes, hend, hopcode, fun hnone => ?_, (by intro huses; cases huses), herrors⟩
      show (readRegCShift gas s).1.fix = none
      rw [Scan.fix, hreloc, hnone, Option.map_none]
  | memImm size => exact FitsMemImm.reads h isFirst
  | memReg size => exact FitsMemReg.reads h isFirst

variable (gas) in
/-- An operand comes to an operator that it does not know. -/
def UnknownAt : Operand → Text → Prop
  | .imm => UnknownOperator percentOpImm
  | .imm1 => UnknownOperator percentOpImm1
  | .imm2 => UnknownOperator percentOpImm2
  | .imm16 => UnknownOperator percentOpImm16
  | .immSign => UnknownOperator percentOpNull
  | .memImm size => fun s => ∃ t, Bracket gas size s t ∧
      ((∃ found v, regLookup gas regNames t = some found ∧ skipBlanks found.2 = '+' :: v ∧
          UnknownOperator (MemSize.offset size).1 v) ∨
        regLookup gas regNames t = none ∧ UnknownOperator (MemSize.offset size).1 t)
  | _ => fun _ => False

theorem exists_fitsImm {ops : PercentOps} {reloc : RelocType} {s : Scan S}
    (hknown : ¬ UnknownOperator ops s.asarg)
    (hquiet : (readImm gas ops reloc s).1.errors = s.errors) :
    ∃ w, FitsImm gas Rules.lax ops reloc s.asarg w (readImm gas ops reloc s).1.asarg := by
  obtain ⟨fix, himm⟩ := exists_immediate_imm hknown hquiet
  exact ⟨_, .imm himm⟩

theorem exists_fitsMemImm {isFirst : Bool} {size : MemSize} {s : Scan S}
    (hknown : ¬ UnknownAt gas (.memImm size) s.asarg)
    (hread : (readOperand gas isFirst (.memImm size) s).2 = true)
    (hquiet : (readOperand gas isFirst (.memImm size) s).1.errors = s.errors) :
    ∃ w rest, FitsMemImm gas Rules.lax size s.asarg w rest := by
  obtain ⟨t, hbracket⟩ := exists_bracket_imm hread
  rw [hbracket.readOperand_imm] at hquiet
  cases hbase : regLookup gas regNames t with
  | none =>
    have hknown' : ¬ UnknownOperator (MemSize.offset size).1 t := by
      intro hunknown
      exact hknown ⟨t, hbracket, .inr ⟨hbase, hunknown⟩⟩
    rw [readLocation_absolute gas (s := { s with asarg := t }) hbase, if_neg (by decide),
      readOffset_eq] at hquiet
    obtain ⟨fix, himm⟩ := exists_immediate_imm
      (s := Scan.atBase { s with asarg := t } isFirst false regZero t) hknown' hquiet
    exact ⟨_, _, .absolute hbracket hbase himm rfl⟩
  | some found =>
    obtain ⟨base, u⟩ := found
    by_cases hplus : peek (skipBlanks u) = '+'
    · obtain ⟨v, hv⟩ := exists_of_peek (by decide) hplus
      have hknown' : ¬ UnknownOperator (MemSize.offset size).1 v := by
        intro hunknown
        exact hknown ⟨t, hbracket, .inl ⟨(base, u), v, hbase, hv, hunknown⟩⟩
      rw [readLocation_plus gas (s := { s with asarg := t }) hbase hv, if_neg (by decide),
        readOffset_eq] at hquiet
      obtain ⟨fix, himm⟩ := exists_immediate_imm
        (s := Scan.atBase { s with asarg := t } isFirst false base v) hknown' hquiet
      exact ⟨_, _, .offset hbracket hbase hv himm rfl⟩
    · exact ⟨_, _, .base hbracket hbase ⟨hplus, rfl⟩⟩

theorem exists_fitsMemReg {isFirst : Bool} {size : MemSize} {s : Scan S}
    (hread : (readOperand gas isFirst (.memReg size) s).2 = true)
    (hquiet : (readOperand gas isFirst (.memReg size) s).1.errors = s.errors) :
    ∃ w rest, FitsMemReg gas Rules.lax size s.asarg w rest := by
  obtain ⟨t, hbracket⟩ := exists_bracket_reg hread
  rw [hbracket.readOperand_reg] at hread hquiet
  cases hbase : regLookup gas regNames t with
  | none =>
    rw [readLocation_absolute gas (s := { s with asarg := t }) hbase, if_pos rfl] at hread
    simp [readRegCShift, Scan.atBase, hbase] at hread
  | some found =>
    obtain ⟨base, u⟩ := found
    by_cases hplus : peek (skipBlanks u) = '+'
    · obtain ⟨v, hv⟩ := exists_of_peek (by decide) hplus
      rw [readLocation_plus gas (s := { s with asarg := t }) hbase hv, if_pos rfl] at hread hquiet
      obtain ⟨n, shift, hindex⟩ := exists_shiftedReg hread hquiet
      exact ⟨_, _, .index hbracket hbase hv hindex rfl⟩
    · rw [readLocation_base gas (s := { s with asarg := t }) hbase hplus, if_pos rfl] at hread
      cases hread

/-- An operand that goes through without an error fits. -/
theorem exists_fits {isFirst : Bool} {op : Operand} {s : Scan S}
    (hknown : ¬ UnknownAt gas op s.asarg) (hread : (readOperand gas isFirst op s).2 = true)
    (hquiet : (readOperand gas isFirst op s).1.errors = s.errors) :
    ∃ w rest, Fits gas Rules.lax op s.asarg w rest := by
  cases op with
  | jump | branch => exact (exists_fitsTarget hquiet).imp fun w h => ⟨_, h⟩
  | imm | imm1 | imm2 | imm16 | immSign =>
    exact (exists_fitsImm hknown hquiet).imp fun w h => ⟨_, h⟩
  | immSmall => exact (exists_fitsImmSmall hquiet).imp fun w h => ⟨_, h⟩
  | regA | regB | regC | creg => exact (exists_fitsReg hread).imp fun w h => ⟨_, h⟩
  | regCShift =>
    obtain ⟨n, shift, hreg⟩ := exists_shiftedReg hread hquiet
    exact ⟨_, _, .shifted hreg⟩
  | memImm size => exact exists_fitsMemImm hknown hread hquiet
  | memReg size => exact exists_fitsMemReg hread hquiet

end

end XrLinux.Binutils.Operands
