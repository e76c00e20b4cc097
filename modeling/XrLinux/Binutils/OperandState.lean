import XrLinux.Binutils.OperandLines

/-!
# Binutils — what an attempt leaves behind

What a round of the loop over the entries does is up to its text and the symbol table alone, and
not to what earlier rounds or instructions have left (`outcome_eq_iff`). The exception is an
operator that is not known: the scanner then goes on where an earlier expression has ended.
-/

namespace XrLinux.Binutils.Operands

section
variable {S : Type} (gas : Gas S)

/-! ## Agreement -/

/-- Two states in which the same has been read. The rest of them is left over. -/
structure Agree (s s' : Scan S) : Prop where
  symbols_eq : s'.symbols = s.symbols
  deferred_eq : s'.deferred = s.deferred
  asarg_eq : s'.asarg = s.asarg
  insnOpcode_eq : s'.insnOpcode = s.insnOpcode
  reloc_eq : s'.reloc = s.reloc
  imm_eq : s.reloc ≠ none → s'.imm = s.imm

structure StepAgree (x x' : Step S) : Prop where
  agree : Agree x.1 x'.1
  goes_eq : x'.2 = x.2

theorem foldl_parseName_eq (probing : Bool) (names : List Text) {g g' : Globals}
    (hsymbols : g'.symbols = g.symbols) (hdeferred : g'.deferred = g.deferred) :
    (names.foldl (parseName probing) g').symbols = (names.foldl (parseName probing) g).symbols ∧
      (names.foldl (parseName probing) g').deferred =
        (names.foldl (parseName probing) g).deferred := by
  induction names generalizing g g' with
  | nil => exact ⟨hsymbols, hdeferred⟩
  | cons name names ih =>
    refine ih ?_ ?_ <;> unfold parseName <;> rw [hsymbols, hdeferred] <;> split <;> split <;>
      simp [hsymbols, hdeferred]

variable {gas}

variable (gas) in
/-- An expression, whatever is done with it. -/
theorem Agree.expression {s s' : Scan S} (h : Agree s s') (probing : Bool) (str : Text) :
    let x := (myGetExpression gas probing str s.toGlobals).2
    let x' := (myGetExpression gas probing str s'.toGlobals).2
    x'.symbols = x.symbols ∧ x'.deferred = x.deferred :=
  foldl_parseName_eq probing _ h.symbols_eq h.deferred_eq

/-- The end of an immediate, from the main expression on. -/
theorem Agree.small {s s' : Scan S} (h : Agree s s') (crux : Text) (depth : Nat) (probing : Bool)
    (reloc : RelocType) :
    let x := smallExpressionAt gas crux depth probing { s with reloc := some reloc }
    let x' := smallExpressionAt gas crux depth probing { s' with reloc := some reloc }
    Agree { x with asarg := x.parseEnd } { x' with asarg := x'.parseEnd } := by
  obtain ⟨hsymbols, hdeferred⟩ := h.expression gas probing crux
  exact ⟨hsymbols, hdeferred, rfl, h.insnOpcode_eq, rfl, fun _ => rfl⟩

theorem Agree.readImm {s s' : Scan S} (h : Agree s s') {ops : PercentOps} (reloc : RelocType)
    (hknown : ¬ UnknownOperator ops s.asarg) :
    StepAgree (readImm gas ops reloc s) (readImm gas ops reloc s') := by
  refine ⟨?_, rfl⟩
  unfold Operands.readImm myGetSmallExpression
  simp only [h.asarg_eq]
  by_cases hplain : peek (skipOpen s.asarg 0).1 ≠ '%'
  · simp only [if_pos hplain]
    exact h.small _ _ _ reloc
  · rw [not_not] at hplain
    cases hfound : parseRelocation ops (skipOpen s.asarg 0).1 with
    | none =>
      refine absurd ⟨hplain, fun found hfound' => ?_⟩ hknown
      rw [hfound] at hfound'
      cases hfound'
    | some found =>
      have hone : peek (skipOpen found.2 (skipOpen s.asarg 0).2).1 ≠ '%' := by
        intro hone
        refine hknown ⟨hplain, fun found' hfound' => ?_⟩
        obtain rfl := Option.some.inj (hfound.symm.trans hfound')
        exact hone
      simp only [hplain, ne_eq, not_true, if_false, if_pos hone]
      exact h.small _ _ _ found.1

theorem Agree.readTarget {s s' : Scan S} (h : Agree s s') (reloc : RelocType) :
    StepAgree (readTarget gas reloc s) (readTarget gas reloc s') := by
  obtain ⟨hsymbols, hdeferred⟩ := h.expression gas true s.asarg
  unfold Operands.readTarget
  rw [h.asarg_eq]
  exact ⟨⟨hsymbols, hdeferred, rfl, h.insnOpcode_eq, rfl, fun _ => rfl⟩, rfl⟩

theorem Agree.readImmSmall {s s' : Scan S} (h : Agree s s') :
    StepAgree (readImmSmall gas s) (readImmSmall gas s') := by
  obtain ⟨hsymbols, hdeferred⟩ := h.expression gas true s.asarg
  unfold Operands.readImmSmall
  rw [h.asarg_eq, h.insnOpcode_eq]
  exact ⟨⟨hsymbols, hdeferred, rfl, rfl, h.reloc_eq, h.imm_eq⟩, rfl⟩

theorem Agree.readReg {s s' : Scan S} (h : Agree s s') (table : NameTable) (place : Nat) :
    StepAgree (readReg gas table place s) (readReg gas table place s') := by
  unfold Operands.readReg
  rw [h.asarg_eq, h.insnOpcode_eq]
  split
  · exact ⟨h, rfl⟩
  · exact ⟨⟨h.symbols_eq, h.deferred_eq, rfl, rfl, h.reloc_eq, h.imm_eq⟩, rfl⟩

/-- The same place, and the same bits put in. -/
theorem Agree.goOn {s s' : Scan S} (h : Agree s s') (asarg : Text) (bits : BitVec 32) :
    Agree { s with asarg := asarg, insnOpcode := s.insnOpcode ||| bits }
      { s' with asarg := asarg, insnOpcode := s'.insnOpcode ||| bits } := by
  refine ⟨h.symbols_eq, h.deferred_eq, rfl, ?_, h.reloc_eq, h.imm_eq⟩
  rw [h.insnOpcode_eq]

theorem Agree.move {s s' : Scan S} (h : Agree s s') (asarg : Text) :
    Agree { s with asarg := asarg } { s' with asarg := asarg } :=
  ⟨h.symbols_eq, h.deferred_eq, rfl, h.insnOpcode_eq, h.reloc_eq, h.imm_eq⟩

theorem Agree.readRegCShift {s s' : Scan S} (h : Agree s s') :
    StepAgree (readRegCShift gas s) (readRegCShift gas s') := by
  unfold Operands.readRegCShift
  rw [h.asarg_eq]
  dsimp only
  split
  next => exact ⟨h, rfl⟩
  next found _ =>
    have hfound := h.goOn (skipBlanks found.2) (BitVec.ofNat 32 found.1 <<< 16)
    split
    next => exact ⟨hfound, rfl⟩
    next shift _ =>
      obtain ⟨hsymbols, hdeferred⟩ := hfound.expression gas true shift.2
      refine ⟨⟨hsymbols, hdeferred, rfl, ?_, h.reloc_eq, fun _ => rfl⟩, rfl⟩
      show s'.insnOpcode ||| _ ||| _ ||| _ = s.insnOpcode ||| _ ||| _ ||| _
      rw [h.insnOpcode_eq]
      rfl

theorem Agree.readLocation {s s' : Scan S} (h : Agree s s') (isFirst isReg : Bool)
    (size : MemSize)
    (hknown : isReg = false →
      (∀ found v, regLookup gas regNames s.asarg = some found → skipBlanks found.2 = '+' :: v →
        ¬ UnknownOperator (MemSize.offset size).1 v) ∧
      (regLookup gas regNames s.asarg = none →
        ¬ UnknownOperator (MemSize.offset size).1 s.asarg)) :
    StepAgree (readLocation gas isFirst isReg size s)
      (readLocation gas isFirst isReg size s') := by
  have hasarg := h.asarg_eq
  have hfrom (base : Nat) (t : Text)
      (ht : isReg = false → ¬ UnknownOperator (MemSize.offset size).1 t) :
      StepAgree
        (if isReg then Operands.readRegCShift gas (s.atBase isFirst isReg base t)
          else readOffset gas size (s.atBase isFirst isReg base t))
        (if isReg then Operands.readRegCShift gas (s'.atBase isFirst isReg base t)
          else readOffset gas size (s'.atBase isFirst isReg base t)) := by
    have hbase : Agree (s.atBase isFirst isReg base t) (s'.atBase isFirst isReg base t) :=
      h.goOn t _
    cases isReg with
    | true => exact hbase.readRegCShift
    | false =>
      simp only [Bool.false_eq_true, if_false, readOffset_eq]
      exact hbase.readImm _ (ht rfl)
  cases hreg : regLookup gas regNames s.asarg with
  | none =>
    rw [readLocation_absolute gas hreg,
      readLocation_absolute gas (s := s') (by rw [hasarg, hreg]), hasarg]
    exact hfrom _ _ fun hreg' => (hknown hreg').2 hreg
  | some found =>
    have hreg' : regLookup gas regNames s'.asarg = some found := by rw [hasarg, hreg]
    by_cases hplus : peek (skipBlanks found.2) = '+'
    · obtain ⟨v, hv⟩ := exists_of_peek (by decide) hplus
      rw [readLocation_plus gas hreg hv, readLocation_plus gas hreg' hv]
      exact hfrom _ _ fun hisReg => (hknown hisReg).1 found v hreg hv
    · rw [readLocation_base gas hreg hplus, readLocation_base gas hreg' hplus]
      cases isReg with
      | true => exact ⟨h.move _, rfl⟩
      | false => exact ⟨h.goOn _ _, rfl⟩

theorem Agree.readBracket {s s' : Scan S} (h : Agree s s') (size : MemSize) :
    StepAgree (readBracket gas size s) (readBracket gas size s') := by
  unfold Operands.readBracket
  rw [h.asarg_eq]
  split
  · exact ⟨h, rfl⟩
  · split
    · exact ⟨h.move _, rfl⟩
    · exact ⟨h.move _, rfl⟩

/-- An operand does the same in two states that agree, unless it does not know an operator. -/
theorem Agree.readOperand {s s' : Scan S} (h : Agree s s') (isFirst : Bool) {op : Operand}
    (hknown : ¬ UnknownAt gas op s.asarg) :
    StepAgree (readOperand gas isFirst op s) (readOperand gas isFirst op s') := by
  cases op with
  | jump | branch => exact h.readTarget _
  | imm | imm1 | imm2 | imm16 | immSign => exact h.readImm _ hknown
  | immSmall => exact h.readImmSmall
  | regA | regB | regC | creg => exact h.readReg _ _
  | regCShift => exact h.readRegCShift
  | memImm size =>
    have hbracket : StepAgree (Operands.readBracket gas size s) (Operands.readBracket gas size s') :=
      h.readBracket size
    by_cases hgoes : (Operands.readBracket gas size s).2 = true
    · obtain ⟨t, ht⟩ := exists_bracket hgoes
      have ht' : Bracket gas size s'.asarg t := by rwa [h.asarg_eq]
      rw [ht.readOperand_imm, ht'.readOperand_imm]
      refine (h.move t).readLocation isFirst false size fun _ => ⟨?_, ?_⟩
      · intro found v hfound hv hunknown
        exact hknown ⟨t, ht, .inl ⟨found, v, hfound, hv, hunknown⟩⟩
      · intro hnone hunknown
        exact hknown ⟨t, ht, .inr ⟨hnone, hunknown⟩⟩
    · have hgoes' : ¬ (Operands.readBracket gas size s').2 = true := by rwa [hbracket.goes_eq]
      simp only [Operands.readOperand, if_neg hgoes, if_neg hgoes']
      exact hbracket
  | memReg size =>
    have hbracket : StepAgree (Operands.readBracket gas size s) (Operands.readBracket gas size s') :=
      h.readBracket size
    by_cases hgoes : (Operands.readBracket gas size s).2 = true
    · obtain ⟨t, ht⟩ := exists_bracket hgoes
      have ht' : Bracket gas size s'.asarg t := by rwa [h.asarg_eq]
      rw [ht.readOperand_reg, ht'.readOperand_reg]
      exact (h.move t).readLocation isFirst true size fun hreg => by cases hreg
    · have hgoes' : ¬ (Operands.readBracket gas size s').2 = true := by rwa [hbracket.goes_eq]
      simp only [Operands.readOperand, if_neg hgoes, if_neg hgoes']
      exact hbracket

/-! ## A whole entry -/

/-- The operands that are a register and nothing else. -/
def Operand.isReg : Operand → Bool
  | .regA | .regB | .regC | .creg => true
  | _ => false

/-- The operands that know operators. -/
def Operand.takesOperator : Operand → Bool
  | .imm | .imm1 | .imm2 | .imm16 | .immSign | .memImm _ => true
  | _ => false

/-- In front of an operand that takes an operator there are registers only. -/
def operatorsLast : List Operand → Bool
  | [] => true
  | op :: ops => Operand.isReg op && operatorsLast ops || ops.all (!Operand.takesOperator ·)

theorem UnknownAt.takes {op : Operand} {s : Text} (h : UnknownAt gas op s) :
    Operand.takesOperator op = true := by
  cases op <;> first | rfl | cases h

theorem UnknownTail.exists_takes {ops : List Operand} {s : Text} (h : UnknownTail gas ops s) :
    ∃ op ∈ ops, Operand.takesOperator op = true := by
  induction h with
  | here _ hunknown => exact ⟨_, List.mem_cons_self, hunknown.takes⟩
  | later _ _ _ ih =>
    obtain ⟨op, hop, htakes⟩ := ih
    exact ⟨op, List.mem_cons_of_mem _ hop, htakes⟩

/-- A register leaves everything but the instruction as it is. -/
theorem Operand.isReg.reads {isFirst : Bool} {op : Operand} (h : Operand.isReg op = true)
    (s : Scan S) :
    (readOperand gas isFirst op s).1.toGlobals = s.toGlobals := by
  have hreg (table : NameTable) (place : Nat) :
      (readReg gas table place s).1.toGlobals = s.toGlobals := by
    unfold readReg
    split <;> rfl
  cases op with
  | regA | regB | regC | creg => exact hreg _ _
  | _ => cases h

/-- A register that goes through fits. -/
theorem fits_of_reg {isFirst : Bool} {op : Operand} {s : Scan S}
    (h : Operand.isReg op = true) (hgoes : (readOperand gas isFirst op s).2 = true) :
    ∃ w, Fits gas Rules.lax op s.asarg w
      (afterOperand op (readOperand gas isFirst op s).1.asarg) := by
  have hknown : ¬ UnknownAt gas op s.asarg := by
    intro hunknown
    have htakes := hunknown.takes
    cases op <;> first | (cases htakes; done) | cases h
  obtain ⟨w, rest, hfits⟩ := exists_fits hknown hgoes
    (congrArg Globals.errors (Operand.isReg.reads h s))
  rw [(hfits.reads isFirst).2.after_eq]
  exact ⟨w, hfits⟩

/-- The loop does the same in two states that agree. -/
theorem Agree.readOperands {ops : List Operand} {op : Operand} {s s' : Scan S} (h : Agree s s')
    (hsafe : (∀ op' ∈ ops, Operand.takesOperator op' = false) ∨
      operatorsLast ops = true ∧ ¬ UnknownTail gas ops (afterOperand op s.asarg)) :
    StepAgree (readOperands gas (some op) ops s) (readOperands gas (some op) ops s') := by
  induction ops generalizing op s s' with
  | nil =>
    rw [readOperands_some, readOperands_some, h.asarg_eq]
    split <;> exact ⟨h.move _, rfl⟩
  | cons op' ops ih =>
    rw [readOperands_some, readOperands_some, h.asarg_eq]
    split
    · exact ⟨h.move _, rfl⟩
    · by_cases hpeek : peek (skipBlanks (afterOperand op s.asarg)) = ','
      · obtain ⟨t, ht⟩ := exists_of_peek (by decide) hpeek
        simp only [readTail, ht, peek, List.headD_cons, ne_eq, not_true, if_false, List.tail_cons]
        have hknown : ¬ UnknownAt gas op' (skipBlanks t) := by
          rcases hsafe with hnone | ⟨-, htail⟩
          · intro hunknown
            have htakes := hnone op' List.mem_cons_self
            rw [hunknown.takes] at htakes
            cases htakes
          · exact fun hunknown => htail (.here ht hunknown)
        have hread := (h.move (skipBlanks t)).readOperand false hknown
        rw [hread.goes_eq]
        split
        next hgoes =>
          refine ih hread.agree ?_
          rcases hsafe with hnone | ⟨hlast, htail⟩
          · exact .inl fun op'' hop'' => hnone op'' (List.mem_cons_of_mem _ hop'')
          · rw [operatorsLast, Bool.or_eq_true, Bool.and_eq_true] at hlast
            rcases hlast with ⟨hreg, hlast⟩ | hnone
            · obtain ⟨w, hfits⟩ := fits_of_reg hreg hgoes
              exact .inr ⟨hlast, fun hunknown => htail (.later ht hfits hunknown)⟩
            · exact .inl fun op'' hop'' => by simpa using List.all_eq_true.1 hnone op'' hop''
        next => exact hread
      · simp only [readTail, if_pos hpeek]
        exact ⟨h.move _, rfl⟩

theorem Agree.readOperands_none {ops : List Operand} {s s' : Scan S} (h : Agree s s')
    (hlast : operatorsLast ops = true) (hknown : ¬ ComesToUnknown gas ops s.asarg) :
    StepAgree (Operands.readOperands gas none ops s) (Operands.readOperands gas none ops s') := by
  cases ops with
  | nil =>
    rw [readOperands_none_nil, readOperands_none_nil, h.asarg_eq]
    exact ⟨h.move _, rfl⟩
  | cons op ops =>
    rw [readOperands_none_cons, readOperands_none_cons, h.asarg_eq]
    have hread := (h.move (skipBlanks s.asarg)).readOperand true
      (fun hunknown => hknown (.here hunknown))
    dsimp only
    rw [hread.goes_eq]
    split
    next hgoes =>
      refine hread.agree.readOperands ?_
      rw [operatorsLast, Bool.or_eq_true, Bool.and_eq_true] at hlast
      rcases hlast with ⟨hreg, hlast⟩ | hnone
      · obtain ⟨w, hfits⟩ := fits_of_reg hreg hgoes
        exact .inr ⟨hlast, fun hunknown => hknown (.later hfits hunknown)⟩
      · exact .inl fun op'' hop'' => by simpa using List.all_eq_true.1 hnone op'' hop''
    next => exact hread

/-- What a round comes to, and where it stops. -/
def outcome (x : Step S) :
    Bool × Text × BitVec 32 × Option (RelocType × Expression S) × List Text :=
  (x.2, x.1.asarg, x.1.insnOpcode, x.1.fix, x.1.deferred)

theorem StepAgree.outcome_eq {x x' : Step S} (h : StepAgree x x') : outcome x' = outcome x := by
  have hfix : x'.1.fix = x.1.fix := by
    rw [Scan.fix, Scan.fix, h.agree.reloc_eq]
    cases hreloc : x.1.reloc with
    | none => rfl
    | some reloc =>
      rw [h.agree.imm_eq (by rw [hreloc]; exact Option.some_ne_none reloc)]
  rw [outcome, h.goes_eq, h.agree.asarg_eq, h.agree.insnOpcode_eq, hfix, h.agree.deferred_eq,
    outcome]

theorem outcome_eq {start : Text} {e : Opcode} (hlast : operatorsLast e.operands = true)
    (hknown : ¬ ComesToUnknown gas e.operands start) {s s' : Scan S}
    (hsymbols : s'.symbols = s.symbols) :
    outcome (tryEntry gas start e s') = outcome (tryEntry gas start e s) := by
  have hstart : Agree (startEntry start e s) (startEntry start e s') :=
    ⟨hsymbols, rfl, rfl, rfl, rfl, fun hreloc => absurd rfl hreloc⟩
  exact (hstart.readOperands_none hlast hknown).outcome_eq

/-! ## Where an earlier expression has ended -/

/-- An operator that is not known makes the scanner go on where the last expression has ended. -/
theorem readImm_unknown {ops : PercentOps} {s : Scan S} (h : UnknownOperator ops s.asarg)
    (reloc : RelocType) : (readImm gas ops reloc s).1.asarg = s.parseEnd := by
  obtain ⟨hpercent, htwo⟩ := h
  show (myGetSmallExpression gas ops s.asarg { s with reloc := some reloc }).parseEnd = s.parseEnd
  unfold myGetSmallExpression
  cases hfound : parseRelocation ops (skipOpen s.asarg 0).1 with
  | none => simp [hpercent, hfound]
  | some found => simp [hpercent, hfound, htwo found hfound]

theorem UnknownAt.reads {op : Operand} {s : Scan S} (h : UnknownAt gas op s.asarg)
    (isFirst : Bool) :
    (readOperand gas isFirst op s).2 = true ∧
      (readOperand gas isFirst op s).1.asarg = s.parseEnd := by
  cases op with
  | imm | imm1 | imm2 | imm16 | immSign => exact ⟨rfl, readImm_unknown h _⟩
  | memImm size =>
    obtain ⟨t, hbracket, ⟨found, v, hbase, hplus, hunknown⟩ | ⟨hbase, hunknown⟩⟩ := h
    · rw [hbracket.readOperand_imm,
        readLocation_plus gas (s := { s with asarg := t }) hbase hplus, if_neg (by decide),
        readOffset_eq]
      exact ⟨rfl, readImm_unknown
        (s := Scan.atBase { s with asarg := t } isFirst false found.1 v) hunknown _⟩
    · rw [hbracket.readOperand_imm,
        readLocation_absolute gas (s := { s with asarg := t }) hbase, if_neg (by decide),
        readOffset_eq]
      exact ⟨rfl, readImm_unknown
        (s := Scan.atBase { s with asarg := t } isFirst false regZero t) hunknown _⟩
  | _ => cases h

/-- A character that no operand goes on with. -/
structure Stops (c : Char) : Prop where
  not_blank : isBlank c = false
  ne_bracket : c ≠ ']'
  ne_comma : c ≠ ','

theorem Stops.skipBlanks {c : Char} (h : Stops c) (t : Text) :
    Operands.skipBlanks (c :: t) = c :: t := by
  rw [Operands.skipBlanks, List.dropWhile_cons, h.not_blank, if_neg Bool.false_ne_true]

/-- The loop stops there. -/
theorem Stops.readOperands {c : Char} (h : Stops c) {op : Operand} {ops : List Operand}
    {s : Scan S} (hs : s.asarg = [c, c]) :
    peek (Operands.readOperands gas (some op) ops s).1.asarg = c := by
  have hafter : afterOperand op s.asarg = [c, c] := by
    rw [hs, afterOperand, passBracket, h.skipBlanks]
    simp [peek, h.ne_bracket]
  rw [readOperands_some, hafter, hs, h.skipBlanks]
  cases ops <;> simp [readTail, peek, h.ne_bracket, h.ne_comma]

theorem UnknownTail.stops {c : Char} (h : Stops c) {ops : List Operand} {op : Operand}
    {s : Scan S} (hlast : operatorsLast ops = true)
    (hunknown : UnknownTail gas ops (afterOperand op s.asarg)) (hs : s.parseEnd = [c, c]) :
    peek (readOperands gas (some op) ops s).1.asarg = c := by
  induction ops generalizing op s with
  | nil => cases hunknown
  | cons op' ops ih =>
    have hcomma : ∃ t, skipBlanks (afterOperand op s.asarg) = ',' :: t := by
      cases hunknown with
      | here hcomma | later hcomma => exact ⟨_, hcomma⟩
    obtain ⟨t, ht⟩ := hcomma
    rw [readOperands_some, if_neg]
    · simp only [readTail, ht, peek, List.headD_cons, ne_eq, not_true, if_false, List.tail_cons]
      cases hunknown with
      | here ht' hunknown =>
        obtain rfl := (List.cons.inj (ht.symm.trans ht')).2
        obtain ⟨hgoes, hend⟩ := UnknownAt.reads (s := { s with asarg := skipBlanks t })
          hunknown false
        rw [if_pos hgoes]
        exact h.readOperands (hend.trans hs)
      | later ht' hfits htail =>
        obtain rfl := (List.cons.inj (ht.symm.trans ht')).2
        obtain ⟨hgoes, hread⟩ := hfits.reads (s := { s with asarg := skipBlanks t }) false
        rw [if_pos hgoes]
        rw [operatorsLast, Bool.or_eq_true, Bool.and_eq_true] at hlast
        rcases hlast with ⟨hreg, hlast⟩ | hnone
        · rw [← hread.after_eq] at htail
          refine ih hlast htail ?_
          rw [Operand.isReg.reads hreg]
          exact hs
        · obtain ⟨op'', hop'', htakes⟩ := htail.exists_takes
          have hnot := List.all_eq_true.1 hnone op'' hop''
          rw [htakes] at hnot
          cases hnot
    · rintro ⟨hbracket, hmem⟩
      rw [afterOperand, hmem, if_neg Bool.false_ne_true] at ht
      rw [ht] at hbracket
      exact absurd hbracket (by simp [peek])

theorem ComesToUnknown.stops {c : Char} (h : Stops c) {ops : List Operand} {s : Scan S}
    (hlast : operatorsLast ops = true) (hunknown : ComesToUnknown gas ops s.asarg)
    (hs : s.parseEnd = [c, c]) : peek (readOperands gas none ops s).1.asarg = c := by
  cases hunknown with
  | here hunknown =>
    obtain ⟨hgoes, hend⟩ := UnknownAt.reads (s := { s with asarg := skipBlanks s.asarg })
      hunknown true
    rw [readOperands_none_cons]
    simp only [hgoes, if_true]
    exact h.readOperands (hend.trans hs)
  | later hfits htail =>
    obtain ⟨hgoes, hread⟩ := hfits.reads (s := { s with asarg := skipBlanks s.asarg }) true
    rw [readOperands_none_cons]
    simp only [hgoes, if_true]
    rw [operatorsLast, Bool.or_eq_true, Bool.and_eq_true] at hlast
    rcases hlast with ⟨hreg, hlast⟩ | hnone
    · rw [← hread.after_eq] at htail
      refine htail.stops h hlast ?_
      rw [Operand.isReg.reads hreg]
      exact hs
    · obtain ⟨op', hop', htakes⟩ := htail.exists_takes
      have hnot := List.all_eq_true.1 hnone op' hop'
      rw [htakes] at hnot
      cases hnot

variable (gas) in
/-- What a round does is not up to what is left over, unless it comes to an unknown operator. -/
theorem outcome_eq_iff {start : Text} {e : Opcode} (hlast : operatorsLast e.operands = true) :
    (∀ s s' : Scan S, s'.symbols = s.symbols →
      outcome (tryEntry gas start e s') = outcome (tryEntry gas start e s)) ↔
      ¬ ComesToUnknown gas e.operands start := by
  constructor
  · intro hsame hunknown
    -- two states in which the last expression has ended elsewhere
    let left (c : Char) : Scan S :=
      { parseEnd := [c, c], symbols := [], deferred := [], orphans := [], errors := 0, asarg := [],
        insnOpcode := 0, imm := (gas.expression true []).expr, reloc := none }
    have hstop (c : Char) (hc : Stops c) : peek (tryEntry gas start e (left c)).1.asarg = c :=
      ComesToUnknown.stops hc (s := startEntry start e (left c)) hlast hunknown rfl
    have heq := congrArg (fun x => peek x.2.1) (hsame (left 'a') (left 'b') rfl)
    dsimp only [outcome] at heq
    rw [hstop 'a' ⟨rfl, by decide, by decide⟩, hstop 'b' ⟨rfl, by decide, by decide⟩] at heq
    exact absurd heq (by decide)
  · intro hknown s s' hsymbols
    exact outcome_eq hlast hknown hsymbols

end

end XrLinux.Binutils.Operands
