import XrLinux.Binutils.OperandReadings

/-!
# Binutils — reading an entry

An entry goes through without an error exactly when the text fits its operands by the lax rules.
-/

namespace XrLinux.Binutils.Operands

section
variable {S : Type} (gas : Gas S)

/-! ## The loop over the operands -/

/-- The rest of an iteration, once the bracket of the operand before has been passed over. -/
def readTail (ops : List Operand) (rest : Text) (s : Scan S) : Step S :=
  match ops with
  | [] => ({ s with asarg := rest }, peek rest = nul)
  | op :: ops =>
    if peek rest ≠ ',' then ({ s with asarg := rest.tail }, false)
    else
      let read := readOperand gas false op { s with asarg := skipBlanks rest.tail }
      if read.2 then readOperands gas (some op) ops read.1 else read

theorem readOperands_some (op : Operand) (ops : List Operand) (s : Scan S) :
    readOperands gas (some op) ops s =
      if peek (skipBlanks s.asarg) = ']' ∧ op.isMem = false then
        ({ s with asarg := skipBlanks s.asarg }, false)
      else readTail gas ops (skipBlanks (afterOperand op s.asarg)) s := by
  rw [readOperands.eq_def]
  by_cases hbracket : peek (skipBlanks s.asarg) = ']' <;> cases hmem : op.isMem <;>
    cases ops <;> simp [readTail, afterOperand, passBracket, hbracket, hmem]

theorem readOperands_none_cons (op : Operand) (ops : List Operand) (s : Scan S) :
    readOperands gas none (op :: ops) s =
      let read := readOperand gas true op { s with asarg := skipBlanks s.asarg }
      if read.2 then readOperands gas (some op) ops read.1 else read := by
  rw [readOperands.eq_def]
  simp

theorem readOperands_none_nil (s : Scan S) :
    readOperands gas none [] s =
      ({ s with asarg := skipBlanks s.asarg }, decide (peek (skipBlanks s.asarg) = nul)) := by
  rw [readOperands.eq_def]
  simp

/-- Behind an operand that goes through there is nothing that could be reported wrongly. -/
theorem errors_le_readOperands (op : Operand) (ops : List Operand) (s : Scan S) :
    s.errors ≤ (readOperands gas (some op) ops s).1.errors := by
  induction ops generalizing op s with
  | nil =>
    rw [readOperands_some]
    split <;> exact le_rfl
  | cons op' ops ih =>
    rw [readOperands_some]
    split
    · exact le_rfl
    · unfold readTail
      dsimp only
      split
      · exact le_rfl
      · have hstep := errors_le_readOperand gas false op'
          { s with asarg := skipBlanks (skipBlanks (afterOperand op s.asarg)).tail }
        split
        · exact hstep.trans (ih _ _)
        · exact hstep

/-! ## Fitting text goes through -/

variable {gas}

/-- Behind a comma or at the end there is no bracket. -/
theorem FitsTail.peek_ne {rules : Rules S} {ops : List Operand} {s : Text} {ws : List (Written S)}
    (h : FitsTail gas rules ops s ws) : peek (skipBlanks s) ≠ ']' := by
  cases h with
  | nil hend =>
    rw [hend]
    decide
  | cons hcomma _ _ =>
    rw [hcomma, peek, List.headD_cons]
    decide

theorem FitsTail.readOperands_eq {ops : List Operand} {op : Operand} {s : Scan S}
    {ws : List (Written S)} (h : FitsTail gas Rules.lax ops (afterOperand op s.asarg) ws) :
    readOperands gas (some op) ops s =
      readTail gas ops (skipBlanks (afterOperand op s.asarg)) s := by
  rw [readOperands_some, if_neg]
  rintro ⟨hbracket, hmem⟩
  have hne := h.peek_ne
  rw [afterOperand, hmem] at hne
  exact hne hbracket

theorem Fits.fix_eq_none {rules : Rules S} {op : Operand} {s rest : Text} {w : Written S}
    (h : Fits gas rules op s w rest) (huses : Operand.usesImm op = false) : w.fix = none := by
  cases op with
  | regA | regB | regC | creg | immSmall =>
    cases h
    rfl
  | _ => cases huses

/-- At most one operand has a use for the expression of the fixup. -/
def Single (ops : List Operand) : Prop := (ops.filter Operand.usesImm).length ≤ 1

instance (ops : List Operand) : Decidable (Single ops) :=
  inferInstanceAs (Decidable (_ ≤ _))

theorem Single.tail {op : Operand} {ops : List Operand} (h : Single (op :: ops)) : Single ops := by
  refine le_trans ?_ h
  exact ((List.sublist_cons_self op ops).filter _).length_le

theorem Single.of_uses {op : Operand} {ops : List Operand} (h : Single (op :: ops))
    (huses : Operand.usesImm op = true) : ∀ op' ∈ ops, Operand.usesImm op' = false := by
  rw [Single, List.filter_cons_of_pos huses, List.length_cons] at h
  have hnil : ops.filter Operand.usesImm = [] := List.eq_nil_of_length_eq_zero (by omega)
  intro op' hop'
  simpa using List.filter_eq_nil_iff.1 hnil op' hop'

/-- What has been read of a list of operands. -/
structure ReadAll (s : Scan S) (bits : BitVec 32) (fix : Option (RelocType × Expression S))
    (x : Step S) : Prop where
  goes : x.2 = true
  opcode_eq : x.1.insnOpcode = s.insnOpcode ||| bits
  fix_eq : x.1.fix = fix
  errors_eq : x.1.errors = s.errors

theorem Scan.fix_eq_none_iff {s : Scan S} : s.fix = none ↔ s.reloc = none := Option.map_eq_none_iff

/-- The fixup is the one that there was, or that of the operand. -/
theorem ReadAs.fix_or {isFirst : Bool} {op : Operand} {ops : List Operand} {s x : Scan S}
    {t rest : Text} {w : Written S} (h : ReadAs isFirst op s w rest x)
    (hfits : Fits gas Rules.lax op t w rest)
    (hroom : s.fix = none ∨ ∀ op' ∈ op :: ops, Operand.usesImm op' = false)
    (hsingle : Single (op :: ops)) :
    x.fix = s.fix.or w.fix ∧ (x.fix = none ∨ ∀ op' ∈ ops, Operand.usesImm op' = false) := by
  cases huses : Operand.usesImm op with
  | false =>
    rw [h.fix_kept huses, hfits.fix_eq_none huses, Option.or_none]
    refine ⟨rfl, hroom.imp_right fun hall op' hop' => ?_⟩
    exact hall op' (List.mem_cons_of_mem _ hop')
  | true =>
    have hnone : s.fix = none := by
      rcases hroom with hnone | hall
      · exact hnone
      · rw [hall op List.mem_cons_self] at huses
        cases huses
    rw [h.fix_eq (Scan.fix_eq_none_iff.1 hnone), hnone]
    exact ⟨(Option.none_or).symm, .inr (hsingle.of_uses huses)⟩

theorem FitsTail.reads {ops : List Operand} {op : Operand} {s : Scan S} {ws : List (Written S)}
    (h : FitsTail gas Rules.lax ops (afterOperand op s.asarg) ws)
    (hroom : s.fix = none ∨ ∀ op' ∈ ops, Operand.usesImm op' = false) (hsingle : Single ops) :
    ReadAll s (bitsFrom false ops ws) (s.fix.or (ws.findSome? Written.fix))
      (readOperands gas (some op) ops s) := by
  induction ops generalizing op s ws with
  | nil =>
    rw [h.readOperands_eq]
    cases h with
    | nil hend =>
      refine ⟨decide_eq_true hend, (BitVec.or_zero).symm, ?_, rfl⟩
      exact (Option.or_none).symm
  | cons op' ops ih =>
    rw [h.readOperands_eq]
    cases h with
    | @cons _ _ _ t rest w ws hcomma hfits htail =>
      obtain ⟨hgoes, hread⟩ := Fits.reads (s := { s with asarg := skipBlanks t }) hfits false
      obtain ⟨hfix, hroom'⟩ := hread.fix_or hfits hroom hsingle
      rw [← hread.after_eq] at htail
      have hrest := ih htail hroom' hsingle.tail
      simp only [readTail, hcomma, peek, List.headD_cons, ne_eq, not_true, if_false,
        List.tail_cons, hgoes, if_true]
      refine ⟨hrest.goes, ?_, ?_, hrest.errors_eq.trans hread.errors_eq⟩
      · rw [hrest.opcode_eq, hread.opcode_eq]
        exact BitVec.or_assoc _ _ _
      · rw [hrest.fix_eq, hfix, Option.or_assoc]
        congr 1
        cases hw : w.fix <;> simp [hw]

theorem FitsOperands.reads {ops : List Operand} {s : Scan S} {ws : List (Written S)}
    (h : FitsOperands gas Rules.lax ops s.asarg ws) (hnone : s.fix = none)
    (hsingle : Single ops) :
    ReadAll s (bitsFrom true ops ws) (ws.findSome? Written.fix) (readOperands gas none ops s) := by
  cases h with
  | nil hend =>
    rw [readOperands_none_nil]
    exact ⟨decide_eq_true hend, (BitVec.or_zero).symm, hnone, rfl⟩
  | @cons op ops _ rest w ws hfits htail =>
    obtain ⟨hgoes, hread⟩ := Fits.reads (s := { s with asarg := skipBlanks s.asarg }) hfits true
    obtain ⟨hfix, hroom⟩ := hread.fix_or hfits (.inl hnone) hsingle
    rw [← hread.after_eq] at htail
    have hrest := htail.reads hroom hsingle.tail
    rw [readOperands_none_cons]
    simp only [hgoes, if_true]
    refine ⟨hrest.goes, ?_, ?_, hrest.errors_eq.trans hread.errors_eq⟩
    · rw [hrest.opcode_eq, hread.opcode_eq]
      exact BitVec.or_assoc _ _ _
    · rw [hrest.fix_eq, hfix]
      show ((Scan.fix s).or w.fix).or _ = _
      rw [hnone, Option.none_or]
      cases hw : w.fix <;> simp [hw]

/-! ## What goes through fits -/

variable (gas) in
/-- Behind an operand, the reading of the others comes to an operator that is not known. -/
inductive UnknownTail : List Operand → Text → Prop
  | here {op : Operand} {ops : List Operand} {s t : Text} (hcomma : skipBlanks s = ',' :: t)
      (hunknown : UnknownAt gas op (skipBlanks t)) : UnknownTail (op :: ops) s
  | later {op : Operand} {ops : List Operand} {s t rest : Text} {w : Written S}
      (hcomma : skipBlanks s = ',' :: t) (hfits : Fits gas Rules.lax op (skipBlanks t) w rest)
      (htail : UnknownTail ops rest) : UnknownTail (op :: ops) s

variable (gas) in
/-- The reading of an entry comes to an operator that is not known. -/
inductive ComesToUnknown : List Operand → Text → Prop
  | here {op : Operand} {ops : List Operand} {s : Text}
      (hunknown : UnknownAt gas op (skipBlanks s)) : ComesToUnknown (op :: ops) s
  | later {op : Operand} {ops : List Operand} {s rest : Text} {w : Written S}
      (hfits : Fits gas Rules.lax op (skipBlanks s) w rest) (htail : UnknownTail gas ops rest) :
      ComesToUnknown (op :: ops) s

/-- What one operand and the loop behind it do together. -/
theorem exists_fits_then {isFirst : Bool} {op : Operand} {ops : List Operand} {s : Scan S}
    (hknown : ¬ UnknownAt gas op s.asarg)
    (hgoes : (let read := readOperand gas isFirst op s
      if read.2 then readOperands gas (some op) ops read.1 else read).2 = true)
    (hquiet : (let read := readOperand gas isFirst op s
      if read.2 then readOperands gas (some op) ops read.1 else read).1.errors = s.errors) :
    let read := (readOperand gas isFirst op s).1
    (∃ w, Fits gas Rules.lax op s.asarg w (afterOperand op read.asarg)) ∧
      (readOperands gas (some op) ops read).2 = true ∧
      (readOperands gas (some op) ops read).1.errors = read.errors := by
  dsimp only at hgoes hquiet ⊢
  have hread : (readOperand gas isFirst op s).2 = true := by
    by_contra hfails
    rw [if_neg hfails] at hgoes
    exact hfails hgoes
  rw [if_pos hread] at hgoes hquiet
  have hle := errors_le_readOperand gas isFirst op s
  have hle' := errors_le_readOperands gas op ops (readOperand gas isFirst op s).1
  obtain ⟨w, rest, hfits⟩ := exists_fits hknown hread (by omega)
  refine ⟨⟨w, ?_⟩, hgoes, by omega⟩
  rw [(hfits.reads isFirst).2.after_eq]
  exact hfits

theorem exists_fitsTail {ops : List Operand} {op : Operand} {s : Scan S}
    (hknown : ¬ UnknownTail gas ops (afterOperand op s.asarg))
    (hgoes : (readOperands gas (some op) ops s).2 = true)
    (hquiet : (readOperands gas (some op) ops s).1.errors = s.errors) :
    ∃ ws, FitsTail gas Rules.lax ops (afterOperand op s.asarg) ws := by
  induction ops generalizing op s with
  | nil =>
    rw [readOperands_some] at hgoes
    split at hgoes
    · cases hgoes
    · exact ⟨[], .nil (of_decide_eq_true hgoes)⟩
  | cons op' ops ih =>
    rw [readOperands_some] at hgoes hquiet
    split at hgoes
    · cases hgoes
    next hbracket =>
      rw [if_neg hbracket] at hquiet
      simp only [readTail] at hgoes hquiet
      by_cases hpeek : peek (skipBlanks (afterOperand op s.asarg)) = ','
      · obtain ⟨t, ht⟩ := exists_of_peek (by decide) hpeek
        simp only [ht, peek, List.headD_cons, ne_eq, not_true, if_false, List.tail_cons]
          at hgoes hquiet
        obtain ⟨⟨w, hfits⟩, hgoes', hquiet'⟩ := exists_fits_then
          (s := { s with asarg := skipBlanks t })
          (fun hunknown => hknown (.here ht hunknown)) hgoes hquiet
        obtain ⟨ws, htail⟩ := ih (fun htail => hknown (.later ht hfits htail)) hgoes' hquiet'
        exact ⟨_, .cons ht hfits htail⟩
      · rw [if_pos hpeek] at hgoes
        cases hgoes

theorem exists_fitsOperands_scan {ops : List Operand} {s : Scan S}
    (hknown : ¬ ComesToUnknown gas ops s.asarg)
    (hgoes : (readOperands gas none ops s).2 = true)
    (hquiet : (readOperands gas none ops s).1.errors = s.errors) :
    ∃ ws, FitsOperands gas Rules.lax ops s.asarg ws := by
  cases ops with
  | nil =>
    rw [readOperands_none_nil] at hgoes
    exact ⟨[], .nil (of_decide_eq_true hgoes)⟩
  | cons op ops =>
    rw [readOperands_none_cons] at hgoes hquiet
    obtain ⟨⟨w, hfits⟩, hgoes', hquiet'⟩ := exists_fits_then
      (s := { s with asarg := skipBlanks s.asarg })
      (fun hunknown => hknown (.here hunknown)) hgoes hquiet
    obtain ⟨ws, htail⟩ := exists_fitsTail (fun htail => hknown (.later hfits htail)) hgoes' hquiet'
    exact ⟨_, .cons hfits htail⟩

/-! ## Entries -/

variable (gas) in
theorem errors_le_readOperands_none (ops : List Operand) (s : Scan S) :
    s.errors ≤ (readOperands gas none ops s).1.errors := by
  cases ops with
  | nil => rw [readOperands_none_nil]
  | cons op ops =>
    rw [readOperands_none_cons]
    have hstep := errors_le_readOperand gas true op { s with asarg := skipBlanks s.asarg }
    dsimp only
    split
    · exact hstep.trans (errors_le_readOperands gas op ops _)
    · exact hstep

variable (gas) in
theorem errors_le_tryEntry (start : Text) (e : Opcode) (s : Scan S) :
    s.errors ≤ (tryEntry gas start e s).1.errors :=
  errors_le_readOperands_none gas e.operands (startEntry start e s)

/-- An entry that fits is tried with success, and leaves its instruction. -/
theorem FitsOperands.tries {e : Opcode} {start : Text} {ws : List (Written S)}
    (h : FitsOperands gas Rules.lax e.operands start ws) (hsingle : Single e.operands)
    (s : Scan S) :
    let x := tryEntry gas start e s
    x.2 = true ∧ x.1.insnOpcode = (encode e ws).insnOpcode ∧ x.1.fix = (encode e ws).fix ∧
      x.1.errors = s.errors := by
  have hread := FitsOperands.reads (s := startEntry start e s) h rfl hsingle
  exact ⟨hread.goes, hread.opcode_eq, hread.fix_eq, hread.errors_eq⟩

theorem exists_fitsOperands {e : Opcode} {start : Text} {s : Scan S}
    (hknown : ¬ ComesToUnknown gas e.operands start)
    (hgoes : (tryEntry gas start e s).2 = true)
    (hquiet : (tryEntry gas start e s).1.errors = s.errors) :
    ∃ ws, FitsOperands gas Rules.lax e.operands start ws :=
  exists_fitsOperands_scan (s := startEntry start e s) hknown hgoes hquiet

end

end XrLinux.Binutils.Operands
