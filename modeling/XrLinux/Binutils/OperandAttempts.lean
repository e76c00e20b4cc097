import XrLinux.Binutils.OperandLines

/-!
# Binutils — entries that are tried before

The entries of a mnemonic that are tried in vain report nothing if one behind them fits
(`quiet_of_goesBefore`). This needs `expression` to stop in front of the name of a shift: the count
of an index is all that is ever read differently.
-/

namespace XrLinux.Binutils.Operands

section
variable {S : Type} (gas : Gas S)

/-! ## Names -/

theorem splitName_append (s : Text) : (splitName gas s).1 ++ (splitName gas s).2 = s := by
  unfold splitName
  split
  · rfl
  · split
    · rw [List.cons_append, List.takeWhile_append_dropWhile]
    · exact List.takeWhile_append_dropWhile

variable {gas}

theorem exists_of_regLookup {table : NameTable} {s rest : Text} {n : Nat}
    (h : regLookup gas table s = some (n, rest)) :
    ∃ name, (name, n) ∈ table ∧ s = name ++ rest := by
  obtain ⟨m, hlookup, heq⟩ := Option.map_eq_some_iff.1 h
  obtain ⟨rfl, rfl⟩ := Prod.mk.inj heq
  obtain ⟨before, behind, htable, -⟩ := List.lookup_eq_some_iff.1 hlookup
  refine ⟨(splitName gas s).1, ?_, (splitName_append gas s).symm⟩
  rw [htable]
  exact List.mem_append_right _ List.mem_cons_self

theorem peek_append {name : Text} (hname : name ≠ []) (rest : Text) :
    peek (name ++ rest) = peek name := by
  cases name with
  | nil => exact absurd rfl hname
  | cons c name => rfl

/-- The tables of names: they begin with letters, and no register has the name of a size. -/
theorem names_apart :
    (∀ entry ∈ regNames, entry.1 ≠ [] ∧ isBlank (peek entry.1) = false ∧
      peek entry.1 ≠ '(' ∧ peek entry.1 ≠ '%' ∧ peek entry.1 ≠ nul) ∧
    (∀ entry ∈ shiftOpNames, entry.1 ≠ [] ∧
      peek entry.1 ≠ ']' ∧ peek entry.1 ≠ ',' ∧ peek entry.1 ≠ nul) ∧
    ∀ entry ∈ memSizeNames, regNames.lookup entry.1 = none := by decide +kernel

/-- The name of a register begins with a letter. -/
theorem peek_of_reg {s rest : Text} {n : Nat} (h : regLookup gas regNames s = some (n, rest)) :
    isBlank (peek s) = false ∧ peek s ≠ '(' ∧ peek s ≠ '%' ∧ peek s ≠ nul := by
  obtain ⟨name, hmem, rfl⟩ := exists_of_regLookup h
  obtain ⟨hname, hletter⟩ := names_apart.1 _ hmem
  rw [peek_append hname]
  exact hletter

theorem peek_of_shift {s rest : Text} {n : Nat}
    (h : regLookup gas shiftOpNames s = some (n, rest)) :
    peek s ≠ ']' ∧ peek s ≠ ',' ∧ peek s ≠ nul := by
  obtain ⟨name, hmem, rfl⟩ := exists_of_regLookup h
  obtain ⟨hname, hletter⟩ := names_apart.2.1 _ hmem
  rw [peek_append hname]
  exact hletter

/-- No register has the name of a size. -/
theorem regLookup_disjoint {s : Text} {found : Nat × Text}
    (h : regLookup gas memSizeNames s = some found) : regLookup gas regNames s = none := by
  obtain ⟨m, hlookup, -⟩ := Option.map_eq_some_iff.1 h
  obtain ⟨before, behind, htable, -⟩ := List.lookup_eq_some_iff.1 hlookup
  have hmem : ((splitName gas s).1, m) ∈ memSizeNames := by
    rw [htable]
    exact List.mem_append_right _ List.mem_cons_self
  rw [regLookup, names_apart.2.2 _ hmem, Option.map_none]

theorem skipOpen_of_reg {s rest : Text} {n : Nat}
    (h : regLookup gas regNames s = some (n, rest)) : skipOpen s 0 = (s, 0) := by
  obtain ⟨hblank, hparen, -, hnul⟩ := peek_of_reg h
  cases s with
  | nil => exact absurd rfl hnul
  | cons c t =>
    simp only [peek, List.headD_cons] at hblank hparen
    simp [skipOpen, hblank, hparen]

/-! ## Operands that are read for others -/

variable (gas) in
/-- The name of a register in front of the name of a shift is an expression by itself. -/
def Gas.StopsAtShift : Prop :=
  ∀ probing s found shift, regLookup gas regNames s = some found →
    regLookup gas shiftOpNames (skipBlanks found.2) = some shift →
    skipBlanks (gas.expression probing s).rest = skipBlanks found.2

/-- A comma or the end is next. -/
def Ends (rest : Text) : Prop := peek (skipBlanks rest) = ',' ∨ peek (skipBlanks rest) = nul

theorem FitsTail.ends {rules : Rules S} {ops : List Operand} {s : Text} {ws : List (Written S)}
    (h : FitsTail gas rules ops s ws) : Ends s := by
  cases h with
  | nil hend => exact .inr hend
  | cons hcomma _ _ =>
    refine .inl ?_
    rw [hcomma]
    rfl

/-- The size that a memory operand has in the text. -/
theorem Fits.size {rules : Rules S} {op : Operand} {s rest : Text} {w : Written S}
    (h : Fits gas rules op s w rest) {size : MemSize} (hop : op = .memImm size ∨ op = .memReg size) :
    ∃ t, Bracket gas size s t := by
  rcases hop with rfl | rfl
  · cases h with
    | offset hbracket | base hbracket | absolute hbracket => exact ⟨_, hbracket⟩
  · cases h with
    | index hbracket => exact ⟨_, hbracket⟩

/-- A memory operand of another size, or at a register, is not read. -/
theorem readMem_fails {isFirst : Bool} {size : MemSize} {op : Operand} {s : Scan S}
    (hop : op = .memImm size ∨ op = .memReg size)
    (h : ∀ rest, regLookup gas memSizeNames s.asarg ≠ some (size.shift, rest)) :
    (readOperand gas isFirst op s).2 = false ∧
      (readOperand gas isFirst op s).1.errors = s.errors := by
  have hfails : (readBracket gas size s).2 = false := by
    cases hsize : regLookup gas memSizeNames s.asarg with
    | none => simp [readBracket, hsize]
    | some found =>
      have hne : found.1 ≠ size.shift := by
        intro heq
        exact h found.2 (by rw [hsize, ← heq])
      simp [readBracket, hsize, hne]
  have herrors := readBracket_errors gas size s
  rcases hop with rfl | rfl <;> simp [readOperand, hfails, herrors]

theorem MemSize.shift_injective {size size' : MemSize} (h : size.shift = size'.shift) :
    size = size' := by
  cases size <;> cases size' <;> first | rfl | cases h

theorem Bracket.lookup_ne {size size' : MemSize} {s t : Text} (h : Bracket gas size s t)
    (hne : size' ≠ size) (rest : Text) :
    regLookup gas memSizeNames s ≠ some (size'.shift, rest) := by
  obtain ⟨u, hsize, -⟩ := h
  rw [hsize]
  intro heq
  exact hne (MemSize.shift_injective (Prod.mk.inj (Option.some.inj heq)).1.symm)

theorem FitsReg.lookup_ne {s rest : Text} {w : Written S} (h : FitsReg gas regNames s w rest)
    (found : Nat × Text) : regLookup gas memSizeNames s ≠ some found := by
  intro hsize
  cases h with
  | reg hreg =>
    rw [regLookup_disjoint hsize] at hreg
    cases hreg

/-- An index that is read where an offset is written. If it has a shift, then the offset has come
to an end in front of it, and the operand has not. -/
theorem readMemReg_quiet (hstops : gas.StopsAtShift) {isFirst : Bool} {size : MemSize}
    {s : Scan S} {w : Written S} {rest : Text}
    (h : FitsMemImm gas Rules.lax size s.asarg w rest) (hends : Ends rest) :
    (readOperand gas isFirst (.memReg size) s).1.errors = s.errors := by
  cases h with
  | @absolute t x _ fix hbracket hbase himm hcloses =>
    rw [hbracket.readOperand_reg, readLocation_absolute gas (s := { s with asarg := t }) hbase,
      if_pos rfl, readRegCShift]
    simp [Scan.atBase, hbase]
  | @base t u _ base hbracket hbase hcloses =>
    rw [hbracket.readOperand_reg, readLocation_base gas (s := { s with asarg := t }) hbase hcloses.1,
      if_pos rfl]
  | @offset t u v x _ base fix hbracket hbase hplus himm hcloses =>
    rw [hbracket.readOperand_reg, readLocation_plus gas (s := { s with asarg := t }) hbase hplus,
      if_pos rfl]
    cases hreg : regLookup gas regNames v with
    | none => simp [readRegCShift, Scan.atBase, hreg]
    | some found =>
      cases hshift : regLookup gas shiftOpNames (skipBlanks found.2) with
      | none => simp [readRegCShift, Scan.atBase, hreg, hshift]
      | some shift =>
        exfalso
        have hopen := skipOpen_of_reg hreg
        obtain ⟨-, -, hpercent, -⟩ := peek_of_reg hreg
        -- the offset is an expression from the register on
        have hx : skipBlanks x = skipBlanks found.2 := by
          cases himm with
          | plain hplain hreads _ =>
            rw [← hreads.rest_eq]
            exact hstops _ v found shift hreg hshift
          | operator hpercent' _ _ _ _ _ =>
            rw [hopen] at hpercent'
            exact absurd hpercent' hpercent
        obtain ⟨hbracket', hcomma, hnul⟩ := peek_of_shift hshift
        have hrest : rest = x := by
          rw [show rest = passBracket x from hcloses, passBracket, hx, if_neg hbracket']
        rw [Ends, hrest, hx] at hends
        exact hends.elim hcomma hnul

/-! ## Entries -/

/-- An operand reports nothing where another fits. -/
def quietFor : Operand → Operand → Bool
  | .regA, _ | .regB, _ => true
  | .memReg _, .regA | .memImm _, .regA => true
  | .memReg _, .memReg _ | .memReg _, .memImm _ | .memImm _, .memImm _ => true
  | _, _ => false

/-- An operand is not read where another fits. -/
def failsFor : Operand → Operand → Bool
  | .regA, .memReg _ | .regA, .memImm _ | .memReg _, .regA | .memImm _, .regA => true
  | .memReg size, .memReg size' | .memReg size, .memImm size' => size ≠ size'
  | .memImm size, .memReg size' | .memImm size, .memImm size' => size ≠ size'
  | _, _ => false

/-- Operands that report nothing where those of an entry behind them fit. -/
def goesBefore : List Operand → List Operand → Bool
  | [op, op'], [op₂, op₂'] =>
    quietFor op op₂ && (failsFor op op₂ || op' = .regA || op' = .regB ||
      (op = .regA && op₂ = .regA && quietFor op' op₂'))
  | _, _ => false

theorem quiet_of_quietFor (hstops : gas.StopsAtShift) {op op' : Operand}
    (h : quietFor op op' = true) {isFirst : Bool} {s : Scan S} {w : Written S} {rest : Text}
    (hfits : Fits gas Rules.lax op' s.asarg w rest) (hends : Ends rest) :
    (readOperand gas isFirst op s).1.errors = s.errors := by
  have hother {size size' : MemSize} (hop : op = .memImm size ∨ op = .memReg size)
      (hop' : op' = .memImm size' ∨ op' = .memReg size') (hne : size ≠ size') :
      (readOperand gas isFirst op s).1.errors = s.errors := by
    obtain ⟨t, hbracket⟩ := hfits.size hop'
    exact (readMem_fails hop (hbracket.lookup_ne hne)).2
  cases op with
  | regA | regB => exact readReg_errors gas _ _ s
  | memReg size =>
    cases op' with
    | regA => exact (readMem_fails (.inr rfl) fun _ => FitsReg.lookup_ne hfits _).2
    | memReg size' =>
      by_cases hsize : size = size'
      · subst hsize
        exact (hfits.reads isFirst).2.errors_eq
      · exact hother (.inr rfl) (.inr rfl) hsize
    | memImm size' =>
      by_cases hsize : size = size'
      · subst hsize
        exact readMemReg_quiet hstops hfits hends
      · exact hother (.inr rfl) (.inl rfl) hsize
    | _ => cases h
  | memImm size =>
    cases op' with
    | regA => exact (readMem_fails (.inl rfl) fun _ => FitsReg.lookup_ne hfits _).2
    | memImm size' =>
      by_cases hsize : size = size'
      · subst hsize
        exact (hfits.reads isFirst).2.errors_eq
      · exact hother (.inl rfl) (.inl rfl) hsize
    | _ => cases h
  | _ => cases h

theorem fails_of_failsFor {op op' : Operand} (h : failsFor op op' = true) {isFirst : Bool}
    {s : Scan S} {w : Written S} {rest : Text} (hfits : Fits gas Rules.lax op' s.asarg w rest) :
    (readOperand gas isFirst op s).2 = false := by
  have hother {size size' : MemSize} (hop : op = .memImm size ∨ op = .memReg size)
      (hop' : op' = .memImm size' ∨ op' = .memReg size') (hne : size ≠ size') :
      (readOperand gas isFirst op s).2 = false := by
    obtain ⟨t, hbracket⟩ := hfits.size hop'
    exact (readMem_fails hop (hbracket.lookup_ne hne)).1
  have hreg {size : MemSize} (hop' : op' = .memImm size ∨ op' = .memReg size) :
      (readReg gas regNames 6 s).2 = false := by
    obtain ⟨t, u, hsize, -⟩ := hfits.size hop'
    rw [readReg, regLookup_disjoint hsize]
  cases op with
  | regA =>
    cases op' with
    | memImm size => exact hreg (.inl rfl)
    | memReg size => exact hreg (.inr rfl)
    | _ => cases h
  | memReg size =>
    cases op' with
    | regA => exact (readMem_fails (.inr rfl) fun _ => FitsReg.lookup_ne hfits _).1
    | memReg size' => exact hother (.inr rfl) (.inr rfl) (of_decide_eq_true h)
    | memImm size' => exact hother (.inr rfl) (.inl rfl) (of_decide_eq_true h)
    | _ => cases h
  | memImm size =>
    cases op' with
    | regA => exact (readMem_fails (.inl rfl) fun _ => FitsReg.lookup_ne hfits _).1
    | memReg size' => exact hother (.inl rfl) (.inr rfl) (of_decide_eq_true h)
    | memImm size' => exact hother (.inl rfl) (.inl rfl) (of_decide_eq_true h)
    | _ => cases h
  | _ => cases h

/-- The last operand of an entry reports nothing, whether it is read or not. -/
theorem readOperands_last_quiet {op op' : Operand} {s : Scan S}
    (h : ∀ t, skipBlanks (afterOperand op s.asarg) = ',' :: t →
      (readOperand gas false op' { s with asarg := skipBlanks t }).1.errors = s.errors) :
    (readOperands gas (some op) [op'] s).1.errors = s.errors := by
  rw [readOperands_some]
  split
  · rfl
  · unfold readTail
    dsimp only
    by_cases hpeek : peek (skipBlanks (afterOperand op s.asarg)) = ','
    · obtain ⟨t, ht⟩ := exists_of_peek (by decide) hpeek
      simp only [ht, peek, List.headD_cons, ne_eq, not_true, if_false, List.tail_cons]
      split
      · rw [readOperands_some]
        split <;> exact h t ht
      · exact h t ht
    · rw [if_pos hpeek]

/-- An entry that is tried before one that fits reports nothing. -/
theorem quiet_of_goesBefore (hstops : gas.StopsAtShift) {ops ops' : List Operand}
    (h : goesBefore ops ops' = true) {s : Scan S} {ws : List (Written S)}
    (hfits : FitsOperands gas Rules.lax ops' s.asarg ws) :
    (readOperands gas none ops s).1.errors = s.errors := by
  obtain ⟨op, last, op₂, last₂, rfl, rfl⟩ : ∃ op last op₂ last₂,
      ops = [op, last] ∧ ops' = [op₂, last₂] := by
    unfold goesBefore at h
    split at h
    · exact ⟨_, _, _, _, rfl, rfl⟩
    · cases h
  simp only [goesBefore, Bool.and_eq_true, Bool.or_eq_true, decide_eq_true_eq] at h
  obtain ⟨hquiet, hlast⟩ := h
  cases hfits with
  | @cons _ _ _ rest _ _ hfirst htail =>
    have hend := htail.ends
    cases htail with
    | @cons _ _ _ t rest' _ _ hcomma hfits' htail' =>
      have hstep : (readOperand gas true op { s with asarg := skipBlanks s.asarg }).1.errors =
          s.errors := quiet_of_quietFor hstops hquiet
        (s := { s with asarg := skipBlanks s.asarg }) hfirst hend
      rw [readOperands_none_cons]
      dsimp only
      split
      next hgoes =>
        rw [← hstep]
        refine readOperands_last_quiet fun t' ht' => ?_
        rcases hlast with ((hfails | rfl) | rfl) | ⟨⟨rfl, rfl⟩, hquiet'⟩
        · rw [fails_of_failsFor hfails
            (s := { s with asarg := skipBlanks s.asarg }) hfirst] at hgoes
          cases hgoes
        · exact readReg_errors gas _ _ _
        · exact readReg_errors gas _ _ _
        · -- both have read the same register
          have hafter := (hfirst.reads (s := { s with asarg := skipBlanks s.asarg }) true).2.after_eq
          rw [hafter, hcomma] at ht'
          obtain rfl := (List.cons.inj ht').2
          exact quiet_of_quietFor hstops hquiet' hfits' htail'.ends
      next => exact hstep

end

end XrLinux.Binutils.Operands
