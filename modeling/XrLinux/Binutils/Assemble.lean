import Mathlib.Data.List.DropRight
import XrLinux.Binutils.OperandAttempts
import XrLinux.Binutils.OperandState

/-!
# Binutils — the lines that gas accepts

A line is accepted exactly when it fits an entry of its mnemonic in full, and its instruction is
then the one that is written, unless one of three things happens (`meets_iff`): its first fit
leaves a bracket open or an immediate out, it has an operator that is not known, or the word
`signed` is the target of a jump.
-/

namespace XrLinux.Binutils.Operands

section
variable {S : Type} (gas : Gas S)

/-! ## The claim -/

/-- A line is assembled and nothing is reported. -/
def Accepts (str : Text) (s : Scan S) : Prop :=
  (mdAssemble gas str s).2.isSome ∧ (mdAssemble gas str s).1.errors = s.errors

/-- A line is assembled as the grammar says. -/
structure Meets (str : Text) : Prop where
  /-- No round is up to what the rounds and the lines before it have left. -/
  independent : ∀ e ∈ (findEntries str).1, ∀ s s' : Scan S, s'.symbols = s.symbols →
    outcome (tryEntry gas (findEntries str).2 e s') =
      outcome (tryEntry gas (findEntries str).2 e s)
  accepts_iff : ∀ s : Scan S, Accepts gas str s ↔ ∃ e ws, FitsLine gas str e ws
  /-- Where several entries fit, the first of them is meant. -/
  encoded : ∀ (s : Scan S) (insn : Insn S), Accepts gas str s →
    (mdAssemble gas str s).2 = some insn →
    ∃ ws, FirstFit gas (Rules.full gas) (findInsn (splitMnemonic str).1) insn.entry
      (splitMnemonic str).2 ws ∧ insn = encode insn.entry ws
  reported : ∀ s : Scan S, ¬ Accepts gas str s → s.errors < (mdAssemble gas str s).1.errors

/-- The lines that are read as the grammar says. -/
structure WellRead (str : Text) : Prop where
  /-- None of the entries comes to an operator that is not known. -/
  operators : ∀ e ∈ (findEntries str).1, ¬ ComesToUnknown gas e.operands (findEntries str).2
  /-- The first entry that fits by the lax rules, if gas takes its immediate, fits in full. -/
  closed : ∀ e ws, FirstFit gas Rules.lax (findEntries str).1 e (findEntries str).2 ws →
    fixupErrors gas (encode e ws).fix = 0 → ∃ ws', FitsLine gas str e ws'
  /-- No line whose mnemonic is not found fits. -/
  signed : (findEntries str).1 = [] → ∀ e ws, ¬ FitsLine gas str e ws

variable {gas}

/-! ## Lax rules take more -/

theorem passBracket_of_closes {s rest : Text} (h : skipBlanks s = ']' :: rest) :
    rest = passBracket s := by
  rw [passBracket, h]
  rfl

theorem Immediate.lax {rules : Rules S} {ops : PercentOps} {reloc : RelocType} {s rest : Text}
    {fix : RelocType × Expression S} (h : Immediate gas rules ops reloc s fix rest) :
    Immediate gas Rules.lax ops reloc s fix rest := by
  cases h with
  | plain hplain hreads _ => exact .plain hplain hreads trivial
  | operator hpercent hknown hone hreads _ hclosed =>
    exact .operator hpercent hknown hone hreads trivial hclosed

theorem Fits.lax {op : Operand} {s rest : Text} {w : Written S}
    (h : Fits gas (Rules.full gas) op s w rest) : Fits gas Rules.lax op s w rest := by
  cases op with
  | jump | branch =>
    cases h with
    | target hreads _ => exact .target hreads trivial
  | imm | imm1 | imm2 | imm16 | immSign =>
    cases h with
    | imm himm => exact .imm himm.lax
  | immSmall | regA | regB | regC | creg | regCShift => exact h
  | memImm size =>
    cases h with
    | offset hbracket hbase hplus himm hcloses =>
      exact .offset hbracket hbase hplus himm.lax (passBracket_of_closes hcloses)
    | base hbracket hbase hcloses =>
      obtain ⟨hclosed, honce⟩ := hcloses
      refine .base hbracket hbase ⟨?_, ?_⟩
      · rw [hclosed, peek, List.headD_cons]
        decide
      · rw [hclosed, List.tail_cons, passBracket, if_neg honce]
    | absolute hbracket hbase himm hcloses =>
      exact .absolute hbracket hbase himm.lax (passBracket_of_closes hcloses)
  | memReg size =>
    cases h with
    | index hbracket hbase hplus hindex hcloses =>
      exact .index hbracket hbase hplus hindex (passBracket_of_closes hcloses)

theorem FitsTail.lax {ops : List Operand} {s : Text} {ws : List (Written S)}
    (h : FitsTail gas (Rules.full gas) ops s ws) : FitsTail gas Rules.lax ops s ws := by
  induction h with
  | nil hend => exact .nil hend
  | cons hcomma hfits _ ih => exact .cons hcomma hfits.lax ih

theorem FitsOperands.lax {ops : List Operand} {s : Text} {ws : List (Written S)}
    (h : FitsOperands gas (Rules.full gas) ops s ws) : FitsOperands gas Rules.lax ops s ws := by
  cases h with
  | nil hend => exact .nil hend
  | cons hfits htail => exact .cons hfits.lax htail.lax

/-! ## The mnemonic -/

theorem mem_findInsn {m : List Char} {e : Opcode} :
    e ∈ findInsn m ↔ e ∈ xr17032Opcodes ∧ e.mnemonic = m := by
  rw [findInsn_eq, List.mem_filter, decide_eq_true_iff]

/-- The table: the only blank in a mnemonic is in front of `signed`, there is one fixup in each entry,
and the entries of a mnemonic are in an order in which one that is tried in vain does no harm. -/
theorem opcodes_table :
    (∀ e ∈ xr17032Opcodes, e.mnemonic.dropWhile (!isSpace ·) = [] ∨
      e.mnemonic.dropWhile (!isSpace ·) = ' ' :: signedWord) ∧
    (∀ e ∈ xr17032Opcodes, Single e.operands) ∧
    (∀ e ∈ xr17032Opcodes, operatorsLast e.operands = true) ∧
    (xr17032Opcodes.Pairwise fun e e' =>
      e.mnemonic = e'.mnemonic → goesBefore e.operands e'.operands = true) ∧
    ∀ e ∈ xr17032Opcodes, signedWord <:+ e.mnemonic → e.operands.head? = some .regA := by
  decide +kernel

theorem dropWhile_mnemonic : ∀ e ∈ xr17032Opcodes,
    e.mnemonic.dropWhile (!isSpace ·) = [] ∨
      e.mnemonic.dropWhile (!isSpace ·) = ' ' :: signedWord := opcodes_table.1

/-- A whole line with the word `signed` is not found if its first two words are not. -/
theorem findInsn_line {name : List Char} {c : Char} {rest : Text}
    (hname : ∀ d ∈ name, isSpace d = false) (hspace : isSpace c = true)
    (hword : signedWord <+: rest) (hnone : findInsn (name ++ ' ' :: signedWord) = []) :
    findInsn (name ++ c :: rest) = [] := by
  rw [List.eq_nil_iff_forall_not_mem]
  intro e he
  obtain ⟨hmem, hmnemonic⟩ := mem_findInsn.1 he
  have hdrop := dropWhile_mnemonic e hmem
  rw [hmnemonic, List.dropWhile_append_of_pos (fun d hd => by simp [hname d hd]),
    List.dropWhile_cons_of_neg (by simp [hspace])] at hdrop
  rcases hdrop with hdrop | hdrop
  · cases hdrop
  · obtain ⟨rfl, rfl⟩ := List.cons.inj hdrop
    exact List.ne_nil_of_mem he hnone

theorem signedWord_ne_nul : ∀ d ∈ signedWord, decide (d ≠ nul) = true :=
  List.all_eq_true.1 (by decide)

/-- What the scanner and the grammar make of the beginning of a line. They differ if `signed` is
the last word, or if it does not belong to the mnemonic. -/
theorem findEntries_cases (str : Text) :
    findEntries str = (findInsn (splitMnemonic str).1, (splitMnemonic str).2) ∨
      (findEntries str).1 = [] ∨
      ((findEntries str).1 = findInsn (splitMnemonic str).1 ∧
        signedWord <:+ (splitMnemonic str).1 ∧ peek (splitMnemonic str).2 = nul) := by
  let isName (c : Char) : Bool := !isSpace c && c ≠ nul
  let name := str.takeWhile isName
  let behind := str.drop name.length
  have hstr : name ++ behind = str := List.prefix_iff_eq_append.1 (List.takeWhile_prefix isName)
  unfold findEntries splitMnemonic
  by_cases hspace : isSpace (peek behind) = true
  · have hsome : behind = peek behind :: behind.tail := by
      cases hbehind : behind with
      | nil =>
        rw [hbehind] at hspace
        exact absurd hspace (by decide)
      | cons c t => rfl
    by_cases hsigned : signedWord <+: behind.tail ∧
        (peek (behind.tail.drop 6) = nul ∨ isSpace (peek (behind.tail.drop 6)))
    · by_cases hfound : findInsn (name ++ ' ' :: signedWord) = []
      · refine .inr (.inl ?_)
        dsimp only
        rw [if_pos hspace, if_pos hsigned, if_neg (not_not.2 hfound)]
        -- the line up to its end
        have hline : str.takeWhile (· ≠ nul) =
            name ++ peek behind :: behind.tail.takeWhile (· ≠ nul) := by
          have hnul : peek behind ≠ nul := by
            intro heq
            rw [heq] at hspace
            exact absurd hspace (by decide)
          have hname : ∀ d ∈ name, decide (d ≠ nul) = true := by
            intro d hd
            have hd' := List.mem_takeWhile_imp hd
            simp only [isName, Bool.and_eq_true] at hd'
            exact hd'.2
          rw [← hstr, List.takeWhile_append_of_pos hname]
          congr 1
          rw [hsome, List.takeWhile_cons_of_pos (by simpa [peek] using hnul)]
          rfl
        rw [hline]
        refine findInsn_line (fun d hd => ?_) hspace ?_ hfound
        · have hd' := List.mem_takeWhile_imp hd
          simp only [isName, Bool.and_eq_true, Bool.not_eq_true'] at hd'
          exact hd'.1
        · obtain ⟨t, ht⟩ := hsigned.1
          rw [← ht, List.takeWhile_append_of_pos signedWord_ne_nul]
          exact List.prefix_append _ _
      · dsimp only
        rw [if_pos hspace, if_pos hsigned, if_pos hfound, if_pos hspace,
          if_pos ⟨hsigned.1, hsigned.2, hfound⟩]
        by_cases hend : peek (behind.tail.drop 6) = nul
        · refine .inr (.inr ⟨rfl, ⟨name ++ [' '], by simp [name, isName]⟩, ?_⟩)
          rw [if_pos hend]
          exact hend
        · refine .inl ?_
          rw [if_neg hend]
          refine Prod.ext rfl ?_
          exact List.tail_drop.symm
    · refine .inl ?_
      have hsigned' : ¬ (signedWord <+: behind.tail ∧
          (peek (behind.tail.drop 6) = nul ∨ isSpace (peek (behind.tail.drop 6))) ∧
            findInsn (name ++ ' ' :: signedWord) ≠ []) :=
        fun h => hsigned ⟨h.1, h.2.1⟩
      dsimp only
      rw [if_pos hspace, if_neg hsigned, if_pos hspace, if_neg hsigned']
  · refine .inl ?_
    dsimp only
    rw [if_neg hspace, if_neg hspace]

/-! ## The rounds -/

theorem opcodes_single : ∀ e ∈ xr17032Opcodes, Single e.operands := opcodes_table.2.1

theorem opcodes_operatorsLast : ∀ e ∈ xr17032Opcodes, operatorsLast e.operands = true :=
  opcodes_table.2.2.1

theorem opcodes_order : xr17032Opcodes.Pairwise fun e e' =>
    e.mnemonic = e'.mnemonic → goesBefore e.operands e'.operands = true := opcodes_table.2.2.2.1

theorem opcodes_signed : ∀ e ∈ xr17032Opcodes, signedWord <:+ e.mnemonic →
    e.operands.head? = some .regA := opcodes_table.2.2.2.2

theorem findInsn_order (m : List Char) :
    (findInsn m).Pairwise fun e e' => goesBefore e.operands e'.operands = true := by
  rw [findInsn_eq]
  refine (opcodes_order.filter _).imp_of_mem fun {e e'} he he' h => ?_
  have hm := List.of_mem_filter he
  have hm' := List.of_mem_filter he'
  exact h ((of_decide_eq_true hm).trans (of_decide_eq_true hm').symm)

/-- Some entries that the table has for one mnemonic. -/
structure OfTable (entries : List Opcode) : Prop where
  mem : ∀ e ∈ entries, e ∈ xr17032Opcodes
  order : entries.Pairwise fun e e' => goesBefore e.operands e'.operands = true

theorem OfTable.tail {e : Opcode} {entries : List Opcode} (h : OfTable (e :: entries)) :
    OfTable entries :=
  ⟨fun e' he' => h.mem e' (List.mem_cons_of_mem _ he'), h.order.of_cons⟩

theorem ofTable_findEntries (str : Text) : OfTable (findEntries str).1 := by
  rcases findEntries_cases str with heq | hnil | ⟨heq, -⟩
  · rw [heq]
    exact ⟨fun e he => (mem_findInsn.1 he).1, findInsn_order _⟩
  · rw [hnil]
    exact ⟨(by intro e he; cases he), List.Pairwise.nil⟩
  · rw [heq]
    exact ⟨fun e he => (mem_findInsn.1 he).1, findInsn_order _⟩

/-- What the rounds come to. -/
structure Tried (e : Opcode) (ws : List (Written S)) (s : Scan S) (x : Scan S × Option Opcode) :
    Prop where
  entry_eq : x.2 = some e
  opcode_eq : x.1.insnOpcode = (encode e ws).insnOpcode
  fix_eq : x.1.fix = (encode e ws).fix
  errors_eq : x.1.errors = s.errors

/-- The first entry that fits is taken, and those before it have reported nothing. -/
theorem tryEntries_firstFit (hstops : gas.StopsAtShift) {start : Text} {before after : List Opcode}
    {e : Opcode} {ws : List (Written S)} (htable : OfTable (before ++ e :: after))
    (hknown : ∀ e' ∈ before ++ e :: after, ¬ ComesToUnknown gas e'.operands start)
    (hfits : FitsOperands gas Rules.lax e.operands start ws)
    (hfirst : ∀ e' ∈ before, ∀ ws', ¬ FitsOperands gas Rules.lax e'.operands start ws')
    (s : Scan S) : Tried e ws s (tryEntries gas start (before ++ e :: after) s) := by
  induction before generalizing s with
  | nil =>
    obtain ⟨hgoes, hopcode, hfix, herrors⟩ :=
      hfits.tries (opcodes_single e (htable.mem e List.mem_cons_self)) s
    rw [List.nil_append, tryEntries]
    dsimp only
    rw [if_pos hgoes]
    exact ⟨rfl, hopcode, hfix, herrors⟩
  | cons e' before ih =>
    have hquiet : (tryEntry gas start e' s).1.errors = s.errors := by
      have hbefore := (List.pairwise_cons.1 htable.order).1 e
        (List.mem_append_right _ List.mem_cons_self)
      exact quiet_of_goesBefore hstops hbefore (s := startEntry start e' s) hfits
    have hfails : ¬ (tryEntry gas start e' s).2 = true := by
      intro hgoes
      obtain ⟨ws', hfits'⟩ := exists_fitsOperands
        (hknown e' List.mem_cons_self) hgoes hquiet
      exact hfirst e' List.mem_cons_self ws' hfits'
    have hrest := ih htable.tail (fun e'' he'' => hknown e'' (List.mem_cons_of_mem _ he''))
      (fun e'' he'' => hfirst e'' (List.mem_cons_of_mem _ he'')) (tryEntry gas start e' s).1
    rw [List.cons_append, tryEntries]
    dsimp only
    rw [if_neg hfails]
    exact ⟨hrest.entry_eq, hrest.opcode_eq, hrest.fix_eq, hrest.errors_eq.trans hquiet⟩

variable (gas) in
theorem errors_le_tryEntries (start : Text) (entries : List Opcode) (s : Scan S) :
    s.errors ≤ (tryEntries gas start entries s).1.errors := by
  induction entries generalizing s with
  | nil => exact le_rfl
  | cons e entries ih =>
    have hstep := errors_le_tryEntry gas start e s
    rw [tryEntries]
    dsimp only
    split
    · exact hstep
    · exact hstep.trans (ih _)

/-- If no entry fits then none goes through without an error. -/
theorem tryEntries_noFit {start : Text} {entries : List Opcode}
    (hknown : ∀ e ∈ entries, ¬ ComesToUnknown gas e.operands start)
    (hnone : ∀ e ∈ entries, ∀ ws, ¬ FitsOperands gas Rules.lax e.operands start ws) (s : Scan S) :
    (tryEntries gas start entries s).2 = none ∨
      s.errors < (tryEntries gas start entries s).1.errors := by
  induction entries generalizing s with
  | nil => exact .inl rfl
  | cons e entries ih =>
    have hstep := errors_le_tryEntry gas start e s
    rw [tryEntries]
    dsimp only
    split
    next hgoes =>
      refine .inr (lt_of_le_of_ne hstep fun heq => ?_)
      obtain ⟨ws, hfits⟩ := exists_fitsOperands (hknown e List.mem_cons_self) hgoes heq.symm
      exact hnone e List.mem_cons_self ws hfits
    next =>
      have hrest := ih (fun e' he' => hknown e' (List.mem_cons_of_mem _ he'))
        (fun e' he' => hnone e' (List.mem_cons_of_mem _ he')) (tryEntry gas start e s).1
      exact hrest.imp_right fun hlt => lt_of_le_of_lt hstep hlt

theorem exists_firstFit {rules : Rules S} {entries : List Opcode} {start : Text}
    (h : ∃ e ∈ entries, ∃ ws, FitsOperands gas rules e.operands start ws) :
    ∃ e ws, FirstFit gas rules entries e start ws := by
  induction entries with
  | nil =>
    obtain ⟨e, he, -⟩ := h
    cases he
  | cons e entries ih =>
    by_cases hfits : ∃ ws, FitsOperands gas rules e.operands start ws
    · obtain ⟨ws, hfits⟩ := hfits
      exact ⟨e, ws, hfits, [], entries, rfl, fun e' he' => by cases he'⟩
    · obtain ⟨e', he', ws', hfits'⟩ := h
      have hmem : e' ∈ entries := by
        rcases List.mem_cons.1 he' with rfl | hmem
        · exact absurd ⟨ws', hfits'⟩ hfits
        · exact hmem
      obtain ⟨e₂, ws₂, hfits₂, before, after, rfl, hfirst⟩ := ih ⟨e', hmem, ws', hfits'⟩
      refine ⟨e₂, ws₂, hfits₂, e :: before, after, rfl, fun e₃ he₃ => ?_⟩
      rcases List.mem_cons.1 he₃ with rfl | hmem₃
      · exact fun ws₃ hfits₃ => hfits ⟨ws₃, hfits₃⟩
      · exact hfirst e₃ hmem₃

/-! ## Fixups -/

variable (gas) in
/-- A place to read at. -/
def blankScan (t : Text) : Scan S :=
  { parseEnd := [], symbols := [], deferred := [], orphans := [], errors := 0, asarg := t,
    insnOpcode := 0, imm := (gas.expression true []).expr, reloc := none }

/-- A reading does not depend on where it takes place. -/
theorem Fits.unique {op : Operand} {t rest rest' : Text} {w w' : Written S}
    (h : Fits gas Rules.lax op t w rest) (h' : Fits gas Rules.lax op t w' rest') :
    w.fix = w'.fix ∧ rest = rest' := by
  obtain ⟨-, hread⟩ := h.reads (s := blankScan gas t) true
  obtain ⟨-, hread'⟩ := h'.reads (s := blankScan gas t) true
  exact ⟨(hread.fix_eq rfl).symm.trans (hread'.fix_eq rfl),
    hread.after_eq.symm.trans hread'.after_eq⟩

/-- What is written in full makes a fixup that gas takes. -/
theorem Fits.fixErrors_eq {op : Operand} {t rest : Text} {w : Written S}
    (h : Fits gas (Rules.full gas) op t w rest) {fix : RelocType × Expression S}
    (hfix : w.fix = some fix) : gas.fixErrors fix.2 = 0 := by
  have himm {ops : PercentOps} {reloc : RelocType} {t rest : Text}
      {fix : RelocType × Expression S} (himm : Immediate gas (Rules.full gas) ops reloc t fix rest) :
      gas.fixErrors fix.2 = 0 := by
    cases himm with
    | plain _ _ hvalid => exact hvalid.2.2
    | operator _ _ _ _ hvalid _ => exact hvalid.2.2
  cases op with
  | jump | branch =>
    cases h with
    | target _ hvalid =>
      obtain rfl := Option.some.inj hfix
      exact hvalid.2.2
  | imm | imm1 | imm2 | imm16 | immSign =>
    cases h with
    | imm h =>
      obtain rfl := Option.some.inj hfix
      exact himm h
  | immSmall | regA | regB | regC | creg | regCShift =>
    cases h
    cases hfix
  | memImm size =>
    cases h with
    | offset _ _ _ h _ =>
      obtain rfl := Option.some.inj hfix
      exact himm h
    | base _ _ _ => cases hfix
    | absolute _ _ h _ =>
      obtain rfl := Option.some.inj hfix
      exact himm h
  | memReg size =>
    cases h
    cases hfix

theorem fixupErrors_eq_zero {fix : Option (RelocType × Expression S)}
    (h : ∀ f, fix = some f → gas.fixErrors f.2 = 0) : fixupErrors gas fix = 0 := by
  cases fix with
  | none => rfl
  | some f => exact h f rfl

theorem FitsTail.fixErrors_eq {ops : List Operand} {t : Text} {ws : List (Written S)}
    (h : FitsTail gas (Rules.full gas) ops t ws) {w : Written S} (hw : w ∈ ws)
    {fix : RelocType × Expression S} (hfix : w.fix = some fix) : gas.fixErrors fix.2 = 0 := by
  induction h with
  | nil => cases hw
  | cons _ hfits _ ih =>
    rcases List.mem_cons.1 hw with rfl | hmem
    · exact hfits.fixErrors_eq hfix
    · exact ih hmem

theorem FitsOperands.fixupErrors_eq {e : Opcode} {t : Text} {ws : List (Written S)}
    (h : FitsOperands gas (Rules.full gas) e.operands t ws) :
    fixupErrors gas (encode e ws).fix = 0 := by
  refine fixupErrors_eq_zero fun fix hfix => ?_
  obtain ⟨w, hw, hwfix⟩ := List.exists_of_findSome?_eq_some hfix
  generalize e.operands = ops at h
  cases h with
  | nil => cases hw
  | cons hfits htail =>
    rcases List.mem_cons.1 hw with rfl | hmem
    · exact hfits.fixErrors_eq hwfix
    · exact htail.fixErrors_eq hmem hwfix

theorem Fits.failsFor_eq {op op' : Operand} {t rest rest' : Text} {w w' : Written S}
    (h : Fits gas Rules.lax op t w rest) (h' : Fits gas Rules.lax op' t w' rest') :
    failsFor op op' = false := by
  rw [Bool.eq_false_iff]
  intro hfails
  have hgoes := (h.reads (s := blankScan gas t) true).1
  rw [fails_of_failsFor hfails (s := blankScan gas t) h'] at hgoes
  cases hgoes

/-- If two operands fit at one place then they have the same offset, or the first has none. -/
theorem Fits.fixErrors_of_quietFor {op op' : Operand} {t rest rest' : Text} {w w' : Written S}
    (hquiet : quietFor op op' = true) (h : Fits gas Rules.lax op t w rest)
    (h' : Fits gas (Rules.full gas) op' t w' rest') {fix : RelocType × Expression S}
    (hfix : w.fix = some fix) : gas.fixErrors fix.2 = 0 := by
  have hnot := h.failsFor_eq h'.lax
  cases op with
  | regA | regB =>
    cases h
    cases hfix
  | memReg size =>
    cases h
    cases hfix
  | memImm size =>
    cases op' with
    | memImm size' =>
      have hsize : size = size' := by simpa [failsFor] using hnot
      subst hsize
      exact h'.fixErrors_eq (((h.unique h'.lax).1).symm.trans hfix)
    | regA => cases hnot
    | _ => cases hquiet
  | _ => cases hquiet

theorem fixupErrors_of_goesBefore {e e' : Opcode} {t : Text} {ws ws' : List (Written S)}
    (h : goesBefore e.operands e'.operands = true)
    (hfits : FitsOperands gas Rules.lax e.operands t ws)
    (hfits' : FitsOperands gas (Rules.full gas) e'.operands t ws') :
    fixupErrors gas (encode e ws).fix = 0 := by
  refine fixupErrors_eq_zero fun fix hfix => ?_
  obtain ⟨w, hw, hwfix⟩ := List.exists_of_findSome?_eq_some hfix
  generalize e.operands = ops at h hfits
  generalize e'.operands = ops' at h hfits'
  obtain ⟨op, last, op₂, last₂, rfl, rfl⟩ : ∃ op last op₂ last₂,
      ops = [op, last] ∧ ops' = [op₂, last₂] := by
    unfold goesBefore at h
    split at h
    · exact ⟨_, _, _, _, rfl, rfl⟩
    · cases h
  simp only [goesBefore, Bool.and_eq_true, Bool.or_eq_true, decide_eq_true_eq] at h
  obtain ⟨hquiet, hlast⟩ := h
  cases hfits with
  | @cons _ _ _ rest w₁ _ hfirst htail =>
    cases hfits' with
    | @cons _ _ _ rest' _ _ hfirst' htail' =>
      cases htail with
      | @cons _ _ _ u _ w₂ _ hcomma hsecond hend =>
        cases hend
        cases htail' with
        | @cons _ _ _ u' _ _ _ hcomma' hsecond' hend' =>
          rcases List.mem_cons.1 hw with rfl | hw
          · exact hfirst.fixErrors_of_quietFor hquiet hfirst' hwfix
          obtain rfl := List.mem_singleton.1 hw
          rcases hlast with ((hfails | rfl) | rfl) | ⟨⟨rfl, rfl⟩, hquiet'⟩
          · rw [hfirst.failsFor_eq hfirst'.lax] at hfails
            cases hfails
          · cases hsecond
            cases hwfix
          · cases hsecond
            cases hwfix
          · obtain rfl := (hfirst.unique hfirst'.lax).2
            obtain rfl := (List.cons.inj (hcomma.symm.trans hcomma')).2
            exact hsecond.fixErrors_of_quietFor hquiet' hsecond' hwfix

/-- The instruction that an entry leaves is the same whichever reading it is taken from. -/
theorem FitsOperands.encode_eq {e : Opcode} {t : Text} {ws ws' : List (Written S)}
    (he : e ∈ xr17032Opcodes) (h : FitsOperands gas Rules.lax e.operands t ws)
    (h' : FitsOperands gas Rules.lax e.operands t ws') : encode e ws = encode e ws' := by
  obtain ⟨-, hopcode, hfix, -⟩ := h.tries (opcodes_single e he) (blankScan gas t)
  obtain ⟨-, hopcode', hfix', -⟩ := h'.tries (opcodes_single e he) (blankScan gas t)
  have hinsn := hopcode.symm.trans hopcode'
  have hsame := hfix.symm.trans hfix'
  simp only [encode] at hinsn hsame ⊢
  rw [hinsn, hsame]

/-! ## Lines -/

theorem mdAssemble_of_tried {str : Text} {s : Scan S} {e : Opcode} {ws : List (Written S)}
    (h : Tried e ws s (tryEntries gas (findEntries str).2 (findEntries str).1 s)) :
    (mdAssemble gas str s).2 = some (encode e ws) ∧
      (mdAssemble gas str s).1.errors = s.errors + fixupErrors gas (encode e ws).fix := by
  simp only [mdAssemble, xr17032Ip, h.entry_eq]
  refine ⟨?_, ?_⟩
  · rw [h.opcode_eq, h.fix_eq]
    rfl
  · rw [h.errors_eq, h.fix_eq]

theorem mdAssemble_of_none {str : Text} {s : Scan S}
    (h : (tryEntries gas (findEntries str).2 (findEntries str).1 s).2 = none) :
    (mdAssemble gas str s).2 = none ∧ s.errors < (mdAssemble gas str s).1.errors := by
  have hle := errors_le_tryEntries gas (findEntries str).2 (findEntries str).1 s
  simp only [mdAssemble, xr17032Ip, h]
  exact ⟨trivial, Nat.lt_succ_of_le hle⟩

variable (gas) in
theorem errors_le_mdAssemble (str : Text) (s : Scan S) :
    (tryEntries gas (findEntries str).2 (findEntries str).1 s).1.errors ≤
      (mdAssemble gas str s).1.errors := by
  cases htried : (tryEntries gas (findEntries str).2 (findEntries str).1 s).2 <;>
    simp [mdAssemble, xr17032Ip, htried]

/-- Every line that is not accepted is reported. -/
theorem reported_of_not_accepts {str : Text} {s : Scan S} (h : ¬ Accepts gas str s) :
    s.errors < (mdAssemble gas str s).1.errors := by
  cases htried : (tryEntries gas (findEntries str).2 (findEntries str).1 s).2 with
  | none => exact (mdAssemble_of_none htried).2
  | some e =>
    have hle := (errors_le_tryEntries gas (findEntries str).2 (findEntries str).1 s).trans
      (errors_le_mdAssemble gas str s)
    refine lt_of_le_of_ne hle fun heq => h ⟨?_, heq.symm⟩
    simp [mdAssemble, xr17032Ip, htried]

/-- What is assembled of a line with a first fit. -/
theorem mdAssemble_of_firstFit (hstops : gas.StopsAtShift) {str : Text}
    (hknown : ∀ e ∈ (findEntries str).1, ¬ ComesToUnknown gas e.operands (findEntries str).2)
    {e : Opcode} {ws : List (Written S)}
    (h : FirstFit gas Rules.lax (findEntries str).1 e (findEntries str).2 ws) (s : Scan S) :
    (mdAssemble gas str s).2 = some (encode e ws) ∧
      (mdAssemble gas str s).1.errors = s.errors + fixupErrors gas (encode e ws).fix := by
  obtain ⟨hfits, before, after, heq, hfirst⟩ := h
  apply mdAssemble_of_tried
  have htable := ofTable_findEntries str
  rw [heq] at htable hknown ⊢
  exact tryEntries_firstFit hstops htable hknown hfits hfirst s

/-- A mnemonic with the word `signed` has operands, and a line that ends with it has none. -/
theorem not_fitsLine_of_nul {str : Text} (hsigned : signedWord <:+ (splitMnemonic str).1)
    (hnul : peek (splitMnemonic str).2 = nul) (e : Opcode) (ws : List (Written S)) :
    ¬ FitsLine gas str e ws := by
  intro ⟨hmem, hmnemonic, hfits⟩
  have hhead := opcodes_signed e hmem (by rw [hmnemonic]; exact hsigned)
  generalize e.operands = ops at hhead hfits
  cases hfits with
  | nil => cases hhead
  | cons hfirst _ =>
    obtain rfl := Option.some.inj hhead
    cases hfirst with
    | reg hreg =>
      have hstart : skipBlanks (splitMnemonic str).2 = (splitMnemonic str).2 := by
        cases htext : (splitMnemonic str).2 with
        | nil => rfl
        | cons c t =>
          rw [htext] at hnul
          have hc : c = nul := hnul
          rw [skipBlanks, hc, List.dropWhile_cons_of_neg (by decide)]
      rw [hstart] at hreg
      exact (peek_of_reg hreg).2.2.2 hnul

/-- The first entry of a line's mnemonic that fits by the lax rules, if one fits in full. -/
theorem exists_firstFit_of_fitsLine {str : Text} {e : Opcode} {ws : List (Written S)}
    (hentries : findEntries str = (findInsn (splitMnemonic str).1, (splitMnemonic str).2))
    (h : FitsLine gas str e ws) :
    ∃ e' ws', FirstFit gas Rules.lax (findEntries str).1 e' (findEntries str).2 ws' ∧
      fixupErrors gas (encode e' ws').fix = 0 := by
  have hmem : e ∈ (findEntries str).1 := by
    rw [hentries]
    exact mem_findInsn.2 ⟨h.mem, h.mnemonic_eq⟩
  have hfull : FitsOperands gas (Rules.full gas) e.operands (findEntries str).2 ws := by
    rw [hentries]
    exact h.operands
  obtain ⟨e', ws', hfirst⟩ := exists_firstFit ⟨e, hmem, ws, hfull.lax⟩
  refine ⟨e', ws', hfirst, ?_⟩
  obtain ⟨hfits, before, after, heq, hnone⟩ := hfirst
  have horder := (ofTable_findEntries str).order
  rw [heq] at hmem horder
  rcases List.mem_append.1 hmem with hbefore | hmem
  · exact absurd hfull.lax (hnone e hbefore ws)
  rcases List.mem_cons.1 hmem with rfl | hafter
  · rw [hfits.encode_eq h.mem hfull.lax]
    exact hfull.fixupErrors_eq
  · have hgoes := (List.pairwise_cons.1 (List.pairwise_append.1 horder).2.1).1 e hafter
    exact fixupErrors_of_goesBefore hgoes hfits hfull

theorem WellRead.accepts_of_fitsLine (hstops : gas.StopsAtShift) {str : Text}
    (h : WellRead gas str) {e : Opcode} {ws : List (Written S)} (hline : FitsLine gas str e ws)
    (s : Scan S) : Accepts gas str s := by
  rcases findEntries_cases str with hentries | hnil | ⟨-, hsigned, hnul⟩
  · obtain ⟨e', ws', hfirst, hzero⟩ := exists_firstFit_of_fitsLine hentries hline
    obtain ⟨hinsn, herrors⟩ := mdAssemble_of_firstFit hstops h.operators hfirst s
    exact ⟨by rw [hinsn]; rfl, by rw [herrors, hzero, add_zero]⟩
  · exact absurd hline (h.signed hnil e ws)
  · exact absurd hline (not_fitsLine_of_nul hsigned hnul e ws)

/-- A line that is accepted has a first fit, in full. -/
theorem WellRead.firstFit_of_accepts (hstops : gas.StopsAtShift) {str : Text}
    (h : WellRead gas str) {s : Scan S} (haccepts : Accepts gas str s) :
    ∃ e ws, FirstFit gas (Rules.full gas) (findInsn (splitMnemonic str).1) e
      (splitMnemonic str).2 ws ∧ (mdAssemble gas str s).2 = some (encode e ws) := by
  have hsome : ∃ e ∈ (findEntries str).1, ∃ ws,
      FitsOperands gas Rules.lax e.operands (findEntries str).2 ws := by
    by_contra hnone
    have hnone' : ∀ e ∈ (findEntries str).1, ∀ ws,
        ¬ FitsOperands gas Rules.lax e.operands (findEntries str).2 ws :=
      fun e he ws hfits => hnone ⟨e, he, ws, hfits⟩
    obtain ⟨hisSome, herrors⟩ := haccepts
    rcases tryEntries_noFit h.operators hnone' s with htried | hlt
    · rw [(mdAssemble_of_none htried).1] at hisSome
      cases hisSome
    · exact absurd herrors (lt_of_lt_of_le hlt (errors_le_mdAssemble gas str s)).ne'
  obtain ⟨e, ws, hfirst⟩ := exists_firstFit hsome
  obtain ⟨hinsn, herrors⟩ := mdAssemble_of_firstFit hstops h.operators hfirst s
  have hzero : fixupErrors gas (encode e ws).fix = 0 := by
    have heq := haccepts.2
    omega
  obtain ⟨ws', hline⟩ := h.closed e ws hfirst hzero
  rcases findEntries_cases str with hentries | hnil | ⟨-, hsigned, hnul⟩
  · obtain ⟨hfits, before, after, heq, hnone⟩ := hfirst
    rw [hentries] at heq hfits hnone
    refine ⟨e, ws', ⟨hline.operands, before, after, heq, ?_⟩, ?_⟩
    · exact fun e' he' ws₂ hfull => hnone e' he' ws₂ hfull.lax
    · rw [hinsn, hfits.encode_eq hline.mem hline.operands.lax]
  · exact absurd hline (h.signed hnil e ws')
  · exact absurd hline (not_fitsLine_of_nul hsigned hnul e ws')

theorem WellRead.meets (hstops : gas.StopsAtShift) {str : Text} (h : WellRead gas str) :
    Meets gas str where
  independent e he := by
    have hlast := opcodes_operatorsLast e ((ofTable_findEntries str).mem e he)
    exact (outcome_eq_iff gas hlast).2 (h.operators e he)
  accepts_iff s := by
    constructor
    · intro haccepts
      obtain ⟨e, ws, ⟨hfits, before, after, heq, -⟩, -⟩ := h.firstFit_of_accepts hstops haccepts
      have hmem : e ∈ findInsn (splitMnemonic str).1 := by
        rw [heq]
        exact List.mem_append_right _ List.mem_cons_self
      obtain ⟨hmem, hmnemonic⟩ := mem_findInsn.1 hmem
      exact ⟨e, ws, hmem, hmnemonic, hfits⟩
    · intro ⟨e, ws, hline⟩
      exact h.accepts_of_fitsLine hstops hline s
  encoded s insn haccepts hinsn := by
    obtain ⟨e, ws, hfirst, heq⟩ := h.firstFit_of_accepts hstops haccepts
    obtain rfl := Option.some.inj (hinsn.symm.trans heq)
    exact ⟨ws, hfirst, rfl⟩
  reported s hnot := reported_of_not_accepts hnot

theorem Meets.wellRead (hstops : gas.StopsAtShift) {str : Text} (h : Meets gas str) :
    WellRead gas str := by
  have hknown : ∀ e ∈ (findEntries str).1,
      ¬ ComesToUnknown gas e.operands (findEntries str).2 := by
    intro e he
    have hlast := opcodes_operatorsLast e ((ofTable_findEntries str).mem e he)
    exact (outcome_eq_iff gas hlast).1 (h.independent e he)
  refine ⟨hknown, fun e ws hfirst hzero => ?_, fun hnil e ws hline => ?_⟩
  · obtain ⟨hinsn, herrors⟩ := mdAssemble_of_firstFit hstops hknown hfirst (blankScan gas [])
    have haccepts : Accepts gas str (blankScan gas []) :=
      ⟨by rw [hinsn]; rfl, by rw [herrors, hzero, add_zero]⟩
    obtain ⟨ws', ⟨hfits, before, after, heq, -⟩, -⟩ := h.encoded _ _ haccepts hinsn
    have hmem : e ∈ findInsn (splitMnemonic str).1 := by
      rw [heq]
      exact List.mem_append_right _ List.mem_cons_self
    obtain ⟨hmem, hmnemonic⟩ := mem_findInsn.1 hmem
    exact ⟨ws', hmem, hmnemonic, hfits⟩
  · have haccepts := (h.accepts_iff (blankScan gas [])).2 ⟨e, ws, hline⟩
    have hnone : (mdAssemble gas str (blankScan gas [])).2 = none :=
      (mdAssemble_of_none (by rw [hnil]; rfl)).1
    have hisSome := haccepts.1
    rw [hnone] at hisSome
    cases hisSome

/-- A line is assembled as the grammar says exactly when its first fit is one in full, all of its
operators are known, and `signed` is not the target of a jump. -/
theorem meets_iff (hstops : gas.StopsAtShift) (str : Text) :
    Meets gas str ↔ WellRead gas str :=
  ⟨fun h => h.wellRead hstops, fun h => h.meets hstops⟩

end

/-! ## A small gas -/

/-- Expressions are single words, and numbers are decimal. -/
def wordGas : Gas Unit where
  nameBeginner := Char.isAlpha
  partOfName := Char.isAlphanum
  expression _ s :=
    let word := (skipBlanks s).takeWhile Char.isAlphanum
    let rest := skipBlanks ((skipBlanks s).dropWhile Char.isAlphanum)
    if word = [] then ⟨⟨.absent, 0, ()⟩, rest, 0, []⟩
    else if word.all Char.isDigit then
      ⟨⟨.constant, BitVec.ofNat 64 (word.foldl (fun n c => 10 * n + (c.toNat - 48)) 0), ()⟩,
        rest, 0, []⟩
    else ⟨⟨.symbol, 0, ()⟩, rest, 0, [word]⟩
  fixErrors _ := 0

theorem wordGas_stopsAtShift : wordGas.StopsAtShift := by
  intro probing s found shift hreg _
  obtain ⟨hblank, -, -, hnul⟩ := peek_of_reg hreg
  have hrest : (wordGas.expression probing s).rest =
      skipBlanks ((skipBlanks s).dropWhile Char.isAlphanum) := by
    simp only [wordGas]
    split
    · rfl
    · split <;> rfl
  have halpha : ∀ entry ∈ regNames, (peek entry.1).isAlpha = true := by decide
  obtain ⟨name, hmem, hs⟩ := exists_of_regLookup hreg
  cases s with
  | nil => exact absurd rfl hnul
  | cons c t =>
    have hname : name ≠ [] := by
      intro hnil
      have hall := halpha _ hmem
      rw [hnil] at hall
      exact absurd hall (show ¬ (peek ([] : Text)).isAlpha = true by decide)
    have hc : c.isAlpha = true := by
      have hpeek : peek (c :: t) = peek name := by rw [hs, peek_append hname]
      have hall := halpha _ hmem
      rw [← hpeek] at hall
      exact hall
    have hskip : skipBlanks (c :: t) = c :: t := by
      rw [skipBlanks, List.dropWhile_cons_of_neg (by simpa [peek] using hblank)]
    have hfound : found.2 = t.dropWhile Char.isAlphanum := by
      obtain ⟨m, -, heq⟩ := Option.map_eq_some_iff.1 hreg
      rw [← heq]
      simp [splitName, wordGas, hc]
    rw [hrest, hskip, List.dropWhile_cons_of_pos (by simp [Char.isAlphanum, hc]), hfound]
    exact List.dropWhile_idempotent ..

theorem ComesToUnknown.exists_takes {S : Type} {gas : Gas S} {ops : List Operand} {s : Text}
    (h : ComesToUnknown gas ops s) : ∃ op ∈ ops, Operand.takesOperator op = true := by
  cases h with
  | here hunknown => exact ⟨_, List.mem_cons_self, hunknown.takes⟩
  | later _ htail =>
    obtain ⟨op, hop, htakes⟩ := htail.exists_takes
    exact ⟨op, List.mem_cons_of_mem _ hop, htakes⟩

/-- A sum is read as the grammar says. -/
theorem meets_iff_add : Meets wordGas "add t0,t1,t2".toList := by
  let add : Opcode := .insn "add" 0x70000039 [.regA, .regB, .regCShift]
  have hentries : (findEntries "add t0,t1,t2".toList).1 = [add] := by decide
  have hline : FitsLine wordGas "add t0,t1,t2".toList add
      [.reg 1, .reg 2, .shifted 3 none] := by
    refine ⟨by decide, by decide, ?_⟩
    have h0 : regLookup wordGas regNames "t0,t1,t2".toList = some (1, ",t1,t2".toList) := by
      decide
    have h1 : regLookup wordGas regNames "t1,t2".toList = some (2, ",t2".toList) := by
      decide
    have h2 : regLookup wordGas regNames "t2".toList = some (3, []) := by decide
    exact .cons (.reg h0) (.cons rfl (.reg h1) (.cons rfl (.shifted (.plain h2 rfl)) (.nil rfl)))
  refine (meets_iff wordGas_stopsAtShift _).2 ⟨fun e he hunknown => ?_, fun e ws hfirst _ => ?_,
    fun hnil => ?_⟩
  · rw [hentries, List.mem_singleton] at he
    subst he
    obtain ⟨op, hop, htakes⟩ := hunknown.exists_takes
    have hall : ∀ op ∈ add.operands, Operand.takesOperator op = false := by decide
    rw [hall op hop] at htakes
    cases htakes
  · obtain ⟨-, before, after, heq, -⟩ := hfirst
    have he : e ∈ (findEntries "add t0,t1,t2".toList).1 := by
      rw [heq]
      exact List.mem_append_right _ List.mem_cons_self
    rw [hentries, List.mem_singleton] at he
    subst he
    exact ⟨_, hline⟩
  · rw [hentries] at hnil
    cases hnil

/-- The bracket is open, and the line is accepted. -/
theorem openBracket_accepted : ¬ Meets wordGas "mov t0,long[t1+t2".toList := by
  intro h
  let s : Scan Unit := blankScan wordGas []
  let load : Opcode := .insn "mov" 0xd0000039 [.regA, .memReg .long]
  have hgoes : Accepts wordGas "mov t0,long[t1+t2".toList s := by
    refine ⟨?_, ?_⟩ <;> decide
  have hentry : (mdAssemble wordGas "mov t0,long[t1+t2".toList s).2.map (·.entry) = some load := by
    decide
  obtain ⟨insn, hinsn, hload⟩ := Option.map_eq_some_iff.1 hentry
  obtain ⟨ws, hfirst, -⟩ := h.encoded s insn hgoes hinsn
  rw [hload] at hfirst
  have hstart : (splitMnemonic "mov t0,long[t1+t2".toList).2 = "t0,long[t1+t2".toList := by
    decide
  have hfits := hfirst.fits
  rw [hstart] at hfits
  -- the text leaves no choice, up to the bracket that is not there
  have hdest : regLookup wordGas regNames (skipBlanks "t0,long[t1+t2".toList) =
      some (1, ",long[t1+t2".toList) := by decide
  have hcomma : skipBlanks ",long[t1+t2".toList = ',' :: "long[t1+t2".toList := by decide
  have hsize : regLookup wordGas memSizeNames (skipBlanks "long[t1+t2".toList) =
      some (2, "[t1+t2".toList) := by decide
  have hopen : skipBlanks "[t1+t2".toList = '[' :: "t1+t2".toList := by decide
  have hbase : regLookup wordGas regNames "t1+t2".toList = some (2, "+t2".toList) := by
    decide
  have hplus : skipBlanks "+t2".toList = '+' :: "t2".toList := by decide
  have hindex : regLookup wordGas regNames "t2".toList = some (3, []) := by decide
  cases hfits with
  | cons hreg htail =>
    cases hreg with
    | reg hreg =>
      obtain ⟨-, rfl⟩ := Prod.mk.inj (Option.some.inj (hreg.symm.trans hdest))
      cases htail with
      | cons hcomma' hmem _ =>
        obtain rfl := (List.cons.inj (hcomma'.symm.trans hcomma)).2
        cases hmem with
        | index hbracket hbase' hplus' hindex' hcloses =>
          obtain ⟨t, hsize', hopen'⟩ := hbracket
          obtain ⟨-, rfl⟩ := Prod.mk.inj (Option.some.inj (hsize'.symm.trans hsize))
          obtain rfl := (List.cons.inj (hopen'.symm.trans hopen)).2
          obtain ⟨-, rfl⟩ := Prod.mk.inj (Option.some.inj (hbase'.symm.trans hbase))
          obtain rfl := (List.cons.inj (hplus'.symm.trans hplus)).2
          cases hindex' with
          | plain hreg' _ =>
            obtain ⟨-, rfl⟩ := Prod.mk.inj (Option.some.inj (hreg'.symm.trans hindex))
            cases hcloses
          | shifted hreg' hshift _ _ _ =>
            obtain ⟨-, rfl⟩ := Prod.mk.inj (Option.some.inj (hreg'.symm.trans hindex))
            cases hshift

end XrLinux.Binutils.Operands
