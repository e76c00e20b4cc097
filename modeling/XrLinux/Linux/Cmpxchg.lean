import XrLinux.Gcc.Exchange

/-!
# Linux — `asm/cmpxchg.h` on locations smaller than a word

`__arch_xchg_masked` and `__arch_cmpxchg_masked` link and store the word around an 8- or 16-bit
location. The values are of the type that `ptr` points to; the macros convert them to
`unsigned long` and shift them, and do not mask them then. So a negative value of a signed type has
ones above the location, which `or` brings into the word and which no masked word compares equal to
(`masked_correct_iff`).
-/

namespace XrLinux.Linux.Cmpxchg

open XrLinux.Machine
open XrLinux.Gcc (Operand EarlyClobber Reads)
open Iterate

/-! ## Locations and values -/

/-- `ptr`, and `sizeof (*ptr)`, where the word around it has all of it. -/
structure SubWord where
  ptr : Word
  size : Nat
  size_eq : size = 1 ∨ size = 2
  inWord : ptr.toNat % 4 + size ≤ 4

namespace SubWord

/-- The location as bits of the word, on a little-endian machine. -/
def field (l : SubWord) : BitField 32 where
  shift := 8 * (l.ptr.toNat % 4)
  width := 8 * l.size
  fits := by
    have hword := l.inWord
    omega

/-- What the location holds when the word around it is `w`. -/
def get (l : SubWord) (w : Word) : BitVec (8 * l.size) := l.field.get w

/-- `w'` is `w` with the location set to `new` and the rest of the word unchanged. -/
def Replaces (l : SubWord) (new : BitVec (8 * l.size)) (w w' : Word) : Prop :=
  l.field.Replaces new w w'

/-! ## The locals of the macros -/

/-- `__offset`. -/
def offset (l : SubWord) : Word := l.ptr &&& 3

/-- `__shift`. -/
def shift (l : SubWord) : Word := l.offset * 8

/-- `__address`, once `__offset` has been taken off. -/
def address (l : SubWord) : Word := l.ptr - l.offset

/-- The `mask` that the cases of `sizeof (*ptr)` give. -/
def sizeMask (l : SubWord) : Word := if l.size = 1 then 0xff else 0xffff

/-- `__mask`. -/
def mask (l : SubWord) : Word := l.sizeMask <<< l.shift.toNat

end SubWord

/-- `(unsigned long) value`, for a value of a signed or an unsigned type. -/
def unsignedLong {n : Nat} (signed : Bool) (value : BitVec n) : Word :=
  if signed then value.signExtend 32 else value.setWidth 32

/-- `__new_shift` and `__old_shift`. -/
def SubWord.valueShift (l : SubWord) (signed : Bool) (value : BitVec (8 * l.size)) : Word :=
  unsignedLong signed value <<< l.shift.toNat

/-! ## The sequences -/

/-- The `asm` statement of `__arch_xchg_masked`. -/
def archXchgMasked (retShift scratch address : Reg) (notMask newShift : Operand) : List Instr :=
  [.ll retShift address,
    .alu .and scratch retShift (.plain notMask.z),
    .alu .or scratch scratch (.plain newShift.z),
    .sc scratch address scratch,
    .branch .eq scratch (.label 0)]

/-- `(typeof (ret)) ((__ret_shift & __mask) >> __shift)`. -/
def SubWord.xchgRet (l : SubWord) (retShift : Word) : BitVec (8 * l.size) :=
  ((retShift &&& l.mask) >>> l.shift.toNat).setWidth (8 * l.size)

/-- The `asm` statement of `__arch_cmpxchg_masked`. `1b` is its first line, `1f` its end. -/
def archCmpxchgMasked (retShift scratch scratch2 address : Reg)
    (mask oldShift notMask newShift : Operand) : List Instr :=
  [.ll scratch address,
    .alu .and retShift scratch (.plain mask.z),
    .alu .sub scratch2 retShift (.plain oldShift.z),
    .branch .ne scratch2 (.label 8),
    .alu .and scratch scratch (.plain notMask.z),
    .alu .or scratch scratch (.plain newShift.z),
    .sc scratch address scratch,
    .branch .eq scratch (.label 0)]

/-- `(typeof (ret)) (__ret_shift >> __shift)`. -/
def SubWord.cmpxchgRet (l : SubWord) (retShift : Word) : BitVec (8 * l.size) :=
  (retShift >>> l.shift.toNat).setWidth (8 * l.size)

/-! ## What they are for -/

/-- The sequence stores `new` into the location, and into no other byte of the word that the last
load-linked found, after any number of lost attempts, and returns what the location held there. -/
def SubWord.Exchanges (l : SubWord) (base : Word) (prog : List Instr) (regs : RegFile)
    (lost : List Word) (w : Word) (new : BitVec (8 * l.size))
    (returned : RegFile → BitVec (8 * l.size)) : Prop :=
  ∃ w', l.Replaces new w w' ∧
    Finishes l.address base prog regs (lost.map .lost ++ [.kept w]) [w']
      (fun out => returned out = l.get w)

/-- The sequence stores `new` into the location, and into no other byte, if the word of the last
attempt has `old` there, and nothing otherwise; it returns what that word has there. -/
def SubWord.ComparesAndExchanges (l : SubWord) (base : Word) (prog : List Instr) (regs : RegFile)
    (lost : List Word) (last : Attempt) (old new : BitVec (8 * l.size))
    (returned : RegFile → BitVec (8 * l.size)) : Prop :=
  (l.get last.found = old → ∃ w', l.Replaces new last.found w' ∧
    Finishes l.address base prog regs (lost.map .lost ++ [last]) [w']
      (fun out => returned out = l.get last.found)) ∧
  (l.get last.found ≠ old →
    Finishes l.address base prog regs (lost.map .lost ++ [last]) []
      (fun out => returned out = l.get last.found))

/-- A negative value of a signed type. -/
def negative {n : Nat} (signed : Bool) (value : BitVec n) : Prop :=
  signed = true ∧ value.msb = true

instance {n : Nat} (signed : Bool) (value : BitVec n) : Decidable (negative signed value) := by
  unfold negative; infer_instance

/-- The word has no zero above the location. -/
def SubWord.OnesAbove (l : SubWord) (w : Word) : Prop :=
  ∀ i < 32, l.field.shift + l.field.width ≤ i → w.getLsbD i = true

instance (l : SubWord) (w : Word) : Decidable (l.OnesAbove w) := by
  unfold SubWord.OnesAbove; infer_instance

/-- The location ends where the word does. -/
def SubWord.AtTop (l : SubWord) : Prop := l.field.shift + l.field.width = 32

instance (l : SubWord) : Decidable l.AtTop := by unfold SubWord.AtTop; infer_instance

/-! ## Shifted values -/

namespace SubWord

variable (l : SubWord)

theorem toNat_shift : l.shift.toNat = l.field.shift := by
  have hoffset : l.offset.toNat = l.ptr.toNat % 4 := by
    rw [offset, BitVec.toNat_and]
    exact Nat.and_two_pow_sub_one_eq_mod _ 2
  have hlt := Nat.mod_lt l.ptr.toNat (show 0 < 4 by decide)
  show (l.offset * 8).toNat = 8 * (l.ptr.toNat % 4)
  rw [BitVec.toNat_mul, hoffset]
  show l.ptr.toNat % 4 * 8 % 4294967296 = _
  omega

theorem mask_eq : l.mask = l.field.mask := by
  have hsize : l.sizeMask = (BitVec.allOnes l.field.width).setWidth 32 := by
    rw [sizeMask]
    show _ = (BitVec.allOnes (8 * l.size)).setWidth 32
    rcases l.size_eq with h | h
    · rw [h]
      decide
    · rw [h]
      decide
  rw [mask, l.toNat_shift, hsize]
  rfl

theorem getLsbD_unsignedLong (signed : Bool) (value : BitVec (8 * l.size)) {i : Nat} (hi : i < 32) :
    (unsignedLong signed value).getLsbD i =
      if i < 8 * l.size then value.getLsbD i else decide (negative signed value) := by
  cases signed with
  | false =>
    show (value.setWidth 32).getLsbD i = _
    rw [BitVec.getLsbD_setWidth, decide_eq_true hi, Bool.true_and]
    split
    · rfl
    · next h => simpa [negative] using BitVec.getLsbD_of_ge value i (by omega)
  | true =>
    show (value.signExtend 32).getLsbD i = _
    rw [BitVec.getLsbD_signExtend, decide_eq_true hi, Bool.true_and]
    split
    · rfl
    · simp [negative]

/-- The bits of a shifted value: nothing below the location, the value in it, and its sign
above. -/
theorem getLsbD_valueShift (signed : Bool) (value : BitVec (8 * l.size)) {i : Nat} (hi : i < 32) :
    (l.valueShift signed value).getLsbD i =
      if i < l.field.shift then false
      else if i < l.field.shift + l.field.width then value.getLsbD (i - l.field.shift)
      else decide (negative signed value) := by
  rw [valueShift, l.toNat_shift, BitVec.getLsbD_shiftLeft, decide_eq_true hi, Bool.true_and]
  by_cases hlow : i < l.field.shift
  · simp [hlow]
  · have hwidth : i - l.field.shift < 8 * l.size ↔ i < l.field.shift + l.field.width := by
      show _ ↔ i < l.field.shift + 8 * l.size
      omega
    rw [decide_eq_false hlow, l.getLsbD_unsignedLong signed value (by omega), if_neg hlow]
    simp only [hwidth, Bool.not_false, Bool.true_and]

theorem getLsbD_get (w : Word) (i : Nat) :
    (l.get w).getLsbD i = (decide (i < 8 * l.size) && w.getLsbD (l.field.shift + i)) :=
  l.field.getLsbD_get w i

theorem get_valueShift (signed : Bool) (value : BitVec (8 * l.size)) :
    l.get (l.valueShift signed value) = value := by
  apply BitVec.eq_of_getLsbD_eq
  intro i hi
  have hfits := l.field.fits
  have hwidth : l.field.width = 8 * l.size := rfl
  have hbit := l.getLsbD_valueShift signed value (i := l.field.shift + i) (by omega)
  rw [if_neg (by omega), if_pos (by omega), Nat.add_sub_cancel_left] at hbit
  rw [l.getLsbD_get, hbit, decide_eq_true hi, Bool.true_and]

theorem get_merge (w x : Word) : l.get ((w &&& ~~~l.mask) ||| x) = l.get x := by
  rw [l.mask_eq]
  show l.field.get _ = l.field.get x
  simp

/-- Merging a shifted value into a word changes nothing but the location if and only if the value
is not negative or there is nothing to change. -/
theorem replaces_merge_iff (signed : Bool) (new : BitVec (8 * l.size)) (w : Word) :
    l.Replaces new w ((w &&& ~~~l.mask) ||| l.valueShift signed new) ↔
      ¬ negative signed new ∨ l.OnesAbove w := by
  have hget : l.get ((w &&& ~~~l.mask) ||| l.valueShift signed new) = new :=
    (l.get_merge w _).trans (l.get_valueShift signed new)
  have hbit : ∀ i < 32, ¬ l.field.Covers i →
      ((w &&& ~~~l.mask) ||| l.valueShift signed new).getLsbD i =
        (w.getLsbD i || (l.valueShift signed new).getLsbD i) := by
    intro i hi hcovers
    rw [l.mask_eq]
    simp [hi, hcovers]
  constructor
  · intro ⟨_, hsame⟩
    by_cases hneg : negative signed new
    · right
      intro i hi habove
      have hcovers : ¬ l.field.Covers i := fun h => absurd h.2 (by omega)
      have hi' := hsame i hcovers
      rw [hbit i hi hcovers, l.getLsbD_valueShift signed new hi, if_neg (by omega),
        if_neg (by omega), decide_eq_true hneg, Bool.or_true] at hi'
      exact hi'.symm
    · exact .inl hneg
  · intro h
    refine ⟨hget, ?_⟩
    intro i hcovers
    by_cases hi : i < 32
    · rw [hbit i hi hcovers, l.getLsbD_valueShift signed new hi]
      -- Only the bits above the location are in question.
      by_cases hlow : i < l.field.shift
      · rw [if_pos hlow, Bool.or_false]
      · have habove : ¬ i < l.field.shift + l.field.width := fun h => hcovers ⟨by omega, h⟩
        rw [if_neg hlow, if_neg habove]
        rcases h with hneg | hones
        · rw [decide_eq_false hneg, Bool.or_false]
        · rw [hones i hi (by omega), Bool.true_or]
    · rw [BitVec.getLsbD_of_ge _ _ (by omega), BitVec.getLsbD_of_ge _ _ (by omega)]

/-- A masked word compares equal to a shifted value if and only if the location has the value and
nothing of the value's sign is left in the word. -/
theorem and_mask_eq_valueShift_iff (signed : Bool) (old : BitVec (8 * l.size)) (w : Word) :
    w &&& l.mask = l.valueShift signed old ↔
      l.get w = old ∧ (¬ negative signed old ∨ l.AtTop) := by
  have hfits := l.field.fits
  have hwidth : l.field.width = 8 * l.size := rfl
  rw [l.mask_eq]
  constructor
  · intro h
    constructor
    · have hfield := congrArg l.field.get h
      rw [BitField.get_and, BitField.get_mask, BitVec.and_allOnes] at hfield
      exact hfield.trans (l.get_valueShift signed old)
    · by_cases htop : l.AtTop
      · exact .inr htop
      · left
        intro hneg
        have hlt : l.field.shift + l.field.width < 32 := lt_of_le_of_ne hfits htop
        have hbit := congrArg (fun v => v.getLsbD (l.field.shift + l.field.width)) h
        have hcovers : ¬ l.field.Covers (l.field.shift + l.field.width) :=
          fun h => absurd h.2 (by omega)
        simp only [BitVec.getLsbD_and, BitField.getLsbD_mask, decide_eq_false hcovers,
          l.getLsbD_valueShift signed old hlt, Bool.and_false] at hbit
        rw [if_neg (by omega), if_neg (by omega), decide_eq_true hneg] at hbit
        cases hbit
  · intro ⟨hold, hsign⟩
    apply BitVec.eq_of_getLsbD_eq
    intro i hi
    rw [BitVec.getLsbD_and, BitField.getLsbD_mask, l.getLsbD_valueShift signed old hi]
    by_cases hlow : i < l.field.shift
    · have hcovers : ¬ l.field.Covers i := fun h => absurd h.1 (by omega)
      rw [decide_eq_false hcovers, Bool.and_false, if_pos hlow]
    · by_cases hin : i < l.field.shift + l.field.width
      · have hbit : (l.get w).getLsbD (i - l.field.shift) = w.getLsbD i := by
          rw [l.getLsbD_get, decide_eq_true (by omega), Bool.true_and,
            Nat.add_sub_cancel' (by omega)]
        have hcovers : l.field.Covers i := ⟨by omega, hin⟩
        rw [decide_eq_true hcovers, Bool.and_true, if_neg hlow, if_pos hin, ← hbit, hold]
      · have hcovers : ¬ l.field.Covers i := fun h => hin h.2
        rw [decide_eq_false hcovers, Bool.and_false, if_neg hlow, if_neg hin]
        rcases hsign with hneg | htop
        · rw [decide_eq_false hneg]
        · exact absurd hi (by rw [AtTop] at htop; omega)

/-- What is returned is what the masked word has in the location. -/
theorem setWidth_mask_shift (w : Word) :
    ((w &&& l.mask) >>> l.shift.toNat).setWidth (8 * l.size) = l.get w := by
  have hfits := l.field.fits
  have hwidth : l.field.width = 8 * l.size := rfl
  apply BitVec.eq_of_getLsbD_eq
  intro i hi
  rw [l.mask_eq, l.toNat_shift, BitVec.getLsbD_setWidth, BitVec.getLsbD_ushiftRight,
    BitVec.getLsbD_and, BitField.getLsbD_mask, l.getLsbD_get,
    decide_eq_true (show l.field.Covers (l.field.shift + i) from ⟨by omega, by omega⟩),
    Bool.and_true]

end SubWord

/-! ## Runs of `__arch_xchg_masked` -/

namespace SubWord

variable {l : SubWord} {regs : RegFile} {signed : Bool}

theorem archXchgMasked_finishes {retShift scratch address : Reg} {notMask newShift : Operand}
    {new : BitVec (8 * l.size)} (base : Word)
    (hregs : EarlyClobber [retShift, scratch] [.reg address, newShift, notMask])
    (hnewShift : newShift.regOr0) (hnotMask : notMask.regOr0)
    (hreads : Reads [(.reg address, l.address), (newShift, l.valueShift signed new),
      (notMask, ~~~l.mask)] regs) (lost : List Word) (w : Word) :
    Finishes l.address base (archXchgMasked retShift scratch address notMask newShift) regs
      (lost.map .lost ++ [.kept w]) [(w &&& ~~~l.mask) ||| l.valueShift signed new]
      (fun out => l.xchgRet (out.get retShift) = l.get w) := by
  have hfin : Finishes l.address base
      (archXchgMasked retShift scratch address notMask newShift) regs (lost.map .lost ++ [.kept w])
      [(w &&& ~~~l.mask) ||| l.valueShift signed new] (fun out => out.get retShift = w) :=
    Gcc.subwordAtomicExchange_finishes hregs hnewShift hnotMask hreads lost w
  refine hfin.imp ?_
  intro out hout
  rw [hout]
  exact l.setWidth_mask_shift w

/-- What the loop stores decides whether it exchanges. -/
theorem exchanges_iff {base : Word} {prog : List Instr} {lost : List Word} {w stored : Word}
    {new : BitVec (8 * l.size)} {returned : RegFile → BitVec (8 * l.size)}
    (hfin : Finishes l.address base prog regs (lost.map .lost ++ [.kept w]) [stored]
      (fun out => returned out = l.get w)) :
    l.Exchanges base prog regs lost w new returned ↔ l.Replaces new w stored := by
  constructor
  · intro ⟨w', hreplaces, hfin'⟩
    obtain ⟨hstored, -⟩ := hfin.unique hfin'
    rw [List.cons.injEq] at hstored
    rwa [hstored.1]
  · intro hreplaces
    exact ⟨stored, hreplaces, hfin⟩

/-! ## Runs of `__arch_cmpxchg_masked` -/

/-- What the operands hold. -/
abbrev cmpxchgInputs (l : SubWord) (address : Reg) (mask oldShift notMask newShift : Operand)
    (signed : Bool) (old new : BitVec (8 * l.size)) : List (Operand × Word) :=
  [(.reg address, l.address), (mask, l.mask), (oldShift, l.valueShift signed old),
    (notMask, ~~~l.mask), (newShift, l.valueShift signed new)]

end SubWord

/-- The operands admitted by the constraints. -/
structure CmpxchgOperands (retShift scratch scratch2 address : Reg)
    (mask oldShift notMask newShift : Operand) : Prop where
  regs : EarlyClobber [retShift, scratch, scratch2]
    [.reg address, mask, oldShift, notMask, newShift]
  mask : mask.regOr0
  oldShift : oldShift.regOr0
  notMask : notMask.regOr0
  newShift : newShift.regOr0

namespace SubWord

section
variable {l : SubWord} {regs : RegFile} {signed : Bool} {retShift scratch scratch2 address : Reg}
  {mask oldShift notMask newShift : Operand} {old new : BitVec (8 * l.size)}

/-- From the load-linked to the branch. -/
theorem cmpxchg_steps_compare (base : Word)
    (hops : CmpxchgOperands retShift scratch scratch2 address mask oldShift notMask newShift)
    (hreads : Reads (l.cmpxchgInputs address mask oldShift notMask newShift signed old new) regs)
    (word : Word) (linked : Bool) (attempt : Attempt) (rest : List Attempt) :
    ∃ regs', Steps (soloStep l.address base
        (archCmpxchgMasked retShift scratch scratch2 address mask oldShift notMask newShift))
        ⟨{ pc := 0, regs }, word, linked, attempt :: rest, []⟩
        ⟨{ pc := 3, regs := regs' }, attempt.found, attempt.linked, rest, []⟩ ∧
      Reads (l.cmpxchgInputs address mask oldShift notMask newShift signed old new) regs' ∧
      regs'.get scratch = attempt.found ∧ regs'.get retShift = attempt.found &&& l.mask ∧
      regs'.get scratch2 = (attempt.found &&& l.mask) - l.valueShift signed old := by
  obtain ⟨hnodup, hzero, -⟩ := id hops.regs
  have hne : ∀ r ∈ [retShift, scratch, scratch2], r ≠ zero := fun r hr h => hzero (h ▸ hr)
  have h01 : retShift ≠ scratch := fun h => by simp [h] at hnodup
  have h02 : retShift ≠ scratch2 := fun h => by simp [h] at hnodup
  have h12 : scratch ≠ scratch2 := fun h => by simp [h] at hnodup
  have hloaded := hreads.set hops.regs (o := scratch) (by simp) attempt.found
  have hmasked := hloaded.set hops.regs (o := retShift) (by simp) (attempt.found &&& l.mask)
  let regs₁ := regs.set scratch attempt.found
  let regs₂ := regs₁.set retShift (attempt.found &&& l.mask)
  let regs₃ := regs₂.set scratch2 ((attempt.found &&& l.mask) - l.valueShift signed old)
  have hloadedScratch : regs₁.get scratch = attempt.found :=
    RegFile.get_set_self (hne _ (by simp))
  have hmaskedRet : regs₂.get retShift = attempt.found &&& l.mask :=
    RegFile.get_set_self (hne _ (by simp))
  have hbody : execAll [⟨.and, retShift, scratch, .plain mask.z⟩,
      ⟨.sub, scratch2, retShift, .plain oldShift.z⟩] regs₁ = regs₃ := by
    have hmask := hloaded.get_z hops.mask l.mask (by simp)
    have hold := hmasked.get_z hops.oldShift (l.valueShift signed old) (by simp)
    simp only [execAll, List.foldl_cons, List.foldl_nil, Alu.exec, Src.value_plain,
      AluOp.eval_and, AluOp.eval_sub, hloadedScratch, hmask,
      RegFile.get_set_self (hne retShift (by simp)), hold, regs₁, regs₂, regs₃]
  have hsteps : Steps (soloStep l.address base
      (archCmpxchgMasked retShift scratch scratch2 address mask oldShift notMask newShift))
      ⟨{ pc := 1, regs := regs₁ }, attempt.found, attempt.linked, rest, []⟩
      ⟨{ pc := 3, regs := regs₃ }, attempt.found, attempt.linked, rest, []⟩ := by
    rw [← hbody]
    exact steps_body [⟨.and, retShift, scratch, .plain mask.z⟩,
      ⟨.sub, scratch2, retShift, .plain oldShift.z⟩] rfl
  have hloc := hreads (.reg address, l.address) List.mem_cons_self
  refine ⟨regs₃, .head (soloStep_ll rfl hloc) hsteps, hmasked.set hops.regs (by simp) _, ?_, ?_,
    RegFile.get_set_self (hne _ (by simp))⟩
  · show (regs₂.set scratch2 _).get scratch = _
    rw [RegFile.get_set_of_ne h12, RegFile.get_set_of_ne (Ne.symm h01), hloadedScratch]
  · show (regs₂.set scratch2 _).get retShift = _
    rw [RegFile.get_set_of_ne h02, hmaskedRet]

/-- From a comparison that held to the store-conditional. -/
theorem cmpxchg_steps_store (base : Word)
    (hops : CmpxchgOperands retShift scratch scratch2 address mask oldShift notMask newShift)
    (hreads : Reads (l.cmpxchgInputs address mask oldShift notMask newShift signed old new) regs)
    (word : Word) (linked : Bool) (rest : List Attempt) {found : Word}
    (hfound : regs.get scratch = found) (hequal : regs.get scratch2 = 0) :
    ∃ regs', Steps (soloStep l.address base
        (archCmpxchgMasked retShift scratch scratch2 address mask oldShift notMask newShift))
        ⟨{ pc := 3, regs }, word, linked, rest, []⟩
        ⟨{ pc := 6, regs := regs' }, word, linked, rest, []⟩ ∧
      Reads (l.cmpxchgInputs address mask oldShift notMask newShift signed old new) regs' ∧
      regs'.get retShift = regs.get retShift ∧
      regs'.get scratch = (found &&& ~~~l.mask) ||| l.valueShift signed new := by
  obtain ⟨hnodup, hzero, -⟩ := id hops.regs
  have hne : scratch ≠ zero := fun h => hzero (by simp [h])
  have h01 : retShift ≠ scratch := fun h => by simp [h] at hnodup
  have hcleared := hreads.set hops.regs (o := scratch) (by simp) (found &&& ~~~l.mask)
  let regs₁ := regs.set scratch (found &&& ~~~l.mask)
  let regs₂ := regs₁.set scratch ((found &&& ~~~l.mask) ||| l.valueShift signed new)
  have hclearedScratch : regs₁.get scratch = found &&& ~~~l.mask := RegFile.get_set_self hne
  have hbody : execAll [⟨.and, scratch, scratch, .plain notMask.z⟩,
      ⟨.or, scratch, scratch, .plain newShift.z⟩] regs = regs₂ := by
    have hnot := hreads.get_z hops.notMask (~~~l.mask) (by simp)
    have hnew := hcleared.get_z hops.newShift (l.valueShift signed new) (by simp)
    simp only [execAll, List.foldl_cons, List.foldl_nil, Alu.exec, Src.value_plain,
      AluOp.eval_and, AluOp.eval_or, hfound, hnot, RegFile.get_set_self hne, hnew, regs₁, regs₂]
  have hsteps : Steps (soloStep l.address base
      (archCmpxchgMasked retShift scratch scratch2 address mask oldShift notMask newShift))
      ⟨{ pc := 4, regs }, word, linked, rest, []⟩
      ⟨{ pc := 6, regs := regs₂ }, word, linked, rest, []⟩ := by
    rw [← hbody]
    exact steps_body [⟨.and, scratch, scratch, .plain notMask.z⟩,
      ⟨.or, scratch, scratch, .plain newShift.z⟩] rfl
  refine ⟨regs₂, .head (soloStep_not_taken rfl ?_) hsteps,
    hcleared.set hops.regs (by simp) _, ?_, RegFile.get_set_self hne⟩
  · rw [hequal]
    decide
  · show (regs₁.set scratch _).get retShift = _
    rw [RegFile.get_set_of_ne h01, RegFile.get_set_of_ne h01]

/-- An attempt whose masked word compares equal and that loses its link is retried. -/
theorem cmpxchg_lostTurn (base : Word)
    (hops : CmpxchgOperands retShift scratch scratch2 address mask oldShift notMask newShift) :
    LostTurn l.address base
      (archCmpxchgMasked retShift scratch scratch2 address mask oldShift notMask newShift)
      (fun (_ : Unit) =>
        Reads (l.cmpxchgInputs address mask oldShift notMask newShift signed old new))
      (fun _ _ => ()) (fun found => found &&& l.mask = l.valueShift signed old) := by
  intro _ regs word linked found rest hreads hfound
  have hne : scratch ≠ zero := fun h => hops.regs.2.1 (by simp [h])
  obtain ⟨regs₁, hsteps₁, hreads₁, hscratch, -, hdiff⟩ :=
    cmpxchg_steps_compare base hops hreads word linked (.lost found) rest
  rw [show (Attempt.lost found).found = found from rfl, hfound, BitVec.sub_self] at hdiff
  obtain ⟨regs₂, hsteps₂, hreads₂, -, -⟩ :=
    cmpxchg_steps_store base hops hreads₁ found false rest hscratch hdiff
  refine ⟨regs₂.set scratch 0, found, hsteps₁.trans (hsteps₂.trans
    (.head (soloStep_sc_lost rfl (hreads₂ (.reg address, l.address) List.mem_cons_self))
      (.single (soloStep_taken rfl ?_)))), hreads₂.set hops.regs (by simp) 0⟩
  rw [RegFile.get_set_self hne]
  decide

/-- An attempt whose masked word compares unequal is the last one, and stores nothing. -/
theorem cmpxchg_finishes_unequal (base : Word)
    (hops : CmpxchgOperands retShift scratch scratch2 address mask oldShift notMask newShift)
    (hreads : Reads (l.cmpxchgInputs address mask oldShift notMask newShift signed old new) regs)
    {lost : List Word} (hlost : ∀ found ∈ lost, found &&& l.mask = l.valueShift signed old)
    (last : Attempt) (rest : List Attempt)
    (hlast : last.found &&& l.mask ≠ l.valueShift signed old) :
    Finishes l.address base
      (archCmpxchgMasked retShift scratch scratch2 address mask oldShift notMask newShift) regs
      (lost.map .lost ++ last :: rest) []
      (fun out => l.cmpxchgRet (out.get retShift) = l.get last.found) := by
  obtain ⟨regs₀, hreads₀, word, linked, hsteps₀⟩ :=
    (cmpxchg_lostTurn base hops).steps (last :: rest) lost hlost hreads (a := ())
  obtain ⟨regs₁, hsteps₁, -, -, hret, hdiff⟩ :=
    cmpxchg_steps_compare base hops hreads₀ word linked last rest
  have htest : Cond.ne.test (regs₁.get scratch2) = true := by
    rw [hdiff, Cond.test, bne_iff_ne, ne_eq, ← BitVec.toInt_zero (w := 32), BitVec.toInt_inj]
    exact fun h => hlast (sub_eq_zero.1 h)
  refine ⟨_, ⟨hsteps₀.trans (hsteps₁.trans (.single (soloStep_taken rfl htest))),
    soloStep_end rfl⟩, rfl, rfl, ?_⟩
  show l.cmpxchgRet (regs₁.get retShift) = l.get last.found
  rw [hret]
  exact l.setWidth_mask_shift last.found

/-- An attempt whose masked word compares equal and that keeps its link stores the merged word. -/
theorem cmpxchg_finishes_equal (base : Word)
    (hops : CmpxchgOperands retShift scratch scratch2 address mask oldShift notMask newShift)
    (hreads : Reads (l.cmpxchgInputs address mask oldShift notMask newShift signed old new) regs)
    {lost : List Word} (hlost : ∀ found ∈ lost, found &&& l.mask = l.valueShift signed old)
    {w : Word} (hlast : w &&& l.mask = l.valueShift signed old) :
    Finishes l.address base
      (archCmpxchgMasked retShift scratch scratch2 address mask oldShift notMask newShift) regs
      (lost.map .lost ++ [.kept w]) [(w &&& ~~~l.mask) ||| l.valueShift signed new]
      (fun out => l.cmpxchgRet (out.get retShift) = l.get w) := by
  obtain ⟨hnodup, hzero, -⟩ := id hops.regs
  have hne : scratch ≠ zero := fun h => hzero (by simp [h])
  have h01 : retShift ≠ scratch := fun h => by simp [h] at hnodup
  obtain ⟨regs₀, hreads₀, word, linked, hsteps₀⟩ :=
    (cmpxchg_lostTurn base hops).steps [.kept w] lost hlost hreads (a := ())
  obtain ⟨regs₁, hsteps₁, hreads₁, hscratch, hret, hdiff⟩ :=
    cmpxchg_steps_compare base hops hreads₀ word linked (.kept w) []
  rw [show (Attempt.kept w).found = w from rfl] at hscratch hret hdiff
  rw [hlast, BitVec.sub_self] at hdiff
  obtain ⟨regs₂, hsteps₂, hreads₂, hret₂, hmerged⟩ :=
    cmpxchg_steps_store base hops hreads₁ w true [] hscratch hdiff
  have hsc : soloStep l.address base
        (archCmpxchgMasked retShift scratch scratch2 address mask oldShift notMask newShift)
        ⟨{ pc := 6, regs := regs₂ }, w, true, [], []⟩ =
      some ⟨{ pc := 7, regs := regs₂.set scratch 1 }, regs₂.get scratch, false, [],
        [regs₂.get scratch]⟩ :=
    soloStep_sc rfl (hreads₂ (.reg address, l.address) List.mem_cons_self)
  rw [hmerged] at hsc
  refine ⟨_, ⟨hsteps₀.trans (hsteps₁.trans (hsteps₂.trans
    (.head hsc (.single (soloStep_not_taken rfl ?_))))), soloStep_end rfl⟩, rfl, rfl, ?_⟩
  · rw [RegFile.get_set_self hne]
    decide
  · show l.cmpxchgRet ((regs₂.set scratch 1).get retShift) = l.get w
    rw [RegFile.get_set_of_ne h01, hret₂, hret]
    exact l.setWidth_mask_shift w

end

end SubWord

/-! ## When they do what they are for -/

namespace SubWord

section
variable {l : SubWord} {regs : RegFile} {signed : Bool} {retShift scratch scratch2 address : Reg}
  {mask oldShift notMask newShift : Operand} {old new : BitVec (8 * l.size)}

theorem comparesAndExchanges_iff (base : Word)
    (hops : CmpxchgOperands retShift scratch scratch2 address mask oldShift notMask newShift)
    (hreads : Reads (l.cmpxchgInputs address mask oldShift notMask newShift signed old new) regs)
    {lost : List Word} (hlost : ∀ found ∈ lost, l.get found = old) {last : Attempt}
    (hlinked : l.get last.found = old → last.linked) :
    l.ComparesAndExchanges base
        (archCmpxchgMasked retShift scratch scratch2 address mask oldShift notMask newShift) regs
        lost last old new (fun out => l.cmpxchgRet (out.get retShift)) ↔
      (lost = [] ∧ l.get last.found ≠ old) ∨
        ((¬ negative signed old ∨ l.AtTop) ∧
          (l.get last.found ≠ old ∨ ¬ negative signed new ∨ l.OnesAbove last.found)) := by
  have hequal := l.and_mask_eq_valueShift_iff signed old
  by_cases hsign : ¬ negative signed old ∨ l.AtTop
  · -- The comparison is the one with the expected value.
    have hlost' : ∀ found ∈ lost, found &&& l.mask = l.valueShift signed old :=
      fun found hfound => (hequal found).2 ⟨hlost found hfound, hsign⟩
    by_cases hlast : l.get last.found = old
    · obtain ⟨w, linked⟩ := last
      obtain rfl : linked = true := hlinked hlast
      have hfin := cmpxchg_finishes_equal base hops hreads hlost' ((hequal w).2 ⟨hlast, hsign⟩)
      have hiff := (exchanges_iff hfin).trans (l.replaces_merge_iff signed new w)
      simp only [ne_eq, hlast, not_true_eq_false, and_false, false_or, hsign, true_and]
      rw [← hiff]
      constructor
      · intro h
        exact h.1 hlast
      · intro h
        exact ⟨fun _ => h, fun hne => absurd hlast hne⟩
    · have hne : last.found &&& l.mask ≠ l.valueShift signed old :=
        fun h => hlast ((hequal _).1 h).1
      have hfin := cmpxchg_finishes_unequal base hops hreads hlost' last [] hne
      constructor
      · intro _
        exact .inr ⟨hsign, .inl hlast⟩
      · intro _
        exact ⟨fun h => absurd h hlast, fun _ => hfin⟩
  · -- No word compares equal, so that the first attempt is the last.
    have hne : ∀ w, w &&& l.mask ≠ l.valueShift signed old :=
      fun w h => hsign ((hequal w).1 h).2
    have hnil : ∀ found ∈ ([] : List Word), found &&& l.mask = l.valueShift signed old :=
      fun found hfound => absurd hfound List.not_mem_nil
    have hrhs : ((lost = [] ∧ l.get last.found ≠ old) ∨
        ((¬ negative signed old ∨ l.AtTop) ∧
          (l.get last.found ≠ old ∨ ¬ negative signed new ∨ l.OnesAbove last.found))) ↔
        (lost = [] ∧ l.get last.found ≠ old) := or_iff_left fun h => hsign h.1
    rw [hrhs]
    constructor
    · intro h
      cases lost with
      | nil =>
        refine ⟨rfl, ?_⟩
        intro hlast
        obtain ⟨w', -, hfin⟩ := h.1 hlast
        obtain ⟨hstored, -⟩ := hfin.unique
          (cmpxchg_finishes_unequal base hops hreads hnil last [] (hne _))
        cases hstored
      | cons found lost =>
        exfalso
        have hfirst := cmpxchg_finishes_unequal base hops hreads hnil
          (.lost found) (lost.map .lost ++ [last]) (hne _)
        by_cases hlast : l.get last.found = old
        · obtain ⟨w', -, hfin⟩ := h.1 hlast
          obtain ⟨hstored, -⟩ := hfin.unique hfirst
          cases hstored
        · obtain ⟨-, out, hout, hout'⟩ := (h.2 hlast).unique hfirst
          have hsame : l.get last.found = l.get found := hout.symm.trans hout'
          exact hlast (hsame.trans (hlost found (by simp)))
    · intro ⟨hnil, hlast⟩
      subst hnil
      exact ⟨fun h => absurd h hlast, fun _ =>
        cmpxchg_finishes_unequal base hops hreads hnil last [] (hne _)⟩

end

end SubWord

/-- **Sub-word `arch_xchg_relaxed` and `arch_cmpxchg_relaxed`.** An exchange is right *if and only
if* the new value is not a negative one of a signed type or the word has no zero above the
location. A compare-and-exchange is right *if and only if* its first attempt finds another value
than the expected one, or the expected value is not negative (the location being below the top of
the word) and, should the last attempt have found it, the new value can be exchanged. -/
theorem masked_correct_iff (l : SubWord) (signed : Bool) (base : Word) (regs : RegFile) :
    (∀ (retShift scratch address : Reg) (notMask newShift : Operand) (new : BitVec (8 * l.size))
      (lost : List Word) (w : Word),
      EarlyClobber [retShift, scratch] [.reg address, newShift, notMask] →
      newShift.regOr0 → notMask.regOr0 →
      Reads [(.reg address, l.address), (newShift, l.valueShift signed new),
        (notMask, ~~~l.mask)] regs →
      (l.Exchanges base (archXchgMasked retShift scratch address notMask newShift) regs lost w new
          (fun out => l.xchgRet (out.get retShift)) ↔
        ¬ negative signed new ∨ l.OnesAbove w)) ∧
    (∀ (retShift scratch scratch2 address : Reg) (mask oldShift notMask newShift : Operand)
      (old new : BitVec (8 * l.size)) (lost : List Word) (last : Attempt),
      CmpxchgOperands retShift scratch scratch2 address mask oldShift notMask newShift →
      Reads (l.cmpxchgInputs address mask oldShift notMask newShift signed old new) regs →
      (∀ found ∈ lost, l.get found = old) → (l.get last.found = old → last.linked) →
      (l.ComparesAndExchanges base
          (archCmpxchgMasked retShift scratch scratch2 address mask oldShift notMask newShift) regs
          lost last old new (fun out => l.cmpxchgRet (out.get retShift)) ↔
        (lost = [] ∧ l.get last.found ≠ old) ∨
          ((¬ negative signed old ∨ l.AtTop) ∧
            (l.get last.found ≠ old ∨ ¬ negative signed new ∨ l.OnesAbove last.found)))) := by
  constructor
  · intro retShift scratch address notMask newShift new lost w hregs hnewShift hnotMask hreads
    have hfin := SubWord.archXchgMasked_finishes base hregs hnewShift hnotMask hreads lost w
    rw [SubWord.exchanges_iff hfin]
    exact l.replaces_merge_iff signed new w
  · intro retShift scratch scratch2 address mask oldShift notMask newShift old new lost last hops
      hreads hlost hlinked
    exact SubWord.comparesAndExchanges_iff base hops hreads hlost hlinked

/-- The byte at 0x1002. -/
def byteTwo : SubWord := ⟨0x1002, 1, by decide, by decide⟩

/-- Register 1 has the address of the word, 2 and 3 `__mask` and its complement, and 4 and 5 the
shifted values -1 and 5. -/
def maskedRegs : RegFile :=
  ⟨fun r => if r = 1 then 0x1000 else if r = 2 then 0xff0000 else if r = 3 then 0xff00ffff
    else if r = 4 then 0xffff0000 else if r = 5 then 0x50000 else 0⟩

theorem masked_correct_iff_byteTwo :
    (byteTwo.Exchanges 0 (archXchgMasked 7 8 1 (.reg 3) (.reg 4)) maskedRegs [9] 0xff020304 0xff
        (fun out => byteTwo.xchgRet (out.get 7)) ↔
      ¬ negative true (0xff : BitVec 8) ∨ byteTwo.OnesAbove 0xff020304) ∧
    (byteTwo.ComparesAndExchanges 0
        (archCmpxchgMasked 7 8 9 1 (.reg 2) (.reg 5) (.reg 3) (.reg 4)) maskedRegs [0x50000]
        (.kept 0x1050304) 5 0xff (fun out => byteTwo.cmpxchgRet (out.get 7)) ↔
      (([0x50000] : List Word) = [] ∧ byteTwo.get 0x1050304 ≠ 5) ∨
        ((¬ negative true (5 : BitVec 8) ∨ byteTwo.AtTop) ∧
          (byteTwo.get 0x1050304 ≠ 5 ∨ ¬ negative true (0xff : BitVec 8) ∨
            byteTwo.OnesAbove 0x1050304))) := by
  have hops : CmpxchgOperands 7 8 9 1 (.reg 2) (.reg 5) (.reg 3) (.reg 4) :=
    ⟨by decide, rfl, rfl, rfl, rfl⟩
  have hlost : ∀ found ∈ [0x50000#32], byteTwo.get found = 5#8 := by
    intro found hfound
    rw [List.mem_singleton.1 hfound]
    rfl
  exact ⟨(masked_correct_iff byteTwo true 0 maskedRegs).1 7 8 1 (.reg 3) (.reg 4) 0xff#8 [9]
      0xff020304 (by decide) rfl rfl (by decide),
    (masked_correct_iff byteTwo true 0 maskedRegs).2 7 8 9 1 (.reg 2) (.reg 5) (.reg 3) (.reg 4) 5#8
      0xff#8 [0x50000] (.kept 0x1050304) hops (by decide) hlost fun _ => rfl⟩

/-- Exchanging -1 into the signed byte at 0x1002 of the word 0x01020304 sets the byte above too. -/
theorem archXchg_leaks :
    ¬ ∀ (l : SubWord) (signed : Bool) (base : Word) (regs : RegFile)
      (retShift scratch address : Reg) (notMask newShift : Operand) (new : BitVec (8 * l.size))
      (lost : List Word) (w : Word),
      EarlyClobber [retShift, scratch] [.reg address, newShift, notMask] →
      newShift.regOr0 → notMask.regOr0 →
      Reads [(.reg address, l.address), (newShift, l.valueShift signed new),
        (notMask, ~~~l.mask)] regs →
      l.Exchanges base (archXchgMasked retShift scratch address notMask newShift) regs lost w new
        (fun out => l.xchgRet (out.get retShift)) := by
  intro hall
  have hregs : EarlyClobber [7, 8] [.reg 1, .reg 4, .reg 3] := by decide
  have hreads : Reads [(.reg 1, byteTwo.address), (.reg 4, byteTwo.valueShift true 0xff#8),
      (.reg 3, ~~~byteTwo.mask)] maskedRegs := by decide
  have hexchanges := hall byteTwo true 0 maskedRegs 7 8 1 (.reg 3) (.reg 4) 0xff#8 [] 0x1020304
    hregs rfl rfl hreads
  have hreplaces := (SubWord.exchanges_iff
    (SubWord.archXchgMasked_finishes 0 hregs rfl rfl hreads [] 0x1020304)).1 hexchanges
  -- Bit 25 is above the location.
  exact absurd (hreplaces.2 25 (by decide)) (by decide)

end XrLinux.Linux.Cmpxchg
