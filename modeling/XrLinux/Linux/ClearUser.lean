import XrLinux.Linux.Regs
import XrLinux.Machine.Bytes

/-!
# Linux — `__clear_user`

`__clear_user` of `lib/uaccess.S`: bytes up to the first word, words, and bytes after the last word.
All three loops have the same shape. The last one compares with `t3`, which nothing has set, where
the end of the region is in `a3`.
-/

namespace XrLinux.Linux.ClearUser

open Machine

/-- `__clear_user`. -/
def clearUser : List ByteLine :=
  [.op (.alu .sub t2 zero (.imm 4)),
    .op (.alu .add a3 a0 (.plain a1)),
    .op (.alu .add t0 a0 (.imm 3)),
    .op (.alu .and t1 a3 (.plain t2)),
    .op (.alu .and t0 t0 (.plain t2)),
    .op (.alu .slt t2 t0 (.plain t1)),
    .branch .eq t2 13,
    .op (.alu .slt t2 a0 (.plain t0)),
    .branch .ne t2 17,
    -- 1:
    .fixup (.store .long a0 0 zero) 27,
    .op (.alu .add a0 a0 (.imm 4)),
    .op (.alu .slt t2 a0 (.plain t1)),
    .branch .ne t2 9,
    -- 2:
    .op (.alu .slt t2 a0 (.plain a3)),
    .branch .ne t2 22,
    -- 3:
    .op (.alu .add a3 zero (.imm 0)),
    .jump lr,
    -- 4:
    .fixup (.store .byte a0 0 zero) 27,
    .op (.alu .add a0 a0 (.imm 1)),
    .op (.alu .slt t2 a0 (.plain t0)),
    .branch .ne t2 17,
    .branch .eq zero 9,
    -- 5:
    .fixup (.store .byte a0 0 zero) 27,
    .op (.alu .add a0 a0 (.imm 1)),
    .op (.alu .slt t2 a0 (.plain t3)),
    .branch .ne t2 22,
    .branch .eq zero 15,
    -- 11:
    .op (.alu .sub a3 a3 (.plain a0)),
    .jump lr]

/-- `PAGE_SIZE`. -/
def pageSize : Nat := 4096

/-- `TASK_SIZE`. -/
def taskSize : Nat := 0x80000000

/-- Stores fault by pages. -/
def storesTo (writable : Nat → Bool) (access : Access) : Bool :=
  !access.isStore || writable (access.addr / pageSize)

/-- The first byte from `dst` on whose page cannot be written, or the end of the address space. -/
structure FirstFault (writable : Nat → Bool) (dst fault : Nat) : Prop where
  le : dst ≤ fault
  le_end : fault ≤ 2 ^ 32
  before : ∀ x, dst ≤ x → x < fault → writable (x / pageSize) = true
  at_fault : fault < 2 ^ 32 → writable (fault / pageSize) = false

/-- Zeros from `dst` up to `upTo`. -/
def zeroed (m : ByteMemory) (dst upTo : Nat) : ByteMemory := m.put dst (upTo - dst) fun _ => 0

section
variable {base : Word} {writable : Nat → Bool} {dst fault : Nat} {m : ByteMemory} {c s : ByteState}
  {p q : Nat} {Q : ByteCpu → Prop}

/-! ## A loop -/

/-- Where the next store goes, and what the loops compare with. -/
structure Clearing (c : ByteState) (m : ByteMemory) (dst p : Nat) (s : ByteState) : Prop where
  a0_toNat : (s.regs.get a0).toNat = p
  kept : ∀ r ∈ [lr, a3, t0, t1, t3], s.regs.get r = c.regs.get r
  mem_eq : s.mem = zeroed m dst p

theorem zeroed_write {size : Size} (hle : dst ≤ p) :
    size.write (zeroed m dst p) p 0 = zeroed m dst (p + size.bytes) := by
  have hp : dst + (p - dst) = p := by omega
  have hlen : p + size.bytes - dst = p - dst + size.bytes := by omega
  have hzero : (fun i => BitVec.ofNat 8 (0 / 256 ^ i)) = fun _ : Nat => (0 : BitVec 8) := by
    funext i
    rw [Nat.zero_div]
    rfl
  have hput := m.put_put dst (p - dst) size.bytes fun _ => (0 : BitVec 8)
  rw [hp] at hput
  rw [Size.write_eq_put, hzero, zeroed, hput, zeroed, hlen]

/-- Whether a store goes, by the first fault. -/
theorem FirstFault.goes_iff (h : FirstFault writable dst fault) {size : Size} (hle : dst ≤ p)
    (hfault : p ≤ fault) (haligned : p % size.bytes = 0) (ha0 : (s.regs.get a0).toNat = p) :
    (ByteRoutine.mk clearUser base (storesTo writable)).Goes s (.store size a0 0 zero) ↔
      p < fault := by
  have haddr : (s.regs.get a0 + 0).toNat = p := by rw [add_zero, ha0]
  rw [ByteRoutine.goes_store_iff haddr]
  show p % size.bytes = 0 ∧ (!true || writable (p / pageSize)) = true ↔ p < fault
  constructor
  · intro hgoes
    apply Nat.lt_of_le_of_ne hfault
    intro heq
    have hp : p < 2 ^ 32 := ha0 ▸ (s.regs.get a0).isLt
    have hno := h.at_fault (heq ▸ hp)
    rw [← heq] at hno
    rw [hno] at hgoes
    exact absurd hgoes.2 (by decide)
  · intro hlt
    exact ⟨haligned, by rw [h.before p hle hlt]; rfl⟩

/-- A page that is written at the start of a store is written up to its end. -/
theorem FirstFault.add_le (h : FirstFault writable dst fault) {size : Size} (hle : dst ≤ p)
    (hlt : p < fault) (haligned : p % size.bytes = 0) : p + size.bytes ≤ fault := by
  have hend := h.le_end
  have hwritable := h.before p hle hlt
  by_contra hcross
  have hpage : fault / pageSize = p / pageSize ∧ fault < 2 ^ 32 := by
    unfold pageSize
    cases size with
    | byte | int | long =>
      simp only [Size.bytes] at haligned hcross
      omega
  have hno := h.at_fault hpage.2
  rw [hpage.1, hwritable] at hno
  cases hno

/-- One turn of a loop, up to its branch. -/
def clearTurn (size : Size) (last : Reg) (imm : BitVec 16) (s : ByteState) : ByteState :=
  s.execAll [.store size a0 0 zero, .alu .add a0 a0 (.imm imm), .alu .slt t2 a0 (.plain last)]

theorem Clearing.turn {size : Size} {imm : BitVec 16} (last : Reg) (h : Clearing c m dst p s)
    (hle : dst ≤ p) (himm : imm.toNat = size.bytes) (hlt : p + size.bytes < 2 ^ 32) :
    Clearing c m dst (p + size.bytes) (clearTurn size last imm s) := by
  have hothers : ∀ r ∈ [lr, a3, t0, t1, t3], r ≠ t2 ∧ r ≠ a0 := by decide
  constructor
  · show (s.regs.get a0 + imm.setWidth 32).toNat = _
    rw [BitVec.toNat_add, h.a0_toNat, BitVec.toNat_setWidth, himm]
    have hsmall : size.bytes < 2 ^ 32 := by omega
    rw [Nat.mod_eq_of_lt hsmall, Nat.mod_eq_of_lt hlt]
  · intro r hr
    rw [← h.kept r hr]
    exact (RegFile.get_set_of_ne (hothers r hr).1).trans (RegFile.get_set_of_ne (hothers r hr).2)
  · show size.write s.mem (s.regs.get a0 + 0).toNat (s.regs.get zero).toNat = _
    rw [add_zero, h.a0_toNat, h.mem_eq, RegFile.get_zero]
    exact zeroed_write hle

theorem clearTurn_t2 {size : Size} {last : Reg} {imm : BitVec 16}
    (hlast : last ∈ [lr, a3, t0, t1, t3]) :
    (clearTurn size last imm s).regs.get t2 =
      AluOp.slt.eval ((clearTurn size last imm s).regs.get a0)
        ((clearTurn size last imm s).regs.get last) := by
  have hothers : ∀ r ∈ [lr, a3, t0, t1, t3], r ≠ t2 := by decide
  have hkept : (clearTurn size last imm s).regs.get last =
      (s.execAll [.store size a0 0 zero, .alu .add a0 a0 (.imm imm)]).regs.get last :=
    RegFile.get_set_of_ne (hothers last hlast)
  rw [hkept, ← Src.value_plain last .slt]
  rfl

/-- A turn, or the first fault. -/
theorem Clearing.step {line : Nat} {size : Size} {last : Reg} {imm : BitVec 16}
    (hstore : clearUser[line]? = some (.fixup (.store size a0 0 zero) 27))
    (hadd : clearUser[line + 1]? = some (.op (.alu .add a0 a0 (.imm imm))))
    (hslt : clearUser[line + 2]? = some (.op (.alu .slt t2 a0 (.plain last))))
    (hfirst : FirstFault writable dst fault) (h : Clearing c m dst p s) (hle : dst ≤ p)
    (hfault : p ≤ fault) (haligned : p % size.bytes = 0)
    (hgoes : p < fault → (ByteRoutine.mk clearUser base (storesTo writable)).Comes (line + 3)
      (clearTurn size last imm s) Q)
    (htraps : p = fault → (ByteRoutine.mk clearUser base (storesTo writable)).Comes 27 s Q) :
    (ByteRoutine.mk clearUser base (storesTo writable)).Comes line s Q := by
  have hiff := @FirstFault.goes_iff base writable dst fault s p hfirst size hle hfault haligned
    h.a0_toNat
  by_cases hlt : p < fault
  · apply ByteRoutine.Comes.fixup_goes hstore (hiff.mpr hlt)
    apply ByteRoutine.Comes.op hadd ByteRoutine.goes_alu
    exact ByteRoutine.Comes.op hslt ByteRoutine.goes_alu (hgoes hlt)
  · apply ByteRoutine.Comes.fixup_traps hstore fun hcontra => hlt (hiff.mp hcontra)
    exact htraps (by omega)

/-- A loop of stores, up to `q` or to the first fault. It goes on as long as the next store is below
the register that it compares with, and makes one turn in any case. -/
theorem Clearing.loop {line : Nat} {size : Size} {last : Reg} {imm : BitVec 16}
    (hstore : clearUser[line]? = some (.fixup (.store size a0 0 zero) 27))
    (hadd : clearUser[line + 1]? = some (.op (.alu .add a0 a0 (.imm imm))))
    (hslt : clearUser[line + 2]? = some (.op (.alu .slt t2 a0 (.plain last))))
    (hbranch : clearUser[line + 3]? = some (.branch .ne t2 line))
    (himm : imm.toNat = size.bytes) (hlast : last ∈ [lr, a3, t0, t1, t3])
    (hfirst : FirstFault writable dst fault) (h : Clearing c m dst p s) (hle : dst ≤ p)
    (hfault : p ≤ fault) (haligned : p % size.bytes = 0) (hlt : p < q) (hdvd : size.bytes ∣ q - p)
    (hq : q < 2 ^ 32)
    (hend : q = (c.regs.get last).toNat ∨ q = p + size.bytes ∧ (c.regs.get last).toNat ≤ q)
    (hdone : q ≤ fault → ∀ s', Clearing c m dst q s' →
      (ByteRoutine.mk clearUser base (storesTo writable)).Comes (line + 4) s' Q)
    (hfails : fault < q → ∀ s', Clearing c m dst fault s' →
      (ByteRoutine.mk clearUser base (storesTo writable)).Comes 27 s' Q) :
    (ByteRoutine.mk clearUser base (storesTo writable)).Comes line s Q := by
  have hpos := size.bytes_pos
  have htest : ∀ {p s}, Clearing c m dst (p + size.bytes) (clearTurn size last imm s) →
      Cond.ne.test ((clearTurn size last imm s).regs.get t2) =
        decide (p + size.bytes < (c.regs.get last).toNat) := by
    intro p s hnext
    rw [clearTurn_t2 hlast, test_ne_slt, hnext.a0_toNat, hnext.kept last hlast]
  -- By the number of turns.
  obtain ⟨turns, hturns⟩ := hdvd
  induction turns generalizing p s with
  | zero =>
    rw [Nat.mul_zero] at hturns
    omega
  | succ turns ih =>
    rw [Nat.mul_succ] at hturns
    apply h.step hstore hadd hslt hfirst hle hfault haligned
    · intro hgoes
      have hnext := h.turn last hle himm (by omega)
      have hnext_le := hfirst.add_le hle hgoes haligned
      by_cases hlast_turn : q = p + size.bytes
      · apply ByteRoutine.Comes.not_taken hbranch
          ((htest hnext).trans (decide_eq_false (by omega)))
        exact hdone (by omega) _ (hlast_turn ▸ hnext)
      · apply ByteRoutine.Comes.taken hbranch ((htest hnext).trans (decide_eq_true (by omega)))
        apply ih hnext (by omega) hnext_le
        · rw [Nat.add_mod_right, haligned]
        · omega
        · exact .inl (by omega)
        · omega
    · intro heq
      exact hfails (by omega) s (heq ▸ h)

/-! ## The routine -/

/-- Where the bytes after the last word start, or all of them where there is no word. -/
def tailStart (dst n : Nat) : Nat :=
  if (dst + 3) / 4 * 4 < (dst + n) / 4 * 4 then (dst + n) / 4 * 4 else dst

/-- Where the last loop ends, if there is anything for it to do. -/
def stop (dst n t3 : Nat) : Nat :=
  if tailStart dst n = dst + n then dst + n else max (tailStart dst n + 1) t3

theorem tailStart_le {n : Nat} : dst ≤ tailStart dst n ∧ tailStart dst n ≤ dst + n := by
  unfold tailStart
  split
  · omega
  · omega

/-- What is returned, with the last store before `upTo`. -/
structure Cleared (m : ByteMemory) (dst upTo : Nat) (count : Word) (s : ByteState) : Prop where
  mem_eq : s.mem = zeroed m dst upTo
  a3_eq : s.regs.get a3 = count

theorem Clearing.fixup (h : Clearing c m dst p s) :
    (ByteRoutine.mk clearUser base (storesTo writable)).Comes 27 s fun cpu =>
      cpu.left = some (c.regs.get lr) ∧
        Cleared m dst p (c.regs.get a3 - BitVec.ofNat 32 p) cpu.state := by
  have ha0 : s.regs.get a0 = BitVec.ofNat 32 p := by
    rw [← h.a0_toNat, BitVec.ofNat_toNat, BitVec.setWidth_eq]
  apply ByteRoutine.Comes.op rfl ByteRoutine.goes_alu
  apply ByteRoutine.Comes.jump rfl
  refine ⟨congrArg some (h.kept lr (by decide)), h.mem_eq, ?_⟩
  show s.regs.get a3 - (Src.plain a0).value .sub s.regs = _
  rw [Src.value_plain, ha0, h.kept a3 (by decide)]

theorem Clearing.done (h : Clearing c m dst p s) :
    (ByteRoutine.mk clearUser base (storesTo writable)).Comes 15 s fun cpu =>
      cpu.left = some (c.regs.get lr) ∧ Cleared m dst p 0 cpu.state := by
  apply ByteRoutine.Comes.op rfl ByteRoutine.goes_alu
  apply ByteRoutine.Comes.jump rfl
  exact ⟨congrArg some (h.kept lr (by decide)), h.mem_eq, rfl⟩

/-- The registers that the first six lines set. -/
structure Rounded (c : ByteState) (dst n : Nat) : Prop where
  a3_eq : c.regs.get a3 = BitVec.ofNat 32 (dst + n)
  t0_toNat : (c.regs.get t0).toNat = (dst + 3) / 4 * 4
  t1_toNat : (c.regs.get t1).toNat = (dst + n) / 4 * 4
  le_taskSize : dst + n ≤ taskSize

theorem Rounded.a3_toNat {n : Nat} (h : Rounded c dst n) : (c.regs.get a3).toNat = dst + n := by
  have hle := h.le_taskSize
  unfold taskSize at hle
  rw [h.a3_eq, BitVec.toNat_ofNat]
  omega

/-- Up to the first fault or to the end of the last loop. -/
def Ends (c : ByteState) (m : ByteMemory) (dst n fault : Nat) (cpu : ByteCpu) : Prop :=
  cpu.left = some (c.regs.get lr) ∧
    Cleared m dst (min fault (stop dst n (c.regs.get t3).toNat))
      (if fault < stop dst n (c.regs.get t3).toNat then
        BitVec.ofNat 32 (dst + n) - BitVec.ofNat 32 fault
      else 0) cpu.state

variable {n : Nat}

theorem Rounded.fixup (hrounded : Rounded c dst n) (h : Clearing c m dst fault s)
    (hlt : fault < stop dst n (c.regs.get t3).toNat) :
    (ByteRoutine.mk clearUser base (storesTo writable)).Comes 27 s (Ends c m dst n fault) := by
  unfold Ends
  rw [if_pos hlt, Nat.min_eq_left (Nat.le_of_lt hlt), ← hrounded.a3_eq]
  exact h.fixup

theorem Rounded.done (h : Clearing c m dst (stop dst n (c.regs.get t3).toNat) s)
    (hle : stop dst n (c.regs.get t3).toNat ≤ fault) :
    (ByteRoutine.mk clearUser base (storesTo writable)).Comes 15 s (Ends c m dst n fault) := by
  unfold Ends
  rw [if_neg (Nat.not_lt.mpr hle), Nat.min_eq_right hle]
  exact h.done

/-- Between the loops only `t2` is written. -/
theorem Clearing.compare {ra : Reg} {src : Src} (h : Clearing c m dst p s) :
    Clearing c m dst p (s.exec (.alu .slt t2 ra src)) := by
  have hothers : ∀ r ∈ [lr, a3, t0, t1, t3], r ≠ t2 := by decide
  exact ⟨h.a0_toNat, fun r hr => (RegFile.get_set_of_ne (hothers r hr)).trans (h.kept r hr),
    h.mem_eq⟩

theorem compare_t2 {ra last : Reg} :
    (s.exec (.alu .slt t2 ra (.plain last))).regs.get t2 =
      AluOp.slt.eval (s.regs.get ra) (s.regs.get last) := by
  rw [← Src.value_plain last .slt]
  rfl

/-- From the last word on. -/
theorem Rounded.tail (hrounded : Rounded c dst n) (hfirst : FirstFault writable dst fault)
    (h : Clearing c m dst (tailStart dst n) s) (hfault : tailStart dst n ≤ fault) :
    (ByteRoutine.mk clearUser base (storesTo writable)).Comes 13 s (Ends c m dst n fault) := by
  have hstart := @tailStart_le dst n
  have hrange := hrounded.le_taskSize
  unfold taskSize at hrange
  have ht3 := (c.regs.get t3).isLt
  apply ByteRoutine.Comes.op rfl ByteRoutine.goes_alu
  have htest : Cond.ne.test ((s.exec (.alu .slt t2 a0 (.plain a3))).regs.get t2) =
      decide (tailStart dst n < dst + n) := by
    rw [compare_t2, test_ne_slt, h.a0_toNat, h.kept a3 (by decide), hrounded.a3_toNat]
  by_cases htail : tailStart dst n = dst + n
  · have hstop : stop dst n (c.regs.get t3).toNat = tailStart dst n := by
      rw [stop, if_pos htail, htail]
    apply ByteRoutine.Comes.not_taken rfl (htest.trans (decide_eq_false (by omega)))
    exact Rounded.done (hstop ▸ h.compare) (hstop ▸ hfault)
  · have hstop : stop dst n (c.regs.get t3).toNat =
        max (tailStart dst n + 1) (c.regs.get t3).toNat := if_neg htail
    apply ByteRoutine.Comes.taken rfl (htest.trans (decide_eq_true (by omega)))
    -- The loop compares with `t3`.
    apply Clearing.loop rfl rfl rfl rfl rfl (show t3 ∈ _ by decide) hfirst h.compare hstart.1 hfault
      (Nat.mod_one _) (q := stop dst n (c.regs.get t3).toNat)
    · omega
    · exact Nat.one_dvd _
    · omega
    · show _ ∨ _ = _ + 1 ∧ _
      omega
    · intro hdone s' hs'
      exact ByteRoutine.Comes.taken rfl rfl (Rounded.done hs' hdone)
    · intro hlt s' hs'
      exact hrounded.fixup hs' hlt

/-- From the first word on, if there is one. -/
theorem Rounded.words (hrounded : Rounded c dst n) (hfirst : FirstFault writable dst fault)
    (hwords : (dst + 3) / 4 * 4 < (dst + n) / 4 * 4)
    (h : Clearing c m dst ((dst + 3) / 4 * 4) s) (hfault : (dst + 3) / 4 * 4 ≤ fault) :
    (ByteRoutine.mk clearUser base (storesTo writable)).Comes 9 s (Ends c m dst n fault) := by
  have hstart : tailStart dst n = (dst + n) / 4 * 4 := if_pos hwords
  have hrange := hrounded.le_taskSize
  unfold taskSize at hrange
  have hstop : tailStart dst n ≤ stop dst n (c.regs.get t3).toNat := by
    unfold stop
    split
    · omega
    · omega
  apply Clearing.loop rfl rfl rfl rfl rfl (show t1 ∈ _ by decide) hfirst h (by omega) hfault
    (Nat.mul_mod_left _ _) (q := (dst + n) / 4 * 4)
  · exact hwords
  · show 4 ∣ _
    omega
  · omega
  · exact .inl hrounded.t1_toNat.symm
  · intro hdone s' hs'
    exact hrounded.tail hfirst (hstart ▸ hs') (hstart ▸ hdone)
  · intro hlt s' hs'
    exact hrounded.fixup hs' (by omega)

/-- From the first byte on. -/
theorem Rounded.loops (hrounded : Rounded c dst n) (hfirst : FirstFault writable dst fault)
    (h : Clearing c m dst dst s)
    (ht2 : s.regs.get t2 = AluOp.slt.eval (c.regs.get t0) (c.regs.get t1)) :
    (ByteRoutine.mk clearUser base (storesTo writable)).Comes 6 s (Ends c m dst n fault) := by
  have htest : Cond.eq.test (s.regs.get t2) =
      decide ((dst + n) / 4 * 4 ≤ (dst + 3) / 4 * 4) := by
    rw [ht2, test_eq_slt, hrounded.t0_toNat, hrounded.t1_toNat]
  by_cases hwords : (dst + 3) / 4 * 4 < (dst + n) / 4 * 4
  · have hrange := hrounded.le_taskSize
    unfold taskSize at hrange
    have hstart : tailStart dst n = (dst + n) / 4 * 4 := if_pos hwords
    apply ByteRoutine.Comes.not_taken rfl (htest.trans (decide_eq_false (by omega)))
    apply ByteRoutine.Comes.op rfl ByteRoutine.goes_alu
    have hhead : Cond.ne.test ((s.exec (.alu .slt t2 a0 (.plain t0))).regs.get t2) =
        decide (dst < (dst + 3) / 4 * 4) := by
      rw [compare_t2, test_ne_slt, h.a0_toNat, h.kept t0 (by decide), hrounded.t0_toNat]
    by_cases haligned : dst = (dst + 3) / 4 * 4
    · apply ByteRoutine.Comes.not_taken rfl (hhead.trans (decide_eq_false (by omega)))
      exact hrounded.words hfirst hwords (haligned ▸ h.compare) (haligned ▸ hfirst.le)
    · apply ByteRoutine.Comes.taken rfl (hhead.trans (decide_eq_true (by omega)))
      apply Clearing.loop rfl rfl rfl rfl rfl (show t0 ∈ _ by decide) hfirst h.compare le_rfl
        hfirst.le (Nat.mod_one _) (q := (dst + 3) / 4 * 4)
      · omega
      · exact Nat.one_dvd _
      · omega
      · exact .inl hrounded.t0_toNat.symm
      · intro hdone s' hs'
        exact ByteRoutine.Comes.taken rfl rfl (hrounded.words hfirst hwords hs' hdone)
      · intro hlt s' hs'
        apply hrounded.fixup hs'
        unfold stop
        split
        · omega
        · omega
  · have hstart : tailStart dst n = dst := if_neg hwords
    apply ByteRoutine.Comes.taken rfl (htest.trans (decide_eq_true (by omega)))
    exact hrounded.tail hfirst (hstart.symm ▸ h) (hstart.symm ▸ hfirst.le)

/-- The first six lines. -/
def clearOps : List ByteOp :=
  [.alu .sub t2 zero (.imm 4), .alu .add a3 a0 (.plain a1), .alu .add t0 a0 (.imm 3),
    .alu .and t1 a3 (.plain t2), .alu .and t0 t0 (.plain t2), .alu .slt t2 t0 (.plain t1)]

theorem rounded_clearOps (hdst : (c.regs.get a0).toNat = dst) (hn : (c.regs.get a1).toNat = n)
    (hrange : dst + n ≤ taskSize) : Rounded (c.execAll clearOps) dst n := by
  have hle := hrange
  unfold taskSize at hle
  have ha3 : c.regs.get a0 + c.regs.get a1 = BitVec.ofNat 32 (dst + n) := by
    apply BitVec.eq_of_toNat_eq
    rw [BitVec.toNat_add, BitVec.toNat_ofNat, hdst, hn]
  have hplain : (Src.plain a1).value .add (c.exec (.alu .sub t2 zero (.imm 4))).regs =
      c.regs.get a1 := Src.value_plain _ _ _
  constructor
  · show c.regs.get a0 + (Src.plain a1).value .add _ = _
    rw [hplain, ha3]
  · show ((c.regs.get a0 + 3) &&& (Src.plain t2).value .and _).toNat = _
    rw [Src.value_plain]
    show ((c.regs.get a0 + 3) &&& (0 - 4)).toNat = _
    rw [toNat_and_neg_four, BitVec.toNat_add, hdst, Nat.mod_eq_of_lt (by show dst + 3 < _; omega)]
    rfl
  · show ((c.regs.get a0 + (Src.plain a1).value .add _) &&& (Src.plain t2).value .and _).toNat = _
    rw [Src.value_plain, Src.value_plain]
    show ((c.regs.get a0 + c.regs.get a1) &&& (0 - 4)).toNat = _
    rw [ha3, toNat_and_neg_four, BitVec.toNat_ofNat, Nat.mod_eq_of_lt (by omega)]
  · exact hrange

/-- What the routine does, whatever the registers hold. -/
theorem clearUser_returns (hdst : (c.regs.get a0).toNat = dst) (hn : (c.regs.get a1).toNat = n)
    (hrange : dst + n ≤ taskSize) (hfirst : FirstFault writable dst fault) :
    (ByteRoutine.mk clearUser base (storesTo writable)).Returns c
      (Cleared c.mem dst (min fault (stop dst n (c.regs.get t3).toNat))
        (if fault < stop dst n (c.regs.get t3).toNat then
          BitVec.ofNat 32 (dst + n) - BitVec.ofNat 32 fault
        else 0)) := by
  have hrounded := rounded_clearOps hdst hn hrange
  have hgoes : (ByteRoutine.mk clearUser base (storesTo writable)).GoesAll c clearOps :=
    ⟨ByteRoutine.goes_alu, ByteRoutine.goes_alu, ByteRoutine.goes_alu, ByteRoutine.goes_alu,
      ByteRoutine.goes_alu, ByteRoutine.goes_alu, trivial⟩
  have hclearing : Clearing (c.execAll clearOps) c.mem dst dst (c.execAll clearOps) := by
    refine ⟨hdst, fun _ _ => rfl, ?_⟩
    rw [zeroed, Nat.sub_self, ByteMemory.put_zero]
    rfl
  apply ByteRoutine.Comes.ops clearOps rfl hgoes
  exact hrounded.loops hfirst hclearing compare_t2

end

/-! ## When it is right -/

/-- Zeros are written up to the first fault or to the end, and nothing else is, and the count is of
every byte of the region from the fault on, or 0 without one. -/
structure RegionCleared (m : ByteMemory) (dst n fault : Nat) (s : ByteState) : Prop where
  mem_eq : s.mem = zeroed m dst (min fault (dst + n))
  no_fault : dst + n ≤ fault → s.regs.get a3 = 0
  covers : fault < dst + n → dst + n - fault ≤ (s.regs.get a3).toNat

/-- The routine does so in any memory. -/
def ClearCorrect (base : Word) (writable : Nat → Bool) (regs : RegFile) (fault : Nat) : Prop :=
  ∀ m, (ByteRoutine.mk clearUser base (storesTo writable)).Returns ⟨regs, m⟩
    (RegionCleared m (regs.get a0).toNat (regs.get a1).toNat fault)

/-- There are no bytes after the last word, or the first fault comes no later than they do, or the
last loop ends where the region does, or it runs into a fault that is no further. -/
def ClearsWhen (dst n t3 fault : Nat) : Prop :=
  tailStart dst n = dst + n ∨ fault ≤ tailStart dst n ∨ max (tailStart dst n + 1) t3 = dst + n ∨
    (fault < t3 ∧ fault ≤ dst + n)

theorem clearsWhen_iff {dst n t3 fault : Nat} :
    ClearsWhen dst n t3 fault ↔
      stop dst n t3 = dst + n ∨ (fault < stop dst n t3 ∧ fault ≤ dst + n) := by
  have hstart := @tailStart_le dst n
  unfold ClearsWhen stop
  split
  · next htail => exact ⟨fun _ => .inl rfl, fun _ => .inl htail⟩
  · omega

/-- Where there are ones before, zeros tell how far they go. -/
theorem zeroed_inj {dst p q : Nat} (hp : dst ≤ p) (hq : dst ≤ q)
    (h : zeroed (fun _ => 1) dst p = zeroed (fun _ => 1) dst q) : p = q := by
  have hbyte : ∀ {p}, dst ≤ p → ∀ x, dst ≤ x → (zeroed (fun _ => 1) dst p x = 0 ↔ x < p) := by
    intro p hp x hx
    unfold zeroed ByteMemory.put
    dsimp only
    split
    · exact ⟨fun _ => by omega, fun _ => rfl⟩
    · exact ⟨fun hone => absurd hone (by decide), fun hlt => by omega⟩
  have hiff : ∀ x, dst ≤ x → (x < p ↔ x < q) := by
    intro x hx
    rw [← hbyte hp x hx, ← hbyte hq x hx, h]
  have hleft := hiff p hp
  have hright := hiff q hq
  omega

/-- With the last loop's end at `last`. -/
theorem clearCorrect_iff_last {base : Word} {writable : Nat → Bool} {regs : RegFile}
    {dst n fault last : Nat} (hdst : (regs.get a0).toNat = dst) (hn : (regs.get a1).toNat = n)
    (hrange : dst + n ≤ taskSize) (hle : dst ≤ fault) (hlast : dst ≤ last)
    (hreturns : ∀ m, (ByteRoutine.mk clearUser base (storesTo writable)).Returns ⟨regs, m⟩
      (Cleared m dst (min fault last)
        (if fault < last then BitVec.ofNat 32 (dst + n) - BitVec.ofNat 32 fault else 0))) :
    ClearCorrect base writable regs fault ↔
      last = dst + n ∨ (fault < last ∧ fault ≤ dst + n) := by
  unfold ClearCorrect
  rw [hdst, hn]
  unfold taskSize at hrange
  have hcount : fault ≤ dst + n →
      (BitVec.ofNat 32 (dst + n) - BitVec.ofNat 32 fault).toNat = dst + n - fault := by
    intro hfault
    rw [BitVec.toNat_sub, BitVec.toNat_ofNat, BitVec.toNat_ofNat]
    omega
  constructor
  · intro hcorrect
    obtain ⟨s, hcleared, hregion⟩ := (hreturns fun _ => 1).exists_and (hcorrect fun _ => 1)
    have hcovers := hregion.covers
    have hupTo := zeroed_inj (by omega) (by omega) (hcleared.mem_eq.symm.trans hregion.mem_eq)
    by_cases hlt : fault < last
    · exact .inr ⟨hlt, by omega⟩
    · -- The loops end before the fault, and the count is 0.
      have hzero : (s.regs.get a3).toNat = 0 := by
        rw [hcleared.a3_eq, if_neg hlt]
        rfl
      exact .inl (by omega)
  · intro hwhen m
    apply (hreturns m).mono
    intro s hcleared
    constructor
    · rw [hcleared.mem_eq]
      congr 1
      omega
    · intro hnone
      rw [hcleared.a3_eq]
      split
      · have hfault : fault = dst + n := by omega
        rw [hfault]
        exact sub_self _
      · rfl
    · intro hsome
      have hlt : fault < last := by omega
      rw [hcleared.a3_eq, if_pos hlt, hcount (by omega)]

theorem clearCorrect_iff {base : Word} {writable : Nat → Bool} {regs : RegFile} {dst n fault : Nat}
    (hdst : (regs.get a0).toNat = dst) (hn : (regs.get a1).toNat = n) (hrange : dst + n ≤ taskSize)
    (hfirst : FirstFault writable dst fault) :
    ClearCorrect base writable regs fault ↔ ClearsWhen dst n (regs.get t3).toNat fault := by
  have hstart := @tailStart_le dst n
  have hstop : dst ≤ stop dst n (regs.get t3).toNat := by
    unfold stop
    split
    · omega
    · omega
  rw [clearsWhen_iff]
  exact clearCorrect_iff_last hdst hn hrange hfirst.le hstop fun m =>
    clearUser_returns hdst hn hrange hfirst

/-- **`__clear_user`.** Whatever the region and whichever pages cannot be written, the routine does
what it is for *if and only if* there are no bytes after the last word, or the first fault comes
before the last loop has made a turn, or `t3` happens to end the loop where the region ends, or to
let it run into a fault that is no further. -/
theorem clearUser_correct_iff (base : Word) (writable : Nat → Bool) (regs : RegFile) (fault : Nat)
    (hrange : (regs.get a0).toNat + (regs.get a1).toNat ≤ taskSize)
    (hfirst : FirstFault writable (regs.get a0).toNat fault) :
    ClearCorrect base writable regs fault ↔
      ClearsWhen (regs.get a0).toNat (regs.get a1).toNat (regs.get t3).toNat fault :=
  clearCorrect_iff rfl rfl hrange hfirst

/-- Six bytes at 0x1000, with 0 in `t3`. -/
def sixBytes : RegFile := ⟨fun r => if r = a0 then 0x1000 else if r = a1 then 6 else 0⟩

theorem sixBytes_firstFault : FirstFault (fun _ => true) (sixBytes.get a0).toNat (2 ^ 32) where
  le := by decide
  le_end := le_rfl
  before _ _ _ := rfl
  at_fault h := absurd h (Nat.lt_irrefl _)

theorem clearUser_correct_iff_sixBytes :
    ClearCorrect 0 (fun _ => true) sixBytes (2 ^ 32) ↔ ClearsWhen 0x1000 6 0 (2 ^ 32) :=
  clearUser_correct_iff 0 (fun _ => true) sixBytes (2 ^ 32) (by decide) sixBytes_firstFault

/-- The last byte of six is not written, without a fault. -/
theorem clearUser_leaves_byte :
    ¬ ∀ (regs : RegFile) (fault : Nat), (regs.get a0).toNat + (regs.get a1).toNat ≤ taskSize →
      FirstFault (fun _ => true) (regs.get a0).toNat fault →
        ClearCorrect 0 (fun _ => true) regs fault := by
  intro hall
  have hcorrect := hall sixBytes (2 ^ 32) (by decide) sixBytes_firstFault
  have hwhen := (clearCorrect_iff rfl rfl (by decide) sixBytes_firstFault).mp hcorrect
  revert hwhen
  unfold ClearsWhen
  decide

end XrLinux.Linux.ClearUser
