import XrLinux.Linux.Regs
import XrLinux.Machine.Bytes

/-!
# Linux — copies from and to the user

`__asm_copy_to_user` of `lib/uaccess.S`. Any access may fault; the exception table sends the routine
to its exit for faults then.
-/

namespace XrLinux.Linux.Uaccess

open Machine

/-! ## Copies -/

/-- `__asm_copy_to_user`. -/
def asmCopyToUser : List ByteLine :=
  [.op (.alu .add t5 a0 (.plain a2)),
    .branch .eq a2 8,
    -- 1:
    .fixup (.load .byte t0 a1 0) 10,
    .op (.alu .add a1 a1 (.imm 1)),
    .fixup (.store .byte a0 0 t0) 10,
    .op (.alu .add a0 a0 (.imm 1)),
    .op (.alu .sub a2 a2 (.imm 1)),
    .branch .ne a2 2,
    -- .Lout_copy_user:
    .op (.alu .add a3 zero (.imm 0)),
    .jump lr,
    -- .Lcopy_user_fail:
    .op (.alu .sub a3 t5 (.plain a0)),
    .jump lr]

/-- `__asm_copy_from_user`, an alias. -/
def asmCopyFromUser : List ByteLine := asmCopyToUser

/-- The first `k` bytes from `src` copied to `dst`, one after the other. -/
def copyBytes (m : ByteMemory) (dst src : Word) : Nat → ByteMemory
  | 0 => m
  | k + 1 =>
    let m := copyBytes m dst src k
    m.write8 (dst + BitVec.ofNat 32 k).toNat (m (src + BitVec.ofNat 32 k).toNat)

/-- Neither access for byte `i` faults. -/
def Copyable (allowed : Access → Bool) (dst src : Word) (i : Nat) : Prop :=
  allowed ⟨false, (src + BitVec.ofNat 32 i).toNat, .byte⟩ = true ∧
    allowed ⟨true, (dst + BitVec.ofNat 32 i).toNat, .byte⟩ = true

section
variable {base : Word} {allowed : Access → Bool} {c s : ByteState} {k : Nat}

/-- The loop with `k` bytes copied. -/
structure Copying (c : ByteState) (k : Nat) (s : ByteState) : Prop where
  lr_eq : s.regs.get lr = c.regs.get lr
  t5_eq : s.regs.get t5 = c.regs.get a0 + c.regs.get a2
  a0_eq : s.regs.get a0 = c.regs.get a0 + BitVec.ofNat 32 k
  a1_eq : s.regs.get a1 = c.regs.get a1 + BitVec.ofNat 32 k
  a2_eq : s.regs.get a2 = c.regs.get a2 - BitVec.ofNat 32 k
  mem_eq : s.mem = copyBytes c.mem (c.regs.get a0) (c.regs.get a1) k

/-- What is returned with `k` bytes copied. -/
def Copied (c : ByteState) (k : Nat) (s : ByteState) : Prop :=
  s.mem = copyBytes c.mem (c.regs.get a0) (c.regs.get a1) k ∧
    s.regs.get a3 = BitVec.ofNat 32 ((c.regs.get a2).toNat - k)

theorem write_read_byte (m : ByteMemory) (addr addr' : Nat) :
    Size.byte.write m addr (BitVec.ofNat 32 (Size.byte.read m addr')).toNat =
      m.write8 addr (m addr') := by
  have hlt : (m addr').toNat < 2 ^ 32 := Nat.lt_of_lt_of_le (m addr').isLt (by decide)
  rw [Size.write, Size.read, BitVec.toNat_ofNat, Nat.mod_eq_of_lt hlt, BitVec.ofNat_toNat,
    BitVec.setWidth_eq]

theorem Copying.src_addr (h : Copying c k s) :
    (s.regs.get a1 + 0).toNat = (c.regs.get a1 + BitVec.ofNat 32 k).toNat := by
  rw [add_zero, h.a1_eq]

theorem Copying.dst_addr (h : Copying c k s) :
    (s.regs.get a0 + 0).toNat = (c.regs.get a0 + BitVec.ofNat 32 k).toNat := by
  rw [add_zero, h.a0_eq]

/-- The store comes after two instructions. -/
theorem Copying.goes_store_iff (h : Copying c k s) :
    (ByteRoutine.mk asmCopyToUser base allowed).Goes
        ((s.exec (.load .byte t0 a1 0)).exec (.alu .add a1 a1 (.imm 1))) (.store .byte a0 0 t0) ↔
      allowed ⟨true, (c.regs.get a0 + BitVec.ofNat 32 k).toNat, .byte⟩ = true := by
  have haddr : (((s.exec (.load .byte t0 a1 0)).exec (.alu .add a1 a1 (.imm 1))).regs.get a0 +
      0).toNat = (c.regs.get a0 + BitVec.ofNat 32 k).toNat := h.dst_addr
  rw [ByteRoutine.goes_store_iff haddr]
  exact ⟨fun hgoes => hgoes.2, fun hstore => ⟨Nat.mod_one _, hstore⟩⟩

/-- One turn of the loop up to its branch. -/
def copyTurn (s : ByteState) : ByteState :=
  s.execAll [.load .byte t0 a1 0, .alu .add a1 a1 (.imm 1), .store .byte a0 0 t0,
    .alu .add a0 a0 (.imm 1), .alu .sub a2 a2 (.imm 1)]

theorem Copying.turn (h : Copying c k s) : Copying c (k + 1) (copyTurn s) := by
  have hnext : ∀ w : Word, w + BitVec.ofNat 32 k + 1 = w + BitVec.ofNat 32 (k + 1) := by
    intro w
    rw [add_assoc, BitVec.ofNat_add k 1]
    rfl
  constructor
  · exact h.lr_eq
  · exact h.t5_eq
  · show s.regs.get a0 + 1 = _
    rw [h.a0_eq, hnext]
  · show s.regs.get a1 + 1 = _
    rw [h.a1_eq, hnext]
  · show s.regs.get a2 - 1 = _
    rw [h.a2_eq, sub_sub, BitVec.ofNat_add k 1]
    rfl
  · show Size.byte.write s.mem (s.regs.get a0 + 0).toNat
      (BitVec.ofNat 32 (Size.byte.read s.mem (s.regs.get a1 + 0).toNat)).toNat = _
    rw [write_read_byte, h.src_addr, h.dst_addr, h.mem_eq]
    rfl

/-- A byte is copied. -/
theorem Copying.copy {Q : ByteCpu → Prop} (h : Copying c k s)
    (hok : Copyable allowed (c.regs.get a0) (c.regs.get a1) k)
    (rest : (ByteRoutine.mk asmCopyToUser base allowed).Comes 7 (copyTurn s) Q) :
    (ByteRoutine.mk asmCopyToUser base allowed).Comes 2 s Q := by
  apply ByteRoutine.Comes.fixup_goes rfl
  · exact (ByteRoutine.goes_load_iff h.src_addr).mpr ⟨Nat.mod_one _, hok.1⟩
  apply ByteRoutine.Comes.op rfl ByteRoutine.goes_alu
  apply ByteRoutine.Comes.fixup_goes rfl
  · exact h.goes_store_iff.mpr hok.2
  apply ByteRoutine.Comes.op rfl ByteRoutine.goes_alu
  exact ByteRoutine.Comes.op rfl ByteRoutine.goes_alu rest

/-- A fault on either side goes to the exit with `a0` at the byte. -/
theorem Copying.fault (h : Copying c k s) (hk : k ≤ (c.regs.get a2).toNat)
    (hfault : ¬ Copyable allowed (c.regs.get a0) (c.regs.get a1) k) :
    (ByteRoutine.mk asmCopyToUser base allowed).Comes 2 s fun cpu =>
      cpu.left = some (c.regs.get lr) ∧ Copied c k cpu.state := by
  have hcount : c.regs.get a0 + c.regs.get a2 - (c.regs.get a0 + BitVec.ofNat 32 k) =
      BitVec.ofNat 32 ((c.regs.get a2).toNat - k) := by
    rw [add_sub_add_left_eq_sub]
    apply BitVec.eq_of_toNat_eq
    have hlt := (c.regs.get a2).isLt
    rw [BitVec.toNat_sub, BitVec.toNat_ofNat, BitVec.toNat_ofNat]
    omega
  have hexit : ∀ s' : ByteState, s'.mem = s.mem → s'.regs.get lr = s.regs.get lr →
      s'.regs.get t5 = s.regs.get t5 → s'.regs.get a0 = s.regs.get a0 →
      (ByteRoutine.mk asmCopyToUser base allowed).Comes 10 s' fun cpu =>
        cpu.left = some (c.regs.get lr) ∧ Copied c k cpu.state := by
    intro s' hmem hlr ht5 ha0
    apply ByteRoutine.Comes.op rfl ByteRoutine.goes_alu
    apply ByteRoutine.Comes.jump rfl
    refine ⟨congrArg some (hlr.trans h.lr_eq), hmem.trans h.mem_eq, ?_⟩
    show s'.regs.get t5 - (Src.plain a0).value .sub s'.regs = _
    rw [Src.value_plain, ht5, ha0, h.t5_eq, h.a0_eq, hcount]
  by_cases hload : allowed ⟨false, (c.regs.get a1 + BitVec.ofNat 32 k).toNat, .byte⟩ = true
  · have hstore : ¬ allowed ⟨true, (c.regs.get a0 + BitVec.ofNat 32 k).toNat, .byte⟩ = true :=
      fun hstore => hfault ⟨hload, hstore⟩
    apply ByteRoutine.Comes.fixup_goes rfl
    · exact (ByteRoutine.goes_load_iff h.src_addr).mpr ⟨Nat.mod_one _, hload⟩
    apply ByteRoutine.Comes.op rfl ByteRoutine.goes_alu
    apply ByteRoutine.Comes.fixup_traps rfl
    · exact fun hgoes => hstore (h.goes_store_iff.mp hgoes)
    exact hexit _ rfl rfl rfl rfl
  · apply ByteRoutine.Comes.fixup_traps rfl
    · intro hgoes
      exact hload ((ByteRoutine.goes_load_iff h.src_addr).mp hgoes).2
    exact hexit s rfl rfl rfl rfl

/-- All bytes are copied. -/
theorem Copying.done (h : Copying c k s) (hk : k = (c.regs.get a2).toNat) :
    (ByteRoutine.mk asmCopyToUser base allowed).Comes 8 s fun cpu =>
      cpu.left = some (c.regs.get lr) ∧ Copied c k cpu.state := by
  apply ByteRoutine.Comes.op rfl ByteRoutine.goes_alu
  apply ByteRoutine.Comes.jump rfl
  refine ⟨congrArg some h.lr_eq, h.mem_eq, ?_⟩
  rw [← hk, Nat.sub_self]
  rfl

/-- What is left of the count decides the branch. -/
theorem Copying.a2_ne_zero (h : Copying c k s) (hk : k ≤ (c.regs.get a2).toNat) :
    s.regs.get a2 ≠ 0 ↔ k ≠ (c.regs.get a2).toNat := by
  have hlt := (c.regs.get a2).isLt
  rw [h.a2_eq, Ne, Ne, ← BitVec.toNat_inj, BitVec.toNat_sub, BitVec.toNat_ofNat]
  show ¬ _ = 0 ↔ _
  omega

/-- The loop, up to byte `j`. -/
theorem Copying.loop {j : Nat} (hj : j ≤ (c.regs.get a2).toNat)
    (hok : ∀ i < j, Copyable allowed (c.regs.get a0) (c.regs.get a1) i)
    (hstop : j < (c.regs.get a2).toNat → ¬ Copyable allowed (c.regs.get a0) (c.regs.get a1) j)
    (h : Copying c k s) (hk : k ≤ j) (hlt : k < (c.regs.get a2).toNat) :
    (ByteRoutine.mk asmCopyToUser base allowed).Comes 2 s fun cpu =>
      cpu.left = some (c.regs.get lr) ∧ Copied c j cpu.state := by
  obtain ⟨turns, rfl⟩ := Nat.exists_eq_add_of_le hk
  induction turns generalizing k s with
  | zero => exact h.fault hj (hstop hlt)
  | succ turns ih =>
    have hadd : k + (turns + 1) = k + 1 + turns := by omega
    rw [hadd] at hj hok hstop hk ⊢
    apply h.copy (hok k (by omega))
    have hnext := h.turn
    have hne := hnext.a2_ne_zero (by omega)
    by_cases hlast : k + 1 = (c.regs.get a2).toNat
    · have hzero : Cond.ne.test ((copyTurn s).regs.get a2) = false := by
        rw [Bool.eq_false_iff, Ne, Cond.test_ne_iff, hne]
        exact fun hcontra => hcontra hlast
      apply ByteRoutine.Comes.not_taken rfl hzero
      obtain rfl : turns = 0 := by omega
      exact hnext.done hlast
    · apply ByteRoutine.Comes.taken rfl ((Cond.test_ne_iff _).mpr (hne.mpr hlast))
      exact ih hnext (by omega) hj hok hstop (by omega)

end

/-- Where a property first fails below a bound. -/
theorem exists_first (P : Nat → Prop) (n : Nat) :
    ∃ j ≤ n, (∀ i < j, P i) ∧ (j < n → ¬ P j) := by
  induction n with
  | zero => exact ⟨0, le_rfl, fun i hi => absurd hi (Nat.not_lt_zero i), fun h => absurd h (by omega)⟩
  | succ n ih =>
    obtain ⟨j, hj, hall, hstop⟩ := ih
    by_cases hend : j = n ∧ P n
    · refine ⟨n + 1, le_rfl, fun i hi => ?_, fun h => absurd h (by omega)⟩
      rcases Nat.lt_succ_iff_lt_or_eq.mp hi with hlt | rfl
      · exact hall i (hend.1 ▸ hlt)
      · exact hend.2
    · refine ⟨j, by omega, hall, fun _ hPj => ?_⟩
      by_cases hjn : j = n
      · exact hend ⟨hjn, hjn ▸ hPj⟩
      · exact hstop (by omega) hPj

/-- **Copies from and to the user.** Whichever accesses fault, the bytes before the first one that
faults on either side are copied in order and no others are written, and the number of bytes that
have not been copied is returned. -/
theorem asmCopy_correct (base : Word) (allowed : Access → Bool) (c : ByteState) :
    ∃ k ≤ (c.regs.get a2).toNat,
      (∀ i < k, Copyable allowed (c.regs.get a0) (c.regs.get a1) i) ∧
      (k < (c.regs.get a2).toNat → ¬ Copyable allowed (c.regs.get a0) (c.regs.get a1) k) ∧
      (ByteRoutine.mk asmCopyToUser base allowed).Returns c (Copied c k) ∧
      (ByteRoutine.mk asmCopyFromUser base allowed).Returns c (Copied c k) := by
  obtain ⟨k, hk, hall, hstop⟩ :=
    exists_first (Copyable allowed (c.regs.get a0) (c.regs.get a1)) (c.regs.get a2).toNat
  have hreturns : (ByteRoutine.mk asmCopyToUser base allowed).Returns c (Copied c k) := by
    apply ByteRoutine.Comes.op rfl ByteRoutine.goes_alu
    have hcopying : Copying c 0 (c.exec (.alu .add t5 a0 (.plain a2))) := by
      constructor
      · rfl
      · show c.regs.get a0 + (Src.plain a2).value .add c.regs = _
        rw [Src.value_plain]
      · exact (add_zero _).symm
      · exact (add_zero _).symm
      · exact (sub_zero _).symm
      · rfl
    have ha2 : (c.exec (.alu .add t5 a0 (.plain a2))).regs.get a2 = c.regs.get a2 := rfl
    by_cases hzero : c.regs.get a2 = 0
    · apply ByteRoutine.Comes.taken rfl ((Cond.test_eq_iff _).mpr (ha2.trans hzero))
      have hnone : (c.regs.get a2).toNat = 0 := congrArg BitVec.toNat hzero
      obtain rfl : k = 0 := by omega
      exact hcopying.done hnone.symm
    · have htest : Cond.eq.test ((c.exec (.alu .add t5 a0 (.plain a2))).regs.get a2) = false := by
        rw [Bool.eq_false_iff, Ne, Cond.test_eq_iff, ha2]
        exact hzero
      apply ByteRoutine.Comes.not_taken rfl htest
      have hpos : 0 < (c.regs.get a2).toNat := by
        rw [Nat.pos_iff_ne_zero]
        exact fun h => hzero (BitVec.eq_of_toNat_eq h)
      exact hcopying.loop hk hall hstop (Nat.zero_le k) hpos
  exact ⟨k, hk, hall, hstop, hreturns, hreturns⟩

end XrLinux.Linux.Uaccess
