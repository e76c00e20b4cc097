import XrLinux.Linux.Regs
import XrLinux.Machine.Bytes

/-!
# Linux — `lib/memset.S`

`__memset`: bytes up to the first word, words, and the bytes left. The loop by words is unrolled and
is first entered somewhere in it, with `t0` so far ahead of the destination that the offset of the
first store makes up for it. The routine is run where it may store to nothing but the bytes of its
object.
-/

namespace XrLinux.Linux.Memset

open Machine

/-- `mov long [t0 + offset], a1`, for as many words. -/
def fills (offset : Nat) : Nat → List ByteOp
  | 0 => []
  | count + 1 => .store .long t0 (BitVec.ofNat 32 offset) a1 :: fills (offset + 4) count

/-- A loop by bytes, with its last register and its label. -/
def byteLoop (r : Reg) (label : Nat) : List ByteLine :=
  [.op (.store .byte t0 0 a1),
    .op (.alu .add t0 t0 (.imm 1)),
    .op (.alu .slt r t0 (.plain a3)),
    .branch .ne r label]

/-- Up to label 1. -/
def choice : List ByteLine :=
  [.op (.alu .add t0 a0 (.plain zero)),
    .op (.alu .slt a3 a2 (.imm 16)),
    .branch .ne a3 67,
    .op (.alu .sub t1 zero (.imm 4)),
    .op (.alu .add a3 a0 (.imm 3)),
    .op (.alu .and a3 a3 (.plain t1)),
    .op (.alu .sub t1 a3 (.plain t0)),
    .branch .eq t1 14,
    .op (.alu .sub t1 a3 (.plain t0))]

/-- The value in all bytes of a word. -/
def broadcast : List ByteOp :=
  [.alu .and a1 a1 (.imm 0xff),
    .alu .add a3 zero (.reg a1 .lsh 8),
    .alu .or a1 a3 (.plain a1),
    .alu .add a3 zero (.reg a1 .lsh 16),
    .alu .or a1 a3 (.plain a1)]

/-- The end of the words, and their number modulo 32. -/
def wordEnd : List ByteOp :=
  [.alu .sub t1 zero (.imm 4),
    .alu .and t1 a2 (.plain t1),
    .alu .add a3 t0 (.plain t1),
    .alu .and t1 t1 (.imm 127)]

/-- The entry into the loop, at label 3 of what is linked at `base`. -/
def entry (base : Word) (pcrelLo : BitVec 16) : List ByteOp :=
  [.alu .sub t1 zero (.plain t1),
    .alu .add t1 t1 (.imm 128),
    .alu .sub t0 t0 (.plain t1),
    .adr t2 (base + 4 * 31 - pcrelLo.setWidth 32),
    .alu .add t2 t2 (.imm pcrelLo),
    .alu .add t2 t2 (.plain t1)]

/-- From the update of the count up to label 3. -/
def words (base : Word) (pcrelLo : BitVec 16) : List ByteLine :=
  .op (.alu .sub a2 a2 (.plain t1)) :: (broadcast ++ wordEnd).map .op ++
    .branch .eq t1 31 :: (entry base pcrelLo).map .op ++ [.goto t2]

/-- The end of a turn of the loop by words, and what comes up to label 5. -/
def trailing : List ByteLine :=
  [.op (.alu .add t0 t0 (.imm 128)),
    .op (.alu .slt t1 t0 (.plain a3)),
    .branch .ne t1 31,
    .op (.alu .and a2 a2 (.imm 3)),
    -- 4:
    .branch .eq a2 73,
    .op (.alu .add a3 t0 (.plain a2))]

/-- `__memset`, with its labels 1, 2, 3, 4, 5 and 6 at lines 9, 14, 31, 67, 69 and 73. -/
def memset (base : Word) (pcrelLo : BitVec 16) : List ByteLine :=
  choice ++ byteLoop t2 9 ++ words base pcrelLo ++ (fills 0x00 32).map .op ++ trailing ++
    byteLoop t1 69 ++ [.op (.alu .add a3 a0 (.plain zero)), .jump lr]

/-- Stores to the bytes of the object. -/
def ofObject (dst n : Nat) (access : Access) : Bool :=
  access.isStore ∧ dst ≤ access.addr ∧ access.addr + access.size.bytes ≤ dst + n

/-- The routine as it is linked at `base`. -/
def routine (base : Word) (pcrelLo : BitVec 16) (dst n : Nat) : ByteRoutine :=
  ⟨memset base pcrelLo, base, ofObject dst n⟩

/-- The first `done` bytes are filled, and `t0` with an offset is where the next one is. -/
structure Filling (c : ByteState) (dst : Nat) (fill : BitVec 8) (offset done : Nat)
    (s : ByteState) : Prop where
  lr_eq : s.regs.get lr = c.regs.get lr
  a0_eq : s.regs.get a0 = c.regs.get a0
  low_eq : BitVec.ofNat 8 (s.regs.get a1).toNat = fill
  t0_toNat : (s.regs.get t0 + BitVec.ofNat 32 offset).toNat = dst + done
  mem_eq : s.mem = c.mem.put dst done fun _ => fill

section
variable {base : Word} {pcrelLo : BitVec 16} {c s : ByteState} {dst n k offset done : Nat}
  {fill : BitVec 8} {r : Reg} {Q : ByteCpu → Prop}

/-! ## One instruction -/

/-- Registers that only the loops are interested in. -/
def scratch : List Reg := [t1, t2, a2, a3]

theorem scratch_ne : ∀ r ∈ scratch, r ≠ zero ∧ lr ≠ r ∧ a0 ≠ r ∧ a1 ≠ r ∧ t0 ≠ r := by decide

theorem Filling.setReg (h : Filling c dst fill offset done s) (value : Word) (hr : r ∈ scratch) :
    Filling c dst fill offset done (s.setReg r value) where
  lr_eq := (RegFile.get_set_of_ne (scratch_ne r hr).2.1).trans h.lr_eq
  a0_eq := (RegFile.get_set_of_ne (scratch_ne r hr).2.2.1).trans h.a0_eq
  low_eq :=
    (congrArg (fun w : Word => BitVec.ofNat 8 w.toNat)
      (RegFile.get_set_of_ne (scratch_ne r hr).2.2.2.1)).trans h.low_eq
  t0_toNat :=
    (congrArg (fun w : Word => (w + BitVec.ofNat 32 offset).toNat)
      (RegFile.get_set_of_ne (scratch_ne r hr).2.2.2.2)).trans h.t0_toNat
  mem_eq := h.mem_eq

/-- The next bytes are filled, if all bytes that are stored are the value. -/
theorem Filling.store (h : Filling c dst fill offset done s) {size : Size}
    (hvalue : ∀ i < size.bytes, BitVec.ofNat 8 ((s.regs.get a1).toNat / 256 ^ i) = fill)
    (hfits : done + size.bytes ≤ n) (hlt : dst + n < 2 ^ 32)
    (haligned : (dst + done) % size.bytes = 0) :
    (routine base pcrelLo dst n).Goes s (.store size t0 (BitVec.ofNat 32 offset) a1) ∧
      Filling c dst fill (offset + size.bytes) (done + size.bytes)
        (s.exec (.store size t0 (BitVec.ofNat 32 offset) a1)) := by
  refine ⟨(ByteRoutine.goes_store_iff h.t0_toNat).mpr ⟨haligned, ?_⟩, ?_⟩
  · show decide (true = true ∧ dst ≤ dst + done ∧ dst + done + size.bytes ≤ dst + n) = true
    rw [decide_eq_true_iff]
    exact ⟨rfl, by omega, by omega⟩
  · refine ⟨h.lr_eq, h.a0_eq, h.low_eq, ?_, ?_⟩
    · show (s.regs.get t0 + BitVec.ofNat 32 (offset + size.bytes)).toNat = _
      rw [BitVec.ofNat_add, ← add_assoc, BitVec.toNat_add, h.t0_toNat, BitVec.toNat_ofNat]
      omega
    · show size.write s.mem (s.regs.get t0 + BitVec.ofNat 32 offset).toNat (s.regs.get a1).toNat = _
      rw [h.t0_toNat, h.mem_eq, Size.write_eq_put, ByteMemory.put_congr _ hvalue,
        ByteMemory.put_put c.mem dst done size.bytes fun _ => fill]

/-- The pointer goes on by the offset. -/
theorem Filling.add (h : Filling c dst fill offset done s) {imm : BitVec 16}
    (himm : imm.setWidth 32 = BitVec.ofNat 32 offset) :
    Filling c dst fill 0 done (s.exec (.alu .add t0 t0 (.imm imm))) where
  lr_eq := h.lr_eq
  a0_eq := h.a0_eq
  low_eq := h.low_eq
  t0_toNat := by
    show (s.regs.get t0 + imm.setWidth 32 + 0).toNat = _
    rw [add_zero, himm, h.t0_toNat]
  mem_eq := h.mem_eq

theorem Filling.t0_toNat_zero (h : Filling c dst fill 0 done s) :
    (s.regs.get t0).toNat = dst + done := by
  have ht0 := h.t0_toNat
  rwa [show BitVec.ofNat 32 0 = (0 : Word) from rfl, add_zero] at ht0

/-- The comparison at the end of a turn. -/
theorem Filling.compare (h : Filling c dst fill 0 done s) (hr : r ∈ scratch) :
    Filling c dst fill 0 done (s.exec (.alu .slt r t0 (.plain a3))) ∧
      Cond.ne.test ((s.exec (.alu .slt r t0 (.plain a3))).regs.get r) =
        decide (dst + done < (s.regs.get a3).toNat) := by
  refine ⟨h.setReg _ hr, ?_⟩
  show Cond.ne.test ((s.setReg r _).regs.get r) = _
  rw [ByteState.setReg_get_self _ _ (scratch_ne r hr).1, Src.value_plain, test_ne_slt,
    h.t0_toNat_zero]

/-! ## The loops by bytes -/

/-- One turn, up to the branch. -/
def byteTurn (r : Reg) : List ByteOp :=
  [.store .byte t0 0 a1, .alu .add t0 t0 (.imm 1), .alu .slt r t0 (.plain a3)]

theorem Filling.runByte (h : Filling c dst fill 0 k s) (hr : r ∈ scratch) (hk : k < n)
    (hlt : dst + n < 2 ^ 32) :
    (routine base pcrelLo dst n).GoesAll s (byteTurn r) ∧
      Filling c dst fill 0 (k + 1) (s.execAll (byteTurn r)) ∧
      Cond.ne.test ((s.execAll (byteTurn r)).regs.get r) =
        decide (dst + (k + 1) < (s.regs.get a3).toNat) := by
  have hvalue : ∀ i < Size.byte.bytes, BitVec.ofNat 8 ((s.regs.get a1).toNat / 256 ^ i) = fill := by
    intro i hi
    obtain rfl : i = 0 := Nat.lt_one_iff.mp hi
    rw [Nat.pow_zero, Nat.div_one, h.low_eq]
  obtain ⟨hgoes, h1⟩ := @Filling.store base pcrelLo c s dst n 0 k fill h .byte hvalue hk hlt
    (Nat.mod_one _)
  have hone : (1 : BitVec 16).setWidth 32 = BitVec.ofNat 32 (0 + Size.byte.bytes) := rfl
  have h2 := h1.add hone
  obtain ⟨h3, htest⟩ := h2.compare hr
  exact ⟨⟨hgoes, ByteRoutine.goes_alu, ByteRoutine.goes_alu, trivial⟩, h3, htest⟩

theorem byteTurn_get {q : Reg} (hq : q ≠ r) (ht0 : q ≠ t0) :
    (s.execAll (byteTurn r)).regs.get q = s.regs.get q :=
  (RegFile.get_set_of_ne hq).trans (RegFile.get_set_of_ne ht0)

/-- A whole loop, up to `k'` where `a3` points. -/
theorem Filling.runByteLoop {k' line : Nat}
    (hcode : (memset base pcrelLo).drop line =
      (byteTurn r).map .op ++ .branch .ne r line :: (memset base pcrelLo).drop (line + 4))
    (hr : r ∈ scratch) (hlt : dst + n < 2 ^ 32) (h : Filling c dst fill 0 k s)
    (ha3 : (s.regs.get a3).toNat = dst + k') (hne : a3 ≠ r) (hk : k < k') (hk' : k' ≤ n)
    (rest : ∀ s', Filling c dst fill 0 k' s' →
      (∀ q, q ≠ r → q ≠ t0 → s'.regs.get q = s.regs.get q) →
      (routine base pcrelLo dst n).Comes (line + 4) s' Q) :
    (routine base pcrelLo dst n).Comes line s Q := by
  have hbranch : (memset base pcrelLo)[line + 3]? = some (.branch .ne r line) := by
    rw [← List.head?_drop, ← List.drop_drop, hcode]
    rfl
  obtain ⟨turns, rfl⟩ := Nat.exists_eq_add_of_lt hk
  induction turns generalizing k s with
  | zero =>
    obtain ⟨hgoes, hnext, htest⟩ := @Filling.runByte base pcrelLo c s dst n k fill r h hr (by omega)
      hlt
    rw [ha3] at htest
    apply ByteRoutine.Comes.ops _ hcode hgoes
    apply ByteRoutine.Comes.not_taken hbranch (htest.trans (decide_eq_false (by omega)))
    exact rest _ hnext fun q hq ht0 => byteTurn_get hq ht0
  | succ turns ih =>
    obtain ⟨hgoes, hnext, htest⟩ := @Filling.runByte base pcrelLo c s dst n k fill r h hr (by omega)
      hlt
    have hadd : k + (turns + 1) + 1 = k + 1 + turns + 1 := by omega
    rw [hadd] at ha3 hk' rest
    rw [ha3] at htest
    apply ByteRoutine.Comes.ops _ hcode hgoes
    apply ByteRoutine.Comes.taken hbranch (htest.trans (decide_eq_true (by omega)))
    apply ih hnext
    · rw [byteTurn_get hne (by decide), ha3]
    · omega
    · exact hk'
    · intro s' hs' hkept
      apply rest s' hs'
      intro q hq ht0
      rw [hkept q hq ht0, byteTurn_get hq ht0]

/-! ## The loop by words -/

theorem fills_drop (offset count skip : Nat) :
    (fills offset (skip + count)).drop skip = fills (offset + 4 * skip) count := by
  induction skip generalizing offset with
  | zero => rw [Nat.zero_add]; rfl
  | succ skip ih =>
    have hadd : skip + 1 + count = skip + count + 1 := by omega
    have hoffset : offset + 4 * (skip + 1) = offset + 4 + 4 * skip := by omega
    rw [hadd, hoffset, ← ih]
    rfl

theorem fills_length (offset count : Nat) : (fills offset count).length = count := by
  induction count generalizing offset with
  | zero => rfl
  | succ count ih => rw [fills, List.length_cons, ih]

theorem fills_regs {count : Nat} : (s.execAll (fills offset count)).regs = s.regs := by
  induction count generalizing s offset with
  | zero => rfl
  | succ count ih => exact ih

/-- All bytes of `a1` are the value. -/
def WordFilled (fill : BitVec 8) (s : ByteState) : Prop :=
  ∀ i < 4, BitVec.ofNat 8 ((s.regs.get a1).toNat / 256 ^ i) = fill

theorem Filling.runFills {count : Nat} (h : Filling c dst fill offset done s)
    (hword : WordFilled fill s) (hfits : done + 4 * count ≤ n) (hlt : dst + n < 2 ^ 32)
    (haligned : (dst + done) % 4 = 0) :
    (routine base pcrelLo dst n).GoesAll s (fills offset count) ∧
      Filling c dst fill (offset + 4 * count) (done + 4 * count)
        (s.execAll (fills offset count)) := by
  induction count generalizing s offset done with
  | zero => exact ⟨trivial, h⟩
  | succ count ih =>
    obtain ⟨hgoes, hnext⟩ := @Filling.store base pcrelLo c s dst n offset done fill h .long hword
      (by show done + 4 ≤ n; omega) hlt haligned
    obtain ⟨hrest, hfilling⟩ := @ih (s.exec (.store .long t0 (BitVec.ofNat 32 offset) a1))
      (offset + 4) (done + 4) hnext hword (by omega) (by omega)
    have hoffset : offset + 4 + 4 * count = offset + 4 * (count + 1) := by omega
    have hdone : done + 4 + 4 * count = done + 4 * (count + 1) := by omega
    rw [hoffset, hdone] at hfilling
    exact ⟨⟨hgoes, hrest⟩, hfilling⟩

/-- The end of a turn. -/
theorem Filling.runTurnEnd {k' : Nat} (h : Filling c dst fill 128 k s)
    (ha3 : (s.regs.get a3).toNat = dst + k')
    (hagain : k < k' → ∀ s', Filling c dst fill 0 k s' →
      (∀ q, q ≠ t0 → q ≠ t1 → s'.regs.get q = s.regs.get q) →
      (routine base pcrelLo dst n).Comes 31 s' Q)
    (hdone : k = k' → ∀ s', Filling c dst fill 0 k s' →
      (∀ q, q ≠ t0 → q ≠ t1 → s'.regs.get q = s.regs.get q) →
      (routine base pcrelLo dst n).Comes 66 s' Q) (hle : k ≤ k') :
    (routine base pcrelLo dst n).Comes 63 s Q := by
  have hnext : Filling c dst fill 0 k (s.exec (.alu .add t0 t0 (.imm 128))) := h.add rfl
  obtain ⟨hcompare, htest⟩ := @Filling.compare c _ dst k fill t1 hnext (by decide)
  have hkept : ∀ q, q ≠ t0 → q ≠ t1 →
      ((s.exec (.alu .add t0 t0 (.imm 128))).exec (.alu .slt t1 t0 (.plain a3))).regs.get q =
        s.regs.get q := fun q ht0 ht1 =>
    (RegFile.get_set_of_ne ht1).trans (RegFile.get_set_of_ne ht0)
  have hlast : ((s.exec (.alu .add t0 t0 (.imm 128))).regs.get a3).toNat = dst + k' := ha3
  rw [hlast] at htest
  apply ByteRoutine.Comes.op rfl ByteRoutine.goes_alu
  apply ByteRoutine.Comes.op rfl ByteRoutine.goes_alu
  by_cases hlt : k < k'
  · apply ByteRoutine.Comes.taken rfl (htest.trans (decide_eq_true (by omega)))
    exact hagain hlt _ hcompare hkept
  · apply ByteRoutine.Comes.not_taken rfl (htest.trans (decide_eq_false (by omega)))
    exact hdone (by omega) _ hcompare hkept

/-- The loop from its label on, up to `k'` where `a3` points. -/
theorem Filling.runWords {k' : Nat} (hlt : dst + n < 2 ^ 32) (h : Filling c dst fill 0 k s)
    (hword : WordFilled fill s) (ha3 : (s.regs.get a3).toNat = dst + k') (hk : k < k')
    (hk' : k' ≤ n) (hdvd : 128 ∣ k' - k) (haligned : (dst + k) % 4 = 0)
    (rest : ∀ s', Filling c dst fill 0 k' s' → s'.regs.get a2 = s.regs.get a2 →
      (routine base pcrelLo dst n).Comes 66 s' Q) :
    (routine base pcrelLo dst n).Comes 31 s Q := by
  obtain ⟨turns, hturns⟩ := hdvd
  induction turns generalizing k s with
  | zero => omega
  | succ turns ih =>
    obtain ⟨hgoes, hnext⟩ := @Filling.runFills base pcrelLo c s dst n 0 k fill 32 h hword (by omega)
      hlt haligned
    have hregs : (s.execAll (fills 0 32)).regs = s.regs := fills_regs
    apply ByteRoutine.Comes.ops (fills 0 32) rfl hgoes
    apply hnext.runTurnEnd (by rw [hregs, ha3]) _ _ (by omega)
    · intro hmore s' hs' hkept
      rw [hregs] at hkept
      have ha1 : s'.regs.get a1 = s.regs.get a1 := hkept a1 (by decide) (by decide)
      apply ih hs'
      · unfold WordFilled
        rw [ha1]
        exact hword
      · rw [hkept a3 (by decide) (by decide), ha3]
      · exact hmore
      · omega
      · intro s'' hs'' ha2
        exact rest s'' hs'' (ha2.trans (hkept a2 (by decide) (by decide)))
      · omega
    · intro heq s' hs' hkept
      rw [hregs] at hkept
      exact rest s' (heq ▸ hs') (hkept a2 (by decide) (by decide))

/-- The loop from its store number `skip` on. -/
theorem Filling.runEntered {k' skip count : Nat} (hskip : skip + count = 32)
    (hlt : dst + n < 2 ^ 32) (h : Filling c dst fill (4 * skip) k s) (hword : WordFilled fill s)
    (ha3 : (s.regs.get a3).toNat = dst + k') (hk' : k' ≤ n) (hle : k + 4 * count ≤ k')
    (hdvd : 128 ∣ k' - (k + 4 * count)) (haligned : (dst + k) % 4 = 0)
    (rest : ∀ s', Filling c dst fill 0 k' s' → s'.regs.get a2 = s.regs.get a2 →
      (routine base pcrelLo dst n).Comes 66 s' Q) :
    (routine base pcrelLo dst n).Comes (31 + skip) s Q := by
  obtain ⟨hgoes, hnext⟩ := @Filling.runFills base pcrelLo c s dst n (4 * skip) k fill count h hword
    (by omega) hlt haligned
  have hregs : (s.execAll (fills (4 * skip) count)).regs = s.regs := fills_regs
  have hcode : (memset base pcrelLo).drop (31 + skip) =
      (fills (4 * skip) count).map .op ++ (memset base pcrelLo).drop 63 := by
    have hdrop : (memset base pcrelLo).drop 31 =
        (fills 0 32).map .op ++ (memset base pcrelLo).drop 63 := rfl
    have hfills : (fills 0 32).drop skip = fills (4 * skip) count := by
      rw [← hskip, fills_drop, Nat.zero_add]
    rw [← List.drop_drop, hdrop, List.drop_append_of_le_length, ← List.map_drop, hfills]
    rw [List.length_map, fills_length]
    omega
  have hoffset : 4 * skip + 4 * count = 128 := by omega
  have hline : 31 + skip + (fills (4 * skip) count).length = 63 := by
    rw [fills_length]
    omega
  rw [hoffset] at hnext
  apply ByteRoutine.Comes.ops (fills (4 * skip) count) hcode hgoes
  rw [hline]
  apply hnext.runTurnEnd (by rw [hregs, ha3]) _ _ hle
  · intro hmore s' hs' hkept
    rw [hregs] at hkept
    have ha1 : s'.regs.get a1 = s.regs.get a1 := hkept a1 (by decide) (by decide)
    apply hs'.runWords hlt _ _ hmore hk' hdvd (by omega)
    · intro s'' hs'' ha2
      exact rest s'' hs'' (ha2.trans (hkept a2 (by decide) (by decide)))
    · unfold WordFilled
      rw [ha1]
      exact hword
    · rw [hkept a3 (by decide) (by decide), ha3]
  · intro heq s' hs' hkept
    rw [hregs] at hkept
    exact rest s' (heq ▸ hs') (hkept a2 (by decide) (by decide))

/-! ## The routine -/

/-- What is returned. -/
def Filled (c : ByteState) (dst n : Nat) (fill : BitVec 8) (cpu : ByteCpu) : Prop :=
  cpu.left = some (c.regs.get lr) ∧
    (cpu.state.mem = c.mem.put dst n (fun _ => fill) ∧ cpu.state.regs.get a3 = c.regs.get a0)

theorem Filling.ret (h : Filling c dst fill 0 n s) :
    (routine base pcrelLo dst n).Comes 73 s (Filled c dst n fill) := by
  apply ByteRoutine.Comes.op rfl ByteRoutine.goes_alu
  apply ByteRoutine.Comes.jump rfl
  refine ⟨congrArg some h.lr_eq, h.mem_eq, ?_⟩
  show s.regs.get a0 + (Src.plain zero).value .add s.regs = _
  rw [Src.value_plain, RegFile.get_zero, h.a0_eq]
  exact add_zero _

/-- From label 4 on. -/
theorem Filling.trailing (h : Filling c dst fill 0 k s) (hlt : dst + n < 2 ^ 32)
    (ha2 : (s.regs.get a2).toNat = n - k) (hk : k ≤ n) :
    (routine base pcrelLo dst n).Comes 67 s (Filled c dst n fill) := by
  by_cases hall : k = n
  · have hzero : s.regs.get a2 = 0 := BitVec.eq_of_toNat_eq (by rw [ha2, hall, Nat.sub_self]; rfl)
    apply ByteRoutine.Comes.taken rfl ((Cond.test_eq_iff _).mpr hzero)
    exact (hall ▸ h : Filling c dst fill 0 n s).ret
  · have hmore : Cond.eq.test (s.regs.get a2) = false := by
      rw [Bool.eq_false_iff, Ne, Cond.test_eq_iff]
      intro hzero
      rw [hzero] at ha2
      have : n - k = 0 := ha2.symm
      omega
    apply ByteRoutine.Comes.not_taken rfl hmore
    apply ByteRoutine.Comes.op rfl ByteRoutine.goes_alu
    have h1 : Filling c dst fill 0 k (s.exec (.alu .add a3 t0 (.plain a2))) :=
      h.setReg _ (by decide)
    have ha3 : ((s.exec (.alu .add a3 t0 (.plain a2))).regs.get a3).toNat = dst + n := by
      show (s.regs.get t0 + (Src.plain a2).value .add s.regs).toNat = _
      rw [Src.value_plain, BitVec.toNat_add, h.t0_toNat_zero, ha2]
      omega
    exact Filling.runByteLoop rfl (show t1 ∈ _ by decide) hlt h1 ha3 (by decide) (by omega) le_rfl
      fun s' hs' _ => hs'.ret

/-- The last words are filled. -/
theorem Filling.afterWords (h : Filling c dst fill 0 (k + (n - k) / 4 * 4) s)
    (hlt : dst + n < 2 ^ 32) (ha2 : (s.regs.get a2).toNat = n - k) (hk : k ≤ n) :
    (routine base pcrelLo dst n).Comes 66 s (Filled c dst n fill) := by
  apply ByteRoutine.Comes.op rfl ByteRoutine.goes_alu
  have hleft : ((s.exec (.alu .and a2 a2 (.imm 3))).regs.get a2).toNat =
      n - (k + (n - k) / 4 * 4) := by
    show (s.regs.get a2 &&& 3).toNat = _
    rw [@toNat_and_mask _ 2 3 rfl, ha2]
    omega
  exact (h.setReg _ (by decide)).trailing hlt hleft (by omega)

/-! ### The value in all bytes -/

theorem toNat_shift_or {w : Word} {x bits : Nat} (hw : w.toNat = x) (hx : x < 2 ^ bits)
    (hbits : 2 * bits ≤ 32) : ((w <<< bits) ||| w).toNat = x * (2 ^ bits + 1) := by
  have hmul : x * 2 ^ bits < 2 ^ 32 := by
    calc x * 2 ^ bits < 2 ^ bits * 2 ^ bits := Nat.mul_lt_mul_of_pos_right hx (Nat.two_pow_pos bits)
      _ = 2 ^ (2 * bits) := by rw [← pow_add, two_mul]
      _ ≤ 2 ^ 32 := Nat.pow_le_pow_right (by decide) hbits
  rw [BitVec.toNat_or, BitVec.toNat_shiftLeft, hw, Nat.shiftLeft_eq, Nat.mod_eq_of_lt hmul,
    ← Nat.shiftLeft_eq, ← Nat.shiftLeft_add_eq_or_of_lt hx, Nat.shiftLeft_eq, Nat.mul_add,
    Nat.mul_one]

theorem Filling.runBroadcast (h : Filling c dst fill 0 k s) :
    Filling c dst fill 0 k (s.execAll broadcast) ∧ WordFilled fill (s.execAll broadcast) ∧
      (s.execAll broadcast).regs.get a2 = s.regs.get a2 := by
  let s1 := s.exec (.alu .and a1 a1 (.imm 0xff))
  let s3 := s1.execAll [.alu .add a3 zero (.reg a1 .lsh 8), .alu .or a1 a3 (.plain a1)]
  have hlow : (s1.regs.get a1).toNat = fill.toNat := by
    show (s.regs.get a1 &&& 0xff).toNat = _
    rw [@toNat_and_mask _ 8 0xff rfl, ← h.low_eq, BitVec.toNat_ofNat]
  have hhalf : (s3.regs.get a1).toNat = fill.toNat * 257 := by
    show ((0 : Word) + s1.regs.get a1 <<< 8 ||| (Src.plain a1).value .or _).toNat = _
    rw [Src.value_plain, zero_add]
    exact toNat_shift_or hlow fill.isLt (by decide)
  have hword : ((s.execAll broadcast).regs.get a1).toNat = fill.toNat * 16843009 := by
    have hlt : fill.toNat * 257 < 2 ^ 16 := by
      have := fill.isLt
      omega
    show ((0 : Word) + s3.regs.get a1 <<< 16 ||| (Src.plain a1).value .or _).toNat = _
    rw [Src.value_plain, zero_add]
    refine (toNat_shift_or hhalf hlt (by decide)).trans ?_
    rw [Nat.mul_assoc]
    rfl
  have hfilled : WordFilled fill (s.execAll broadcast) := by
    intro i hi
    apply BitVec.eq_of_toNat_eq
    have hfill := fill.isLt
    rw [hword, BitVec.toNat_ofNat]
    -- What is left of the word after `i` bytes is the value in a number of bytes and a remainder.
    have hdiv : ∀ m quot rest, fill.toNat * 16843009 = m * (256 * quot + fill.toNat) + rest →
        rest < m → fill.toNat * 16843009 / m % 2 ^ 8 = fill.toNat := by
      intro m quot rest heq hrest
      have hquot : fill.toNat * 16843009 / m = 256 * quot + fill.toNat := by
        rw [heq, Nat.mul_add_div (by omega), Nat.div_eq_of_lt hrest, Nat.add_zero]
      rw [hquot]
      omega
    interval_cases i
    · exact hdiv 1 (fill.toNat * 65793) 0 (by omega) (by decide)
    · exact hdiv 256 (fill.toNat * 257) fill.toNat (by omega) (by omega)
    · exact hdiv (256 ^ 2) fill.toNat (fill.toNat * 257) (by omega) (by omega)
    · exact hdiv (256 ^ 3) 0 (fill.toNat * 65793) (by omega) (by omega)
  refine ⟨⟨h.lr_eq, h.a0_eq, ?_, h.t0_toNat, h.mem_eq⟩, hfilled, rfl⟩
  have hzero := hfilled 0 (by decide)
  rwa [Nat.pow_zero, Nat.div_one] at hzero

/-! ### The words -/

theorem Filling.runWordEnd (h : Filling c dst fill 0 k s) (hlt : dst + n < 2 ^ 32)
    (ha2 : (s.regs.get a2).toNat = n - k) (hk : k ≤ n) :
    Filling c dst fill 0 k (s.execAll wordEnd) ∧
      ((s.execAll wordEnd).regs.get a3).toNat = dst + (k + (n - k) / 4 * 4) ∧
      ((s.execAll wordEnd).regs.get t1).toNat = (n - k) / 4 * 4 % 128 ∧
      (s.execAll wordEnd).regs.get a1 = s.regs.get a1 ∧
      (s.execAll wordEnd).regs.get a2 = s.regs.get a2 := by
  let s1 := s.exec (.alu .sub t1 zero (.imm 4))
  let s2 := s1.exec (.alu .and t1 a2 (.plain t1))
  let s3 := s2.exec (.alu .add a3 t0 (.plain t1))
  have hwords : (s2.regs.get t1).toNat = (n - k) / 4 * 4 := by
    show (s.regs.get a2 &&& (Src.plain t1).value .and s1.regs).toNat = _
    rw [Src.value_plain]
    show (s.regs.get a2 &&& (0 - 4)).toNat = _
    rw [toNat_and_neg_four, ha2]
  refine ⟨?_, ?_, ?_, rfl, rfl⟩
  · exact (((h.setReg _ (by decide)).setReg _ (by decide)).setReg _ (by decide)).setReg _
      (by decide)
  · show (s.regs.get t0 + (Src.plain t1).value .add s2.regs).toNat = _
    rw [Src.value_plain, BitVec.toNat_add, h.t0_toNat_zero, hwords]
    omega
  · show (s2.regs.get t1 &&& 127).toNat = _
    rw [@toNat_and_mask _ 7 127 rfl, hwords]
    rfl

/-- The entry with `rest` bytes of words before the loop is at its label again. -/
theorem Filling.runEntry {left : Nat} (h : Filling c dst fill 0 k s)
    (ht1 : (s.regs.get t1).toNat = left) (hleft : left < 128) :
    Filling c dst fill (128 - left) k (s.execAll (entry base pcrelLo)) ∧
      (s.execAll (entry base pcrelLo)).regs.get t2 =
        base + BitVec.ofNat 32 (4 * 31 + (128 - left)) ∧
      ∀ q, q ≠ t0 → q ≠ t1 → q ≠ t2 →
        (s.execAll (entry base pcrelLo)).regs.get q = s.regs.get q := by
  let s1 := s.execAll [.alu .sub t1 zero (.plain t1), .alu .add t1 t1 (.imm 128)]
  let s2 := s1.exec (.alu .sub t0 t0 (.plain t1))
  have hoffset : s1.regs.get t1 = BitVec.ofNat 32 (128 - left) := by
    apply BitVec.eq_of_toNat_eq
    show ((0 : Word) - (Src.plain t1).value .sub s.regs + 128).toNat = _
    rw [Src.value_plain, BitVec.toNat_add, BitVec.toNat_sub, ht1, BitVec.toNat_ofNat]
    show ((2 ^ 32 - left + 0) % 2 ^ 32 + 128) % 2 ^ 32 = _
    omega
  have ht0 : s2.regs.get t0 = s.regs.get t0 - BitVec.ofNat 32 (128 - left) := by
    show s.regs.get t0 - (Src.plain t1).value .sub s1.regs = _
    rw [Src.value_plain, hoffset]
  have hkept : ∀ q, q ≠ t0 → q ≠ t1 → q ≠ t2 →
      (s.execAll (entry base pcrelLo)).regs.get q = s.regs.get q := by
    intro q h0 h1 h2
    have hne : some t0 ≠ some q ∧ some t1 ≠ some q ∧ some t2 ≠ some q :=
      ⟨fun heq => h0 (Option.some.inj heq).symm, fun heq => h1 (Option.some.inj heq).symm,
        fun heq => h2 (Option.some.inj heq).symm⟩
    apply ByteState.execAll_get
    intro op hop
    rcases hop with _ | ⟨_, _ | ⟨_, _ | ⟨_, _ | ⟨_, _ | ⟨_, _ | ⟨_, hop⟩⟩⟩⟩⟩⟩
    · exact hne.2.1
    · exact hne.2.1
    · exact hne.1
    · exact hne.2.2
    · exact hne.2.2
    · exact hne.2.2
    · cases hop
  refine ⟨⟨?_, ?_, ?_, ?_, h.mem_eq⟩, ?_, hkept⟩
  · rw [hkept lr (by decide) (by decide) (by decide), h.lr_eq]
  · rw [hkept a0 (by decide) (by decide) (by decide), h.a0_eq]
  · rw [hkept a1 (by decide) (by decide) (by decide), h.low_eq]
  · show (s2.regs.get t0 + BitVec.ofNat 32 (128 - left)).toNat = _
    rw [ht0, sub_add_cancel, h.t0_toNat_zero]
  · show base + 4 * 31 - pcrelLo.setWidth 32 + pcrelLo.setWidth 32 + (Src.plain t1).value .add _ = _
    rw [Src.value_plain, sub_add_cancel]
    show base + 4 * 31 + s1.regs.get t1 = _
    rw [hoffset, add_assoc, BitVec.ofNat_add]
    rfl

/-- From label 2 on. -/
theorem Filling.words (h : Filling c dst fill 0 k s) (hlt : dst + n < 2 ^ 32)
    (ha2 : (s.regs.get a2).toNat = n - k) (hk : k + 4 ≤ n) (haligned : (dst + k) % 4 = 0) :
    (routine base pcrelLo dst n).Comes 14 s (Filled c dst n fill) := by
  obtain ⟨h1, hword, ha2'⟩ := h.runBroadcast
  obtain ⟨h2, ha3, ht1, ha1, ha2''⟩ := h1.runWordEnd hlt (by rw [ha2', ha2]) (by omega)
  have hgoes : (routine base pcrelLo dst n).GoesAll s (broadcast ++ wordEnd) := by
    refine ByteRoutine.goesAll_append.mpr ⟨?_, ?_⟩
    · exact ⟨ByteRoutine.goes_alu, ByteRoutine.goes_alu, ByteRoutine.goes_alu,
        ByteRoutine.goes_alu, ByteRoutine.goes_alu, trivial⟩
    · exact ⟨ByteRoutine.goes_alu, ByteRoutine.goes_alu, ByteRoutine.goes_alu,
        ByteRoutine.goes_alu, trivial⟩
  apply ByteRoutine.Comes.ops (broadcast ++ wordEnd) rfl hgoes
  rw [ByteState.execAll_append]
  have hcount : (((s.execAll broadcast).execAll wordEnd).regs.get a2).toNat = n - k := by
    rw [ha2'', ha2', ha2]
  have hfilled : WordFilled fill ((s.execAll broadcast).execAll wordEnd) := by
    unfold WordFilled
    rw [ha1]
    exact hword
  generalize (s.execAll broadcast).execAll wordEnd = s2 at *
  by_cases hwhole : (n - k) / 4 * 4 % 128 = 0
  · have hzero : s2.regs.get t1 = 0 := BitVec.eq_of_toNat_eq (ht1.trans hwhole)
    apply ByteRoutine.Comes.taken rfl ((Cond.test_eq_iff _).mpr hzero)
    apply h2.runWords hlt hfilled ha3 (by omega) (by omega) (by omega) haligned
    intro s' hs' hkept
    exact hs'.afterWords hlt (by rw [hkept, hcount]) (by omega)
  · have hsome : Cond.eq.test (s2.regs.get t1) = false := by
      rw [Bool.eq_false_iff, Ne, Cond.test_eq_iff]
      intro hzero
      rw [hzero] at ht1
      exact hwhole ht1.symm
    apply ByteRoutine.Comes.not_taken rfl hsome
    have hentry : (routine base pcrelLo dst n).GoesAll s2 (entry base pcrelLo) :=
      ⟨ByteRoutine.goes_alu, ByteRoutine.goes_alu, ByteRoutine.goes_alu, ByteRoutine.goes_adr,
        ByteRoutine.goes_alu, ByteRoutine.goes_alu, trivial⟩
    obtain ⟨h3, ht2, hkept⟩ := @Filling.runEntry base pcrelLo c s2 dst k fill _ h2 ht1
      (Nat.mod_lt _ (by decide))
    apply ByteRoutine.Comes.ops (entry base pcrelLo) rfl hentry
    -- The first store is the one that leaves as many as there are words.
    obtain ⟨skip, count, hskip, hcount_eq, hoffset⟩ : ∃ skip count, skip + count = 32 ∧
        4 * count = (n - k) / 4 * 4 % 128 ∧ 128 - (n - k) / 4 * 4 % 128 = 4 * skip :=
      ⟨32 - (n - k) / 4 * 4 % 128 / 4, (n - k) / 4 * 4 % 128 / 4, by omega, by omega, by omega⟩
    rw [hoffset] at h3 ht2
    have htarget : 4 * 31 + 4 * skip = 4 * (31 + skip) := by omega
    rw [htarget] at ht2
    have ha1' := hkept a1 (by decide) (by decide) (by decide)
    have ha2' := hkept a2 (by decide) (by decide) (by decide)
    have ha3' := hkept a3 (by decide) (by decide) (by decide)
    apply ByteRoutine.Comes.goto rfl ht2 (by omega)
    apply h3.runEntered hskip hlt
    · unfold WordFilled
      rw [ha1']
      exact hfilled
    · rw [ha3', ha3]
    · omega
    · omega
    · omega
    · exact haligned
    · intro s' hs' hkept'
      exact hs'.afterWords hlt (by rw [hkept', ha2', hcount]) (by omega)

/-! ### The head -/

/-- What `Filling` says at the first line. -/
theorem Filling.start (hdst : (c.regs.get a0).toNat = dst)
    (hfill : BitVec.ofNat 8 (c.regs.get a1).toNat = fill) :
    Filling c dst fill 0 0 (c.exec (.alu .add t0 a0 (.plain zero))) where
  lr_eq := rfl
  a0_eq := rfl
  low_eq := hfill
  t0_toNat := by
    show (c.regs.get a0 + (Src.plain zero).value .add c.regs + 0).toNat = _
    rw [Src.value_plain, RegFile.get_zero, add_zero, add_zero, hdst, Nat.add_zero]
  mem_eq := (ByteMemory.put_zero c.mem dst _).symm

/-- The first address of a word, and how far it is. -/
def firstWord : List ByteOp :=
  [.alu .sub t1 zero (.imm 4),
    .alu .add a3 a0 (.imm 3),
    .alu .and a3 a3 (.plain t1),
    .alu .sub t1 a3 (.plain t0)]

theorem Filling.runFirstWord (h : Filling c dst fill 0 0 s) (hdst : (c.regs.get a0).toNat = dst)
    (hlt : dst + 3 < 2 ^ 32) :
    Filling c dst fill 0 0 (s.execAll firstWord) ∧
      ((s.execAll firstWord).regs.get a3).toNat = (dst + 3) / 4 * 4 ∧
      ((s.execAll firstWord).regs.get t1).toNat = (dst + 3) / 4 * 4 - dst ∧
      (s.execAll firstWord).regs.get a2 = s.regs.get a2 := by
  let s2 := s.execAll [.alu .sub t1 zero (.imm 4), .alu .add a3 a0 (.imm 3)]
  let s3 := s2.exec (.alu .and a3 a3 (.plain t1))
  have hup : (s2.regs.get a3).toNat = dst + 3 := by
    show (s.regs.get a0 + 3).toNat = _
    rw [h.a0_eq, BitVec.toNat_add, hdst]
    exact Nat.mod_eq_of_lt hlt
  have ha3 : (s3.regs.get a3).toNat = (dst + 3) / 4 * 4 := by
    show (s2.regs.get a3 &&& (Src.plain t1).value .and s2.regs).toNat = _
    rw [Src.value_plain]
    show (s2.regs.get a3 &&& (0 - 4)).toNat = _
    rw [toNat_and_neg_four, hup]
  refine ⟨?_, ha3, ?_, rfl⟩
  · exact (((h.setReg _ (by decide)).setReg _ (by decide)).setReg _ (by decide)).setReg _
      (by decide)
  · have ht0 : (s3.regs.get t0).toNat = dst := h.t0_toNat_zero
    show (s3.regs.get a3 - (Src.plain t0).value .sub s3.regs).toNat = _
    rw [Src.value_plain, BitVec.toNat_sub, ha3, ht0]
    omega

/-- Up to the first word, from line 3 on. -/
theorem Filling.head (h : Filling c dst fill 0 0 s) (hlt : dst + n < 2 ^ 32)
    (hdst : (c.regs.get a0).toNat = dst) (ha2 : (s.regs.get a2).toNat = n) (hn : 16 ≤ n) :
    (routine base pcrelLo dst n).Comes 3 s (Filled c dst n fill) := by
  obtain ⟨h4, ha3, ht1, hkept⟩ := h.runFirstWord hdst (by omega)
  have hgoes : (routine base pcrelLo dst n).GoesAll s firstWord :=
    ⟨ByteRoutine.goes_alu, ByteRoutine.goes_alu, ByteRoutine.goes_alu, ByteRoutine.goes_alu,
      trivial⟩
  apply ByteRoutine.Comes.ops firstWord rfl hgoes
  have hcount : ((s.execAll firstWord).regs.get a2).toNat = n := by rw [hkept, ha2]
  generalize s.execAll firstWord = s4 at *
  by_cases haligned : dst % 4 = 0
  · have hzero : s4.regs.get t1 = 0 := by
      apply BitVec.eq_of_toNat_eq
      rw [ht1]
      show _ = 0
      omega
    apply ByteRoutine.Comes.taken rfl ((Cond.test_eq_iff _).mpr hzero)
    exact h4.words hlt hcount (by omega) haligned
  · have hnonzero : Cond.eq.test (s4.regs.get t1) = false := by
      rw [Bool.eq_false_iff, Ne, Cond.test_eq_iff]
      intro hzero
      rw [hzero] at ht1
      have : 0 = (dst + 3) / 4 * 4 - dst := ht1
      omega
    apply ByteRoutine.Comes.not_taken rfl hnonzero
    apply ByteRoutine.Comes.op rfl ByteRoutine.goes_alu
    -- The distance is computed once more.
    have hsub : ((s4.exec (.alu .sub t1 a3 (.plain t0))).regs.get t1).toNat =
        (dst + 3) / 4 * 4 - dst := by
      show (s4.regs.get a3 - (Src.plain t0).value .sub s4.regs).toNat = _
      rw [Src.value_plain, BitVec.toNat_sub, ha3, h4.t0_toNat_zero]
      omega
    have h5 : Filling c dst fill 0 0 (s4.exec (.alu .sub t1 a3 (.plain t0))) :=
      h4.setReg _ (by decide)
    have hend : ((s4.exec (.alu .sub t1 a3 (.plain t0))).regs.get a3).toNat =
        dst + ((dst + 3) / 4 * 4 - dst) := by
      show (s4.regs.get a3).toNat = _
      rw [ha3]
      omega
    apply Filling.runByteLoop rfl (show t2 ∈ _ by decide) hlt h5 hend (by decide) (by omega)
      (by omega)
    intro s6 h6 hregs
    have hdistance : (s6.regs.get t1).toNat = (dst + 3) / 4 * 4 - dst := by
      rw [hregs t1 (by decide) (by decide), hsub]
    have hall : (s6.regs.get a2).toNat = n := by
      rw [hregs a2 (by decide) (by decide)]
      exact hcount
    apply ByteRoutine.Comes.op rfl ByteRoutine.goes_alu
    have hleft : ((s6.exec (.alu .sub a2 a2 (.plain t1))).regs.get a2).toNat =
        n - ((dst + 3) / 4 * 4 - dst) := by
      show (s6.regs.get a2 - (Src.plain t1).value .sub s6.regs).toNat = _
      rw [Src.value_plain, BitVec.toNat_sub, hall, hdistance]
      omega
    exact (h6.setReg _ (by decide)).words hlt hleft (by omega) (by omega)

theorem memset_comes (hdst : (c.regs.get a0).toNat = dst)
    (hfill : BitVec.ofNat 8 (c.regs.get a1).toNat = fill) (hn : (c.regs.get a2).toNat = n)
    (hlt : dst + n < 2 ^ 32) :
    (routine base pcrelLo dst n).Comes 0 c (Filled c dst n fill) := by
  let s1 := c.exec (.alu .add t0 a0 (.plain zero))
  let s2 := s1.exec (.alu .slt a3 a2 (.imm 16))
  have h2 : Filling c dst fill 0 0 s2 := (Filling.start hdst hfill).setReg _ (by decide)
  have hsmall : Cond.ne.test (s2.regs.get a3) = decide (n < 16) := by
    show Cond.ne.test (AluOp.slt.eval (c.regs.get a2) 16) = _
    rw [test_ne_slt, hn]
    rfl
  have ha2 : (s2.regs.get a2).toNat = n := hn
  apply ByteRoutine.Comes.op rfl ByteRoutine.goes_alu
  apply ByteRoutine.Comes.op rfl ByteRoutine.goes_alu
  by_cases hbytes : n < 16
  · apply ByteRoutine.Comes.taken rfl (hsmall.trans (decide_eq_true hbytes))
    exact h2.trailing hlt ha2 (Nat.zero_le n)
  · apply ByteRoutine.Comes.not_taken rfl (hsmall.trans (decide_eq_false hbytes))
    exact h2.head hlt hdst ha2 (by omega)

end

/-- **`memset`.** For an object of any length and alignment and any value, the routine returns `dst`
with the low byte of the value in all bytes of the object and no others changed. It does so where
any access traps that is not aligned or is not a store within the object. An object has an address
behind its last byte that is not zero again. -/
theorem memset_correct (base : Word) (pcrelLo : BitVec 16) (c : ByteState)
    (hobject : (c.regs.get a0).toNat + (c.regs.get a2).toNat < 2 ^ 32) :
    (routine base pcrelLo (c.regs.get a0).toNat (c.regs.get a2).toNat).Returns c fun s =>
      s.mem = c.mem.put (c.regs.get a0).toNat (c.regs.get a2).toNat
          (fun _ => (c.regs.get a1).setWidth 8) ∧
        s.regs.get a3 = c.regs.get a0 :=
  memset_comes rfl (BitVec.ofNat_toNat 8 _) rfl hobject

/-- 300 bytes of 0x5a from 0x1001 on. -/
def demoFill : ByteState :=
  ⟨⟨fun r => if r = a0 then 0x1001 else if r = a1 then 0x125a else if r = a2 then 300 else 0⟩,
    fun _ => 0⟩

theorem memset_correct_demoFill :
    (routine 0 0 0x1001 300).Returns demoFill fun s =>
      s.mem = demoFill.mem.put 0x1001 300 (fun _ => 0x5a) ∧
        s.regs.get a3 = demoFill.regs.get a0 :=
  memset_correct 0 0 demoFill (by decide)

end XrLinux.Linux.Memset
