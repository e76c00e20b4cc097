import XrLinux.Linux.Regs
import XrLinux.Machine.Bytes

/-!
# Linux — `lib/memcpy.S`

`__memcpy`. Its loops by bytes and by halves have one shape, and so have the stretches of loads and
stores of the unrolled loop by words. The routine is run where it may access nothing but the bytes
of its two objects.
-/

namespace XrLinux.Linux.Memcpy

open Machine

/-- `mov r, long [a1 + offset]` for each of the registers. -/
def loads (offset : Nat) : List Reg → List ByteOp
  | [] => []
  | r :: rs => .load .long r a1 (BitVec.ofNat 32 offset) :: loads (offset + 4) rs

/-- `mov long [t5 + offset], r` for each of the registers. -/
def stores (offset : Nat) : List Reg → List ByteOp
  | [] => []
  | r :: rs => .store .long t5 (BitVec.ofNat 32 offset) r :: stores (offset + 4) rs

def group (offset : Nat) (rs : List Reg) : List ByteOp := loads offset rs ++ stores offset rs

/-- The end of a turn of the unrolled loop. -/
def lastWord : List ByteOp :=
  [.load .long t0 a1 0x3c, .alu .add a1 a1 (.imm 0x40), .store .long t5 0x3c t0,
    .alu .add t5 t5 (.imm 0x40), .alu .slt t0 a1 (.plain a3)]

/-- A turn of the unrolled loop, up to its branch. -/
def unrolled : List ByteOp :=
  group 0x00 [t0, t1, t2, t3, t4] ++ (group 0x14 [t0, t1, t2, t3, t4] ++
    (group 0x28 [t0, t1, t2, t3, t4] ++ lastWord))

/-- A turn of the other loops, up to the branch. -/
def turn (size : Size) (r : Reg) (imm : BitVec 16) : List ByteOp :=
  [.load size r a1 0, .alu .add a1 a1 (.imm imm), .store size t5 0 r,
    .alu .add t5 t5 (.imm imm), .alu .slt r a1 (.plain a3)]

/-- A loop, by its last register and its label. -/
def loop (ops : List ByteOp) (r : Reg) (label : Nat) : List ByteLine :=
  ops.map .op ++ [.branch .ne r label]

/-- Up to label 1. -/
def choice : List ByteLine :=
  [.op (.alu .add t5 a0 (.plain zero)),
    .op (.alu .slt a3 a2 (.imm 128)),
    .branch .ne a3 59,
    .op (.alu .and a3 a0 (.imm 3)),
    .op (.alu .and t0 a1 (.imm 3)),
    .op (.alu .sub t0 t0 (.plain a3)),
    .branch .ne t0 59,
    .branch .eq a3 18,
    .op (.alu .sub a3 a1 (.plain a3)),
    .op (.alu .add a3 a3 (.imm 4)),
    .op (.alu .sub t0 a3 (.plain a1))]

/-- From the update of the count up to label 3. -/
def blocks : List ByteLine :=
  [.op (.alu .sub a2 a2 (.plain t0)),
    -- 2:
    .op (.alu .and t0 a2 (.imm 0x3f)),
    .op (.alu .sub t0 a2 (.plain t0)),
    .branch .eq t0 59,
    .op (.alu .add a3 a1 (.plain t0))]

/-- From the update of the count up to label 7. -/
def trailing : List ByteLine :=
  [.op (.alu .and a2 a2 (.imm 0x3f)),
    -- 4:
    .branch .eq a2 78,
    .op (.alu .add a3 a1 (.plain a2)),
    .op (.alu .or t1 a1 (.plain t5)),
    .op (.alu .or t1 t1 (.plain a3)),
    .branchOdd t1 72]

def ret : List ByteLine := [.op (.alu .add a3 a0 (.plain zero)), .jump lr]

/-- `__memcpy`, with its labels 1, 2, 3, 4, 7, 5 and 6 at lines 11, 18, 22, 59, 64, 72 and 78. -/
def memcpy : List ByteLine :=
  choice ++ loop (turn .byte t1 1) t1 11 ++ blocks ++ loop unrolled t0 22 ++ trailing ++
    loop (turn .int t0 2) t0 64 ++ ret ++ loop (turn .byte t0 1) t0 72 ++ ret

/-- The bytes of the two objects. -/
def ofObjects (dst src n : Nat) (access : Access) : Bool :=
  if access.isStore then dst ≤ access.addr ∧ access.addr + access.size.bytes ≤ dst + n
  else src ≤ access.addr ∧ access.addr + access.size.bytes ≤ src + n

/-- Two objects that do not overlap. Behind each there is one more address. -/
structure Objects (dst src n : Nat) : Prop where
  dst_lt : dst + n < 2 ^ 32
  src_lt : src + n < 2 ^ 32
  disjoint : dst + n ≤ src ∨ src + n ≤ dst

/-- The pointers have gone on by `i` and `j`, and `done` bytes are copied. -/
structure Copying (c : ByteState) (dst src i j done : Nat) (s : ByteState) : Prop where
  lr_eq : s.regs.get lr = c.regs.get lr
  a0_eq : s.regs.get a0 = c.regs.get a0
  a1_toNat : (s.regs.get a1).toNat = src + i
  t5_toNat : (s.regs.get t5).toNat = dst + j
  mem_eq : s.mem = c.mem.copy dst src done

section
variable {base : Word} {c s : ByteState} {dst src n k i j done offset : Nat} {size : Size}
  {r : Reg} {Q : ByteCpu → Prop}

theorem copy_put (m : ByteMemory) (dst src k len : Nat) :
    (m.copy dst src k).put (dst + k) len (fun i => m (src + k + i)) = m.copy dst src (k + len) := by
  have hput := m.put_put dst k len fun i => m (src + i)
  simp only [← Nat.add_assoc] at hput
  exact hput

/-- The source is as it was. -/
theorem Objects.read_copy (h : Objects dst src n) {m : ByteMemory} (hk : k + size.bytes ≤ n)
    (hdone : done ≤ n) :
    size.read (m.copy dst src done) (src + k) = size.read m (src + k) := by
  apply Size.read_congr
  apply ByteMemory.sameOn_copy
  have hdisjoint := h.disjoint
  omega

/-- What has been loaded from the next bytes of the source, stored to those of the destination. -/
theorem write_read_copy (m : ByteMemory) :
    size.write (m.copy dst src k) (dst + k)
        (BitVec.ofNat 32 (size.read m (src + k))).toNat =
      m.copy dst src (k + size.bytes) := by
  rw [Size.write_read, copy_put]

/-! ## One instruction -/

/-- The registers that are loaded into. -/
def scratch : List Reg := [t0, t1, t2, t3, t4]

theorem scratch_ne : ∀ r ∈ scratch,
    r ≠ zero ∧ a0 ≠ r ∧ a1 ≠ r ∧ a2 ≠ r ∧ a3 ≠ r ∧ t5 ≠ r ∧ lr ≠ r := by decide

theorem Copying.setReg (h : Copying c dst src i j done s) (value : Word)
    (hr : a0 ≠ r ∧ a1 ≠ r ∧ t5 ≠ r ∧ lr ≠ r) : Copying c dst src i j done (s.setReg r value) where
  lr_eq := (RegFile.get_set_of_ne hr.2.2.2).trans h.lr_eq
  a0_eq := (RegFile.get_set_of_ne hr.1).trans h.a0_eq
  a1_toNat := (congrArg BitVec.toNat (RegFile.get_set_of_ne hr.2.1)).trans h.a1_toNat
  t5_toNat := (congrArg BitVec.toNat (RegFile.get_set_of_ne hr.2.2.1)).trans h.t5_toNat
  mem_eq := h.mem_eq

theorem Copying.setScratch (h : Copying c dst src i j done s) (value : Word) (hr : r ∈ scratch) :
    Copying c dst src i j done (s.setReg r value) := by
  obtain ⟨-, ha0, ha1, -, -, ht5, hlr⟩ := scratch_ne r hr
  exact h.setReg value ⟨ha0, ha1, ht5, hlr⟩

/-- A load of the next bytes of the source, at an offset. -/
theorem Copying.load (h : Copying c dst src i j done s) (hobjects : Objects dst src n) {w : Word}
    (hw : w.toNat = offset) (hr : r ∈ scratch) (hfits : i + offset + size.bytes ≤ n)
    (hdone : done ≤ n) (haligned : (src + i + offset) % size.bytes = 0) :
    (ByteRoutine.mk memcpy base (ofObjects dst src n)).Goes s (.load size r a1 w) ∧
      Copying c dst src i j done (s.exec (.load size r a1 w)) ∧
      (s.exec (.load size r a1 w)).regs.get r =
        BitVec.ofNat 32 (size.read c.mem (src + (i + offset))) := by
  have hlt := hobjects.src_lt
  have haddr : (s.regs.get a1 + w).toNat = src + i + offset := by
    rw [BitVec.toNat_add, h.a1_toNat, hw]
    omega
  refine ⟨(ByteRoutine.goes_load_iff haddr).mpr ⟨haligned, ?_⟩, h.setScratch _ hr, ?_⟩
  · show decide (src ≤ src + i + offset ∧ src + i + offset + size.bytes ≤ src + n) = true
    rw [decide_eq_true_iff]
    omega
  · show (s.setReg r _).regs.get r = _
    rw [ByteState.setReg_get_self _ _ (scratch_ne r hr).1, haddr, h.mem_eq, Nat.add_assoc src,
      hobjects.read_copy hfits hdone]

/-- A store of them to the next bytes of the destination. -/
theorem Copying.store (h : Copying c dst src i j done s) (hobjects : Objects dst src n) {w : Word}
    (hw : w.toNat = offset) (hdone : j + offset = done) (hfits : done + size.bytes ≤ n)
    (haligned : (dst + j + offset) % size.bytes = 0)
    (hr : s.regs.get r = BitVec.ofNat 32 (size.read c.mem (src + done))) :
    (ByteRoutine.mk memcpy base (ofObjects dst src n)).Goes s (.store size t5 w r) ∧
      Copying c dst src i j (done + size.bytes) (s.exec (.store size t5 w r)) := by
  have hlt := hobjects.dst_lt
  have haddr : (s.regs.get t5 + w).toNat = dst + j + offset := by
    rw [BitVec.toNat_add, h.t5_toNat, hw]
    omega
  refine ⟨(ByteRoutine.goes_store_iff haddr).mpr ⟨haligned, ?_⟩, ?_⟩
  · show decide (dst ≤ dst + j + offset ∧ dst + j + offset + size.bytes ≤ dst + n) = true
    rw [decide_eq_true_iff]
    omega
  · refine ⟨h.lr_eq, h.a0_eq, h.a1_toNat, h.t5_toNat, ?_⟩
    show size.write s.mem (s.regs.get t5 + w).toNat (s.regs.get r).toNat = _
    rw [haddr, h.mem_eq, hr, Nat.add_assoc dst, hdone, write_read_copy]

theorem toNat_add_imm {w : Word} {imm : BitVec 16} {addr step : Nat} (hw : w.toNat = addr)
    (himm : imm.toNat = step) (hlt : addr + step < 2 ^ 32) :
    (w + imm.setWidth 32).toNat = addr + step := by
  rw [BitVec.toNat_add, BitVec.toNat_setWidth, hw, himm]
  omega

/-- The pointer into the source goes on. -/
theorem Copying.addSrc (h : Copying c dst src i j done s) {imm : BitVec 16} {step : Nat}
    (himm : imm.toNat = step) (hlt : src + (i + step) < 2 ^ 32) :
    Copying c dst src (i + step) j done (s.exec (.alu .add a1 a1 (.imm imm))) where
  lr_eq := h.lr_eq
  a0_eq := h.a0_eq
  a1_toNat := by
    rw [← Nat.add_assoc] at hlt ⊢
    exact toNat_add_imm h.a1_toNat himm hlt
  t5_toNat := h.t5_toNat
  mem_eq := h.mem_eq

/-- The pointer into the destination goes on. -/
theorem Copying.addDst (h : Copying c dst src i j done s) {imm : BitVec 16} {step : Nat}
    (himm : imm.toNat = step) (hlt : dst + (j + step) < 2 ^ 32) :
    Copying c dst src i (j + step) done (s.exec (.alu .add t5 t5 (.imm imm))) where
  lr_eq := h.lr_eq
  a0_eq := h.a0_eq
  a1_toNat := h.a1_toNat
  t5_toNat := by
    rw [← Nat.add_assoc] at hlt ⊢
    exact toNat_add_imm h.t5_toNat himm hlt
  mem_eq := h.mem_eq

/-- The comparison at the end of a turn. -/
theorem Copying.compare (h : Copying c dst src i j done s) (hr : r ∈ scratch) :
    Copying c dst src i j done (s.exec (.alu .slt r a1 (.plain a3))) ∧
      Cond.ne.test ((s.exec (.alu .slt r a1 (.plain a3))).regs.get r) =
        decide (src + i < (s.regs.get a3).toNat) := by
  refine ⟨h.setScratch _ hr, ?_⟩
  show Cond.ne.test ((s.setReg r _).regs.get r) = _
  rw [ByteState.setReg_get_self _ _ (scratch_ne r hr).1, Src.value_plain, test_ne_slt, h.a1_toNat]

/-! ## The loops by bytes and by halves -/

/-- One turn. -/
theorem Copying.runTurn (h : Copying c dst src k k k s) (hobjects : Objects dst src n)
    {imm : BitVec 16} (hr : r ∈ scratch) (himm : imm.toNat = size.bytes)
    (hfits : k + size.bytes ≤ n) (hsrc : (src + k) % size.bytes = 0)
    (hdst : (dst + k) % size.bytes = 0) :
    (ByteRoutine.mk memcpy base (ofObjects dst src n)).GoesAll s (turn size r imm) ∧
      Copying c dst src (k + size.bytes) (k + size.bytes) (k + size.bytes)
        (s.execAll (turn size r imm)) ∧
      Cond.ne.test ((s.execAll (turn size r imm)).regs.get r) =
        decide (src + (k + size.bytes) < (s.regs.get a3).toNat) := by
  obtain ⟨-, -, ha1, -, ha3, ht5, -⟩ := scratch_ne r hr
  have hdst_lt := hobjects.dst_lt
  have hsrc_lt := hobjects.src_lt
  let s1 := s.exec (.load size r a1 0)
  let s2 := s1.exec (.alu .add a1 a1 (.imm imm))
  let s3 := s2.exec (.store size t5 0 r)
  let s4 := s3.exec (.alu .add t5 t5 (.imm imm))
  obtain ⟨hgoes1, h1, hloaded⟩ := @Copying.load base c s dst src n k k k 0 size r h hobjects 0 rfl hr
    hfits (by omega) hsrc
  have h2 : Copying c dst src (k + size.bytes) k k s2 := h1.addSrc himm (by omega)
  have hkept : s2.regs.get r = s1.regs.get r := RegFile.get_set_of_ne (Ne.symm ha1)
  obtain ⟨hgoes3, h3⟩ := @Copying.store base c s2 dst src n _ k k 0 size r h2 hobjects 0 rfl rfl hfits
    hdst (hkept.trans hloaded)
  have h4 : Copying c dst src (k + size.bytes) (k + size.bytes) (k + size.bytes) s4 :=
    h3.addDst himm (by omega)
  obtain ⟨h5, htest⟩ := h4.compare hr
  have ha3_eq : s4.regs.get a3 = s.regs.get a3 := RegFile.get_set_of_ne ha3
  rw [ha3_eq] at htest
  exact ⟨⟨hgoes1, ByteRoutine.goes_alu, hgoes3, ByteRoutine.goes_alu, ByteRoutine.goes_alu, trivial⟩,
    h5, htest⟩

theorem turn_get {imm : BitVec 16} {q : Reg} (hq : q ≠ r) (ha1 : q ≠ a1) (ht5 : q ≠ t5) :
    (s.execAll (turn size r imm)).regs.get q = s.regs.get q := by
  apply ByteState.execAll_get
  intro op hop
  have hne : some r ≠ some q ∧ some a1 ≠ some q ∧ some t5 ≠ some q :=
    ⟨fun heq => hq (Option.some.inj heq).symm, fun heq => ha1 (Option.some.inj heq).symm,
      fun heq => ht5 (Option.some.inj heq).symm⟩
  rcases hop with _ | ⟨_, _ | ⟨_, _ | ⟨_, _ | ⟨_, _ | ⟨_, hop⟩⟩⟩⟩⟩
  · exact hne.1
  · exact hne.2.1
  · exact (Option.some_ne_none q).symm
  · exact hne.2.2
  · exact hne.1
  · cases hop

/-- A whole loop, up to `k'` where `a3` points. -/
theorem Copying.runLoop {k' line : Nat} {imm : BitVec 16}
    (hcode : memcpy.drop line =
      (turn size r imm).map .op ++ .branch .ne r line :: memcpy.drop (line + 6))
    (hobjects : Objects dst src n) (hr : r ∈ scratch) (himm : imm.toNat = size.bytes)
    (h : Copying c dst src k k k s) (ha3 : (s.regs.get a3).toNat = src + k') (hk : k < k')
    (hk' : k' ≤ n) (hdvd : size.bytes ∣ k' - k) (hsrc : (src + k) % size.bytes = 0)
    (hdst : (dst + k) % size.bytes = 0)
    (rest : ∀ s', Copying c dst src k' k' k' s' →
      (∀ q, q ≠ r → q ≠ a1 → q ≠ t5 → s'.regs.get q = s.regs.get q) →
      (ByteRoutine.mk memcpy base (ofObjects dst src n)).Comes (line + 6) s' Q) :
    (ByteRoutine.mk memcpy base (ofObjects dst src n)).Comes line s Q := by
  have hpos := size.bytes_pos
  obtain ⟨-, -, ha1_ne, -, ha3_ne, ht5_ne, -⟩ := scratch_ne r hr
  have hbranch : memcpy[line + 5]? = some (.branch .ne r line) := by
    rw [← List.head?_drop, ← List.drop_drop, hcode]
    rfl
  -- By the number of turns.
  obtain ⟨turns, hturns⟩ := hdvd
  induction turns generalizing k s with
  | zero =>
    rw [Nat.mul_zero] at hturns
    omega
  | succ turns ih =>
    rw [Nat.mul_succ] at hturns
    have hnext_le : k + size.bytes ≤ k' := by
      have := Nat.zero_le (size.bytes * turns)
      omega
    obtain ⟨hgoes, hnext, htest⟩ := @Copying.runTurn base c s dst src n k size r h hobjects imm hr himm
      (by omega) hsrc hdst
    rw [ha3] at htest
    apply ByteRoutine.Comes.ops _ hcode hgoes
    by_cases hlast : k + size.bytes = k'
    · apply ByteRoutine.Comes.not_taken hbranch (htest.trans (decide_eq_false (by omega)))
      exact rest _ (hlast ▸ hnext) fun q hq ha1 ht5 => turn_get hq ha1 ht5
    · apply ByteRoutine.Comes.taken hbranch (htest.trans (decide_eq_true (by omega)))
      apply ih hnext
      · rw [turn_get ha3_ne (by decide) (by decide), ha3]
      · omega
      · rw [← Nat.add_assoc, Nat.add_mod_right, hsrc]
      · rw [← Nat.add_assoc, Nat.add_mod_right, hdst]
      · intro s' hs' hkept
        apply rest s' hs'
        intro q hq ha1 ht5
        rw [hkept q hq ha1 ht5, turn_get hq ha1 ht5]
      · omega

/-! ## The loop by words -/

/-- The registers have the next words of the source, from `offset` on. -/
def Loaded (m : ByteMemory) (addr : Nat) : List Reg → RegFile → Prop
  | [], _ => True
  | r :: rs, regs =>
    regs.get r = BitVec.ofNat 32 (Size.long.read m addr) ∧ Loaded m (addr + 4) rs regs

theorem Loaded.congr {m : ByteMemory} {rs : List Reg} {regs regs' : RegFile} {addr : Nat}
    (h : Loaded m addr rs regs) (hregs : ∀ r ∈ rs, regs'.get r = regs.get r) :
    Loaded m addr rs regs' := by
  induction rs generalizing addr with
  | nil => trivial
  | cons r rs ih =>
    exact ⟨(hregs r List.mem_cons_self).trans h.1,
      ih h.2 fun q hq => hregs q (List.mem_cons_of_mem _ hq)⟩

theorem loads_get {rs : List Reg} {q : Reg} (hq : q ∉ rs) :
    (s.execAll (loads offset rs)).regs.get q = s.regs.get q := by
  induction rs generalizing s offset with
  | nil => rfl
  | cons r rs ih =>
    rw [List.mem_cons, not_or] at hq
    exact (ih hq.2).trans (RegFile.get_set_of_ne hq.1)

theorem Copying.runLoads {rs : List Reg} (h : Copying c dst src k k done s)
    (hobjects : Objects dst src n) (hrs : ∀ r ∈ rs, r ∈ scratch) (hnodup : rs.Nodup)
    (hfits : k + offset + 4 * rs.length ≤ n) (hdone : done ≤ n) (hoffset : offset % 4 = 0)
    (hlt : offset + 4 * rs.length ≤ 64) (hsrc : (src + k) % 4 = 0) :
    (ByteRoutine.mk memcpy base (ofObjects dst src n)).GoesAll s (loads offset rs) ∧
      Copying c dst src k k done (s.execAll (loads offset rs)) ∧
      Loaded c.mem (src + (k + offset)) rs (s.execAll (loads offset rs)).regs := by
  induction rs generalizing s offset with
  | nil => exact ⟨trivial, h, trivial⟩
  | cons r rs ih =>
    rw [List.length_cons] at hfits hlt
    rw [List.nodup_cons] at hnodup
    have hw : (BitVec.ofNat 32 offset).toNat = offset := by
      rw [BitVec.toNat_ofNat]
      omega
    obtain ⟨hgoes, hnext, hloaded⟩ := @Copying.load base c s dst src n k k done offset .long r h
      hobjects _ hw (hrs r List.mem_cons_self) (by show k + offset + 4 ≤ n; omega) hdone
      (by show (src + k + offset) % 4 = 0; omega)
    obtain ⟨hrest, hcopying, hothers⟩ := @ih _ (offset + 4) hnext
      (fun q hq => hrs q (List.mem_cons_of_mem _ hq)) hnodup.2 (by omega) (by omega) (by omega)
    refine ⟨⟨hgoes, hrest⟩, hcopying, ?_, ?_⟩
    · exact (loads_get hnodup.1).trans hloaded
    · rw [Nat.add_assoc, Nat.add_assoc k]
      exact hothers

theorem stores_regs {rs : List Reg} : (s.execAll (stores offset rs)).regs = s.regs := by
  induction rs generalizing s offset with
  | nil => rfl
  | cons r rs ih => exact ih

theorem Copying.runStores {rs : List Reg} (h : Copying c dst src k k (k + offset) s)
    (hobjects : Objects dst src n) (hfits : k + offset + 4 * rs.length ≤ n)
    (hoffset : offset % 4 = 0) (hlt : offset + 4 * rs.length ≤ 64) (hdst : (dst + k) % 4 = 0)
    (hloaded : Loaded c.mem (src + (k + offset)) rs s.regs) :
    (ByteRoutine.mk memcpy base (ofObjects dst src n)).GoesAll s (stores offset rs) ∧
      Copying c dst src k k (k + (offset + 4 * rs.length)) (s.execAll (stores offset rs)) := by
  induction rs generalizing s offset with
  | nil => exact ⟨trivial, h⟩
  | cons r rs ih =>
    rw [List.length_cons] at hfits hlt ⊢
    have hw : (BitVec.ofNat 32 offset).toNat = offset := by
      rw [BitVec.toNat_ofNat]
      omega
    obtain ⟨hgoes, hnext⟩ := @Copying.store base c s dst src n k k (k + offset) offset .long r h
      hobjects _ hw rfl (by show k + offset + 4 ≤ n; omega)
      (by show (dst + k + offset) % 4 = 0; omega) hloaded.1
    have hrest : Loaded c.mem (src + (k + (offset + 4))) rs s.regs := by
      rw [← Nat.add_assoc k, ← Nat.add_assoc src]
      exact hloaded.2
    obtain ⟨hgoes', hcopying⟩ := @ih (s.exec (.store .long t5 (BitVec.ofNat 32 offset) r)) (offset + 4)
      (by rw [← Nat.add_assoc k]; exact hnext) (by omega) (by omega) (by omega) hrest
    refine ⟨⟨hgoes, hgoes'⟩, ?_⟩
    have hlen : offset + 4 + 4 * rs.length = offset + 4 * (rs.length + 1) := by omega
    rw [← hlen]
    exact hcopying

/-- Loads into registers, and stores of them. -/
theorem Copying.runGroup {rs : List Reg} (h : Copying c dst src k k (k + offset) s)
    (hobjects : Objects dst src n) (hrs : ∀ r ∈ rs, r ∈ scratch) (hnodup : rs.Nodup)
    (hfits : k + offset + 4 * rs.length ≤ n) (hoffset : offset % 4 = 0)
    (hlt : offset + 4 * rs.length ≤ 64) (hsrc : (src + k) % 4 = 0) (hdst : (dst + k) % 4 = 0) :
    (ByteRoutine.mk memcpy base (ofObjects dst src n)).GoesAll s
        (group offset rs) ∧
      Copying c dst src k k (k + (offset + 4 * rs.length))
        (s.execAll (group offset rs)) ∧
      ∀ q ∉ rs, (s.execAll (group offset rs)).regs.get q =
        s.regs.get q := by
  obtain ⟨hgoes, hcopying, hloaded⟩ := @Copying.runLoads base c s dst src n k (k + offset) offset rs h
    hobjects hrs hnodup hfits (by omega) hoffset hlt hsrc
  obtain ⟨hgoes', hcopying'⟩ := @Copying.runStores base c _ dst src n k offset rs hcopying hobjects
    hfits hoffset hlt hdst hloaded
  unfold group
  rw [ByteState.execAll_append]
  refine ⟨ByteRoutine.goesAll_append.mpr ⟨hgoes, hgoes'⟩, hcopying', ?_⟩
  intro q hq
  rw [stores_regs]
  exact loads_get hq

theorem Copying.runLastWord (h : Copying c dst src k k (k + 60) s) (hobjects : Objects dst src n)
    (hfits : k + 64 ≤ n) (hsrc : (src + k) % 4 = 0) (hdst : (dst + k) % 4 = 0) :
    (ByteRoutine.mk memcpy base (ofObjects dst src n)).GoesAll s lastWord ∧
      Copying c dst src (k + 64) (k + 64) (k + 64) (s.execAll lastWord) ∧
      Cond.ne.test ((s.execAll lastWord).regs.get t0) =
        decide (src + (k + 64) < (s.regs.get a3).toNat) := by
  have hdst_lt := hobjects.dst_lt
  have hsrc_lt := hobjects.src_lt
  have ht0 : t0 ∈ scratch := by decide
  let s1 := s.exec (.load .long t0 a1 0x3c)
  let s2 := s1.exec (.alu .add a1 a1 (.imm 0x40))
  let s3 := s2.exec (.store .long t5 0x3c t0)
  let s4 := s3.exec (.alu .add t5 t5 (.imm 0x40))
  obtain ⟨hgoes1, h1, hloaded⟩ := @Copying.load base c s dst src n k k (k + 60) 60 .long t0 h hobjects
    0x3c rfl ht0 hfits (by omega) (by show (src + k + 60) % 4 = 0; omega)
  have h2 : Copying c dst src (k + 64) k (k + 60) s2 := h1.addSrc rfl (by omega)
  obtain ⟨hgoes3, h3⟩ := @Copying.store base c s2 dst src n _ k (k + 60) 60 .long t0 h2 hobjects 0x3c
    rfl rfl hfits (by show (dst + k + 60) % 4 = 0; omega) hloaded
  have h4 : Copying c dst src (k + 64) (k + 64) (k + 64) s4 := h3.addDst rfl (by omega)
  obtain ⟨h5, htest⟩ := h4.compare ht0
  exact ⟨⟨hgoes1, ByteRoutine.goes_alu, hgoes3, ByteRoutine.goes_alu, ByteRoutine.goes_alu, trivial⟩,
    h5, htest⟩

/-- One turn of it. -/
theorem Copying.runUnrolled (h : Copying c dst src k k k s) (hobjects : Objects dst src n)
    (hfits : k + 64 ≤ n) (hsrc : (src + k) % 4 = 0) (hdst : (dst + k) % 4 = 0) :
    (ByteRoutine.mk memcpy base (ofObjects dst src n)).GoesAll s unrolled ∧
      Copying c dst src (k + 64) (k + 64) (k + 64) (s.execAll unrolled) ∧
      Cond.ne.test ((s.execAll unrolled).regs.get t0) =
        decide (src + (k + 64) < (s.regs.get a3).toNat) := by
  have hgroup : ∀ offset s, Copying c dst src k k (k + offset) s → offset % 4 = 0 →
      offset + 20 ≤ 60 →
      (ByteRoutine.mk memcpy base (ofObjects dst src n)).GoesAll s
          (group offset [t0, t1, t2, t3, t4]) ∧
        Copying c dst src k k (k + (offset + 20)) (s.execAll (group offset [t0, t1, t2, t3, t4])) ∧
        (s.execAll (group offset [t0, t1, t2, t3, t4])).regs.get a3 = s.regs.get a3 := by
    intro offset s hs hoffset hle
    obtain ⟨hgoes, hnext, hkept⟩ := @Copying.runGroup base c s dst src n k offset
      [t0, t1, t2, t3, t4] hs hobjects (fun r hr => hr) (by decide)
      (by show k + offset + 4 * 5 ≤ n; omega) hoffset (by show offset + 4 * 5 ≤ 64; omega) hsrc hdst
    exact ⟨hgoes, hnext, hkept a3 (by decide)⟩
  obtain ⟨hgoes1, h1, ha1⟩ := hgroup 0 s h rfl (by decide)
  obtain ⟨hgoes2, h2, ha2⟩ := hgroup 20 _ h1 rfl (by decide)
  obtain ⟨hgoes3, h3, ha3⟩ := hgroup 40 _ h2 rfl (by decide)
  obtain ⟨hgoes4, h4, htest⟩ := @Copying.runLastWord base c _ dst src n k h3 hobjects hfits hsrc hdst
  rw [ha3, ha2, ha1] at htest
  unfold unrolled
  rw [ByteState.execAll_append, ByteState.execAll_append, ByteState.execAll_append,
    ByteRoutine.goesAll_append, ByteRoutine.goesAll_append, ByteRoutine.goesAll_append]
  exact ⟨⟨hgoes1, hgoes2, hgoes3, hgoes4⟩, h4, htest⟩

theorem unrolled_get {q : Reg} (hq : q ∈ [a2, a3]) :
    (s.execAll unrolled).regs.get q = s.regs.get q := by
  have hall : ∀ q ∈ [a2, a3], ∀ op ∈ unrolled, op.rd ≠ some q := by decide
  exact s.execAll_get (hall q hq)

/-- The loop, up to `k'` where `a3` points. -/
theorem Copying.runBlocks {k' : Nat} (hobjects : Objects dst src n) (h : Copying c dst src k k k s)
    (ha3 : (s.regs.get a3).toNat = src + k') (hk : k < k') (hk' : k' ≤ n) (hdvd : 64 ∣ k' - k)
    (hsrc : (src + k) % 4 = 0) (hdst : (dst + k) % 4 = 0)
    (rest : ∀ s', Copying c dst src k' k' k' s' → s'.regs.get a2 = s.regs.get a2 →
      (ByteRoutine.mk memcpy base (ofObjects dst src n)).Comes 58 s' Q) :
    (ByteRoutine.mk memcpy base (ofObjects dst src n)).Comes 22 s Q := by
  obtain ⟨turns, hturns⟩ := hdvd
  induction turns generalizing k s with
  | zero => omega
  | succ turns ih =>
    obtain ⟨hgoes, hnext, htest⟩ := @Copying.runUnrolled base c s dst src n k h hobjects (by omega) hsrc
      hdst
    rw [ha3] at htest
    apply ByteRoutine.Comes.ops unrolled rfl hgoes
    by_cases hlast : k + 64 = k'
    · apply ByteRoutine.Comes.not_taken rfl (htest.trans (decide_eq_false (by omega)))
      exact rest _ (hlast ▸ hnext) (unrolled_get (by decide))
    · apply ByteRoutine.Comes.taken rfl (htest.trans (decide_eq_true (by omega)))
      apply ih hnext
      · rw [unrolled_get (by decide), ha3]
      · omega
      · omega
      · omega
      · intro s' hs' ha2
        exact rest s' hs' (ha2.trans (unrolled_get (by decide)))
      · omega

/-! ## The routine -/

/-- What is returned. -/
def Copied (c : ByteState) (dst src n : Nat) (cpu : ByteCpu) : Prop :=
  cpu.left = some (c.regs.get lr) ∧
    (cpu.state.mem = c.mem.copy dst src n ∧ cpu.state.regs.get a3 = c.regs.get a0)

theorem Copying.ret {line : Nat} (h : Copying c dst src n n n s)
    (hadd : memcpy[line]? = some (.op (.alu .add a3 a0 (.plain zero))))
    (hjump : memcpy[line + 1]? = some (.jump lr)) :
    (ByteRoutine.mk memcpy base (ofObjects dst src n)).Comes line s (Copied c dst src n) := by
  apply ByteRoutine.Comes.op hadd ByteRoutine.goes_alu
  apply ByteRoutine.Comes.jump hjump
  refine ⟨congrArg some h.lr_eq, h.mem_eq, ?_⟩
  show s.regs.get a0 + (Src.plain zero).value .add s.regs = _
  rw [Src.value_plain, RegFile.get_zero, h.a0_eq]
  exact add_zero _

/-- From label 4 on. -/
theorem Copying.trailing (h : Copying c dst src k k k s) (hobjects : Objects dst src n)
    (ha2 : (s.regs.get a2).toNat = n - k) (hk : k ≤ n) :
    (ByteRoutine.mk memcpy base (ofObjects dst src n)).Comes 59 s (Copied c dst src n) := by
  have hsrc_lt := hobjects.src_lt
  by_cases hall : k = n
  · have hzero : s.regs.get a2 = 0 := BitVec.eq_of_toNat_eq (by rw [ha2, hall, Nat.sub_self]; rfl)
    apply ByteRoutine.Comes.taken rfl ((Cond.test_eq_iff _).mpr hzero)
    exact (hall ▸ h : Copying c dst src n n n s).ret rfl rfl
  · have hmore : Cond.eq.test (s.regs.get a2) = false := by
      rw [Bool.eq_false_iff, Ne, Cond.test_eq_iff]
      intro hzero
      rw [hzero] at ha2
      have : n - k = 0 := ha2.symm
      omega
    apply ByteRoutine.Comes.not_taken rfl hmore
    let s1 := s.exec (.alu .add a3 a1 (.plain a2))
    let s2 := s1.exec (.alu .or t1 a1 (.plain t5))
    let s3 := s2.exec (.alu .or t1 t1 (.plain a3))
    have h3 : Copying c dst src k k k s3 :=
      ((h.setReg _ (by decide)).setScratch _ (by decide)).setScratch _ (by decide)
    have ha3 : (s3.regs.get a3).toNat = src + n := by
      show (s.regs.get a1 + (Src.plain a2).value .add s.regs).toNat = _
      rw [Src.value_plain, BitVec.toNat_add, h.a1_toNat, ha2]
      omega
    have ht1 : s3.regs.get t1 = s.regs.get a1 ||| s.regs.get t5 ||| s3.regs.get a3 := by
      show (s.regs.get a1 ||| (Src.plain t5).value .or s1.regs) ||| (Src.plain a3).value .or s2.regs = _
      rw [Src.value_plain, Src.value_plain]
      rfl
    apply ByteRoutine.Comes.ops [.alu .add a3 a1 (.plain a2), .alu .or t1 a1 (.plain t5),
      .alu .or t1 t1 (.plain a3)] rfl
      ⟨ByteRoutine.goes_alu, ByteRoutine.goes_alu, ByteRoutine.goes_alu, trivial⟩
    by_cases hodd : (s3.regs.get t1).toNat % 2 = 1
    · apply ByteRoutine.Comes.odd rfl hodd
      exact Copying.runLoop rfl hobjects (show t0 ∈ _ by decide) rfl h3 ha3 (by omega) le_rfl
        (Nat.one_dvd _) (Nat.mod_one _) (Nat.mod_one _) fun s' hs' _ => hs'.ret rfl rfl
    · -- Both pointers and the end are even.
      have heven : (s3.regs.get t1).toNat % 2 = 0 := by omega
      rw [ht1, BitVec.toNat_or, BitVec.toNat_or, Nat.or_mod_two_eq_one, Nat.or_mod_two_eq_one,
        h.a1_toNat, h.t5_toNat, ha3] at hodd
      apply ByteRoutine.Comes.even rfl heven
      apply Copying.runLoop rfl hobjects (show t0 ∈ _ by decide) rfl h3 ha3 (by omega) le_rfl
      · show 2 ∣ _
        omega
      · show _ % 2 = 0
        omega
      · show _ % 2 = 0
        omega
      · exact fun s' hs' _ => hs'.ret rfl rfl

theorem toNat_and_three (w : Word) : (w &&& 3).toNat = w.toNat % 4 := @toNat_and_mask w 2 3 rfl

theorem toNat_and_63 (w : Word) : (w &&& 0x3f).toNat = w.toNat % 64 := @toNat_and_mask w 6 0x3f rfl

/-- From label 2 on. -/
theorem Copying.words (h : Copying c dst src k k k s) (hobjects : Objects dst src n)
    (ha2 : (s.regs.get a2).toNat = n - k) (hk : k ≤ n) (hsrc : (src + k) % 4 = 0)
    (hdst : (dst + k) % 4 = 0) :
    (ByteRoutine.mk memcpy base (ofObjects dst src n)).Comes 18 s (Copied c dst src n) := by
  have hsrc_lt := hobjects.src_lt
  let s1 := s.exec (.alu .and t0 a2 (.imm 0x3f))
  let s2 := s1.exec (.alu .sub t0 a2 (.plain t0))
  have h2 : Copying c dst src k k k s2 := (h.setScratch _ (by decide)).setScratch _ (by decide)
  have ht0 : (s2.regs.get t0).toNat = (n - k) / 64 * 64 := by
    have hmask : (s1.regs.get t0).toNat = (n - k) % 64 := by
      show (s.regs.get a2 &&& 0x3f).toNat = _
      rw [toNat_and_63, ha2]
    show (s.regs.get a2 - (Src.plain t0).value .sub s1.regs).toNat = _
    rw [Src.value_plain, BitVec.toNat_sub, ha2, hmask]
    omega
  apply ByteRoutine.Comes.ops [.alu .and t0 a2 (.imm 0x3f), .alu .sub t0 a2 (.plain t0)] rfl
    ⟨ByteRoutine.goes_alu, ByteRoutine.goes_alu, trivial⟩
  by_cases hnone : s2.regs.get t0 = 0
  · apply ByteRoutine.Comes.taken rfl ((Cond.test_eq_iff _).mpr hnone)
    exact h2.trailing hobjects ha2 hk
  · have hsome : Cond.eq.test (s2.regs.get t0) = false := by
      rw [Bool.eq_false_iff, Ne, Cond.test_eq_iff]
      exact hnone
    have hpos : 0 < (n - k) / 64 * 64 := by
      rw [← ht0, Nat.pos_iff_ne_zero]
      exact fun hzero => hnone (BitVec.eq_of_toNat_eq hzero)
    apply ByteRoutine.Comes.not_taken rfl hsome
    apply ByteRoutine.Comes.op rfl ByteRoutine.goes_alu
    have h3 : Copying c dst src k k k (s2.exec (.alu .add a3 a1 (.plain t0))) :=
      h2.setReg _ (by decide)
    have hend : ((s2.exec (.alu .add a3 a1 (.plain t0))).regs.get a3).toNat =
        src + (k + (n - k) / 64 * 64) := by
      show (s2.regs.get a1 + (Src.plain t0).value .add s2.regs).toNat = _
      rw [Src.value_plain, BitVec.toNat_add, h2.a1_toNat, ht0]
      omega
    apply Copying.runBlocks hobjects h3 hend
    · omega
    · omega
    · omega
    · exact hsrc
    · exact hdst
    · intro s' hs' ha2'
      apply ByteRoutine.Comes.op rfl ByteRoutine.goes_alu
      have hmask : ((s'.exec (.alu .and a2 a2 (.imm 0x3f))).regs.get a2).toNat =
          n - (k + (n - k) / 64 * 64) := by
        show (s'.regs.get a2 &&& 0x3f).toNat = _
        rw [toNat_and_63, ha2']
        show (s.regs.get a2).toNat % 64 = _
        omega
      exact (hs'.setReg _ (by decide)).trailing hobjects hmask (by omega)

/-- The bytes up to the first word, from line 8 on. -/
theorem Copying.head (h : Copying c dst src 0 0 0 s) (hobjects : Objects dst src n)
    (ha2 : (s.regs.get a2).toNat = n) (ha3 : (s.regs.get a3).toNat = dst % 4)
    (hmutual : src % 4 = dst % 4) (hn : 4 ≤ n) :
    (ByteRoutine.mk memcpy base (ofObjects dst src n)).Comes 8 s (Copied c dst src n) := by
  have hsrc_lt := hobjects.src_lt
  have ha1 : (s.regs.get a1).toNat = src := h.a1_toNat
  let s1 := s.exec (.alu .sub a3 a1 (.plain a3))
  let s2 := s1.exec (.alu .add a3 a3 (.imm 4))
  let s3 := s2.exec (.alu .sub t0 a3 (.plain a1))
  have h3 : Copying c dst src 0 0 0 s3 :=
    ((h.setReg _ (by decide)).setReg _ (by decide)).setScratch _ (by decide)
  have hend : (s2.regs.get a3).toNat = src + (4 - dst % 4) := by
    show (s.regs.get a1 - (Src.plain a3).value .sub s.regs + 4).toNat = _
    rw [Src.value_plain, BitVec.toNat_add, BitVec.toNat_sub, ha1, ha3]
    show ((2 ^ 32 - dst % 4 + src) % 2 ^ 32 + 4) % 2 ^ 32 = _
    omega
  have ht0 : (s3.regs.get t0).toNat = 4 - dst % 4 := by
    show (s2.regs.get a3 - (Src.plain a1).value .sub s2.regs).toNat = _
    rw [Src.value_plain, BitVec.toNat_sub, hend]
    show (2 ^ 32 - (s.regs.get a1).toNat + _) % 2 ^ 32 = _
    rw [ha1]
    omega
  apply ByteRoutine.Comes.ops [.alu .sub a3 a1 (.plain a3), .alu .add a3 a3 (.imm 4),
    .alu .sub t0 a3 (.plain a1)] rfl
    ⟨ByteRoutine.goes_alu, ByteRoutine.goes_alu, ByteRoutine.goes_alu, trivial⟩
  apply Copying.runLoop rfl hobjects (show t1 ∈ _ by decide) rfl h3 hend (by omega) (by omega)
    (Nat.one_dvd _) (Nat.mod_one _) (Nat.mod_one _)
  intro s' hs' hkept
  have ha2' : s'.regs.get a2 = s.regs.get a2 := hkept a2 (by decide) (by decide) (by decide)
  have ht0' : s'.regs.get t0 = s3.regs.get t0 := hkept t0 (by decide) (by decide) (by decide)
  apply ByteRoutine.Comes.op rfl ByteRoutine.goes_alu
  apply Copying.words (hs'.setReg _ (by decide)) hobjects
  · show (s'.regs.get a2 - (Src.plain t0).value .sub s'.regs).toNat = _
    rw [Src.value_plain, ha2', ht0', BitVec.toNat_sub, ha2, ht0]
    omega
  · omega
  · omega
  · omega

/-- From the first line on. -/
theorem memcpy_comes (hdst : (c.regs.get a0).toNat = dst) (hsrc : (c.regs.get a1).toNat = src)
    (hn : (c.regs.get a2).toNat = n) (hobjects : Objects dst src n) :
    (ByteRoutine.mk memcpy base (ofObjects dst src n)).Comes 0 c (Copied c dst src n) := by
  have hn_lt : n < 2 ^ 32 := hn ▸ (c.regs.get a2).isLt
  let s1 := c.exec (.alu .add t5 a0 (.plain zero))
  let s2 := s1.exec (.alu .slt a3 a2 (.imm 128))
  have h1 : Copying c dst src 0 0 0 s1 := by
    refine ⟨rfl, rfl, hsrc, ?_, ?_⟩
    · show (c.regs.get a0 + (Src.plain zero).value .add c.regs).toNat = _
      rw [Src.value_plain, RegFile.get_zero]
      exact (congrArg BitVec.toNat (add_zero _)).trans hdst
    · funext x
      unfold ByteMemory.copy
      rw [if_neg (by omega)]
      rfl
  have h2 : Copying c dst src 0 0 0 s2 := h1.setReg _ (by decide)
  apply ByteRoutine.Comes.ops [.alu .add t5 a0 (.plain zero), .alu .slt a3 a2 (.imm 128)] rfl
    ⟨ByteRoutine.goes_alu, ByteRoutine.goes_alu, trivial⟩
  have hsmall : Cond.ne.test (s2.regs.get a3) = decide (n < 128) := by
    show Cond.ne.test (AluOp.slt.eval (c.regs.get a2) 128) = _
    rw [test_ne_slt, hn]
    rfl
  by_cases hlt : n < 128
  · apply ByteRoutine.Comes.taken rfl (hsmall.trans (decide_eq_true hlt))
    exact h2.trailing hobjects hn (Nat.zero_le n)
  · apply ByteRoutine.Comes.not_taken rfl (hsmall.trans (decide_eq_false hlt))
    let s3 := s2.exec (.alu .and a3 a0 (.imm 3))
    let s4 := s3.exec (.alu .and t0 a1 (.imm 3))
    let s5 := s4.exec (.alu .sub t0 t0 (.plain a3))
    have h5 : Copying c dst src 0 0 0 s5 :=
      ((h2.setReg _ (by decide)).setScratch _ (by decide)).setScratch _ (by decide)
    have ha3 : (s5.regs.get a3).toNat = dst % 4 := by
      show (c.regs.get a0 &&& 3).toNat = _
      rw [toNat_and_three, hdst]
    have ht0 : (s4.regs.get t0).toNat = src % 4 := by
      show (c.regs.get a1 &&& 3).toNat = _
      rw [toNat_and_three, hsrc]
    have hdiff : (s5.regs.get t0).toNat = (2 ^ 32 - dst % 4 + src % 4) % 2 ^ 32 := by
      show (s4.regs.get t0 - (Src.plain a3).value .sub s4.regs).toNat = _
      rw [Src.value_plain, BitVec.toNat_sub, ht0]
      exact congrArg (fun x => (2 ^ 32 - x + src % 4) % 2 ^ 32) ha3
    apply ByteRoutine.Comes.ops [.alu .and a3 a0 (.imm 3), .alu .and t0 a1 (.imm 3),
      .alu .sub t0 t0 (.plain a3)] rfl
      ⟨ByteRoutine.goes_alu, ByteRoutine.goes_alu, ByteRoutine.goes_alu, trivial⟩
    by_cases hmutual : src % 4 = dst % 4
    · have hsame : Cond.ne.test (s5.regs.get t0) = false := by
        rw [Bool.eq_false_iff, Ne, Cond.test_ne_iff, not_not]
        apply BitVec.eq_of_toNat_eq
        rw [hdiff]
        show _ = 0
        omega
      apply ByteRoutine.Comes.not_taken rfl hsame
      by_cases haligned : dst % 4 = 0
      · have hzero : s5.regs.get a3 = 0 := BitVec.eq_of_toNat_eq (ha3.trans haligned)
        apply ByteRoutine.Comes.taken rfl ((Cond.test_eq_iff _).mpr hzero)
        exact h5.words hobjects hn (Nat.zero_le n) (by omega) haligned
      · have hnonzero : Cond.eq.test (s5.regs.get a3) = false := by
          rw [Bool.eq_false_iff, Ne, Cond.test_eq_iff]
          intro hzero
          rw [hzero] at ha3
          exact haligned ha3.symm
        apply ByteRoutine.Comes.not_taken rfl hnonzero
        exact h5.head hobjects hn ha3 hmutual (by omega)
    · have hdiffer : Cond.ne.test (s5.regs.get t0) = true := by
        rw [Cond.test_ne_iff]
        intro hzero
        rw [hzero] at hdiff
        have : 0 = (2 ^ 32 - dst % 4 + src % 4) % 2 ^ 32 := hdiff
        omega
      apply ByteRoutine.Comes.taken rfl hdiffer
      exact h5.trailing hobjects hn (Nat.zero_le n)

end

/-- **`memcpy`.** For objects that do not overlap, of any length and alignment, the routine returns
`dst` with the bytes of the source in the destination and no others changed. It does so where any
access traps that is not aligned, or is not a load within the source or a store within the
destination. -/
theorem memcpy_correct (base : Word) (c : ByteState)
    (hobjects : Objects (c.regs.get a0).toNat (c.regs.get a1).toNat (c.regs.get a2).toNat) :
    (ByteRoutine.mk memcpy base (ofObjects (c.regs.get a0).toNat (c.regs.get a1).toNat
        (c.regs.get a2).toNat)).Returns c fun s =>
      s.mem = c.mem.copy (c.regs.get a0).toNat (c.regs.get a1).toNat (c.regs.get a2).toNat ∧
        s.regs.get a3 = c.regs.get a0 :=
  memcpy_comes rfl rfl rfl hobjects

/-- 200 bytes from 0x1001 to 0x2001. -/
def demoCopy : ByteState :=
  ⟨⟨fun r => if r = a0 then 0x2001 else if r = a1 then 0x1001 else if r = a2 then 200 else 0⟩,
    fun _ => 0⟩

theorem memcpy_correct_demoCopy :
    (ByteRoutine.mk memcpy 0 (ofObjects 0x2001 0x1001 200)).Returns demoCopy fun s =>
      s.mem = demoCopy.mem.copy 0x2001 0x1001 200 ∧ s.regs.get a3 = demoCopy.regs.get a0 :=
  memcpy_correct 0 demoCopy ⟨by decide, by decide, by decide⟩

end XrLinux.Linux.Memcpy
