import XrLinux.Lib.ByteMemory
import XrLinux.Linux.Signal

/-!
# GCC — unwinding through a signal frame

`setup_rt_frame` of the kernel, byte by byte, and `xr17032_fallback_frame_state` of libgcc, which
makes a frame state of what it finds there. The unwinder's part in it is how it goes by a frame
state: the table of columns and what a rule stands for.
-/

namespace XrLinux.Gcc.FallbackFrame

open Machine Linux

/-! ## The kernel's side -/

/-- The bytes of words, one after the other. -/
def bytesOf (words : Nat → Word) (i : Nat) : BitVec 8 :=
  BitVec.ofNat 8 ((words (i / 4)).toNat / 256 ^ (i % 4))

/-- `struct user_regs_struct`, by words. -/
def userWords (regs : UserRegs) (i : Nat) : Word :=
  if h : 0 < i ∧ i < 32 then regs.gpr ⟨i, h.2⟩ else regs.pc

/-- `__user_rt_sigreturn`: `addi t5, zero, 139` and `sys`. -/
def userRtSigreturn (i : Nat) : Word :=
  if i = 0 then 0x3c ||| 6 <<< 6 ||| 0 <<< 11 ||| 139 <<< 16 else 0x31

/-- `access_ok`, with `TASK_SIZE`. -/
def accessOk (addr : Word) (size : Nat) : Bool := addr.toNat + size ≤ 0x80000000

/-- What is copied to the user next to the registers, and where that can be done. -/
structure Copies where
  siginfo : Nat → BitVec 8
  altstack : Nat → BitVec 8
  sigmask : Nat → BitVec 8
  writable : Nat → Nat → Bool

/-- A copy to the user. -/
def Copies.store (copies : Copies) (addr len : Nat) (bytes : Nat → BitVec 8) (m : ByteMemory) :
    Option ByteMemory :=
  if copies.writable addr len then some (m.put addr len bytes) else none

/-- `setup_rt_frame` at the address of `get_sigframe`: the memory of the user then. The offsets are
those of `info`, of `uc_flags`, `uc_link`, `uc_stack`, `uc_mcontext` and `uc_sigmask` in `uc`, and of
`sigreturn_code`. -/
def storeFrame (copies : Copies) (frame : Word) (regs : UserRegs) (m : ByteMemory) :
    Option ByteMemory := do
  if ! accessOk frame frameSize.toNat then none
  else
    let m ← copies.store frame.toNat 128 copies.siginfo m
    let m ← copies.store (frame.toNat + 128) 4 (fun _ => 0) m
    let m ← copies.store (frame.toNat + 132) 4 (fun _ => 0) m
    let m ← copies.store (frame.toNat + 136) 12 copies.altstack m
    let m ← copies.store (frame.toNat + 276) 128 (bytesOf (userWords regs)) m
    let m ← copies.store (frame.toNat + 148) 8 copies.sigmask m
    copies.store (frame.toNat + 404) 8 (bytesOf userRtSigreturn) m

/-! ## The side of libgcc -/

/-- `context->cfa` and `context->ra`. -/
structure Context where
  cfa : Word
  ra : Word

/-- `REG_SAVED_OFFSET` and `REG_SAVED_VAL_OFFSET`. -/
inductive Rule where
  | savedOffset (offset : Word)
  | savedValOffset (offset : Word)

/-- `_Unwind_FrameState`, with the rules in the order in which they are set. The canonical frame
address is an offset from the stack pointer. -/
structure FrameState where
  cfaOffset : Word
  rules : List (Nat × Rule)
  retaddrColumn : Nat

/-- A word that the user can load. -/
def load (m : ByteMemory) (addr : Word) : Word := BitVec.ofNat 32 (m.read32 addr.toNat)

/-- `ADDI_T5_ZERO_8B`. -/
def addiT5Zero8b : Word := 0x008b01bc

/-- `SYS`. -/
def sys : Word := 0x00000031

/-- `__LIBGCC_DWARF_ALT_FRAME_RETURN_COLUMN__`. -/
def altFrameReturnColumn : Nat := 38

/-- `__LIBGCC_DWARF_FRAME_REGISTERS__`, which is `FIRST_PSEUDO_REGISTER`. -/
def dwarfFrameRegisters : Nat := 34

/-- `rt_->uc.uc_mcontext`, behind a `siginfo_t` and, in `ucontext_t`, a `sigset_t` of 128 bytes. -/
def mcontext (cfa : Word) : Word := cfa + (128 + (4 + 4 + 12 + 128))

/-- `xr17032_fallback_frame_state`; `none` is `_URC_END_OF_STACK`. -/
def fallbackFrameState (m : ByteMemory) (context : Context) : Option FrameState :=
  if load m context.ra ≠ addiT5Zero8b ∨ load m (context.ra + 4) ≠ sys then none
  else
    some
      { cfaOffset := mcontext context.cfa - context.cfa
        rules := (List.range 32).map (fun i => (i, .savedOffset
            (mcontext context.cfa + BitVec.ofNat 32 (4 * i) - mcontext context.cfa))) ++
          [(altFrameReturnColumn,
            .savedValOffset (load m (mcontext context.cfa) - mcontext context.cfa))]
        retaddrColumn := altFrameReturnColumn }

/-- The rule for a column: the one that is set last. -/
def ruleOf (rules : List (Nat × Rule)) (column : Nat) : Option Rule :=
  rules.foldl (fun rule r => if r.1 = column then some r.2 else rule) none

/-- What the unwinder makes of a rule. The stack pointer of the frame is `context->cfa`. -/
def FrameState.apply (fs : FrameState) (m : ByteMemory) (context : Context) : Rule → Word
  | .savedOffset offset => load m (context.cfa + fs.cfaOffset + offset)
  | .savedValOffset offset => context.cfa + fs.cfaOffset + offset

def FrameState.value (fs : FrameState) (m : ByteMemory) (context : Context) (column : Nat) :
    Option Word :=
  (ruleOf fs.rules column).map (fs.apply m context)

/-! ## What is asked -/

/-- The frame is recognised, and the registers and the pc of the program are recovered. -/
structure Recovers (m : ByteMemory) (context : Context) (regs : UserRegs) (fs : FrameState) :
    Prop where
  recognised : fallbackFrameState m context = some fs
  gpr_eq : ∀ r : Reg, r ≠ Machine.zero → fs.value m context r = some (regs.gpr r)
  pc_eq : fs.value m context fs.retaddrColumn = some regs.pc

/-- And all columns are in the unwinder's table, which has one entry more than there are
registers. -/
def UnwindCorrect (m : ByteMemory) (context : Context) (regs : UserRegs) : Prop :=
  ∃ fs, Recovers m context regs fs ∧ ∀ rule ∈ fs.rules, rule.1 < dwarfFrameRegisters + 1

/-! ## Rules -/

theorem ruleOf_append (rules : List (Nat × Rule)) (last : Nat × Rule) (column : Nat) :
    ruleOf (rules ++ [last]) column =
      if last.1 = column then some last.2 else ruleOf rules column := by
  rw [ruleOf, List.foldl_append]
  rfl

theorem ruleOf_range (rule : Nat → Rule) {n column : Nat} (h : column < n) :
    ruleOf ((List.range n).map fun i => (i, rule i)) column = some (rule column) := by
  induction n with
  | zero => omega
  | succ n ih =>
    rw [List.range_succ, List.map_append, List.map_singleton, ruleOf_append]
    by_cases hlast : n = column
    · rw [if_pos hlast, hlast]
    · rw [if_neg hlast, ih (by omega)]

/-! ## The frame in memory -/

section
variable {copies : Copies} {frame : Word} {regs : UserRegs} {m m' : ByteMemory} {a len : Nat}

theorem read32_bytesOf (words : Nat → Word) {j : Nat} (h : 4 * j + 4 ≤ len) :
    (m.put a len (bytesOf words)).read32 (a + 4 * j) = (words j).toNat := by
  have hbyte : ∀ i < 4, (m.put a len (bytesOf words)) (a + 4 * j + i) =
      BitVec.ofNat 8 ((words j).toNat / 256 ^ i) := by
    intro i hi
    rw [Nat.add_assoc, ByteMemory.put_byte m _ (by omega), bytesOf]
    have hquot : (4 * j + i) / 4 = j := by omega
    have hrem : (4 * j + i) % 4 = i := by omega
    rw [hquot, hrem]
  have hlt := (words j).isLt
  have h0 := hbyte 0 (by decide)
  rw [Nat.add_zero] at h0
  rw [ByteMemory.read32, h0, hbyte 1 (by decide), hbyte 2 (by decide), hbyte 3 (by decide)]
  simp only [BitVec.toNat_ofNat, Nat.reducePow]
  omega

/-- A word beside what is put. -/
theorem read32_put {b : Nat} (bytes : Nat → BitVec 8) (h : b + 4 ≤ a ∨ a + len ≤ b) :
    (m.put a len bytes).read32 b = m.read32 b := by
  refine ByteMemory.SameOn.read32 fun x hlo hhi => ?_
  exact ByteMemory.put_of_not_mem m bytes (by omega)

theorem Copies.of_store {bytes : Nat → BitVec 8} (h : copies.store a len bytes m = some m') :
    m' = m.put a len bytes := by
  unfold Copies.store at h
  split_ifs at h
  exact (Option.some.inj h).symm

/-- What stands in a frame that has been set up. -/
theorem storeFrame_words (h : storeFrame copies frame regs m = some m') :
    frame.toNat + 412 ≤ 0x80000000 ∧
      (∀ i < 32, m'.read32 (frame.toNat + 276 + 4 * i) = (userWords regs i).toNat) ∧
      ∀ i < 2, m'.read32 (frame.toNat + 404 + 4 * i) = (userRtSigreturn i).toNat := by
  unfold storeFrame at h
  split_ifs at h with hok
  obtain ⟨m₁, -, h⟩ := Option.bind_eq_some_iff.mp h
  obtain ⟨m₂, -, h⟩ := Option.bind_eq_some_iff.mp h
  obtain ⟨m₃, -, h⟩ := Option.bind_eq_some_iff.mp h
  obtain ⟨m₄, -, h⟩ := Option.bind_eq_some_iff.mp h
  obtain ⟨m₅, hregs, h⟩ := Option.bind_eq_some_iff.mp h
  obtain ⟨m₆, hmask, hcode⟩ := Option.bind_eq_some_iff.mp h
  -- The registers and the code are the last that is stored but for the mask, which is elsewhere.
  rw [Copies.of_store hcode, Copies.of_store hmask, Copies.of_store hregs]
  have haccess : accessOk frame frameSize.toNat = true := by simpa using hok
  refine ⟨of_decide_eq_true haccess, fun i hi => ?_, fun i hi => ?_⟩
  · rw [read32_put _ (by omega), read32_put _ (by omega), read32_bytesOf _ (by omega)]
  · rw [read32_bytesOf _ (by omega)]

end

/-! ## The frame state -/

section
variable {copies : Copies} {frame : Word} {regs : UserRegs} {m m' : ByteMemory}

/-- What the unwinder starts from: the handler has been called from `sigreturn_code`, with the stack
pointer at the frame. -/
def handlerContext (regs : PtRegs) : Context := ⟨regs.gpr Linux.sp, regs.gpr lr⟩

/-- The frame state of a frame at an address. -/
def frameState (frame pc : Word) : FrameState where
  cfaOffset := mcontext frame - frame
  rules := (List.range 32).map (fun i => (i, .savedOffset
      (mcontext frame + BitVec.ofNat 32 (4 * i) - mcontext frame))) ++
    [(altFrameReturnColumn, .savedValOffset (pc - mcontext frame))]
  retaddrColumn := altFrameReturnColumn

theorem load_eq {addr value : Word} (h : m.read32 addr.toNat = value.toNat) : load m addr = value := by
  rw [load, h, BitVec.ofNat_toNat, BitVec.setWidth_eq]

theorem add_toNat (addr : Word) (k : Nat) (hlt : addr.toNat + k < 4294967296) :
    (addr + BitVec.ofNat 32 k).toNat = addr.toNat + k := by
  rw [BitVec.toNat_add, BitVec.toNat_ofNat]
  omega

theorem load_mcontext (h : storeFrame copies frame regs m = some m') {i : Nat} (hi : i < 32) :
    load m' (mcontext frame + BitVec.ofNat 32 (4 * i)) = userWords regs i := by
  obtain ⟨hle, hregs, -⟩ := storeFrame_words h
  have haddr : (mcontext frame + BitVec.ofNat 32 (4 * i)).toNat = frame.toNat + 276 + 4 * i := by
    have hbase : (mcontext frame).toNat = frame.toNat + 276 := add_toNat frame 276 (by omega)
    rw [add_toNat _ _ (by omega), hbase]
  exact load_eq (haddr ▸ hregs i hi)

/-- The frame is recognised by the code in it. -/
theorem fallbackFrameState_eq (h : storeFrame copies frame regs m = some m') :
    fallbackFrameState m' ⟨frame, frame + codeOffset⟩ = some (frameState frame regs.pc) := by
  obtain ⟨hle, -, hcode⟩ := storeFrame_words h
  have haddr : (frame + codeOffset).toNat = frame.toNat + 404 := add_toNat frame 404 (by omega)
  have hfirst : load m' (frame + codeOffset) = addiT5Zero8b :=
    load_eq (by rw [haddr]; exact hcode 0 (by decide))
  have hsecond : load m' (frame + codeOffset + 4) = sys := by
    have haddr' : (frame + codeOffset + 4).toNat = frame.toNat + 404 + 4 :=
      (add_toNat (frame + codeOffset) 4 (by omega)).trans (congrArg (· + 4) haddr)
    exact load_eq (by rw [haddr']; exact hcode 1 (by decide))
  have hpc : load m' (mcontext frame) = regs.pc := by
    have := load_mcontext h (show 0 < 32 by decide)
    rwa [BitVec.add_zero] at this
  rw [fallbackFrameState, if_neg (by rw [hfirst, hsecond]; simp), hpc]
  rfl

/-- It recovers all registers, and the pc. -/
theorem frameState_recovers (h : storeFrame copies frame regs m = some m') :
    Recovers m' ⟨frame, frame + codeOffset⟩ regs (frameState frame regs.pc) where
  recognised := fallbackFrameState_eq h
  gpr_eq r hr := by
    have hne : ¬ altFrameReturnColumn = r.val := fun heq => by
      have := r.isLt
      unfold altFrameReturnColumn at heq
      omega
    have hpos : 0 < r.val := Nat.pos_of_ne_zero fun heq => hr (Fin.ext heq)
    rw [FrameState.value, frameState, ruleOf_append, if_neg hne, ruleOf_range _ r.isLt,
      Option.map_some, FrameState.apply]
    have haddr : frame + (mcontext frame - frame) +
        (mcontext frame + BitVec.ofNat 32 (4 * r.val) - mcontext frame) =
        mcontext frame + BitVec.ofNat 32 (4 * r.val) := by
      rw [add_sub_cancel, add_sub_cancel]
    rw [haddr, load_mcontext h r.isLt, userWords, dif_pos ⟨hpos, r.isLt⟩]
  pc_eq := by
    rw [FrameState.value, frameState, ruleOf_append, if_pos rfl, Option.map_some, FrameState.apply]
    rw [add_sub_cancel, add_sub_cancel]

/-- The column for the pc is outside of the table. -/
theorem frameState_columns (frame pc : Word) :
    ¬ ∀ rule ∈ (frameState frame pc).rules, rule.1 < dwarfFrameRegisters + 1 := by
  intro hall
  have hlast := hall _ (List.mem_append_right _ (List.mem_singleton_self _))
  exact absurd (show altFrameReturnColumn < dwarfFrameRegisters + 1 from hlast) (by decide)

end

/-- **Unwinding through signal frames.** Wherever `setup_rt_frame` delivers a signal, the frame is
recognised, and the registers and the pc of the program that is interrupted are recovered; but never
by columns that are all in the unwinder's table. -/
theorem unwind_incorrect (copies : Copies) (stack : SigStack) (ksig : KSignal) (regs : PtRegs)
    (m m' : ByteMemory)
    (h : storeFrame copies (getSigframe stack ksig regs) regs.user m = some m') :
    (∃ fs, Recovers m' (handlerContext (handlerRegs regs ksig (getSigframe stack ksig regs)))
      regs.user fs) ∧
    ¬ UnwindCorrect m' (handlerContext (handlerRegs regs ksig (getSigframe stack ksig regs)))
      regs.user := by
  have hcontext : handlerContext (handlerRegs regs ksig (getSigframe stack ksig regs)) =
      ⟨getSigframe stack ksig regs, getSigframe stack ksig regs + codeOffset⟩ := rfl
  rw [hcontext]
  refine ⟨⟨_, frameState_recovers h⟩, ?_⟩
  rintro ⟨fs, hrecovers, hcolumns⟩
  cases hrecovers.recognised.symm.trans (fallbackFrameState_eq h)
  exact frameState_columns _ _ hcolumns

/-- Nothing faults. -/
def demoCopies : Copies := ⟨fun _ => 0, fun _ => 0, fun _ => 0, fun _ _ => true⟩

/-- Signals on the stack of the program. -/
def demoStack : SigStack := ⟨fun _ => false, fun sp _ => sp⟩

/-- Interrupted at 0x1000 with the stack at 0x4000. -/
def demoRegs : PtRegs := ⟨0x1000, fun r => if r = Linux.sp then 0x4000 else 0, 0, 0⟩

def demoSignal : KSignal := ⟨11, 0x2000, false, 0⟩

theorem unwind_incorrect_demo :
    ∃ m', storeFrame demoCopies 0x3e64 demoRegs.user (fun _ => 0) = some m' ∧
      (∃ fs, Recovers m' ⟨0x3e64, 0x3ff8⟩ demoRegs.user fs) ∧
      ¬ UnwindCorrect m' ⟨0x3e64, 0x3ff8⟩ demoRegs.user :=
  ⟨_, rfl, unwind_incorrect demoCopies demoStack demoSignal demoRegs (fun _ => 0) _ rfl⟩

/-- Column 38 of 34. -/
theorem unwind_columns :
    ∃ m', storeFrame demoCopies 0x3e64 demoRegs.user (fun _ => 0) = some m' ∧
      fallbackFrameState m' ⟨0x3e64, 0x3ff8⟩ = some (frameState 0x3e64 0x1000) ∧
      ¬ UnwindCorrect m' ⟨0x3e64, 0x3ff8⟩ demoRegs.user := by
  obtain ⟨m', hstore⟩ : ∃ m', storeFrame demoCopies 0x3e64 demoRegs.user (fun _ => 0) = some m' :=
    ⟨_, rfl⟩
  have hstate : fallbackFrameState m' ⟨0x3e64, 0x3ff8⟩ = some (frameState 0x3e64 0x1000) :=
    fallbackFrameState_eq hstore
  refine ⟨m', hstore, hstate, ?_⟩
  rintro ⟨fs, hrecovers, hcolumns⟩
  cases hrecovers.recognised.symm.trans hstate
  exact frameState_columns _ _ hcolumns

end XrLinux.Gcc.FallbackFrame
