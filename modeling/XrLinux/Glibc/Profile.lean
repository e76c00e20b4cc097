import XrLinux.Machine.Bytes
import XrLinux.Glibc.Setjmp

/-!
# glibc — `_dl_runtime_profile`

The resolver of calls through the PLT when the program is profiled, from `dl-trampoline.S`. It calls
`_dl_profile_fixup` for the address of the target and for the size of the caller's frame that the
target is to have a copy of. A negative size is for a jump to the target. Otherwise it calls the
target on a copy of that much of the stack and passes the results to `_dl_audit_pltexit`.

What it calls is not assembly, and comes in as what a call of an address does until it is back.
-/

namespace XrLinux.Glibc.Profile

open Machine (Reg RegFile ByteState ByteOp Cond zero lr)
open Linux

/-- `s0`. -/
def s0 : Reg := sReg 0

/-! ## The frame -/

/-- `sizeof (struct La_xr17032_regs)`: `lr_reg`, `lr_lr` and `lr_sp`. -/
def dlSizeofRg : Nat := 4 * (4 + 1 + 1)

/-- `sizeof (struct La_xr17032_retval)`. -/
def dlSizeofRv : Nat := 4 * 4

def dlOffsetRgA0 : Nat := 0

def dlOffsetRgLr : Nat := 16

def dlOffsetRvA0 : Nat := 0

def offsetT1 : Nat := 8

def offsetSavedCallA0 : Nat := offsetT1 + 4

def offsetSavedCallA1 : Nat := offsetSavedCallA0 + 4

def offsetFs : Nat := offsetSavedCallA1 + 4

def offsetRv : Nat := offsetFs + 4

def offsetRg : Nat := offsetRv + dlSizeofRv

def sfSize : Nat := offsetRg + dlSizeofRg

/-! ## The code -/

/-- `mov rd, long [ra + offset]` -/
def load (rd ra : Reg) (offset : Nat) : ByteOp := .load .long rd ra (BitVec.ofNat 32 offset)

/-- `mov long [ra + offset], rb` -/
def store (ra : Reg) (offset : Nat) (rb : Reg) : ByteOp := .store .long ra (BitVec.ofNat 32 offset) rb

/-- `addi rd, ra, imm` and `subi rd, ra, imm` -/
def addi (rd ra : Reg) (imm : Nat) : ByteOp := .alu .add rd ra (.imm (BitVec.ofNat 16 imm))

def subi (rd ra : Reg) (imm : Nat) : ByteOp := .alu .sub rd ra (.imm (BitVec.ofNat 16 imm))

/-- The arguments are saved in the frame, and those of `_dl_profile_fixup` set up. -/
def saveOps : List ByteOp :=
  [subi sp sp sfSize, store sp 4 lr, store sp 8 s0,
    addi s0 sp 4,
    store s0 (offsetRg + dlOffsetRgA0 + 0) a0, store s0 (offsetRg + dlOffsetRgA0 + 4) a1,
    store s0 (offsetRg + dlOffsetRgA0 + 8) a2, store s0 (offsetRg + dlOffsetRgA0 + 12) a3,
    .alu .add a0 t0 (.plain zero), .alu .add a1 t1 (.reg t1 .lsh 1), .alu .add a2 lr (.plain zero),
    addi a3 s0 offsetRg, addi t0 s0 offsetFs, store sp 0 t0,
    store s0 offsetSavedCallA0 a0, store s0 offsetSavedCallA1 a1]

/-- The arguments from the frame. -/
def loadArgs : List ByteOp :=
  [load a0 s0 (offsetRg + dlOffsetRgA0 + 0), load a1 s0 (offsetRg + dlOffsetRgA0 + 4),
    load a2 s0 (offsetRg + dlOffsetRgA0 + 8), load a3 s0 (offsetRg + dlOffsetRgA0 + 12)]

/-- Up to the jump to the target, which is in `t4`. -/
def tailOps : List ByteOp :=
  [.alu .add t4 a3 (.plain zero)] ++ loadArgs ++
    -- `sp` comes from the caller's `s0`, which is loaded before
    [load lr s0 0, load s0 s0 4, addi sp s0 sfSize]

/-- Up to the call of `memcpy`. -/
def copyOps : List ByteOp :=
  [.alu .sub sp s0 (.plain t3), store s0 offsetT1 a3,
    .alu .add a0 sp (.plain zero), addi a1 s0 sfSize, .alu .add a2 t3 (.plain zero)]

/-- Up to the call of the target, which is in `t4`. -/
def callOps : List ByteOp := [load t4 s0 offsetT1] ++ loadArgs

/-- Up to the call of `_dl_audit_pltexit`. -/
def exitOps : List ByteOp :=
  -- the results go where the arguments of the call were saved, and not to `offsetRv`
  [store s0 (offsetSavedCallA0 + dlOffsetRvA0) a0, store s0 (offsetSavedCallA0 + dlOffsetRvA0 + 4) a1,
    store s0 (offsetSavedCallA0 + dlOffsetRvA0 + 8) a2,
    store s0 (offsetSavedCallA0 + dlOffsetRvA0 + 12) a3,
    load a0 s0 offsetSavedCallA0, load a1 s0 (offsetSavedCallA0 + 4),
    addi a2 s0 offsetRg, addi a3 s0 offsetRv]

/-- Up to the return. -/
def returnOps : List ByteOp :=
  [load a0 s0 (offsetRv + dlOffsetRvA0), load a1 s0 (offsetRv + dlOffsetRvA0 + 4),
    load a2 s0 (offsetRv + dlOffsetRvA0 + 8), load a3 s0 (offsetRv + dlOffsetRvA0 + 12),
    -- `lr_lr`, which nothing has stored
    load lr s0 (offsetRg + dlOffsetRgLr), addi sp s0 sfSize, load s0 s0 4]

/-- An `adr` and a `jalr` that call a symbol of the library, and the address after them. -/
structure CallSite where
  callee : Machine.Word
  pcrelLo : Machine.Word
  next : Machine.Word

/-- The callee at its first instruction. -/
def CallSite.enter (site : CallSite) (t : Reg) (c : ByteState) : ByteState :=
  (c.exec (.adr t (site.callee - site.pcrelLo))).setReg lr site.next

/-- What a call of an address does, up to when it is back. -/
abbrev Program := Machine.Word → ByteState → ByteState

/-- The call, which is to what `jalr` adds up. -/
def CallSite.call (site : CallSite) (code : Program) (t : Reg) (c : ByteState) : ByteState :=
  code ((c.exec (.adr t (site.callee - site.pcrelLo))).regs.get t + site.pcrelLo) (site.enter t c)

/-- The calls of `_dl_runtime_profile`, and the address after the call of the target. -/
structure Sites where
  profileFixup : CallSite
  memcpy : CallSite
  afterTarget : Machine.Word
  auditPltexit : CallSite

/-- A call through the PLT: the target as it is entered, `_dl_audit_pltexit` as it is entered, if it
is, and where and how it leaves for good. -/
structure Passage where
  target : Machine.Word
  entered : ByteState
  audited : Option ByteState
  pc : Machine.Word
  left : ByteState

/-- The target is jumped to, and returns to what it has in `lr`. -/
def tailJump (code : Program) (c : ByteState) : Passage :=
  let entered := c.execAll tailOps
  let target := entered.regs.get t4
  let left := code target entered
  { target, entered, audited := none, pc := entered.regs.get lr, left }

/-- The target is called on a copy of the frame. -/
def callThrough (code : Program) (sites : Sites) (c : ByteState) : Passage :=
  let c := sites.memcpy.call code t4 (c.execAll copyOps)
  let c := c.execAll callOps
  let target := c.regs.get t4
  let entered := c.setReg lr sites.afterTarget
  let c := (code target entered).execAll exitOps
  let audited := sites.auditPltexit.enter t4 c
  let c := sites.auditPltexit.call code t4 c
  let left := c.execAll returnOps
  { target, entered, audited := some audited, pc := left.regs.get lr, left }

/-- `_dl_runtime_profile`. -/
def dlRuntimeProfile (code : Program) (sites : Sites) (c : ByteState) : Passage :=
  let c := sites.profileFixup.call code t2 (c.execAll saveOps)
  let c := c.exec (load t3 s0 offsetFs)
  if Cond.ge.test (c.regs.get t3) then callThrough code sites c else tailJump code c

/-! ## What it is for -/

/-- A function called at `c` is back at `c'`. -/
def Returns (c c' : ByteState) : Prop := ∀ r ∈ lr :: calleeSaved, c'.regs.get r = c.regs.get r

/-- `_dl_profile_fixup (l, reloc_arg, retaddr, regs, framesizep)` called at `c`, with the last
argument on the stack. It leaves the frames above it alone, `depth` bytes of those before that of
`_dl_runtime_profile`. -/
structure ProfileFixup (depth : Nat) (target frameSize : Machine.Word) (c c' : ByteState) : Prop where
  target_eq : c'.regs.get a3 = target
  frameSize_eq : c'.mem.read32 (c.mem.read32 (c.regs.get sp).toNat) = frameSize.toNat
  mem_eq : ∀ x, (c.regs.get sp).toNat ≤ x → x < (c.regs.get sp).toNat + sfSize + depth →
    (x < c.mem.read32 (c.regs.get sp).toNat ∨ c.mem.read32 (c.regs.get sp).toNat + 4 ≤ x) →
    c'.mem x = c.mem x

/-- The registers of the arguments, and of the results. -/
def argRegs : List Reg := [a0, a1, a2, a3]

/-- A call at `c` of `target`, which is as if it had been called directly. -/
structure Passage.AsDirect (code : Program) (c : ByteState) (depth : Nat)
    (target frameSize : Machine.Word) (p : Passage) : Prop where
  target_eq : p.target = target
  args : ∀ r ∈ argRegs, p.entered.regs.get r = c.regs.get r
  returnAddress : frameSize.toInt < 0 → p.entered.regs.get lr = c.regs.get lr
  /-- What is on the stack, as far as it is to be copied. -/
  stackArgs : ∀ i < depth, (0 ≤ frameSize.toInt → i < frameSize.toNat) →
    p.entered.mem ((p.entered.regs.get sp).toNat + i) = c.mem ((c.regs.get sp).toNat + i)
  /-- `struct La_xr17032_retval`. -/
  audit : ∀ called ∈ p.audited, ∀ i, (h : i < argRegs.length) →
    called.mem.read32 ((called.regs.get a3).toNat + 4 * i) =
      ((code p.target p.entered).regs.get argRegs[i]).toNat
  results : ∀ r ∈ argRegs, p.left.regs.get r = (code p.target p.entered).regs.get r
  pc_eq : p.pc = c.regs.get lr
  kept : ∀ r ∈ [sp, s0, lr], p.left.regs.get r = c.regs.get r

/-! ## The frame as it is filled -/

/-- `s0` in the routine, where it is called with the stack pointer `stack`. -/
def frameBase (stack : Machine.Word) : Machine.Word := stack - 64 + 4

/-- Words by their addresses, for a memory of bytes. -/
def asBytes (words : List (Machine.Word × Machine.Word)) : List (Nat × Nat) :=
  words.map fun word => (word.1.toNat, word.2.toNat)

theorem asBytes_append (words words' : List (Machine.Word × Machine.Word)) :
    asBytes (words ++ words') = asBytes words ++ asBytes words' := List.map_append

/-- Stores from one base. -/
theorem execAll_stores {regs : RegFile} (m : ByteMemory) {ra : Reg} {stores : List (Nat × Reg)}
    {words : List (Machine.Word × Machine.Word)}
    (h : stores.map (fun x => (regs.get ra + BitVec.ofNat 32 x.1, regs.get x.2)) = words) :
    (⟨regs, m⟩ : ByteState).execAll (stores.map fun x => store ra x.1 x.2) =
      ⟨regs, m.writeAll (asBytes words)⟩ := by
  subst h
  induction stores generalizing m with
  | nil => rfl
  | cons x stores ih => exact ih _

section
variable (c : ByteState)

/-- The registers of the routine's own frame. -/
def frameRegs : RegFile :=
  (c.regs.set sp (c.regs.get sp - 64)).set s0 (frameBase (c.regs.get sp))

/-- The registers at the first call. -/
def fixupRegs : RegFile :=
  ((((((frameRegs c).set a0 (c.regs.get t0)).set a1 (c.regs.get t1 + c.regs.get t1 <<< 1)).set a2
    (c.regs.get lr)).set a3 (frameBase (c.regs.get sp) + 40)).set t0
    (frameBase (c.regs.get sp) + 20))

/-- What is stored before the first call: `lr` and `s0`, the arguments of the target, and those of
`_dl_profile_fixup`. -/
def linkWords : List (Machine.Word × Machine.Word) :=
  [(c.regs.get sp - 64 + 4, c.regs.get lr), (c.regs.get sp - 64 + 8, c.regs.get s0)]

def argWords : List (Machine.Word × Machine.Word) :=
  [(frameBase (c.regs.get sp) + 40, c.regs.get a0), (frameBase (c.regs.get sp) + 44, c.regs.get a1),
    (frameBase (c.regs.get sp) + 48, c.regs.get a2),
    (frameBase (c.regs.get sp) + 52, c.regs.get a3)]

def framesizepWord : List (Machine.Word × Machine.Word) :=
  [(c.regs.get sp - 64, frameBase (c.regs.get sp) + 20)]

def callWords : List (Machine.Word × Machine.Word) :=
  [(frameBase (c.regs.get sp) + 12, c.regs.get t0),
    (frameBase (c.regs.get sp) + 16, c.regs.get t1 + c.regs.get t1 <<< 1)]

def savedWords : List (Machine.Word × Machine.Word) :=
  linkWords c ++ argWords c ++ framesizepWord c ++ callWords c

theorem execAll_saveOps :
    c.execAll saveOps = ⟨fixupRegs c, c.mem.writeAll (asBytes (savedWords c))⟩ := by
  have hsplit : saveOps =
      [subi sp sp sfSize] ++ [(4, lr), (8, s0)].map (fun x => store sp x.1 x.2) ++
      [addi s0 sp 4] ++ [(40, a0), (44, a1), (48, a2), (52, a3)].map (fun x => store s0 x.1 x.2) ++
      [.alu .add a0 t0 (.plain zero), .alu .add a1 t1 (.reg t1 .lsh 1),
        .alu .add a2 lr (.plain zero), addi a3 s0 offsetRg, addi t0 s0 offsetFs] ++
      [(0, t0)].map (fun x => store sp x.1 x.2) ++
      [(12, a0), (16, a1)].map (fun x => store s0 x.1 x.2) := rfl
  have hsub : c.execAll [subi sp sp sfSize] = ⟨c.regs.set sp (c.regs.get sp - 64), c.mem⟩ := rfl
  have hlink := @execAll_stores (c.regs.set sp (c.regs.get sp - 64)) c.mem sp [(4, lr), (8, s0)]
    (linkWords c) rfl
  have hadd (m : ByteMemory) : (⟨c.regs.set sp (c.regs.get sp - 64), m⟩ : ByteState).execAll
      [addi s0 sp 4] = ⟨frameRegs c, m⟩ := rfl
  have harg (m : ByteMemory) := @execAll_stores (frameRegs c) m s0
    [(40, a0), (44, a1), (48, a2), (52, a3)] (argWords c) rfl
  have hmove (m : ByteMemory) : (⟨frameRegs c, m⟩ : ByteState).execAll
      [.alu .add a0 t0 (.plain zero), .alu .add a1 t1 (.reg t1 .lsh 1),
        .alu .add a2 lr (.plain zero), addi a3 s0 offsetRg, addi t0 s0 offsetFs] =
      ⟨fixupRegs c, m⟩ := by
    simp only [ByteState.execAll_cons, ByteState.exec, ByteState.setReg, Machine.AluOp.eval_add,
      Machine.Src.value_plain, RegFile.get_zero, add_zero]
    rfl
  have hframesizep (m : ByteMemory) := @execAll_stores (fixupRegs c) m sp [(0, t0)]
    (framesizepWord c)
    (congrArg (fun addr => [(addr, frameBase (c.regs.get sp) + 20)]) (BitVec.add_zero _))
  have hcall (m : ByteMemory) := @execAll_stores (fixupRegs c) m s0 [(12, a0), (16, a1)]
    (callWords c) rfl
  rw [hsplit]
  simp only [ByteState.execAll_append]
  rw [hsub, hlink, hadd, harg, hmove, hframesizep, hcall, savedWords, asBytes_append,
    asBytes_append, asBytes_append, ByteMemory.writeAll_append, ByteMemory.writeAll_append,
    ByteMemory.writeAll_append]

/-- Where the words are in the frame. -/
def savedOffsets : List Nat := [4, 8, 44, 48, 52, 56, 0, 16, 20]

end

theorem frameBase_toNat {stack : Machine.Word} (hroom : 64 ≤ stack.toNat) {k : Nat} (hk : k ≤ 60) :
    (frameBase stack + BitVec.ofNat 32 k).toNat = stack.toNat - 64 + (4 + k) := by
  have hlt := stack.isLt
  unfold frameBase
  bv_omega

section
variable {c : ByteState} (hroom : 64 ≤ (c.regs.get sp).toNat)
include hroom

theorem savedWords_addr :
    (asBytes (savedWords c)).map Prod.fst =
      savedOffsets.map fun offset => (c.regs.get sp).toNat - 64 + offset := by
  have hlt := (c.regs.get sp).isLt
  have hstack (k : Nat) (hk : k ≤ 8) : (c.regs.get sp - 64 + BitVec.ofNat 32 k).toNat =
      (c.regs.get sp).toNat - 64 + k := by
    bv_omega
  have hbase (k : Nat) (hk : k ≤ 60) := @frameBase_toNat (c.regs.get sp) hroom k hk
  simp only [savedWords, linkWords, argWords, framesizepWord, callWords, asBytes, savedOffsets,
    List.map_cons, List.map_nil, List.cons_append, List.nil_append, List.cons.injEq, and_true]
  exact ⟨hstack 4 (by decide), hstack 8 (by decide), hbase 40 (by decide), hbase 44 (by decide),
    hbase 48 (by decide), hbase 52 (by decide), (BitVec.toNat_sub_of_le hroom), hbase 12 (by decide),
    hbase 16 (by decide)⟩

theorem savedWords_offset {word : Nat × Nat} (hword : word ∈ asBytes (savedWords c)) :
    ∃ offset ∈ savedOffsets, word.1 = (c.regs.get sp).toNat - 64 + offset := by
  have hmem := List.mem_map_of_mem (f := Prod.fst) hword
  rw [savedWords_addr hroom, List.mem_map] at hmem
  obtain ⟨offset, hoffset, heq⟩ := hmem
  exact ⟨offset, hoffset, heq.symm⟩

theorem savedWords_apart : (asBytes (savedWords c)).Pairwise
    fun word word' => word.1 + 4 ≤ word'.1 ∨ word'.1 + 4 ≤ word.1 := by
  have hoffsets : savedOffsets.Pairwise fun offset offset' =>
      offset + 4 ≤ offset' ∨ offset' + 4 ≤ offset := by
    decide
  have haddrs : ((asBytes (savedWords c)).map Prod.fst).Pairwise fun addr addr' =>
      addr + 4 ≤ addr' ∨ addr' + 4 ≤ addr := by
    rw [savedWords_addr hroom, List.pairwise_map]
    exact hoffsets.imp fun h => by omega
  exact List.pairwise_map.mp haddrs

/-- A word of the frame is there at the first call. -/
theorem read32_saved {word : Machine.Word × Machine.Word} (hword : word ∈ savedWords c) :
    (c.execAll saveOps).mem.read32 word.1.toNat = word.2.toNat := by
  have hlt : word.2.toNat < 4294967296 := word.2.isLt
  have hmem : (word.1.toNat, word.2.toNat) ∈ asBytes (savedWords c) :=
    List.mem_map_of_mem (f := fun word => (word.1.toNat, word.2.toNat)) hword
  rw [execAll_saveOps]
  exact c.mem.read32_writeAll (savedWords_apart hroom) hmem hlt

/-- What is above the frame is left alone. -/
theorem sameOn_saved (depth : Nat) :
    ByteMemory.SameOn c.mem (c.execAll saveOps).mem (c.regs.get sp).toNat depth := by
  rw [execAll_saveOps]
  have hsmall : ∀ offset ∈ savedOffsets, offset + 4 ≤ 64 := by decide
  refine ByteMemory.sameOn_writeAll _ fun word hword => ?_
  obtain ⟨offset, hoffset, heq⟩ := savedWords_offset hroom hword
  have hle := hsmall offset hoffset
  omega

end

/-! ## The calls -/

section
variable {code : Program} {c : ByteState}

theorem Returns.get {c' : ByteState} (h : Returns c c') {r : Reg} (hr : r ∈ calleeSaved) :
    c'.regs.get r = c.regs.get r := h r (List.mem_cons_of_mem lr hr)

theorem s0_mem_calleeSaved : s0 ∈ calleeSaved := by decide

/-- A call keeps the registers that functions keep, but for the one it is made with. -/
theorem CallSite.call_get (hreturns : ∀ addr c, Returns c (code addr c)) (site : CallSite) {t r : Reg}
    (hr : r ∈ calleeSaved) (hlr : r ≠ lr) (ht : r ≠ t) :
    (site.call code t c).regs.get r = c.regs.get r := by
  unfold CallSite.call
  rw [(hreturns _ _).get hr]
  exact (RegFile.get_set_of_ne hlr).trans (RegFile.get_set_of_ne ht)

/-- After a call through, `sp` is the frame's end by what `s0` is, which all have kept. -/
theorem callThrough_sp (hreturns : ∀ addr c, Returns c (code addr c)) (sites : Sites) :
    (callThrough code sites c).left.regs.get sp = c.regs.get s0 + 64 := by
  have hmemcpy := CallSite.call_get (c := c.execAll copyOps) hreturns sites.memcpy (t := t4)
    s0_mem_calleeSaved (by decide) (by decide)
  let c₁ := (sites.memcpy.call code t4 (c.execAll copyOps)).execAll callOps
  let entered := c₁.setReg lr sites.afterTarget
  have htarget := (hreturns (c₁.regs.get t4) entered).get s0_mem_calleeSaved
  let c₂ := (code (c₁.regs.get t4) entered).execAll exitOps
  have haudit := CallSite.call_get (c := c₂) hreturns sites.auditPltexit (t := t4)
    s0_mem_calleeSaved (by decide) (by decide)
  show (sites.auditPltexit.call code t4 c₂).regs.get s0 + 64 = c.regs.get s0 + 64
  rw [haudit]
  show (code (c₁.regs.get t4) entered).regs.get s0 + 64 = _
  rw [htarget]
  show (sites.memcpy.call code t4 (c.execAll copyOps)).regs.get s0 + 64 = _
  rw [hmemcpy]
  rfl

end

/-! ## After `_dl_profile_fixup` -/

section
variable {code : Program} {sites : Sites} {c : ByteState} {depth : Nat}
  {target frameSize : Machine.Word}

/-- The state after the first call. -/
def fixedUp (code : Program) (sites : Sites) (c : ByteState) : ByteState :=
  sites.profileFixup.call code t2 (c.execAll saveOps)

variable (hroom : 64 ≤ (c.regs.get sp).toNat)
  (hreturns : ∀ addr c, Returns c (code addr c))
  (hfix : ProfileFixup depth target frameSize (sites.profileFixup.enter t2 (c.execAll saveOps))
    (fixedUp code sites c))

include hroom in
/-- The pointer that `_dl_profile_fixup` is given. -/
theorem framesizep_eq :
    (sites.profileFixup.enter t2 (c.execAll saveOps)).mem.read32
      ((sites.profileFixup.enter t2 (c.execAll saveOps)).regs.get sp).toNat =
      (c.regs.get sp).toNat - 64 + 24 := by
  have hword : (c.regs.get sp - 64, frameBase (c.regs.get sp) + 20) ∈ savedWords c := by
    simp [savedWords, framesizepWord]
  exact (read32_saved hroom hword).trans (frameBase_toNat hroom (k := 20) (by decide))

include hroom in
theorem entered_sp : ((sites.profileFixup.enter t2 (c.execAll saveOps)).regs.get sp).toNat =
    (c.regs.get sp).toNat - 64 := by
  show (c.regs.get sp - 64).toNat = _
  exact BitVec.toNat_sub_of_le hroom

include hroom hfix in
/-- The frame, apart from the word of the size, and what is above it. -/
theorem fixedUp_sameOn {a len : Nat} (hlo : (c.regs.get sp).toNat - 64 ≤ a)
    (hhi : a + len ≤ (c.regs.get sp).toNat + depth)
    (hword : a + len ≤ (c.regs.get sp).toNat - 40 ∨ (c.regs.get sp).toNat - 36 ≤ a) :
    ByteMemory.SameOn (c.execAll saveOps).mem (fixedUp code sites c).mem a len := by
  intro x hx hx'
  have hsize : sfSize = 64 := rfl
  apply hfix.mem_eq x
  · rw [entered_sp hroom]
    omega
  · rw [entered_sp hroom, hsize]
    omega
  · rw [framesizep_eq hroom]
    omega

include hroom hfix in
theorem fixedUp_read32 {word : Machine.Word × Machine.Word}
    (hword : word ∈ linkWords c ++ argWords c) :
    BitVec.ofNat 32 ((fixedUp code sites c).mem.read32 word.1.toNat) = word.2 := by
  have hsaved : word ∈ savedWords c := by
    rw [savedWords, List.append_assoc]
    exact List.mem_append_left _ hword
  have hlink : (asBytes (linkWords c ++ argWords c)).map Prod.fst =
      [4, 8, 44, 48, 52, 56].map fun offset => (c.regs.get sp).toNat - 64 + offset := by
    have haddr := congrArg (List.take 6) (savedWords_addr hroom)
    exact haddr
  have hmem : word.1.toNat ∈ (asBytes (linkWords c ++ argWords c)).map Prod.fst :=
    List.mem_map_of_mem (f := Prod.fst)
      (List.mem_map_of_mem (f := fun word => (word.1.toNat, word.2.toNat)) hword)
  rw [hlink] at hmem
  have hsmall : ∀ offset ∈ [4, 8, 44, 48, 52, 56], offset + 4 ≤ 64 ∧
      (offset + 4 ≤ 24 ∨ 28 ≤ offset) := by decide
  obtain ⟨offset, hoffset, haddr⟩ := List.mem_map.mp hmem
  have hle := hsmall offset hoffset
  have hsame : ByteMemory.SameOn (c.execAll saveOps).mem (fixedUp code sites c).mem
      word.1.toNat 4 := fixedUp_sameOn hroom hfix (by omega) (by omega) (by omega)
  rw [hsame.read32, read32_saved hroom hsaved, BitVec.ofNat_toNat, BitVec.setWidth_eq]

include hroom hfix in
theorem fixedUp_frameSize :
    BitVec.ofNat 32 ((fixedUp code sites c).mem.read32 (frameBase (c.regs.get sp) + 20).toNat) =
      frameSize := by
  have haddr : (frameBase (c.regs.get sp) + 20).toNat = (c.regs.get sp).toNat - 64 + 24 :=
    frameBase_toNat hroom (k := 20) (by decide)
  have hsize := hfix.frameSize_eq
  rw [framesizep_eq hroom, ← haddr] at hsize
  rw [hsize, BitVec.ofNat_toNat, BitVec.setWidth_eq]

include hreturns in
theorem fixedUp_s0 : (fixedUp code sites c).regs.get s0 = frameBase (c.regs.get sp) :=
  CallSite.call_get (c := c.execAll saveOps) hreturns sites.profileFixup (t := t2)
    s0_mem_calleeSaved (by decide) (by decide)

include hroom hfix in
theorem fixedUp_above : ByteMemory.SameOn c.mem (fixedUp code sites c).mem
    (c.regs.get sp).toNat depth :=
  (sameOn_saved hroom depth).trans
    (fixedUp_sameOn hroom hfix (by omega) (le_refl _) (by omega))

include hroom hreturns hfix in
/-- The registers that the target is jumped to with. -/
theorem tail_entered {c' : ByteState} (hc' : c' = (fixedUp code sites c).exec (load t3 s0 offsetFs)) :
    (c'.execAll tailOps).regs.get t4 = target ∧
      (∀ r ∈ argRegs, (c'.execAll tailOps).regs.get r = c.regs.get r) ∧
      (c'.execAll tailOps).regs.get lr = c.regs.get lr ∧
      (c'.execAll tailOps).regs.get s0 = c.regs.get s0 ∧
      (c'.execAll tailOps).regs.get sp = c.regs.get s0 + 64 := by
  have hs0 : c'.regs.get s0 = frameBase (c.regs.get sp) := by
    rw [hc']
    exact fixedUp_s0 hreturns
  have hmem : c'.mem = (fixedUp code sites c).mem := by
    rw [hc']
    rfl
  have hload (k : Nat) (value : Machine.Word)
      (hword : (frameBase (c.regs.get sp) + BitVec.ofNat 32 k, value) ∈ linkWords c ++ argWords c) :
      BitVec.ofNat 32 (c'.mem.read32 (c'.regs.get s0 + BitVec.ofNat 32 k).toNat) = value := by
    rw [hs0, hmem]
    exact fixedUp_read32 hroom hfix hword
  have hlr := hload 0 (c.regs.get lr) (by simp [linkWords, frameBase])
  have hs := hload 4 (c.regs.get s0) (by simp [linkWords, frameBase, add_assoc])
  have harg (k : Nat) (r : Reg)
      (hword : (frameBase (c.regs.get sp) + BitVec.ofNat 32 k, c.regs.get r) ∈ argWords c) :=
    hload k (c.regs.get r) (List.mem_append_right _ hword)
  refine ⟨?_, ?_, hlr, hs, congrArg (· + 64) hs⟩
  · have ha3 : c'.regs.get a3 = target := by
      rw [hc']
      exact (RegFile.get_set_of_ne (by decide)).trans hfix.target_eq
    show c'.regs.get a3 + (Machine.Src.plain zero).value .add c'.regs = target
    rw [Machine.Src.value_plain, RegFile.get_zero, ha3, add_zero]
  · intro r hr
    simp only [argRegs, List.mem_cons, List.not_mem_nil, or_false] at hr
    rcases hr with rfl | rfl | rfl | rfl
    · exact harg 40 a0 (by simp [argWords])
    · exact harg 44 a1 (by simp [argWords])
    · exact harg 48 a2 (by simp [argWords])
    · exact harg 52 a3 (by simp [argWords])

/-- Whether a call through the PLT is as if it were direct, for a decision of the profiler. -/
theorem dlRuntimeProfile_asDirect_iff (code : Program) (sites : Sites) (c : ByteState) (depth : Nat)
    (target frameSize : Machine.Word) (hroom : 64 ≤ (c.regs.get sp).toNat)
    (hreturns : ∀ addr c, Returns c (code addr c))
    (hfix : ProfileFixup depth target frameSize
      (sites.profileFixup.enter t2 (c.execAll saveOps))
      (sites.profileFixup.call code t2 (c.execAll saveOps))) :
    (dlRuntimeProfile code sites c).AsDirect code c depth target frameSize ↔
      frameSize.toInt < 0 ∧ c.regs.get s0 + 64 = c.regs.get sp := by
  have hs0 : (fixedUp code sites c).regs.get s0 = frameBase (c.regs.get sp) := fixedUp_s0 hreturns
  let c' := (fixedUp code sites c).exec (load t3 s0 offsetFs)
  have ht3 : c'.regs.get t3 = frameSize := by
    show BitVec.ofNat 32 ((fixedUp code sites c).mem.read32
      ((fixedUp code sites c).regs.get s0 + 20).toNat) = frameSize
    rw [hs0]
    exact fixedUp_frameSize hroom hfix
  have hs0' : c'.regs.get s0 = frameBase (c.regs.get sp) := hs0
  have hif : dlRuntimeProfile code sites c =
      if Cond.ge.test frameSize then callThrough code sites c' else tailJump code c' := by
    rw [← ht3]
    rfl
  rw [hif]
  cases htest : Cond.ge.test frameSize with
  | true =>
    have hge := (Machine.Cond.test_ge_iff frameSize).mp htest
    rw [if_pos rfl]
    refine ⟨fun h => ?_, fun h => absurd h.1 (by omega)⟩
    -- the stack pointer is a word higher than it was
    have hsp := h.kept sp (by simp)
    rw [callThrough_sp hreturns, hs0', frameBase] at hsp
    bv_omega
  | false =>
    have hlt : frameSize.toInt < 0 := by
      have hge := (Machine.Cond.test_ge_iff frameSize).not.mp (by rw [htest]; decide)
      omega
    rw [if_neg (by decide)]
    obtain ⟨htarget, hargs, hlr, hs, hsp⟩ := tail_entered hroom hreturns hfix (show c' = _ from rfl)
    have hback := hreturns ((c'.execAll tailOps).regs.get t4) (c'.execAll tailOps)
    constructor
    · intro h
      have hleft := h.kept sp (by simp)
      have hkept : (tailJump code c').left.regs.get sp = (c'.execAll tailOps).regs.get sp :=
        hback.get (by decide)
      exact ⟨hlt, (hkept.trans hsp).symm.trans hleft⟩
    · intro h
      have hsp' : (c'.execAll tailOps).regs.get sp = c.regs.get sp := hsp.trans h.2
      refine ⟨htarget, hargs, fun _ => hlr, fun i hi _ => ?_, nofun, fun r _ => rfl, hlr, ?_⟩
      · show (c'.execAll tailOps).mem (((c'.execAll tailOps).regs.get sp).toNat + i) = _
        rw [hsp']
        exact fixedUp_above hroom hfix _ (by omega) (by omega)
      · intro r hr
        simp only [List.mem_cons, List.not_mem_nil, or_false] at hr
        rcases hr with rfl | rfl | rfl
        · exact (hback.get (by decide)).trans hsp'
        · exact (hback.get s0_mem_calleeSaved).trans hs
        · exact (hback lr List.mem_cons_self).trans hlr

end

/-- A program with `_dl_profile_fixup` at `0x1000`, for a jump to `0x4000`, and `memcpy` at
`0x2000`. -/
def jumpProgram : Program := fun addr c =>
  if addr = 0x1000 then
    ⟨c.regs.set a3 0x4000,
      c.mem.write32 (c.mem.read32 (c.regs.get sp).toNat) (-1 : Machine.Word).toNat⟩
  else if addr = 0x2000 then
    ⟨c.regs.set a3 (c.regs.get a0),
      c.mem.copy (c.regs.get a0).toNat (c.regs.get a1).toNat (c.regs.get a2).toNat⟩
  else c

def jumpSites : Sites :=
  { profileFixup := ⟨0x1000, 0, 0x104⟩
    memcpy := ⟨0x2000, 0, 0x108⟩
    afterTarget := 0x10c
    auditPltexit := ⟨0x3000, 0, 0x110⟩ }

/-- A caller with a stack and a value in `s0`. -/
def caller (saved : Machine.Word) : ByteState :=
  ⟨⟨fun r => if r = sp then 0x8000 else if r = s0 then saved else 0⟩, fun _ => 0⟩

theorem jumpProgram_returns (addr : Machine.Word) (c : ByteState) :
    Returns c (jumpProgram addr c) := by
  have hne : ∀ r ∈ lr :: calleeSaved, r ≠ a3 := by decide
  intro r hr
  unfold jumpProgram
  split_ifs
  · exact RegFile.get_set_of_ne (hne r hr)
  · exact RegFile.get_set_of_ne (hne r hr)
  · rfl

theorem jumpProgram_fixup (saved : Machine.Word) :
    ProfileFixup 0 0x4000 (-1)
      (jumpSites.profileFixup.enter t2 ((caller saved).execAll saveOps))
      (jumpSites.profileFixup.call jumpProgram t2 ((caller saved).execAll saveOps)) where
  target_eq := rfl
  frameSize_eq := ByteMemory.read32_write32_self _ _ (by decide)
  mem_eq := fun _ _ _ hbeside => ByteMemory.write32_of_not_mem _ _ hbeside

/-- A jump to the target with a stack pointer that is made of the caller's `s0`. -/
theorem dlRuntimeProfile_moves_sp :
    (∀ addr c, Returns c (jumpProgram addr c)) ∧
      ProfileFixup 0 0x4000 (-1)
        (jumpSites.profileFixup.enter t2 ((caller 0).execAll saveOps))
        (jumpSites.profileFixup.call jumpProgram t2 ((caller 0).execAll saveOps)) ∧
      ¬ (dlRuntimeProfile jumpProgram jumpSites (caller 0)).AsDirect jumpProgram (caller 0) 0
        0x4000 (-1) := by
  refine ⟨jumpProgram_returns, jumpProgram_fixup 0, fun h => ?_⟩
  have hsp := h.kept sp (by simp)
  revert hsp
  decide

/-- A caller whose `s0` is where the frame will be. -/
theorem dlRuntimeProfile_asDirect_iff_frame :
    64 ≤ ((caller 0x7fc0).regs.get sp).toNat ∧
      ((dlRuntimeProfile jumpProgram jumpSites (caller 0x7fc0)).AsDirect jumpProgram
        (caller 0x7fc0) 0 0x4000 (-1) ↔
      (-1 : Machine.Word).toInt < 0 ∧
        (caller 0x7fc0).regs.get s0 + 64 = (caller 0x7fc0).regs.get sp) :=
  ⟨by decide, dlRuntimeProfile_asDirect_iff jumpProgram jumpSites (caller 0x7fc0) 0 0x4000 (-1)
    (by decide) jumpProgram_returns (jumpProgram_fixup 0x7fc0)⟩

end XrLinux.Glibc.Profile
