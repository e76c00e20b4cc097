import XrLinux.Machine.Memory
import XrLinux.Linux.Regs

/-!
# glibc — `setjmp` and `longjmp`

`setjmp.S` and `__longjmp.S`, store by store and load by load. What is C of the common part of
glibc comes in by what it does: `__sigjmp_save` at the end of `setjmp`, and what `siglongjmp` does
before it calls `__longjmp`.
-/

namespace XrLinux.Glibc

open Machine (Reg RegFile State Op Line Departure depart zero lr)
open Linux

/-- `__sigsetjmp` stores its registers here, from `a0`. -/
def sigsetjmpStores : List (Machine.Word × Reg) :=
  [(0x00, lr), (0x04, sReg 0), (0x08, sReg 1), (0x0c, sReg 2), (0x10, sReg 3), (0x14, sReg 4),
    (0x18, sReg 5), (0x1c, sReg 6), (0x20, sReg 7), (0x24, sReg 8), (0x28, sReg 9),
    (0x2c, sReg 10), (0x30, sReg 11), (0x34, sReg 12), (0x38, sReg 13), (0x3c, sReg 14),
    (0x40, sReg 15), (0x44, sReg 16), (0x48, sReg 17), (0x4c, sp)]

/-- `__longjmp` loads its registers from here, from `a0`. -/
def longjmpLoads : List (Reg × Machine.Word) :=
  [(lr, 0x00), (sReg 0, 0x04), (sReg 1, 0x08), (sReg 2, 0x0c), (sReg 3, 0x10), (sReg 4, 0x14),
    (sReg 5, 0x18), (sReg 6, 0x1c), (sReg 7, 0x20), (sReg 8, 0x24), (sReg 9, 0x28),
    (sReg 10, 0x2c), (sReg 11, 0x30), (sReg 12, 0x34), (sReg 13, 0x38), (sReg 14, 0x3c),
    (sReg 15, 0x40), (sReg 16, 0x44), (sReg 17, 0x48), (sp, 0x4c)]

/-- `sizeof (__jmp_buf)`: `__pc`, `__regs` and `__sp`. -/
def jmpBufSize : Nat := 4 * (1 + 18 + 1)

/-- The function is entered by one of its three names. -/
inductive SetjmpName where
  | _setjmp
  | setjmp
  | __sigsetjmp
  deriving DecidableEq

/-- What comes before `__sigsetjmp`. The `adr` of `_setjmp` is for a jump to there. -/
def SetjmpName.start (t1Value : Machine.Word) : SetjmpName → List Op
  | ._setjmp => [.alu .add a1 zero (.imm 0), .adr t1 t1Value]
  | .setjmp => [.alu .add a1 zero (.imm 1)]
  | .__sigsetjmp => []

/-- How `__sigsetjmp` ends. -/
inductive SetjmpEnd where
  /-- In `ld.so`. -/
  | rtld
  /-- A tail call of `__sigjmp_save`. -/
  | libc (sigjmpSave pcrelLo : Machine.Word)

def SetjmpEnd.code : SetjmpEnd → List Line
  | .rtld => [.op (.alu .add a3 zero (.imm 0)), .jump lr 0]
  | .libc sigjmpSave pcrelLo => [.op (.adr t1 (sigjmpSave - pcrelLo)), .jump t1 pcrelLo]

/-- What comes before the end. -/
def setjmpOps (name : SetjmpName) (t1Value : Machine.Word) : List Op :=
  name.start t1Value ++ sigsetjmpStores.map fun x => Op.store a0 x.1 x.2

def setjmpCode (name : SetjmpName) (t1Value : Machine.Word) (fin : SetjmpEnd) : List Line :=
  (setjmpOps name t1Value).map .op ++ fin.code

/-- `__longjmp` up to its jump. -/
def longjmpOps : List Op :=
  longjmpLoads.map (fun x => .load x.1 a0 x.2) ++
    [.alu .slt a0 a1 (.imm 1), .alu .add a0 a0 (.plain a1)]

/-- `__longjmp`. -/
def longjmpCode : List Line := longjmpOps.map .op ++ [.jump lr 0]

/-- `s0` to `s17` and `sp`, which C functions keep. -/
def calleeSaved : List Reg := (List.finRange 18).map sReg ++ [sp]

/-- The free words below a stack pointer that a function with such a frame uses. -/
def onStack (stackPointer : Machine.Word) (words : Nat) (addr : Machine.Word) : Prop :=
  ∃ j, 1 ≤ j ∧ j ≤ words ∧ addr = stackPointer - BitVec.ofNat 32 (4 * j)

/-- `__mask_was_saved` and `__saved_mask`, the words of `struct __jmp_buf_tag` after `__jmpbuf`. -/
def maskField (env : Machine.Word) (addr : Machine.Word) : Prop :=
  ∃ j, j < 33 ∧ addr = env + BitVec.ofNat 32 (jmpBufSize + 4 * j)

/-- `__sigjmp_save (env, savemask)`: C that saves the mask after the registers, and returns 0. -/
structure SigjmpSave (words : Nat) (c c' : State) : Prop where
  kept : ∀ r ∈ calleeSaved, c'.regs.get r = c.regs.get r
  returns_zero : c'.regs.get a3 = 0
  mem_eq : ∀ addr, ¬ maskField (c.regs.get a0) addr → ¬ onStack (c.regs.get sp) words addr →
    c'.mem addr = c.mem addr

/-- A call of `setjmp` at `c` that is back at `pc` with `c'`. -/
inductive SetjmpReturns (words : Nat) (name : SetjmpName) (t1Value : Machine.Word) (c : State) :
    Machine.Word → State → Prop where
  | rtld {pc : Machine.Word} {c' : State}
      (h : depart (setjmpCode name t1Value .rtld) (setjmpCode name t1Value .rtld).length 0 c =
        some (.jump pc c')) :
      SetjmpReturns words name t1Value c pc c'
  | libc {sigjmpSave pcrelLo : Machine.Word} {c₀ c' : State}
      (h : depart (setjmpCode name t1Value (.libc sigjmpSave pcrelLo))
        (setjmpCode name t1Value (.libc sigjmpSave pcrelLo)).length 0 c =
        some (.jump sigjmpSave c₀))
      (hsave : SigjmpSave words c₀ c') : SetjmpReturns words name t1Value c (c₀.regs.get lr) c'

/-- `siglongjmp (env, val)` at `c`, up to its call of `__longjmp (env, val ?: 1)` at `c'`. It has
restored the mask, if that was saved, and has written to its stack only. -/
structure SiglongjmpCalls (words : Nat) (c c' : State) : Prop where
  env_eq : c'.regs.get a0 = c.regs.get a0
  val_eq : c'.regs.get a1 = if c.regs.get a1 = 0 then 1 else c.regs.get a1
  mem_eq : ∀ addr, ¬ onStack (c.regs.get sp) words addr → c'.mem addr = c.mem addr

/-! ## The buffer -/

/-- What is in the buffer at `env` after `setjmp` has been called with the registers of `c`. -/
def Saved (c : State) (env : Machine.Word) (mem : Machine.Word → Machine.Word) : Prop :=
  ∀ x ∈ sigsetjmpStores, mem (env + x.1) = c.regs.get x.2

/-- No word of the buffer is in the free part of the stack. -/
def OffStack (env stackPointer : Machine.Word) (words : Nat) : Prop :=
  ∀ x ∈ sigsetjmpStores, ¬ onStack stackPointer words (env + x.1)

/-- The loads are from where the stores are to. -/
theorem longjmpLoads_stored : ∀ x ∈ longjmpLoads, (x.2, x.1) ∈ sigsetjmpStores := by
  have hswap : longjmpLoads.map Prod.swap = sigsetjmpStores := rfl
  intro x hx
  exact hswap ▸ List.mem_map_of_mem hx

theorem sigsetjmpStores_lt : ∀ x ∈ sigsetjmpStores, x.1.toNat < jmpBufSize := by
  have hoffsets : ∀ offset ∈ sigsetjmpStores.map fun x => x.1.toNat, offset < jmpBufSize := by
    decide
  exact fun x hx => hoffsets _ (List.mem_map_of_mem hx)

theorem sigsetjmpStores_ne : ∀ x ∈ sigsetjmpStores, x.2 ≠ a1 ∧ x.2 ≠ t1 := by
  have hregs : ∀ r ∈ sigsetjmpStores.map Prod.snd, r ≠ a1 ∧ r ≠ t1 := by decide
  exact fun x hx => hregs x.2 (List.mem_map_of_mem hx)

theorem longjmpLoads_ne : ∀ x ∈ longjmpLoads, x.1 ≠ a0 := by
  have hregs : ∀ r ∈ longjmpLoads.map Prod.fst, r ≠ a0 := by decide
  exact fun x hx => hregs x.1 (List.mem_map_of_mem hx)

/-- The mask is after the registers. -/
theorem not_maskField {x : Machine.Word × Reg} (hx : x ∈ sigsetjmpStores) (env : Machine.Word) :
    ¬ maskField env (env + x.1) := by
  rintro ⟨j, hj, heq⟩
  rw [BitVec.add_right_inj] at heq
  have hlt := sigsetjmpStores_lt x hx
  have hsize : jmpBufSize = 80 := rfl
  rw [heq, BitVec.toNat_ofNat, hsize, Nat.mod_eq_of_lt (by omega)] at hlt
  omega

/-! ## `setjmp` -/

theorem start_execAll (name : SetjmpName) (t1Value : Machine.Word) (c : State) :
    (c.execAll (name.start t1Value)).mem = c.mem ∧
      ∀ r, r ≠ a1 → r ≠ t1 → (c.execAll (name.start t1Value)).regs.get r = c.regs.get r := by
  cases name with
  | _setjmp =>
    refine ⟨rfl, fun r ha1 ht1 => ?_⟩
    exact (RegFile.get_set_of_ne ht1).trans (RegFile.get_set_of_ne ha1)
  | setjmp => exact ⟨rfl, fun r ha1 _ => RegFile.get_set_of_ne ha1⟩
  | __sigsetjmp => exact ⟨rfl, fun _ _ _ => rfl⟩

/-- Up to its end, `setjmp` fills the buffer and touches `a1` and `t1` only. -/
theorem setjmpOps_spec (name : SetjmpName) (t1Value : Machine.Word) (c : State) :
    let c' := c.execAll (setjmpOps name t1Value)
    Saved c (c.regs.get a0) c'.mem ∧ ∀ r, r ≠ a1 → r ≠ t1 → c'.regs.get r = c.regs.get r := by
  intro c'
  obtain ⟨-, hregs⟩ := start_execAll name t1Value c
  obtain ⟨mem, hexec, hstored, -⟩ :=
    (c.execAll (name.start t1Value)).execAll_stores a0 sigsetjmpStores (by decide)
  have hc' : c' = { c.execAll (name.start t1Value) with mem } := by
    show c.execAll (setjmpOps name t1Value) = _
    rw [setjmpOps, State.execAll_append, hexec]
  rw [hc']
  refine ⟨fun x hx => ?_, hregs⟩
  have hne := sigsetjmpStores_ne x hx
  have hx := hstored x hx
  rwa [hregs a0 (by decide) (by decide), hregs x.2 hne.1 hne.2] at hx

theorem setjmpCode_length (name : SetjmpName) (t1Value : Machine.Word) (fin : SetjmpEnd) :
    (setjmpCode name t1Value fin).length = (setjmpOps name t1Value).length + 2 := by
  rw [setjmpCode, List.length_append, List.length_map]
  cases fin <;> rfl

/-- Either end is one instruction and a jump. -/
theorem depart_setjmpCode (name : SetjmpName) (t1Value : Machine.Word) {fin : SetjmpEnd} {op : Op}
    {ra : Reg} {offset : Machine.Word} (hfin : fin.code = [.op op, .jump ra offset]) (c : State) :
    depart (setjmpCode name t1Value fin) (setjmpCode name t1Value fin).length 0 c =
      let c' := (c.execAll (setjmpOps name t1Value)).exec op
      some (.jump (c'.regs.get ra + offset) c') := by
  have hop : (setjmpCode name t1Value fin)[(setjmpOps name t1Value).length]? = some (.op op) := by
    rw [setjmpCode, hfin]
    exact Machine.getElem?_after_ops _ _ 0
  have hjump : (setjmpCode name t1Value fin)[(setjmpOps name t1Value).length + 1]? =
      some (.jump ra offset) := by
    rw [setjmpCode, hfin]
    exact Machine.getElem?_after_ops _ _ 1
  rw [setjmpCode_length, Machine.depart_ops (setjmpOps name t1Value) rfl, Nat.zero_add,
    Machine.depart_op hop, Machine.depart_jump hjump]

/-- `setjmp` on its return. -/
structure SetjmpReturned (c : State) (pc : Machine.Word) (c' : State) : Prop where
  pc_eq : pc = c.regs.get lr
  returns_zero : c'.regs.get a3 = 0
  kept : ∀ r ∈ calleeSaved, c'.regs.get r = c.regs.get r
  saved : Saved c (c.regs.get a0) c'.mem

theorem calleeSaved_ne : ∀ r ∈ calleeSaved, r ≠ a1 ∧ r ≠ t1 ∧ r ≠ a3 := by decide

theorem SetjmpReturns.returned {words : Nat} {name : SetjmpName} {t1Value : Machine.Word} {c : State}
    {pc : Machine.Word} {c' : State} (h : SetjmpReturns words name t1Value c pc c')
    (hoff : OffStack (c.regs.get a0) (c.regs.get sp) words) : SetjmpReturned c pc c' := by
  obtain ⟨hsaved, hregs⟩ := setjmpOps_spec name t1Value c
  cases h with
  | rtld h =>
    rw [depart_setjmpCode name t1Value rfl, Option.some.injEq, Departure.jump.injEq] at h
    obtain ⟨rfl, rfl⟩ := h
    exact
      { pc_eq := by
          refine (BitVec.add_zero _).trans ?_
          exact (RegFile.get_set_of_ne (by decide)).trans (hregs lr (by decide) (by decide))
        returns_zero := RegFile.get_set_self (by decide)
        kept := fun r hr => by
          obtain ⟨ha1, ht1, ha3⟩ := calleeSaved_ne r hr
          exact (RegFile.get_set_of_ne ha3).trans (hregs r ha1 ht1)
        saved := hsaved }
  | @libc sigjmpSave pcrelLo c₀ _ h hsave =>
    rw [depart_setjmpCode name t1Value rfl, Option.some.injEq, Departure.jump.injEq] at h
    obtain ⟨-, rfl⟩ := h
    have hregs₀ : ∀ r, r ≠ a1 → r ≠ t1 →
        ((c.execAll (setjmpOps name t1Value)).exec (.adr t1 (sigjmpSave - pcrelLo))).regs.get r =
          c.regs.get r := fun r ha1 ht1 =>
      (RegFile.get_set_of_ne ht1).trans (hregs r ha1 ht1)
    exact
      { pc_eq := hregs₀ lr (by decide) (by decide)
        returns_zero := hsave.returns_zero
        kept := fun r hr => by
          obtain ⟨ha1, ht1, -⟩ := calleeSaved_ne r hr
          exact (hsave.kept r hr).trans (hregs₀ r ha1 ht1)
        saved := fun x hx => by
          -- `__sigjmp_save` writes next to the registers and below the stack pointer.
          have hmask := not_maskField hx (c.regs.get a0)
          have hstack := hoff x hx
          rw [← hregs₀ a0 (by decide) (by decide)] at hmask
          rw [← hregs₀ a0 (by decide) (by decide), ← hregs₀ sp (by decide) (by decide)] at hstack
          have hmem := hsave.mem_eq _ hmask hstack
          rw [hregs₀ a0 (by decide) (by decide)] at hmem
          exact hmem.trans (hsaved x hx) }

/-! ## `longjmp` -/

/-- `longjmp` with `v`, back after the call of `setjmp` at `c`, which has returned to `pc` before. -/
structure JumpedBack (c : State) (pc v : Machine.Word) (pc' : Machine.Word) (c' : State) : Prop where
  pc_eq : pc' = pc
  kept : ∀ r ∈ calleeSaved, c'.regs.get r = c.regs.get r
  lr_eq : c'.regs.get lr = c.regs.get lr
  result : c'.regs.get a3 = if v = 0 then 1 else v

/-- Whatever is not loaded is still there, but for `a0`, which has the value. -/
theorem longjmpOps_spec (c c' : State) (hsaved : Saved c (c'.regs.get a0) c'.mem) :
    let out := c'.execAll longjmpOps
    (∀ x ∈ longjmpLoads, out.regs.get x.1 = c.regs.get x.1) ∧
      out.regs.get a3 = c'.regs.get a3 ∧
      out.regs.get a0 = if c'.regs.get a1 = 0 then 1 else c'.regs.get a1 := by
  intro out
  obtain ⟨regs, hexec, hloaded, hkept⟩ :=
    c'.execAll_loads a0 longjmpLoads (by decide) (by decide) (by decide)
  let bit : Machine.Word := if (regs.get a1).ult 1 then 1 else 0
  have hout : out = { c' with regs := (regs.set a0 bit).set a0 (bit + regs.get a1) } := by
    show c'.execAll longjmpOps = _
    rw [longjmpOps, State.execAll_append, hexec]
    show ({ c' with
      regs := (regs.set a0 bit).set a0
        ((regs.set a0 bit).get a0 + (Machine.Src.plain a1).value .add (regs.set a0 bit)) } : State) = _
    rw [RegFile.get_set_self (by decide), Machine.Src.value_plain, RegFile.get_set_of_ne (by decide)]
  rw [hout]
  refine ⟨fun x hx => ?_, ?_, ?_⟩
  · have hne := longjmpLoads_ne x hx
    show ((regs.set a0 bit).set a0 _).get x.1 = _
    rw [RegFile.get_set_of_ne hne, RegFile.get_set_of_ne hne, hloaded x hx]
    exact hsaved _ (longjmpLoads_stored x hx)
  · show ((regs.set a0 bit).set a0 _).get a3 = _
    rw [RegFile.get_set_of_ne (by decide), RegFile.get_set_of_ne (by decide), hkept a3 (by decide)]
  · show ((regs.set a0 bit).set a0 _).get a0 = _
    rw [RegFile.get_set_self (by decide), hkept a1 (by decide)]
    show (if (regs.get a1).ult 1 then 1 else 0) + c'.regs.get a1 = _
    rw [hkept a1 (by decide)]
    generalize c'.regs.get a1 = v
    by_cases hv : v = 0
    · subst hv
      rfl
    · have hult : v.ult 1 = false := by
        have hpos : v.toNat ≠ 0 := fun h => hv (BitVec.eq_of_toNat_eq h)
        have hone : (1 : BitVec 32).toNat = 1 := rfl
        rw [BitVec.ult, decide_eq_false_iff_not, hone]
        omega
      rw [hult, if_neg hv]
      exact BitVec.zero_add v

theorem depart_longjmpCode (c : State) :
    depart longjmpCode longjmpCode.length 0 c =
      some (.jump ((c.execAll longjmpOps).regs.get lr + 0) (c.execAll longjmpOps)) := by
  have hjump : longjmpCode[longjmpOps.length]? = some (.jump lr 0) := rfl
  rw [show longjmpCode.length = longjmpOps.length + 1 from rfl, Machine.depart_ops longjmpOps rfl,
    Nat.zero_add, Machine.depart_jump hjump]

theorem calleeSaved_loaded : ∀ r ∈ calleeSaved, ∃ x ∈ longjmpLoads, x.1 = r := by decide

/-- A call of `setjmp` and a `longjmp` with its buffer do what they are for if and only if `a3` has
the value already when `__longjmp` is called: the assembly puts it in `a0`. -/
theorem setjmpLongjmp_correct_iff {words words' : Nat} {name : SetjmpName}
    {t1Value pc : Machine.Word} {c c₁ c₂ c₃ : State}
    (hset : SetjmpReturns words name t1Value c pc c₁)
    (hoff : OffStack (c.regs.get a0) (c.regs.get sp) words)
    (henv : c₂.regs.get a0 = c.regs.get a0)
    (hbuf : ∀ x ∈ sigsetjmpStores, c₂.mem (c.regs.get a0 + x.1) = c₁.mem (c.regs.get a0 + x.1))
    (hcall : SiglongjmpCalls words' c₂ c₃)
    (hoff' : OffStack (c.regs.get a0) (c₂.regs.get sp) words') :
    (SetjmpReturned c pc c₁ ∧ ∃ pc' c', depart longjmpCode longjmpCode.length 0 c₃ =
        some (.jump pc' c') ∧ JumpedBack c pc (c₂.regs.get a1) pc' c') ↔
      c₃.regs.get a3 = if c₂.regs.get a1 = 0 then 1 else c₂.regs.get a1 := by
  have hreturned := hset.returned hoff
  have hsaved : Saved c (c₃.regs.get a0) c₃.mem := by
    intro x hx
    rw [hcall.env_eq, henv, hcall.mem_eq _ (hoff' x hx), hbuf x hx]
    exact hreturned.saved x hx
  obtain ⟨hloaded, ha3, -⟩ := longjmpOps_spec c c₃ hsaved
  have hlr : (c₃.execAll longjmpOps).regs.get lr = c.regs.get lr :=
    hloaded (lr, 0x00) List.mem_cons_self
  rw [depart_longjmpCode]
  constructor
  · rintro ⟨-, pc', c', hdepart, hback⟩
    rw [Option.some.injEq, Departure.jump.injEq] at hdepart
    obtain ⟨-, rfl⟩ := hdepart
    exact ha3.symm.trans hback.result
  · intro hvalue
    refine ⟨hreturned, _, _, rfl, ?_⟩
    exact
      { pc_eq := (BitVec.add_zero _).trans (hlr.trans hreturned.pc_eq.symm)
        kept := fun r hr => by
          obtain ⟨x, hx, rfl⟩ := calleeSaved_loaded r hr
          exact hloaded x hx
        lr_eq := hlr
        result := ha3.trans hvalue }

/-- A caller of `setjmp` with its buffer at `0x1000` and its stack at `0x8000`. -/
def demoCaller : State :=
  { regs := ⟨fun r => if r = a0 then 0x1000 else if r = sp then 0x8000 else 0⟩, mem := fun _ => 0 }

/-- After `setjmp` in `ld.so`. -/
def demoReturned : State :=
  (demoCaller.execAll (setjmpOps .setjmp 0)).exec (.alu .add a3 zero (.imm 0))

/-- Later, at `longjmp (env, val)` with something in `a3`. -/
def demoJumper (val a3Value : Machine.Word) : State :=
  (demoReturned.setReg a1 val).setReg a3 a3Value

theorem demoReturns : SetjmpReturns 0 .setjmp 0 demoCaller 0 demoReturned := .rtld rfl

theorem offStack_zero (env stackPointer : Machine.Word) : OffStack env stackPointer 0 := by
  rintro x - ⟨j, hj, hj', -⟩
  omega

theorem demoCalls (a3Value : Machine.Word) :
    SiglongjmpCalls 0 (demoJumper 5 a3Value) (demoJumper 5 a3Value) :=
  { env_eq := rfl, val_eq := rfl, mem_eq := fun _ _ => rfl }

theorem setjmpLongjmp_five :
    SetjmpReturned demoCaller 0 demoReturned ∧
      ∃ pc' c', depart longjmpCode longjmpCode.length 0 (demoJumper 5 5) = some (.jump pc' c') ∧
        JumpedBack demoCaller 0 5 pc' c' :=
  (@setjmpLongjmp_correct_iff 0 0 .setjmp 0 0 demoCaller demoReturned (demoJumper 5 5)
    (demoJumper 5 5) demoReturns (offStack_zero _ _) rfl (fun _ _ => rfl) (demoCalls 5)
    (offStack_zero _ _)).2 rfl

/-- `longjmp (env, 5)` with 0 in `a3` makes `setjmp` return 0. -/
theorem setjmpLongjmp_five_lost :
    SetjmpReturns 0 .setjmp 0 demoCaller 0 demoReturned ∧
      SiglongjmpCalls 0 (demoJumper 5 0) (demoJumper 5 0) ∧
      ¬ ∃ pc' c', depart longjmpCode longjmpCode.length 0 (demoJumper 5 0) = some (.jump pc' c') ∧
        JumpedBack demoCaller 0 5 pc' c' := by
  refine ⟨demoReturns, demoCalls 0, ?_⟩
  rintro ⟨pc', c', hdepart, hback⟩
  rw [depart_longjmpCode, Option.some.injEq, Departure.jump.injEq] at hdepart
  obtain ⟨-, rfl⟩ := hdepart
  exact absurd hback.result (by decide)

end XrLinux.Glibc
