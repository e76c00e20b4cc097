import XrLinux.Linux.Regs

/-!
# Linux — `walk_stackframe`

There are no frame pointers. The walk looks at the code of the function that an address is in: the
first instruction says how large its frame is, and the first store of `lr` before the address where
the return address has been saved.
-/

namespace XrLinux.Linux.Stacktrace

open Machine

/-- Memory by the addresses of its words, and `kallsyms_lookup_size_offset`: how far behind the start
of its function an address is. -/
structure World where
  mem : Word → Word
  lookup : Word → Option Word

namespace World

variable (w : World)

/-- The loop over `code[i]`, with `stack` in bytes. -/
def findLr (code stack : Word) : Nat → Nat → Word → Word
  | 0, _, lr => lr
  | count + 1, i, lr =>
    let insn := w.mem (code + BitVec.ofNat 32 (4 * i))
    if insn &&& 0xffff = 0xffaa then w.mem (stack + (4 : Word) * (insn >>> 16 &&& 0xffff))
    else findLr code stack count (i + 1) lr

/-- One turn of the loop after `fn` has been called: the next `sp` and `lr`. -/
def unwind (sp lr code offset : Word) : Word × Word :=
  let insn := w.mem code
  if insn &&& 0xffff = 0xf7b4 then
    (sp + (insn >>> 16 &&& 0xffff), w.findLr code sp ((offset / 4).toNat - 1) 1 lr)
  else (sp, lr)

/-- The loop, with what `fn` is called for. -/
def walk (fn : Word → Bool) : Nat → Word → Word → Word → Option (List Word)
  | 0, _, _, _ => none
  | fuel + 1, sp, pc, lr =>
    match w.lookup pc with
    | none => some []
    | some offset =>
      if fn pc = false then some [pc]
      else if (sp ||| (pc - offset)) &&& 3 ≠ 0 then some [pc]
      else
        let next := w.unwind sp lr (pc - offset) offset
        (walk fn fuel next.1 next.2 0).map (pc :: ·)

/-- `walk_stackframe` from registers. -/
def walkStackframe (fn : Word → Bool) (fuel : Nat) (regs : PtRegs) : Option (List Word) :=
  w.walk fn fuel (regs.gpr sp) regs.pc (regs.gpr lr)

end World

/-! ## The code of functions -/

/-- `subi sp, sp, X` -/
def subiSp (x : BitVec 16) : Word := x ++ (0xf7b4 : BitVec 16)

/-- `mov long [sp + 4 * x], lr` -/
def storeLr (x : BitVec 16) : Word := x ++ (0xffaa : BitVec 16)

/-- A function of so many words. `frame` is for the `subi` at its entry, if there is one, and `saves`
for the store of `lr`: which word it is, and of which word of the frame. -/
structure Function where
  start : Word
  size : Nat
  frame : Option (BitVec 16)
  saves : Option (Nat × BitVec 16)

/-- The size of the frame. -/
def Function.frameSize (f : Function) : Word := (f.frame.getD 0).setWidth 32

/-- Word `i`. -/
def Function.word (f : Function) (i : Nat) : Word := f.start + BitVec.ofNat 32 (4 * i)

/-- Of a function with a frame the first word is the `subi`, and of one that saves `lr` it is followed
by the store, which is the first one. -/
structure Function.Code (w : World) (f : Function) : Prop where
  fits : f.start.toNat + 4 * f.size ≤ 4294967296
  aligned : f.start.toNat % 4 = 0
  lookup : ∀ i < f.size, w.lookup (f.word i) = some (BitVec.ofNat 32 (4 * i))
  frame_aligned : f.frameSize.toNat % 4 = 0
  entry : ∀ x, f.frame = some x → w.mem f.start = subiSp x
  no_entry : f.frame = none → w.mem f.start &&& 0xffff ≠ 0xf7b4 ∧ f.saves = none
  store : ∀ j x, f.saves = some (j, x) → 1 ≤ j ∧ j < f.size ∧ w.mem (f.word j) = storeLr x
  no_store : ∀ i, 1 ≤ i → i < f.size → (∀ j x, f.saves = some (j, x) → i < j) →
    w.mem (f.word i) &&& 0xffff ≠ 0xffaa

/-- A function that has called, at the word that the call returns to. -/
structure Activation where
  function : Function
  index : Nat
  /-- Where it has saved `lr`. -/
  slot : BitVec 16

/-- The return address. -/
def Activation.pc (a : Activation) : Word := a.function.word a.index

/-- The callers, from one with its frame at `sp` to which a call returns with `pc`, up to where there
is no function. -/
def Chain (w : World) : Word → Word → List Activation → Prop
  | _, pc, [] => w.lookup pc = none
  | sp, pc, a :: callers =>
    pc = a.pc ∧ sp.toNat % 4 = 0 ∧ a.function.Code w ∧ a.index < a.function.size ∧
      a.function.frame ≠ none ∧ (∃ j < a.index, a.function.saves = some (j, a.slot)) ∧
      Chain w (sp + a.function.frameSize) (w.mem (sp + (4 : Word) * a.slot.setWidth 32)) callers

/-- The innermost function is interrupted before word `index`, when `held` of its frame is there, to
return to `ra`. -/
structure Interrupted (w : World) (regs : PtRegs) (f : Function) (index : Nat) (held ra : Word)
    (callers : List Activation) : Prop where
  code : f.Code w
  inside : index < f.size
  pc_eq : regs.pc = f.word index
  /-- The `subi` has been executed, or it has not or the frame has been freed. -/
  held_eq : held = f.frameSize ∨ held = 0
  entry_held : index = 0 → held = 0
  /-- The return address is in `lr` before the store, and in the frame after. -/
  in_lr : (∀ j x, f.saves = some (j, x) → index ≤ j) → regs.gpr lr = ra
  in_frame : ∀ j x, f.saves = some (j, x) → j < index → held = f.frameSize →
    w.mem (regs.gpr sp + (4 : Word) * x.setWidth 32) = ra
  aligned : (regs.gpr sp).toNat % 4 = 0
  callers : Chain w (regs.gpr sp + held) ra callers

/-- What the walk is to report. -/
def Reports (w : World) (regs : PtRegs) (callers : List Activation) : Prop :=
  ∃ fuel, w.walkStackframe (fun _ => true) fuel regs =
    some (regs.pc :: callers.map Activation.pc)

/-- What is `d` bytes above the return addresses in the frames is the same as they are. -/
def SameAbove (w : World) (d : Word) : Word → Word → List Activation → Prop
  | _, pc, [] => w.lookup pc = none
  | sp, pc, a :: callers =>
    pc = a.pc ∧ SameAbove w d (sp + a.function.frameSize)
      (w.mem (sp + d + (4 : Word) * a.slot.setWidth 32)) callers

/-- What the walk takes for the return address of a function at word `index`. -/
def readLr (w : World) (f : Function) (index : Nat) (sp lr : Word) : Word :=
  match f.saves with
  | some (j, x) => if j < index then w.mem (sp + (4 : Word) * x.setWidth 32) else lr
  | none => lr

/-! ## One function -/

theorem append_low (x lo : BitVec 16) : (x ++ lo) &&& (0xffff : Word) = lo.setWidth 32 := by
  apply BitVec.eq_of_toNat_eq
  have hx := x.isLt
  have hlo := lo.isLt
  rw [BitVec.toNat_and, BitVec.toNat_append, show (0xffff : Word).toNat = 2 ^ 16 - 1 from rfl,
    Nat.and_two_pow_sub_one_eq_mod, ← Nat.shiftLeft_add_eq_or_of_lt hlo, Nat.shiftLeft_eq,
    BitVec.toNat_setWidth]
  omega

theorem append_high (x lo : BitVec 16) : (x ++ lo) >>> 16 &&& (0xffff : Word) = x.setWidth 32 := by
  apply BitVec.eq_of_toNat_eq
  have hx := x.isLt
  have hlo := lo.isLt
  rw [BitVec.toNat_and, BitVec.toNat_ushiftRight, BitVec.toNat_append,
    show (0xffff : Word).toNat = 2 ^ 16 - 1 from rfl, Nat.and_two_pow_sub_one_eq_mod,
    ← Nat.shiftLeft_add_eq_or_of_lt hlo, Nat.shiftLeft_eq, Nat.shiftRight_eq_div_pow,
    BitVec.toNat_setWidth]
  omega

theorem storeLr_low (x : BitVec 16) : storeLr x &&& 0xffff = 0xffaa := append_low x 0xffaa

theorem storeLr_high (x : BitVec 16) : storeLr x >>> 16 &&& 0xffff = x.setWidth 32 :=
  append_high x 0xffaa

theorem subiSp_low (x : BitVec 16) : subiSp x &&& 0xffff = 0xf7b4 := append_low x 0xf7b4

theorem subiSp_high (x : BitVec 16) : subiSp x >>> 16 &&& 0xffff = x.setWidth 32 :=
  append_high x 0xf7b4

theorem aligned_or {a b : Word} (ha : a.toNat % 4 = 0) (hb : b.toNat % 4 = 0) :
    (a ||| b) &&& 3 = 0 := by
  apply BitVec.eq_of_toNat_eq
  rw [BitVec.toNat_and, BitVec.toNat_or, show (3 : Word).toNat = 2 ^ 2 - 1 from rfl,
    Nat.and_two_pow_sub_one_eq_mod, Nat.or_mod_two_pow, ha, hb]
  rfl

section
variable {w : World} {f : Function} (h : f.Code w) {index : Nat} (hindex : index < f.size)
include h hindex

theorem Function.Code.offset_eq : (BitVec.ofNat 32 (4 * index) / 4 : Word).toNat = index := by
  have hfits := h.fits
  have hlt : 4 * index < 4294967296 := by omega
  rw [BitVec.toNat_udiv, BitVec.toNat_ofNat, Nat.mod_eq_of_lt hlt]
  exact Nat.mul_div_cancel_left index (by decide)

/-- The scan stops at the first store before the address. -/
theorem Function.Code.findLr_eq (sp lr : Word) (count i : Nat) (hi : 1 ≤ i)
    (hcount : i + count = index) (hbefore : ∀ j x, f.saves = some (j, x) → i ≤ j) :
    w.findLr f.start sp count i lr = readLr w f index sp lr := by
  induction count generalizing i with
  | zero =>
    unfold World.findLr readLr
    cases hsaves : f.saves with
    | none => rfl
    | some save =>
      have hle := hbefore save.1 save.2 hsaves
      exact (if_neg (by omega)).symm
  | succ count ih =>
    show (if w.mem (f.word i) &&& 0xffff = 0xffaa then
      w.mem (sp + (4 : Word) * (w.mem (f.word i) >>> 16 &&& 0xffff)) else _) = _
    by_cases hstore : ∃ x, f.saves = some (i, x)
    · obtain ⟨x, hsaves⟩ := hstore
      have hword := (h.store i x hsaves).2.2
      rw [hword, storeLr_high, if_pos (storeLr_low x), readLr, hsaves]
      exact (if_pos (by omega)).symm
    · -- neither is it this word nor one before
      have hlater : ∀ j x, f.saves = some (j, x) → i < j := by
        intro j x hsaves
        have hle := hbefore j x hsaves
        have hne : i ≠ j := by
          rintro rfl
          exact hstore ⟨x, hsaves⟩
        omega
      rw [if_neg (h.no_store i hi (by omega) hlater)]
      exact ih (i + 1) (by omega) (by omega) hlater

theorem Function.Code.unwind_eq (sp lr : Word) :
    w.unwind sp lr f.start (BitVec.ofNat 32 (4 * index)) =
      (sp + f.frameSize, readLr w f index sp lr) := by
  unfold World.unwind
  cases hframe : f.frame with
  | none =>
    obtain ⟨hentry, hsaves⟩ := h.no_entry hframe
    have hsize : f.frameSize = 0 := by
      rw [Function.frameSize, hframe]
      rfl
    rw [if_neg hentry, hsize, readLr, hsaves]
    exact Prod.ext (BitVec.add_zero sp).symm rfl
  | some x =>
    have hsize : f.frameSize = x.setWidth 32 := by
      rw [Function.frameSize, hframe]
      rfl
    have hlr : w.findLr f.start sp (index - 1) 1 lr = readLr w f index sp lr := by
      rcases Nat.eq_zero_or_pos index with rfl | hpos
      · -- no word is looked at
        unfold World.findLr readLr
        cases f.saves with
        | none => rfl
        | some save => exact (if_neg (Nat.not_lt_zero _)).symm
      · exact h.findLr_eq hindex sp lr (index - 1) 1 le_rfl (by omega) fun j x hsaves =>
          (h.store j x hsaves).1
    dsimp only
    rw [h.entry x hframe, if_pos (subiSp_low x), subiSp_high, hsize, h.offset_eq hindex, hlr]

/-- One turn of the loop. -/
theorem Function.Code.walk_succ {stack : Word} (hstack : stack.toNat % 4 = 0) (lr : Word)
    (fuel : Nat) :
    w.walk (fun _ => true) (fuel + 1) stack (f.word index) lr =
      (w.walk (fun _ => true) fuel (stack + f.frameSize) (readLr w f index stack lr) 0).map
        (f.word index :: ·) := by
  have hstart : f.word index - BitVec.ofNat 32 (4 * index) = f.start := add_sub_cancel_right _ _
  rw [World.walk, h.lookup index hindex]
  dsimp only
  rw [if_neg (by decide), hstart, if_neg (not_not.mpr (aligned_or hstack h.aligned)),
    h.unwind_eq hindex]

end

/-! ## The callers -/

section
variable {w : World}

/-- What is reported first is where the walk is. -/
theorem walk_head {fuel : Nat} {stack pc lr x : Word} {xs : List Word}
    (h : w.walk (fun _ => true) fuel stack pc lr = some (x :: xs)) : pc = x := by
  cases fuel with
  | zero => cases h
  | succ fuel =>
    rw [World.walk] at h
    split at h
    · cases h
    · rw [if_neg (by decide)] at h
      split_ifs at h
      · cases h
        rfl
      · obtain ⟨rest, -, hcons⟩ := Option.map_eq_some_iff.mp h
        exact (List.cons.inj hcons).1

theorem walk_nil_iff {stack pc lr : Word} :
    (∃ fuel, w.walk (fun _ => true) fuel stack pc lr = some []) ↔ w.lookup pc = none := by
  constructor
  · rintro ⟨fuel, h⟩
    cases fuel with
    | zero => cases h
    | succ fuel =>
      rw [World.walk] at h
      split at h
      · assumption
      · rw [if_neg (by decide)] at h
        split_ifs at h
        · cases h
        · obtain ⟨rest, -, hcons⟩ := Option.map_eq_some_iff.mp h
          cases hcons
  · intro h
    refine ⟨1, ?_⟩
    rw [World.walk, h]

theorem toNat_add_aligned {a b : Word} (ha : a.toNat % 4 = 0) (hb : b.toNat % 4 = 0) :
    (a + b).toNat % 4 = 0 := by
  rw [BitVec.toNat_add]
  omega

/-- One turn, for as many as are needed. -/
theorem Function.Code.walk_iff {f : Function} (h : f.Code w) {index : Nat} (hindex : index < f.size)
    {stack : Word} (hstack : stack.toNat % 4 = 0) (lr : Word) (pcs : List Word) :
    (∃ fuel, w.walk (fun _ => true) fuel stack (f.word index) lr = some (f.word index :: pcs)) ↔
      ∃ fuel, w.walk (fun _ => true) fuel (stack + f.frameSize) (readLr w f index stack lr) 0 =
        some pcs := by
  constructor
  · rintro ⟨fuel, hwalk⟩
    cases fuel with
    | zero => cases hwalk
    | succ fuel =>
      rw [h.walk_succ hindex hstack] at hwalk
      obtain ⟨rest, hrest, hcons⟩ := Option.map_eq_some_iff.mp hwalk
      exact ⟨fuel, hrest.trans (congrArg some (List.cons.inj hcons).2)⟩
  · rintro ⟨fuel, hwalk⟩
    refine ⟨fuel + 1, ?_⟩
    rw [h.walk_succ hindex hstack, hwalk]
    rfl

/-- With its stack pointer `d` too high the walk finds what is `d` bytes above the slots. -/
theorem walk_callers_iff {d : Word} (hd : d.toNat % 4 = 0) (callers : List Activation) :
    ∀ stack ra pc, Chain w stack ra callers →
      ((∃ fuel, w.walk (fun _ => true) fuel (stack + d) pc 0 = some (callers.map Activation.pc)) ↔
        SameAbove w d stack pc callers) := by
  induction callers with
  | nil => exact fun _ _ _ _ => walk_nil_iff
  | cons a callers ih =>
    intro stack ra pc hchain
    obtain ⟨-, hstack, hcode, hindex, -, ⟨j, hj, hsaves⟩, hrest⟩ := hchain
    have hstack' : (stack + d).toNat % 4 = 0 := toNat_add_aligned hstack hd
    have hread : readLr w a.function a.index (stack + d) 0 =
        w.mem (stack + d + (4 : Word) * a.slot.setWidth 32) := by
      rw [readLr, hsaves]
      exact if_pos hj
    have hturn := hcode.walk_iff hindex hstack' 0 (callers.map Activation.pc)
    rw [hread, add_right_comm stack d, ih _ _ _ hrest] at hturn
    constructor
    · rintro ⟨fuel, hwalk⟩
      have hpc : pc = a.pc := walk_head hwalk
      refine ⟨hpc, hturn.mp ⟨fuel, ?_⟩⟩
      rw [hpc] at hwalk
      exact hwalk
    · rintro ⟨rfl, hsame⟩
      exact hturn.mpr hsame

/-- The slots themselves. -/
theorem Chain.sameAbove (callers : List Activation) :
    ∀ stack ra, Chain w stack ra callers → SameAbove w 0 stack ra callers := by
  induction callers with
  | nil => exact fun _ _ h => h
  | cons a callers ih =>
    intro stack ra h
    obtain ⟨hpc, -, -, -, -, -, hrest⟩ := h
    refine ⟨hpc, ?_⟩
    rw [add_zero]
    exact ih _ _ hrest

/-- **`walk_stackframe`.** From registers in a function the walk reports its address and those that
its callers are returned to, in the order of the calls, if and only if the frame of the function is
there, so that its `subi` has been executed and not been undone, or the walk finds the same addresses
with a stack pointer that is too high by the frame. -/
theorem reports_iff {regs : PtRegs} {f : Function} {index : Nat} {held ra : Word}
    {callers : List Activation} (h : Interrupted w regs f index held ra callers) :
    Reports w regs callers ↔
      held = f.frameSize ∨ SameAbove w (f.frameSize - held) (regs.gpr sp + held)
        (readLr w f index (regs.gpr sp) (regs.gpr lr)) callers := by
  have hd : (f.frameSize - held).toNat % 4 = 0 := by
    rcases h.held_eq with rfl | rfl
    · rw [sub_self]
      rfl
    · rw [sub_zero]
      exact h.code.frame_aligned
  have hstack : regs.gpr sp + f.frameSize = regs.gpr sp + held + (f.frameSize - held) := by
    rw [add_assoc, add_sub_cancel]
  have hreports : Reports w regs callers ↔ SameAbove w (f.frameSize - held) (regs.gpr sp + held)
      (readLr w f index (regs.gpr sp) (regs.gpr lr)) callers := by
    rw [← walk_callers_iff hd callers _ ra _ h.callers, ← hstack,
      ← h.code.walk_iff h.inside h.aligned, ← h.pc_eq]
    exact Iff.rfl
  rw [hreports]
  refine (or_iff_right_of_imp fun heq => ?_).symm
  -- what is read for the innermost is its return address
  have hread : readLr w f index (regs.gpr sp) (regs.gpr lr) = ra := by
    unfold readLr
    split
    · next j x hsaves =>
      split_ifs with hj
      · exact h.in_frame j x hsaves hj heq
      · refine h.in_lr fun j' x' hsaves' => ?_
        cases hsaves.symm.trans hsaves'
        omega
    · next hsaves =>
      refine h.in_lr fun j' x' hsaves' => ?_
      cases hsaves.symm.trans hsaves'
  rw [hread, heq, sub_self, ← heq]
  exact Chain.sameAbove callers _ _ h.callers

end

/-- Three functions of four words, each with a frame and a store of `lr` in its first word. -/
def outer : Function := ⟨0x3000, 4, some 8, some (1, 0)⟩

def middle : Function := ⟨0x2000, 4, some 8, some (1, 0)⟩

def inner : Function := ⟨0x1000, 4, some 16, some (1, 0)⟩

def threeFunctions : World where
  mem x :=
    if x = 0x1000 then subiSp 16 else if x = 0x2000 ∨ x = 0x3000 then subiSp 8
    else if x = 0x1004 ∨ x = 0x2004 ∨ x = 0x3004 then storeLr 0
    else if x = 0x8000 then 0x300c else if x = 0x7ff0 then 0x200c else 0
  lookup x :=
    if 0x1000 ≤ x ∧ x < 0x1010 then some (x - 0x1000)
    else if 0x2000 ≤ x ∧ x < 0x2010 then some (x - 0x2000)
    else if 0x3000 ≤ x ∧ x < 0x3010 then some (x - 0x3000)
    else none

/-- `outer` has called `middle`, which has called `inner`. -/
def twoCallers : List Activation := [⟨middle, 3, 0⟩, ⟨outer, 3, 0⟩]

theorem threeFunctions_code {start : Word} {x : BitVec 16} (hfits : start.toNat + 16 ≤ 4294967296)
    (haligned : start.toNat % 4 = 0 ∧ (x.setWidth 32 : Word).toNat % 4 = 0)
    (hlookup : ∀ i < 4, threeFunctions.lookup (start + BitVec.ofNat 32 (4 * i)) =
      some (BitVec.ofNat 32 (4 * i)))
    (hentry : threeFunctions.mem start = subiSp x)
    (hstore : threeFunctions.mem (start + 4) = storeLr 0) :
    Function.Code threeFunctions ⟨start, 4, some x, some (1, 0)⟩ where
  fits := hfits
  aligned := haligned.1
  lookup := hlookup
  frame_aligned := haligned.2
  entry y hy := (Option.some.inj hy) ▸ hentry
  no_entry := nofun
  store j y hsaves := by
    cases hsaves
    exact ⟨le_rfl, show 1 < 4 by decide, hstore⟩
  no_store i hi _ hbefore := absurd (hbefore 1 0 rfl) (by omega)

theorem twoCallers_chain : Chain threeFunctions 0x8000 0x200c twoCallers := by
  have hmiddle : middle.Code threeFunctions :=
    threeFunctions_code (by decide) (by decide) (by decide) (by decide) (by decide)
  have houter : outer.Code threeFunctions :=
    threeFunctions_code (by decide) (by decide) (by decide) (by decide) (by decide)
  refine ⟨by decide, by decide, hmiddle, by decide, by decide, ⟨1, by decide, rfl⟩, ?_⟩
  exact ⟨by decide, by decide, houter, by decide, by decide, ⟨1, by decide, rfl⟩, rfl⟩

theorem inner_code : inner.Code threeFunctions :=
  threeFunctions_code (by decide) (by decide) (by decide) (by decide) (by decide)

/-- Registers in `inner`. -/
def innerRegs (pc stack : Word) : PtRegs :=
  ⟨pc, fun r => if r = sp then stack else if r = lr then 0x200c else 0, 0, 0⟩

/-- Before the `subi` of `inner` the walk does not find `outer`. -/
theorem walkStackframe_loses_caller :
    Interrupted threeFunctions (innerRegs 0x1000 0x8000) inner 0 0 0x200c twoCallers ∧
      threeFunctions.walkStackframe (fun _ => true) 3 (innerRegs 0x1000 0x8000) =
        some [0x1000, 0x200c] ∧
      ¬ Reports threeFunctions (innerRegs 0x1000 0x8000) twoCallers := by
  refine ⟨⟨inner_code, by decide, by decide, .inr rfl, fun _ => rfl, fun _ => rfl, ?_, by decide,
    twoCallers_chain⟩, by decide, ?_⟩
  · intro j x _ hj
    exact absurd hj (Nat.not_lt_zero j)
  · rintro ⟨fuel, hwalk⟩
    have hreported : (some (0x1000 :: twoCallers.map Activation.pc) : Option (List Word)) ≠
        some [0x1000, 0x200c] := by decide
    rcases fuel with _ | _ | _ | fuel
    · cases hwalk
    · cases hwalk
    · cases hwalk
    · have hrun : threeFunctions.walkStackframe (fun _ => true) (fuel + 3)
          (innerRegs 0x1000 0x8000) = some [0x1000, 0x200c] := rfl
      exact hreported (hwalk.symm.trans hrun)

/-- After the store. -/
theorem reports_iff_body : Interrupted threeFunctions (innerRegs 0x1008 0x7ff0) inner 2 16 0x200c
      twoCallers ∧
    (Reports threeFunctions (innerRegs 0x1008 0x7ff0) twoCallers ↔
      (16 : Word) = inner.frameSize ∨
        SameAbove threeFunctions (inner.frameSize - 16) (0x7ff0 + 16)
          (readLr threeFunctions inner 2 0x7ff0 0x200c) twoCallers) := by
  have h : Interrupted threeFunctions (innerRegs 0x1008 0x7ff0) inner 2 16 0x200c twoCallers := by
    refine ⟨inner_code, by decide, by decide, .inl (by decide), fun h => absurd h (by decide),
      fun _ => rfl, ?_, by decide, twoCallers_chain⟩
    intro j x hsaves _ _
    cases hsaves
    decide
  exact ⟨h, reports_iff h⟩

end XrLinux.Linux.Stacktrace
