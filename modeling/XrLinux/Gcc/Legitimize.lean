import XrLinux.Gcc.Address

/-!
# GCC port — legitimizing addresses

`xr17032_legitimize_address` before register allocation, when it can have new registers. It may
hand an address back that is still not legitimate, and then the compiler computes the whole of it
into a register. What is used of the compiler, `force_reg` and `copy_to_mode_reg`, is a parameter
(`MiddleEnd`); a result may depend on registers that are set on the way, so values are compared
across the two states (`Env.Extends`).
-/

namespace XrLinux.Gcc.Address

open XrLinux.Machine XrLinux.Binutils

/-! ## Registers -/

/-- The registers of RTL before register allocation. -/
inductive RegNo where
  | hard (r : Reg)
  | framePointer
  | argPointer
  | virtualStackVars
  | pseudo (n : Nat)
  deriving DecidableEq, Repr

/-- `xr17032_regno_ok_for_base_p`, when it is not strict. -/
def softBase (_ : RegNo) : Bool := true

/-- The registers there are, and their values. -/
structure Env where
  next : Nat
  regs : RegNo → Word

namespace Env

def Has (env : Env) : RegNo → Prop
  | .pseudo n => n < env.next
  | _ => True

/-- There may be more registers. The others have kept their values. -/
structure Extends (env env' : Env) : Prop where
  next_le : env.next ≤ env'.next
  regs_eq : ∀ r, env.Has r → env'.regs r = env.regs r

/-- `gen_reg_rtx`, with an insn that sets the register. -/
def define (env : Env) (value : Word) : RegNo × Env :=
  (.pseudo env.next,
    { next := env.next + 1, regs := Function.update env.regs (.pseudo env.next) value })

theorem Has.mono {env env' : Env} (h : env.Extends env') {r : RegNo} (hr : env.Has r) :
    env'.Has r := by
  cases r with
  | pseudo n => exact lt_of_lt_of_le hr h.next_le
  | hard | framePointer | argPointer | virtualStackVars => trivial

theorem Extends.refl (env : Env) : env.Extends env := ⟨le_rfl, fun _ _ => rfl⟩

theorem Extends.trans {env env' env'' : Env} (h : env.Extends env') (h' : env'.Extends env'') :
    env.Extends env'' :=
  ⟨h.next_le.trans h'.next_le, fun r hr => (h'.regs_eq r (hr.mono h)).trans (h.regs_eq r hr)⟩

end Env

abbrev SoftRtx (S : Type) := Rtx RegNo S

/-- Every register in the expression is one of these. -/
def Rtx.Over {ρ S : Type} (p : ρ → Prop) : Rtx ρ S → Prop
  | .reg r => p r
  | .subreg x => x.Over p
  | .const _ => True
  | .symbolic _ => True
  | .high _ => True
  | .plus x y => x.Over p ∧ y.Over p
  | .mult x y => x.Over p ∧ y.Over p
  | .ashift x y => x.Over p ∧ y.Over p
  | .loSum x _ => x.Over p
  | .other regs _ => ∀ r ∈ regs, p r

theorem Rtx.Over.mono {ρ S : Type} {p q : ρ → Prop} (hpq : ∀ r, p r → q r) {x : Rtx ρ S}
    (h : x.Over p) : x.Over q := by
  induction x with
  | reg r => exact hpq r h
  | subreg x ih => exact ih h
  | const | symbolic | high => trivial
  | plus x y ihx ihy => exact ⟨ihx h.1, ihy h.2⟩
  | mult x y ihx ihy => exact ⟨ihx h.1, ihy h.2⟩
  | ashift x y ihx ihy => exact ⟨ihx h.1, ihy h.2⟩
  | loSum x s ih => exact ih h
  | other regs f => exact fun r hr => hpq r (h r hr)

/-- An expression keeps its value when its registers do. -/
theorem Rtx.value_congr {ρ S : Type} (sym : Symbols S) {p : ρ → Prop} {env env' : ρ → Word}
    (heq : ∀ r, p r → env' r = env r) {x : Rtx ρ S} (h : x.Over p) :
    x.value sym env' = x.value sym env := by
  induction x with
  | reg r => exact heq r h
  | subreg x ih => exact ih h
  | const | symbolic | high => rfl
  | plus x y ihx ihy => simp only [Rtx.value, ihx h.1, ihy h.2]
  | mult x y ihx ihy => simp only [Rtx.value, ihx h.1, ihy h.2]
  | ashift x y ihx ihy => simp only [Rtx.value, ihx h.1, ihy h.2]
  | loSum x s ih => simp only [Rtx.value, ih h]
  | other regs f =>
    have hregs : regs.map env' = regs.map env := List.map_congr_left fun r hr => heq r (h r hr)
    simp only [Rtx.value, hregs]

/-! ## Computing into registers -/

/-- What the back end leaves to the compiler. -/
structure MiddleEnd (S : Type) where
  /-- `force_reg`, in `Pmode`. -/
  forceReg : SoftRtx S → Env → RegNo × Env
  /-- `copy_to_mode_reg`, in `Pmode`. -/
  copyToModeReg : SoftRtx S → Env → RegNo × Env
  /-- `xr17032_legitimize_tls_address`. -/
  legitimizeTlsAddress : S → Env → SoftRtx S × Env

/-- The result stands for the expression, and the registers that it needs are set. -/
structure Computes {S : Type} (sym : Symbols S) (env : Env) (x result : SoftRtx S)
    (env' : Env) : Prop where
  ext : env.Extends env'
  over_has : result.Over env'.Has
  value_eq : result.value sym env'.regs = x.value sym env.regs

/-- `force_reg` and `copy_to_mode_reg` compute the expression that they are given. -/
structure MiddleEnd.Sound {S : Type} (m : MiddleEnd S) (sym : Symbols S) : Prop where
  forceReg : ∀ x env, x.Over env.Has →
    Computes sym env x (.reg (m.forceReg x env).1) (m.forceReg x env).2
  copyToModeReg : ∀ x env, x.Over env.Has →
    Computes sym env x (.reg (m.copyToModeReg x env).1) (m.copyToModeReg x env).2

section
variable {S : Type} (sym : Symbols S) (m : MiddleEnd S) (mode : Mode)

/-- `xr17032_legitimate_address_p`, before register allocation. -/
def softLegitimate (x : SoftRtx S) : Bool := legitimateAddress sym softBase false mode x

/-- `xr17032_force_address`. -/
def forceAddress (x : SoftRtx S) (env : Env) : SoftRtx S × Env :=
  if softLegitimate sym mode x then (x, env)
  else
    let forced := m.forceReg x env
    (.reg forced.1, forced.2)

/-- A new register for an expression, with `xr17032_emit_binary`. -/
def emitNew (x : SoftRtx S) (env : Env) : SoftRtx S × Env :=
  let set := env.define (x.value sym env.regs)
  (.reg set.1, set.2)

/-- `xr17032_add_offset`, with no register for intermediate results. -/
def addOffset (reg : SoftRtx S) (offset : Int) (env : Env) : SoftRtx S × Env :=
  if smallOperand offset then (reg.plusConstant offset, env)
  else
    let high := m.forceReg (.const (offset / 65536 * 65536)) env
    let sum := m.forceReg (.plus (.reg high.1) reg) high.2
    (Rtx.plusConstant (.reg sum.1) (offset % 65536), sum.2)

/-- `register_operand`. -/
def registerOperand : SoftRtx S → Bool
  | .reg _ => true
  | .subreg (.reg _) => true
  | _ => false

/-- `mem_shadd_or_shadd_rtx_p`, with what is shifted and by how much. -/
def memShadd : SoftRtx S → Option (SoftRtx S × Int)
  | .ashift x (.const c) => if registerOperand x && 1 ≤ c && c ≤ 2 then some (x, c) else none
  | .mult x (.const c) =>
    -- `exact_log2`
    if registerOperand x && c = 2 then some (x, 1)
    else if registerOperand x && c = 4 then some (x, 2)
    else none
  | _ => none

/-- The case of an index into the local variables. -/
def frameIndex (base : SoftRtx S) (offset : Int) : Option (SoftRtx S × Int) :=
  match base with
  | .plus index (.reg .virtualStackVars) => if smallOperand offset then memShadd index else none
  | _ => none

/-- `xr17032_split_symbol`, where it does not reach `gcc_unreachable`. -/
def splitSymbol (s : S) (env : Env) : Option (SoftRtx S × Env) :=
  match sym.type s with
  | .absolute =>
    let high := m.forceReg (.high s) env
    some (.loSum (.reg high.1) s, high.2)
  | .pcrel =>
    -- the `adr` leaves the low part of its label
    let temp := env.define (sym.value s - BitVec.ofNat 32 (sym.low (sym.label s)))
    some (.loSum (.reg temp.1) (sym.label s), temp.2)
  | _ => none

/-- The end of `xr17032_legitimize_address` for a base and an offset. -/
def legitimizeOffset (base : SoftRtx S) (offset : Int) (env : Env) : SoftRtx S × Env :=
  let copied :=
    if validBaseRegister softBase false base then (base, env)
    else (.reg (m.copyToModeReg base env).1, (m.copyToModeReg base env).2)
  let addr := addOffset m copied.1 offset copied.2
  forceAddress sym m mode addr.1 addr.2

/-- The insns for an index into the local variables. -/
def legitimizeIndex (index : SoftRtx S) (shift offset : Int) (env : Env) : SoftRtx S × Env :=
  let reg1 := emitNew sym (.plus (.reg .virtualStackVars) (.const offset)) env
  let reg2 := emitNew sym (.ashift index (.const shift)) reg1.2
  emitNew sym (.plus reg2.1 reg1.1) reg2.2

/-- `xr17032_legitimize_address`. -/
def legitimizeAddress (x : SoftRtx S) (env : Env) : Option (SoftRtx S × Env) :=
  match x with
  | .symbolic s =>
    if sym.tlsSymbol s then some (m.legitimizeTlsAddress s env)
    else if splitSymbolType (sym.type s) then
      (splitSymbol sym m s env).map fun result => forceAddress sym m mode result.1 result.2
    else some (x, env)
  | .plus base (.const offset) =>
    if offset = 0 then some (x, env)
    else
      match frameIndex base offset with
      | some (index, shift) => some (legitimizeIndex sym index shift offset env)
      | none => some (legitimizeOffset sym m mode base offset env)
  | _ => some (x, env)

/-! ## Each step computes what it should -/

theorem Computes.refl {env : Env} {x : SoftRtx S} (h : x.Over env.Has) :
    Computes sym env x x env := ⟨.refl env, h, rfl⟩

variable {sym}

theorem Computes.trans {env env' env'' : Env} {x y z : SoftRtx S} (h : Computes sym env x y env')
    (h' : Computes sym env' y z env'') : Computes sym env x z env'' :=
  ⟨h.ext.trans h'.ext, h'.over_has, h'.value_eq.trans h.value_eq⟩

variable (sym) in
/-- What is known in one state means the same in a later one. -/
theorem Env.Extends.value_eq {env env' : Env} (h : env.Extends env') {x : SoftRtx S}
    (hx : x.Over env.Has) : x.value sym env'.regs = x.value sym env.regs :=
  Rtx.value_congr sym h.regs_eq hx

theorem Env.Extends.over_has {env env' : Env} (h : env.Extends env') {x : SoftRtx S}
    (hx : x.Over env.Has) : x.Over env'.Has := hx.mono fun _ hr => hr.mono h

theorem Rtx.Over.plusConstant {ρ : Type} {p : ρ → Prop} {x : Rtx ρ S} (h : x.Over p) (c : Int) :
    (x.plusConstant c).Over p := by
  unfold Rtx.plusConstant
  split
  · exact h
  · split
    · trivial
    · split
      · exact h.1
      · exact ⟨h.1, trivial⟩
    · exact ⟨h, trivial⟩

/-- The register that is defined is new. -/
theorem Env.extends_define (env : Env) (value : Word) : env.Extends (env.define value).2 := by
  refine ⟨Nat.le_succ _, fun r hr => Function.update_of_ne (fun heq => ?_) _ _⟩
  subst heq
  exact lt_irrefl _ hr

theorem computes_define {env : Env} {x : SoftRtx S} {value : Word}
    (hvalue : value = x.value sym env.regs) :
    Computes sym env x (.reg (env.define value).1) (env.define value).2 := by
  refine ⟨env.extends_define value, Nat.lt_succ_self _, ?_⟩
  rw [← hvalue]
  exact Function.update_self _ _ _

theorem computes_emitNew (env : Env) (x : SoftRtx S) :
    Computes sym env x (emitNew sym x env).1 (emitNew sym x env).2 := computes_define rfl

theorem softLegitimate_reg (r : RegNo) : softLegitimate sym mode (.reg r) = true := by
  simp [softLegitimate, legitimateAddress, classifyAddress, validBaseRegister, softBase]

variable (sym) in
/-- A multiplication is taken for the shift that it is. -/
theorem memShadd_spec {x index : SoftRtx S} {shift : Int} (h : memShadd x = some (index, shift)) :
    (∀ {p}, x.Over p → index.Over p) ∧
      ∀ env, (Rtx.ashift index (.const shift)).value sym env = x.value sym env := by
  unfold memShadd at h
  split at h
  next y c =>
    rw [Option.ite_none_right_eq_some, Option.some.injEq, Prod.mk.injEq] at h
    obtain ⟨-, rfl, rfl⟩ := h
    exact ⟨fun hover => hover.1, fun _ => rfl⟩
  next y c =>
    split at h
    next hc =>
      simp only [Bool.and_eq_true, decide_eq_true_eq] at hc
      obtain ⟨rfl, rfl⟩ := Prod.mk.inj (Option.some.inj h)
      refine ⟨fun hover => hover.1, fun env => ?_⟩
      rw [hc.2]
      simp only [Rtx.value]
      exact BitVec.shiftLeft_eq_mul_twoPow _ 1
    next hc =>
      rw [Option.ite_none_right_eq_some, Option.some.injEq, Prod.mk.injEq] at h
      obtain ⟨hc, rfl, rfl⟩ := h
      simp only [Bool.and_eq_true, decide_eq_true_eq] at hc
      refine ⟨fun hover => hover.1, fun env => ?_⟩
      rw [hc.2]
      simp only [Rtx.value]
      exact BitVec.shiftLeft_eq_mul_twoPow _ 2
  next => cases h

variable {m} (hm : m.Sound sym)
include hm

theorem computes_forceAddress {env : Env} {x : SoftRtx S} (hx : x.Over env.Has) :
    Computes sym env x (forceAddress sym m mode x env).1 (forceAddress sym m mode x env).2 := by
  unfold forceAddress
  split
  · exact .refl sym hx
  · exact hm.forceReg x env hx

omit hm in
theorem softLegitimate_forceAddress (x : SoftRtx S) (env : Env) :
    softLegitimate sym mode (forceAddress sym m mode x env).1 = true := by
  unfold forceAddress
  split
  next hlegitimate => exact hlegitimate
  next hlegitimate => exact softLegitimate_reg mode _

/-- The high half is added to the register, and the rest is left in the address. -/
theorem computes_addOffset {env : Env} {reg : SoftRtx S} (hreg : reg.Over env.Has)
    (offset : Int) :
    Computes sym env (.plus reg (.const offset)) (addOffset m reg offset env).1
      (addOffset m reg offset env).2 := by
  unfold addOffset
  split
  next hsmall =>
    refine ⟨.refl env, hreg.plusConstant offset, ?_⟩
    rw [Rtx.value_plusConstant]
    simp only [Rtx.value]
  next hsmall =>
    let high := m.forceReg (.const (offset / 65536 * 65536)) env
    let sum := m.forceReg (.plus (.reg high.1) reg) high.2
    have hhigh : Computes sym env (.const (offset / 65536 * 65536)) (.reg high.1) high.2 :=
      hm.forceReg _ env trivial
    have hsum : Computes sym high.2 (.plus (.reg high.1) reg) (.reg sum.1) sum.2 :=
      hm.forceReg _ high.2 ⟨hhigh.over_has, hhigh.ext.over_has hreg⟩
    refine ⟨hhigh.ext.trans hsum.ext, hsum.over_has.plusConstant _, ?_⟩
    have hsplit : BitVec.ofInt 32 (offset / 65536 * 65536) + BitVec.ofInt 32 (offset % 65536) =
        BitVec.ofInt 32 offset := by
      rw [← BitVec.ofInt_add]
      congr 1
      omega
    have hvalue := hhigh.value_eq
    have hvalue' := hsum.value_eq
    have hkept := hhigh.ext.value_eq sym hreg
    simp only [Rtx.value] at hvalue hvalue'
    show (Rtx.plusConstant (.reg sum.1) (offset % 65536)).value sym sum.2.regs = _
    rw [Rtx.value_plusConstant]
    simp only [Rtx.value]
    rw [hvalue', hvalue, hkept, ← hsplit]
    ring

theorem computes_legitimizeOffset {env : Env} {base : SoftRtx S} (hbase : base.Over env.Has)
    (offset : Int) :
    Computes sym env (.plus base (.const offset))
      (legitimizeOffset sym m mode base offset env).1
      (legitimizeOffset sym m mode base offset env).2 := by
  let copied : SoftRtx S × Env :=
    if validBaseRegister softBase false base then (base, env)
    else (.reg (m.copyToModeReg base env).1, (m.copyToModeReg base env).2)
  have hcopied : Computes sym env base copied.1 copied.2 := by
    by_cases hvalid : validBaseRegister softBase false base
    · simp only [copied, if_pos hvalid]
      exact .refl sym hbase
    · simp only [copied, if_neg hvalid]
      exact hm.copyToModeReg base env hbase
  have hadd := computes_addOffset hm hcopied.over_has offset
  have hplus : Computes sym env (.plus base (.const offset)) (.plus copied.1 (.const offset))
      copied.2 := by
    refine ⟨hcopied.ext, ⟨hcopied.over_has, trivial⟩, ?_⟩
    simp only [Rtx.value, hcopied.value_eq]
  exact hplus.trans (hadd.trans (computes_forceAddress mode hm hadd.over_has))

omit hm in
theorem softLegitimate_legitimizeOffset (base : SoftRtx S) (offset : Int) (env : Env) :
    softLegitimate sym mode (legitimizeOffset sym m mode base offset env).1 = true :=
  softLegitimate_forceAddress mode _ _

omit hm in
/-- An index into the local variables: the insns make the same sum in another order. -/
theorem computes_legitimizeIndex {env : Env} {base index : SoftRtx S} {shift offset : Int}
    (hbase : base.Over env.Has) (h : frameIndex base offset = some (index, shift)) :
    Computes sym env (.plus base (.const offset)) (legitimizeIndex sym index shift offset env).1
      (legitimizeIndex sym index shift offset env).2 := by
  obtain ⟨shifted, rfl, hindex⟩ : ∃ shifted, base = .plus shifted (.reg .virtualStackVars) ∧
      memShadd shifted = some (index, shift) := by
    unfold frameIndex at h
    split at h
    next shifted =>
      rw [Option.ite_none_right_eq_some] at h
      exact ⟨shifted, rfl, h.2⟩
    next => cases h
  obtain ⟨hover, hvalue⟩ := memShadd_spec sym hindex
  let reg1 := emitNew sym (.plus (.reg .virtualStackVars) (.const offset)) env
  let reg2 := emitNew sym (.ashift index (.const shift)) reg1.2
  let reg3 := emitNew sym (.plus reg2.1 reg1.1) reg2.2
  have h1 : Computes sym env (.plus (.reg .virtualStackVars) (.const offset)) reg1.1 reg1.2 :=
    computes_emitNew env _
  have h2 : Computes sym reg1.2 (.ashift index (.const shift)) reg2.1 reg2.2 :=
    computes_emitNew reg1.2 _
  have h3 : Computes sym reg2.2 (.plus reg2.1 reg1.1) reg3.1 reg3.2 := computes_emitNew reg2.2 _
  have hkept1 := h2.ext.value_eq sym h1.over_has
  have hkept2 := h1.ext.value_eq sym
    (x := .ashift index (.const shift)) ⟨hover hbase.1, trivial⟩
  refine ⟨h1.ext.trans (h2.ext.trans h3.ext), h3.over_has, ?_⟩
  have hsum := h3.value_eq
  simp only [Rtx.value] at hsum
  show reg3.1.value sym reg3.2.regs = _
  rw [hsum, hkept1, h2.value_eq, hkept2, h1.value_eq, hvalue]
  simp only [Rtx.value]
  ring

/-- The high half goes into a register, and the low half stays in the address. -/
theorem computes_splitSymbol (env : Env) {s : S}
    (htype : sym.type s = .absolute ∨ sym.type s = .pcrel) :
    ∃ split, splitSymbol sym m s env = some split ∧
      Computes sym env (.symbolic s) split.1 split.2 := by
  rcases htype with htype | htype
  · let high := m.forceReg (.high s) env
    have hhigh : Computes sym env (.high s) (.reg high.1) high.2 := hm.forceReg _ env trivial
    refine ⟨(.loSum (.reg high.1) s, high.2), by rw [splitSymbol, htype],
      hhigh.ext, hhigh.over_has, ?_⟩
    have hvalue := hhigh.value_eq
    simp only [Rtx.value] at hvalue ⊢
    rw [hvalue, BitVec.sub_add_cancel]
  · let temp := env.define (sym.value s - BitVec.ofNat 32 (sym.low (sym.label s)))
    refine ⟨(.loSum (.reg temp.1) (sym.label s), temp.2), by rw [splitSymbol, htype],
      env.extends_define _, Nat.lt_succ_self _, ?_⟩
    have hvalue : temp.2.regs temp.1 =
        sym.value s - BitVec.ofNat 32 (sym.low (sym.label s)) := Function.update_self _ _ _
    simp only [Rtx.value]
    rw [hvalue, BitVec.sub_add_cancel]

/-! ## Every address -/

variable (sym m) in
/-- The address that comes back stands for the one that was given, and is legitimate if that was a
base and an offset. Others, like an index that is not into the local variables, may come back as
they are; they are legitimate once the compiler has forced them into a register. The addresses of
thread-local variables are computed by a call. -/
def Legitimizes (mode : Mode) (y : SoftRtx S) : Prop :=
  ∀ env : Env, y.Over env.Has →
    (∀ s, y = .symbolic s → sym.tlsSymbol s = false ∧ sym.type s ≠ .tlsLe) →
    ∃ result, legitimizeAddress sym m mode y env = some result ∧
      Computes sym env y result.1 result.2 ∧
      (∀ base offset, y = .plus base (.const offset) → offset ≠ 0 →
        softLegitimate sym mode result.1) ∧
      let forced := forceAddress sym m mode result.1 result.2
      softLegitimate sym mode forced.1 ∧ Computes sym env y forced.1 forced.2

theorem legitimizes (y : SoftRtx S) : Legitimizes sym m mode y := by
  intro env hover hsymbolic
  -- whatever comes back can be forced
  suffices h : ∃ result, legitimizeAddress sym m mode y env = some result ∧
      Computes sym env y result.1 result.2 ∧
      ∀ base offset, y = .plus base (.const offset) → offset ≠ 0 →
        softLegitimate sym mode result.1 by
    obtain ⟨result, heq, hcomputes, hlegitimate⟩ := h
    exact ⟨result, heq, hcomputes, hlegitimate, softLegitimate_forceAddress mode _ _,
      hcomputes.trans (computes_forceAddress mode hm hcomputes.over_has)⟩
  have hkept : Computes sym env y y env := .refl sym hover
  cases y with
  | symbolic s =>
    obtain ⟨hnotTls, hnotLe⟩ := hsymbolic s rfl
    cases hsplit : splitSymbolType (sym.type s) with
    | false =>
      refine ⟨(.symbolic s, env), ?_, hkept, fun _ _ heq => by cases heq⟩
      simp [legitimizeAddress, hnotTls, hsplit]
    | true =>
      have htype : sym.type s = .absolute ∨ sym.type s = .pcrel := by
        simp only [splitSymbolType, Bool.or_eq_true, decide_eq_true_eq] at hsplit
        tauto
      obtain ⟨split, heq, hcomputes⟩ := computes_splitSymbol hm env htype
      refine ⟨forceAddress sym m mode split.1 split.2, ?_,
        hcomputes.trans (computes_forceAddress mode hm hcomputes.over_has), fun _ _ heq => by cases heq⟩
      simp [legitimizeAddress, hnotTls, hsplit, heq]
  | plus base z =>
    cases z with
    | const offset =>
      by_cases hzero : offset = 0
      · refine ⟨(.plus base (.const offset), env), ?_, hkept, ?_⟩
        · simp [legitimizeAddress, hzero]
        · intro _ offset' heq hne
          cases heq
          exact absurd hzero hne
      · cases hindex : frameIndex base offset with
        | some found =>
          refine ⟨legitimizeIndex sym found.1 found.2 offset env, ?_,
            computes_legitimizeIndex hover.1 hindex, fun _ _ _ _ => softLegitimate_reg mode _⟩
          simp [legitimizeAddress, hzero, hindex]
        | none =>
          refine ⟨legitimizeOffset sym m mode base offset env, ?_,
            computes_legitimizeOffset mode hm hover.1 offset,
            fun _ _ _ _ => softLegitimate_legitimizeOffset mode base offset env⟩
          simp [legitimizeAddress, hzero, hindex]
    | _ => exact ⟨_, rfl, hkept, fun _ _ heq => by cases heq⟩
  | _ => exact ⟨_, rfl, hkept, fun _ _ heq => by cases heq⟩

/-- Addresses are legitimized right. Those that are accepted are printed right, except for a
constant that is not a multiple of the unit or leaves no room for every word, and for a low part
that is not a multiple of the unit. -/
theorem addresses_iff (x : HardRtx S) (y : SoftRtx S) :
    (legitimateAddress sym hardBase true mode x → PrintsEveryWord sym mode x) ∧
        Legitimizes sym m mode y ↔
      (legitimateAddress sym hardBase true mode x → ConstantFits sym mode x) := by
  constructor
  · intro ⟨hprints, _⟩ haccepted
    exact (printsEveryWord_iff sym haccepted).1 (hprints haccepted)
  · intro hfits
    refine ⟨fun haccepted => ?_, legitimizes mode hm y⟩
    exact (printsEveryWord_iff sym haccepted).2 (hfits haccepted)

end

/-! ## One compiler -/

/-- Every expression gets a register of its own. -/
def settingRegisters {S : Type} (sym : Symbols S) : MiddleEnd S where
  forceReg x env := env.define (x.value sym env.regs)
  copyToModeReg x env := env.define (x.value sym env.regs)
  legitimizeTlsAddress s env := (.symbolic s, env)

theorem settingRegisters_sound {S : Type} (sym : Symbols S) : (settingRegisters sym).Sound sym :=
  ⟨fun _ _ _ => computes_define rfl, fun _ _ _ => computes_define rfl⟩

/-- A program with one label, at `0x1008`. -/
def oneLabel : Symbols Unit where
  type _ := .pcrel
  tlsSymbol _ := false
  value _ := 0x1008
  link _ := 0x1008
  label := id
  label_type _ := rfl

/-- A word at `0x1008`, and an element of an array. -/
theorem addresses_iff_oneLabel :
    let x : HardRtx Unit := .loSum (.reg zero) ()
    let y : SoftRtx Unit := .plus (.plus (.mult (.reg (.pseudo 0)) (.const 4))
      (.reg .virtualStackVars)) (.const 8)
    (legitimateAddress oneLabel hardBase true ⟨2, by decide⟩ x →
        PrintsEveryWord oneLabel ⟨2, by decide⟩ x) ∧
      Legitimizes oneLabel (settingRegisters oneLabel) ⟨2, by decide⟩ y := by
  intro x y
  refine (addresses_iff ⟨2, by decide⟩ (settingRegisters_sound oneLabel) x y).2 fun _ => ?_
  show (0x1008 : Vma).toNat % 65536 % 4 = 0
  decide

/-- The address 2 is accepted for a word. The offset that is printed, `[zero + 2]`, counts for
nothing in a field of words, and the access goes to the address 0. -/
theorem wordAtTwo_not_printed :
    let x : HardRtx Unit := .const 2
    let mode : Mode := ⟨2, by decide⟩
    legitimateAddress oneLabel hardBase true mode x ∧ ¬ PrintsEveryWord oneLabel mode x ∧
      ((printOperandAddress oneLabel mode x).bind fun op => op.address oneLabel ⟨fun _ => 0⟩) =
        some 0 := by
  refine ⟨rfl, fun h => ?_, ?_⟩
  · have hunit := ((printsEveryWord_const_iff oneLabel ⟨2, by decide⟩ (c := 2) rfl).1 h).1
    exact absurd hunit (by decide)
  · decide

end XrLinux.Gcc.Address
