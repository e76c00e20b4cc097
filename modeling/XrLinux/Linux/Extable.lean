import XrLinux.Linux.Regs

/-!
# Linux — exception tables for accesses to user memory

An access to user memory that may fault has an entry in the exception table: the instruction, where
to go on, and the registers that are to get `-EFAULT` and 0. The numbers of the registers go into
the entry through an assembler symbol for each register name (`asm/gpr-num.h`), and come out in
`fixup_exception` (`mm/extable.c`), which writes to `struct pt_regs` by offset.

The numbers survive (`fieldGet_uaccessData`), but for `s17`, whose symbol is misspelt. Then the
offset is compared with `MAX_REG_OFFSET`, the offset of `pc`, which is 0: no register is written
(`regsSetGpr_eq`).
-/

namespace XrLinux.Linux.Extable

open Machine

/-! ## `asm/gpr-num.h` and `asm/asm-extable.h` -/

/-- `REGISTER_NAMES` of the compiler. -/
def registerNames : List String :=
  ["zero", "t0", "t1", "t2", "t3", "t4", "t5", "a0", "a1", "a2", "a3", "s0", "s1", "s2", "s3", "s4",
    "s5", "s6", "s7", "s8", "s9", "s10", "s11", "s12", "s13", "s14", "s15", "s16", "s17", "tp", "sp",
    "lr"]

/-- The text of an operand in a register. -/
def gprName (r : Reg) : String := registerNames.getD r.val ""

/-- `__DEFINE_ASM_GPR_NUMS`: what stands behind `.L__gpr_num_`, and the value. -/
def gprNums : List (String × Nat) :=
  [("zero", 0), ("t0", 1), ("t1", 2), ("t2", 3), ("t3", 4), ("t4", 5), ("t5", 6), ("a0", 7),
    ("a1", 8), ("a2", 9), ("a3", 10), ("s0", 11), ("s1", 12), ("s2", 13), ("s3", 14), ("s4", 15),
    ("s5", 16), ("s6", 17), ("s7", 18), ("s8", 19), ("s9", 20), ("s10", 21), ("s11", 22),
    ("s12", 23), ("s13", 24), ("s14", 25), ("s15", 26), ("s16", 27), ("t17", 28), ("tp", 29),
    ("sp", 30), ("lr", 31)]

def exTypeFixup : BitVec 16 := 1

def exTypeUaccessErrZero : BitVec 16 := 2

/-- A field of `data`, by `EX_DATA_REG_*_SHIFT` and the `GENMASK` over it. -/
structure DataField where
  shift : Nat
  mask : Word

/-- `EX_DATA_REG_ERR`. -/
def exDataRegErr : DataField := ⟨0, 0x1f⟩

/-- `EX_DATA_REG_ZERO`. -/
def exDataRegZero : DataField := ⟨5, 0x3e0⟩

/-- `struct exception_table_entry`. -/
structure ExceptionTableEntry where
  insn : Word
  fixup : Word
  type : BitVec 16
  data : BitVec 16

/-- `EX_DATA_REG`. The assembler cannot shift a symbol that is not defined. -/
def exDataReg (field : DataField) (gpr : String) : Option Nat :=
  (gprNums.lookup gpr).map (· <<< field.shift)

/-- `_ASM_EXTABLE`. -/
def asmExtable (insn fixup : Word) : ExceptionTableEntry := ⟨insn, fixup, exTypeFixup, 0⟩

/-- `_ASM_EXTABLE_UACCESS_ERR_ZERO`, if it can be assembled. -/
def asmExtableUaccessErrZero (insn fixup : Word) (err zero : String) :
    Option ExceptionTableEntry := do
  let errData ← exDataReg exDataRegErr err
  let zeroData ← exDataReg exDataRegZero zero
  return ⟨insn, fixup, exTypeUaccessErrZero, BitVec.ofNat 16 (errData ||| zeroData)⟩

/-- `_ASM_EXTABLE_UACCESS_ERR`, whose last operand is the text `zero`. -/
def asmExtableUaccessErr (insn fixup : Word) (err : String) : Option ExceptionTableEntry :=
  asmExtableUaccessErrZero insn fixup err "zero"

/-! ## `fixup_exception` -/

/-- `offsetof (struct pt_regs, pc)`: it is the first member. -/
def offsetofPc : Nat := 0

/-- `MAX_REG_OFFSET`. -/
def maxRegOffset : Nat := offsetofPc

/-- `FIELD_GET`, of a `short`. -/
def fieldGet (field : DataField) (data : BitVec 16) : Nat :=
  ((data.signExtend 32 &&& field.mask) >>> field.shift).toNat

/-- A store to the word at an offset in `struct pt_regs`. -/
def storeAt (regs : PtRegs) (offset : Nat) (val : Word) : PtRegs :=
  if offset = offsetofPc then { regs with pc := val }
  else if h : offset / 4 < 32 then regs.set ⟨offset / 4, h⟩ val
  else if offset / 4 = 32 then { regs with rs := val }
  else if offset / 4 = 33 then { regs with origA3 := val }
  else regs

/-- `regs_set_gpr`. -/
def regsSetGpr (regs : PtRegs) (offset : Nat) (val : Word) : PtRegs :=
  if offset > maxRegOffset then regs
  else if offset ≠ 0 then storeAt regs offset val
  else regs

/-- `-EFAULT`. -/
def efault : Word := -14

/-- `ex_handler_fixup`. -/
def exHandlerFixup (ex : ExceptionTableEntry) (regs : PtRegs) : PtRegs :=
  { regs with pc := ex.fixup }

/-- `ex_handler_uaccess_err_zero`. -/
def exHandlerUaccessErrZero (ex : ExceptionTableEntry) (regs : PtRegs) : PtRegs :=
  let regErr := fieldGet exDataRegErr ex.data
  let regZero := fieldGet exDataRegZero ex.data
  let regs := regsSetGpr regs (regErr * 4) efault
  let regs := regsSetGpr regs (regZero * 4) 0
  { regs with pc := ex.fixup }

/-- `fixup_exception`, with what `search_exception_tables` finds. There is no result after
`BUG ()`. -/
def fixupException (searchExceptionTables : Word → Option ExceptionTableEntry) (regs : PtRegs) :
    Option (Bool × PtRegs) :=
  match searchExceptionTables regs.pc with
  | none => some (false, regs)
  | some ex =>
    if ex.type = exTypeFixup then some (true, exHandlerFixup ex regs)
    else if ex.type = exTypeUaccessErrZero then some (true, exHandlerUaccessErrZero ex regs)
    else none

/-! ## `asm/uaccess.h` -/

/-- Where an `asm` statement goes on: behind it, or at the label of its `asm goto`. -/
structure AsmLabels where
  next : Word
  label : Word
  next_ne_label : next ≠ label

/-- A load from user memory: the instruction, its output, and what it loads unless it faults. -/
structure UserLoad where
  insn : Word
  output : Reg
  loaded : Option Word

/-- Loads in a row, and where control is behind them. -/
def runLoads (search : Word → Option ExceptionTableEntry) (next : Word) :
    List UserLoad → PtRegs → Option PtRegs
  | [], regs => some { regs with pc := next }
  | load :: loads, regs =>
    match load.loaded with
    | some value => runLoads search next loads (regs.set load.output value)
    | none => (fixupException search { regs with pc := load.insn }).map Prod.snd

/-- The exception table with the entries of an `asm` statement. -/
def searchEntries (entries : List ExceptionTableEntry) (pc : Word) : Option ExceptionTableEntry :=
  entries.find? (·.insn = pc)

/-- Whether `__get_user_asm` and `__get_user_8` go to their label. `output` is the first output of
the loads, and `err` the register of `__gua_err`, which is 0 before them. -/
def getUserFails (ccHasAsmGotoOutput : Bool) (labels : AsmLabels) (loads : List UserLoad)
    (output err : Reg) (regs : PtRegs) : Option Bool :=
  if ccHasAsmGotoOutput then do
    let entries ← loads.mapM fun load =>
      asmExtableUaccessErr load.insn labels.label (gprName output)
    let regs ← runLoads (searchEntries entries) labels.next loads regs
    return regs.pc = labels.label
  else do
    let entries ← loads.mapM fun load =>
      asmExtableUaccessErrZero load.insn labels.next (gprName err) (gprName output)
    let regs ← runLoads (searchEntries entries) labels.next loads (regs.set err 0)
    return regs.gpr err ≠ 0

/-- A user pointer that is aligned for its size is loaded from, in one load or two. From any other
`__asm_copy_from_user` copies, and returns how many bytes are left. -/
inductive GetAccess where
  | aligned (loads : List UserLoad)
  | unaligned (left : Word)

/-- `__get_user_error`: 0 or `-EFAULT`. -/
def getUserError (ccHasAsmGotoOutput : Bool) (labels : AsmLabels) (access : GetAccess)
    (output err : Reg) (regs : PtRegs) : Option Word :=
  match access with
  | .unaligned left => some (if left ≠ 0 then efault else 0)
  | .aligned loads =>
    (getUserFails ccHasAsmGotoOutput labels loads output err regs).map
      fun fails => if fails then efault else 0

/-- `get_user`, with the answer of `access_ok`. -/
def getUser (ccHasAsmGotoOutput accessOk : Bool) (labels : AsmLabels) (access : GetAccess)
    (output err : Reg) (regs : PtRegs) : Option Word :=
  if accessOk then getUserError ccHasAsmGotoOutput labels access output err regs else some efault

/-- A store to user memory, and whether it faults. -/
structure UserStore where
  insn : Word
  faults : Bool

/-- Stores in a row, and where control is behind them. -/
def runStores (search : Word → Option ExceptionTableEntry) (next : Word) :
    List UserStore → PtRegs → Option PtRegs
  | [], regs => some { regs with pc := next }
  | store :: stores, regs =>
    if store.faults then (fixupException search { regs with pc := store.insn }).map Prod.snd
    else runStores search next stores regs

inductive PutAccess where
  | aligned (stores : List UserStore)
  | unaligned (left : Word)

/-- `put_user`, with the answer of `access_ok`. -/
def putUser (accessOk : Bool) (labels : AsmLabels) (access : PutAccess) (regs : PtRegs) :
    Option Word :=
  if accessOk then
    match access with
    | .unaligned left => some (if left ≠ 0 then efault else 0)
    | .aligned stores => do
      let entries := stores.map fun store => asmExtable store.insn labels.label
      let regs ← runStores (searchEntries entries) labels.next stores regs
      return if regs.pc = labels.label then efault else 0
  else some efault

/-! ## What they are for -/

/-- `regs'` is `regs` gone on at `fixup`, with `-EFAULT` in one register and 0 in another. There is
no saved register for `zero`. -/
structure IsFixedUp (regs regs' : PtRegs) (fixup : Word) (err zero : Reg) : Prop where
  pc_eq : regs'.pc = fixup
  err_eq : regs'.gpr err = efault
  zero_eq : zero ≠ Machine.zero → regs'.gpr zero = 0
  gpr_eq : ∀ r, r ≠ err → r ≠ zero → regs'.gpr r = regs.gpr r
  rs_eq : regs'.rs = regs.rs
  origA3_eq : regs'.origA3 = regs.origA3

/-- The entry for the faulting instruction can be assembled, and the exception table that has it
fixes the exception up. -/
def FixesUp (regs : PtRegs) (fixup : Word) (err zero : Reg) : Prop :=
  ∃ ex, asmExtableUaccessErrZero regs.pc fixup (gprName err) (gprName zero) = some ex ∧
    ∀ search : Word → Option ExceptionTableEntry, search regs.pc = some ex →
      ∃ regs', fixupException search regs = some (true, regs') ∧ IsFixedUp regs regs' fixup err zero

def GetAccess.Faults : GetAccess → Prop
  | .aligned loads => ∃ load ∈ loads, load.loaded = none
  | .unaligned left => left ≠ 0

def PutAccess.Faults : PutAccess → Prop
  | .aligned stores => ∃ store ∈ stores, store.faults = true
  | .unaligned left => left ≠ 0

/-- The outputs of the loads of an access. -/
def GetAccess.outputs : GetAccess → List Reg
  | .aligned loads => loads.map UserLoad.output
  | .unaligned _ => []

def GetAccess.isUnaligned : GetAccess → Bool
  | .aligned _ => false
  | .unaligned _ => true

/-! ## Entries -/

/-- The only register whose symbol is missing. -/
def s17 : Reg := sReg 17

theorem lookup_gprName (r : Reg) :
    gprNums.lookup (gprName r) = if r = s17 then none else some r.val := by
  revert r
  decide +kernel

theorem exDataReg_gprName (field : DataField) (r : Reg) :
    exDataReg field (gprName r) = if r = s17 then none else some (r.val <<< field.shift) := by
  rw [exDataReg, lookup_gprName]
  split <;> rfl

/-- The word with both numbers. -/
def uaccessData (err zero : Reg) : BitVec 16 := BitVec.ofNat 16 (err.val ||| zero.val <<< 5)

theorem asmExtableUaccessErrZero_eq (insn fixup : Word) (err zero : Reg) :
    asmExtableUaccessErrZero insn fixup (gprName err) (gprName zero) =
      if err = s17 ∨ zero = s17 then none
      else some ⟨insn, fixup, exTypeUaccessErrZero, uaccessData err zero⟩ := by
  unfold asmExtableUaccessErrZero
  rw [exDataReg_gprName, exDataReg_gprName]
  by_cases herr : err = s17
  · have hmissing : err = s17 ∨ zero = s17 := .inl herr
    rw [if_pos herr, if_pos hmissing]
    rfl
  · rw [if_neg herr]
    by_cases hzero : zero = s17
    · have hmissing : err = s17 ∨ zero = s17 := .inr hzero
      rw [if_pos hzero, if_pos hmissing]
      rfl
    · rw [if_neg hzero, if_neg (not_or.2 ⟨herr, hzero⟩)]
      rfl

/-- The numbers come out of the word as they went in. -/
theorem fieldGet_uaccessData (err zero : Reg) :
    fieldGet exDataRegErr (uaccessData err zero) = err.val ∧
      fieldGet exDataRegZero (uaccessData err zero) = zero.val := by
  revert err zero
  decide +kernel

/-- No offset is between 0 and `MAX_REG_OFFSET`. -/
theorem regsSetGpr_eq (regs : PtRegs) (offset : Nat) (val : Word) :
    regsSetGpr regs offset val = regs := by
  unfold regsSetGpr
  by_cases hoffset : offset > maxRegOffset
  · exact if_pos hoffset
  · have hzero : offset = 0 := Nat.le_zero.1 (Nat.not_lt.1 hoffset)
    rw [if_neg hoffset, if_neg (not_not.2 hzero)]

theorem exHandlerUaccessErrZero_eq (insn fixup : Word) (err zero : Reg) (regs : PtRegs) :
    exHandlerUaccessErrZero ⟨insn, fixup, exTypeUaccessErrZero, uaccessData err zero⟩ regs =
      { regsSetGpr (regsSetGpr regs (err.val * 4) efault) (zero.val * 4) 0 with pc := fixup } := by
  obtain ⟨herr, hzero⟩ := fieldGet_uaccessData err zero
  simp only [exHandlerUaccessErrZero, herr, hzero]

theorem fixupException_uaccess {search : Word → Option ExceptionTableEntry} {regs : PtRegs}
    {insn fixup : Word} {err zero : Reg}
    (h : search regs.pc = some ⟨insn, fixup, exTypeUaccessErrZero, uaccessData err zero⟩) :
    fixupException search regs = some (true, { regs with pc := fixup }) := by
  have hhandler := exHandlerUaccessErrZero_eq insn fixup err zero regs
  rw [regsSetGpr_eq, regsSetGpr_eq] at hhandler
  simp only [fixupException, h, hhandler]
  rfl

theorem fixupException_fixup {search : Word → Option ExceptionTableEntry} {regs : PtRegs}
    {insn fixup : Word} (h : search regs.pc = some (asmExtable insn fixup)) :
    fixupException search regs = some (true, { regs with pc := fixup }) := by
  simp only [fixupException, h]
  rfl

/-- Where an exception is fixed up: the registers must have had the values by themselves. -/
theorem fixesUp_iff (regs : PtRegs) (fixup : Word) (err zero : Reg) :
    FixesUp regs fixup err zero ↔
      err ≠ s17 ∧ zero ≠ s17 ∧ regs.gpr err = efault ∧
        (zero ≠ Machine.zero → regs.gpr zero = 0) := by
  unfold FixesUp
  rw [asmExtableUaccessErrZero_eq]
  constructor
  · intro ⟨ex, hex, hfixes⟩
    by_cases hmissing : err = s17 ∨ zero = s17
    · rw [if_pos hmissing] at hex
      cases hex
    · rw [if_neg hmissing, Option.some.injEq] at hex
      obtain ⟨regs', hregs', hfixed⟩ := hfixes (fun _ => some ex) rfl
      subst hex
      rw [fixupException_uaccess rfl, Option.some.injEq, Prod.mk.injEq] at hregs'
      obtain ⟨-, rfl⟩ := hregs'
      rw [not_or] at hmissing
      exact ⟨hmissing.1, hmissing.2, hfixed.err_eq, hfixed.zero_eq⟩
  · intro ⟨herr, hzero, herrValue, hzeroValue⟩
    rw [if_neg (not_or.2 ⟨herr, hzero⟩)]
    refine ⟨_, rfl, ?_⟩
    intro search hsearch
    exact ⟨_, fixupException_uaccess hsearch, rfl, herrValue, hzeroValue, fun _ _ _ => rfl, rfl, rfl⟩

/-! ## User accesses -/

/-- The entries of one statement: whatever instruction faults has one. -/
theorem searchEntries_map {α : Type} (insn : α → Word) (entry : Word → ExceptionTableEntry)
    (hentry : ∀ pc, (entry pc).insn = pc) (accesses : List α) {access : α} (h : access ∈ accesses) :
    searchEntries (accesses.map fun access => entry (insn access)) (insn access) =
      some (entry (insn access)) := by
  have hsome : (searchEntries (accesses.map fun access => entry (insn access))
      (insn access)).isSome := by
    rw [searchEntries, List.find?_isSome]
    exact ⟨_, List.mem_map_of_mem h, by simp [hentry]⟩
  obtain ⟨ex, hex⟩ := Option.isSome_iff_exists.1 hsome
  rw [hex]
  have hpc := List.find?_some hex
  obtain ⟨access', -, rfl⟩ := List.mem_map.1 (List.mem_of_find?_eq_some hex)
  rw [hentry, decide_eq_true_eq] at hpc
  rw [hpc]

/-- The first load that faults goes on at the entry's address, and leaves all registers alone but
for what loads before it have loaded. -/
theorem runLoads_faults {search : Word → Option ExceptionTableEntry} (next : Word) {fixup : Word}
    {err zero : Reg} {loads : List UserLoad} (regs : PtRegs)
    (hsearch : ∀ load ∈ loads, search load.insn =
      some ⟨load.insn, fixup, exTypeUaccessErrZero, uaccessData err zero⟩)
    (hfaults : ∃ load ∈ loads, load.loaded = none) :
    ∃ regs', runLoads search next loads regs = some regs' ∧ regs'.pc = fixup ∧
      ∀ r, r ∉ loads.map UserLoad.output → regs'.gpr r = regs.gpr r := by
  induction loads generalizing regs with
  | nil =>
    obtain ⟨load, hload, -⟩ := hfaults
    exact absurd hload List.not_mem_nil
  | cons load loads ih =>
    cases hloaded : load.loaded with
    | none =>
      have hfix : fixupException search { regs with pc := load.insn } =
          some (true, { regs with pc := fixup }) :=
        fixupException_uaccess (hsearch load List.mem_cons_self)
      refine ⟨{ regs with pc := fixup }, ?_, rfl, fun _ _ => rfl⟩
      simp only [runLoads, hloaded, hfix]
      rfl
    | some value =>
      have hrest : ∃ load ∈ loads, load.loaded = none := by
        obtain ⟨faulting, hmem, hnone⟩ := hfaults
        rcases List.mem_cons.1 hmem with rfl | hmem
        · rw [hloaded] at hnone
          cases hnone
        · exact ⟨faulting, hmem, hnone⟩
      obtain ⟨regs', hregs', hpc, hkept⟩ := ih (regs.set load.output value)
        (fun load hload => hsearch load (List.mem_cons_of_mem _ hload)) hrest
      refine ⟨regs', ?_, hpc, ?_⟩
      · simp only [runLoads, hloaded]
        exact hregs'
      · intro r hr
        rw [List.map_cons, List.mem_cons, not_or] at hr
        rw [hkept r hr.2, PtRegs.set_gpr_of_ne _ _ hr.1]

theorem runStores_faults {search : Word → Option ExceptionTableEntry} (next : Word)
    {fixup : Word} {stores : List UserStore} (regs : PtRegs)
    (hsearch : ∀ store ∈ stores, search store.insn = some (asmExtable store.insn fixup))
    (hfaults : ∃ store ∈ stores, store.faults = true) :
    runStores search next stores regs = some { regs with pc := fixup } := by
  induction stores with
  | nil =>
    obtain ⟨store, hstore, -⟩ := hfaults
    exact absurd hstore List.not_mem_nil
  | cons store stores ih =>
    cases hstore : store.faults with
    | true =>
      have hfix : fixupException search { regs with pc := store.insn } =
          some (true, { regs with pc := fixup }) :=
        fixupException_fixup (hsearch store List.mem_cons_self)
      simp only [runStores, hstore, if_pos, hfix]
      rfl
    | false =>
      have hrest : ∃ store ∈ stores, store.faults = true := by
        obtain ⟨faulting, hmem, hfaults⟩ := hfaults
        rcases List.mem_cons.1 hmem with rfl | hmem
        · rw [hstore] at hfaults
          cases hfaults
        · exact ⟨faulting, hmem, hfaults⟩
      simp only [runStores, hstore, Bool.false_eq_true, if_false]
      exact ih (fun store hmem => hsearch store (List.mem_cons_of_mem _ hmem)) hrest

/-- The entries of the loads of one statement, if its registers have symbols. -/
theorem mapM_asmExtableUaccessErrZero (loads : List UserLoad) (fixup : Word) (err zero : Reg) :
    (err ≠ s17 ∧ zero ≠ s17 →
      loads.mapM (fun load =>
          asmExtableUaccessErrZero load.insn fixup (gprName err) (gprName zero)) =
        some (loads.map fun load =>
          ⟨load.insn, fixup, exTypeUaccessErrZero, uaccessData err zero⟩)) ∧
    (¬ (err ≠ s17 ∧ zero ≠ s17) → loads ≠ [] →
      loads.mapM (fun load =>
          asmExtableUaccessErrZero load.insn fixup (gprName err) (gprName zero)) = none) := by
  constructor
  · intro ⟨herr, hzero⟩
    have hentry : ∀ load : UserLoad,
        asmExtableUaccessErrZero load.insn fixup (gprName err) (gprName zero) =
          some ⟨load.insn, fixup, exTypeUaccessErrZero, uaccessData err zero⟩ := by
      intro load
      rw [asmExtableUaccessErrZero_eq, if_neg (not_or.2 ⟨herr, hzero⟩)]
    induction loads with
    | nil => rfl
    | cons load loads ih =>
      rw [List.mapM_cons, hentry, ih]
      rfl
  · intro hmissing hloads
    cases loads with
    | nil => exact absurd rfl hloads
    | cons load loads =>
      have hnone : asmExtableUaccessErrZero load.insn fixup (gprName err) (gprName zero) = none := by
        rw [asmExtableUaccessErrZero_eq, if_pos]
        by_cases herr : err = s17
        · exact .inl herr
        · exact .inr (not_not.1 fun hzero => hmissing ⟨herr, hzero⟩)
      rw [List.mapM_cons, hnone]
      rfl

/-- With outputs in `asm goto` the entries lead to the label, whatever becomes of the registers. -/
theorem getUserFails_goto {labels : AsmLabels} {loads : List UserLoad} {output : Reg} (err : Reg)
    (regs : PtRegs) (hfaults : ∃ load ∈ loads, load.loaded = none) :
    getUserFails true labels loads output err regs = if output = s17 then none else some true := by
  have hloads : loads ≠ [] := by
    intro hnil
    obtain ⟨load, hload, -⟩ := hfaults
    exact absurd hload (hnil ▸ List.not_mem_nil)
  obtain ⟨hentries, hnone⟩ :=
    mapM_asmExtableUaccessErrZero loads labels.label output Machine.zero
  show ((loads.mapM fun load => asmExtableUaccessErrZero load.insn labels.label (gprName output)
    (gprName Machine.zero)) >>= _) = _
  by_cases houtput : output = s17
  · rw [hnone (fun h => h.1 houtput) hloads, if_pos houtput]
    rfl
  · obtain ⟨regs', hregs', hpc, -⟩ := runLoads_faults labels.next regs
      (fun load hload => searchEntries_map UserLoad.insn
        (fun pc => ⟨pc, labels.label, exTypeUaccessErrZero, uaccessData output Machine.zero⟩)
        (fun _ => rfl) loads hload) hfaults
    rw [hentries ⟨houtput, by decide⟩, if_neg houtput]
    show ((runLoads _ labels.next loads regs) >>= _) = some true
    rw [hregs']
    show some (decide (regs'.pc = labels.label)) = some true
    rw [hpc, decide_eq_true rfl]

/-- Without, the register of `__gua_err` still has the 0 of before. -/
theorem getUserFails_ne_true {labels : AsmLabels} {loads : List UserLoad} {output err : Reg}
    (herr : err ∉ loads.map UserLoad.output) (regs : PtRegs)
    (hfaults : ∃ load ∈ loads, load.loaded = none) :
    getUserFails false labels loads output err regs ≠ some true := by
  have hloads : loads ≠ [] := by
    intro hnil
    obtain ⟨load, hload, -⟩ := hfaults
    exact absurd hload (hnil ▸ List.not_mem_nil)
  obtain ⟨hentries, hnone⟩ := mapM_asmExtableUaccessErrZero loads labels.next err output
  show ((loads.mapM fun load => asmExtableUaccessErrZero load.insn labels.next (gprName err)
    (gprName output)) >>= _) ≠ _
  by_cases hsymbols : err ≠ s17 ∧ output ≠ s17
  · obtain ⟨regs', hregs', -, hkept⟩ := runLoads_faults labels.next (regs.set err 0)
      (fun load hload => searchEntries_map UserLoad.insn
        (fun pc => ⟨pc, labels.next, exTypeUaccessErrZero, uaccessData err output⟩)
        (fun _ => rfl) loads hload) hfaults
    rw [hentries hsymbols]
    show ((runLoads _ labels.next loads (regs.set err 0)) >>= _) ≠ some true
    rw [hregs']
    show some (decide (regs'.gpr err ≠ 0)) ≠ some true
    rw [hkept err herr, PtRegs.set_gpr_self]
    decide
  · rw [hnone hsymbols hloads]
    intro hnone
    cases hnone

/-- A fault under `get_user`: only without outputs in `asm goto` is it for the saved registers to
tell. -/
theorem getUser_iff (ccHasAsmGotoOutput accessOk : Bool) (labels : AsmLabels) {access : GetAccess}
    {output err : Reg} (herr : err ∉ access.outputs) (regs : PtRegs) (hfaults : access.Faults) :
    getUser ccHasAsmGotoOutput accessOk labels access output err regs = some efault ↔
      accessOk = false ∨ access.isUnaligned = true ∨
        (ccHasAsmGotoOutput = true ∧ output ≠ s17) := by
  cases accessOk with
  | false => exact iff_of_true rfl (.inl rfl)
  | true =>
    cases access with
    | unaligned left =>
      refine iff_of_true ?_ (.inr (.inl rfl))
      show some (if left ≠ 0 then efault else 0) = some efault
      rw [if_pos (show left ≠ 0 from hfaults)]
    | aligned loads =>
      have hrest : (true = false ∨ (GetAccess.aligned loads).isUnaligned = true ∨
          (ccHasAsmGotoOutput = true ∧ output ≠ s17)) ↔
          (ccHasAsmGotoOutput = true ∧ output ≠ s17) := by
        simp [GetAccess.isUnaligned]
      rw [hrest]
      show (getUserFails ccHasAsmGotoOutput labels loads output err regs).map
        (fun fails => if fails then efault else 0) = some efault ↔ _
      rw [Option.map_eq_some_iff]
      cases ccHasAsmGotoOutput with
      | true =>
        rw [getUserFails_goto err regs hfaults]
        by_cases houtput : output = s17
        · simp [houtput]
        · simp [houtput]
      | false =>
        refine iff_of_false ?_ fun h => absurd h.1 Bool.false_ne_true
        intro ⟨fails, hfails, hvalue⟩
        cases fails with
        | true => exact getUserFails_ne_true herr regs hfaults hfails
        | false => exact absurd hvalue (by decide)

theorem putUser_faults (accessOk : Bool) (labels : AsmLabels) {access : PutAccess} (regs : PtRegs)
    (hfaults : access.Faults) : putUser accessOk labels access regs = some efault := by
  cases accessOk with
  | false => rfl
  | true =>
    cases access with
    | unaligned left =>
      show some (if left ≠ 0 then efault else 0) = some efault
      rw [if_pos (show left ≠ 0 from hfaults)]
    | aligned stores =>
      have hrun := runStores_faults labels.next regs
        (fun store hstore => searchEntries_map UserStore.insn (fun pc => asmExtable pc labels.label)
          (fun _ => rfl) stores hstore) hfaults
      show ((runStores _ labels.next stores regs) >>= _) = some efault
      rw [hrun]
      show some (if labels.label = labels.label then efault else 0) = some efault
      rw [if_pos rfl]

/-- **Exception fixups for user access.** An entry fixes its exception up *if and only if* its
registers have symbols, and `-EFAULT` and 0 already: no register is written. So `get_user` returns
`-EFAULT` after a fault *if and only if* there was no access or no aligned one, or the compiler has
outputs in `asm goto` and the output is not in `s17`. `put_user` always does. -/
theorem fixup_correct_iff (regs : PtRegs) :
    (∀ (fixup : Word) (err zero : Reg),
      FixesUp regs fixup err zero ↔
        err ≠ s17 ∧ zero ≠ s17 ∧ regs.gpr err = efault ∧
          (zero ≠ Machine.zero → regs.gpr zero = 0)) ∧
    (∀ (ccHasAsmGotoOutput accessOk : Bool) (labels : AsmLabels) (access : GetAccess)
      (output err : Reg), err ∉ access.outputs → access.Faults →
      (getUser ccHasAsmGotoOutput accessOk labels access output err regs = some efault ↔
        accessOk = false ∨ access.isUnaligned = true ∨
          (ccHasAsmGotoOutput = true ∧ output ≠ s17))) ∧
    ∀ (accessOk : Bool) (labels : AsmLabels) (access : PutAccess),
      access.Faults → putUser accessOk labels access regs = some efault := by
  refine ⟨fixesUp_iff regs, ?_, ?_⟩
  · intro ccHasAsmGotoOutput accessOk labels access output err herr hfaults
    exact getUser_iff ccHasAsmGotoOutput accessOk labels herr regs hfaults
  · intro accessOk labels access hfaults
    exact putUser_faults accessOk labels regs hfaults

/-- Nothing in the registers. -/
def clearRegs : PtRegs := ⟨0x100, fun _ => 0, 0, 0⟩

def demoLabels : AsmLabels := ⟨0x104, 0x200, by decide⟩

/-- A load into `t1` that faults. -/
def faultingLoad : GetAccess := .aligned [⟨0x100, t1, none⟩]

def faultingStore : PutAccess := .aligned [⟨0x100, true⟩]

theorem fixup_correct_iff_clearRegs :
    (getUser false true demoLabels faultingLoad t1 t0 clearRegs = some efault ↔
      true = false ∨ faultingLoad.isUnaligned = true ∨ (false = true ∧ t1 ≠ s17)) ∧
    putUser true demoLabels faultingStore clearRegs = some efault := by
  have hload : faultingLoad.Faults := ⟨⟨0x100, t1, none⟩, by simp, rfl⟩
  have hstore : faultingStore.Faults := ⟨⟨0x100, true⟩, by simp, rfl⟩
  have hfixup := fixup_correct_iff clearRegs
  exact ⟨hfixup.2.1 false true demoLabels faultingLoad t1 t0 (by decide) hload,
    hfixup.2.2 true demoLabels faultingStore hstore⟩

/-- With 0 in `t0` before the fault, `t0` does not have `-EFAULT` after it. -/
theorem fixup_writes_nothing :
    ¬ ∀ (regs : PtRegs) (fixup : Word) (err zero : Reg), err ≠ zero →
      FixesUp regs fixup err zero := by
  intro hall
  obtain ⟨-, -, herr, -⟩ :=
    (fixesUp_iff clearRegs 0x104 t0 t1).1 (hall clearRegs 0x104 t0 t1 (by decide))
  exact absurd herr (by decide)

end XrLinux.Linux.Extable
