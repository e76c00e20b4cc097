import Mathlib.Data.List.Forall2
import Mathlib.Data.List.Indexes
import Mathlib.Order.Basic
import Mathlib.Tactic.Common

/-!
# GCC port — passing arguments

`xr17032_get_arg_info` says for one argument at a time whether it goes into registers, and
`xr17032_function_arg_advance` asks it again to learn how far the registers are used up. What walks
a list of arguments with them is GCC itself: `expand_call` in the caller, which lays the arguments
out by `locate_and_pad_parm`, `assign_parms` in the callee, and the gimplified `va_arg` for what is
behind the declared parameters. Of those only what the hooks and macros of the port leave them to do
is written down here.

A type is what these functions ask of it. Types of variable size, and those that must be in memory
for the language's sake, have become pointers before any of this.
-/

namespace XrLinux.Gcc

/-- `UNITS_PER_WORD`. -/
def unitsPerWord : Nat := 4

/-- `MAX_ARGS_IN_REGISTERS`. -/
def maxArgsInRegisters : Nat := 4

/-- `STACK_BOUNDARY`. -/
def stackBoundary : Nat := 32

/-- `PARM_BOUNDARY`. -/
def parmBoundary : Nat := 32

/-- `XR17032_A0` and `XR17032_A3`. -/
def regnoA0 : Nat := 7

def regnoA3 : Nat := 10

/-- A type, or the mode that stands for one in a library call. Alignments are in bits. -/
structure ArgType where
  /-- `int_size_in_bytes`, or `GET_MODE_SIZE`. -/
  bytes : Nat
  /-- `TYPE_ALIGN`, or `GET_MODE_ALIGNMENT`. -/
  align : Nat
  /-- `TYPE_ALIGN (TYPE_MAIN_VARIANT (type))` of a type that is no aggregate. -/
  scalarAlign : Option Nat
  /-- There are no larger objects. -/
  bytes_lt : bytes < 2147483648
  align_pow : ∃ k, align = 8 <<< k

/-- `CUMULATIVE_ARGS`. -/
structure CumulativeArgs where
  numGprs : Nat

/-- `struct xr17032_arg_info`. -/
structure ArgInfo where
  stackP : Bool
  numGprs : Nat
  gprOffset : Nat

/-- The patterns that the hooks return; `parallel` has register numbers and byte offsets. -/
inductive Rtx where
  | null
  | const0
  | reg (regno : Nat)
  | parallel (parts : List (Nat × Nat))
deriving DecidableEq, Repr

/-! ### The port -/

/-- `xr17032_function_arg_boundary`. -/
def functionArgBoundary (t : ArgType) : Nat :=
  min stackBoundary (max parmBoundary (t.scalarAlign.getD t.align))

/-- `num_words` of `xr17032_get_arg_info`, which counts in `unsigned`. -/
def numWords (t : ArgType) : Nat :=
  (t.bytes + unitsPerWord - 1) % 4294967296 / unitsPerWord

/-- `xr17032_get_arg_info`. -/
def getArgInfo (cum : CumulativeArgs) (t : ArgType) (named returnP : Bool) : ArgInfo × Rtx :=
  let stackP :=
    if !named || (!returnP && 2 < numWords t) then true
    else decide ((maxArgsInRegisters + 4294967296 - cum.numGprs) % 4294967296 < numWords t)
  if stackP then ({ stackP, numGprs := 0, gprOffset := cum.numGprs }, .null)
  else
    ({ stackP, numGprs := numWords t, gprOffset := cum.numGprs },
      if returnP then
        -- values go down from A3, one word a register
        if numWords t ≤ 1 then .reg (regnoA3 - cum.numGprs)
        else
          .parallel ((List.range (numWords t)).map fun i =>
            (regnoA3 - cum.numGprs - i, i * unitsPerWord))
      else .reg (regnoA0 + cum.numGprs))

/-- `xr17032_function_arg`; `none` is the end marker. -/
def functionArg (cum : CumulativeArgs) : Option (ArgType × Bool) → Rtx
  | none => .const0
  | some (t, named) => (getArgInfo cum t named false).2

/-- `xr17032_function_arg_advance`. -/
def functionArgAdvance (cum : CumulativeArgs) (t : ArgType) (named : Bool) : CumulativeArgs :=
  let info := (getArgInfo cum t named false).1
  { numGprs := info.gprOffset + info.numGprs }

/-- `xr17032_init_cumulative_args`. -/
def initCumulativeArgs : CumulativeArgs := { numGprs := 0 }

/-- `xr17032_function_value`, and `xr17032_libcall_value` for a mode. -/
def functionValue (t : ArgType) : Rtx := (getArgInfo { numGprs := 0 } t true true).2

/-- `xr17032_return_in_memory`. -/
def returnInMemory (t : ArgType) : Bool := (getArgInfo { numGprs := 0 } t true true).1.stackP

/-! ### GCC around it -/

/-- Where an argument is: in `count` registers from `regno` on, or on the stack, `offset` bytes
above the arguments' start. -/
inductive Place where
  | regs (regno count : Nat)
  | slot (offset size : Nat)
deriving DecidableEq, Repr

/-- How far a walk over the arguments has come. -/
structure Walk where
  cum : CumulativeArgs
  stackOffset : Nat

def Walk.init : Walk := { cum := initCumulativeArgs, stackOffset := 0 }

/-- `aligned_upper_bound`. -/
def alignedUpperBound (value align : Nat) : Nat := (value + align - 1) / align * align

/-- The place of one argument. One in registers takes as many as its size needs; one on the stack
starts at its boundary and fills `PARM_BOUNDARY` units. -/
def Walk.place (w : Walk) (arg : ArgType × Bool) : Place :=
  match functionArg w.cum (some arg) with
  | .reg regno => .regs regno ((arg.1.bytes + unitsPerWord - 1) / unitsPerWord)
  | _ =>
    .slot (alignedUpperBound w.stackOffset (functionArgBoundary arg.1 / 8))
      (alignedUpperBound arg.1.bytes (parmBoundary / 8))

/-- On to the next argument. -/
def Walk.advance (w : Walk) (arg : ArgType × Bool) : Walk :=
  { cum := functionArgAdvance w.cum arg.1 arg.2
    stackOffset :=
      match w.place arg with
      | .regs _ _ => w.stackOffset
      | .slot offset size => offset + size }

/-- The places of a list of arguments. -/
def Walk.places : Walk → List (ArgType × Bool) → List Place
  | _, [] => []
  | w, arg :: args => w.place arg :: (w.advance arg).places args

/-- The end of the walk. -/
def Walk.finish (w : Walk) (args : List (ArgType × Bool)) : Walk := args.foldl Walk.advance w

/-- A call of a function, with the types that its caller passes and its callee takes: the declared
parameters, and after them, if there is an ellipsis, any others. -/
structure Call where
  params : List ArgType
  stdarg : Bool
  tail : List ArgType
  tail_nil : stdarg = false → tail = []

def Call.args (c : Call) : List ArgType := c.params ++ c.tail

/-- `n_named_args` of `expand_call`. The port does not name arguments strictly, so the last declared
parameter before an ellipsis counts as one of the others. -/
def Call.nNamedArgs (c : Call) : Nat :=
  if c.stdarg then c.params.length - 1 else c.params.length

/-- The places that the caller uses. -/
def Call.callerPlaces (c : Call) : List Place :=
  Walk.init.places (c.args.mapIdx fun i t => (t, decide (i < c.nNamedArgs)))

/-- The parameters as `assign_parms` sees them. -/
def Call.parms (c : Call) : List (ArgType × Bool) :=
  c.params.mapIdx fun i t => (t, !c.stdarg || decide (i + 1 < c.params.length))

/-- `va_arg`, as often as there are types: what `ap` is aligned to, and how far it moves. -/
def vaArgs : Nat → List ArgType → List Place
  | _, [] => []
  | ap, t :: ts =>
    let boundary := functionArgBoundary t
    let ap := if parmBoundary < boundary ∧ t.bytes ≠ 0 then alignedUpperBound ap (boundary / 8) else ap
    let roundedSize := alignedUpperBound t.bytes (parmBoundary / 8)
    .slot ap roundedSize :: vaArgs (ap + roundedSize) ts

/-- The places that the callee looks at. `va_start` begins behind the parameters on the stack. -/
def Call.calleePlaces (c : Call) : List Place :=
  Walk.init.places c.parms ++ vaArgs (Walk.init.finish c.parms).stackOffset c.tail

/-! ### What is asked of a call -/

/-- The place holds a type whose alignment is taken to be `align`. -/
def Place.Holds (align : ArgType → Nat) (t : ArgType) : Place → Prop
  | .regs regno count =>
    regnoA0 ≤ regno ∧ regno + count ≤ regnoA3 + 1 ∧ t.bytes ≤ count * unitsPerWord
  | .slot offset size => t.bytes ≤ size ∧ align t ∣ 8 * offset

/-- Two places do not overlap, and what is of one kind is in order. -/
def Place.Before : Place → Place → Prop
  | .regs regno count, .regs regno' _ => regno + count ≤ regno'
  | .slot offset size, .slot offset' _ => offset + size ≤ offset'
  | _, _ => True

/-- Every argument has a place that holds it, no two overlap, and both sides mean the same. -/
structure Call.WellPassed (c : Call) (align : ArgType → Nat) : Prop where
  holds : List.Forall₂ (Place.Holds align) c.args c.callerPlaces
  before : c.callerPlaces.Pairwise Place.Before
  callee_eq : c.calleePlaces = c.callerPlaces

/-- The alignment of a type as far as the stack gives it. -/
def ArgType.stackAlign (t : ArgType) : Nat := min stackBoundary t.align

/-! ### One argument -/

theorem functionArgBoundary_eq (t : ArgType) : functionArgBoundary t = parmBoundary := by
  unfold functionArgBoundary stackBoundary parmBoundary
  omega

theorem numWords_eq (t : ArgType) : numWords t = (t.bytes + unitsPerWord - 1) / unitsPerWord := by
  have hlt := t.bytes_lt
  unfold numWords unitsPerWord
  omega

/-- All the words of a type. -/
theorem bytes_le_numWords (t : ArgType) : t.bytes ≤ numWords t * unitsPerWord := by
  rw [numWords_eq]
  unfold unitsPerWord
  omega

theorem alignedUpperBound_four (value : Nat) :
    value ≤ alignedUpperBound value 4 ∧ 4 ∣ alignedUpperBound value 4 := by
  unfold alignedUpperBound
  omega

theorem alignedUpperBound_of_dvd {value : Nat} (h : 4 ∣ value) :
    alignedUpperBound value 4 = value := by
  unfold alignedUpperBound
  omega

/-- What a walk keeps: no more registers are in use than there are, and the stack is filled in whole
words. -/
structure Walk.Ok (w : Walk) : Prop where
  numGprs_le : w.cum.numGprs ≤ maxArgsInRegisters
  stackOffset_dvd : 4 ∣ w.stackOffset

theorem Walk.ok_init : Walk.init.Ok := ⟨Nat.zero_le _, Nat.dvd_zero 4⟩

/-- The slot that the stack gives next. -/
def Walk.nextSlot (w : Walk) (t : ArgType) : Place :=
  .slot w.stackOffset (alignedUpperBound t.bytes 4)

/-- An argument goes into registers when it is named, has no more than two words, and they are
left. -/
def FitsRegisters (cum : CumulativeArgs) (t : ArgType) (named : Bool) : Prop :=
  named = true ∧ numWords t ≤ 2 ∧ cum.numGprs + numWords t ≤ maxArgsInRegisters

theorem getArgInfo_of_fits {cum : CumulativeArgs} {t : ArgType} {named : Bool}
    (h : FitsRegisters cum t named) :
    getArgInfo cum t named false =
      ({ stackP := false, numGprs := numWords t, gprOffset := cum.numGprs },
        .reg (regnoA0 + cum.numGprs)) := by
  obtain ⟨rfl, hwords, hleft⟩ := h
  unfold maxArgsInRegisters at hleft
  have htwo : ¬ 2 < numWords t := by omega
  have henough : ¬ (maxArgsInRegisters + 4294967296 - cum.numGprs) % 4294967296 < numWords t := by
    unfold maxArgsInRegisters
    omega
  simp [getArgInfo, htwo, henough]

theorem getArgInfo_of_not_fits {cum : CumulativeArgs} {t : ArgType} {named : Bool}
    (hle : cum.numGprs ≤ maxArgsInRegisters) (h : ¬ FitsRegisters cum t named) :
    getArgInfo cum t named false =
      ({ stackP := true, numGprs := 0, gprOffset := cum.numGprs }, .null) := by
  cases named with
  | false => simp [getArgInfo]
  | true =>
    by_cases htwo : 2 < numWords t
    · simp [getArgInfo, htwo]
    · have hover : (maxArgsInRegisters + 4294967296 - cum.numGprs) % 4294967296 < numWords t := by
        have hleft : ¬ cum.numGprs + numWords t ≤ maxArgsInRegisters :=
          fun hleft => h ⟨rfl, by omega, hleft⟩
        unfold maxArgsInRegisters at hle hleft ⊢
        omega
      simp [getArgInfo, htwo, hover]

/-- Either the argument goes into registers that are left, or to the top of the stack. -/
theorem Walk.place_cases {w : Walk} (hw : w.Ok) (t : ArgType) (named : Bool) :
    (FitsRegisters w.cum t named ∧
      w.place (t, named) = .regs (regnoA0 + w.cum.numGprs) (numWords t) ∧
      w.advance (t, named) =
        { cum := { numGprs := w.cum.numGprs + numWords t }, stackOffset := w.stackOffset }) ∨
    (¬ FitsRegisters w.cum t named ∧ w.place (t, named) = w.nextSlot t ∧
      w.advance (t, named) =
        { cum := w.cum, stackOffset := w.stackOffset + alignedUpperBound t.bytes 4 }) := by
  by_cases hfits : FitsRegisters w.cum t named
  · have hinfo := getArgInfo_of_fits hfits
    have hplace : w.place (t, named) = .regs (regnoA0 + w.cum.numGprs) (numWords t) := by
      simp only [place, functionArg, hinfo, numWords_eq]
    exact .inl ⟨hfits, hplace, by simp only [advance, hplace, functionArgAdvance, hinfo]⟩
  · have hinfo := getArgInfo_of_not_fits hw.numGprs_le hfits
    have hplace : w.place (t, named) = w.nextSlot t := by
      simp only [place, functionArg, hinfo, nextSlot, functionArgBoundary_eq, parmBoundary]
      rw [alignedUpperBound_of_dvd hw.stackOffset_dvd]
    refine .inr ⟨hfits, hplace, ?_⟩
    simp only [advance, hplace, functionArgAdvance, hinfo, nextSlot, Nat.add_zero]

theorem Walk.Ok.advance {w : Walk} (hw : w.Ok) (arg : ArgType × Bool) : (w.advance arg).Ok := by
  obtain ⟨t, named⟩ := arg
  obtain ⟨⟨-, -, hleft⟩, -, hadvance⟩ | ⟨-, -, hadvance⟩ := place_cases hw t named
  · rw [hadvance]
    exact ⟨hleft, hw.stackOffset_dvd⟩
  · rw [hadvance]
    exact ⟨hw.numGprs_le, Nat.dvd_add hw.stackOffset_dvd (alignedUpperBound_four t.bytes).2⟩

/-- A power of two of bits, cut at a word, divides any word's address. -/
theorem stackAlign_dvd (t : ArgType) {offset : Nat} (h : 4 ∣ offset) :
    t.stackAlign ∣ 8 * offset := by
  obtain ⟨k, hk⟩ := t.align_pow
  obtain ⟨n, rfl⟩ := h
  have hword : t.stackAlign ∣ 32 := by
    unfold ArgType.stackAlign stackBoundary
    rw [hk]
    match k with
    | 0 => decide
    | 1 => decide
    | k + 2 =>
      have hlarge : 32 ≤ 8 <<< (k + 2) := by
        rw [Nat.shiftLeft_eq, Nat.pow_add]
        have hpow := Nat.two_pow_pos k
        omega
      exact ⟨1, by omega⟩
  exact Nat.dvd_trans hword ⟨n, by omega⟩

theorem Walk.place_holds {w : Walk} (hw : w.Ok) (t : ArgType) (named : Bool) :
    (w.place (t, named)).Holds ArgType.stackAlign t := by
  obtain ⟨⟨-, -, hleft⟩, hplace, -⟩ | ⟨-, hplace, -⟩ := place_cases hw t named
  · rw [hplace]
    refine ⟨Nat.le_add_right _ _, ?_, bytes_le_numWords t⟩
    unfold maxArgsInRegisters at hleft
    unfold regnoA0 regnoA3
    omega
  · rw [hplace]
    exact ⟨(alignedUpperBound_four t.bytes).1, stackAlign_dvd t hw.stackOffset_dvd⟩

/-! ### All arguments -/

theorem Walk.places_hold {w : Walk} (hw : w.Ok) (args : List (ArgType × Bool)) :
    List.Forall₂ (fun arg => Place.Holds ArgType.stackAlign arg.1) args (w.places args) := by
  induction args generalizing w with
  | nil => exact .nil
  | cons arg args ih => exact .cons (place_holds hw arg.1 arg.2) (ih (hw.advance arg))

/-- The place is not yet used up by a walk. -/
def Walk.Ahead (w : Walk) : Place → Prop
  | .regs regno _ => regnoA0 + w.cum.numGprs ≤ regno
  | .slot offset _ => w.stackOffset ≤ offset

theorem Walk.Ahead.of_advance {w : Walk} (hw : w.Ok) {arg : ArgType × Bool} {p : Place}
    (h : (w.advance arg).Ahead p) : w.Ahead p ∧ (w.place arg).Before p := by
  obtain ⟨t, named⟩ := arg
  obtain ⟨-, hplace, hadvance⟩ | ⟨-, hplace, hadvance⟩ := place_cases hw t named <;>
    rw [hplace] <;> rw [hadvance] at h <;> cases p with
    | regs regno count => simp only [Ahead, Place.Before, nextSlot, and_true] at h ⊢; omega
    | slot offset size => simp only [Ahead, Place.Before, nextSlot, and_true] at h ⊢; omega

theorem Walk.places_ahead {w : Walk} (hw : w.Ok) (args : List (ArgType × Bool)) :
    ∀ p ∈ w.places args, w.Ahead p := by
  induction args generalizing w with
  | nil => exact fun p hp => absurd hp List.not_mem_nil
  | cons arg args ih =>
    intro p hp
    rcases List.mem_cons.1 hp with rfl | hp
    · obtain ⟨t, named⟩ := arg
      obtain ⟨-, hplace, -⟩ | ⟨-, hplace, -⟩ := place_cases hw t named
      · rw [hplace]
        exact Nat.le_refl (regnoA0 + w.cum.numGprs)
      · rw [hplace]
        exact Nat.le_refl w.stackOffset
    · exact (Ahead.of_advance hw (ih (hw.advance arg) p hp)).1

theorem Walk.places_pairwise {w : Walk} (hw : w.Ok) (args : List (ArgType × Bool)) :
    (w.places args).Pairwise Place.Before := by
  induction args generalizing w with
  | nil => exact .nil
  | cons arg args ih =>
    refine List.pairwise_cons.2 ⟨fun p hp => ?_, ih (hw.advance arg)⟩
    exact (Ahead.of_advance hw (places_ahead (hw.advance arg) args p hp)).2

theorem Walk.places_append (w : Walk) (args args' : List (ArgType × Bool)) :
    w.places (args ++ args') = w.places args ++ (w.finish args).places args' := by
  induction args generalizing w with
  | nil => rfl
  | cons arg args ih => exact congrArg (w.place arg :: ·) (ih (w.advance arg))

theorem Walk.Ok.finish {w : Walk} (hw : w.Ok) (args : List (ArgType × Bool)) : (w.finish args).Ok := by
  induction args generalizing w with
  | nil => exact hw
  | cons arg args ih => exact ih (hw.advance arg)

/-- Arguments without a name are where `va_arg` looks for them. -/
theorem Walk.places_unnamed {w : Walk} (hw : w.Ok) (ts : List ArgType) :
    w.places (ts.map fun t => (t, false)) = vaArgs w.stackOffset ts := by
  induction ts generalizing w with
  | nil => rfl
  | cons t ts ih =>
    obtain ⟨⟨hnamed, -⟩, -⟩ | ⟨-, hplace, hadvance⟩ := place_cases hw t false
    · cases hnamed
    · have hrest := ih (hw.advance (t, false))
      rw [hadvance] at hrest
      have hboundary : ¬ (parmBoundary < parmBoundary ∧ t.bytes ≠ 0) := fun h =>
        Nat.lt_irrefl _ h.1
      simp only [List.map_cons, places, vaArgs, functionArgBoundary_eq, if_neg hboundary]
      rw [hplace, hadvance, hrest]
      rfl

/-- The caller names the declared parameters as the callee does, and nothing else. -/
theorem Call.callerArgs_eq (c : Call) :
    c.args.mapIdx (fun i t => (t, decide (i < c.nNamedArgs))) =
      c.parms ++ c.tail.map fun t => (t, false) := by
  unfold args parms nNamedArgs
  rw [List.mapIdx_append]
  cases hstdarg : c.stdarg with
  | false =>
    rw [c.tail_nil hstdarg]
    simp only [List.mapIdx_nil, List.map_nil, List.append_nil]
    refine List.mapIdx_eq_mapIdx_iff.2 fun i hi => ?_
    simp [hi]
  | true =>
    congr 1
    · refine List.mapIdx_eq_mapIdx_iff.2 fun i hi => ?_
      have hlast : i < c.params.length - 1 ↔ i + 1 < c.params.length := by omega
      simp [hlast]
    · -- no index of the tail is small enough to be named
      refine List.mapIdx_eq_iff.2 fun i => ?_
      have hbehind : ¬ i + c.params.length < c.params.length - 1 := by omega
      simp [hbehind]

theorem Call.callerPlaces_eq (c : Call) :
    c.callerPlaces = Walk.init.places c.parms ++
      (Walk.init.finish c.parms).places (c.tail.map fun t => (t, false)) := by
  rw [callerPlaces, c.callerArgs_eq, Walk.places_append]

/-- Every call is passed well, with alignments up to `STACK_BOUNDARY`. -/
theorem call_wellPassed (c : Call) : c.WellPassed ArgType.stackAlign where
  holds := by
    have hheld := List.forall₂_map_left_iff.2 (Walk.places_hold Walk.ok_init
      (c.args.mapIdx fun i t => (t, decide (i < c.nNamedArgs))))
    have htypes : (c.args.mapIdx fun i t => (t, decide (i < c.nNamedArgs))).map Prod.fst =
        c.args := by
      refine List.ext_getElem? fun i => ?_
      simp [Function.comp_def]
    rw [htypes] at hheld
    exact hheld
  before := Walk.places_pairwise Walk.ok_init _
  callee_eq := by
    rw [c.callerPlaces_eq, Walk.places_unnamed (Walk.ok_init.finish c.parms)]
    rfl

/-! ### A type that asks for more -/

/-- `struct { int a[3]; }`. -/
def threeWords : ArgType where
  bytes := 12
  align := 32
  scalarAlign := none
  bytes_lt := by decide
  align_pow := ⟨2, rfl⟩

/-- `struct { int a[4]; } __attribute__ ((aligned (16)))`. -/
def alignedFourWords : ArgType where
  bytes := 16
  align := 128
  scalarAlign := none
  bytes_lt := by decide
  align_pow := ⟨4, rfl⟩

def overAlignedCall : Call where
  params := [threeWords, alignedFourWords]
  stdarg := false
  tail := []
  tail_nil := fun _ => rfl

/-- The second argument is 12 bytes above the first. -/
theorem overAlignedCall_not_wellPassed : ¬ overAlignedCall.WellPassed ArgType.align := by
  intro h
  have hholds := h.holds
  rw [show overAlignedCall.callerPlaces = [.slot 0 12, .slot 12 16] by decide] at hholds
  obtain ⟨-, hdvd⟩ := (List.forall₂_cons.1 (List.forall₂_cons.1 hholds).2).1
  exact absurd hdvd (by decide)

/-! ### Return values -/

/-- A value of more than the four registers' words is returned in memory. -/
theorem returnInMemory_iff (t : ArgType) :
    returnInMemory t = true ↔ maxArgsInRegisters * unitsPerWord < t.bytes := by
  have hover : maxArgsInRegisters * unitsPerWord < t.bytes ↔ 4 < numWords t := by
    rw [numWords_eq]
    unfold maxArgsInRegisters unitsPerWord
    omega
  rw [hover]
  by_cases hmany : 4 < numWords t
  · simp [returnInMemory, getArgInfo, maxArgsInRegisters, hmany]
  · simp [returnInMemory, getArgInfo, maxArgsInRegisters, hmany]

/-- Another one is in distinct registers among A0 to A3, from A3 down. -/
theorem functionValue_of_returned {t : ArgType} (h : returnInMemory t = false) :
    (numWords t ≤ 1 ∧ functionValue t = .reg regnoA3) ∨
      numWords t ≤ maxArgsInRegisters ∧ functionValue t =
        .parallel ((List.range (numWords t)).map fun i => (regnoA3 - i, i * unitsPerWord)) := by
  have hfew : numWords t ≤ 4 := by
    have hnot : ¬ maxArgsInRegisters * unitsPerWord < t.bytes := by
      rw [← returnInMemory_iff, h]
      exact Bool.false_ne_true
    rw [numWords_eq]
    unfold maxArgsInRegisters unitsPerWord at *
    omega
  have hfits : ¬ 4 < numWords t := by omega
  by_cases hone : numWords t ≤ 1
  · exact .inl ⟨hone, by simp [functionValue, getArgInfo, maxArgsInRegisters, hfits, hone]⟩
  · exact .inr ⟨hfew, by simp [functionValue, getArgInfo, maxArgsInRegisters, hfits, hone]⟩

end XrLinux.Gcc
