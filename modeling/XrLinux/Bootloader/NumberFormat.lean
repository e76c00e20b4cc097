import XrLinux.Lib.Numeral
import XrLinux.Bootloader.Logging

/-!
# Bootloader — printed numbers

The text of a number grows backwards in a buffer of `biMaxDigits` characters. `Digits.text` is what
is in it, and each loop of `logging.c` has one lemma that says what it puts before that text. No
loop leaves the buffer, for any value and any count of digits (`Number.print_eq`).

The padding of a negative number leaves room for the sign, but also subtracts that room from the
digits it counts, though the sign is not among them yet. So a negative number gets one digit more
than it should, unless it is long enough without padding, or the buffer ends first.
-/

namespace XrLinux.Bootloader

open Numeral

/-- What the buffer holds from `index` on. -/
def Digits.text (d : Digits) : List (BitVec 8) :=
  (List.range' d.index (biMaxDigits - d.index)).map d.buffer

theorem Digits.push_text {d : Digits} (c : BitVec 8) (hpos : 0 < d.index)
    (hle : d.index ≤ biMaxDigits) :
    ∃ d', d.push c = some d' ∧ d'.index + 1 = d.index ∧ d'.text = c :: d.text := by
  have hle' : d.index ≤ 32 := hle
  have hsub : sub32 d.index 1 = d.index - 1 := by
    unfold sub32
    omega
  have hlt : sub32 d.index 1 < biMaxDigits := by
    rw [hsub]
    show d.index - 1 < 32
    omega
  refine ⟨{ buffer := Function.update d.buffer (d.index - 1) c, index := d.index - 1 }, ?_, ?_, ?_⟩
  · unfold Digits.push
    rw [if_pos hlt, hsub]
  · show d.index - 1 + 1 = d.index
    omega
  · have hcount : biMaxDigits - (d.index - 1) = (biMaxDigits - d.index) + 1 := by
      show 32 - (d.index - 1) = 32 - d.index + 1
      omega
    have hnext : d.index - 1 + 1 = d.index := by omega
    show (List.range' (d.index - 1) (biMaxDigits - (d.index - 1))).map _ = _
    rw [hcount, List.range'_succ, List.map_cons, hnext]
    show Function.update d.buffer (d.index - 1) c (d.index - 1) :: _ = _
    rw [Function.update_self]
    -- the characters behind the new one stay
    refine congrArg (c :: ·) (List.map_congr_left ?_)
    intro i hi
    have hge := (List.mem_range'_1.1 hi).1
    exact Function.update_of_ne (by omega) _ _

section
variable {σ : Type} (fn : BitVec 8 → σ → σ)

theorem flush_text {fuel : Nat} {d : Digits} (ctx : σ) (hle : d.index ≤ biMaxDigits)
    (hfuel : biMaxDigits - d.index < fuel) :
    flush fn fuel d ctx = some (biPrintString fn d.text ctx) := by
  induction fuel generalizing d ctx with
  | zero => omega
  | succ fuel ih =>
    unfold flush
    split
    · next hlt =>
      have hcount : biMaxDigits - d.index = (biMaxDigits - (d.index + 1)) + 1 := by omega
      have htext : d.text = d.buffer d.index :: { d with index := d.index + 1 : Digits }.text := by
        show (List.range' d.index (biMaxDigits - d.index)).map d.buffer = _
        rw [hcount, List.range'_succ, List.map_cons]
        rfl
      have hfuel' : biMaxDigits - (d.index + 1) < fuel := by omega
      rw [htext]
      exact ih (d := { d with index := d.index + 1 }) (fn (d.buffer d.index) ctx) hlt hfuel'
    · next hge =>
      have hend : d.text = [] := by
        show (List.range' d.index (biMaxDigits - d.index)).map d.buffer = []
        rw [Nat.sub_eq_zero_of_le (Nat.le_of_not_lt hge)]
        rfl
      rw [hend]
      rfl

end

/-- The digits of a value that fits, before what is there. -/
theorem digitLoop_text {base : Nat} (hbase : 1 < base) {digit : Nat → BitVec 8} {rest : Nat → Nat}
    (hdigit : ∀ v, digit v = digitChar (v % base)) (hrest : ∀ v, rest v = v / base) {fuel value : Nat}
    {d : Digits} (hle : d.index ≤ biMaxDigits) (hroom : (digits base value).length ≤ d.index)
    (hfuel : (digits base value).length ≤ fuel) :
    ∃ d', digitLoop digit rest fuel value d = some d' ∧
      d'.index + (digits base value).length = d.index ∧ d'.text = numeral base value ++ d.text := by
  induction fuel generalizing value d with
  | zero =>
    have hpos := digits_length_pos hbase value
    omega
  | succ fuel ih =>
    have hpos := digits_length_pos hbase value
    obtain ⟨d', hpush, hindex, htext⟩ := Digits.push_text (digit value) (by omega) hle
    have hstep := digits_step hbase value
    unfold digitLoop
    simp only [hpush, Option.bind_eq_bind, Option.bind_some, hrest]
    split
    · next hmore =>
      rw [if_neg hmore] at hstep
      have hlen : (digits base value).length = (digits base (value / base)).length + 1 := by
        rw [hstep, List.length_append, List.length_singleton]
      obtain ⟨d'', hloop, hindex', htext'⟩ :=
        @ih (value / base) d' (by omega) (by omega) (by omega)
      refine ⟨d'', hloop, by omega, ?_⟩
      rw [htext', htext, hdigit, numeral, numeral, hstep, List.map_append, List.append_assoc]
      rfl
    · next hlast =>
      rw [if_pos (Decidable.not_not.1 hlast), List.nil_append] at hstep
      refine ⟨d', rfl, ?_, ?_⟩
      · rw [hstep]
        exact hindex
      · rw [htext, hdigit, numeral, hstep]
        rfl

/-- How many zeros stand before `count` digits. -/
def zeros (minIndex minDigits count : Nat) : Nat :=
  min (biMaxDigits - count - minIndex) (minDigits - (count - minIndex))

theorem padLoop_text {minIndex minDigits fuel : Nat} {d : Digits} (hmin : minIndex ≤ 1)
    (hlt : d.index < biMaxDigits) (hfuel : d.index < fuel) :
    ∃ d', padLoop minIndex minDigits fuel d = some d' ∧
      d'.index + zeros minIndex minDigits (biMaxDigits - d.index) = d.index ∧
      d'.text = List.replicate (zeros minIndex minDigits (biMaxDigits - d.index)) 0x30 ++ d.text := by
  induction fuel generalizing d with
  | zero => omega
  | succ fuel ih =>
    have hlt' : d.index < 32 := hlt
    have hcount : sub32 (sub32 biMaxDigits d.index) minIndex = 32 - d.index - minIndex := by
      show sub32 (sub32 32 d.index) minIndex = _
      unfold sub32
      omega
    unfold padLoop
    rw [hcount]
    split
    · next hpad =>
      obtain ⟨d', hpush, hindex, htext⟩ := Digits.push_text 0x30 (by omega) (Nat.le_of_lt hlt)
      obtain ⟨d'', hloop, hindex', htext'⟩ := ih (d := d') (by omega) (by omega)
      have hzeros : zeros minIndex minDigits (biMaxDigits - d.index) =
          zeros minIndex minDigits (biMaxDigits - d'.index) + 1 := by
        show min (32 - (32 - d.index) - minIndex) (minDigits - (32 - d.index - minIndex)) =
          min (32 - (32 - d'.index) - minIndex) (minDigits - (32 - d'.index - minIndex)) + 1
        omega
      refine ⟨d'', ?_, by omega, ?_⟩
      · simp only [hpush, Option.bind_eq_bind, Option.bind_some]
        exact hloop
      · rw [htext', htext, hzeros, List.replicate_succ', List.append_assoc]
        rfl
    · next hdone =>
      have hzeros : zeros minIndex minDigits (biMaxDigits - d.index) = 0 := by
        show min (32 - (32 - d.index) - minIndex) (minDigits - (32 - d.index - minIndex)) = 0
        omega
      rw [hzeros]
      exact ⟨d, rfl, rfl, rfl⟩

theorem decimalDigit_eq (v : Nat) : decimalDigit v = digitChar (v % 10) := by
  unfold decimalDigit digitChar
  rw [if_pos (Nat.mod_lt v (by omega))]

theorem hexDigit_eq (v : Nat) : hexDigit v = digitChar (v % 16) := by
  have hall : ∀ d < 16, ([0x30, 0x31, 0x32, 0x33, 0x34, 0x35, 0x36, 0x37, 0x38, 0x39, 0x61, 0x62,
      0x63, 0x64, 0x65, 0x66] : List (BitVec 8)).getD d 0 = digitChar d := by decide
  have hand : v &&& 0xf = v % 16 := Nat.and_two_pow_sub_one_eq_mod v 4
  unfold hexDigit
  rw [hand]
  exact hall _ (Nat.mod_lt v (by omega))

/-- What is printed for a value whose digits fit, behind a sign or without one. -/
theorem printed_text {base : Nat} (hbase : 1 < base) {digit : Nat → BitVec 8} {rest : Nat → Nat}
    (hdigit : ∀ v, digit v = digitChar (v % base)) (hrest : ∀ v, rest v = v / base)
    {minIndex minDigits value : Nat} (hmin : minIndex ≤ 1) (stack : Nat → BitVec 8)
    (hshort : (digits base value).length < biMaxDigits) :
    ∃ d d', digitLoop digit rest digitRounds value { buffer := stack, index := biMaxDigits } = some d ∧
      padLoop minIndex minDigits digitRounds d = some d' ∧
      d'.index + zeros minIndex minDigits (digits base value).length +
        (digits base value).length = biMaxDigits ∧
      d'.text = List.replicate (zeros minIndex minDigits (digits base value).length) 0x30 ++
        numeral base value := by
  have hpos := digits_length_pos hbase value
  obtain ⟨d, hdigits, hindex, htext⟩ :=
    @digitLoop_text base hbase digit rest hdigit hrest digitRounds value
      { buffer := stack, index := biMaxDigits } (Nat.le_refl _) (Nat.le_of_lt hshort)
      (Nat.le_of_lt (Nat.lt_succ_of_lt hshort))
  have hindex' : d.index + (digits base value).length = 32 := hindex
  have hcount : biMaxDigits - d.index = (digits base value).length := by
    show 32 - d.index = _
    omega
  have hlt : d.index < biMaxDigits := by
    show d.index < 32
    omega
  obtain ⟨d', hpad, hindexPad, htextPad⟩ :=
    @padLoop_text minIndex minDigits digitRounds d hmin hlt (Nat.lt_succ_of_lt hlt)
  rw [hcount] at hindexPad htextPad
  refine ⟨d, d', hdigits, hpad, by omega, ?_⟩
  rw [htextPad, htext]
  exact congrArg (_ ++ ·) (List.append_nil _)

/-! ## The three functions -/

section
variable {σ : Type} (fn : BitVec 8 → σ → σ) (stack : Nat → BitVec 8)

theorem decimal_length_le {value : Nat} (hvalue : value < 4294967296) :
    (digits 10 value).length ≤ 10 :=
  digits_length_le (by decide) (by decide) (Nat.lt_trans hvalue (by decide))

theorem biPrintUnsignedDecimal_eq {value : Nat} (minDigits : Nat) {prefixChar : BitVec 8} (ctx : σ)
    (hvalue : value < 4294967296) :
    biPrintUnsignedDecimal fn stack value minDigits prefixChar ctx =
      some (biPrintString fn ((if prefixChar ≠ 0 then [prefixChar] else []) ++
        (List.replicate (zeros (if prefixChar ≠ 0 then 1 else 0) minDigits (digits 10 value).length)
          0x30 ++ numeral 10 value)) ctx) := by
  have hlen := decimal_length_le hvalue
  have hmin : (if prefixChar ≠ 0 then 1 else 0) ≤ 1 := by split <;> omega
  obtain ⟨d, d', hdigits, hpad, hindex, htext⟩ :=
    @printed_text 10 (by decide) _ (· / 10) decimalDigit_eq (fun _ => rfl) _ minDigits _ hmin stack
      (Nat.lt_of_le_of_lt hlen (by decide))
  have hindex' : d'.index + zeros (if prefixChar ≠ 0 then 1 else 0) minDigits (digits 10 value).length +
      (digits 10 value).length = 32 := hindex
  have hle : d'.index ≤ biMaxDigits := by
    show d'.index ≤ 32
    omega
  have hrounds : ∀ d : Digits, biMaxDigits - d.index < digitRounds := fun d =>
    Nat.lt_succ_of_le (Nat.sub_le _ _)
  unfold biPrintUnsignedDecimal
  simp only [hdigits, hpad, Option.bind_eq_bind, Option.bind_some]
  by_cases hsign : prefixChar ≠ 0
  · -- the padding has left the first place to the sign
    have hroom : 0 < d'.index := by
      rw [if_pos hsign] at hindex'
      have hzeros : zeros 1 minDigits (digits 10 value).length ≤ 32 - (digits 10 value).length - 1 :=
        Nat.min_le_left _ _
      omega
    obtain ⟨d'', hpush, hindexSign, htextSign⟩ := Digits.push_text prefixChar hroom hle
    rw [if_pos hsign, if_pos hsign, hpush]
    show flush fn digitRounds d'' ctx = _
    rw [flush_text fn ctx (by omega) (hrounds d''), htextSign, htext, if_pos hsign]
    rfl
  · rw [if_neg hsign, if_neg hsign]
    show flush fn digitRounds d' ctx = _
    rw [flush_text fn ctx hle (hrounds d'), htext, if_neg hsign]
    rfl

theorem biPrintHexadecimal_eq {value : Nat} (minDigits : Nat) (ctx : σ)
    (hvalue : value < 18446744073709551616) :
    biPrintHexadecimal fn stack value minDigits ctx =
      some (biPrintString fn (List.replicate (zeros 0 minDigits (digits 16 value).length) 0x30 ++
        numeral 16 value) ctx) := by
  have hlen : (digits 16 value).length ≤ 16 :=
    digits_length_le (by decide) (by decide) (Nat.lt_of_lt_of_le hvalue (by decide))
  obtain ⟨d, d', hdigits, hpad, hindex, htext⟩ :=
    @printed_text 16 (by decide) _ (· >>> 4) hexDigit_eq (fun v => Nat.shiftRight_eq_div_pow v 4) 0
      minDigits _ (Nat.zero_le 1) stack (Nat.lt_of_le_of_lt hlen (by decide))
  have hindex' : d'.index + zeros 0 minDigits (digits 16 value).length +
      (digits 16 value).length = 32 := hindex
  have hle : d'.index ≤ biMaxDigits := by
    show d'.index ≤ 32
    omega
  have hrounds : biMaxDigits - d'.index < digitRounds := Nat.lt_succ_of_le (Nat.sub_le _ _)
  unfold biPrintHexadecimal
  simp only [hdigits, hpad, Option.bind_eq_bind, Option.bind_some]
  rw [flush_text fn ctx hle hrounds, htext]

end

/-! ## Numbers -/

/-- What a specifier can print as a number: the values of `%u`, `%d` and `%x`. -/
inductive Number where
  | unsigned (value : BitVec 32)
  | signed (value : BitVec 32)
  | hexadecimal (value : BitVec 64)

namespace Number

def base : Number → Nat
  | unsigned _ | signed _ => 10
  | hexadecimal _ => 16

def value : Number → Int
  | unsigned value => value.toNat
  | signed value => value.toInt
  | hexadecimal value => value.toNat

/-- The function of `logging.c` that prints it. -/
def print {σ : Type} (fn : BitVec 8 → σ → σ) (stack : Nat → BitVec 8) (minDigits : Nat) (ctx : σ) :
    Number → Option σ
  | unsigned value => biPrintUnsignedDecimal fn stack value.toNat minDigits 0 ctx
  | signed value => biPrintSignedDecimal fn stack value.toNat minDigits ctx
  | hexadecimal value => biPrintHexadecimal fn stack value.toNat minDigits ctx

/-- The number's own digits. -/
def ownDigits (n : Number) : Nat := (digits n.base n.value.natAbs).length

/-- The digits for which there is room in the buffer. -/
def room (n : Number) : Nat := if n.value < 0 then biMaxDigits - 1 else biMaxDigits

/-- A text shows the number with at least so many digits. -/
structure Shows (n : Number) (minDigits : Nat) (text : List (BitVec 8)) : Prop where
  parses : readSigned n.base text = some n.value
  minus : 0x2d ∈ text ↔ n.value < 0
  count : (text.filter (· ≠ 0x2d)).length = max n.ownDigits (min minDigits n.room)

/-- What is printed is such a text, and the buffer is not left. -/
def Formats (n : Number) (minDigits : Nat) : Prop :=
  ∃ text, (∀ {σ : Type} (fn : BitVec 8 → σ → σ) (stack : Nat → BitVec 8) (ctx : σ),
      n.print fn stack minDigits ctx = some (biPrintString fn text ctx)) ∧
    n.Shows minDigits text

/-- The text that is printed. -/
def text (n : Number) (minDigits : Nat) : List (BitVec 8) :=
  (if n.value < 0 then [0x2d] else []) ++
    (List.replicate (zeros (if n.value < 0 then 1 else 0) minDigits n.ownDigits) 0x30 ++
      numeral n.base n.value.natAbs)

theorem print_eq {σ : Type} (fn : BitVec 8 → σ → σ) (stack : Nat → BitVec 8) (minDigits : Nat)
    (ctx : σ) (n : Number) :
    n.print fn stack minDigits ctx = some (biPrintString fn (n.text minDigits) ctx) := by
  cases n with
  | unsigned v =>
    have hvalue : ¬ ((v.toNat : Int) < 0) := by omega
    unfold text ownDigits
    show biPrintUnsignedDecimal fn stack v.toNat minDigits 0 ctx = _
    rw [biPrintUnsignedDecimal_eq fn stack minDigits ctx v.isLt, if_neg (fun h => h rfl),
      if_neg (fun h => h rfl), value, base, if_neg hvalue, if_neg hvalue]
    rfl
  | signed v =>
    have hlt := v.isLt
    have hint := BitVec.toInt_eq_toNat_cond v
    unfold text ownDigits
    show biPrintSignedDecimal fn stack v.toNat minDigits ctx = some (biPrintString fn (_ ++
      (List.replicate (zeros _ minDigits (digits 10 v.toInt.natAbs).length) 0x30 ++
        numeral 10 v.toInt.natAbs)) ctx)
    unfold biPrintSignedDecimal
    by_cases hsmall : v.toNat < 2147483648
    · have hvalue : ¬ (signed v).value < 0 := by
        show ¬ v.toInt < 0
        omega
      have habs : v.toInt.natAbs = v.toNat := by omega
      rw [if_pos hsmall, biPrintUnsignedDecimal_eq fn stack minDigits ctx hlt,
        if_neg (fun h => h rfl), if_neg (fun h => h rfl), if_neg hvalue, if_neg hvalue, habs]
    · have hvalue : (signed v).value < 0 := by
        show v.toInt < 0
        omega
      have habs : sub32 0 v.toNat = v.toInt.natAbs := by
        unfold sub32
        omega
      have hneg : v.toInt.natAbs < 4294967296 := by omega
      rw [if_neg hsmall, habs, biPrintUnsignedDecimal_eq fn stack minDigits ctx hneg,
        if_pos (by decide), if_pos (by decide), if_pos hvalue, if_pos hvalue]
  | hexadecimal v =>
    have hvalue : ¬ ((v.toNat : Int) < 0) := by omega
    unfold text ownDigits
    show biPrintHexadecimal fn stack v.toNat minDigits ctx = _
    rw [biPrintHexadecimal_eq fn stack minDigits ctx v.isLt, value, base, if_neg hvalue,
      if_neg hvalue]
    rfl

/-- Nothing else is printed. -/
theorem text_unique {n : Number} {minDigits : Nat} {text' : List (BitVec 8)}
    (h : ∀ {σ : Type} (fn : BitVec 8 → σ → σ) (stack : Nat → BitVec 8) (ctx : σ),
      n.print fn stack minDigits ctx = some (biPrintString fn text' ctx)) :
    text' = n.text minDigits := by
  have hcollect : ∀ xs ys : List (BitVec 8),
      biPrintString (fun c seen => seen ++ [c]) xs ys = ys ++ xs := by
    intro xs
    induction xs with
    | nil => exact fun ys => (List.append_nil ys).symm
    | cons x xs ih =>
      intro ys
      show biPrintString _ xs (ys ++ [x]) = _
      rw [ih, List.append_assoc]
      rfl
  have hboth := (h (fun c seen => seen ++ [c]) (fun _ => 0) []).symm.trans (print_eq _ _ _ _ n)
  rw [hcollect, hcollect] at hboth
  exact Option.some.inj hboth

theorem base_bounds (n : Number) : 1 < n.base ∧ n.base ≤ 16 := by
  cases n with
  | unsigned _ | signed _ => exact ⟨(by decide : 1 < 10), (by decide : 10 ≤ 16)⟩
  | hexadecimal _ => exact ⟨(by decide : 1 < 16), (by decide : 16 ≤ 16)⟩

theorem text_parses (n : Number) (minDigits : Nat) :
    readSigned n.base (n.text minDigits) = some n.value := by
  obtain ⟨hlow, hhigh⟩ := n.base_bounds
  have hread := readDigits_numeral hlow hhigh
  unfold text
  split
  · next hneg =>
    have habs : -(n.value.natAbs : Int) = n.value := by omega
    show (readDigits n.base (List.replicate _ 0x30 ++ numeral n.base n.value.natAbs)).map _ = _
    rw [hread, Option.map_some, habs]
  · next hpos =>
    have hminus := minus_notMem hlow hhigh (zeros 0 minDigits n.ownDigits) n.value.natAbs
    have hread' := hread (zeros 0 minDigits n.ownDigits) n.value.natAbs
    rw [List.nil_append]
    generalize hall : List.replicate (zeros 0 minDigits n.ownDigits) 0x30 ++
      numeral n.base n.value.natAbs = all at hminus hread' ⊢
    cases all with
    | nil => cases hread'
    | cons c all =>
      have hc : c ≠ 0x2d := fun heq => hminus (heq ▸ List.mem_cons_self)
      have habs : (n.value.natAbs : Int) = n.value := by omega
      show (if c = 0x2d then _ else (readDigits n.base (c :: all)).map fun n : Nat => (n : Int)) = _
      rw [if_neg hc, hread', Option.map_some, habs]

theorem text_minus (n : Number) (minDigits : Nat) :
    0x2d ∈ n.text minDigits ↔ n.value < 0 := by
  obtain ⟨hlow, hhigh⟩ := n.base_bounds
  unfold text
  split
  · next hneg => exact iff_of_true (List.mem_append_left _ List.mem_cons_self) hneg
  · next hpos => exact iff_of_false (minus_notMem hlow hhigh _ _) hpos

/-- The digits that are printed. -/
theorem text_count (n : Number) (minDigits : Nat) :
    ((n.text minDigits).filter (· ≠ 0x2d)).length =
      zeros (if n.value < 0 then 1 else 0) minDigits n.ownDigits + n.ownDigits := by
  obtain ⟨hlow, hhigh⟩ := n.base_bounds
  have hkeep := minus_notMem hlow hhigh
    (zeros (if n.value < 0 then 1 else 0) minDigits n.ownDigits) n.value.natAbs
  have hall : (List.replicate (zeros (if n.value < 0 then 1 else 0) minDigits n.ownDigits) 0x30 ++
      numeral n.base n.value.natAbs).filter (· ≠ 0x2d) = _ :=
    List.filter_eq_self.2 fun c hc => decide_eq_true fun heq => hkeep (heq ▸ hc)
  have hsign : (if n.value < 0 then [0x2d] else [] : List (BitVec 8)).filter (· ≠ 0x2d) = [] := by
    split <;> rfl
  unfold text
  rw [List.filter_append, hsign, hall, List.nil_append, List.length_append, List.length_replicate,
    numeral_length]
  rfl

theorem ownDigits_bounds (n : Number) :
    0 < n.ownDigits ∧ n.ownDigits ≤ 20 ∧ (n.value < 0 → n.ownDigits ≤ 10) := by
  have hpos := digits_length_pos n.base_bounds.1 n.value.natAbs
  cases n with
  | unsigned v =>
    have hlen := decimal_length_le v.isLt
    exact ⟨hpos, Nat.le_trans hlen (by decide), fun _ => hlen⟩
  | signed v =>
    have hlt := v.isLt
    have hint := BitVec.toInt_eq_toNat_cond v
    have hlen : (digits 10 v.toInt.natAbs).length ≤ 10 := decimal_length_le (by omega)
    exact ⟨hpos, Nat.le_trans hlen (by decide), fun _ => hlen⟩
  | hexadecimal v =>
    have hlen : (digits 16 v.toNat).length ≤ 16 :=
      digits_length_le (by decide) (by decide) (Nat.lt_of_lt_of_le v.isLt (by decide))
    have hvalue : ¬ ((v.toNat : Int) < 0) := by omega
    exact ⟨hpos, Nat.le_trans hlen (by decide), fun hneg => absurd hneg hvalue⟩

/-- The count is right unless a sign stands where the padding counts a digit. -/
theorem text_count_iff (n : Number) (minDigits : Nat) :
    ((n.text minDigits).filter (· ≠ 0x2d)).length = max n.ownDigits (min minDigits n.room) ↔
      ¬ (n.value < 0 ∧ n.ownDigits ≤ minDigits ∧ minDigits < biMaxDigits - 1) := by
  obtain ⟨hpos, hlen, hsmall⟩ := n.ownDigits_bounds
  rw [text_count]
  unfold room
  show min (32 - n.ownDigits - _) (minDigits - (n.ownDigits - _)) + n.ownDigits =
    max n.ownDigits (min minDigits (if n.value < 0 then 31 else 32)) ↔
      ¬ (n.value < 0 ∧ n.ownDigits ≤ minDigits ∧ minDigits < 31)
  by_cases hneg : n.value < 0
  · have hten := hsmall hneg
    rw [if_pos hneg, if_pos hneg]
    omega
  · rw [if_neg hneg, if_neg hneg]
    omega

/-- A number is printed right, unless it is negative and padded in part of the buffer. -/
theorem formats_iff (n : Number) (minDigits : BitVec 32) :
    n.Formats minDigits.toNat ↔
      ¬ (n.value < 0 ∧ n.ownDigits ≤ minDigits.toNat ∧ minDigits.toNat < biMaxDigits - 1) := by
  rw [← text_count_iff]
  constructor
  · rintro ⟨shown, hprint, hshows⟩
    have hcount := hshows.count
    rw [text_unique hprint] at hcount
    exact hcount
  · intro hcount
    refine ⟨n.text minDigits.toNat, fun fn stack ctx => print_eq fn stack _ ctx n, ?_⟩
    exact ⟨text_parses n _, text_minus n _, hcount⟩

/-- `%3d` of -5 is `-0005`. -/
theorem minus_five_padded : ¬ (signed (-5)).Formats 3 := by
  rintro ⟨shown, hprint, hshows⟩
  have hcount := hshows.count
  rw [text_unique hprint, text_count] at hcount
  have hown : (signed (-5)).ownDigits = 1 := by
    show (digits 10 5).length = 1
    simp [digits]
  have hneg : (signed (-5)).value < 0 := by decide
  unfold room zeros at hcount
  rw [hown, if_pos hneg, if_pos hneg] at hcount
  exact absurd hcount (by decide)

end Number

end XrLinux.Bootloader
