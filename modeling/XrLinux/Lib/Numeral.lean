import Mathlib.Data.Nat.Digits.Lemmas
import Mathlib.Data.BitVec
import Mathlib.Tactic.Common

/-!
# Numerals

Numbers as text: the digits of a number, the first one first, their characters, and a reader for
texts with or without a sign. Reading the digits of a number gives the number back
(`readDigits_numeral`), with any zeros before them.
-/

namespace Numeral

/-- The digits of a number. That of 0 is 0. -/
def digits (base n : Nat) : List Nat := if n = 0 then [0] else (Nat.digits base n).reverse

/-- The character of a digit. -/
def digitChar (d : Nat) : BitVec 8 := if d < 10 then .ofNat 8 (0x30 + d) else .ofNat 8 (0x61 + (d - 10))

/-- The digit of a character, in a base up to 16. -/
def readDigit (base : Nat) (c : BitVec 8) : Option Nat :=
  let d := if c.toNat < 0x61 then c.toNat - 0x30 else c.toNat - 0x61 + 10
  if digitChar d = c ∧ d < base then some d else none

/-- The digits of a text behind a number that was read before them. -/
def readFrom (base : Nat) : Nat → List (BitVec 8) → Option Nat
  | n, [] => some n
  | n, c :: text => (readDigit base c).bind fun d => readFrom base (n * base + d) text

/-- A text of one digit or more. -/
def readDigits (base : Nat) (text : List (BitVec 8)) : Option Nat :=
  if text = [] then none else readFrom base 0 text

/-- A text with a minus sign or without. -/
def readSigned (base : Nat) : List (BitVec 8) → Option Int
  | [] => none
  | c :: text =>
    if c = 0x2d then (readDigits base text).map fun n : Nat => -(n : Int)
    else (readDigits base (c :: text)).map fun n : Nat => (n : Int)

/-- The text of a number. -/
def numeral (base n : Nat) : List (BitVec 8) := (digits base n).map digitChar

theorem readFrom_append {base n m : Nat} {xs ys : List (BitVec 8)} (h : readFrom base n xs = some m) :
    readFrom base n (xs ++ ys) = readFrom base m ys := by
  induction xs generalizing n with
  | nil =>
    cases h
    rfl
  | cons c xs ih =>
    cases hc : readDigit base c with
    | none =>
      simp only [readFrom, hc, Option.bind_none] at h
      cases h
    | some d =>
      simp only [readFrom, hc, Option.bind_some, List.cons_append] at h ⊢
      exact ih h

section
variable {base n : Nat} (hbase : 1 < base)
include hbase

/-- The last digit, and those before it. -/
theorem digits_step (n : Nat) :
    digits base n = (if n / base = 0 then [] else digits base (n / base)) ++ [n % base] := by
  by_cases hn : n = 0
  · subst hn
    simp [digits]
  · have hdigits : Nat.digits base n = (n % base) :: Nat.digits base (n / base) :=
      Nat.digits_def' hbase (Nat.pos_of_ne_zero hn)
    unfold digits
    rw [if_neg hn, hdigits, List.reverse_cons]
    by_cases hrest : n / base = 0
    · simp [hrest]
    · rw [if_neg hrest, if_neg hrest]

theorem digits_lt {d : Nat} (hd : d ∈ digits base n) : d < base := by
  unfold digits at hd
  split at hd
  · rw [List.mem_singleton.1 hd]
    omega
  · exact Nat.digits_lt_base hbase (List.mem_reverse.1 hd)

theorem digits_length_pos (n : Nat) : 0 < (digits base n).length := by
  rw [digits_step hbase, List.length_append, List.length_singleton]
  omega

/-- A number below a power of the base has no more digits than the power. -/
theorem digits_length_le {k : Nat} (hk : 0 < k) (hn : n < base ^ k) :
    (digits base n).length ≤ k := by
  unfold digits
  split
  · exact hk
  · rw [List.length_reverse]
    exact (Nat.digits_length_le_iff hbase n).2 hn

theorem readDigit_digitChar (hbase' : base ≤ 16) {d : Nat} (hd : d < base) :
    readDigit base (digitChar d) = some d := by
  have hsmall : ∀ d < 16, (if (digitChar d).toNat < 0x61 then (digitChar d).toNat - 0x30
      else (digitChar d).toNat - 0x61 + 10) = d := by decide
  have hdigit := hsmall d (by omega)
  simp only [readDigit, hdigit]
  exact if_pos ⟨trivial, hd⟩

/-- Zeros before the digits. -/
theorem readFrom_zeros (hbase' : base ≤ 16) (k : Nat) (text : List (BitVec 8)) :
    readFrom base 0 (List.replicate k 0x30 ++ text) = readFrom base 0 text := by
  induction k with
  | zero => rfl
  | succ k ih =>
    have hzero : readDigit base 0x30 = some 0 := by
      have hchar : digitChar 0 = 0x30 := by decide
      rw [← hchar]
      exact readDigit_digitChar hbase hbase' (by omega)
    simp only [List.replicate_succ, List.cons_append, readFrom, hzero, Option.bind_some]
    rw [Nat.zero_mul]
    exact ih

theorem readFrom_numeral (hbase' : base ≤ 16) (n : Nat) :
    readFrom base 0 (numeral base n) = some n := by
  induction n using Nat.strong_induction_on with
  | _ n ih =>
    have hmod : n % base < base := Nat.mod_lt n (by omega)
    have hlast := readDigit_digitChar hbase hbase' hmod
    have hsplit := Nat.div_add_mod n base
    unfold numeral at ih ⊢
    rw [digits_step hbase, List.map_append]
    by_cases hrest : n / base = 0
    · rw [hrest, Nat.mul_zero, Nat.zero_add] at hsplit
      rw [if_pos hrest]
      simp only [List.map_nil, List.nil_append, List.map_cons, readFrom, hlast, Option.bind_some]
      rw [Nat.zero_mul, Nat.zero_add, hsplit]
    · have hlt : n / base < n := Nat.div_lt_self (Nat.pos_of_ne_zero fun h0 => hrest (by simp [h0])) hbase
      rw [if_neg hrest, readFrom_append (ih _ hlt)]
      simp only [List.map_cons, List.map_nil, readFrom, hlast, Option.bind_some]
      rw [Nat.mul_comm, hsplit]

theorem numeral_ne_nil (n : Nat) : numeral base n ≠ [] := by
  have hpos := digits_length_pos hbase n
  unfold numeral
  intro hnil
  rw [List.map_eq_nil_iff.1 hnil] at hpos
  exact Nat.lt_irrefl _ hpos

/-- Reading a number back, with zeros before it. -/
theorem readDigits_numeral (hbase' : base ≤ 16) (k n : Nat) :
    readDigits base (List.replicate k 0x30 ++ numeral base n) = some n := by
  have hne := numeral_ne_nil hbase n
  unfold readDigits
  rw [if_neg (by simp [hne]), readFrom_zeros hbase hbase', readFrom_numeral hbase hbase']

end

theorem numeral_length (base n : Nat) : (numeral base n).length = (digits base n).length :=
  List.length_map _

/-- No digit is the minus sign. -/
theorem digitChar_ne_minus {d : Nat} (hd : d < 16) : digitChar d ≠ 0x2d := by
  have hall : ∀ d < 16, digitChar d ≠ 0x2d := by decide
  exact hall d hd

theorem minus_notMem {base : Nat} (hbase : 1 < base) (hbase' : base ≤ 16) (k n : Nat) :
    0x2d ∉ List.replicate k 0x30 ++ numeral base n := by
  intro hmem
  rcases List.mem_append.1 hmem with hzero | hdigit
  · exact absurd (List.eq_of_mem_replicate hzero) (by decide)
  · obtain ⟨d, hd, heq⟩ := List.mem_map.1 hdigit
    have hlt := digits_lt hbase hd
    exact digitChar_ne_minus (by omega) heq

end Numeral
