import Mathlib.Order.Monotone.Basic
import Mathlib.Tactic.Common

/-!
# Machines driven by a stream

A machine that does one thing at a time and is told each time how it went: `step` takes the answer
and the state, and the answers come from an infinite stream. An invariant that every step keeps
holds at every moment (`driven_induction`). A run ends when a measure that no step raises is
lowered again and again (`exists_halted`); which answers lower it is up to the machine.
-/

namespace Driven

variable {σ ι : Type*} (step : ι → σ → σ)

/-- The state after the first `n` answers. -/
def driven (start : σ) (answers : Nat → ι) : Nat → σ
  | 0 => start
  | n + 1 => step (answers n) (driven start answers n)

variable {step} {start : σ} {answers : Nat → ι}

@[simp] theorem driven_zero : driven step start answers 0 = start := rfl

theorem driven_succ (n : Nat) :
    driven step start answers (n + 1) = step (answers n) (driven step start answers n) := rfl

/-- An invariant of every step holds at every moment. -/
theorem driven_induction {I : σ → Prop} (hstep : ∀ answer s, I s → I (step answer s))
    (hstart : I start) (n : Nat) : I (driven step start answers n) := by
  induction n with
  | zero => exact hstart
  | succ n ih => exact hstep _ _ ih

/-- A state that no answer moves is kept. -/
theorem driven_of_fixed {m n : Nat}
    (hfixed : ∀ answer, step answer (driven step start answers m) = driven step start answers m)
    (hmn : m ≤ n) : driven step start answers n = driven step start answers m := by
  induction hmn with
  | refl => rfl
  | step _ ih => rw [driven_succ, ih, hfixed]

/-- A measure that no step raises cannot be lowered again and again: the run reaches a state in
`Halted`, if as long as it has not there is always a later step that lowers the measure. -/
theorem exists_halted (measure : σ → Nat) (Halted : σ → Prop)
    (hle : ∀ n, measure (driven step start answers (n + 1)) ≤ measure (driven step start answers n))
    (hlt : ∀ m, (∀ n, ¬ Halted (driven step start answers n)) → ∃ n, m ≤ n ∧
      measure (driven step start answers (n + 1)) < measure (driven step start answers n)) :
    ∃ n, Halted (driven step start answers n) := by
  by_contra hnever
  push Not at hnever
  have hdown : ∀ bound m, measure (driven step start answers m) < bound → False := by
    intro bound
    induction bound with
    | zero => exact fun m h => absurd h (Nat.not_lt_zero _)
    | succ bound ih =>
      intro m hm
      obtain ⟨n, hmn, hlower⟩ := hlt m hnever
      have hmono : Antitone fun n => measure (driven step start answers n) :=
        antitone_nat_of_succ_le hle
      have hmn' := hmono hmn
      dsimp only at hmn'
      exact ih (n + 1) (by omega)
  exact hdown _ 0 (Nat.lt_succ_self _)

end Driven
