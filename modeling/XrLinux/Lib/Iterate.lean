import Mathlib.Tactic.Common

/-!
# Iterating a partial step

A deterministic machine is a step `σ → Option σ` that is `none` where the machine halts.
`iterate` runs it for a number of steps, staying put once halted; `Halts` says where a run ends.
The end of a run does not depend on the number of steps allowed, so facts about it are proved by
chaining `Steps`, one per stretch of the program. `Reaches` does so backwards: what a run comes to
from here follows from what it comes to from the next state, and for a loop from one turn of it.
-/

namespace Iterate

variable {σ : Type*} (step : σ → Option σ)

/-- Run the step at most `fuel` times. -/
def iterate : Nat → σ → σ
  | 0, s => s
  | fuel + 1, s =>
    match step s with
    | none => s
    | some s' => iterate fuel s'

variable {step}

@[simp] theorem iterate_zero (s : σ) : iterate step 0 s = s := rfl

theorem iterate_succ_some {s s' : σ} (h : step s = some s') (fuel : Nat) :
    iterate step (fuel + 1) s = iterate step fuel s' := by
  simp [iterate, h]

theorem iterate_of_none {s : σ} (h : step s = none) (fuel : Nat) : iterate step fuel s = s := by
  cases fuel with
  | zero => rfl
  | succ fuel => simp [iterate, h]

theorem iterate_add (m n : Nat) (s : σ) :
    iterate step (m + n) s = iterate step n (iterate step m s) := by
  induction m generalizing s with
  | zero => simp
  | succ m ih =>
    rw [Nat.add_right_comm]
    cases h : step s with
    | none => rw [iterate_of_none h, iterate_of_none h, iterate_of_none h]
    | some s' => rw [iterate_succ_some h, iterate_succ_some h, ih]

variable (step) in
/-- `t` is reached from `s` by steps. -/
inductive Steps : σ → σ → Prop where
  | refl (s : σ) : Steps s s
  | head {s s' t : σ} (h : step s = some s') (rest : Steps s' t) : Steps s t

theorem Steps.trans {s t u : σ} (h₁ : Steps step s t) (h₂ : Steps step t u) : Steps step s u := by
  induction h₁ with
  | refl _ => exact h₂
  | head h _ ih => exact .head h (ih h₂)

theorem Steps.single {s t : σ} (h : step s = some t) : Steps step s t := .head h (.refl t)

/-- Chained steps are an iteration. -/
theorem Steps.exists_iterate {s t : σ} (h : Steps step s t) : ∃ n, iterate step n s = t := by
  induction h with
  | refl s => exact ⟨0, rfl⟩
  | head hstep _ ih =>
    obtain ⟨n, hn⟩ := ih
    exact ⟨n + 1, by rw [iterate_succ_some hstep, hn]⟩

variable (step) in
/-- The run from `s` halts in `t`. -/
def Halts (s t : σ) : Prop := Steps step s t ∧ step t = none

theorem Halts.of_steps {s t u : σ} (h : Steps step s t) (ht : Halts step t u) :
    Halts step s u :=
  ⟨h.trans ht.1, ht.2⟩

/-- A run halts in one state only. -/
theorem Halts.unique {s t u : σ} (ht : Halts step s t) (hu : Halts step s u) : t = u := by
  obtain ⟨hst, htn⟩ := ht
  induction hst with
  | refl s =>
    cases hu.1 with
    | refl _ => rfl
    | head h _ =>
      rw [htn] at h
      cases h
  | head h _ ih =>
    cases hu.1 with
    | refl _ =>
      rw [hu.2] at h
      cases h
    | head h' rest =>
      rw [h] at h'
      cases h'
      exact ih ⟨rest, hu.2⟩ htn

/-- Once a run has halted, more fuel does not move it. -/
theorem Halts.exists_iterate {s t : σ} (h : Halts step s t) :
    ∃ n, ∀ m, n ≤ m → iterate step m s = t := by
  obtain ⟨n, hn⟩ := h.1.exists_iterate
  refine ⟨n, fun m hm => ?_⟩
  obtain ⟨k, rfl⟩ := Nat.exists_eq_add_of_le hm
  rw [iterate_add, hn, iterate_of_none h.2]

/-! ## What a run comes to -/

variable (step) in
/-- The run from `s` comes to a state with `Q`. -/
def Reaches (s : σ) (Q : σ → Prop) : Prop := ∃ t, Steps step s t ∧ Q t

theorem Reaches.here {s : σ} {Q : σ → Prop} (h : Q s) : Reaches step s Q := ⟨s, .refl s, h⟩

theorem Reaches.head {s s' : σ} {Q : σ → Prop} (h : step s = some s') (rest : Reaches step s' Q) :
    Reaches step s Q :=
  let ⟨t, hsteps, hQ⟩ := rest
  ⟨t, .head h hsteps, hQ⟩

theorem Reaches.bind {s : σ} {P Q : σ → Prop} (h : Reaches step s P)
    (hrest : ∀ t, P t → Reaches step t Q) : Reaches step s Q := by
  obtain ⟨t, hsteps, hP⟩ := h
  obtain ⟨u, hsteps', hQ⟩ := hrest t hP
  exact ⟨u, hsteps.trans hsteps', hQ⟩

theorem Reaches.mono {s : σ} {P Q : σ → Prop} (h : Reaches step s P) (hPQ : ∀ t, P t → Q t) :
    Reaches step s Q := h.bind fun t hP => .here (hPQ t hP)

/-- A loop of `n` turns that has made `k` of them. -/
theorem Reaches.loop {Inv : Nat → σ → Prop} {n : Nat}
    (hturn : ∀ k < n, ∀ s, Inv k s → Reaches step s (Inv (k + 1))) {k : Nat} (hk : k ≤ n) {s : σ}
    (h : Inv k s) : Reaches step s (Inv n) := by
  obtain ⟨turns, rfl⟩ := Nat.exists_eq_add_of_le hk
  induction turns generalizing k s with
  | zero => exact .here h
  | succ turns ih =>
    have hadd : k + (turns + 1) = k + 1 + turns := by omega
    rw [hadd] at hturn hk ⊢
    exact (hturn k (by omega) s h).bind fun t ht => ih ht hturn (by omega)

/-- Where a run comes to a halt it halts. -/
theorem Reaches.of_halts {s t : σ} {Q : σ → Prop} (hhalts : Halts step s t)
    (h : Reaches step s fun u => step u = none ∧ Q u) : Q t := by
  obtain ⟨u, hsteps, hnone, hQ⟩ := h
  rw [hhalts.unique ⟨hsteps, hnone⟩]
  exact hQ

end Iterate
