import Mathlib.Tactic.Common

/-!
# Labelled runs

A system steps under labels, `σ → ℓ → Option σ`; a run is a list of labels none of whose steps is
refused. An invariant that every step keeps holds along every run (`run_induction`). For a
property of the *history* of a run there is `exists_history`: when every step from a state with
history `g` leads to a state with a history that extends `g`, one growing family of histories
goes along with the whole run.
-/

namespace Run

variable {σ ℓ : Type*} (step : σ → ℓ → Option σ)

/-- The state after a list of labels. -/
def run : σ → List ℓ → Option σ
  | s, [] => some s
  | s, label :: labels =>
    match step s label with
    | none => none
    | some s' => run s' labels

variable {step}

@[simp] theorem run_nil (s : σ) : run step s [] = some s := rfl

theorem run_cons_eq_some {s t : σ} {label : ℓ} {labels : List ℓ} :
    run step s (label :: labels) = some t ↔
      ∃ s', step s label = some s' ∧ run step s' labels = some t := by
  cases h : step s label with
  | none => simp [run, h]
  | some s' => simp [run, h]

/-- An invariant that the steps of a run keep. -/
theorem run_induction_mem {I : σ → Prop} {s t : σ} {labels : List ℓ}
    (hstep : ∀ s label s', label ∈ labels → I s → step s label = some s' → I s')
    (hs : I s) (hrun : run step s labels = some t) : I t := by
  induction labels generalizing s with
  | nil =>
    rw [run_nil, Option.some.injEq] at hrun
    exact hrun ▸ hs
  | cons label labels ih =>
    obtain ⟨s', hs', hrest⟩ := run_cons_eq_some.1 hrun
    exact ih (fun s label' s'' hmem => hstep s label' s'' (List.mem_cons_of_mem _ hmem))
      (hstep s label s' List.mem_cons_self hs hs') hrest

/-- An invariant of every step is an invariant of every run. -/
theorem run_induction {I : σ → Prop}
    (hstep : ∀ s label s', I s → step s label = some s' → I s') {s t : σ} {labels : List ℓ}
    (hs : I s) (hrun : run step s labels = some t) : I t :=
  run_induction_mem (fun s label s' _ => hstep s label s') hs hrun

/-- One growing history along a run, from a history for every step. -/
theorem exists_history {γ : Type*} (Inv : σ → List γ → Prop)
    (hstep : ∀ s label s' history, Inv s history → step s label = some s' →
      ∃ more, Inv s' (history ++ more))
    {s t : σ} {labels : List ℓ} {history : List γ} (hs : Inv s history)
    (hrun : run step s labels = some t) :
    ∃ historyAt : Nat → List γ, historyAt 0 = history ∧
      (∀ n, n ≤ labels.length → ∃ u, run step s (labels.take n) = some u ∧ Inv u (historyAt n)) ∧
      ∀ m n, m ≤ n → n ≤ labels.length → historyAt m <+: historyAt n := by
  induction labels generalizing s history with
  | nil =>
    refine ⟨fun _ => history, rfl, fun n hn => ⟨s, by simp, hs⟩, fun _ _ _ _ => List.prefix_rfl⟩
  | cons label labels ih =>
    obtain ⟨s', hs', hrest⟩ := run_cons_eq_some.1 hrun
    obtain ⟨more, hmore⟩ := hstep s label s' history hs hs'
    obtain ⟨historyAt, hzero, hinv, hgrow⟩ := ih hmore hrest
    refine ⟨fun n => Nat.casesOn n history historyAt, rfl, ?_, ?_⟩
    · intro n hn
      cases n with
      | zero => exact ⟨s, by simp, hs⟩
      | succ n =>
        obtain ⟨u, hu, hinv⟩ := hinv n (by simpa using hn)
        exact ⟨u, by rw [List.take_succ_cons]; exact run_cons_eq_some.2 ⟨s', hs', hu⟩, hinv⟩
    · intro m n hmn hn
      cases m with
      | zero =>
        cases n with
        | zero => exact List.prefix_rfl
        | succ n =>
          have hfirst : history <+: historyAt 0 := hzero ▸ List.prefix_append history more
          exact hfirst.trans (hgrow 0 n (Nat.zero_le n) (by simpa using hn))
      | succ m =>
        cases n with
        | zero => exact absurd hmn (by omega)
        | succ n => exact hgrow m n (by omega) (by simpa using hn)

end Run
