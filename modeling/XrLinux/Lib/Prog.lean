import Mathlib.Tactic.Common

/-!
# Programs with a state that can stop

`Prog σ ε α` is a program on states `σ` that returns an `α` or stops with an `ε`; the state
survives the stop. `Post p s Q E` is its postcondition from `s`: `Q` where the program returns, `E`
where it stops. `Keeps R p` is for what holds between the states before and after on either way.
-/

def Prog (σ ε α : Type) : Type := σ → Except ε α × σ

namespace Prog

variable {σ ε α β : Type}

def run (p : Prog σ ε α) (s : σ) : Except ε α × σ := p s

instance instMonad : Monad (Prog σ ε) where
  pure a := fun s => (.ok a, s)
  bind p f := fun s =>
    match p s with
    | (.ok a, s') => f a s'
    | (.error e, s') => (.error e, s')

def stop (e : ε) : Prog σ ε α := fun s => (.error e, s)

def get : Prog σ ε σ := fun s => (.ok s, s)

def modify (f : σ → σ) : Prog σ ε Unit := fun s => (.ok (), f s)

/-- A step that can stop but has no state. -/
def lift (x : Except ε α) : Prog σ ε α := fun s => (x, s)

/-- `Q` of the result and the state after it, or `E` of the stop and the state it leaves. -/
def Post (p : Prog σ ε α) (s : σ) (Q : α → σ → Prop) (E : ε → σ → Prop) : Prop :=
  match p.run s with
  | (.ok a, s') => Q a s'
  | (.error e, s') => E e s'

/-- The program returns, with `Q`. -/
def Returns (p : Prog σ ε α) (s : σ) (Q : α → σ → Prop) : Prop := Post p s Q fun _ _ => False

section
variable {p : Prog σ ε α} {f : α → Prog σ ε β} {s s' : σ} {Q Q' : α → σ → Prop}
  {E E' : ε → σ → Prop}

@[simp] theorem post_pure {a : α} : Post (pure a) s Q E ↔ Q a s := Iff.rfl

@[simp] theorem post_stop {e : ε} : Post (stop e) s Q E ↔ E e s := Iff.rfl

@[simp] theorem post_get {Q : σ → σ → Prop} : Post get s Q E ↔ Q s s := Iff.rfl

@[simp] theorem post_modify {g : σ → σ} {Q : Unit → σ → Prop} :
    Post (modify g) s Q E ↔ Q () (g s) := Iff.rfl

@[simp] theorem post_lift_ok {a : α} : Post (lift (.ok a)) s Q E ↔ Q a s := Iff.rfl

@[simp] theorem post_lift_error {e : ε} : Post (lift (.error e)) s Q E ↔ E e s := Iff.rfl

@[simp] theorem post_bind {Q : β → σ → Prop} :
    Post (p >>= f) s Q E ↔ Post p s (fun a s' => Post (f a) s' Q E) E := by
  show (match (match p s with
      | (.ok a, s') => f a s'
      | (.error e, s') => (.error e, s')) with
    | (.ok a, s') => Q a s'
    | (.error e, s') => E e s') ↔ _
  unfold Post run
  split <;> rename_i h <;> split at h <;> simp_all

theorem Post.mono (h : Post p s Q E) (hQ : ∀ a s', Q a s' → Q' a s')
    (hE : ∀ e s', E e s' → E' e s') : Post p s Q' E' := by
  unfold Post at h ⊢
  split at h
  · exact hQ _ _ h
  · exact hE _ _ h

theorem Post.and (h : Post p s Q E) (h' : Post p s Q' E') :
    Post p s (fun a s' => Q a s' ∧ Q' a s') (fun e s' => E e s' ∧ E' e s') := by
  unfold Post at *
  split at h <;> exact ⟨h, by simp_all⟩

theorem Post.trivial (p : Prog σ ε α) (s : σ) : Post p s (fun _ _ => True) fun _ _ => True := by
  unfold Post
  split <;> exact True.intro

theorem Post.bind {Q : β → σ → Prop} {R : α → σ → Prop} (h : Post p s R E)
    (hf : ∀ a s', R a s' → Post (f a) s' Q E) : Post (p >>= f) s Q E :=
  post_bind.2 (h.mono hf fun _ _ he => he)

theorem returns_iff : Returns p s Q ↔ ∃ a s', p.run s = (.ok a, s') ∧ Q a s' := by
  unfold Returns Post
  constructor
  · intro h
    split at h
    · exact ⟨_, _, ‹_›, h⟩
    · exact h.elim
  · rintro ⟨a, s', hrun, hQ⟩
    rw [hrun]
    exact hQ

theorem Returns.mono (h : Returns p s Q) (hQ : ∀ a s', Q a s' → Q' a s') : Returns p s Q' :=
  Post.mono h hQ fun _ _ => id

theorem Returns.bind {Q : β → σ → Prop} {R : α → σ → Prop} (h : Returns p s R)
    (hf : ∀ a s', R a s' → Returns (f a) s' Q) : Returns (p >>= f) s Q :=
  Post.bind h hf

theorem Returns.post (h : Returns p s Q) : Post p s Q E := Post.mono h (fun _ _ => id) fun _ _ => False.elim

theorem run_bind_ok {a : α} (h : p.run s = (.ok a, s')) : (p >>= f).run s = (f a).run s' := by
  show (match p.run s with
    | (.ok a, s') => f a s'
    | (.error e, s') => (.error e, s')) = _
  rw [h]
  rfl

theorem run_bind_error {e : ε} (h : p.run s = (.error e, s')) :
    (p >>= f).run s = (.error e, s') := by
  show (match p.run s with
    | (.ok a, s') => f a s'
    | (.error e, s') => (.error e, s')) = _
  rw [h]

/-- A postcondition at the run there is. -/
theorem Post.of_run_ok {a : α} (h : Post p s Q E) (hrun : p.run s = (.ok a, s')) : Q a s' := by
  unfold Post at h
  rwa [hrun] at h

theorem Post.of_run_error {e : ε} (h : Post p s Q E) (hrun : p.run s = (.error e, s')) :
    E e s' := by
  unfold Post at h
  rwa [hrun] at h

theorem post_of_run_ok {a : α} (hrun : p.run s = (.ok a, s')) (h : Q a s') : Post p s Q E := by
  unfold Post
  rw [hrun]
  exact h

theorem post_bind_ok {a : α} {Q : β → σ → Prop} (hrun : p.run s = (.ok a, s'))
    (h : Post (f a) s' Q E) : Post (p >>= f) s Q E := by
  unfold Post
  rw [run_bind_ok hrun]
  exact h

theorem post_bind_error {e : ε} {Q : β → σ → Prop} (hrun : p.run s = (.error e, s'))
    (h : E e s') : Post (p >>= f) s Q E := by
  unfold Post
  rw [run_bind_error hrun]
  exact h

end

/-! ## What every step keeps -/

/-- `R` holds of the states before and after, however the program ends. -/
def Keeps (R : σ → σ → Prop) (p : Prog σ ε α) : Prop :=
  ∀ s, Post p s (fun _ s' => R s s') fun _ s' => R s s'

section
variable {R : σ → σ → Prop} {p : Prog σ ε α} {f : α → Prog σ ε β}

theorem Keeps.pure (hR : ∀ s, R s s) (a : α) : Keeps R (pure a : Prog σ ε α) := hR

theorem Keeps.stop (hR : ∀ s, R s s) (e : ε) : Keeps R (stop e : Prog σ ε α) := hR

theorem Keeps.get (hR : ∀ s, R s s) : Keeps R (get : Prog σ ε σ) := hR

theorem Keeps.modify {g : σ → σ} (h : ∀ s, R s (g s)) : Keeps R (modify g : Prog σ ε Unit) := h

theorem Keeps.lift (hR : ∀ s, R s s) (x : Except ε α) : Keeps R (lift x : Prog σ ε α) := by
  cases x <;> exact hR

theorem Keeps.bind (htrans : ∀ s t u, R s t → R t u → R s u) (h : Keeps R p)
    (hf : ∀ a, Keeps R (f a)) : Keeps R (p >>= f) := by
  intro s
  rw [post_bind]
  refine (h s).mono (fun a s' hss => ?_) fun _ _ => id
  exact (hf a s').mono (fun _ _ => htrans _ _ _ hss) fun _ _ => htrans _ _ _ hss

end

/-! ## Outcomes that do not depend on the state -/

/-- From every state with `I` the program comes to the same end, and the state it leaves has `I`. -/
def Settled (I : σ → Prop) (p : Prog σ ε α) : Prop :=
  ∃ r : Except ε α, ∀ s, I s → (p.run s).1 = r ∧ I (p.run s).2

section
variable {I : σ → Prop} {p : Prog σ ε α} {f : α → Prog σ ε β}

theorem Settled.pure (a : α) : Settled I (pure a : Prog σ ε α) := ⟨.ok a, fun _ hs => ⟨rfl, hs⟩⟩

theorem Settled.stop (e : ε) : Settled I (stop e : Prog σ ε α) := ⟨.error e, fun _ hs => ⟨rfl, hs⟩⟩

theorem Settled.of_returns {a : α}
    (h : ∀ s, I s → Returns p s fun a' s' => I s' ∧ a' = a) : Settled I p := by
  refine ⟨.ok a, fun s hs => ?_⟩
  obtain ⟨a', s', hrun, hs', rfl⟩ := returns_iff.1 (h s hs)
  rw [hrun]
  exact ⟨rfl, hs'⟩

theorem Settled.bind (h : Settled I p) (hf : ∀ a, Settled I (f a)) : Settled I (p >>= f) := by
  obtain ⟨r, hr⟩ := h
  cases r with
  | error e =>
    refine ⟨.error e, fun s hs => ?_⟩
    obtain ⟨hrun, hs'⟩ := hr s hs
    rw [run_bind_error (Prod.ext hrun rfl)]
    exact ⟨rfl, hs'⟩
  | ok a =>
    obtain ⟨r, hr'⟩ := hf a
    refine ⟨r, fun s hs => ?_⟩
    obtain ⟨hrun, hs'⟩ := hr s hs
    rw [run_bind_ok (Prod.ext hrun rfl)]
    exact hr' _ hs'

theorem Settled.outcome_eq (h : Settled I p) {s t : σ} (hs : I s) (ht : I t) :
    (p.run s).1 = (p.run t).1 := by
  obtain ⟨r, hr⟩ := h
  rw [(hr s hs).1, (hr t ht).1]

theorem Settled.survives (h : Settled I p) {s : σ} (hs : I s) : I (p.run s).2 := by
  obtain ⟨r, hr⟩ := h
  exact (hr s hs).2

end

/-! ## A part of the state -/

section
variable {τ : Type} (part : σ → τ) (set : σ → τ → σ)

/-- A program on a part of the state. -/
def zoom (p : Prog τ ε α) : Prog σ ε α := fun s =>
  ((p.run (part s)).1, set s (p.run (part s)).2)

@[simp] theorem post_zoom {p : Prog τ ε α} {s : σ} {Q : α → σ → Prop} {E : ε → σ → Prop} :
    Post (zoom part set p) s Q E ↔
      Post p (part s) (fun a t => Q a (set s t)) fun e t => E e (set s t) := by
  unfold Post
  show (match ((p.run (part s)).1, set s (p.run (part s)).2) with
    | (.ok a, s') => Q a s'
    | (.error e, s') => E e s') ↔ _
  obtain ⟨r, t⟩ := p.run (part s)
  cases r <;> exact Iff.rfl

end

end Prog
