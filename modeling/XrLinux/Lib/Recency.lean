import Mathlib.Data.List.Dedup
import Mathlib.Data.List.Induction
import Mathlib.Tactic.Common

/-!
# Order of most recent use

`touch n x l` is what a cache of `n` entries does when `x` is used: `x` comes to the front, and what
no longer fits falls off the end. Used over a whole history, the entries are the `n` most recently
used ones, the most recent first (`foldl_touch`); so what falls off is always the least recently
used.
-/

namespace Recency

variable {α : Type*} [DecidableEq α]

def touch (n : Nat) (x : α) (l : List α) : List α := (x :: l.erase x).take n

/-- The elements of a history, each once, the most recently used one first. -/
def recent (history : List α) : List α := history.dedup.reverse

theorem dedup_append_singleton (history : List α) (x : α) :
    (history ++ [x]).dedup = history.dedup.erase x ++ [x] := by
  induction history with
  | nil => simp
  | cons y history ih =>
    rw [List.cons_append]
    by_cases hy : y ∈ history
    · rw [List.dedup_cons_of_mem hy, List.dedup_cons_of_mem (List.mem_append_left _ hy), ih]
    · by_cases hyx : y = x
      · -- the earlier use of `x` goes
        subst hyx
        rw [List.dedup_cons_of_notMem hy, List.dedup_cons_of_mem (by simp), ih,
          List.erase_cons_head, List.erase_of_not_mem (by simpa using hy)]
      · rw [List.dedup_cons_of_notMem hy, List.dedup_cons_of_notMem (by simp [hy, hyx]), ih,
          List.erase_cons_tail (by simpa using hyx), List.cons_append]

theorem recent_append_singleton (history : List α) (x : α) :
    recent (history ++ [x]) = x :: (recent history).erase x := by
  have hnodup := List.nodup_dedup history
  rw [recent, recent, dedup_append_singleton, List.reverse_append, List.reverse_singleton,
    List.singleton_append, hnodup.erase_eq_filter,
    (List.nodup_reverse.2 hnodup).erase_eq_filter, List.filter_reverse]

/-- What has fallen off would fall off now. -/
theorem touch_take (n : Nat) (x : α) (l : List α) : touch n x (l.take n) = touch n x l := by
  cases n with
  | zero => rfl
  | succ n =>
    simp only [touch, List.take_succ_cons, List.cons.injEq, true_and]
    induction l generalizing n with
    | nil => rfl
    | cons y l ih =>
      rw [List.take_succ_cons]
      by_cases hyx : y = x
      · subst hyx
        rw [List.erase_cons_head, List.erase_cons_head, List.take_take, Nat.min_self]
      · rw [List.erase_cons_tail (by simpa using hyx), List.erase_cons_tail (by simpa using hyx)]
        cases n with
        | zero => rfl
        | succ n => rw [List.take_succ_cons, List.take_succ_cons, ih]

theorem foldl_touch (n : Nat) (history : List α) :
    history.foldl (fun l x => touch n x l) [] = (recent history).take n := by
  induction history using List.reverseRecOn with
  | nil => simp [recent]
  | append_singleton history x ih =>
    rw [List.foldl_append, ih, List.foldl_cons, List.foldl_nil, touch_take, touch,
      recent_append_singleton]

end Recency
