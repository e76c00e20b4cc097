import Mathlib.Data.List.Perm.Basic
import Mathlib.Tactic.Common

/-!
# Forests

Nodes in an order, each with a forest below it. A forest grows at the leaves: a new node becomes the
last one below its parent.
-/

inductive Forest (α : Type*) where
  | nil
  | node (a : α) (children siblings : Forest α)
  deriving DecidableEq

namespace Forest

variable {α β : Type*}

def map (f : α → β) : Forest α → Forest β
  | nil => nil
  | node a c s => node (f a) (map f c) (map f s)

/-- Every node before those below it. -/
def toList : Forest α → List α
  | nil => []
  | node a c s => a :: (toList c ++ toList s)

def size : Forest α → Nat
  | nil => 0
  | node _ c s => size c + size s + 1

/-- One node more, behind all others. -/
def snoc : Forest α → α → Forest α
  | nil, a => node a nil nil
  | node b c s, a => node b c (snoc s a)

/-- `a` becomes the last node below `p`. -/
def insert [DecidableEq α] (p a : α) : Forest α → Forest α
  | nil => nil
  | node b c s => node b (if b = p then snoc (insert p a c) a else insert p a c) (insert p a s)

theorem length_toList (f : Forest α) : f.toList.length = f.size := by
  induction f with
  | nil => rfl
  | node a c s ihc ihs =>
    rw [toList, List.length_cons, List.length_append, ihc, ihs, size]

theorem toList_snoc (f : Forest α) (a : α) : (f.snoc a).toList = f.toList ++ [a] := by
  induction f with
  | nil => rfl
  | node b c s _ ihs => rw [snoc, toList, toList, ihs, List.cons_append, List.append_assoc]

/-- There is a new node for each time that the parent is there. -/
theorem count_toList_insert [DecidableEq α] (p a x : α) (f : Forest α) :
    (f.insert p a).toList.count x = f.toList.count x + if a = x then f.toList.count p else 0 := by
  induction f with
  | nil => simp [insert, toList]
  | node b c s ihc ihs =>
    -- those below it and those beside it
    have hboth : ((c.insert p a).toList ++ (s.insert p a).toList).count x =
        (c.toList ++ s.toList).count x + if a = x then (c.toList ++ s.toList).count p else 0 := by
      rw [List.count_append, ihc, ihs, List.count_append, List.count_append]
      split <;> omega
    by_cases hb : b = p
    · have hsplit : ((node b c s).insert p a).toList =
          b :: ((c.insert p a).toList ++ [a] ++ (s.insert p a).toList) := by
        rw [insert, if_pos hb, toList, toList_snoc]
      have hcount : ((c.insert p a).toList ++ [a] ++ (s.insert p a).toList).count x =
          ((c.insert p a).toList ++ (s.insert p a).toList).count x + if a = x then 1 else 0 := by
        simp only [List.count_append, List.count_singleton, beq_iff_eq]
        omega
      rw [hsplit, toList, hb, List.count_cons, hcount, hboth, List.count_cons, List.count_cons_self]
      split <;> omega
    · rw [insert, if_neg hb, toList, toList, List.count_cons, List.count_cons, hboth,
        List.count_cons_of_ne hb]
      omega

theorem toList_insert_perm [DecidableEq α] {p a : α} {f : Forest α} (hp : f.toList.count p = 1) :
    (f.insert p a).toList.Perm (f.toList ++ [a]) := by
  refine List.perm_iff_count.mpr fun x => ?_
  rw [count_toList_insert, hp, List.count_append, List.count_singleton]
  simp only [beq_iff_eq]

end Forest
