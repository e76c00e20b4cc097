import Mathlib.Algebra.GroupWithZero.Nat
import Mathlib.Order.Defs.LinearOrder
import Mathlib.Order.Interval.Finset.Nat
import Mathlib.Tactic.Common
import Mathlib.Tactic.Order

/-!
# Lists of intervals

Half-open intervals of a linear order, kept in a list. `Canonical` lists are sorted and have gaps
between their intervals, so that nothing could be merged; what such a list covers determines it
(`Canonical.eq_of_covers`), whatever the steps were that built it. Intervals of numbers below a
bound that share nothing cannot be longer together than the bound (`length_le_of_disjoint`), and
those that follow each other overlap nowhere and leave nothing out (`Tiles`).
-/

namespace Intervals

variable {α : Type*} [LinearOrder α]

/-- Some interval of the list contains `x`. -/
def Covers (is : List (α × α)) (x : α) : Prop := ∃ i ∈ is, i.1 ≤ x ∧ x < i.2

/-- No interval is empty, and each lies behind a gap. -/
structure Canonical (is : List (α × α)) : Prop where
  proper : ∀ i ∈ is, i.1 < i.2
  separated : is.Pairwise fun i j => i.2 < j.1

/-- The intervals follow each other from `a` to `b`. -/
def Tiles : α → List (α × α) → α → Prop
  | a, [], b => a = b
  | a, i :: is, b => i.1 = a ∧ a ≤ i.2 ∧ Tiles i.2 is b

variable {is js : List (α × α)} {i j : α × α} {a b x : α}

@[simp] theorem not_covers_nil (x : α) : ¬Covers [] x := by
  simp [Covers]

theorem covers_cons : Covers (i :: is) x ↔ (i.1 ≤ x ∧ x < i.2) ∨ Covers is x := by
  simp [Covers]

theorem covers_append : Covers (is ++ js) x ↔ Covers is x ∨ Covers js x := by
  simp only [Covers, List.mem_append, or_and_right, exists_or]

theorem Tiles.le (h : Tiles a is b) : a ≤ b := by
  induction is generalizing a with
  | nil => exact h.le
  | cons i is ih => exact h.2.1.trans (ih h.2.2)

theorem Tiles.le_of_mem (h : Tiles a is b) (hj : j ∈ is) : a ≤ j.1 := by
  induction is generalizing a with
  | nil => cases hj
  | cons i is ih =>
    obtain ⟨rfl, hle, hrest⟩ := h
    cases hj with
    | head => exact le_rfl
    | tail _ hj => exact hle.trans (ih hrest hj)

/-- Tiles do not overlap. -/
theorem Tiles.pairwise (h : Tiles a is b) : is.Pairwise fun i j => i.2 ≤ j.1 := by
  induction is generalizing a with
  | nil => exact .nil
  | cons i is ih => exact List.pairwise_cons.2 ⟨fun j hj => h.2.2.le_of_mem hj, ih h.2.2⟩

theorem Canonical.tail (h : Canonical (i :: is)) : Canonical is where
  proper j hj := h.proper j (List.mem_cons_of_mem _ hj)
  separated := (List.pairwise_cons.1 h.separated).2

/-- What the later intervals cover lies behind the first one. -/
theorem Canonical.lt_of_covers (h : Canonical (i :: is)) (hx : Covers is x) : i.2 < x := by
  obtain ⟨j, hj, hlo, -⟩ := hx
  exact lt_of_lt_of_le ((List.pairwise_cons.1 h.separated).1 j hj) hlo

theorem Canonical.covers_tail (h : Canonical (i :: is)) :
    Covers is x ↔ Covers (i :: is) x ∧ i.2 < x := by
  constructor
  · exact fun hx => ⟨covers_cons.2 (.inr hx), h.lt_of_covers hx⟩
  · rintro ⟨hx, hlt⟩
    rcases covers_cons.1 hx with ⟨-, hlt'⟩ | hx
    · exact absurd hlt' hlt.not_gt
    · exact hx

theorem Canonical.covers_head (h : Canonical (i :: is)) : Covers (i :: is) i.1 :=
  covers_cons.2 (.inl ⟨le_rfl, h.proper i List.mem_cons_self⟩)

theorem Canonical.head_le_of_covers (h : Canonical (i :: is)) (hx : Covers (i :: is) x) :
    i.1 ≤ x := by
  rcases covers_cons.1 hx with ⟨hlo, -⟩ | hx
  · exact hlo
  · exact ((h.proper i List.mem_cons_self).trans (h.lt_of_covers hx)).le

/-- The end of the first interval is in the gap behind it. -/
theorem Canonical.not_covers_stop (h : Canonical (i :: is)) : ¬Covers (i :: is) i.2 := by
  intro hx
  rcases covers_cons.1 hx with ⟨-, hlt⟩ | hx
  · exact lt_irrefl _ hlt
  · exact lt_irrefl _ (h.lt_of_covers hx)

theorem Canonical.stop_le_of_covers (h' : Canonical (j :: js))
    (hcovers : ∀ x, Covers (i :: is) x ↔ Covers (j :: js) x) (hhead : i.1 = j.1) : i.2 ≤ j.2 := by
  by_contra hlt
  -- the end of `j` would be inside `i`
  refine h'.not_covers_stop ((hcovers j.2).1 (covers_cons.2 (.inl ⟨?_, not_le.1 hlt⟩)))
  rw [hhead]
  exact (h'.proper j List.mem_cons_self).le

/-- Canonical lists that cover the same are the same. -/
theorem Canonical.eq_of_covers (h : Canonical is) (h' : Canonical js)
    (hcovers : ∀ x, Covers is x ↔ Covers js x) : is = js := by
  induction is generalizing js with
  | nil =>
    cases js with
    | nil => rfl
    | cons j js => exact absurd ((hcovers j.1).2 h'.covers_head) (not_covers_nil _)
  | cons i is ih =>
    cases js with
    | nil => exact absurd ((hcovers i.1).1 h.covers_head) (not_covers_nil _)
    | cons j js =>
      have hhead : i.1 = j.1 := le_antisymm (h.head_le_of_covers ((hcovers j.1).2 h'.covers_head))
        (h'.head_le_of_covers ((hcovers i.1).1 h.covers_head))
      have hstop : i.2 = j.2 := le_antisymm (h'.stop_le_of_covers hcovers hhead)
        (h.stop_le_of_covers (fun x => (hcovers x).symm) hhead.symm)
      have hij : i = j := Prod.ext hhead hstop
      subst hij
      have hrest : is = js := by
        refine ih h.tail h'.tail fun x => ?_
        rw [h.covers_tail, h'.covers_tail, hcovers]
      rw [hrest]

/-- Disjoint intervals below `bound`, with the room that they leave for `others`. -/
theorem length_le_of_disjoint {bound : Nat} {is : List (Nat × Nat)} {others : Finset Nat}
    (hdisj : is.Pairwise fun i j => i.2 ≤ j.1 ∨ j.2 ≤ i.1) (hbound : ∀ i ∈ is, i.2 ≤ bound)
    (hothers : ∀ x ∈ others, x < bound ∧ ¬Covers is x) :
    (is.map fun i => i.2 - i.1).sum + others.card ≤ bound := by
  induction is generalizing others with
  | nil =>
    have hsub : others ⊆ Finset.range bound := fun x hx => Finset.mem_range.2 (hothers x hx).1
    have hcard := Finset.card_le_card hsub
    rw [Finset.card_range] at hcard
    simpa using hcard
  | cons i is ih =>
    obtain ⟨hi, hrest⟩ := List.pairwise_cons.1 hdisj
    have happart : Disjoint others (Finset.Ico i.1 i.2) := by
      rw [Finset.disjoint_left]
      intro x hx hx'
      exact (hothers x hx).2 (covers_cons.2 (.inl (Finset.mem_Ico.1 hx')))
    -- the first interval counts as one more of the others
    have hle := @ih (others ∪ Finset.Ico i.1 i.2) hrest
      (fun j hj => hbound j (List.mem_cons_of_mem _ hj)) (fun x hx => by
        rcases Finset.mem_union.1 hx with hx | hx
        · exact ⟨(hothers x hx).1, fun hc => (hothers x hx).2 (covers_cons.2 (.inr hc))⟩
        · obtain ⟨hlo, hhi⟩ := Finset.mem_Ico.1 hx
          have := hbound i List.mem_cons_self
          refine ⟨by omega, fun ⟨j, hj, hjlo, hjhi⟩ => ?_⟩
          have := hi j hj
          omega)
    rw [Finset.card_union_of_disjoint happart, Nat.card_Ico] at hle
    simp only [List.map_cons, List.sum_cons]
    omega

end Intervals
