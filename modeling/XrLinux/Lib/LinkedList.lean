import Mathlib.Data.List.Nodup
import Mathlib.Tactic.Common

/-!
# Doubly linked lists

A doubly linked list as two link functions on nodes, `prev` and `next`, and the two ends. `Holds`
says which list of nodes they represent. The edits are stated on the link functions: whatever
the store is made of, an insertion or a removal is known by what it does to the links of the
nodes (`Holds.insert`, `Holds.remove`).
-/

namespace LinkedList

variable {α : Type*} (prev next : α → α)

/-- The nodes in between: each linked to its neighbours, the first back to `p` and the last on
to `q`. -/
def Segment : α → List α → α → Prop
  | _, [], _ => True
  | p, a :: as, q => prev a = p ∧ next a = as.headD q ∧ Segment a as q

/-- The links represent `nodes`, between a head and a tail that are `null` when it is empty. -/
structure Holds (null head tail : α) (nodes : List α) : Prop where
  nodup : nodes.Nodup
  null_notMem : null ∉ nodes
  head_eq : head = nodes.headD null
  tail_eq : tail = nodes.getLastD null
  segment : Segment prev next null nodes null

variable {prev next}

@[simp] theorem segment_nil (p q : α) : Segment prev next p [] q := trivial

theorem segment_append {p q : α} {xs ys : List α} :
    Segment prev next p (xs ++ ys) q ↔
      Segment prev next p xs (ys.headD q) ∧ Segment prev next (xs.getLastD p) ys q := by
  induction xs generalizing p with
  | nil => simp
  | cons a xs ih =>
    -- the successor of `a` is the same node in both readings
    have hhead : (xs ++ ys).headD q = xs.headD (ys.headD q) := by cases xs <;> rfl
    simp only [List.cons_append, Segment, ih, hhead, List.getLastD_cons, and_assoc]

theorem Segment.congr {prev' next' : α → α} {p q : α} {xs : List α}
    (h : Segment prev next p xs q) (hprev : ∀ a ∈ xs, prev' a = prev a)
    (hnext : ∀ a ∈ xs, next' a = next a) : Segment prev' next' p xs q := by
  induction xs generalizing p with
  | nil => trivial
  | cons a xs ih =>
    obtain ⟨hp, hn, hrest⟩ := h
    refine ⟨?_, ?_, ih hrest (fun b hb => hprev b (by simp [hb])) fun b hb => hnext b (by simp [hb])⟩
    · rw [hprev a (by simp), hp]
    · rw [hnext a (by simp), hn]

/-- Only the last node's successor has changed. -/
theorem Segment.set_next {next' : α → α} {p q q' : α} {xs : List α}
    (h : Segment prev next p xs q) (hnodup : xs.Nodup)
    (hnext : ∀ a ∈ xs, a ≠ xs.getLastD p → next' a = next a)
    (hlast : xs ≠ [] → next' (xs.getLastD p) = q') : Segment prev next' p xs q' := by
  induction xs generalizing p with
  | nil => trivial
  | cons a xs ih =>
    obtain ⟨hp, hn, hrest⟩ := h
    rw [List.nodup_cons] at hnodup
    simp only [List.getLastD_cons] at hnext hlast
    cases xs with
    | nil => exact ⟨hp, hlast (by simp), trivial⟩
    | cons b xs =>
      have hab : a ≠ (b :: xs).getLastD a := by
        rintro heq
        apply hnodup.1
        rw [heq, List.getLastD_cons]
        exact List.getLastD_mem_cons
      refine ⟨hp, ?_, ih hrest hnodup.2 (fun c hc => hnext c (by simp [hc])) fun _ =>
        hlast (by simp)⟩
      rw [hnext a (by simp) hab, hn]
      rfl

/-- Only the first node's predecessor has changed. -/
theorem Segment.set_prev {prev' : α → α} {p p' q : α} {xs : List α}
    (h : Segment prev next p xs q) (hnodup : xs.Nodup)
    (hprev : ∀ a ∈ xs, a ≠ xs.headD q → prev' a = prev a)
    (hfirst : xs ≠ [] → prev' (xs.headD q) = p') : Segment prev' next p' xs q := by
  cases xs with
  | nil => trivial
  | cons a xs =>
    obtain ⟨hp, hn, hrest⟩ := h
    rw [List.nodup_cons] at hnodup
    refine ⟨hfirst (by simp), hn, hrest.congr (fun b hb => hprev b (by simp [hb]) ?_) fun _ _ => rfl⟩
    rintro rfl
    exact hnodup.1 hb

theorem getLastD_mem {xs : List α} (h : xs ≠ []) (a : α) : xs.getLastD a ∈ xs := by
  cases xs with
  | nil => exact absurd rfl h
  | cons b xs =>
    rw [List.getLastD_cons]
    exact List.getLastD_mem_cons

theorem headD_mem {xs : List α} (h : xs ≠ []) (a : α) : xs.headD a ∈ xs := by
  cases xs with
  | nil => exact absurd rfl h
  | cons b xs => simp

theorem getLastD_append (xs ys : List α) (a : α) :
    (xs ++ ys).getLastD a = ys.getLastD (xs.getLastD a) := by
  induction xs generalizing a with
  | nil => rfl
  | cons b xs ih => simp only [List.cons_append, List.getLastD_cons, ih]

section
variable {null head tail : α}

theorem Holds.empty : Holds prev next null null null [] :=
  ⟨List.nodup_nil, by simp, rfl, rfl, trivial⟩

/-- The links of a node lead to its neighbours. -/
theorem Holds.links {xs ys : List α} {n : α} (h : Holds prev next null head tail (xs ++ n :: ys)) :
    prev n = xs.getLastD null ∧ next n = ys.headD null := by
  obtain ⟨-, hn⟩ := segment_append.1 h.segment
  exact ⟨hn.1, hn.2.1⟩

/-- Links that agree on the nodes represent the same list. -/
theorem Holds.congr {prev' next' : α → α} {nodes : List α}
    (h : Holds prev next null head tail nodes) (hprev : ∀ a ∈ nodes, prev' a = prev a)
    (hnext : ∀ a ∈ nodes, next' a = next a) : Holds prev' next' null head tail nodes :=
  { h with segment := h.segment.congr hprev hnext }

/-- Linking `n` in between `xs` and `ys`. -/
theorem Holds.insert {prev' next' : α → α} {head' tail' n : α} {xs ys : List α}
    (h : Holds prev next null head tail (xs ++ ys)) (hnull : n ≠ null) (hn : n ∉ xs ++ ys)
    (hprev : ∀ a ∈ xs ++ ys, a ≠ ys.headD null → prev' a = prev a)
    (hnext : ∀ a ∈ xs ++ ys, a ≠ xs.getLastD null → next' a = next a)
    (hprevn : prev' n = xs.getLastD null) (hnextn : next' n = ys.headD null)
    (hbefore : xs ≠ [] → next' (xs.getLastD null) = n)
    (hafter : ys ≠ [] → prev' (ys.headD null) = n)
    (hhead : head' = if xs = [] then n else head) (htail : tail' = if ys = [] then n else tail) :
    Holds prev' next' null head' tail' (xs ++ n :: ys) := by
  obtain ⟨hnodup, hnotnull, rfl, rfl, hseg⟩ := h
  obtain ⟨hxs, hys⟩ := segment_append.1 hseg
  have hdisj : ∀ a ∈ xs, a ∉ ys := fun a ha hay => List.disjoint_of_nodup_append hnodup ha hay
  have hnodup_xs := hnodup.of_append_left
  have hnodup_ys := hnodup.of_append_right
  refine ⟨?_, ?_, ?_, ?_, ?_⟩
  · rw [List.nodup_middle]
    exact List.nodup_cons.2 ⟨hn, hnodup⟩
  · simp only [List.mem_append, List.mem_cons, not_or] at hnotnull ⊢
    exact ⟨hnotnull.1, hnull.symm, hnotnull.2⟩
  · rw [hhead]
    cases xs <;> simp
  · rw [htail]
    cases ys <;> simp only [getLastD_append, List.getLastD_cons, List.getLastD_nil, ↓reduceIte,
      reduceCtorEq]
  · rw [segment_append]
    refine ⟨?_, hprevn, ?_, ?_⟩
    · -- before `n`, only the last successor is new
      have hkeep : Segment prev' next null xs (ys.headD null) := by
        refine hxs.congr (fun a ha => hprev a (by simp [ha]) ?_) fun _ _ => rfl
        rintro rfl
        cases ys with
        | nil => exact hnotnull (List.mem_append_left _ ha)
        | cons b ys => exact hdisj _ ha (by simp)
      exact hkeep.set_next hnodup_xs (fun a ha => hnext a (by simp [ha])) hbefore
    · rw [hnextn]
    · -- behind `n`, only the first predecessor is new
      have hkeep : Segment prev next' (xs.getLastD null) ys null := by
        refine hys.congr (fun _ _ => rfl) fun a ha => hnext a (by simp [ha]) ?_
        rintro rfl
        by_cases hne : xs = []
        · subst hne
          exact hnotnull (by simpa using ha)
        · exact hdisj _ (getLastD_mem hne null) ha
      exact hkeep.set_prev hnodup_ys (fun a ha => hprev a (by simp [ha])) hafter

/-- Unlinking `n`. -/
theorem Holds.remove {prev' next' : α → α} {head' tail' n : α} {xs ys : List α}
    (h : Holds prev next null head tail (xs ++ n :: ys))
    (hprev : ∀ a ∈ xs ++ ys, a ≠ ys.headD null → prev' a = prev a)
    (hnext : ∀ a ∈ xs ++ ys, a ≠ xs.getLastD null → next' a = next a)
    (hbefore : xs ≠ [] → next' (xs.getLastD null) = ys.headD null)
    (hafter : ys ≠ [] → prev' (ys.headD null) = xs.getLastD null)
    (hhead : head' = if xs = [] then ys.headD null else head)
    (htail : tail' = if ys = [] then xs.getLastD null else tail) :
    Holds prev' next' null head' tail' (xs ++ ys) := by
  obtain ⟨hnodup, hnotnull, rfl, rfl, hseg⟩ := h
  obtain ⟨hxs, -, -, hys⟩ := segment_append.1 hseg
  have hnodup' : (xs ++ ys).Nodup := (List.nodup_cons.1 (List.nodup_middle.1 hnodup)).2
  have hnotnull' : null ∉ xs ++ ys := by
    simp only [List.mem_append, List.mem_cons, not_or] at hnotnull ⊢
    exact ⟨hnotnull.1, hnotnull.2.2⟩
  have hdisj : ∀ a ∈ xs, a ∉ ys := fun a ha hay => List.disjoint_of_nodup_append hnodup' ha hay
  refine ⟨hnodup', hnotnull', ?_, ?_, ?_⟩
  · rw [hhead]
    cases xs <;> simp
  · rw [htail]
    cases ys <;> simp only [getLastD_append, List.getLastD_cons, List.getLastD_nil, ↓reduceIte,
      reduceCtorEq]
  · rw [segment_append]
    constructor
    · have hkeep : Segment prev' next null xs n := by
        refine hxs.congr (fun a ha => hprev a (by simp [ha]) ?_) fun _ _ => rfl
        rintro rfl
        cases ys with
        | nil => exact hnotnull' (List.mem_append_left _ ha)
        | cons b ys => exact hdisj _ ha (by simp)
      exact hkeep.set_next hnodup'.of_append_left (fun a ha => hnext a (by simp [ha])) hbefore
    · have hkeep : Segment prev next' n ys null := by
        refine hys.congr (fun _ _ => rfl) fun a ha => hnext a (by simp [ha]) ?_
        rintro rfl
        by_cases hne : xs = []
        · subst hne
          exact hnotnull' (by simpa using ha)
        · exact hdisj _ (getLastD_mem hne null) ha
      exact hkeep.set_prev hnodup'.of_append_right (fun a ha => hprev a (by simp [ha])) hafter

end

end LinkedList
