import Mathlib.Data.Finset.Card
import XrLinux.Lib.LinkedList

/-!
# Bootloader — `list.h`

The intrusive lists of `src/bootloader/list.h`. A node is a pointer, 0 for `nullptr`, and its two
fields live in whatever store the lists are kept in: `NodeStore` is the four accesses to them.
The store is `Lawful` on a set of nodes when the fields of different nodes of the set do not
overlap; on lawful nodes the three operations do to the represented list what their names say.
-/

namespace XrLinux.Bootloader

open LinkedList

/-- How the bootloader stops: in `BlCrash` with its message, or in a loop that has no end. -/
inductive Stop where
  | crash (message : String)
  | diverges
  deriving DecidableEq, Repr

structure BlList where
  head : Nat
  tail : Nat
  deriving DecidableEq, Repr

/-- `BlListInit`. -/
def BlList.init : BlList := { head := 0, tail := 0 }

/-- The fields of `struct BlListNode`, in a store. -/
structure NodeStore (σ : Type*) where
  prev : σ → Nat → Nat
  next : σ → Nat → Nat
  setPrev : σ → Nat → Nat → σ
  setNext : σ → Nat → Nat → σ

section
variable {σ : Type*} (acc : NodeStore σ)

def blListInsertBefore (s : σ) (list : BlList) (anchor node : Nat) : σ × BlList :=
  let s := acc.setNext s node anchor
  let (s, list) :=
    if anchor ≠ 0 then
      let s := acc.setPrev s node (acc.prev s anchor)
      (acc.setPrev s anchor node, list)
    else (acc.setPrev s node list.tail, { list with tail := node })
  if acc.prev s node ≠ 0 then (acc.setNext s (acc.prev s node) node, list)
  else (s, { list with head := node })

def blListInsertAfter (s : σ) (list : BlList) (anchor node : Nat) : σ × BlList :=
  let s := acc.setPrev s node anchor
  let (s, list) :=
    if anchor ≠ 0 then
      let s := acc.setNext s node (acc.next s anchor)
      (acc.setNext s anchor node, list)
    else (acc.setNext s node list.head, { list with head := node })
  if acc.next s node ≠ 0 then (acc.setPrev s (acc.next s node) node, list)
  else (s, { list with tail := node })

def blListRemove (s : σ) (list : BlList) (node : Nat) : σ × BlList :=
  let (s, list) :=
    if acc.prev s node ≠ 0 then (acc.setNext s (acc.prev s node) (acc.next s node), list)
    else (s, { list with head := acc.next s node })
  if acc.next s node ≠ 0 then (acc.setPrev s (acc.next s node) (acc.prev s node), list)
  else (s, { list with tail := acc.prev s node })

/-- `BL_CONTAINER`, for a node at `offset` in its object. -/
def container (offset p : Nat) : Nat := if p ≠ 0 then p - offset else 0

/-- `BL_LIST_FOREACH` from the object `var` on, for `fuel` rounds at most: the body leaves the loop
or goes on, with what it has found so far. -/
def foreach {β : Type*} (next : Nat → Nat) (body : Nat → β → ForInStep β) :
    Nat → Nat → β → Except Stop β
  | 0, _, _ => .error .diverges
  | fuel + 1, var, found =>
    if var ≠ 0 then
      match body var found with
      | .done found => .ok found
      | .yield found => foreach next body fuel (next var) found
    else .ok found

/-- More rounds than a list can have nodes. -/
def rounds : Nat := 4294967296

/-- The fields of the nodes in `N` are separate, and can hold pointers to them. -/
structure NodeStore.Lawful (N : Nat → Prop) : Prop where
  prev_setPrev : ∀ s a b v, N a → N b → N v ∨ v = 0 →
    acc.prev (acc.setPrev s a v) b = if b = a then v else acc.prev s b
  next_setPrev : ∀ s a b v, N a → N b → acc.next (acc.setPrev s a v) b = acc.next s b
  next_setNext : ∀ s a b v, N a → N b → N v ∨ v = 0 →
    acc.next (acc.setNext s a v) b = if b = a then v else acc.next s b
  prev_setNext : ∀ s a b v, N a → N b → acc.prev (acc.setNext s a v) b = acc.prev s b

/-- The list in the store is `nodes`. -/
def Lists (s : σ) (list : BlList) (nodes : List Nat) : Prop :=
  Holds (acc.prev s) (acc.next s) 0 list.head list.tail nodes

end

section
variable {σ : Type*} {acc : NodeStore σ} {s : σ} {list : BlList}

theorem lists_init (s : σ) : Lists acc s .init [] := Holds.empty

theorem Lists.prev_eq {xs ys : List Nat} {n : Nat} (h : Lists acc s list (xs ++ n :: ys)) :
    acc.prev s n = xs.getLastD 0 := (Holds.links h).1

theorem Lists.next_eq {xs ys : List Nat} {n : Nat} (h : Lists acc s list (xs ++ n :: ys)) :
    acc.next s n = ys.headD 0 := (Holds.links h).2

theorem Lists.pos {nodes : List Nat} (h : Lists acc s list nodes) {n : Nat} (hn : n ∈ nodes) :
    n ≠ 0 := fun h0 => h.null_notMem (h0 ▸ hn)

theorem Lists.ne_zero_iff {xs ys : List Nat} (h : Lists acc s list (xs ++ ys)) :
    (xs.getLastD 0 ≠ 0 ↔ xs ≠ []) ∧ (ys.headD 0 ≠ 0 ↔ ys ≠ []) := by
  constructor
  · constructor
    · rintro hne rfl
      exact hne rfl
    · exact fun hne => h.pos (List.mem_append_left _ (getLastD_mem hne 0))
  · cases ys with
    | nil => simp
    | cons b ys => simpa using h.pos (n := b) (by simp)

theorem Lists.ends_ne_zero {xs ys : List Nat} {n : Nat} (h : Lists acc s list (xs ++ n :: ys)) :
    (xs.getLastD 0 ≠ 0 ↔ xs ≠ []) ∧ (ys.headD 0 ≠ 0 ↔ ys ≠ []) := by
  have h' : Lists acc s list ((xs ++ [n]) ++ ys) := by simpa using h
  exact ⟨h.ne_zero_iff.1, h'.ne_zero_iff.2⟩

/-- A list depends on the links of its nodes only. -/
theorem Lists.congr {nodes : List Nat} (h : Lists acc s list nodes) {τ : Type*}
    {acc' : NodeStore τ} {t : τ} (hprev : ∀ a ∈ nodes, acc'.prev t a = acc.prev s a)
    (hnext : ∀ a ∈ nodes, acc'.next t a = acc.next s a) : Lists acc' t list nodes :=
  Holds.congr h hprev hnext

/-- `n` has come between `p` and `q`, where 0 stands for no neighbour. -/
structure Linked (acc : NodeStore σ) (N : Nat → Prop) (s s' : σ) (p q n : Nat) : Prop where
  next_eq : ∀ b, N b → b ≠ 0 →
    acc.next s' b = if b = n then q else if b = p then n else acc.next s b
  prev_eq : ∀ b, N b → b ≠ 0 →
    acc.prev s' b = if b = n then p else if b = q then n else acc.prev s b

/-- `p` and `q` have become neighbours. -/
structure Unlinked (acc : NodeStore σ) (N : Nat → Prop) (s s' : σ) (p q : Nat) : Prop where
  next_eq : ∀ b, N b → b ≠ 0 → acc.next s' b = if b = p then q else acc.next s b
  prev_eq : ∀ b, N b → b ≠ 0 → acc.prev s' b = if b = q then p else acc.prev s b

/-! In each of these the neighbours are there or not; then every store is to a known node, and the
laws of the store say what is read back. -/

section
variable {N : Nat → Prop} (hlaw : acc.Lawful N) {p q n : Nat} (hn : N n) (hp : p ≠ 0 → N p)
  (hq : q ≠ 0 → N q)
include hlaw hn hp hq

theorem blListInsertAfter_linked (hpn : p ≠ n) (hqn : q ≠ n)
    (hpq : q = if p ≠ 0 then acc.next s p else list.head) :
    Linked acc N s (blListInsertAfter acc s list p n).1 p q n := by
  obtain ⟨hpp, hnp, hnn, hpn'⟩ := hlaw
  by_cases hp0 : p = 0 <;> by_cases hq0 : q = 0 <;>
    simp only [hp0, hq0, ne_eq, not_true_eq_false, not_false_eq_true, if_true, if_false,
      forall_const] at hp hq hpq <;>
    refine ⟨fun b hb hb0 => ?_, fun b hb hb0 => ?_⟩ <;>
    simp [blListInsertAfter, hpp, hnp, hnn, hpn', hn, hb, hp, hq, hp0, hq0, ← hpq, hpn.symm] <;>
    grind

theorem blListInsertAfter_ends (hpn : p ≠ n)
    (hpq : q = if p ≠ 0 then acc.next s p else list.head) :
    (blListInsertAfter acc s list p n).2 =
      { head := if p ≠ 0 then list.head else n, tail := if q ≠ 0 then list.tail else n } := by
  obtain ⟨-, hnp, hnn, -⟩ := hlaw
  by_cases hp0 : p = 0 <;> by_cases hq0 : q = 0 <;>
    simp only [hp0, hq0, ne_eq, not_true_eq_false, not_false_eq_true, if_true, if_false,
      forall_const] at hp hq hpq <;>
    simp [blListInsertAfter, hnp, hnn, hn, hp, hq, hp0, hq0, ← hpq, hpn.symm]

theorem blListInsertBefore_linked (hpn : p ≠ n) (hqn : q ≠ n)
    (hpq : p = if q ≠ 0 then acc.prev s q else list.tail) :
    Linked acc N s (blListInsertBefore acc s list q n).1 p q n := by
  obtain ⟨hpp, hnp, hnn, hpn'⟩ := hlaw
  by_cases hp0 : p = 0 <;> by_cases hq0 : q = 0 <;>
    simp only [hp0, hq0, ne_eq, not_true_eq_false, not_false_eq_true, if_true, if_false,
      forall_const] at hp hq hpq <;>
    refine ⟨fun b hb hb0 => ?_, fun b hb hb0 => ?_⟩ <;>
    simp [blListInsertBefore, hpp, hnp, hnn, hpn', hn, hb, hp, hq, hp0, hq0, ← hpq, hqn.symm] <;>
    grind

theorem blListInsertBefore_ends (hqn : q ≠ n)
    (hpq : p = if q ≠ 0 then acc.prev s q else list.tail) :
    (blListInsertBefore acc s list q n).2 =
      { head := if p ≠ 0 then list.head else n, tail := if q ≠ 0 then list.tail else n } := by
  obtain ⟨hpp, -, -, hpn'⟩ := hlaw
  by_cases hp0 : p = 0 <;> by_cases hq0 : q = 0 <;>
    simp only [hp0, hq0, ne_eq, not_true_eq_false, not_false_eq_true, if_true, if_false,
      forall_const] at hp hq hpq <;>
    simp [blListInsertBefore, hpp, hpn', hn, hp, hq, hp0, hq0, ← hpq, hqn.symm]

theorem blListRemove_unlinked (hpn : p ≠ n) (hprev : p = acc.prev s n)
    (hnext : q = acc.next s n) : Unlinked acc N s (blListRemove acc s list n).1 p q := by
  obtain ⟨hpp, hnp, hnn, hpn'⟩ := hlaw
  by_cases hp0 : p = 0 <;> by_cases hq0 : q = 0 <;>
    simp only [hp0, hq0, ne_eq, not_true_eq_false, not_false_eq_true,
      forall_const] at hp hq hprev hnext <;>
    refine ⟨fun b hb hb0 => ?_, fun b hb hb0 => ?_⟩ <;>
    simp [blListRemove, hpp, hnp, hnn, hpn', hn, hb, hp, hq, hp0, hq0, ← hprev, ← hnext,
      hpn.symm] <;>
    grind

theorem blListRemove_ends (hpn : p ≠ n) (hprev : p = acc.prev s n) (hnext : q = acc.next s n) :
    (blListRemove acc s list n).2 =
      { head := if p ≠ 0 then list.head else q, tail := if q ≠ 0 then list.tail else p } := by
  obtain ⟨-, -, hnn, hpn'⟩ := hlaw
  by_cases hp0 : p = 0 <;> by_cases hq0 : q = 0 <;>
    simp only [hp0, hq0, ne_eq, not_true_eq_false, not_false_eq_true,
      forall_const] at hp hq hprev hnext <;>
    simp [blListRemove, hnn, hpn', hn, hp, hq, hp0, hq0, ← hprev, ← hnext, hpn.symm]

/-- What each store to a known node keeps, the operations keep. -/
theorem blListInsertAfter_frame {R : σ → σ → Prop} (htrans : ∀ s t u, R s t → R t u → R s u)
    (hprev : ∀ s b v, N b → R s (acc.setPrev s b v))
    (hnext : ∀ s b v, N b → R s (acc.setNext s b v)) (hpn : p ≠ n)
    (hpq : q = if p ≠ 0 then acc.next s p else list.head) :
    R s (blListInsertAfter acc s list p n).1 := by
  obtain ⟨-, hnp, hnn, -⟩ := hlaw
  by_cases hp0 : p = 0 <;> by_cases hq0 : q = 0 <;>
    simp only [hp0, hq0, ne_eq, not_true_eq_false, not_false_eq_true, if_true, if_false,
      forall_const] at hp hq hpq <;>
    simp [blListInsertAfter, hnp, hnn, hn, hp, hq, hp0, hq0, ← hpq, hpn.symm] <;>
    grind

theorem blListRemove_frame {R : σ → σ → Prop} (hR : ∀ s, R s s)
    (htrans : ∀ s t u, R s t → R t u → R s u) (hsetPrev : ∀ s b v, N b → R s (acc.setPrev s b v))
    (hsetNext : ∀ s b v, N b → R s (acc.setNext s b v)) (hpn : p ≠ n)
    (hprev : p = acc.prev s n) (hnext : q = acc.next s n) :
    R s (blListRemove acc s list n).1 := by
  obtain ⟨-, -, hnn, hpn'⟩ := hlaw
  by_cases hp0 : p = 0 <;> by_cases hq0 : q = 0 <;>
    simp only [hp0, hq0, ne_eq, not_true_eq_false, not_false_eq_true,
      forall_const] at hp hq hprev hnext <;>
    simp [blListRemove, hnn, hpn', hn, hp, hq, hp0, hq0, ← hprev, ← hnext, hpn.symm] <;>
    grind

end

/-! ### The operations on lists -/

section
variable {xs ys : List Nat} {n : Nat} {N : Nat → Prop}

theorem Linked.lists {s' : σ} {ends : BlList} (h : Lists acc s list (xs ++ ys))
    (hlink : Linked acc N s s' (xs.getLastD 0) (ys.headD 0) n)
    (hends : ends = { head := if xs.getLastD 0 ≠ 0 then list.head else n,
                      tail := if ys.headD 0 ≠ 0 then list.tail else n })
    (hN : ∀ a ∈ n :: (xs ++ ys), N a) (hn0 : n ≠ 0) (hn : n ∉ xs ++ ys) :
    Lists acc s' ends (xs ++ n :: ys) := by
  obtain ⟨hlast, hhead⟩ := h.ne_zero_iff
  have hne : ∀ a ∈ xs ++ ys, a ≠ n := by
    rintro a ha rfl
    exact hn ha
  have hold : ∀ a ∈ xs ++ ys, N a ∧ a ≠ 0 := fun a ha => ⟨hN a (by simp_all), h.pos ha⟩
  have hNn : N n := hN n (by simp)
  refine Holds.insert h hn0 hn ?_ ?_ ?_ ?_ ?_ ?_ ?_ ?_
  · intro a ha hah
    rw [hlink.prev_eq a (hold a ha).1 (hold a ha).2, if_neg (hne a ha), if_neg hah]
  · intro a ha hal
    rw [hlink.next_eq a (hold a ha).1 (hold a ha).2, if_neg (hne a ha), if_neg hal]
  · rw [hlink.prev_eq n hNn hn0, if_pos rfl]
  · rw [hlink.next_eq n hNn hn0, if_pos rfl]
  · intro hxs
    have hmem : xs.getLastD 0 ∈ xs ++ ys := List.mem_append_left _ (getLastD_mem hxs 0)
    rw [hlink.next_eq _ (hold _ hmem).1 (hold _ hmem).2, if_neg (hne _ hmem), if_pos rfl]
  · intro hys
    have hmem : ys.headD 0 ∈ xs ++ ys := List.mem_append_right _ (headD_mem hys 0)
    rw [hlink.prev_eq _ (hold _ hmem).1 (hold _ hmem).2, if_neg (hne _ hmem), if_pos rfl]
  · rw [hends]
    by_cases hxs : xs = [] <;> simp_all
  · rw [hends]
    by_cases hys : ys = [] <;> simp_all

theorem Unlinked.lists {s' : σ} {ends : BlList} (h : Lists acc s list (xs ++ n :: ys))
    (hlink : Unlinked acc N s s' (xs.getLastD 0) (ys.headD 0))
    (hends : ends = { head := if xs.getLastD 0 ≠ 0 then list.head else ys.headD 0,
                      tail := if ys.headD 0 ≠ 0 then list.tail else xs.getLastD 0 })
    (hN : ∀ a ∈ n :: (xs ++ ys), N a) : Lists acc s' ends (xs ++ ys) := by
  obtain ⟨hlast, hhead⟩ := h.ends_ne_zero
  have hold : ∀ a ∈ xs ++ ys, N a ∧ a ≠ 0 := by
    intro a ha
    refine ⟨hN a (by simp_all), h.pos ?_⟩
    rcases List.mem_append.1 ha with ha | ha <;> simp [ha]
  refine Holds.remove h ?_ ?_ ?_ ?_ ?_ ?_
  · intro a ha hah
    rw [hlink.prev_eq a (hold a ha).1 (hold a ha).2, if_neg hah]
  · intro a ha hal
    rw [hlink.next_eq a (hold a ha).1 (hold a ha).2, if_neg hal]
  · intro hxs
    have hmem : xs.getLastD 0 ∈ xs ++ ys := List.mem_append_left _ (getLastD_mem hxs 0)
    rw [hlink.next_eq _ (hold _ hmem).1 (hold _ hmem).2, if_pos rfl]
  · intro hys
    have hmem : ys.headD 0 ∈ xs ++ ys := List.mem_append_right _ (headD_mem hys 0)
    rw [hlink.prev_eq _ (hold _ hmem).1 (hold _ hmem).2, if_pos rfl]
  · rw [hends]
    by_cases hxs : xs = [] <;> simp_all
  · rw [hends]
    by_cases hys : ys = [] <;> simp_all

/-- What lies behind the last of `xs`. -/
theorem Lists.headD_eq (h : Lists acc s list (xs ++ ys)) :
    ys.headD 0 = if xs.getLastD 0 ≠ 0 then acc.next s (xs.getLastD 0) else list.head := by
  rcases List.eq_nil_or_concat xs with rfl | ⟨xs', a, rfl⟩
  · have hhead : list.head = ys.headD 0 := Holds.head_eq h
    simp [hhead]
  · have ha : a ≠ 0 := h.pos (by simp)
    have h' : Lists acc s list (xs' ++ a :: ys) := by simpa using h
    rw [List.concat_eq_append, getLastD_append, List.getLastD_cons, List.getLastD_nil, if_pos ha,
      h'.next_eq]

/-- What lies before the first of `ys`. -/
theorem Lists.getLastD_eq (h : Lists acc s list (xs ++ ys)) :
    xs.getLastD 0 = if ys.headD 0 ≠ 0 then acc.prev s (ys.headD 0) else list.tail := by
  cases ys with
  | nil =>
    have htail : list.tail = (xs ++ []).getLastD 0 := Holds.tail_eq h
    simpa using htail.symm
  | cons b ys =>
    have hb : b ≠ 0 := h.pos (by simp)
    rw [List.headD_cons, if_pos hb, h.prev_eq]

theorem neighbours_of_notMem (hN : ∀ a ∈ n :: (xs ++ ys), N a) (hn0 : n ≠ 0)
    (hn : n ∉ xs ++ ys) :
    (xs.getLastD 0 ≠ 0 → N (xs.getLastD 0)) ∧ (ys.headD 0 ≠ 0 → N (ys.headD 0)) ∧
      xs.getLastD 0 ≠ n ∧ ys.headD 0 ≠ n := by
  have hlast : xs.getLastD 0 = 0 ∨ xs.getLastD 0 ∈ xs ++ ys := by
    by_cases hxs : xs = []
    · exact .inl (by rw [hxs]; rfl)
    · exact .inr (List.mem_append_left _ (getLastD_mem hxs 0))
  have hhead : ys.headD 0 = 0 ∨ ys.headD 0 ∈ xs ++ ys := by
    by_cases hys : ys = []
    · exact .inl (by rw [hys]; rfl)
    · exact .inr (List.mem_append_right _ (headD_mem hys 0))
  refine ⟨fun h0 => hN _ ?_, fun h0 => hN _ ?_, ?_, ?_⟩
  · exact List.mem_cons_of_mem _ (hlast.resolve_left h0)
  · exact List.mem_cons_of_mem _ (hhead.resolve_left h0)
  · rcases hlast with h0 | hmem
    · exact fun heq => hn0 (heq ▸ h0)
    · exact fun heq => hn (heq ▸ hmem)
  · rcases hhead with h0 | hmem
    · exact fun heq => hn0 (heq ▸ h0)
    · exact fun heq => hn (heq ▸ hmem)

theorem Lists.neighbours_of_mem (h : Lists acc s list (xs ++ n :: ys))
    (hN : ∀ a ∈ n :: (xs ++ ys), N a) :
    (xs.getLastD 0 ≠ 0 → N (xs.getLastD 0)) ∧ (ys.headD 0 ≠ 0 → N (ys.headD 0)) ∧
      xs.getLastD 0 ≠ n := by
  obtain ⟨hlast, hhead⟩ := h.ends_ne_zero
  refine ⟨fun h0 => hN _ ?_, fun h0 => hN _ ?_, ?_⟩
  · exact List.mem_cons_of_mem _ (List.mem_append_left _ (getLastD_mem (hlast.1 h0) 0))
  · exact List.mem_cons_of_mem _ (List.mem_append_right _ (headD_mem (hhead.1 h0) 0))
  · by_cases hxs : xs = []
    · rw [hxs]
      exact (h.pos (by simp)).symm
    · -- `n` is not among the nodes before it
      rintro rfl
      have hnodup := List.nodup_middle.1 (Holds.nodup h)
      exact (List.nodup_cons.1 hnodup).1 (List.mem_append_left _ (getLastD_mem hxs 0))

section
variable (hlaw : acc.Lawful N) (hN : ∀ a ∈ n :: (xs ++ ys), N a)
include hlaw hN

theorem Lists.insertAfter (h : Lists acc s list (xs ++ ys)) (hn0 : n ≠ 0) (hn : n ∉ xs ++ ys) :
    Lists acc (blListInsertAfter acc s list (xs.getLastD 0) n).1
      (blListInsertAfter acc s list (xs.getLastD 0) n).2 (xs ++ n :: ys) := by
  obtain ⟨hp, hq, hpn, hqn⟩ := neighbours_of_notMem hN hn0 hn
  exact (blListInsertAfter_linked hlaw (hN n (by simp)) hp hq hpn hqn h.headD_eq).lists h
    (blListInsertAfter_ends hlaw (hN n (by simp)) hp hq hpn h.headD_eq) hN hn0 hn

theorem Lists.insertBefore (h : Lists acc s list (xs ++ ys)) (hn0 : n ≠ 0) (hn : n ∉ xs ++ ys) :
    Lists acc (blListInsertBefore acc s list (ys.headD 0) n).1
      (blListInsertBefore acc s list (ys.headD 0) n).2 (xs ++ n :: ys) := by
  obtain ⟨hp, hq, hpn, hqn⟩ := neighbours_of_notMem hN hn0 hn
  exact (blListInsertBefore_linked hlaw (hN n (by simp)) hp hq hpn hqn h.getLastD_eq).lists h
    (blListInsertBefore_ends hlaw (hN n (by simp)) hp hq hqn h.getLastD_eq) hN hn0 hn

theorem Lists.remove (h : Lists acc s list (xs ++ n :: ys)) :
    Lists acc (blListRemove acc s list n).1 (blListRemove acc s list n).2 (xs ++ ys) := by
  obtain ⟨hp, hq, hpn⟩ := h.neighbours_of_mem hN
  exact (blListRemove_unlinked hlaw (hN n (by simp)) hp hq hpn h.prev_eq.symm h.next_eq.symm).lists
    h (blListRemove_ends hlaw (hN n (by simp)) hp hq hpn h.prev_eq.symm h.next_eq.symm) hN

/-! A relation on stores that every store to a known node keeps is kept by the operations. -/

variable {R : σ → σ → Prop} (htrans : ∀ s t u, R s t → R t u → R s u)
  (hprev : ∀ s b v, N b → R s (acc.setPrev s b v)) (hnext : ∀ s b v, N b → R s (acc.setNext s b v))
include htrans hprev hnext

theorem Lists.insertAfter_frame (h : Lists acc s list (xs ++ ys)) (hn0 : n ≠ 0)
    (hn : n ∉ xs ++ ys) : R s (blListInsertAfter acc s list (xs.getLastD 0) n).1 := by
  obtain ⟨hp, hq, hpn, -⟩ := neighbours_of_notMem hN hn0 hn
  exact blListInsertAfter_frame hlaw (hN n (by simp)) hp hq htrans hprev hnext hpn h.headD_eq

theorem Lists.remove_frame (hrefl : ∀ s, R s s) (h : Lists acc s list (xs ++ n :: ys)) :
    R s (blListRemove acc s list n).1 := by
  obtain ⟨hp, hq, hpn⟩ := h.neighbours_of_mem hN
  exact blListRemove_frame hlaw (hN n (by simp)) hp hq hrefl htrans hprev hnext hpn
    h.prev_eq.symm h.next_eq.symm

end

section
variable (hlaw : acc.Lawful N) (hN : ∀ a ∈ n :: xs, N a)
include hlaw hN

theorem Lists.insertFront (h : Lists acc s list xs) (hn0 : n ≠ 0) (hn : n ∉ xs) :
    Lists acc (blListInsertAfter acc s list 0 n).1 (blListInsertAfter acc s list 0 n).2 (n :: xs) :=
  @Lists.insertAfter σ acc s list [] xs n N hlaw hN h hn0 hn

theorem Lists.insertFront_frame {R : σ → σ → Prop} (htrans : ∀ s t u, R s t → R t u → R s u)
    (hprev : ∀ s b v, N b → R s (acc.setPrev s b v))
    (hnext : ∀ s b v, N b → R s (acc.setNext s b v)) (h : Lists acc s list xs) (hn0 : n ≠ 0)
    (hn : n ∉ xs) : R s (blListInsertAfter acc s list 0 n).1 :=
  @Lists.insertAfter_frame σ acc s list [] xs n N hlaw hN R htrans hprev hnext h hn0 hn

end
end
end

/-! ### The loop -/

/-- The loop over the objects `vars`. -/
def foreachList {β : Type*} (body : Nat → β → ForInStep β) : List Nat → β → β
  | [], found => found
  | var :: vars, found =>
    match body var found with
    | .done found => found
    | .yield found => foreachList body vars found

section
variable {β : Type*} {next : Nat → Nat} {body : Nat → β → ForInStep β}

theorem foreach_eq {vars : List Nat} {fuel : Nat} (found : β) (hpos : ∀ v ∈ vars, v ≠ 0)
    (hnext : ∀ before var after, vars = before ++ var :: after → next var = after.headD 0)
    (hfuel : vars.length < fuel) :
    foreach next body fuel (vars.headD 0) found = .ok (foreachList body vars found) := by
  induction vars generalizing fuel found with
  | nil =>
    obtain ⟨fuel, rfl⟩ := Nat.exists_eq_add_of_le' (show 1 ≤ fuel by rw [List.length_nil] at hfuel; omega)
    simp [foreach, foreachList]
  | cons var vars ih =>
    obtain ⟨fuel, rfl⟩ := Nat.exists_eq_add_of_le' (show 1 ≤ fuel by omega)
    have hvar : var ≠ 0 := hpos var (by simp)
    simp only [foreach, foreachList, List.headD_cons, ne_eq, hvar, not_false_eq_true, if_true]
    cases body var found with
    | done found => rfl
    | yield found =>
      show foreach next body fuel (next var) found = _
      rw [hnext [] var vars rfl]
      refine ih found (fun v hv => hpos v (by simp [hv])) (fun before v after heq => ?_)
        (by simpa using hfuel)
      exact hnext (var :: before) v after (by rw [heq]; rfl)

theorem foreachList_find (p : Nat → Bool) (vars : List Nat) :
    foreachList (fun var found => if p var then .done (some var) else .yield found) vars none =
      vars.find? p := by
  induction vars with
  | nil => rfl
  | cons var vars ih =>
    simp only [foreachList, List.find?_cons]
    cases p var with
    | true => rfl
    | false => exact ih

/-- Distinct objects in the address space are fewer than the rounds. -/
theorem length_lt_rounds {vars : List Nat} (hnodup : vars.Nodup)
    (hvars : ∀ v ∈ vars, v ≠ 0 ∧ v < 4294967296) : vars.length < rounds := by
  have hsub : (0 :: vars).toFinset ⊆ Finset.range rounds := by
    intro v hv
    rw [List.mem_toFinset, List.mem_cons] at hv
    rw [Finset.mem_range]
    rcases hv with rfl | hv
    · decide
    · exact (hvars v hv).2
  have hnodup' : (0 :: vars).Nodup := List.nodup_cons.2 ⟨fun h0 => (hvars 0 h0).1 rfl, hnodup⟩
  have hcard := Finset.card_le_card hsub
  rw [List.toFinset_card_of_nodup hnodup', Finset.card_range, List.length_cons] at hcard
  omega

end

end XrLinux.Bootloader
