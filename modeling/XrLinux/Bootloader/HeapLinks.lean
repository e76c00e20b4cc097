import XrLinux.Bootloader.Memory

/-!
# Bootloader — the headers of the heap

What the list operations of `memory.c` do when the headers they link do not overlap. `Rep` says
which ranges the two lists hold, and that their headers are among headers `B` that lie apart;
`KeepsBut` bounds what an operation writes. Each operation then changes one list and neither the
other list nor the `End` and `Free` fields.
-/

namespace XrLinux.Bootloader

open ByteMemory LinkedList

/-- Headers at these addresses are whole and do not overlap. -/
def Apart (B : List Nat) : Prop :=
  ∀ a ∈ B, (a ≠ 0 ∧ a + 24 ≤ 4294967296) ∧ ∀ b ∈ B, a = b ∨ a + 24 ≤ b ∨ b + 24 ≤ a

/-- The memories differ at most in the `len` bytes at `off` of the headers at `B`. -/
def KeepsBut (off len : Nat) (B : List Nat) (m m' : ByteMemory) : Prop :=
  ∀ x, (∀ b ∈ B, x < b + off ∨ b + off + len ≤ x) → m' x = m x

theorem Apart.mono {B C : List Nat} (h : Apart B) (hsub : ∀ c ∈ C, c ∈ B) : Apart C :=
  fun a ha => ⟨(h a (hsub a ha)).1, fun b hb => (h a (hsub a ha)).2 b (hsub b hb)⟩

theorem Apart.cons {B : List Nat} {n : Nat} (h : Apart B) (hn : n ≠ 0 ∧ n + 24 ≤ 4294967296)
    (hsep : ∀ b ∈ B, n + 24 ≤ b ∨ b + 24 ≤ n) : Apart (n :: B) := by
  intro a ha
  rcases List.mem_cons.1 ha with rfl | ha
  · exact ⟨hn, List.forall_mem_cons.2 ⟨.inl rfl, fun b hb => .inr (hsep b hb)⟩⟩
  · refine ⟨(h a ha).1, List.forall_mem_cons.2 ⟨.inr ?_, (h a ha).2⟩⟩
    have := hsep a ha
    omega

namespace KeepsBut

variable {off len : Nat} {B : List Nat} {m m' m'' : ByteMemory}

theorem refl (m : ByteMemory) : KeepsBut off len B m m := fun _ _ => rfl

theorem trans (h : KeepsBut off len B m m') (h' : KeepsBut off len B m' m'') :
    KeepsBut off len B m m'' :=
  fun x hx => (h' x hx).trans (h x hx)

theorem mono {off' len' : Nat} (h : KeepsBut off len B m m') (hlo : off' ≤ off)
    (hhi : off + len ≤ off' + len') : KeepsBut off' len' B m m' := by
  intro x hx
  refine h x fun b hb => ?_
  have := hx b hb
  omega

theorem more {C : List Nat} (h : KeepsBut off len B m m') (hsub : ∀ b ∈ B, b ∈ C) :
    KeepsBut off len C m m' :=
  fun x hx => h x fun b hb => hx b (hsub b hb)

theorem write32 (m : ByteMemory) (v : Nat) {b o : Nat} (hb : b ∈ B) (hlo : off ≤ o)
    (hhi : o + 4 ≤ off + len) : KeepsBut off len B m (m.write32 (b + o) v) := by
  intro x hx
  have := hx b hb
  exact write32_of_not_mem m v (by omega)

theorem write8 (m : ByteMemory) (v : BitVec 8) {b o : Nat} (hb : b ∈ B) (hlo : off ≤ o)
    (hhi : o + 1 ≤ off + len) : KeepsBut off len B m (m.write8 (b + o) v) := by
  intro x hx
  have := hx b hb
  exact write8_of_ne m v (by omega)

/-- The other fields of the headers are the same. -/
theorem sameOn (h : KeepsBut off len B m m') (hB : Apart B) {b f k : Nat} (hb : b ∈ B)
    (hfield : f + k ≤ off ∨ off + len ≤ f) (hf : f + k ≤ 24) (hoff : off + len ≤ 24) :
    SameOn m m' (b + f) k := by
  intro x hlo hhi
  refine h x fun c hc => ?_
  -- in the header of `b` it is another field, the other headers are elsewhere
  rcases (hB b hb).2 c hc with rfl | hlt | hlt <;> omega

end KeepsBut

/-- The links at `off` of headers that lie apart. -/
theorem memNode_lawful {B : List Nat} (hB : Apart B) {off : Nat} (hoff : off + 8 ≤ 24) :
    memNode.Lawful (· ∈ B.map (· + off)) := by
  have hsep : ∀ {a b}, a ∈ B.map (· + off) → b ∈ B.map (· + off) →
      a = b ∨ a + 8 ≤ b ∨ b + 8 ≤ a := by
    simp only [List.mem_map]
    rintro _ _ ⟨a, ha, rfl⟩ ⟨b, hb, rfl⟩
    have := (hB a ha).2 b hb
    omega
  have hlt : ∀ {v}, v ∈ B.map (· + off) ∨ v = 0 → v < 4294967296 := by
    rintro v (hv | rfl)
    · obtain ⟨b, hb, rfl⟩ := List.mem_map.1 hv
      have := (hB b hb).1
      omega
    · decide
  -- a link is read as stored, and is not in another link's bytes
  constructor
  · intro m a b v ha hb hv
    show (m.write32 a v).read32 b = if b = a then v else m.read32 b
    split
    · subst b
      exact read32_write32_self m a (hlt hv)
    · exact (sameOn_write32 m v (by rcases hsep ha hb with h | h | h <;> omega)).read32
  · intro m a b v ha hb
    show (m.write32 a v).read32 (b + 4) = m.read32 (b + 4)
    exact (sameOn_write32 m v (by rcases hsep ha hb with h | h | h <;> omega)).read32
  · intro m a b v ha hb hv
    show (m.write32 (a + 4) v).read32 (b + 4) = if b = a then v else m.read32 (b + 4)
    split
    · subst b
      exact read32_write32_self m (a + 4) (hlt hv)
    · exact (sameOn_write32 m v (by rcases hsep ha hb with h | h | h <;> omega)).read32
  · intro m a b v ha hb
    show (m.write32 (a + 4) v).read32 b = m.read32 b
    exact (sameOn_write32 m v (by rcases hsep ha hb with h | h | h <;> omega)).read32

theorem memNode_keeps {B : List Nat} {off : Nat} (m : ByteMemory) (a v : Nat)
    (ha : a ∈ B.map (· + off)) :
    KeepsBut off 8 B m (memNode.setPrev m a v) ∧ KeepsBut off 8 B m (memNode.setNext m a v) := by
  obtain ⟨b, hb, rfl⟩ := List.mem_map.1 ha
  constructor
  · exact .write32 m v hb le_rfl (by omega)
  · show KeepsBut off 8 B m (m.write32 (b + off + 4) v)
    rw [Nat.add_assoc]
    exact .write32 m v hb (by omega) (by omega)

/-- Links at another offset survive. -/
theorem KeepsBut.lists {off off' len : Nat} {B : List Nat} {m m' : ByteMemory} {list : BlList}
    {bs : List Nat} (h : KeepsBut off len B m m') (hB : Apart B) (hoff : off + len ≤ 24)
    (hother : off' + 8 ≤ off ∨ off + len ≤ off') (hoff' : off' + 8 ≤ 24) (hsub : ∀ b ∈ bs, b ∈ B)
    (hlist : Lists memNode m list (bs.map (· + off'))) :
    Lists memNode m' list (bs.map (· + off')) := by
  refine hlist.congr ?_ ?_ <;> intro a ha <;> obtain ⟨b, hb, rfl⟩ := List.mem_map.1 ha
  · exact (h.sameOn hB (k := 4) (hsub b hb) (by omega) (by omega) hoff).read32
  · have hnext := h.sameOn hB (f := off' + 4) (k := 4) (hsub b hb) (by omega) (by omega) hoff
    rw [← Nat.add_assoc] at hnext
    exact hnext.read32

theorem mem_map_add {B as : List Nat} {off : Nat} (hsub : ∀ a ∈ as, a ∈ B) {x : Nat}
    (hx : x ∈ as.map (· + off)) : x ∈ B.map (· + off) := by
  obtain ⟨a, ha, rfl⟩ := List.mem_map.1 hx
  exact List.mem_map_of_mem (hsub a ha)

/-! ### One list

The links at `off` of headers `B` that lie apart, and a list of some of them. -/

section
variable {B : List Nat} {off n : Nat} {m : ByteMemory} {list : BlList} {xs ys : List Nat}
  (hB : Apart B) (hoff : off + 8 ≤ 24) (hsub : ∀ b ∈ n :: (xs ++ ys), b ∈ B)
include hB hoff hsub

theorem insertAfter_links (h : Lists memNode m list ((xs ++ ys).map (· + off)))
    (hnew : n ∉ xs ++ ys) :
    Lists memNode (blListInsertAfter memNode m list ((xs.map (· + off)).getLastD 0) (n + off)).1
      (blListInsertAfter memNode m list ((xs.map (· + off)).getLastD 0) (n + off)).2
      ((xs ++ n :: ys).map (· + off)) ∧
    KeepsBut off 8 B m
      (blListInsertAfter memNode m list ((xs.map (· + off)).getLastD 0) (n + off)).1 := by
  have hlaw := memNode_lawful hB hoff
  have hN : ∀ a ∈ (n :: (xs ++ ys)).map (· + off), a ∈ B.map (· + off) :=
    fun a ha => mem_map_add hsub ha
  rw [List.map_cons, List.map_append] at hN
  have hn0 : n + off ≠ 0 := by
    have := (hB n (hsub n (by simp))).1.1
    omega
  have hnew' : n + off ∉ xs.map (· + off) ++ ys.map (· + off) := by
    rw [← List.map_append, List.mem_map]
    rintro ⟨a, ha, heq⟩
    exact hnew (Nat.add_right_cancel heq ▸ ha)
  rw [List.map_append] at h
  rw [List.map_append, List.map_cons]
  exact ⟨h.insertAfter hlaw hN hn0 hnew',
    Lists.insertAfter_frame hlaw hN (fun _ _ _ => KeepsBut.trans)
      (fun m a v ha => (memNode_keeps m a v ha).1) (fun m a v ha => (memNode_keeps m a v ha).2)
      h hn0 hnew'⟩

theorem remove_links (h : Lists memNode m list ((xs ++ n :: ys).map (· + off))) :
    Lists memNode (blListRemove memNode m list (n + off)).1
      (blListRemove memNode m list (n + off)).2 ((xs ++ ys).map (· + off)) ∧
    KeepsBut off 8 B m (blListRemove memNode m list (n + off)).1 := by
  have hlaw := memNode_lawful hB hoff
  have hN : ∀ a ∈ (n :: (xs ++ ys)).map (· + off), a ∈ B.map (· + off) :=
    fun a ha => mem_map_add hsub ha
  rw [List.map_cons, List.map_append] at hN
  rw [List.map_append, List.map_cons] at h
  rw [List.map_append]
  exact ⟨h.remove hlaw hN, Lists.remove_frame hlaw hN (fun _ _ _ => KeepsBut.trans)
    (fun m a v ha => (memNode_keeps m a v ha).1) (fun m a v ha => (memNode_keeps m a v ha).2)
    KeepsBut.refl h⟩

end

/-! ### Both lists -/

/-- The two lists hold `bs` and `os`, ranges with headers among `B`. -/
structure Rep (h : Heap) (B bs os : List Nat) : Prop where
  apart : Apart B
  heapRanges : Lists memNode h.mem h.heapRanges (bs.map (· + 0))
  freeRanges : Lists memNode h.mem h.freeRanges (os.map (· + freeNodeOffset))
  heapRanges_sub : ∀ b ∈ bs, b ∈ B
  freeRanges_sub : ∀ b ∈ os, b ∈ B

/-- Nothing but links has changed. -/
structure Relinked (B : List Nat) (h h' : Heap) : Prop where
  rangeEnd_eq : ∀ b ∈ B, h'.rangeEnd b = h.rangeEnd b
  isFree_eq : ∀ b ∈ B, h'.isFree b = h.isFree b
  keeps : KeepsBut 0 24 B h.mem h'.mem

section
variable {h h' : Heap} {B bs os xs ys : List Nat} {n : Nat}

theorem Relinked.of_keeps {off : Nat} (hB : Apart B) (hoff : off + 8 ≤ 16)
    (hkeeps : KeepsBut off 8 B h.mem h'.mem) : Relinked B h h' where
  rangeEnd_eq b hb := (hkeeps.sameOn hB (f := 16) (k := 4) hb (by omega) (by omega) (by omega)).read32
  isFree_eq b hb := by
    have hbyte := (hkeeps.sameOn hB (f := 20) (k := 1) hb (by omega) (by omega) (by omega)).byte
    simp only [Heap.isFree]
    rw [hbyte (by omega)]
  keeps := hkeeps.mono (by omega) (by omega)

/-- The headers that matter are those of the ranges in the lists. -/
theorem Rep.reown {C : List Nat} (hrep : Rep h B bs os) (hC : Apart C) (hbs : ∀ b ∈ bs, b ∈ C)
    (hos : ∀ b ∈ os, b ∈ C) : Rep h C bs os :=
  ⟨hC, hrep.heapRanges, hrep.freeRanges, hbs, hos⟩

/-- Lists survive where the headers do. -/
theorem Rep.of_sameOn (hrep : Rep h B bs os) (hranges : h'.heapRanges = h.heapRanges)
    (hfrees : h'.freeRanges = h.freeRanges) (hsame : ∀ b ∈ B, SameOn h.mem h'.mem b 24) :
    Rep h' B bs os := by
  obtain ⟨hB, hranges', hfrees', hsub, hsub'⟩ := hrep
  have hlinks : ∀ b ∈ B, ∀ off, off + 8 ≤ 24 →
      memNode.prev h'.mem (b + off) = memNode.prev h.mem (b + off) ∧
      memNode.next h'.mem (b + off) = memNode.next h.mem (b + off) := by
    intro b hb off hoff
    exact ⟨((hsame b hb).mono (by omega) (by omega)).read32,
      ((hsame b hb).mono (b := b + off + 4) (by omega) (by omega)).read32⟩
  refine ⟨hB, ?_, ?_, hsub, hsub'⟩
  · rw [hranges]
    refine hranges'.congr ?_ ?_ <;> intro a ha <;> obtain ⟨b, hb, rfl⟩ := List.mem_map.1 ha
    · exact (hlinks b (hsub b hb) 0 (by decide)).1
    · exact (hlinks b (hsub b hb) 0 (by decide)).2
  · rw [hfrees]
    refine hfrees'.congr ?_ ?_ <;> intro a ha <;> obtain ⟨b, hb, rfl⟩ := List.mem_map.1 ha
    · exact (hlinks b (hsub' b hb) freeNodeOffset (by decide)).1
    · exact (hlinks b (hsub' b hb) freeNodeOffset (by decide)).2

theorem rangeEnd_of_sameOn {b : Nat} (hsame : SameOn h.mem h'.mem b 24) :
    h'.rangeEnd b = h.rangeEnd b :=
  (hsame.mono (b := b + 16) (by omega) (by omega)).read32

theorem isFree_of_sameOn {b : Nat} (hsame : SameOn h.mem h'.mem b 24) :
    h'.isFree b = h.isFree b := by
  have hbyte := (hsame.mono (b := b + 20) (k := 1) (by omega) (by omega)).byte (by omega)
  simp only [Heap.isFree]
  rw [hbyte]

theorem Rep.insertRange (hrep : Rep h B (xs ++ ys) os) (hn : n ∈ B) (hnew : n ∉ xs ++ ys) :
    Rep (h.insertRange (xs.getLastD 0) n) B (xs ++ n :: ys) os ∧
      Relinked B h (h.insertRange (xs.getLastD 0) n) := by
  obtain ⟨hB, hranges, hfrees, hsub, hsub'⟩ := hrep
  have hsubn : ∀ b ∈ n :: (xs ++ ys), b ∈ B := List.forall_mem_cons.2 ⟨hn, hsub⟩
  obtain ⟨hlists, hkeeps⟩ := insertAfter_links hB (by omega) hsubn hranges hnew
  simp only [Nat.add_zero, List.map_id'] at hlists hkeeps
  refine ⟨⟨hB, ?_, ?_, fun b hb => hsubn b ?_, hsub'⟩, .of_keeps hB (by omega) hkeeps⟩
  · simp only [Nat.add_zero, List.map_id']
    exact hlists
  · exact hkeeps.lists hB (by omega) (.inr (by decide)) (by decide) hsub' hfrees
  · exact List.perm_middle.mem_iff.1 hb

theorem Rep.removeRange (hrep : Rep h B (xs ++ n :: ys) os) :
    Rep (h.removeRange n) B (xs ++ ys) os ∧ Relinked B h (h.removeRange n) := by
  obtain ⟨hB, hranges, hfrees, hsub, hsub'⟩ := hrep
  have hsubn : ∀ b ∈ n :: (xs ++ ys), b ∈ B := fun b hb => hsub b (List.perm_middle.mem_iff.2 hb)
  obtain ⟨hlists, hkeeps⟩ := remove_links hB (by omega) hsubn hranges
  refine ⟨⟨hB, hlists, ?_, fun b hb => hsubn b (List.mem_cons_of_mem _ hb), hsub'⟩,
    .of_keeps hB (by omega) hkeeps⟩
  exact hkeeps.lists hB (by omega) (.inr (by decide)) (by decide) hsub' hfrees

theorem Rep.insertFree (hrep : Rep h B bs (xs ++ ys)) (hn : n ∈ B) (hnew : n ∉ xs ++ ys) :
    Rep (h.insertFree ((xs.map (· + freeNodeOffset)).getLastD 0) n) B bs (xs ++ n :: ys) ∧
      Relinked B h (h.insertFree ((xs.map (· + freeNodeOffset)).getLastD 0) n) := by
  obtain ⟨hB, hranges, hfrees, hsub, hsub'⟩ := hrep
  have hsubn : ∀ b ∈ n :: (xs ++ ys), b ∈ B := List.forall_mem_cons.2 ⟨hn, hsub'⟩
  obtain ⟨hlists, hkeeps⟩ := insertAfter_links hB (by decide) hsubn hfrees hnew
  refine ⟨⟨hB, ?_, hlists, hsub, fun b hb => hsubn b (List.perm_middle.mem_iff.1 hb)⟩,
    .of_keeps hB (by decide) hkeeps⟩
  exact hkeeps.lists hB (by decide) (.inl (by decide)) (by decide) hsub hranges

theorem Rep.removeFree (hrep : Rep h B bs (xs ++ n :: ys)) :
    Rep (h.removeFree n) B bs (xs ++ ys) ∧ Relinked B h (h.removeFree n) := by
  obtain ⟨hB, hranges, hfrees, hsub, hsub'⟩ := hrep
  have hsubn : ∀ b ∈ n :: (xs ++ ys), b ∈ B := fun b hb => hsub' b (List.perm_middle.mem_iff.2 hb)
  obtain ⟨hlists, hkeeps⟩ := remove_links hB (by decide) hsubn hfrees
  refine ⟨⟨hB, ?_, hlists, hsub, fun b hb => hsubn b (List.mem_cons_of_mem _ hb)⟩,
    .of_keeps hB (by decide) hkeeps⟩
  exact hkeeps.lists hB (by decide) (.inl (by decide)) (by decide) hsub hranges

/-! ### The other fields -/

theorem Rep.of_keeps (hrep : Rep h B bs os) (hranges : h'.heapRanges = h.heapRanges)
    (hfrees : h'.freeRanges = h.freeRanges) (hkeeps : KeepsBut 16 8 B h.mem h'.mem) :
    Rep h' B bs os := by
  obtain ⟨hB, hranges', hfrees', hsub, hsub'⟩ := hrep
  refine ⟨hB, ?_, ?_, hsub, hsub'⟩
  · rw [hranges]
    exact hkeeps.lists hB (by omega) (.inl (by omega)) (by omega) hsub hranges'
  · rw [hfrees]
    exact hkeeps.lists hB (by omega) (.inl (by decide)) (by decide) hsub' hfrees'

theorem Rep.setEnd (hrep : Rep h B bs os) (hn : n ∈ B) {v : Nat} (hv : v < 4294967296) :
    Rep (h.setEnd n v) B bs os ∧
      (∀ b ∈ B, (h.setEnd n v).rangeEnd b = if b = n then v else h.rangeEnd b) ∧
      (∀ b ∈ B, (h.setEnd n v).isFree b = h.isFree b) ∧
      KeepsBut 0 24 B h.mem (h.setEnd n v).mem := by
  have hkeeps : KeepsBut 16 4 B h.mem (h.setEnd n v).mem := .write32 h.mem v hn le_rfl (by omega)
  refine ⟨hrep.of_keeps rfl rfl (hkeeps.mono (by omega) (by omega)), ?_, ?_,
    hkeeps.mono (by omega) (by omega)⟩
  · intro b hb
    show (h.mem.write32 (n + 16) v).read32 (b + 16) = _
    split
    · subst b
      exact read32_write32_self h.mem (n + 16) hv
    · refine (sameOn_write32 h.mem v ?_).read32
      rcases (hrep.apart b hb).2 n hn with heq | hlt | hlt <;> omega
  · intro b hb
    have hbyte := (hkeeps.sameOn hrep.apart (f := 20) (k := 1) hb (by omega) (by omega) (by omega)).byte
    simp only [Heap.isFree]
    rw [hbyte (by omega)]

theorem Rep.setFree (hrep : Rep h B bs os) (hn : n ∈ B) (v : Bool) :
    Rep (h.setFree n v) B bs os ∧
      (∀ b ∈ B, (h.setFree n v).rangeEnd b = h.rangeEnd b) ∧
      (∀ b ∈ B, (h.setFree n v).isFree b = if b = n then v else h.isFree b) ∧
      KeepsBut 0 24 B h.mem (h.setFree n v).mem := by
  have hkeeps : KeepsBut 20 1 B h.mem (h.setFree n v).mem := .write8 h.mem _ hn le_rfl (by omega)
  refine ⟨hrep.of_keeps rfl rfl (hkeeps.mono (by omega) (by omega)), ?_, ?_,
    hkeeps.mono (by omega) (by omega)⟩
  · intro b hb
    exact (hkeeps.sameOn hrep.apart (f := 16) (k := 4) hb (by omega) (by omega) (by omega)).read32
  · intro b hb
    simp only [Heap.isFree, Heap.setFree]
    by_cases hbn : b = n
    · subst b
      cases v <;> simp
    · rw [if_neg hbn, write8_of_ne]
      rcases (hrep.apart b hb).2 n hn with heq | hlt | hlt <;> omega

/-! ### A heap in the middle of an operation

What is known of the heap `h` when an operation that started in the memory `m₀` has written some
of the headers `W`: the lists, and the `End` and `Free` fields of the headers `B`. -/

structure Headers (m₀ : ByteMemory) (W : List Nat) (h : Heap) (B bs os : List Nat)
    (stop : Nat → Nat) (free : Nat → Bool) : Prop where
  rep : Rep h B bs os
  stop_eq : ∀ b ∈ B, h.rangeEnd b = stop b
  free_eq : ∀ b ∈ B, h.isFree b = free b
  keeps : KeepsBut 0 24 W m₀ h.mem
  sub : ∀ b ∈ B, b ∈ W

namespace Headers

variable {m₀ : ByteMemory} {W : List Nat} {stop : Nat → Nat} {free : Nat → Bool}

theorem relinked {bs' os' : List Nat} (hh : Headers m₀ W h B bs os stop free)
    (hrep : Rep h' B bs' os') (hlinks : Relinked B h h') : Headers m₀ W h' B bs' os' stop free where
  rep := hrep
  stop_eq b hb := (hlinks.rangeEnd_eq b hb).trans (hh.stop_eq b hb)
  free_eq b hb := (hlinks.isFree_eq b hb).trans (hh.free_eq b hb)
  keeps := hh.keeps.trans (hlinks.keeps.more hh.sub)
  sub := hh.sub

theorem reown {C : List Nat} (hh : Headers m₀ W h B bs os stop free) (hC : Apart C)
    (hbs : ∀ b ∈ bs, b ∈ C) (hos : ∀ b ∈ os, b ∈ C) (hsub : ∀ b ∈ C, b ∈ W) :
    Headers m₀ W h C bs os h.rangeEnd h.isFree :=
  ⟨hh.rep.reown hC hbs hos, fun _ _ => rfl, fun _ _ => rfl, hh.keeps, hsub⟩

theorem insertRange (hh : Headers m₀ W h B (xs ++ ys) os stop free) (hn : n ∈ B)
    (hnew : n ∉ xs ++ ys) :
    Headers m₀ W (h.insertRange (xs.getLastD 0) n) B (xs ++ n :: ys) os stop free :=
  hh.relinked (hh.rep.insertRange hn hnew).1 (hh.rep.insertRange hn hnew).2

theorem removeRange (hh : Headers m₀ W h B (xs ++ n :: ys) os stop free) :
    Headers m₀ W (h.removeRange n) B (xs ++ ys) os stop free :=
  hh.relinked hh.rep.removeRange.1 hh.rep.removeRange.2

theorem insertFree (hh : Headers m₀ W h B bs (xs ++ ys) stop free) (hn : n ∈ B)
    (hnew : n ∉ xs ++ ys) :
    Headers m₀ W (h.insertFree ((xs.map (· + freeNodeOffset)).getLastD 0) n) B bs (xs ++ n :: ys)
      stop free :=
  hh.relinked (hh.rep.insertFree hn hnew).1 (hh.rep.insertFree hn hnew).2

theorem insertFree_front (hh : Headers m₀ W h B bs os stop free) (hn : n ∈ B) (hnew : n ∉ os) :
    Headers m₀ W (h.insertFree 0 n) B bs (n :: os) stop free := by
  rw [← List.nil_append os] at hh hnew
  exact hh.insertFree hn hnew

theorem removeFree (hh : Headers m₀ W h B bs (xs ++ n :: ys) stop free) :
    Headers m₀ W (h.removeFree n) B bs (xs ++ ys) stop free :=
  hh.relinked hh.rep.removeFree.1 hh.rep.removeFree.2

theorem setEnd (hh : Headers m₀ W h B bs os stop free) (hn : n ∈ B) {v : Nat}
    (hv : v < 4294967296) :
    Headers m₀ W (h.setEnd n v) B bs os (Function.update stop n v) free := by
  obtain ⟨hrep, hstop, hfree, hkeeps⟩ := hh.rep.setEnd hn hv
  refine ⟨hrep, fun b hb => ?_, fun b hb => (hfree b hb).trans (hh.free_eq b hb),
    hh.keeps.trans (hkeeps.more hh.sub), hh.sub⟩
  rw [hstop b hb, hh.stop_eq b hb, Function.update_apply]

theorem setFree (hh : Headers m₀ W h B bs os stop free) (hn : n ∈ B) (v : Bool) :
    Headers m₀ W (h.setFree n v) B bs os stop (Function.update free n v) := by
  obtain ⟨hrep, hstop, hfree, hkeeps⟩ := hh.rep.setFree hn v
  refine ⟨hrep, fun b hb => (hstop b hb).trans (hh.stop_eq b hb), fun b hb => ?_,
    hh.keeps.trans (hkeeps.more hh.sub), hh.sub⟩
  rw [hfree b hb, hh.free_eq b hb, Function.update_apply]

end Headers

end

end XrLinux.Bootloader
