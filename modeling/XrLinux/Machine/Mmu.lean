import XrLinux.Machine.Instr

/-!
# Page tables of the XR/17032

An entry has bit V lowest and the number of a frame from bit 5 on. The entries of the root table
lead to tables, and theirs to pages. Where an entry of the root table leads to the root table
itself, the tables are pages too; that is where the handler of a missing translation reads the entry
of a page, and where an operating system reads and writes its tables.
-/

namespace XrLinux.Machine

/-- The frame of the root table, and memory by frames of 1024 words. -/
structure Mmu where
  root : Nat
  frames : Nat → Nat → Word

namespace Mmu

/-- Where an entry leads to. -/
def follow (entry : Word) : Option Nat :=
  if entry.toNat % 2 = 1 then some (entry.toNat / 32 % 1048576) else none

/-- The frame of page `t` behind entry `d` of the root table. -/
def page (s : Mmu) (d t : Nat) : Option Nat :=
  (follow (s.frames s.root d)).bind fun table => follow (s.frames table t)

/-- The page of an address. -/
def pageOf (s : Mmu) (x : Word) : Option Nat :=
  s.page (x.toNat / 4194304) (x.toNat / 4096 % 1024)

/-- The physical address. -/
def walk (s : Mmu) (x : Word) : Option Word :=
  (s.pageOf x).map fun frame => BitVec.ofNat 32 (frame * 4096 + x.toNat % 4096)

/-- `value i` in the words from `first` on. -/
def put (s : Mmu) (frame first count : Nat) (value : Nat → Word) : Mmu where
  root := s.root
  frames q i := if q = frame ∧ first ≤ i ∧ i < first + count then value i else s.frames q i

/-- A load of a word. -/
def read (s : Mmu) (x : Word) : Option Word :=
  if x.toNat % 4 = 0 then (s.pageOf x).map fun frame => s.frames frame (x.toNat % 4096 / 4)
  else none

/-- A store of a word. -/
def write (s : Mmu) (x value : Word) : Option Mmu :=
  if x.toNat % 4 = 0 then
    (s.pageOf x).map fun frame => s.put frame (x.toNat % 4096 / 4) 1 fun _ => value
  else none

variable {s s' : Mmu} {x : Word} {d t i frame first count : Nat}

/-! ## Entries -/

theorem follow_lt {entry : Word} (h : follow entry = some frame) : frame < 1048576 := by
  unfold follow at h
  split_ifs at h
  cases h
  exact Nat.mod_lt _ (by decide)

theorem follow_zero : follow 0 = none := rfl

theorem page_eq_some (hroot : follow (s.frames s.root d) = some first) :
    s.page d t = follow (s.frames first t) := by
  rw [page, hroot, Option.bind_some]

theorem exists_table (h : s.page d t = some frame) :
    ∃ table, follow (s.frames s.root d) = some table ∧ follow (s.frames table t) = some frame :=
  Option.bind_eq_some_iff.mp h

theorem page_lt (h : s.page d t = some frame) : frame < 1048576 := by
  obtain ⟨table, -, hframe⟩ := exists_table h
  exact follow_lt hframe

/-- A page stays where it is if both entries do. -/
theorem page_congr (hroot : s'.root = s.root)
    (hentry : s'.frames s.root d = s.frames s.root d)
    (htable : ∀ table, follow (s.frames s.root d) = some table →
      s'.frames table t = s.frames table t) :
    s'.page d t = s.page d t := by
  unfold page
  rw [hroot, hentry]
  cases hfollow : follow (s.frames s.root d) with
  | none => rfl
  | some table => rw [Option.bind_some, Option.bind_some, htable table hfollow]

/-! ## Addresses -/

/-- Word `i` of page `t` behind entry `d`. -/
structure At (x : Word) (d t i : Nat) : Prop where
  toNat_eq : x.toNat = d * 4194304 + t * 4096 + i * 4
  table_lt : t < 1024
  word_lt : i < 1024

theorem At.pageOf_eq (h : At x d t i) : s.pageOf x = s.page d t := by
  have heq := h.toNat_eq
  have ht := h.table_lt
  have hi := h.word_lt
  have hd : x.toNat / 4194304 = d := by omega
  have ht' : x.toNat / 4096 % 1024 = t := by omega
  rw [pageOf, hd, ht']

theorem At.word_eq (h : At x d t i) : x.toNat % 4 = 0 ∧ x.toNat % 4096 / 4 = i := by
  have heq := h.toNat_eq
  have hi := h.word_lt
  omega

theorem At.read_eq (h : At x d t i) (hpage : s.page d t = some frame) :
    s.read x = some (s.frames frame i) := by
  rw [read, if_pos h.word_eq.1, h.pageOf_eq, hpage, h.word_eq.2, Option.map_some]

theorem At.write_eq (h : At x d t i) (value : Word) (hpage : s.page d t = some frame) :
    s.write x value = some (s.put frame i 1 fun _ => value) := by
  rw [write, if_pos h.word_eq.1, h.pageOf_eq, hpage, h.word_eq.2, Option.map_some]

/-! ## Stores -/

@[simp] theorem put_root (value : Nat → Word) : (s.put frame first count value).root = s.root := rfl

theorem put_frames_of_ne {q j : Nat} (value : Nat → Word)
    (h : q ≠ frame ∨ j < first ∨ first + count ≤ j) :
    (s.put frame first count value).frames q j = s.frames q j :=
  if_neg (by omega)

theorem put_frames_self (value : Nat → Word) (hlo : first ≤ i) (hhi : i < first + count) :
    (s.put frame first count value).frames frame i = value i :=
  if_pos ⟨rfl, hlo, hhi⟩

theorem put_zero (value : Nat → Word) : s.put frame first 0 value = s := by
  obtain ⟨root, frames⟩ := s
  refine congrArg (Mmu.mk root) ?_
  funext q j
  exact if_neg (by omega)

theorem put_congr {value value' : Nat → Word}
    (h : ∀ j, first ≤ j → j < first + count → value j = value' j) :
    s.put frame first count value = s.put frame first count value' := by
  refine congrArg (Mmu.mk s.root) ?_
  funext q j
  by_cases hj : q = frame ∧ first ≤ j ∧ j < first + count
  · rw [if_pos hj, if_pos hj, h j hj.2.1 hj.2.2]
  · rw [if_neg hj, if_neg hj]

/-- A word and the words behind it. -/
theorem put_put (value : Nat → Word) :
    (s.put frame first 1 fun _ => value first).put frame (first + 1) count value =
      s.put frame first (count + 1) value := by
  refine congrArg (Mmu.mk s.root) ?_
  funext q j
  show (if q = frame ∧ first + 1 ≤ j ∧ j < first + 1 + count then value j
    else if q = frame ∧ first ≤ j ∧ j < first + 1 then value first else s.frames q j) = _
  split_ifs with hrest hfirst hall hall hall
  · rfl
  · omega
  · rw [show j = first by omega]
  · omega
  · omega
  · rfl

/-- A frame that is neither the root table nor the table of a page. -/
def Beside (s : Mmu) (d frame : Nat) : Prop :=
  frame ≠ s.root ∧ follow (s.frames s.root d) ≠ some frame

theorem page_put_of_beside (value : Nat → Word) (h : s.Beside d frame) :
    (s.put frame first count value).page d t = s.page d t := by
  apply page_congr (put_root value)
  · exact put_frames_of_ne value (.inl h.1.symm)
  · intro table htable
    refine put_frames_of_ne value (.inl ?_)
    rintro rfl
    exact h.2 htable

theorem Beside.put {q : Nat} (value : Nat → Word) (h : s.Beside d q) (hroot : frame ≠ s.root) :
    (s.put frame first count value).Beside d q := by
  unfold Beside
  rw [put_root, put_frames_of_ne value (.inl hroot.symm)]
  exact h

/-- Stores to the words of a page, one after the other. -/
def storeWords (x : Word) (value : Nat → Word) : Nat → Nat → Mmu → Option Mmu
  | 0, _, s => some s
  | count + 1, i, s =>
    (s.write (x + BitVec.ofNat 32 (4 * i)) (value i)).bind (storeWords x value count (i + 1))

theorem At.add (h : At x d t 0) (hi : i < 1024) : At (x + BitVec.ofNat 32 (4 * i)) d t i where
  toNat_eq := by
    have heq := h.toNat_eq
    have hlt := x.isLt
    have ht := h.table_lt
    have hd : d < 1024 := by omega
    rw [BitVec.toNat_add, BitVec.toNat_ofNat]
    omega
  table_lt := h.table_lt
  word_lt := hi

theorem storeWords_eq (h : At x d t 0) (value : Nat → Word) (hpage : s.page d t = some frame)
    (hbeside : s.Beside d frame) (hfits : i + count ≤ 1024) :
    storeWords x value count i s = some (s.put frame i count value) := by
  induction count generalizing s i with
  | zero => rw [put_zero]; rfl
  | succ count ih =>
    have hstore := (h.add (show i < 1024 by omega)).write_eq (value i) hpage
    have hnext : (s.put frame i 1 fun _ => value i).page d t = some frame := by
      rw [page_put_of_beside _ hbeside, hpage]
    rw [storeWords, hstore, Option.bind_some,
      ih hnext (hbeside.put _ hbeside.1) (by omega), put_put]

end Mmu

end XrLinux.Machine
