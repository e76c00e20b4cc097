import Mathlib.Data.BitVec
import Mathlib.Logic.Function.Basic
import Mathlib.Tactic.Common

/-!
# Byte memory

Memory as a function from addresses to bytes, with little-endian 32-bit loads and stores. The
lemmas are of two kinds: a load from where a store went, and a load from bytes that a store left
alone. Everything of the second kind goes through `SameOn`, agreement of two memories on a run
of bytes.
-/

abbrev ByteMemory := Nat → BitVec 8

namespace ByteMemory

def read32 (m : ByteMemory) (a : Nat) : Nat :=
  (m a).toNat + 256 * (m (a + 1)).toNat + 65536 * (m (a + 2)).toNat + 16777216 * (m (a + 3)).toNat

def read16 (m : ByteMemory) (a : Nat) : Nat := (m a).toNat + 256 * (m (a + 1)).toNat

def write8 (m : ByteMemory) (a : Nat) (v : BitVec 8) : ByteMemory := Function.update m a v

def write16 (m : ByteMemory) (a v : Nat) : ByteMemory :=
  (m.write8 a (BitVec.ofNat 8 v)).write8 (a + 1) (BitVec.ofNat 8 (v / 256))

def write32 (m : ByteMemory) (a v : Nat) : ByteMemory :=
  (((m.write8 a (BitVec.ofNat 8 v)).write8 (a + 1) (BitVec.ofNat 8 (v / 256))).write8
    (a + 2) (BitVec.ofNat 8 (v / 65536))).write8 (a + 3) (BitVec.ofNat 8 (v / 16777216))

/-- `len` bytes moved from `src` to `dst`, which may overlap. -/
def copy (m : ByteMemory) (dst src len : Nat) : ByteMemory :=
  fun x => if dst ≤ x ∧ x < dst + len then m (src + (x - dst)) else m x

/-- `len` bytes stored from `a` on. -/
def put (m : ByteMemory) (a len : Nat) (bytes : Nat → BitVec 8) : ByteMemory :=
  fun x => if a ≤ x ∧ x < a + len then bytes (x - a) else m x

/-- The `len` bytes from `a` on are the same. -/
def SameOn (m m' : ByteMemory) (a len : Nat) : Prop := ∀ x, a ≤ x → x < a + len → m' x = m x

theorem read32_lt (m : ByteMemory) (a : Nat) : m.read32 a < 4294967296 := by
  have h0 := (m a).isLt
  have h1 := (m (a + 1)).isLt
  have h2 := (m (a + 2)).isLt
  have h3 := (m (a + 3)).isLt
  unfold read32
  omega

theorem read16_eq (m : ByteMemory) (a : Nat) : m.read16 a = m.read32 a % 65536 := by
  have h0 := (m a).isLt
  have h1 := (m (a + 1)).isLt
  unfold read16 read32
  omega

@[simp] theorem write8_self (m : ByteMemory) (a : Nat) (v : BitVec 8) : m.write8 a v a = v := by
  simp [write8]

theorem write8_of_ne (m : ByteMemory) {a x : Nat} (v : BitVec 8) (h : x ≠ a) :
    m.write8 a v x = m x := by
  simp [write8, h]

theorem write32_of_not_mem (m : ByteMemory) {a x : Nat} (v : Nat) (h : x < a ∨ a + 4 ≤ x) :
    m.write32 a v x = m x := by
  simp only [write32]
  rw [write8_of_ne _ _ (by omega), write8_of_ne _ _ (by omega), write8_of_ne _ _ (by omega),
    write8_of_ne _ _ (by omega)]

/-- A store keeps what fits. -/
theorem read32_write32 (m : ByteMemory) (a v : Nat) :
    (m.write32 a v).read32 a = v % 4294967296 := by
  have h0 : m.write32 a v a = BitVec.ofNat 8 v := by simp [write32, write8]
  have h1 : m.write32 a v (a + 1) = BitVec.ofNat 8 (v / 256) := by simp [write32, write8]
  have h2 : m.write32 a v (a + 2) = BitVec.ofNat 8 (v / 65536) := by simp [write32, write8]
  have h3 : m.write32 a v (a + 3) = BitVec.ofNat 8 (v / 16777216) := by simp [write32, write8]
  simp only [read32, h0, h1, h2, h3, BitVec.toNat_ofNat]
  omega

/-- A word is read back as it was stored. -/
theorem read32_write32_self (m : ByteMemory) (a : Nat) {v : Nat} (hv : v < 4294967296) :
    (m.write32 a v).read32 a = v := by
  rw [read32_write32, Nat.mod_eq_of_lt hv]

theorem write32_eq_iff (m : ByteMemory) (a v v' : Nat) :
    m.write32 a v = m.write32 a v' ↔ v % 4294967296 = v' % 4294967296 := by
  constructor
  · intro h
    rw [← read32_write32 m a v, h, read32_write32]
  · intro h
    have hbyte : ∀ k, k = 1 ∨ k = 256 ∨ k = 65536 ∨ k = 16777216 →
        BitVec.ofNat 8 (v / k) = BitVec.ofNat 8 (v' / k) := by
      intro k hk
      apply BitVec.eq_of_toNat_eq
      simp only [BitVec.toNat_ofNat]
      rcases hk with rfl | rfl | rfl | rfl <;> omega
    have h0 := hbyte 1 (by omega)
    rw [Nat.div_one, Nat.div_one] at h0
    rw [write32, write32, h0, hbyte 256 (by omega), hbyte 65536 (by omega),
      hbyte 16777216 (by omega)]

theorem SameOn.refl (m : ByteMemory) (a len : Nat) : SameOn m m a len := fun _ _ _ => rfl

theorem SameOn.trans {m m' m'' : ByteMemory} {a len : Nat} (h : SameOn m m' a len)
    (h' : SameOn m' m'' a len) : SameOn m m'' a len :=
  fun x hlo hhi => (h' x hlo hhi).trans (h x hlo hhi)

theorem SameOn.mono {m m' : ByteMemory} {a len b k : Nat} (h : SameOn m m' a len) (hlo : a ≤ b)
    (hhi : b + k ≤ a + len) : SameOn m m' b k :=
  fun x hx hx' => h x (by omega) (by omega)

theorem SameOn.read32 {m m' : ByteMemory} {a : Nat} (h : SameOn m m' a 4) :
    m'.read32 a = m.read32 a := by
  simp only [ByteMemory.read32]
  rw [h a (by omega) (by omega), h (a + 1) (by omega) (by omega), h (a + 2) (by omega) (by omega),
    h (a + 3) (by omega) (by omega)]

theorem SameOn.byte {m m' : ByteMemory} {a len : Nat} (h : SameOn m m' a len) (hlen : 0 < len) :
    m' a = m a := h a le_rfl (by omega)

/-- A store leaves the bytes beside it alone. -/
theorem sameOn_write32 (m : ByteMemory) {a b len : Nat} (v : Nat)
    (h : b + len ≤ a ∨ a + 4 ≤ b) : SameOn m (m.write32 a v) b len :=
  fun x hlo hhi => write32_of_not_mem m v (by omega)

theorem sameOn_write16 (m : ByteMemory) {a b len : Nat} (v : Nat)
    (h : b + len ≤ a ∨ a + 2 ≤ b) : SameOn m (m.write16 a v) b len := by
  intro x hlo hhi
  rw [write16, write8_of_ne _ _ (by omega), write8_of_ne _ _ (by omega)]

theorem sameOn_write8 (m : ByteMemory) {a b len : Nat} (v : BitVec 8)
    (h : b + len ≤ a ∨ a + 1 ≤ b) : SameOn m (m.write8 a v) b len :=
  fun x hlo hhi => write8_of_ne m v (by omega)

theorem sameOn_copy (m : ByteMemory) {dst b len : Nat} (src k : Nat)
    (h : b + len ≤ dst ∨ dst + k ≤ b) : SameOn m (m.copy dst src k) b len := by
  intro x hlo hhi
  simp only [copy]
  rw [if_neg (by omega)]

theorem copy_byte (m : ByteMemory) {dst src len i : Nat} (h : i < len) :
    m.copy dst src len (dst + i) = m (src + i) := by
  simp only [copy]
  rw [if_pos (by omega), Nat.add_sub_cancel_left]

theorem read32_copy (m : ByteMemory) {dst src len i : Nat} (h : i + 4 ≤ len) :
    (m.copy dst src len).read32 (dst + i) = m.read32 (src + i) := by
  simp only [read32, Nat.add_assoc]
  rw [copy_byte m (by omega), copy_byte m (by omega), copy_byte m (by omega), copy_byte m (by omega)]

/-! ### Runs of bytes -/

theorem put_byte (m : ByteMemory) {a len i : Nat} (bytes : Nat → BitVec 8) (h : i < len) :
    m.put a len bytes (a + i) = bytes i := by
  simp only [put]
  rw [if_pos (by omega), Nat.add_sub_cancel_left]

theorem put_of_not_mem (m : ByteMemory) {a len x : Nat} (bytes : Nat → BitVec 8)
    (h : x < a ∨ a + len ≤ x) : m.put a len bytes x = m x := by
  simp only [put]
  rw [if_neg (by omega)]

@[simp] theorem put_zero (m : ByteMemory) (a : Nat) (bytes : Nat → BitVec 8) :
    m.put a 0 bytes = m := by
  funext x
  exact put_of_not_mem m bytes (by omega)

theorem put_congr (m : ByteMemory) {a len : Nat} {f g : Nat → BitVec 8} (h : ∀ i < len, f i = g i) :
    m.put a len f = m.put a len g := by
  funext x
  simp only [put]
  split
  · rename_i hx
    exact h _ (by omega)
  · rfl

/-- Two runs, one behind the other, are one. -/
theorem put_put (m : ByteMemory) (a k l : Nat) (f : Nat → BitVec 8) :
    (m.put a k f).put (a + k) l (fun i => f (k + i)) = m.put a (k + l) f := by
  funext x
  simp only [put]
  by_cases hx : a + k ≤ x ∧ x < a + k + l
  · rw [if_pos hx, if_pos (by omega)]
    congr 1
    omega
  · rw [if_neg hx]
    by_cases hx' : a ≤ x ∧ x < a + k
    · rw [if_pos hx', if_pos (by omega)]
    · rw [if_neg hx', if_neg (by omega)]

/-! ### Words one after the other -/

/-- Each word of the list is stored at its address. -/
def writeAll (m : ByteMemory) (words : List (Nat × Nat)) : ByteMemory :=
  words.foldl (fun m word => m.write32 word.1 word.2) m

theorem writeAll_append (m : ByteMemory) (words words' : List (Nat × Nat)) :
    m.writeAll (words ++ words') = (m.writeAll words).writeAll words' := List.foldl_append

theorem sameOn_writeAll (m : ByteMemory) {words : List (Nat × Nat)} {b len : Nat}
    (h : ∀ word ∈ words, b + len ≤ word.1 ∨ word.1 + 4 ≤ b) :
    SameOn m (m.writeAll words) b len := by
  induction words generalizing m with
  | nil => exact SameOn.refl m b len
  | cons word words ih =>
    apply (sameOn_write32 m word.2 (h word List.mem_cons_self)).trans
    exact ih _ fun word' hword' => h word' (List.mem_cons_of_mem word hword')

/-- A word that no later one is stored over. -/
theorem read32_writeAll (m : ByteMemory) {words : List (Nat × Nat)}
    (hapart : words.Pairwise fun word word' => word.1 + 4 ≤ word'.1 ∨ word'.1 + 4 ≤ word.1)
    {word : Nat × Nat} (hword : word ∈ words) (hlt : word.2 < 4294967296) :
    (m.writeAll words).read32 word.1 = word.2 := by
  induction words generalizing m with
  | nil => exact (List.not_mem_nil hword).elim
  | cons first words ih =>
    rw [List.pairwise_cons] at hapart
    rcases List.mem_cons.mp hword with rfl | hword
    · have hkept : SameOn (m.write32 word.1 word.2) (m.writeAll (word :: words)) word.1 4 :=
        sameOn_writeAll _ hapart.1
      exact hkept.read32.trans (read32_write32_self m word.1 hlt)
    · exact ih _ hapart.2 hword

end ByteMemory
