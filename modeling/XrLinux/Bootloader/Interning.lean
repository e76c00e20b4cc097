import Mathlib.Algebra.Order.BigOperators.Group.List
import Mathlib.Algebra.Order.Group.Nat
import XrLinux.Bootloader.DeviceTree

/-!
# Bootloader — the names of properties

`BlDtGetString` keeps one entry for each name, in a table of chains that doubles when it is full by
three quarters. A rehash goes along the old chains by the links of their entries while it hangs the
entries into new ones; an entry that it has not come to yet has the links that it had.
-/

namespace XrLinux.Bootloader

open ByteMemory LinkedList

/-! ## Chains -/

/-- The bucket of a string. -/
def bucketOf (capacity : Nat) (str : CString) : Nat := blDtHash str &&& sub32 capacity 1

/-- The buckets are chains of the entries `S`, each in its own. -/
structure Chained (strings : Nat → DtString) (buckets : Nat → BlList) (capacity : Nat)
    (chains : Nat → List Nat) (S : Nat → Prop) : Prop where
  lists : ∀ i, Lists stringNode strings (buckets i) (chains i)
  mem_iff : ∀ i e, e ∈ chains i ↔ S e ∧ bucketOf capacity (strings e).text = i

/-- The entries have kept all but their links. -/
def SameEntries (strings strings' : Nat → DtString) : Prop :=
  ∀ e, (strings' e).text = (strings e).text ∧ (strings' e).data = (strings e).data ∧
    (strings' e).identifier = (strings e).identifier

theorem SameEntries.trans {s s' s'' : Nat → DtString} (h : SameEntries s s')
    (h' : SameEntries s' s'') : SameEntries s s'' := by
  intro e
  obtain ⟨htext, hdata, hid⟩ := h e
  obtain ⟨htext', hdata', hid'⟩ := h' e
  exact ⟨htext'.trans htext, hdata'.trans hdata, hid'.trans hid⟩

theorem stringNode_lawful (N : Nat → Prop) : stringNode.Lawful N where
  prev_setPrev := by
    intro s a b v _ _ _
    by_cases hb : b = a
    · subst hb
      simp [stringNode]
    · simp [stringNode, hb]
  next_setPrev := by
    intro s a b v _ _
    by_cases hb : b = a
    · subst hb
      simp [stringNode]
    · simp [stringNode, hb]
  next_setNext := by
    intro s a b v _ _ _
    by_cases hb : b = a
    · subst hb
      simp [stringNode]
    · simp [stringNode, hb]
  prev_setNext := by
    intro s a b v _ _
    by_cases hb : b = a
    · subst hb
      simp [stringNode]
    · simp [stringNode, hb]

section
variable {strings : Nat → DtString} {buckets : Nat → BlList} {capacity : Nat}
  {chains : Nat → List Nat} {S : Nat → Prop}

/-- What the links of some entries can change. -/
def LinksOf (N : Nat → Prop) (s s' : Nat → DtString) : Prop :=
  SameEntries s s' ∧ ∀ x, ¬ N x → s' x = s x

theorem LinksOf.trans {N : Nat → Prop} {s s' s'' : Nat → DtString} (h : LinksOf N s s')
    (h' : LinksOf N s' s'') : LinksOf N s s'' :=
  ⟨h.1.trans h'.1, fun x hx => (h'.2 x hx).trans (h.2 x hx)⟩

theorem linksOf_setPrev {N : Nat → Prop} (s : Nat → DtString) {a : Nat} (v : Nat) (ha : N a) :
    LinksOf N s (stringNode.setPrev s a v) := by
  refine ⟨fun e => ?_, fun x hx => Function.update_of_ne ?_ _ _⟩
  · by_cases he : e = a
    · subst he
      simp [stringNode]
    · simp [stringNode, he]
  · rintro rfl
    exact hx ha

theorem linksOf_setNext {N : Nat → Prop} (s : Nat → DtString) {a : Nat} (v : Nat) (ha : N a) :
    LinksOf N s (stringNode.setNext s a v) := by
  refine ⟨fun e => ?_, fun x hx => Function.update_of_ne ?_ _ _⟩
  · by_cases he : e = a
    · subst he
      simp [stringNode]
    · simp [stringNode, he]
  · rintro rfl
    exact hx ha

theorem Chained.bucket (h : Chained strings buckets capacity chains S) {e : Nat} (he : S e) :
    e ∈ chains (bucketOf capacity (strings e).text) := (h.mem_iff _ e).mpr ⟨he, rfl⟩

theorem Chained.ne_zero (h : Chained strings buckets capacity chains S) {e : Nat} (he : S e) :
    e ≠ 0 := (h.lists _).pos (h.bucket he)

/-- One entry more, at the front of its chain. -/
theorem Chained.insert (h : Chained strings buckets capacity chains S) {e b : Nat} (he0 : e ≠ 0)
    (he : ¬ S e) (hb : bucketOf capacity (strings e).text = b) {r : (Nat → DtString) × BlList}
    (hr : blListInsertAfter stringNode strings (buckets b) 0 e = r) :
    (∃ chains', Chained r.1 (Function.update buckets b r.2) capacity chains' fun x => x = e ∨ S x) ∧
      LinksOf (fun x => x = e ∨ S x) strings r.1 := by
  subst hr
  have hnew : e ∉ chains b := fun hmem => he ((h.mem_iff b e).mp hmem).1
  have hfront := (h.lists b).insertFront (stringNode_lawful fun _ => True) (fun _ _ => trivial) he0 hnew
  have hlinks : LinksOf (· ∈ e :: chains b) strings
      (blListInsertAfter stringNode strings (buckets b) 0 e).1 :=
    Lists.insertFront_frame (stringNode_lawful _) (fun _ ha => ha) (fun _ _ _ => LinksOf.trans)
      (fun s _ v ha => linksOf_setPrev s v ha) (fun s _ v ha => linksOf_setNext s v ha) (h.lists b)
      he0 hnew
  refine ⟨⟨Function.update chains b (e :: chains b), ?_, ?_⟩, hlinks.1, fun x hx => hlinks.2 x ?_⟩
  · intro i
    by_cases hi : i = b
    · rw [hi, Function.update_self, Function.update_self]
      exact hfront
    · rw [Function.update_of_ne hi, Function.update_of_ne hi]
      -- the entries of another chain have kept their links
      have hkept : ∀ a ∈ chains i, (blListInsertAfter stringNode strings (buckets b) 0 e).1 a = strings a := by
        intro a ha
        obtain ⟨hS, hbucket⟩ := (h.mem_iff i a).mp ha
        refine hlinks.2 a fun hmem => ?_
        rcases List.mem_cons.mp hmem with rfl | hmem
        · exact he hS
        · exact hi (hbucket.symm.trans ((h.mem_iff b a).mp hmem).2)
      exact Holds.congr (h.lists i) (fun a ha => congrArg DtString.prev (hkept a ha))
        fun a ha => congrArg DtString.next (hkept a ha)
  · intro i x
    rw [(hlinks.1 x).1]
    by_cases hi : i = b
    · rw [hi, Function.update_self, List.mem_cons, h.mem_iff]
      constructor
      · rintro (rfl | ⟨hS, hx⟩)
        · exact ⟨.inl rfl, hb⟩
        · exact ⟨.inr hS, hx⟩
      · rintro ⟨rfl | hS, hx⟩
        · exact .inl rfl
        · exact .inr ⟨hS, hx⟩
    · rw [Function.update_of_ne hi, h.mem_iff]
      constructor
      · exact fun hmem => ⟨.inr hmem.1, hmem.2⟩
      · rintro ⟨rfl | hS, hx⟩
        · exact absurd (hx.symm.trans hb) hi
        · exact ⟨hS, hx⟩
  · intro hmem
    rcases List.mem_cons.mp hmem with rfl | hmem
    · exact hx (.inl rfl)
    · exact hx (.inr ((h.mem_iff b x).mp hmem).1)

theorem LinksOf.mono {N N' : Nat → Prop} {s s' : Nat → DtString} (h : LinksOf N s s')
    (hle : ∀ x, N x → N' x) : LinksOf N' s s' :=
  ⟨h.1, fun x hx => h.2 x fun hN => hx (hle x hN)⟩

/-- The rest of an old chain. By induction on it; that its entries are not in the new table yet is
what keeps their links. -/
theorem relinkChain_eq {old : Nat → DtString} {p : Nat} {rest : List Nat} {fuel : Nat}
    {newTable : Nat → BlList} (h : Chained strings newTable capacity chains S)
    (hrest : Segment (stringNode.prev old) (stringNode.next old) p rest 0) (hnodup : rest.Nodup)
    (hnew : ∀ e ∈ rest, e ≠ 0 ∧ ¬ S e) (hold : LinksOf S old strings)
    (hfuel : rest.length < fuel) :
    ∃ strings' newTable' chains',
      DeviceTree.relinkChain capacity fuel (strings, newTable) (rest.headD 0) =
        .ok (strings', newTable') ∧
      Chained strings' newTable' capacity chains' (fun e => e ∈ rest ∨ S e) ∧
      LinksOf (fun e => e ∈ rest ∨ S e) old strings' := by
  induction rest generalizing p fuel strings newTable chains S with
  | nil =>
    obtain ⟨fuel, rfl⟩ := Nat.exists_eq_add_of_lt hfuel
    have hnone : (fun e => e ∈ [] ∨ S e) = S := by simp
    refine ⟨strings, newTable, chains, ?_, ?_, ?_⟩
    · simp [DeviceTree.relinkChain]
    · rwa [hnone]
    · rwa [hnone]
  | cons e rest ih =>
    obtain ⟨fuel, rfl⟩ := Nat.exists_eq_add_of_lt hfuel
    obtain ⟨he0, heS⟩ := hnew e List.mem_cons_self
    obtain ⟨-, hnext, hrest⟩ := hrest
    obtain ⟨hnotin, hnodup⟩ := List.nodup_cons.mp hnodup
    -- the entry still has its old link
    have hlink : stringNode.next strings e = rest.headD 0 := by
      rw [← hnext]
      exact congrArg DtString.next (hold.2 e heS)
    obtain ⟨⟨chains', hchained⟩, hlinks⟩ := h.insert he0 heS rfl rfl
    have hold' := (hold.mono fun x hx => Or.inr hx).trans hlinks
    have hset : (fun x => x ∈ e :: rest ∨ S x) = fun x => x ∈ rest ∨ x = e ∨ S x := by
      funext x
      rw [List.mem_cons, eq_iff_iff]
      tauto
    have hnew' : ∀ x ∈ rest, x ≠ 0 ∧ ¬ (x = e ∨ S x) := by
      intro x hx
      obtain ⟨hx0, hxS⟩ := hnew x (List.mem_cons_of_mem e hx)
      refine ⟨hx0, ?_⟩
      rintro (rfl | hS)
      · exact hnotin hx
      · exact hxS hS
    rw [hset]
    have hfuel' : rest.length < (e :: rest).length + fuel := by
      rw [List.length_cons]
      omega
    obtain ⟨strings', newTable', chains'', hrun, hdone⟩ :=
      ih hchained hrest hnodup hnew' hold' hfuel'
    refine ⟨strings', newTable', chains'', ?_, hdone⟩
    rw [← hrun, List.headD_cons, DeviceTree.relinkChain, if_pos he0, hlink, container_zero]
    rfl

/-- All the old chains. By induction on how many have been gone along. -/
theorem relink_eq {t : DeviceTree} {newCapacity : Nat}
    (h : Chained t.strings t.buckets t.stringsCapacity chains S)
    (hsize : ∀ i, (chains i).length < rounds) :
    ∃ strings' newTable' chains', t.relink newCapacity = .ok (strings', newTable') ∧
      Chained strings' newTable' newCapacity chains'
        (fun e => S e ∧ bucketOf t.stringsCapacity (t.strings e).text < t.stringsCapacity) ∧
      LinksOf S t.strings strings' := by
  have hall : ∀ n, ∃ strings' newTable' chains',
      (List.range n).foldlM (fun s i => DeviceTree.relinkChain newCapacity rounds s
        (container 0 (t.buckets i).head)) (t.strings, fun _ => .init) =
        .ok (strings', newTable') ∧
      Chained strings' newTable' newCapacity chains'
        (fun e => S e ∧ bucketOf t.stringsCapacity (t.strings e).text < n) ∧
      LinksOf (fun e => S e ∧ bucketOf t.stringsCapacity (t.strings e).text < n) t.strings strings' := by
    intro n
    induction n with
    | zero =>
      refine ⟨t.strings, fun _ => .init, fun _ => [], rfl, ⟨fun i => lists_init _, fun i e => ?_⟩, ?_⟩
      · simp
      · exact ⟨fun e => ⟨rfl, rfl, rfl⟩, fun _ _ => rfl⟩
    | succ n ih =>
      obtain ⟨strings₁, newTable₁, chains₁, hrun, hchained, hlinks⟩ := ih
      have hlist := h.lists n
      have hnew : ∀ e ∈ chains n, e ≠ 0 ∧
          ¬ (S e ∧ bucketOf t.stringsCapacity (t.strings e).text < n) := by
        intro e he
        refine ⟨hlist.pos he, fun hS => ?_⟩
        have hbucket := ((h.mem_iff n e).mp he).2
        omega
      obtain ⟨strings₂, newTable₂, chains₂, hrun₂, hchained₂, hlinks₂⟩ :=
        relinkChain_eq hchained hlist.segment hlist.nodup hnew hlinks (hsize n)
      have hset : (fun e => e ∈ chains n ∨
          (S e ∧ bucketOf t.stringsCapacity (t.strings e).text < n)) =
          fun e => S e ∧ bucketOf t.stringsCapacity (t.strings e).text < n + 1 := by
        funext e
        rw [h.mem_iff, eq_iff_iff, Nat.lt_succ_iff_lt_or_eq]
        tauto
      rw [hset] at hchained₂ hlinks₂
      refine ⟨strings₂, newTable₂, chains₂, ?_, hchained₂, hlinks₂⟩
      rw [List.range_succ, List.foldlM_append, hrun]
      show (DeviceTree.relinkChain newCapacity rounds (strings₁, newTable₁)
        (container 0 (t.buckets n).head) >>= pure) = _
      rw [container_zero, hlist.head_eq, hrun₂]
      rfl
  obtain ⟨strings', newTable', chains', hrun, hchained, hlinks⟩ := hall t.stringsCapacity
  exact ⟨strings', newTable', chains', hrun, hchained, hlinks.mono fun e he => he.1⟩

end

/-! ## The table -/

theorem bucketOf_lt {k : Nat} (hk : k < 32) (str : CString) : bucketOf (2 ^ k) str < 2 ^ k := by
  have hlt : 2 ^ k < 4294967296 := Nat.pow_lt_pow_right (by decide) hk
  have hpos := Nat.two_pow_pos k
  have hsub : sub32 (2 ^ k) 1 = 2 ^ k - 1 := by
    unfold sub32
    omega
  rw [bucketOf, hsub, Nat.and_two_pow_sub_one_eq_mod]
  exact Nat.mod_lt _ hpos

/-- What the text of an entry takes of the strings block. -/
def CString.room (str : CString) : Nat := str.length + 1

namespace DeviceTree

/-- The table and, for each entry, its object and its text. -/
def tableBlocks (t : DeviceTree) : Multiset Block :=
  if t.stringsCapacity = 0 then 0 else {Block.plain t.table (t.stringsCapacity * 8) 4}

def entryBlocks (strings : Nat → DtString) (made : List Nat) : Multiset Block :=
  ↑(made.flatMap fun e => [Block.plain e 16 4, Block.plain (strings e).data (strings e).text.room 1])

def stringBlocks (t : DeviceTree) (made : List Nat) : Multiset Block :=
  entryBlocks t.strings made + t.tableBlocks

end DeviceTree

/-- `made` are the entries of the table. -/
structure Interned (t : DeviceTree) (made : List Nat) : Prop where
  chained : ∃ chains, Chained t.strings t.buckets t.stringsCapacity chains (· ∈ made)
  nodup : made.Nodup
  text_inj : ∀ e ∈ made, ∀ e' ∈ made, (t.strings e).text = (t.strings e').text → e = e'
  capacity : (t.stringsCapacity = 0 ∧ t.table = 0) ∨ ∃ k < 32, 3 ≤ k ∧ t.stringsCapacity = 2 ^ k
  count : t.stringsCount = made.length
  load : t.stringsCount ≤ t.stringsCapacity - t.stringsCapacity / 4
  size : t.stringsSize = (made.map fun e => (t.strings e).text.room).sum

/-- What `BlDtGetString` has nothing to do with. -/
structure DeviceTree.Beside (t t' : DeviceTree) : Prop where
  root : t'.root = t.root
  rsvMem : t'.rsvMem = t.rsvMem
  rsvEntries : t'.rsvEntries = t.rsvEntries
  nodes : t'.nodes = t.nodes
  structureSize : t'.structureSize = t.structureSize

theorem entryBlocks_congr {strings strings' : Nat → DtString} {made : List Nat}
    (h : ∀ e ∈ made, (strings' e).text = (strings e).text ∧ (strings' e).data = (strings e).data) :
    DeviceTree.entryBlocks strings' made = DeviceTree.entryBlocks strings made := by
  unfold DeviceTree.entryBlocks
  congr 1
  refine List.flatMap_congr fun e he => ?_
  rw [(h e he).1, (h e he).2]

theorem entryBlocks_footprint (strings : Nat → DtString) (made : List Nat) :
    64 * made.length + (made.map fun e => (strings e).text.room).sum ≤
      ((DeviceTree.entryBlocks strings made).map Block.footprint).sum := by
  unfold DeviceTree.entryBlocks
  rw [Multiset.map_coe, Multiset.sum_coe]
  induction made with
  | nil => exact le_rfl
  | cons e made ih =>
    have hround := le_roundUp (strings e).text.room
    have hobject : (Block.plain e 16 4).footprint = 40 := by
      show 24 + roundUp 16 = 40
      decide
    have htext : (Block.plain (strings e).data (strings e).text.room 1).footprint =
        24 + roundUp (strings e).text.room := rfl
    rw [List.flatMap_cons, List.map_append, List.sum_append]
    simp only [List.map_cons, List.map_nil, List.sum_cons, List.sum_nil, List.length_cons, hobject, htext]
    omega

theorem entryBlocks_cons (strings : Nat → DtString) (e : Nat) (made : List Nat) :
    DeviceTree.entryBlocks strings (e :: made) = Block.plain e 16 4 ::ₘ
      Block.plain (strings e).data (strings e).text.room 1 ::ₘ
        DeviceTree.entryBlocks strings made := rfl

section
variable {t : DeviceTree} {made : List Nat} {statics : Finset Nat} {rest : Multiset Block}

/-- The entries, their texts and the table are all in the address space. -/
theorem Interned.fits (h : Interned t made)
    (hserves : t.world.Serves statics (t.stringBlocks made + rest)) :
    64 * made.length + t.stringsSize + 8 * t.stringsCapacity ≤ 4294967296 := by
  have hle := hserves.footprint_le
  have hentries := entryBlocks_footprint t.strings made
  have htable : 8 * t.stringsCapacity ≤ (t.tableBlocks.map Block.footprint).sum := by
    unfold DeviceTree.tableBlocks
    split_ifs with hcap
    · rw [hcap]
      exact Nat.zero_le _
    · have hround := le_roundUp (t.stringsCapacity * 8)
      rw [Multiset.map_singleton, Multiset.sum_singleton]
      show 8 * t.stringsCapacity ≤ 24 + roundUp (t.stringsCapacity * 8)
      omega
  rw [DeviceTree.stringBlocks, Multiset.map_add, Multiset.map_add, Multiset.sum_add,
    Multiset.sum_add] at hle
  rw [h.size]
  omega

theorem Interned.size_lt (h : Interned t made)
    (hserves : t.world.Serves statics (t.stringBlocks made + rest)) :
    t.stringsSize < 4294967296 := by
  have hfits := h.fits hserves
  have hload := h.load
  have hcount := h.count
  rcases h.capacity with ⟨hcap, -⟩ | ⟨k, hk, hk3, hcap⟩
  · -- there is no entry yet
    have hnone : made = [] := by
      apply List.eq_nil_of_length_eq_zero
      omega
    rw [h.size, hnone]
    show 0 < 4294967296
    decide
  · have hpos := Nat.two_pow_pos k
    omega

/-- A chain is shorter than what the loops over it allow for. -/
theorem Interned.chain_lt (h : Interned t made)
    (hserves : t.world.Serves statics (t.stringBlocks made + rest)) {chains : Nat → List Nat}
    (hchained : Chained t.strings t.buckets t.stringsCapacity chains (· ∈ made)) (i : Nat) :
    (chains i).length < rounds := by
  have hsub : chains i ⊆ made := fun e he => ((hchained.mem_iff i e).mp he).1
  have hle := ((hchained.lists i).nodup.subperm hsub).length_le
  have hfits := h.fits hserves
  simp only [rounds]
  omega

theorem Chained.imp {strings : Nat → DtString} {buckets : Nat → BlList} {capacity : Nat}
    {chains : Nat → List Nat} {S S' : Nat → Prop} (h : Chained strings buckets capacity chains S)
    (hiff : ∀ e, S e ↔ S' e) : Chained strings buckets capacity chains S' :=
  ⟨h.lists, fun i e => (h.mem_iff i e).trans (and_congr_left' (hiff e))⟩

/-- The table grows. -/
theorem Interned.grow (h : Interned t made)
    (hserves : t.world.Serves statics (t.stringBlocks made + rest))
    (hfull : t.stringsCount ≥ t.stringsCapacity - t.stringsCapacity / 4) :
    t.growTable = .error (.crash "out of memory") ∨
    ∃ t', t.growTable = .ok t' ∧ Interned t' made ∧
      t'.world.Serves statics (t'.stringBlocks made + rest) ∧
      SameEntries t.strings t'.strings ∧ t.Beside t' ∧ t'.stringsCapacity ≠ 0 ∧
      t'.stringsCount < t'.stringsCapacity - t'.stringsCapacity / 4 := by
  obtain ⟨chains, hchained⟩ := h.chained
  have hfits := h.fits hserves
  have hcount := h.count
  have hload := h.load
  -- the new capacity, and that its bytes do not wrap
  obtain ⟨k, hk, hk3, hnew, hmore⟩ : ∃ k < 28, 3 ≤ k ∧
      (if t.stringsCapacity ≠ 0 then mul32 t.stringsCapacity 2 else 8) = 2 ^ k ∧
      t.stringsCount < 2 ^ k - 2 ^ k / 4 := by
    rcases h.capacity with ⟨hcap, -⟩ | ⟨k, hk, hk3, hcap⟩
    · refine ⟨3, by decide, by decide, ?_, ?_⟩
      · rw [hcap]
        rfl
      · rw [hcap] at hload
        exact Nat.lt_of_le_of_lt hload (by decide)
    · have hk27 : k < 27 := by
        by_contra hge
        have hbig : 2 ^ 27 ≤ 2 ^ k := Nat.pow_le_pow_right (by decide) (by omega)
        omega
      have hsmall : 2 ^ k ≤ 2 ^ 26 := Nat.pow_le_pow_right (by decide) (by omega)
      have hlarge : 2 ^ 3 ≤ 2 ^ k := Nat.pow_le_pow_right (by decide) hk3
      refine ⟨k + 1, by omega, by omega, ?_, ?_⟩
      · rw [if_pos (by omega), hcap, pow_succ]
        exact Nat.mod_eq_of_lt (by omega)
      · rw [pow_succ]
        omega
  have hsmall : 2 ^ k ≤ 2 ^ 27 := Nat.pow_le_pow_right (by decide) (by omega)
  have hpos := Nat.two_pow_pos k
  have hbytes : mul32 (2 ^ k) 8 = 2 ^ k * 8 := Nat.mod_eq_of_lt (by omega)
  obtain ⟨strings', newTable', chains', hrelink, hchained', hlinks⟩ :=
    @relink_eq chains _ t (2 ^ k) hchained (h.chain_lt hserves hchained)
  have hset : ∀ e, (e ∈ made ∧
      bucketOf t.stringsCapacity (t.strings e).text < t.stringsCapacity) ↔ e ∈ made := by
    intro e
    refine ⟨fun he => he.1, fun he => ⟨he, ?_⟩⟩
    rcases h.capacity with ⟨hcap, -⟩ | ⟨k', hk', -, hcap⟩
    · -- an empty table has no entries
      rw [hcap] at hload
      have hnone : made = [] := List.eq_nil_of_length_eq_zero (by omega)
      rw [hnone] at he
      cases he
    · rw [hcap]
      exact bucketOf_lt hk' _
  have hroom : 0 < 2 ^ k * 8 := by omega
  have halloc := hserves.allocate (k := 2) hroom (by decide) (by omega)
  rw [show (2 : Nat) ^ 2 = 4 from rfl] at halloc
  rcases halloc with hcrash | ⟨world, table, hcall, hserves'⟩
  · refine .inl ?_
    unfold DeviceTree.growTable
    rw [hnew]
    dsimp only
    rw [hbytes, hcrash]
    rfl
  · have hgrow : t.growTable = .ok { t with
        world := world.release t.table, table, buckets := newTable', strings := strings'
        stringsCapacity := 2 ^ k } := by
      unfold DeviceTree.growTable
      rw [hnew]
      dsimp only
      rw [hbytes, hcall, hrelink]
      rfl
    have hsame := hlinks.1
    refine .inr ⟨_, hgrow, ?_, ?_, hsame, ⟨rfl, rfl, rfl, rfl, rfl⟩, hpos.ne', hmore⟩
    · refine ⟨⟨chains', hchained'.imp hset⟩, h.nodup, fun e he e' he' htext => ?_, ?_, hcount,
        hmore.le, ?_⟩
      · rw [(hsame e).1, (hsame e').1] at htext
        exact h.text_inj e he e' he' htext
      · exact .inr ⟨k, by omega, hk3, rfl⟩
      · rw [h.size]
        congr 1
        exact List.map_congr_left fun e _ => by rw [(hsame e).1]
    · have hentries : DeviceTree.entryBlocks strings' made = DeviceTree.entryBlocks t.strings made :=
        entryBlocks_congr fun e _ => ⟨(hsame e).1, (hsame e).2.1⟩
      show (world.release t.table).Serves statics
        (DeviceTree.entryBlocks strings' made + (if 2 ^ k = 0 then 0 else _) + rest)
      rw [hentries, if_neg hpos.ne']
      rcases h.capacity with ⟨hcap, htable⟩ | ⟨k', -, -, hcap⟩
      · -- there was no table
        rw [htable]
        have hold : t.tableBlocks = 0 := if_pos hcap
        rw [DeviceTree.stringBlocks, hold, add_zero] at hserves'
        have hsum : DeviceTree.entryBlocks t.strings made + {Block.plain table (2 ^ k * 8) 4} + rest =
            Block.plain table (2 ^ k * 8) 4 ::ₘ
              (DeviceTree.entryBlocks t.strings made + rest) := by
          rw [← Multiset.singleton_add]
          ac_rfl
        exact hsum ▸ hserves'.release_zero
      · have hne : t.stringsCapacity ≠ 0 := by
          have := Nat.two_pow_pos k'
          omega
        have hold : t.tableBlocks = {Block.plain t.table (t.stringsCapacity * 8) 4} := if_neg hne
        rw [DeviceTree.stringBlocks, hold] at hserves'
        have hsum : Block.plain table (2 ^ k * 8) 4 ::ₘ (DeviceTree.entryBlocks t.strings made +
            {Block.plain t.table (t.stringsCapacity * 8) 4} + rest) =
            Block.plain t.table (t.stringsCapacity * 8) 4 ::ₘ (DeviceTree.entryBlocks t.strings made +
              {Block.plain table (2 ^ k * 8) 4} + rest) := by
          rw [← Multiset.singleton_add, ← Multiset.singleton_add]
          ac_rfl
        rw [hsum] at hserves'
        exact hserves'.release

/-! ## A name -/

theorem strcmp_eq_zero {s₁ s₂ : List (BitVec 8)} (h₁ : ∀ b ∈ s₁, b ≠ 0) (h₂ : ∀ b ∈ s₂, b ≠ 0) :
    strcmp s₁ s₂ = 0 ↔ s₁ = s₂ := by
  induction s₁ generalizing s₂ with
  | nil =>
    cases s₂ with
    | nil => exact iff_of_true rfl rfl
    | cons c s₂ =>
      refine iff_of_false (fun hzero => h₂ c List.mem_cons_self ?_) (List.cons_ne_nil _ _).symm
      apply BitVec.eq_of_toNat_eq
      simp only [strcmp] at hzero
      simpa using hzero
  | cons c₁ s₁ ih =>
    cases s₂ with
    | nil =>
      refine iff_of_false (fun hzero => h₁ c₁ List.mem_cons_self ?_) (List.cons_ne_nil _ _)
      apply BitVec.eq_of_toNat_eq
      simp only [strcmp] at hzero
      simpa using hzero
    | cons c₂ s₂ =>
      have htail := ih (fun b hb => h₁ b (List.mem_cons_of_mem _ hb))
        (fun b hb => h₂ b (List.mem_cons_of_mem _ hb))
      have hne := h₁ c₁ List.mem_cons_self
      rw [strcmp, List.cons.injEq]
      by_cases heq : c₁ = c₂
      · rw [if_neg (by rw [heq]; simp), if_neg hne, htail]
        exact ⟨fun h => ⟨heq, h⟩, fun h => h.2⟩
      · have hdiff : (c₁.toNat : Int) - c₂.toNat ≠ 0 := by
          intro hzero
          apply heq
          apply BitVec.eq_of_toNat_eq
          omega
        rw [if_pos hdiff]
        exact iff_of_false hdiff fun h => heq h.1

theorem blCompareStrings_eq_zero (s₁ s₂ : CString) : blCompareStrings s₁ s₂ = 0 ↔ s₁ = s₂ := by
  rw [blCompareStrings, strcmp_eq_zero s₁.noNul s₂.noNul]
  constructor
  · intro h
    cases s₁
    cases s₂
    cases h
    rfl
  · rintro rfl
    rfl

/-- The search finds the entry of the name. -/
theorem Interned.findString_eq (h : Interned t made)
    (hserves : t.world.Serves statics (t.stringBlocks made + rest)) (str : CString) :
    (∃ e ∈ made, (t.strings e).text = str ∧
      t.findString (bucketOf t.stringsCapacity str) str = .ok (some e)) ∨
    ((∀ e ∈ made, (t.strings e).text ≠ str) ∧
      t.findString (bucketOf t.stringsCapacity str) str = .ok none) := by
  obtain ⟨chains, hchained⟩ := h.chained
  have hlist := hchained.lists (bucketOf t.stringsCapacity str)
  have hfind : t.findString (bucketOf t.stringsCapacity str) str =
      .ok ((chains (bucketOf t.stringsCapacity str)).find? fun e => (t.strings e).text = str) := by
    have hbody : (fun entry (found : Option Nat) =>
        if blCompareStrings (t.strings entry).text str = 0 then ForInStep.done (some entry)
        else .yield found) = fun entry found =>
        if decide ((t.strings entry).text = str) then .done (some entry) else .yield found := by
      funext entry found
      simp only [blCompareStrings_eq_zero, decide_eq_true_eq]
    rw [← foreachList_find, DeviceTree.findString, container_zero, hlist.head_eq, hbody]
    refine foreach_eq none (fun _ => hlist.pos) (fun before var after heq => ?_)
      (h.chain_lt hserves hchained _)
    rw [container_zero]
    rw [heq] at hlist
    exact hlist.next_eq
  rw [hfind]
  cases hfound : (chains (bucketOf t.stringsCapacity str)).find?
      fun e => (t.strings e).text = str with
  | some e =>
    obtain ⟨hmem, -⟩ := (hchained.mem_iff _ e).mp (List.mem_of_find?_eq_some hfound)
    have htext := List.find?_some hfound
    exact .inl ⟨e, hmem, of_decide_eq_true htext, rfl⟩
  | none =>
    refine .inr ⟨fun e he htext => ?_, rfl⟩
    have hbucket := hchained.bucket he
    rw [htext] at hbucket
    exact List.find?_eq_none.mp hfound e hbucket (decide_eq_true htext)

theorem Chained.congr {strings strings' : Nat → DtString} {buckets : Nat → BlList} {capacity : Nat}
    {chains : Nat → List Nat} {S : Nat → Prop} (h : Chained strings buckets capacity chains S)
    (hsame : ∀ e, S e → strings' e = strings e) : Chained strings' buckets capacity chains S where
  lists := by
    intro i
    have hkept : ∀ a ∈ chains i, strings' a = strings a := fun a ha =>
      hsame a ((h.mem_iff i a).mp ha).1
    exact Holds.congr (h.lists i) (fun a ha => congrArg DtString.prev (hkept a ha))
      fun a ha => congrArg DtString.next (hkept a ha)
  mem_iff := by
    intro i e
    rw [h.mem_iff]
    refine and_congr_right fun hS => ?_
    rw [hsame e hS]

/-- A new entry. -/
theorem Interned.add (h : Interned t made)
    (hserves : t.world.Serves statics (t.stringBlocks made + rest)) (hcap : t.stringsCapacity ≠ 0)
    (hroom : t.stringsCount < t.stringsCapacity - t.stringsCapacity / 4) {str : CString}
    (hnew : ∀ e ∈ made, (t.strings e).text ≠ str) :
    t.addString (blDtHash str) str = .error (.crash "out of memory") ∨
    ∃ t' e, t.addString (blDtHash str) str = .ok (t', e) ∧ e ∉ made ∧
      (t'.strings e).text = str ∧ Interned t' (e :: made) ∧
      t'.world.Serves statics (t'.stringBlocks (e :: made) + rest) ∧
      (∀ x ∈ made, (t'.strings x).text = (t.strings x).text) ∧ t.Beside t' := by
  have hfits := str.fits
  have hlength : add32 str.length 1 = str.room := Nat.mod_eq_of_lt (by
    have : str.length = str.bytes.length := rfl
    omega)
  have hsixteen : 0 < 16 := by decide
  have hobject := hserves.allocate (k := 2) hsixteen (by decide) (by decide)
  rw [show (2 : Nat) ^ 2 = 4 from rfl] at hobject
  rcases hobject with hcrash | ⟨world₁, e, hcall₁, hserves₁⟩
  · refine .inl ?_
    unfold DeviceTree.addString
    rw [hcrash]
    rfl
  have hsome : 0 < str.room := Nat.succ_pos _
  have htext := hserves₁.allocate (k := 0) hsome (by decide) (by
    have : str.room = str.bytes.length + 1 := rfl
    omega)
  rw [pow_zero] at htext
  rcases htext with hcrash | ⟨world₂, data, hcall₂, hserves₂⟩
  · refine .inl ?_
    unfold DeviceTree.addString
    rw [hcall₁]
    show (world₁.allocate (add32 str.length 1) 1 false >>= _) = _
    rw [hlength, hcrash]
    rfl
  have he : e ∉ made := by
    intro hmem
    -- its block is not one of those that are out already
    have hout : Block.plain e 16 4 ∈ t.stringBlocks made + rest := by
      refine Multiset.mem_add.mpr (.inl (Multiset.mem_add.mpr (.inl ?_)))
      exact List.mem_flatMap.mpr ⟨e, hmem, List.mem_cons_self⟩
    exact (Multiset.nodup_cons.mp hserves₁.nodup).1 hout
  have he0 : e ≠ 0 := by
    have hbounds := hserves₁.bounds (Multiset.mem_cons_self _ _)
    have hptr : 24 < e := hbounds.1
    omega
  obtain ⟨chains, hchained⟩ := h.chained
  have hwith := @Chained.congr _ (Function.update t.strings e { t.strings e with data, text := str })
    _ _ _ _ hchained fun x (hx : x ∈ made) =>
      Function.update_of_ne (fun heq : x = e => he (heq ▸ hx)) _ _
  have hself : Function.update t.strings e { t.strings e with data, text := str } e =
      { t.strings e with data, text := str } := Function.update_self ..
  have hbucket : bucketOf t.stringsCapacity
      (Function.update t.strings e { t.strings e with data, text := str } e).text =
      blDtHash str &&& sub32 t.stringsCapacity 1 := by
    rw [hself]
    rfl
  obtain ⟨r, hr⟩ : ∃ r, blListInsertAfter stringNode
      (Function.update t.strings e { t.strings e with data, text := str })
      (t.buckets (blDtHash str &&& sub32 t.stringsCapacity 1)) 0 e = r := ⟨_, rfl⟩
  obtain ⟨⟨chains', hchained'⟩, hlinks⟩ := hwith.insert he0 he hbucket hr
  have hcall : t.addString (blDtHash str) str = .ok ({ t with
      world := world₂, strings := r.1
      buckets := Function.update t.buckets (blDtHash str &&& sub32 t.stringsCapacity 1) r.2
      stringsCount := t.stringsCount + 1, stringsSize := add32 t.stringsSize str.room }, e) := by
    unfold DeviceTree.addString
    rw [hcall₁]
    show (world₁.allocate (add32 str.length 1) 1 false >>= _) = _
    rw [hlength, hcall₂]
    dsimp only
    rw [← hr, ← hlength]
    rfl
  have hold : ∀ x ∈ made, (r.1 x).text = (t.strings x).text ∧ (r.1 x).data = (t.strings x).data := by
    intro x hx
    have hne : x ≠ e := fun heq => he (heq ▸ hx)
    obtain ⟨htext, hdata, -⟩ := hlinks.1 x
    rw [htext, hdata, Function.update_of_ne hne]
    exact ⟨rfl, rfl⟩
  have hnewText : (r.1 e).text = str ∧ (r.1 e).data = data := by
    obtain ⟨htext, hdata, -⟩ := hlinks.1 e
    rw [htext, hdata, hself]
    exact ⟨rfl, rfl⟩
  have hblocks : DeviceTree.entryBlocks r.1 (e :: made) = Block.plain e 16 4 ::ₘ
      Block.plain data str.room 1 ::ₘ DeviceTree.entryBlocks t.strings made := by
    rw [entryBlocks_cons, hnewText.1, hnewText.2, entryBlocks_congr hold]
  have hserves₃ : world₂.Serves statics (DeviceTree.entryBlocks r.1 (e :: made) + t.tableBlocks + rest) := by
    have hsum : DeviceTree.entryBlocks r.1 (e :: made) + t.tableBlocks + rest =
        Block.plain data str.room 1 ::ₘ Block.plain e 16 4 ::ₘ (t.stringBlocks made + rest) := by
      rw [hblocks, DeviceTree.stringBlocks, ← Multiset.singleton_add, ← Multiset.singleton_add,
        ← Multiset.singleton_add, ← Multiset.singleton_add]
      ac_rfl
    rw [hsum]
    exact hserves₂
  refine .inr ⟨_, e, hcall, he, hnewText.1, ?_, hserves₃, fun x hx => (hold x hx).1,
    ⟨rfl, rfl, rfl, rfl, rfl⟩⟩
  refine ⟨⟨chains', hchained'.imp fun x => List.mem_cons.symm⟩, List.nodup_cons.mpr ⟨he, h.nodup⟩,
    ?_, ?_, ?_, hroom, ?_⟩
  · intro x hx y hy htext
    rcases List.mem_cons.mp hx with hxe | hxold <;> rcases List.mem_cons.mp hy with hye | hyold
    · rw [hxe, hye]
    · rw [hxe] at htext
      exact absurd ((hold y hyold).1.symm.trans (htext.symm.trans hnewText.1)) (hnew y hyold)
    · rw [hye] at htext
      exact absurd ((hold x hxold).1.symm.trans (htext.trans hnewText.1)) (hnew x hxold)
    · exact h.text_inj x hxold y hyold
        ((hold x hxold).1.symm.trans (htext.trans (hold y hyold).1))
  · exact .inr (h.capacity.resolve_left fun hnone => hcap hnone.1)
  · show t.stringsCount + 1 = made.length + 1
    rw [h.count]
  · have hle := hserves₂.footprint_le
    have hentries := entryBlocks_footprint t.strings made
    have hround := le_roundUp str.room
    have hroomFootprint : (Block.plain data str.room 1).footprint = 24 + roundUp str.room := rfl
    rw [Multiset.map_cons, Multiset.sum_cons, Multiset.map_cons, Multiset.sum_cons,
      DeviceTree.stringBlocks, Multiset.map_add, Multiset.map_add, Multiset.sum_add,
      Multiset.sum_add, hroomFootprint] at hle
    have hsize := h.size
    have hnowrap : add32 t.stringsSize str.room = t.stringsSize + str.room :=
      Nat.mod_eq_of_lt (by omega)
    show add32 t.stringsSize str.room = _
    rw [hnowrap, List.map_cons, List.sum_cons, hnewText.1, hsize, Nat.add_comm]
    congr 2
    exact List.map_congr_left fun x hx => by rw [(hold x hx).1]

/-- What `BlDtGetString` searches first. -/
def DeviceTree.search (t : DeviceTree) (str : CString) : Except Stop (Option Nat) :=
  if t.stringsCount ≠ 0 then t.findString (bucketOf t.stringsCapacity str) str else .ok none

theorem blDtGetString_found {str : CString} {e : Nat} (h : t.search str = .ok (some e)) :
    t.blDtGetString str = .ok (t, e) := by
  unfold DeviceTree.search bucketOf at h
  unfold DeviceTree.blDtGetString
  dsimp only
  by_cases hcount : t.stringsCount ≠ 0
  · rw [if_pos hcount] at h ⊢
    rw [h]
    rfl
  · rw [if_neg hcount] at h
    cases h

theorem blDtGetString_new {str : CString} (h : t.search str = .ok none) :
    t.blDtGetString str =
      (if t.stringsCount ≥ t.stringsCapacity - t.stringsCapacity / 4 then t.growTable else .ok t) >>=
        fun t => t.addString (blDtHash str) str := by
  unfold DeviceTree.search bucketOf at h
  unfold DeviceTree.blDtGetString
  dsimp only
  by_cases hcount : t.stringsCount ≠ 0
  · rw [if_pos hcount] at h ⊢
    rw [h]
    by_cases hfull : t.stringsCount ≥ t.stringsCapacity - t.stringsCapacity / 4
    · rw [if_pos hfull, if_pos hfull]
      rfl
    · rw [if_neg hfull, if_neg hfull]
      rfl
  · rw [if_neg hcount]
    by_cases hfull : t.stringsCount ≥ t.stringsCapacity - t.stringsCapacity / 4
    · rw [if_pos hfull, if_pos hfull]
      rfl
    · rw [if_neg hfull, if_neg hfull]
      rfl

/-- A call of `BlDtGetString`. -/
theorem Interned.getString (h : Interned t made)
    (hserves : t.world.Serves statics (t.stringBlocks made + rest)) (str : CString) :
    t.blDtGetString str = .error (.crash "out of memory") ∨
    (∃ e ∈ made, (t.strings e).text = str ∧ t.blDtGetString str = .ok (t, e)) ∨
    ((∀ e ∈ made, (t.strings e).text ≠ str) ∧
      ∃ t' e, t.blDtGetString str = .ok (t', e) ∧ e ∉ made ∧ (t'.strings e).text = str ∧
        Interned t' (e :: made) ∧ t'.world.Serves statics (t'.stringBlocks (e :: made) + rest) ∧
        (∀ x ∈ made, (t'.strings x).text = (t.strings x).text) ∧ t.Beside t') := by
  have hsearch : (∃ e ∈ made, (t.strings e).text = str ∧ t.search str = .ok (some e)) ∨
      ((∀ e ∈ made, (t.strings e).text ≠ str) ∧ t.search str = .ok none) := by
    unfold DeviceTree.search
    by_cases hcount : t.stringsCount ≠ 0
    · rw [if_pos hcount]
      exact h.findString_eq hserves str
    · rw [if_neg hcount]
      have hlength := h.count
      have hnone : made = [] := List.eq_nil_of_length_eq_zero (by omega)
      refine .inr ⟨fun e he => ?_, rfl⟩
      rw [hnone] at he
      cases he
  rcases hsearch with ⟨e, he, htext, hfound⟩ | ⟨hnew, hnone⟩
  · exact .inr (.inl ⟨e, he, htext, blDtGetString_found hfound⟩)
  rw [blDtGetString_new hnone]
  by_cases hfull : t.stringsCount ≥ t.stringsCapacity - t.stringsCapacity / 4
  · rw [if_pos hfull]
    rcases h.grow hserves hfull with hcrash | ⟨u, hgrow, hu, hserves', hsame, hbeside, hcap, hroom⟩
    · rw [hcrash]
      exact .inl rfl
    rw [hgrow]
    have hnew' : ∀ e ∈ made, (u.strings e).text ≠ str := by
      intro e he
      rw [(hsame e).1]
      exact hnew e he
    rcases hu.add hserves' hcap hroom hnew' with
      hcrash | ⟨t', e, hadd, he, htext, hinterned, hserves'', hkept, hbeside'⟩
    · exact .inl hcrash
    · refine .inr (.inr ⟨hnew, t', e, hadd, he, htext, hinterned, hserves'', fun x hx => ?_, ?_⟩)
      · rw [hkept x hx, (hsame x).1]
      · exact ⟨hbeside'.root.trans hbeside.root, hbeside'.rsvMem.trans hbeside.rsvMem,
          hbeside'.rsvEntries.trans hbeside.rsvEntries, hbeside'.nodes.trans hbeside.nodes,
          hbeside'.structureSize.trans hbeside.structureSize⟩
  · rw [if_neg hfull]
    have hcap : t.stringsCapacity ≠ 0 := by
      intro hzero
      rw [hzero] at hfull
      exact hfull (Nat.zero_le _)
    rcases h.add hserves hcap (Nat.lt_of_not_le hfull) hnew with hcrash | ⟨t', e, hadd, hrest⟩
    · exact .inl hcrash
    · exact .inr (.inr ⟨hnew, t', e, hadd, hrest⟩)

end

/-! ## The strings block -/

theorem storeBytes_append (m : ByteMemory) (a : Nat) (xs ys : List (BitVec 8)) :
    storeBytes (storeBytes m a xs) (a + xs.length) ys = storeBytes m a (xs ++ ys) := by
  funext x
  simp only [storeBytes, put, List.length_append]
  by_cases hxs : a ≤ x ∧ x < a + xs.length
  · rw [if_neg (by omega), if_pos hxs, if_pos (by omega), List.getD_append _ _ _ _ (by omega)]
  · by_cases hys : a + xs.length ≤ x ∧ x < a + xs.length + ys.length
    · rw [if_pos hys, if_pos (by omega), List.getD_append_right _ _ _ _ (by omega)]
      congr 1
      omega
    · rw [if_neg hys, if_neg hxs, if_neg (by omega)]

/-- Bytes in front of those that are there. -/
theorem storeBytes_prepend (m : ByteMemory) (a : Nat) (xs ys : List (BitVec 8)) :
    storeBytes (storeBytes m (a + xs.length) ys) a xs = storeBytes m a (xs ++ ys) := by
  funext x
  simp only [storeBytes, put, List.length_append]
  by_cases hxs : a ≤ x ∧ x < a + xs.length
  · rw [if_pos hxs, if_pos (by omega), List.getD_append _ _ _ _ (by omega)]
  · by_cases hys : a + xs.length ≤ x ∧ x < a + xs.length + ys.length
    · rw [if_neg hxs, if_pos hys, if_pos (by omega), List.getD_append_right _ _ _ _ (by omega)]
      congr 1
      omega
    · rw [if_neg hxs, if_neg hys, if_neg (by omega)]

theorem storeBytes_at (m : ByteMemory) (a : Nat) {xs : List (BitVec 8)} {i : Nat}
    (hi : i < xs.length) : storeBytes m a xs (a + i) = xs.getD i 0 := by
  show (if a ≤ a + i ∧ a + i < a + xs.length then xs.getD (a + i - a) 0 else m (a + i)) = _
  rw [if_pos ⟨Nat.le_add_right a i, Nat.add_lt_add_left hi a⟩, Nat.add_sub_cancel_left]

theorem write8_eq_storeBytes (m : ByteMemory) (a : Nat) (v : BitVec 8) :
    m.write8 a v = storeBytes m a [v] := by
  funext x
  by_cases hx : x = a
  · subst hx
    rw [write8_self]
    show v = if x ≤ x ∧ x < x + 1 then [v].getD (x - x) 0 else m x
    rw [if_pos ⟨le_rfl, Nat.lt_succ_self x⟩, Nat.sub_self]
    rfl
  · rw [write8_of_ne m v hx]
    refine (if_neg fun h => hx ?_).symm
    have hlt : x < a + 1 := h.2
    omega

theorem storeBytes_nil (m : ByteMemory) (a : Nat) : storeBytes m a [] = m := by
  funext x
  exact if_neg fun h => absurd h.2 (Nat.not_lt.mpr h.1)

theorem CString.length_chars (s : CString) : s.chars.length = s.room := by
  rw [CString.chars, List.length_append, List.length_singleton]
  rfl

/-- The strings block for these entries, and its length. -/
def charsOf (strings : Nat → DtString) (es : List Nat) : List (BitVec 8) :=
  es.flatMap fun e => (strings e).text.chars

def roomOf (strings : Nat → DtString) (es : List Nat) : Nat :=
  (es.map fun e => (strings e).text.room).sum

theorem length_charsOf (strings : Nat → DtString) (es : List Nat) :
    (charsOf strings es).length = roomOf strings es := by
  rw [charsOf, List.length_flatMap, roomOf]
  simp only [CString.length_chars]

/-- Only the identifiers have changed, and those of `done` are the places of their texts. -/
structure Placed (strings strings' : Nat → DtString) (done : List Nat) : Prop where
  text : ∀ e, (strings' e).text = (strings e).text
  next : ∀ e, (strings' e).next = (strings e).next
  identifier : ∀ before e after, done = before ++ e :: after →
    (strings' e).identifier = roomOf strings before

/-- The rest of a chain. -/
theorem emitChain_eq {t : DeviceTree} {base fuel p : Nat} {mem : ByteMemory} {rest done : List Nat}
    {strings : Nat → DtString} (h : Placed t.strings strings done)
    (hrest : Segment (stringNode.prev t.strings) (stringNode.next t.strings) p rest 0)
    (hpos : ∀ e ∈ rest, e ≠ 0) (hnodup : (done ++ rest).Nodup)
    (hroom : roomOf t.strings (done ++ rest) ≤ t.stringsSize) (hsize : t.stringsSize < 4294967296)
    (hfuel : rest.length < fuel) :
    ∃ strings', t.emitChain base fuel (rest.headD 0) (strings,
        { mem := storeBytes mem base (charsOf t.strings done), offset := roomOf t.strings done }) =
      .ok (strings', { mem := storeBytes mem base (charsOf t.strings (done ++ rest))
                       offset := roomOf t.strings (done ++ rest) }) ∧
      Placed t.strings strings' (done ++ rest) := by
  induction rest generalizing p fuel done strings with
  | nil =>
    obtain ⟨fuel, rfl⟩ := Nat.exists_eq_add_of_lt hfuel
    rw [List.append_nil]
    exact ⟨strings, by simp [DeviceTree.emitChain], h⟩
  | cons e rest ih =>
    obtain ⟨fuel, rfl⟩ := Nat.exists_eq_add_of_lt hfuel
    obtain ⟨-, hnext, hrest⟩ := hrest
    have hsplit : done ++ e :: rest = (done ++ [e]) ++ rest := by simp
    rw [hsplit] at hnodup hroom ⊢
    have hone : roomOf t.strings (done ++ [e]) = roomOf t.strings done + (t.strings e).text.room := by
      simp [roomOf]
    have hle : roomOf t.strings (done ++ [e]) ≤ t.stringsSize := by
      refine Nat.le_trans ?_ hroom
      simp [roomOf]
    have hne : ∀ x ∈ done, x ≠ e := by
      rintro x hx rfl
      have hnodup' := hnodup.of_append_left
      exact (List.nodup_append.mp hnodup').2.2 x hx x (List.mem_singleton_self x) rfl
    have hplaced : Placed t.strings
        (Function.update strings e { strings e with identifier := roomOf t.strings done })
        (done ++ [e]) := by
      refine ⟨fun x => ?_, fun x => ?_, fun before x after hx => ?_⟩
      · by_cases hxe : x = e
        · rw [hxe, Function.update_self]
          exact h.text e
        · rw [Function.update_of_ne hxe, h.text]
      · by_cases hxe : x = e
        · rw [hxe, Function.update_self]
          exact h.next e
        · rw [Function.update_of_ne hxe, h.next]
      · -- the new one is the last
        rcases List.eq_nil_or_concat after with rfl | ⟨after, y, rfl⟩
        · obtain ⟨rfl, hxe⟩ := List.append_inj' hx rfl
          cases hxe
          rw [Function.update_self]
        · have hx' : done ++ [e] = (before ++ x :: after) ++ [y] := by simpa using hx
          obtain ⟨hdone, -⟩ := List.append_inj' hx' rfl
          have hmem : x ∈ done := by
            rw [hdone]
            simp
          rw [Function.update_of_ne (hne x hmem)]
          exact h.identifier before x after hdone
    have hpos' : ∀ x ∈ rest, x ≠ 0 := fun x hx => hpos x (List.mem_cons_of_mem e hx)
    have hfuel' : rest.length < (e :: rest).length + fuel := by
      rw [List.length_cons]
      omega
    obtain ⟨strings', hrun, hdone⟩ := ih hplaced hrest hpos' hnodup hroom hfuel'
    refine ⟨strings', ?_, hdone⟩
    rw [← hrun, List.headD_cons, DeviceTree.emitChain, if_pos (hpos e List.mem_cons_self)]
    have hfits := (t.strings e).text.fits
    have hlength : add32 (strings e).text.length 1 = (t.strings e).text.room := by
      rw [h.text]
      refine Nat.mod_eq_of_lt ?_
      have : (t.strings e).text.length = (t.strings e).text.bytes.length := rfl
      omega
    have hoffset : add32 (roomOf t.strings done) (t.strings e).text.room =
        roomOf t.strings (done ++ [e]) := by
      rw [hone]
      exact Nat.mod_eq_of_lt (by omega)
    have hmem : storeBytes (storeBytes mem base (charsOf t.strings done))
        (base + roomOf t.strings done) (t.strings e).text.chars =
        storeBytes mem base (charsOf t.strings (done ++ [e])) := by
      rw [← length_charsOf, storeBytes_append]
      congr 1
      simp [charsOf]
    have hlink : container 0 (stringNode.next
        (Function.update strings e { strings e with identifier := roomOf t.strings done }) e) =
        rest.headD 0 := by
      rw [container_zero, ← hnext]
      exact hplaced.next e
    dsimp only
    rw [hlength, hoffset, if_neg (by omega), Function.update_self]
    rw [hlink, h.text, hmem]

section
variable {t : DeviceTree} {made : List Nat} {statics : Finset Nat} {rest : Multiset Block}

theorem roomOf_perm (strings : Nat → DtString) {es es' : List Nat} (h : es.Perm es') :
    roomOf strings es = roomOf strings es' := (h.map _).sum_eq

/-- The chains one after the other have every entry once. -/
theorem Interned.chains_perm (h : Interned t made) {chains : Nat → List Nat}
    (hchained : Chained t.strings t.buckets t.stringsCapacity chains (· ∈ made)) :
    ((List.range t.stringsCapacity).flatMap chains).Perm made := by
  refine (List.perm_ext_iff_of_nodup ?_ h.nodup).mpr fun e => ?_
  · refine List.nodup_flatMap.mpr ⟨fun i _ => (hchained.lists i).nodup, ?_⟩
    refine List.nodup_range.imp fun {i j} hne e hi hj => hne ?_
    exact ((hchained.mem_iff i e).mp hi).2.symm.trans ((hchained.mem_iff j e).mp hj).2
  · rw [List.mem_flatMap]
    constructor
    · rintro ⟨i, -, he⟩
      exact ((hchained.mem_iff i e).mp he).1
    · intro he
      refine ⟨_, List.mem_range.mpr ?_, hchained.bucket he⟩
      rcases h.capacity with ⟨hcap, -⟩ | ⟨k, hk, -, hcap⟩
      · have hload := h.load
        have hcount := h.count
        rw [hcap] at hload
        have hnone : made = [] := List.eq_nil_of_length_eq_zero (by omega)
        rw [hnone] at he
        cases he
      · rw [hcap]
        exact bucketOf_lt hk _

/-- The strings block has the texts of the entries, one behind the other. -/
theorem Interned.emitStrings_eq (h : Interned t made)
    (hserves : t.world.Serves statics (t.stringBlocks made + rest)) (base : Nat)
    (mem : ByteMemory) :
    ∃ order strings', order.Perm made ∧ Placed t.strings strings' order ∧
      t.emitStrings base mem = .ok (strings', storeBytes mem base (charsOf t.strings order)) := by
  obtain ⟨chains, hchained⟩ := h.chained
  have hperm := h.chains_perm hchained
  have hnodup := hperm.nodup_iff.mpr h.nodup
  have hroom : roomOf t.strings ((List.range t.stringsCapacity).flatMap chains) = t.stringsSize := by
    rw [roomOf_perm _ hperm, h.size]
    rfl
  have hsize := h.size_lt hserves
  have hall : ∀ n ≤ t.stringsCapacity, ∃ strings',
      Placed t.strings strings' ((List.range n).flatMap chains) ∧
      (List.range n).foldlM
        (fun s i => t.emitChain base rounds (container 0 (t.buckets i).head) s)
        (t.strings, { mem, offset := 0 }) =
        .ok (strings', { mem := storeBytes mem base (charsOf t.strings ((List.range n).flatMap chains))
                         offset := roomOf t.strings ((List.range n).flatMap chains) }) := by
    intro n
    induction n with
    | zero =>
      intro _
      refine ⟨t.strings, ⟨fun _ => rfl, fun _ => rfl, fun before e after he => ?_⟩, ?_⟩
      · simp at he
      · show _ = Except.ok (t.strings, (⟨storeBytes mem base [], 0⟩ : Emitted))
        rw [storeBytes_nil]
        rfl
    | succ n ih =>
      intro hn
      obtain ⟨strings₁, hplaced, hrun⟩ := ih (by omega)
      have hlist := hchained.lists n
      have hbegin : (List.range (n + 1)).flatMap chains =
          (List.range n).flatMap chains ++ chains n := by
        rw [List.range_succ, List.flatMap_append]
        simp
      -- what comes so far is a part of it all
      have hsub : ((List.range n).flatMap chains ++ chains n).Sublist
          ((List.range t.stringsCapacity).flatMap chains) := by
        rw [← hbegin]
        exact (List.range_sublist.mpr hn).flatMap chains
      have hle : roomOf t.strings ((List.range n).flatMap chains ++ chains n) ≤ t.stringsSize := by
        rw [← hroom]
        exact (hsub.map _).sum_le_sum fun _ _ => Nat.zero_le _
      obtain ⟨strings₂, hchain, hplaced₂⟩ := @emitChain_eq t base rounds 0 mem _ _ _ hplaced
        hlist.segment (fun _ => hlist.pos) (hnodup.sublist hsub) hle hsize
        (h.chain_lt hserves hchained n)
      rw [hbegin]
      refine ⟨strings₂, hplaced₂, ?_⟩
      rw [List.range_succ, List.foldlM_append, hrun]
      show (t.emitChain base rounds (container 0 (t.buckets n).head) _ >>= pure) = _
      rw [container_zero, hlist.head_eq, hchain]
      rfl
  obtain ⟨strings', hplaced, hrun⟩ := hall t.stringsCapacity le_rfl
  refine ⟨_, strings', hperm, hplaced, ?_⟩
  unfold DeviceTree.emitStrings
  rw [hrun]
  show (if roomOf t.strings _ ≠ t.stringsSize then _ else _) = _
  rw [hroom]
  exact if_neg fun hne => hne rfl

end

/-! ## Every sequence of names -/

/-- What `BlDtGetString` keeps is as it was. -/
structure SameTable (t u : DeviceTree) : Prop where
  table : u.table = t.table
  buckets : u.buckets = t.buckets
  stringsCount : u.stringsCount = t.stringsCount
  stringsCapacity : u.stringsCapacity = t.stringsCapacity
  stringsSize : u.stringsSize = t.stringsSize
  strings : u.strings = t.strings

/-- The calls of `BlDtGetString`, the last one first, each with the entry that it returned. -/
abbrev NameLog := List (CString × Nat)

/-- The entries that there are. -/
def NameLog.entries (log : NameLog) : List Nat := (log.map (·.2)).dedup

/-- Names are looked up, one after the other. In between anything else can happen that leaves the
table and its blocks alone. -/
inductive Interns (t₀ : DeviceTree) : NameLog → DeviceTree → Prop where
  | start : Interns t₀ [] t₀
  | get {log : NameLog} {t u : DeviceTree} {name : CString} {e : Nat} (h : Interns t₀ log t)
      (hcall : t.blDtGetString name = .ok (u, e)) : Interns t₀ ((name, e) :: log) u
  | elsewhere {log : NameLog} {t u : DeviceTree} (h : Interns t₀ log t) (hsame : SameTable t u)
      (hserves : ∀ statics, t.world.Serves statics (t.stringBlocks log.entries) →
        u.world.Serves statics (t.stringBlocks log.entries)) : Interns t₀ log u

/-- The invariant of such a run. -/
structure Logged (statics : Finset Nat) (t : DeviceTree) (log : NameLog) : Prop where
  interned : Interned t log.entries
  serves : t.world.Serves statics (t.stringBlocks log.entries)
  text : ∀ p ∈ log, (t.strings p.2).text = p.1

section
variable {t u : DeviceTree} {log : NameLog} {statics : Finset Nat}

theorem NameLog.mem_entries {p : CString × Nat} (h : p ∈ log) : p.2 ∈ log.entries :=
  List.mem_dedup.mpr (List.mem_map_of_mem h)

theorem interned_start (world : World) (root name : Nat) (strings : Nat → DtString)
    (nodes : Nat → DtNode) : Interned (.start world root name strings nodes) [] where
  chained := ⟨fun _ => [], fun _ => lists_init _, by simp⟩
  nodup := List.nodup_nil
  text_inj := nofun
  capacity := .inl ⟨rfl, rfl⟩
  count := rfl
  load := by
    show 0 ≤ 0 - 0 / 4
    decide
  size := rfl

theorem Interned.same {es : List Nat} (h : Interned t es) (hsame : SameTable t u) :
    Interned u es := by
  obtain ⟨htable, hbuckets, hcount, hcapacity, hsize, hstrings⟩ := hsame
  obtain ⟨chained, nodup, text_inj, capacity, count, load, size⟩ := h
  refine ⟨?_, nodup, ?_, ?_, ?_, ?_, ?_⟩
  · rwa [hstrings, hbuckets, hcapacity]
  · rwa [hstrings]
  · rwa [hcapacity, htable]
  · rwa [hcount]
  · rwa [hcount, hcapacity]
  · rwa [hsize, hstrings]

theorem SameTable.stringBlocks_eq (h : SameTable t u) (es : List Nat) :
    u.stringBlocks es = t.stringBlocks es := by
  unfold DeviceTree.stringBlocks DeviceTree.tableBlocks
  rw [h.strings, h.stringsCapacity, h.table]

theorem Logged.same (h : Logged statics t log) (hsame : SameTable t u)
    (hserves : u.world.Serves statics (t.stringBlocks log.entries)) : Logged statics u log where
  interned := h.interned.same hsame
  serves := by
    rwa [hsame.stringBlocks_eq]
  text := by
    rw [hsame.strings]
    exact h.text

theorem Logged.get (h : Logged statics t log) {name : CString} {e : Nat}
    (hcall : t.blDtGetString name = .ok (u, e)) : Logged statics u ((name, e) :: log) := by
  have hserves := h.serves
  rw [← add_zero (t.stringBlocks log.entries)] at hserves
  rcases h.interned.getString hserves name with hcrash | ⟨e', he, htext, hfound⟩ | ⟨hnew, u', e',
      hadded, he, htext, hinterned, hserves', hkept, -⟩
  · rw [hcrash] at hcall
    cases hcall
  · -- the entry is one of those that there are
    rw [hfound] at hcall
    cases hcall
    have hentries : NameLog.entries ((name, e) :: log) = log.entries := by
      refine List.dedup_cons_of_mem ?_
      exact List.mem_dedup.mp he
    refine ⟨?_, ?_, fun p hp => ?_⟩
    · rw [hentries]
      exact h.interned
    · rw [hentries]
      exact h.serves
    · rcases List.mem_cons.mp hp with rfl | hp
      · exact htext
      · exact h.text p hp
  · rw [hadded] at hcall
    cases hcall
    have hentries : NameLog.entries ((name, e) :: log) = e :: log.entries := by
      refine List.dedup_cons_of_notMem ?_
      exact fun hmem => he (List.mem_dedup.mpr hmem)
    rw [add_zero] at hserves'
    refine ⟨?_, ?_, fun p hp => ?_⟩
    · rw [hentries]
      exact hinterned
    · rw [hentries]
      exact hserves'
    · rcases List.mem_cons.mp hp with rfl | hp
      · exact htext
      · rw [hkept p.2 (NameLog.mem_entries hp), h.text p hp]

theorem Interns.logged {world : World} {root name : Nat} {strings : Nat → DtString}
    {nodes : Nat → DtNode} (hrun : Interns (.start world root name strings nodes) log t)
    (hserves : world.Serves statics 0) : Logged statics t log := by
  induction hrun with
  | start => exact ⟨interned_start world root name strings nodes, hserves, nofun⟩
  | get _ hcall ih => exact ih.get hcall
  | elsewhere _ hsame hleft ih => exact ih.same hsame (hleft statics ih.serves)

theorem Logged.entry_iff (h : Logged statics t log) {p q : CString × Nat} (hp : p ∈ log)
    (hq : q ∈ log) : p.2 = q.2 ↔ p.1 = q.1 := by
  constructor
  · intro heq
    rw [← h.text p hp, heq, h.text q hq]
  · intro heq
    apply h.interned.text_inj _ (NameLog.mem_entries hp) _ (NameLog.mem_entries hq)
    rw [h.text p hp, heq, h.text q hq]

/-- The distinct names take as much as their entries. -/
theorem Logged.size_eq (h : Logged statics t log) :
    t.stringsSize = (((log.map (·.1)).dedup).map CString.room).sum := by
  have hall : ∀ l : NameLog, (∀ p ∈ l, p ∈ log) →
      (l.entries.map fun e => (t.strings e).text) = (l.map (·.1)).dedup := by
    intro l
    induction l with
    | nil => exact fun _ => rfl
    | cons p l ih =>
      intro hl
      have ih := ih fun q hq => hl q (List.mem_cons_of_mem p hq)
      have hp := hl p List.mem_cons_self
      -- the entry is there already just when the name is
      have hiff : p.2 ∈ l.map (·.2) ↔ p.1 ∈ l.map (·.1) := by
        simp only [List.mem_map]
        constructor
        · rintro ⟨q, hq, heq⟩
          exact ⟨q, hq, (h.entry_iff (hl q (List.mem_cons_of_mem p hq)) hp).mp heq⟩
        · rintro ⟨q, hq, heq⟩
          exact ⟨q, hq, (h.entry_iff (hl q (List.mem_cons_of_mem p hq)) hp).mpr heq⟩
      by_cases hmem : p.2 ∈ l.map (·.2)
      · rw [NameLog.entries, List.map_cons, List.map_cons, List.dedup_cons_of_mem hmem,
          List.dedup_cons_of_mem (hiff.mp hmem)]
        exact ih
      · rw [NameLog.entries, List.map_cons, List.map_cons, List.dedup_cons_of_notMem hmem,
          List.dedup_cons_of_notMem fun hname => hmem (hiff.mpr hname), List.map_cons, h.text p hp]
        exact congrArg (p.1 :: ·) ih
  rw [h.interned.size, ← hall log fun _ hp => hp, List.map_map]
  rfl

theorem roomOf_append (strings : Nat → DtString) (es es' : List Nat) :
    roomOf strings (es ++ es') = roomOf strings es + roomOf strings es' := by
  simp [roomOf]

theorem roomOf_cons (strings : Nat → DtString) (e : Nat) (es : List Nat) :
    roomOf strings (e :: es) = (strings e).text.room + roomOf strings es := by
  simp [roomOf]

/-- Of two entries one is before the other. -/
theorem Placed.apart {strings strings' : Nat → DtString} {order : List Nat}
    (h : Placed strings strings' order) {e e' : Nat} (he : e ∈ order) (he' : e' ∈ order)
    (hne : e ≠ e') :
    (strings' e).identifier + (strings e).text.room ≤ (strings' e').identifier ∨
      (strings' e').identifier + (strings e').text.room ≤ (strings' e).identifier := by
  obtain ⟨before, after, rfl⟩ := List.append_of_mem he
  rw [h.identifier before e after rfl]
  rcases List.mem_append.mp he' with hmem | hmem
  · obtain ⟨xs, ys, rfl⟩ := List.append_of_mem hmem
    have hid := h.identifier xs e' (ys ++ e :: after) (by simp)
    rw [hid, roomOf_append, roomOf_cons]
    omega
  · rcases List.mem_cons.mp hmem with heq | hmem
    · exact absurd heq.symm hne
    · obtain ⟨xs, ys, rfl⟩ := List.append_of_mem hmem
      have hid := h.identifier (before ++ e :: xs) e' ys (by simp)
      rw [hid, roomOf_append, roomOf_cons]
      omega

/-- The bytes of an entry's text, at its identifier. -/
theorem Placed.bytes {strings strings' : Nat → DtString} {order : List Nat}
    (h : Placed strings strings' order) (mem : ByteMemory) (base : Nat) {e i : Nat}
    (he : e ∈ order) (hi : i < (strings e).text.room) :
    storeBytes mem base (charsOf strings order) (base + (strings' e).identifier + i) =
      (strings e).text.chars.getD i 0 := by
  obtain ⟨before, after, rfl⟩ := List.append_of_mem he
  have hsplit : charsOf strings (before ++ e :: after) =
      charsOf strings before ++ ((strings e).text.chars ++ charsOf strings after) := by
    simp [charsOf]
  have hlength := length_charsOf strings before
  have hchars := (strings e).text.length_chars
  rw [h.identifier before e after rfl, hsplit, storeBytes]
  refine (if_pos ⟨by omega, ?_⟩).trans ?_
  · have hindex : base + roomOf strings before + i - base = roomOf strings before + i := by omega
    dsimp only
    rw [hindex, List.getD_append_right _ _ _ _ (by omega), hlength, Nat.add_sub_cancel_left,
      List.getD_append _ _ _ _ (by omega)]
  · rw [List.length_append, List.length_append]
    omega

/-- The table has the entries of the log, each once and with its name. -/
structure TableHas (t : DeviceTree) (log : NameLog) : Prop where
  chains : ∃ chains : Nat → List Nat, (∀ i, Lists stringNode t.strings (t.buckets i) (chains i)) ∧
    ((List.range t.stringsCapacity).flatMap chains).Perm log.entries
  text : ∀ p ∈ log, (t.strings p.2).text = p.1

/-- In a strings block at `base` the names stand at the identifiers of their entries, and none is over
another. -/
structure NamesStand (log : NameLog) (base size : Nat) (strings : Nat → DtString)
    (mem : ByteMemory) : Prop where
  inside : ∀ p ∈ log, (strings p.2).identifier + p.1.room ≤ size
  bytes : ∀ p ∈ log, ∀ i < p.1.room,
    mem (base + (strings p.2).identifier + i) = p.1.chars.getD i 0
  distinct : ∀ p ∈ log, ∀ q ∈ log, p.1 ≠ q.1 →
    (strings p.2).identifier ≠ (strings q.2).identifier
  apart : ∀ p ∈ log, ∀ q ∈ log, p.1 ≠ q.1 →
    (strings p.2).identifier + p.1.room ≤ (strings q.2).identifier ∨
      (strings q.2).identifier + q.1.room ≤ (strings p.2).identifier

theorem Logged.namesStand (h : Logged statics t log) (base : Nat) (mem : ByteMemory) :
    ∃ strings' mem', t.emitStrings base mem = .ok (strings', mem') ∧
      NamesStand log base t.stringsSize strings' mem' := by
  have hserves := h.serves
  rw [← add_zero (t.stringBlocks log.entries)] at hserves
  obtain ⟨order, strings', hperm, hplaced, hemit⟩ := h.interned.emitStrings_eq hserves base mem
  have hmem : ∀ p ∈ log, p.2 ∈ order := fun p hp => hperm.mem_iff.mpr (NameLog.mem_entries hp)
  have hapart : ∀ p ∈ log, ∀ q ∈ log, p.1 ≠ q.1 →
      (strings' p.2).identifier + p.1.room ≤ (strings' q.2).identifier ∨
        (strings' q.2).identifier + q.1.room ≤ (strings' p.2).identifier := by
    intro p hp q hq hne
    have hentries : p.2 ≠ q.2 := fun heq => hne ((h.entry_iff hp hq).mp heq)
    have hor := hplaced.apart (hmem p hp) (hmem q hq) hentries
    rwa [h.text p hp, h.text q hq] at hor
  refine ⟨strings', _, hemit, fun p hp => ?_, fun p hp i hi => ?_, fun p hp q hq hne heq => ?_, hapart⟩
  · obtain ⟨before, after, hsplit⟩ := List.append_of_mem (hmem p hp)
    have hsize : t.stringsSize = roomOf t.strings order := by
      rw [roomOf_perm _ hperm, h.interned.size]
      rfl
    rw [hplaced.identifier before p.2 after hsplit, hsize, hsplit, roomOf_append, roomOf_cons,
      h.text p hp]
    omega
  · rw [← h.text p hp] at hi ⊢
    exact hplaced.bytes mem base (hmem p hp) hi
  · have hroom : ∀ s : CString, 0 < s.room := fun s => Nat.succ_pos _
    have hp0 := hroom p.1
    have hq0 := hroom q.1
    have hor := hapart p hp q hq hne
    omega

/-- Whatever names are looked up, and whatever else there is in between: a lookup finds an entry
unless there is no memory for it, and two have the same entry just when they have the same name; the
table has one entry for each name and the size is that of all of them; and in the strings block each
name stands where its identifier says. -/
theorem blDtGetString_interns {world : World} {root name : Nat} {strings : Nat → DtString}
    {nodes : Nat → DtNode} (hserves : world.Serves statics 0)
    (hrun : Interns (.start world root name strings nodes) log t) :
    (∀ str, t.blDtGetString str = .error (.crash "out of memory") ∨
      ∃ u e, t.blDtGetString str = .ok (u, e)) ∧
    (∀ p ∈ log, ∀ q ∈ log, p.2 = q.2 ↔ p.1 = q.1) ∧
    TableHas t log ∧
    t.stringsSize = (((log.map (·.1)).dedup).map CString.room).sum ∧
    ∀ base mem, ∃ strings' mem', t.emitStrings base mem = .ok (strings', mem') ∧
      NamesStand log base t.stringsSize strings' mem' := by
  have h := hrun.logged hserves
  refine ⟨fun str => ?_, fun p hp q hq => h.entry_iff hp hq, ⟨?_, h.text⟩, h.size_eq, h.namesStand⟩
  · have hout := h.serves
    rw [← add_zero (t.stringBlocks log.entries)] at hout
    rcases h.interned.getString hout str with hcrash | ⟨e, -, -, hfound⟩ | ⟨-, u, e, hadded, -⟩
    · exact .inl hcrash
    · exact .inr ⟨t, e, hfound⟩
    · exact .inr ⟨u, e, hadded⟩
  · obtain ⟨chains, hchained⟩ := h.interned.chained
    exact ⟨chains, hchained.lists, h.interned.chains_perm hchained⟩

end

def CString.reg : CString where
  bytes := [0x72, 0x65, 0x67]
  noNul := by decide
  fits := by decide

def CString.status : CString where
  bytes := [0x73, 0x74, 0x61, 0x74, 0x75, 0x73]
  noNul := by decide
  fits := by decide

/-- Nothing in particular at the addresses of the objects. -/
def DeviceTree.fresh (world : World) : DeviceTree :=
  .start world 0x100 0x120 (fun _ => { prev := 0, next := 0, data := 0, text := .empty, identifier := 0 })
    fun _ => { parent := 0, prev := 0, next := 0, name := 0, text := .empty, children := .init, properties := 0, props := [] }

/-- Two names in an area of a page. -/
theorem blDtGetString_interns_two : ∃ (w : World) (t : DeviceTree) (e₁ e₂ : Nat),
    Interns (.fresh w) [(.status, e₂), (.reg, e₁)] t ∧ e₁ ≠ e₂ ∧
      TableHas t [(.status, e₂), (.reg, e₁)] ∧ t.stringsSize = 11 := by
  have hcalls : (Run.run World.regularStep (World.start fun _ => 0) [.add 0x1000 0x1000]).map
      (fun w => ((DeviceTree.fresh w).blDtGetString .reg >>= fun r =>
        r.1.blDtGetString .status).isOk) = some true := by
    decide +kernel
  obtain ⟨w, hrun, hok⟩ := Option.map_eq_some_iff.1 hcalls
  have hserves : w.Serves ∅ 0 := ⟨World.regularRun_tight hrun, nofun, Multiset.nodup_zero, nofun, nofun⟩
  cases hreg : (DeviceTree.fresh w).blDtGetString .reg with
  | error stop =>
    rw [hreg] at hok
    cases hok
  | ok r =>
    obtain ⟨t₁, e₁⟩ := r
    rw [hreg] at hok
    cases hstatus : t₁.blDtGetString .status with
    | error stop =>
      change (t₁.blDtGetString .status).isOk = true at hok
      rw [hstatus] at hok
      cases hok
    | ok r =>
      obtain ⟨t₂, e₂⟩ := r
      have hlog : Interns (.fresh w) [(.status, e₂), (.reg, e₁)] t₂ :=
        .get (.get .start hreg) hstatus
      obtain ⟨-, hiff, htable, hsize, -⟩ := blDtGetString_interns hserves hlog
      refine ⟨w, t₂, e₁, e₂, hlog, fun heq => ?_, htable, hsize⟩
      have hdiffer : CString.reg ≠ CString.status := by decide
      exact hdiffer ((hiff (.reg, e₁) (by simp) (.status, e₂) (by simp)).mp heq)

end XrLinux.Bootloader
