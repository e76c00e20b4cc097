import XrLinux.Lib.Recency
import XrLinux.Lib.Run
import XrLinux.Bootloader.Disk

/-!
# Bootloader — the block cache

`BCache.Inv` is what the cache looks like between reads: its list holds the entries in use, each has
a buffer and a block of its own, and the buffer agrees with the disk as far as the disk goes. As
long as no block behind the end of the disk is read, every step keeps it, and puts the block it used
in front (`getEntry_spec`); a step to such a block asks the firmware for sectors that are not there
(`getEntry_beyond`).
-/

namespace XrLinux.Bootloader

open Prog Recency ByteMemory

/-- The blocks in the cache, in the order of the list. -/
def BCache.blocks (c : BCache) (entries : List Nat) : List Nat :=
  entries.map fun entry => (c.metas entry).block

structure BCache.Inv (disk : ByteMemory) (fw : Firmware) (c : BCache) (entries : List Nat) : Prop
    where
  lists : Lists cacheNode c.metas c.list entries
  used_le : c.used ≤ bcacheCount
  perm : entries.Perm ((List.range c.used).map (· + 1))
  data_eq : ∀ e ∈ entries, (c.metas e).data = (e - 1) * bcacheSize
  blocks_nodup : (c.blocks entries).Nodup
  block_le : ∀ e ∈ entries, (c.metas e).block * 8 ≤ fw.sectorCount
  holds : ∀ e ∈ entries, ∀ i < bcacheSize, (c.metas e).block * bcacheSize + i < fw.diskSize →
    c.data ((c.metas e).data + i) = disk ((c.metas e).block * bcacheSize + i)

/-- The firmware was asked for sectors on the disk only. -/
def DiskState.OnDisk (fw : Firmware) (s : DiskState) : Prop :=
  ∀ r ∈ s.requests, r.1 + r.2 ≤ fw.sectorCount

theorem cacheNode_lawful : cacheNode.Lawful fun _ => True where
  prev_setPrev := by
    intro m a b v _ _ _
    by_cases h : b = a <;> simp [cacheNode, h]
  next_setPrev := by
    intro m a b v _ _
    by_cases h : b = a <;> simp [cacheNode, h]
  next_setNext := by
    intro m a b v _ _ _
    by_cases h : b = a <;> simp [cacheNode, h]
  prev_setNext := by
    intro m a b v _ _
    by_cases h : b = a <;> simp [cacheNode, h]

/-- The entries differ in their links at most. -/
def SameBlocks (m m' : Nat → BCacheMeta) : Prop :=
  ∀ e, (m' e).block = (m e).block ∧ (m' e).data = (m e).data

theorem sameBlocks_setPrev (m : Nat → BCacheMeta) (e v : Nat) :
    SameBlocks m (cacheNode.setPrev m e v) := by
  intro b
  by_cases h : b = e <;> simp [cacheNode, h]

theorem sameBlocks_setNext (m : Nat → BCacheMeta) (e v : Nat) :
    SameBlocks m (cacheNode.setNext m e v) := by
  intro b
  by_cases h : b = e <;> simp [cacheNode, h]

theorem SameBlocks.trans {m m' m'' : Nat → BCacheMeta} (h : SameBlocks m m')
    (h' : SameBlocks m' m'') : SameBlocks m m'' :=
  fun e => ⟨(h' e).1.trans (h e).1, (h' e).2.trans (h e).2⟩

theorem SameBlocks.blocks {c c' : BCache} (h : SameBlocks c.metas c'.metas) (entries : List Nat) :
    c'.blocks entries = c.blocks entries :=
  List.map_congr_left fun e _ => (h e).1

section
variable {c : BCache} {xs ys : List Nat} {e : Nat}

theorem BCache.remove_lists (h : Lists cacheNode c.metas c.list (xs ++ e :: ys)) :
    Lists cacheNode (c.remove e).metas (c.remove e).list (xs ++ ys) ∧
      SameBlocks c.metas (c.remove e).metas :=
  ⟨h.remove cacheNode_lawful (fun _ _ => trivial),
    h.remove_frame cacheNode_lawful (fun _ _ => trivial) (fun _ _ _ => SameBlocks.trans)
      (fun m b v _ => sameBlocks_setPrev m b v) (fun m b v _ => sameBlocks_setNext m b v)
      fun _ _ => ⟨rfl, rfl⟩⟩

theorem BCache.insertFront_lists (h : Lists cacheNode c.metas c.list xs) (he0 : e ≠ 0)
    (he : e ∉ xs) :
    Lists cacheNode (c.insertFront e).metas (c.insertFront e).list (e :: xs) ∧
      SameBlocks c.metas (c.insertFront e).metas :=
  ⟨Lists.insertFront cacheNode_lawful (fun _ _ => trivial) h he0 he,
    Lists.insertFront_frame cacheNode_lawful (fun _ _ => trivial)
      (fun _ _ _ => SameBlocks.trans) (fun m b v _ => sameBlocks_setPrev m b v)
      (fun m b v _ => sameBlocks_setNext m b v) h he0 he⟩

end

section
variable {disk : ByteMemory} {fw : Firmware} {c : BCache} {entries : List Nat}

theorem BCache.Inv.mem_iff (h : c.Inv disk fw entries) (e : Nat) :
    e ∈ entries ↔ 1 ≤ e ∧ e ≤ c.used := by
  rw [h.perm.mem_iff, List.mem_map]
  constructor
  · rintro ⟨i, hi, rfl⟩
    have := List.mem_range.1 hi
    omega
  · rintro ⟨h1, h2⟩
    exact ⟨e - 1, List.mem_range.2 (by omega), by omega⟩

theorem BCache.Inv.length_eq (h : c.Inv disk fw entries) : entries.length = c.used := by
  rw [h.perm.length_eq, List.length_map, List.length_range]

theorem BCache.Inv.find_eq (h : c.Inv disk fw entries) (block : Nat) :
    c.find block = .ok (entries.find? fun e => (c.metas e).block = block) := by
  have hhead : c.list.head = entries.headD 0 := LinkedList.Holds.head_eq h.lists
  have hbound : ∀ e ∈ entries, e ≠ 0 ∧ e < 4294967296 := by
    intro e he
    have hused : c.used ≤ 16 := h.used_le
    have := (h.mem_iff e).1 he
    omega
  have hcontainer : ∀ p, container 0 p = p := by
    intro p
    unfold container
    split <;> omega
  have hnext : ∀ before e after, entries = before ++ e :: after → c.next e = after.headD 0 := by
    intro before e after heq
    have hl := h.lists
    rw [heq] at hl
    show container 0 (cacheNode.next c.metas e) = _
    rw [hcontainer, hl.next_eq]
  have hloop : foreach c.next (fun entry found =>
      if decide ((c.metas entry).block = block) then .done (some entry) else .yield found) rounds
        (entries.headD 0) none = .ok _ :=
    foreach_eq none (fun e he => (hbound e he).1) hnext
      (length_lt_rounds (LinkedList.Holds.nodup h.lists) hbound)
  rw [foreachList_find] at hloop
  unfold BCache.find
  rw [hcontainer, hhead]
  simpa using hloop

theorem BCache.init_inv (disk : ByteMemory) (fw : Firmware) : BCache.init.Inv disk fw [] where
  lists := lists_init _
  used_le := Nat.zero_le _
  perm := .nil
  data_eq := by simp
  blocks_nodup := .nil
  block_le := by simp
  holds := by simp

end

/-! ## The firmware -/

section
variable {disk : ByteMemory} {fw : Firmware} {s : DiskState} {buffer sector count : Nat}

/-- What `BxReadFromDisk` asks for is cut off at the end of the disk. -/
theorem bxReadFromDisk_returns (hserves : fw.Serves disk) (hbuffer : buffer % sectorSize = 0)
    (hsector : sector ≤ fw.sectorCount) (hcount : sector + count < 18446744073709551616) :
    Returns (bxReadFromDisk fw buffer sector count) s fun d s' =>
      ∃ delivery, d = some delivery ∧
        delivery.size = min count (fw.sectorCount - sector) * sectorSize ∧
        (∀ i < delivery.size, delivery.bytes i = disk (sector * sectorSize + i)) ∧
        s' = { s with
          requests := (sector, min count (fw.sectorCount - sector)) :: s.requests } := by
  have hlt := fw.sectorCount_lt
  have hadd : add64 sector count = sector + count := Nat.mod_eq_of_lt hcount
  obtain ⟨stop, hstop⟩ : ∃ stop, stop =
    if sector + count > fw.sectorCount then fw.sectorCount else sector + count := ⟨_, rfl⟩
  have hstop' : stop = sector + min count (fw.sectorCount - sector) := by
    rw [hstop]
    split <;> omega
  have hsub : sub64 stop sector = min count (fw.sectorCount - sector) := by
    unfold sub64
    omega
  have hsector32 : sector % 4294967296 = sector := Nat.mod_eq_of_lt (by omega)
  have hcount32 : min count (fw.sectorCount - sector) % 4294967296 =
    min count (fw.sectorCount - sector) := Nat.mod_eq_of_lt (by omega)
  obtain ⟨bytes, hread, hbytes⟩ :=
    hserves sector (min count (fw.sectorCount - sector)) (by omega)
  unfold bxReadFromDisk
  rw [if_neg (not_not.2 hbuffer), hadd]
  dsimp only
  rw [if_neg (by omega), ← hstop, hsub, hsector32, hcount32, hread]
  exact ⟨_, rfl, rfl, hbytes, rfl⟩

/-- A sector behind the end of the disk: the count wraps. -/
theorem bxReadFromDisk_beyond (hbuffer : buffer % sectorSize = 0)
    (hsector : fw.sectorCount < sector) (hcount : sector + count < 18446744073709551616) :
    Post (bxReadFromDisk fw buffer sector count) s (fun _ s' => ¬s'.OnDisk fw)
      fun _ s' => ¬s'.OnDisk fw := by
  have hadd : add64 sector count = sector + count := Nat.mod_eq_of_lt hcount
  have hsub : fw.sectorCount < sector + sub64 fw.sectorCount sector := by
    unfold sub64
    omega
  unfold bxReadFromDisk
  rw [if_neg (not_not.2 hbuffer), hadd]
  dsimp only
  rw [if_neg (by omega), if_pos (by omega)]
  intro hon
  have := hon (sector, sub64 fw.sectorCount sector) List.mem_cons_self
  omega

/-! ## One block -/

/-- The log of requests only grows. -/
def DiskState.Later (s s' : DiskState) : Prop := s.requests <:+ s'.requests

theorem DiskState.Later.refl (s : DiskState) : s.Later s := List.suffix_rfl

theorem DiskState.Later.trans {s t u : DiskState} (h : s.Later t) (h' : t.Later u) : s.Later u :=
  List.IsSuffix.trans h h'

theorem DiskState.Later.not_onDisk {s s' : DiskState} (h : s.Later s') (hs : ¬s.OnDisk fw) :
    ¬s'.OnDisk fw :=
  fun hs' => hs fun r hr => hs' r (h.subset hr)

theorem bxReadFromDisk_later (fw : Firmware) (buffer sector count : Nat) :
    Keeps DiskState.Later (bxReadFromDisk fw buffer sector count) := by
  unfold bxReadFromDisk
  split
  · exact Keeps.stop .refl _
  · dsimp only
    split
    · exact Keeps.pure .refl _
    · exact Keeps.bind (fun _ _ _ => .trans) (Keeps.modify fun s => List.suffix_cons _ _)
        fun _ => Keeps.pure .refl _

theorem setCache_later (c : BCache) : Keeps DiskState.Later (setCache c) :=
  Keeps.modify fun s => .refl s

theorem biGetBCacheEntry_later (fw : Firmware) (block : Nat) :
    Keeps DiskState.Later (biGetBCacheEntry fw block) := by
  have htrans : ∀ s t u : DiskState, s.Later t → t.Later u → s.Later u := fun _ _ _ => .trans
  unfold biGetBCacheEntry
  refine Keeps.bind htrans (Keeps.get .refl) fun s => ?_
  refine Keeps.bind htrans (Keeps.lift .refl _) fun found => ?_
  cases found with
  | some entry => exact Keeps.bind htrans (setCache_later _) fun _ => Keeps.pure .refl _
  | none =>
    refine Keeps.bind htrans (setCache_later _) fun _ => ?_
    refine Keeps.bind htrans (bxReadFromDisk_later fw _ _ _) fun delivery => ?_
    cases delivery with
    | none => exact Keeps.stop .refl _
    | some delivery => exact Keeps.bind htrans (setCache_later _) fun _ => Keeps.pure .refl _

end

section
variable {disk : ByteMemory} {fw : Firmware} {c : BCache} {entries rest : List Nat} {e block : Nat}

/-- An entry taken out of the cache to be filled; the rest is as it was. -/
structure BCache.Claimed (disk : ByteMemory) (fw : Firmware) (c : BCache) (e : Nat)
    (rest : List Nat) : Prop where
  lists : Lists cacheNode c.metas c.list rest
  used_le : c.used ≤ bcacheCount
  perm : (e :: rest).Perm ((List.range c.used).map (· + 1))
  data_eq : ∀ b ∈ e :: rest, (c.metas b).data = (b - 1) * bcacheSize
  blocks_nodup : (c.blocks rest).Nodup
  block_le : ∀ b ∈ rest, (c.metas b).block * 8 ≤ fw.sectorCount
  holds : ∀ b ∈ rest, ∀ i < bcacheSize, (c.metas b).block * bcacheSize + i < fw.diskSize →
    c.data ((c.metas b).data + i) = disk ((c.metas b).block * bcacheSize + i)

theorem BCache.Claimed.pos (h : c.Claimed disk fw e rest) : e ≠ 0 ∧ e ∉ rest ∧ ∀ b ∈ rest, b ≠ 0 := by
  have hnodup : (e :: rest).Nodup := by
    rw [h.perm.nodup_iff]
    exact List.nodup_range.map fun a b hab => by simpa using hab
  have hpos : ∀ b ∈ e :: rest, b ≠ 0 := by
    intro b hb
    rw [h.perm.mem_iff] at hb
    obtain ⟨i, -, rfl⟩ := List.mem_map.1 hb
    omega
  exact ⟨hpos e (by simp), (List.nodup_cons.1 hnodup).1, fun b hb => hpos b (by simp [hb])⟩

theorem BCache.Inv.hit (h : c.Inv disk fw entries) (he : e ∈ entries) :
    ∃ entries', ((c.remove e).insertFront e).Inv disk fw entries' ∧
      ((c.remove e).insertFront e).blocks entries' =
        touch bcacheCount (c.metas e).block (c.blocks entries) := by
  obtain ⟨xs, ys, rfl⟩ := List.append_of_mem he
  have hpos : e ≠ 0 := by
    have := (h.mem_iff e).1 he
    omega
  have hnodup := List.nodup_middle.1 (LinkedList.Holds.nodup h.lists)
  obtain ⟨hlists, hsame⟩ := c.remove_lists h.lists
  obtain ⟨hlists', hsame'⟩ :=
    (c.remove e).insertFront_lists hlists hpos (List.nodup_cons.1 hnodup).1
  have hsame := hsame.trans hsame'
  have hperm : (e :: (xs ++ ys)).Perm (xs ++ e :: ys) := List.perm_middle.symm
  have hmem : ∀ b, b ∈ e :: (xs ++ ys) → b ∈ xs ++ e :: ys := fun b hb => hperm.mem_iff.1 hb
  have hblocks : ((c.remove e).insertFront e).blocks (e :: (xs ++ ys)) =
      c.blocks (e :: (xs ++ ys)) := hsame.blocks _
  refine ⟨e :: (xs ++ ys), ⟨hlists', h.used_le, hperm.trans h.perm, fun b hb => ?_, ?_,
    fun b hb => ?_, fun b hb => ?_⟩, ?_⟩
  · rw [(hsame b).2]
    exact h.data_eq b (hmem b hb)
  · rw [hblocks]
    exact (hperm.map _).nodup_iff.2 h.blocks_nodup
  · rw [(hsame b).1]
    exact h.block_le b (hmem b hb)
  · rw [(hsame b).1, (hsame b).2]
    exact h.holds b (hmem b hb)
  · rw [hblocks]
    have hnot : (c.metas e).block ∉ c.blocks xs := by
      have hblocks := h.blocks_nodup
      simp only [BCache.blocks, List.map_append, List.map_cons] at hblocks ⊢
      exact fun hin => (List.nodup_cons.1 (List.nodup_middle.1 hblocks)).1 (List.mem_append_left _ hin)
    have hlength := h.length_eq
    have hused : c.used ≤ 16 := h.used_le
    simp only [BCache.blocks, List.map_append, List.map_cons, List.length_append,
      List.length_cons] at hnot hlength ⊢
    rw [touch, List.erase_append_right _ hnot, List.erase_cons_head,
      List.take_of_length_le]
    show (_ :: _).length ≤ 16
    simp only [List.length_cons, List.length_append, List.length_map]
    omega

theorem BCache.Inv.claim_new (h : c.Inv disk fw entries) (hroom : c.used < bcacheCount)
    (c' : BCache) (hself : (c'.metas (c.used + 1)).data = c.used * bcacheSize)
    (hother : ∀ b, b ≠ c.used + 1 → c'.metas b = c.metas b) (hlist : c'.list = c.list)
    (hdata : c'.data = c.data) (hused : c'.used = c.used + 1) :
    c'.Claimed disk fw (c.used + 1) entries ∧ c'.blocks entries = c.blocks entries := by
  -- `used + 1` is none of the entries
  have hsame : ∀ b ∈ entries, c'.metas b = c.metas b := by
    intro b hb
    have := (h.mem_iff b).1 hb
    exact hother b (by omega)
  have hblocks : c'.blocks entries = c.blocks entries :=
    List.map_congr_left fun b hb => by rw [hsame b hb]
  refine ⟨⟨?_, ?_, ?_, ?_, ?_, fun b hb => ?_, fun b hb => ?_⟩, hblocks⟩
  · rw [hlist]
    refine h.lists.congr (fun b hb => ?_) fun b hb => ?_
    · show (c'.metas b).prev = (c.metas b).prev
      rw [hsame b hb]
    · show (c'.metas b).next = (c.metas b).next
      rw [hsame b hb]
  · rw [hused]
    exact hroom
  · rw [hused, List.range_succ, List.map_append, List.map_singleton]
    exact (List.perm_append_singleton _ _).symm.trans (h.perm.append_right _)
  · refine List.forall_mem_cons.2 ⟨?_, fun b hb => ?_⟩
    · rw [hself, Nat.add_sub_cancel]
    · rw [hsame b hb]
      exact h.data_eq b hb
  · rw [hblocks]
    exact h.blocks_nodup
  · rw [hsame b hb]
    exact h.block_le b hb
  · rw [hsame b hb, hdata]
    exact h.holds b hb

theorem BCache.Inv.claim_last {xs : List Nat} (h : c.Inv disk fw (xs ++ [e])) :
    (c.remove e).Claimed disk fw e xs ∧ (c.remove e).blocks xs = c.blocks xs := by
  obtain ⟨hlists, hsame⟩ := @BCache.remove_lists c xs [] e h.lists
  rw [List.append_nil] at hlists
  have hperm : (e :: xs).Perm (xs ++ [e]) := (List.perm_append_singleton _ _).symm
  have hblocks : (c.remove e).blocks xs = c.blocks xs := hsame.blocks xs
  have hnodup := h.blocks_nodup
  refine ⟨⟨hlists, h.used_le, hperm.trans h.perm, fun b hb => ?_, ?_, fun b hb => ?_,
    fun b hb => ?_⟩, hblocks⟩
  · rw [(hsame b).2]
    exact h.data_eq b (hperm.mem_iff.1 hb)
  · rw [hblocks]
    simp only [BCache.blocks, List.map_append] at hnodup ⊢
    exact hnodup.of_append_left
  · rw [(hsame b).1]
    exact h.block_le b (List.mem_append_left _ hb)
  · rw [(hsame b).1, (hsame b).2]
    exact h.holds b (List.mem_append_left _ hb)

/-- The entry to fill is a new one while there are any, and the last of the list from then on. -/
theorem BCache.Inv.claim (h : c.Inv disk fw entries) :
    ∃ rest, c.claim.1.Claimed disk fw c.claim.2 rest ∧ c.claim.1.data = c.data ∧
      c.claim.1.blocks rest = (c.blocks entries).take (bcacheCount - 1) := by
  have hlength := h.length_eq
  have hused : c.used ≤ 16 := h.used_le
  unfold BCache.claim
  by_cases hroom : c.used < bcacheCount
  · rw [if_pos hroom]
    obtain ⟨hclaimed, hblocks⟩ := h.claim_new hroom
      { c with
        metas := Function.update c.metas (c.used + 1)
          { c.metas (c.used + 1) with data := c.used * bcacheSize }
        used := c.used + 1 }
      (by dsimp only; rw [Function.update_self]) (fun b hb => Function.update_of_ne hb ..) rfl rfl rfl
    refine ⟨entries, hclaimed, rfl, hblocks.trans (List.take_of_length_le ?_).symm⟩
    show (entries.map _).length ≤ 15
    have hlt : c.used < 16 := hroom
    rw [List.length_map]
    omega
  · rw [if_neg hroom]
    have hfull : ¬c.used < 16 := hroom
    obtain ⟨xs, e, rfl⟩ : ∃ xs e, entries = xs ++ [e] := by
      rcases List.eq_nil_or_concat entries with rfl | ⟨xs, e, rfl⟩
      · rw [List.length_nil] at hlength
        omega
      · exact ⟨xs, e, by simp⟩
    have hcontainer : container 0 c.list.tail = e := by
      have htail : c.list.tail = (xs ++ [e]).getLastD 0 := LinkedList.Holds.tail_eq h.lists
      unfold container
      rw [htail, List.getLastD_concat]
      split <;> omega
    dsimp only
    rw [hcontainer]
    obtain ⟨hclaimed, hblocks⟩ := h.claim_last
    refine ⟨xs, hclaimed, rfl, hblocks.trans ?_⟩
    rw [List.length_append, List.length_singleton] at hlength
    simp only [BCache.blocks, List.map_append]
    refine (List.take_left' ?_).symm
    show (xs.map _).length = 15
    rw [List.length_map]
    omega

/-- The block in the buffer of the entry, the others left alone. -/
theorem BCache.Claimed.fill (h : c.Claimed disk fw e rest) (hnew : block ∉ c.blocks rest)
    (hblock : block * 8 ≤ fw.sectorCount) {delivery : Delivery}
    (hsize : delivery.size = min 8 (fw.sectorCount - block * 8) * sectorSize)
    (hbytes : ∀ i < delivery.size, delivery.bytes i = disk (block * 8 * sectorSize + i)) :
    ({ c with data := c.data.put (c.metas e).data delivery.size delivery.bytes }.fill e
      block).Inv disk fw (e :: rest) ∧
    ({ c with data := c.data.put (c.metas e).data delivery.size delivery.bytes }.fill e
      block).blocks (e :: rest) = block :: c.blocks rest ∧
    ({ c with data := c.data.put (c.metas e).data delivery.size delivery.bytes }.fill e
      block).data = c.data.put (c.metas e).data delivery.size delivery.bytes := by
  obtain ⟨hpos, hnot, hrest⟩ := h.pos
  have hne : ∀ b ∈ rest, b ≠ e := by
    rintro b hb rfl
    exact hnot hb
  obtain ⟨c', hc'⟩ : ∃ c' : BCache, c' =
      { c with
        data := c.data.put (c.metas e).data delivery.size delivery.bytes
        metas := Function.update c.metas e { c.metas e with block } } := ⟨_, rfl⟩
  have hself : c'.metas e = { c.metas e with block } := by
    rw [hc']
    exact Function.update_self ..
  have hother : ∀ b ∈ rest, c'.metas b = c.metas b := by
    intro b hb
    rw [hc']
    exact Function.update_of_ne (hne b hb) ..
  have hlists : Lists cacheNode c'.metas c'.list rest := by
    have hlist : c'.list = c.list := by rw [hc']
    rw [hlist]
    refine h.lists.congr (fun b hb => ?_) fun b hb => ?_
    · show (c'.metas b).prev = _
      rw [hother b hb]
      rfl
    · show (c'.metas b).next = _
      rw [hother b hb]
      rfl
  obtain ⟨hlists', hsame⟩ := c'.insertFront_lists hlists hpos hnot
  have hfill : { c with data := c.data.put (c.metas e).data delivery.size delivery.bytes }.fill e
      block = c'.insertFront e := by
    rw [hc']
    rfl
  have hblocks : (c'.insertFront e).blocks (e :: rest) = block :: c.blocks rest := by
    rw [hsame.blocks]
    simp only [BCache.blocks, List.map_cons, hself, List.cons.injEq, true_and]
    exact List.map_congr_left fun b hb => by rw [hother b hb]
  have hdata : (c'.insertFront e).data = c.data.put (c.metas e).data delivery.size delivery.bytes := by
    rw [hc']
    rfl
  have hused : (c'.insertFront e).used = c.used := by
    rw [hc']
    rfl
  rw [hfill]
  refine ⟨⟨hlists', ?_, ?_, ?_, ?_, ?_, ?_⟩, hblocks, hdata⟩
  · rw [hused]
    exact h.used_le
  · rw [hused]
    exact h.perm
  · refine List.forall_mem_cons.2 ⟨?_, fun b hb => ?_⟩
    · rw [(hsame e).2, hself]
      exact h.data_eq e (by simp)
    · rw [(hsame b).2, hother b hb]
      exact h.data_eq b (by simp [hb])
  · rw [hblocks]
    exact List.nodup_cons.2 ⟨hnew, h.blocks_nodup⟩
  · refine List.forall_mem_cons.2 ⟨?_, fun b hb => ?_⟩
    · rw [(hsame e).1, hself]
      exact hblock
    · rw [(hsame b).1, hother b hb]
      exact h.block_le b hb
  · rw [hdata]
    refine List.forall_mem_cons.2 ⟨fun i hi hlim => ?_, fun b hb i hi hlim => ?_⟩
    · rw [(hsame e).1, hself] at hlim ⊢
      rw [(hsame e).2, hself]
      dsimp only at hlim ⊢
      have hin : i < delivery.size := by
        simp only [Firmware.diskSize, sectorSize, bcacheSize] at hlim hi hsize
        omega
      have hplace : block * 8 * sectorSize + i = block * bcacheSize + i := by
        simp only [sectorSize, bcacheSize]
        omega
      rw [put_byte _ _ hin, hbytes i hin, hplace]
    · rw [(hsame b).1, hother b hb] at hlim ⊢
      rw [(hsame b).2, hother b hb]
      -- the buffers of two entries do not overlap
      have hsize' : delivery.size ≤ 4096 := by
        simp only [sectorSize] at hsize
        omega
      have hbne := hne b hb
      have hbpos := hrest b hb
      rw [put_of_not_mem, h.holds b hb i hi hlim]
      rw [h.data_eq b (by simp [hb]), h.data_eq e (by simp)]
      simp only [bcacheSize] at hi ⊢
      omega

end

/-- Between reads: only sectors on the disk were asked for, and the cache holds `blocks`. -/
def DiskState.Ready (disk : ByteMemory) (fw : Firmware) (s : DiskState) (blocks : List Nat) : Prop :=
  s.OnDisk fw ∧ ∃ entries, s.cache.Inv disk fw entries ∧ s.cache.blocks entries = blocks

/-- Between reads, whatever the cache holds. -/
def DiskState.Steady (disk : ByteMemory) (fw : Firmware) (s : DiskState) : Prop :=
  ∃ blocks, s.Ready disk fw blocks

section
variable {disk : ByteMemory} {fw : Firmware} {s : DiskState} {block : Nat} {blocks : List Nat}

theorem DiskState.init_ready (disk : ByteMemory) (fw : Firmware) :
    DiskState.init.Ready disk fw [] :=
  ⟨by simp [OnDisk, init], [], BCache.init_inv disk fw, rfl⟩

theorem touch_hit {x : Nat} {l : List Nat} {n : Nat} (hx : x ∉ l) :
    touch (n + 1) x l = x :: l.take n := by
  rw [touch, List.erase_of_not_mem hx, List.take_succ_cons]

theorem biGetBCacheEntry_returns (hserves : fw.Serves disk) (hs : s.Ready disk fw blocks)
    (hblock : block * 8 ≤ fw.sectorCount) :
    Returns (biGetBCacheEntry fw block) s fun data s' =>
      s'.Ready disk fw (touch bcacheCount block blocks) ∧
        ∀ i < bcacheSize, block * bcacheSize + i < fw.diskSize →
          s'.cache.data (data + i) = disk (block * bcacheSize + i) := by
  obtain ⟨hon, entries, hinv, rfl⟩ := hs
  unfold Returns biGetBCacheEntry
  rw [post_bind, post_get, post_bind, hinv.find_eq, post_lift_ok]
  cases hfind : entries.find? fun e => (s.cache.metas e).block = block with
  | some e =>
    have he : e ∈ entries := List.mem_of_find?_eq_some hfind
    have hblock_eq : (s.cache.metas e).block = block := by simpa using List.find?_some hfind
    obtain ⟨entries', hinv', hblocks⟩ := hinv.hit he
    rw [hblock_eq] at hblocks
    rw [post_bind, setCache, post_modify, post_pure]
    refine ⟨⟨hon, entries', hinv', hblocks⟩, fun i hi hlim => ?_⟩
    have hholds := hinv.holds e he i hi (by rwa [hblock_eq])
    rwa [hblock_eq] at hholds
  | none =>
    have hnew : block ∉ s.cache.blocks entries := by
      intro hin
      obtain ⟨e, he, heq⟩ := List.mem_map.1 hin
      exact List.find?_eq_none.1 hfind e he (by simpa using heq)
    obtain ⟨rest, hclaimed, hdata, hblocks⟩ := hinv.claim
    generalize s.cache.claim = claimed at hclaimed hdata hblocks ⊢
    obtain ⟨c, e⟩ := claimed
    dsimp only at hclaimed hdata hblocks ⊢
    have hlt := fw.sectorCount_lt
    have haligned : (c.metas e).data % sectorSize = 0 := by
      rw [hclaimed.data_eq e (by simp)]
      simp only [bcacheSize, sectorSize]
      omega
    rw [post_bind, setCache, post_modify]
    refine Post.bind (Returns.post (bxReadFromDisk_returns hserves haligned hblock ?_)) ?_
    · show block * 8 + 8 < 18446744073709551616
      omega
    · rintro _ s' ⟨delivery, rfl, hsize, hbytes, rfl⟩
      have hrest : block ∉ c.blocks rest := by
        rw [hblocks]
        exact fun hin => hnew (List.mem_of_mem_take hin)
      obtain ⟨hinv', hblocks', hdata'⟩ := hclaimed.fill hrest hblock hsize hbytes
      rw [post_bind, setCache, post_modify, post_pure]
      refine ⟨⟨?_, e :: rest, hinv', ?_⟩, fun i hi hlim => ?_⟩
      · refine List.forall_mem_cons.2 ⟨?_, hon⟩
        show block * 8 + min 8 (fw.sectorCount - block * 8) ≤ fw.sectorCount
        omega
      · show BCache.blocks _ _ = _
        rw [hblocks', hblocks]
        exact (touch_hit hnew).symm
      · have hblock_eq : (({ c with
            data := c.data.put (c.metas e).data delivery.size delivery.bytes }.fill e
              block).metas e).block = block := by
          simpa [BCache.blocks] using (List.cons.inj hblocks').1
        have hdata_eq := hinv'.data_eq e (by simp)
        have hholds := hinv'.holds e (by simp) i hi (by rwa [hblock_eq])
        rw [hblock_eq, hdata_eq, ← hclaimed.data_eq e (by simp)] at hholds
        exact hholds

theorem biGetBCacheEntry_beyond (hs : s.Ready disk fw blocks)
    (hblock : fw.sectorCount < block * 8) (hlt : block * 8 + 8 < 18446744073709551616) :
    Post (biGetBCacheEntry fw block) s (fun _ s' => ¬s'.OnDisk fw) fun _ s' => ¬s'.OnDisk fw := by
  obtain ⟨hon, entries, hinv, rfl⟩ := hs
  have hfind : entries.find? (fun e => (s.cache.metas e).block = block) = none := by
    refine List.find?_eq_none.2 fun e he heq => ?_
    have hle := hinv.block_le e he
    rw [decide_eq_true_eq] at heq
    omega
  obtain ⟨rest, hclaimed, -, -⟩ := hinv.claim
  unfold biGetBCacheEntry
  rw [post_bind, post_get, post_bind, hinv.find_eq, post_lift_ok, hfind]
  generalize s.cache.claim = claimed at hclaimed ⊢
  obtain ⟨c, e⟩ := claimed
  dsimp only at hclaimed ⊢
  have haligned : (c.metas e).data % sectorSize = 0 := by
    rw [hclaimed.data_eq e (by simp)]
    simp only [bcacheSize, sectorSize]
    omega
  rw [post_bind, setCache, post_modify]
  refine Post.bind (bxReadFromDisk_beyond haligned hblock hlt) fun delivery s' hs' => ?_
  cases delivery with
  | none => exact hs'
  | some delivery => exact hs'

end

/-! ## A read through the cache -/

/-- The blocks that a read uses, in this order. -/
def blocksRead (position count : Nat) : List Nat :=
  if count = 0 then []
  else List.range' (position / bcacheSize)
    ((position + count - 1) / bcacheSize - position / bcacheSize + 1)

theorem blocksRead_of_ne {position count : Nat} (hcount : count ≠ 0) :
    blocksRead position count = List.range' (position / 4096)
      ((position + count - 1) / 4096 - position / 4096 + 1) :=
  if_neg hcount

theorem blocksRead_step {position count : Nat} (hcount : count ≠ 0) :
    blocksRead position count = position / bcacheSize ::
      blocksRead (position + min (bcacheSize - position % bcacheSize) count)
        (count - min (bcacheSize - position % bcacheSize) count) := by
  show _ = position / 4096 :: blocksRead (position + min (4096 - position % 4096) count)
    (count - min (4096 - position % 4096) count)
  rw [blocksRead_of_ne hcount, List.range'_succ, List.cons.injEq]
  refine ⟨rfl, ?_⟩
  by_cases hlast : count ≤ 4096 - position % 4096
  · have hlen : (position + count - 1) / 4096 - position / 4096 = 0 := by omega
    rw [hlen, blocksRead, if_pos (by omega)]
    rfl
  · rw [blocksRead_of_ne (by omega)]
    have hstart : (position + min (4096 - position % 4096) count) / 4096 = position / 4096 + 1 := by
      omega
    have hlen : (position + min (4096 - position % 4096) count +
        (count - min (4096 - position % 4096) count) - 1) / 4096 - (position / 4096 + 1) + 1 =
        (position + count - 1) / 4096 - position / 4096 := by
      omega
    rw [hstart, hlen]

theorem readCached_later (fw : Firmware) (fuel : Nat) (m : ByteMemory)
    (buffer position count : Nat) :
    Keeps DiskState.Later (readCached fw fuel m buffer position count) := by
  have htrans : ∀ s t u : DiskState, s.Later t → t.Later u → s.Later u := fun _ _ _ => .trans
  induction fuel generalizing m buffer position count with
  | zero => exact Keeps.stop .refl _
  | succ fuel ih =>
    unfold readCached
    split
    · exact Keeps.pure .refl _
    · refine Keeps.bind htrans (biGetBCacheEntry_later fw _) fun data => ?_
      refine Keeps.bind htrans (Keeps.get .refl) fun s => ?_
      exact ih _ _ _ _

section
variable {disk : ByteMemory} {fw : Firmware} {s : DiskState} {blocks : List Nat}

/-- Either the read stays at sectors of the disk, and delivers what the disk has of its range; or it
comes to a block behind the end of the disk. -/
theorem readCached_post (hserves : fw.Serves disk) {fuel count : Nat} (hfuel : count < fuel)
    (m : ByteMemory) (buffer : Nat) {position : Nat} (hs : s.Ready disk fw blocks)
    (hfit : position + count < 18446744073709551616) :
    Post (readCached fw fuel m buffer position count) s
      (fun m' s' =>
        (s'.Ready disk fw ((blocksRead position count).foldl
            (fun l b => touch bcacheCount b l) blocks) ∧
          ∃ bytes, m' = m.put buffer count bytes ∧
            ∀ i < count, position + i < fw.diskSize → bytes i = disk (position + i)) ∨
        (¬s'.OnDisk fw ∧ 0 < count ∧ fw.diskSize < position + count))
      fun _ s' => ¬s'.OnDisk fw ∧ 0 < count ∧ fw.diskSize < position + count := by
  induction fuel generalizing s blocks m buffer position count with
  | zero => omega
  | succ fuel ih =>
    unfold readCached
    by_cases hcount : count = 0
    · subst hcount
      exact .inl ⟨by simpa [blocksRead] using hs, fun _ => 0, (put_zero ..).symm, by simp⟩
    rw [if_neg hcount, blocksRead_step hcount]
    dsimp only
    obtain ⟨offset, hoffset⟩ : ∃ offset, offset = position % bcacheSize := ⟨_, rfl⟩
    obtain ⟨block, hblock⟩ : ∃ block, block = position / bcacheSize := ⟨_, rfl⟩
    have hposition : position = block * bcacheSize + offset := by
      rw [hoffset, hblock]
      exact (Nat.div_add_mod' ..).symm
    have hoffset_lt : offset < bcacheSize := hoffset ▸ Nat.mod_lt _ (by decide)
    rw [← hoffset, ← hblock]
    obtain ⟨current, hcurrent⟩ : ∃ current, current = min (bcacheSize - offset) count := ⟨_, rfl⟩
    have hcurrent_le : current ≤ count ∧ offset + current ≤ bcacheSize ∧ 0 < current := by omega
    rw [← hcurrent, List.foldl_cons]
    by_cases hin : block * 8 ≤ fw.sectorCount
    · refine Post.bind (Returns.post (biGetBCacheEntry_returns hserves hs hin)) ?_
      rintro data s₁ ⟨hs₁, hdata⟩
      rw [post_bind, post_get]
      refine (ih (by omega) _ _ hs₁ (by omega)).mono ?_ fun _ s' h => ⟨h.1, by omega, by omega⟩
      rintro m' s' (⟨hs', bytes, rfl, hbytes⟩ | ⟨hbad, -, hbeyond⟩)
      · refine .inl ⟨hs', fun i => if i < current then s₁.cache.data (data + offset + i)
          else bytes (i - current), ?_, fun i hi hlim => ?_⟩
        · -- the first run of bytes and the rest
          have hsplit := put_put m buffer current (count - current) fun i =>
            if i < current then s₁.cache.data (data + offset + i) else bytes (i - current)
          rw [Nat.add_sub_cancel' hcurrent_le.1] at hsplit
          rw [← hsplit]
          rw [put_congr m fun i hi => (if_pos hi).symm]
          refine put_congr _ fun i hi => ?_
          rw [if_neg (by omega), Nat.add_sub_cancel_left]
        · dsimp only
          split
          · rename_i hfirst
            rw [Nat.add_assoc, hdata (offset + i) (by omega) (by omega), hposition, Nat.add_assoc]
          · rw [hbytes (i - current) (by omega) (by omega)]
            rw [show position + current + (i - current) = position + i by omega]
      · exact .inr ⟨hbad, by omega, by omega⟩
    · have hbeyond : fw.diskSize < position + count := by
        simp only [Firmware.diskSize, sectorSize, bcacheSize] at hposition ⊢
        omega
      have hlt : block * 8 + 8 < 18446744073709551616 := by
        simp only [bcacheSize] at hposition
        omega
      refine Post.bind ((biGetBCacheEntry_beyond hs (by omega) hlt).mono (fun _ _ h => h)
        fun _ _ h => ⟨h, Nat.pos_of_ne_zero hcount, hbeyond⟩) fun data s₁ hbad => ?_
      rw [post_bind, post_get]
      exact (readCached_later fw fuel _ _ _ _ s₁).mono
        (fun _ _ h => .inr ⟨h.not_onDisk hbad, Nat.pos_of_ne_zero hcount, hbeyond⟩)
        fun _ _ h => ⟨h.not_onDisk hbad, Nat.pos_of_ne_zero hcount, hbeyond⟩

/-- Inside the disk a read through the cache is a read of the disk. -/
theorem readCached_returns (hserves : fw.Serves disk) {fuel count : Nat} (hfuel : count < fuel)
    (m : ByteMemory) (buffer : Nat) {position : Nat} (hs : s.Ready disk fw blocks)
    (hin : position + count ≤ fw.diskSize) :
    Returns (readCached fw fuel m buffer position count) s fun m' s' =>
      s'.Ready disk fw ((blocksRead position count).foldl
          (fun l b => touch bcacheCount b l) blocks) ∧
        m' = m.put buffer count fun i => disk (position + i) := by
  have hfit : position + count < 18446744073709551616 := by
    have := fw.sectorCount_lt
    simp only [Firmware.diskSize, sectorSize] at hin
    omega
  refine (readCached_post hserves hfuel m buffer hs hfit).mono ?_ fun _ _ h => by omega
  rintro m' s' (⟨hs', bytes, rfl, hbytes⟩ | ⟨-, -, hbeyond⟩)
  · exact ⟨hs', put_congr m fun i hi => hbytes i hi (by omega)⟩
  · omega

end

/-! ## Runs of reads -/

structure DiskRead where
  buffer : Nat
  position : Nat
  count : Nat

/-- A cached read into memory. -/
def readStep (fw : Firmware) (w : ByteMemory × DiskState) (r : DiskRead) :
    Option (ByteMemory × DiskState) :=
  match (biReadFromDisk fw w.1 r.buffer r.position r.count false).run w.2 with
  | (.ok m, s) => some (m, s)
  | (.error _, _) => none

/-- The blocks that reads use, in this order. -/
def blocksUsed (reads : List DiskRead) : List Nat :=
  reads.flatMap fun r => blocksRead r.position r.count

/-- The same reads without a cache. -/
def readDirectly (disk : ByteMemory) (m : ByteMemory) (reads : List DiskRead) : ByteMemory :=
  reads.foldl (fun m r => m.put r.buffer r.count fun i => disk (r.position + i)) m

section
variable {disk : ByteMemory} {fw : Firmware} {blocks : List Nat}

theorem readStep_eq (hserves : fw.Serves disk) {w : ByteMemory × DiskState} {r : DiskRead}
    (hw : w.2.Ready disk fw blocks) (hin : r.position + r.count ≤ fw.diskSize) :
    ∃ s, readStep fw w r = some (w.1.put r.buffer r.count fun i => disk (r.position + i), s) ∧
      s.Ready disk fw ((blocksRead r.position r.count).foldl
        (fun l b => touch bcacheCount b l) blocks) := by
  obtain ⟨m, s, hrun, hs, rfl⟩ := returns_iff.1
    (readCached_returns hserves (Nat.lt_succ_self _) w.1 r.buffer hw hin)
  have hread : (biReadFromDisk fw w.1 r.buffer r.position r.count false).run w.2 =
      (.ok (w.1.put r.buffer r.count fun i => disk (r.position + i)), s) := hrun
  refine ⟨s, ?_, hs⟩
  unfold readStep
  rw [hread]

theorem run_readStep (hserves : fw.Serves disk) {reads : List DiskRead}
    (hin : ∀ r ∈ reads, r.position + r.count ≤ fw.diskSize) {w : ByteMemory × DiskState}
    (hw : w.2.Ready disk fw blocks) :
    ∃ s, Run.run (readStep fw) w reads = some (readDirectly disk w.1 reads, s) ∧
      s.Ready disk fw ((blocksUsed reads).foldl (fun l b => touch bcacheCount b l) blocks) := by
  induction reads generalizing w blocks with
  | nil => exact ⟨w.2, rfl, hw⟩
  | cons r reads ih =>
    obtain ⟨s₁, hstep, hs₁⟩ := readStep_eq hserves hw (hin r (by simp))
    obtain ⟨s₂, hrun, hs₂⟩ := ih (fun r hr => hin r (by simp [hr])) (w := (_, s₁)) hs₁
    refine ⟨s₂, Run.run_cons_eq_some.2 ⟨_, hstep, hrun⟩, ?_⟩
    unfold blocksUsed at hs₂ ⊢
    rwa [List.flatMap_cons, List.foldl_append]

/-- The entry to be evicted is the last one. -/
theorem BCache.Inv.claim_eq {c : BCache} {entries : List Nat} (h : c.Inv disk fw entries)
    (hfull : c.used = bcacheCount) :
    (c.blocks entries)[bcacheCount - 1]? = some (c.metas c.claim.2).block := by
  have hlength := h.length_eq
  have hfull' : c.used = 16 := hfull
  obtain ⟨xs, e, rfl⟩ : ∃ xs e, entries = xs ++ [e] := by
    rcases List.eq_nil_or_concat entries with rfl | ⟨xs, e, rfl⟩
    · rw [List.length_nil] at hlength
      omega
    · exact ⟨xs, e, by simp⟩
  have hclaim : c.claim.2 = e := by
    have htail : c.list.tail = (xs ++ [e]).getLastD 0 := LinkedList.Holds.tail_eq h.lists
    unfold BCache.claim
    rw [if_neg (by omega)]
    show container 0 c.list.tail = e
    unfold container
    rw [htail, List.getLastD_concat]
    split <;> omega
  rw [List.length_append, List.length_singleton, hfull'] at hlength
  rw [hclaim, BCache.blocks, List.map_append, List.getElem?_append_right]
  · have hindex : bcacheCount - 1 - (xs.map fun e => (c.metas e).block).length = 0 := by
      rw [List.length_map]
      show 16 - 1 - xs.length = 0
      omega
    rw [hindex]
    rfl
  · rw [List.length_map]
    show xs.length ≤ 16 - 1
    omega

/-- After any reads inside the disk, memory is as if there were no cache, and the cache holds the
blocks used last, in the order of their use; the next one to go is the one not used for longest. -/
theorem blockCache_transparent (hserves : fw.Serves disk) (m : ByteMemory) (reads : List DiskRead)
    (hin : ∀ r ∈ reads, r.position + r.count ≤ fw.diskSize) :
    ∃ s entries, Run.run (readStep fw) (m, .init) reads = some (readDirectly disk m reads, s) ∧
      s.cache.Inv disk fw entries ∧
      s.cache.blocks entries = (recent (blocksUsed reads)).take bcacheCount ∧
      (s.cache.used = bcacheCount → (recent (blocksUsed reads))[bcacheCount - 1]? =
        some (s.cache.metas s.cache.claim.2).block) := by
  obtain ⟨s, hrun, -, entries, hinv, hblocks⟩ :=
    run_readStep hserves hin (w := (m, .init)) (DiskState.init_ready disk fw)
  rw [foldl_touch] at hblocks
  refine ⟨s, entries, hrun, hinv, hblocks, fun hfull => ?_⟩
  have hlast := hinv.claim_eq hfull
  rwa [hblocks, List.getElem?_take_of_lt (by decide)] at hlast

end

/-- Two reads that straddle blocks, on a disk of three of them. -/
theorem blockCache_transparent_straddle :
    ∃ s entries, Run.run (readStep (.ofImage (fun x => BitVec.ofNat 8 x) 24 (by decide)))
        (fun _ => 0, .init)
        [{ buffer := 0, position := 4000, count := 200 },
          { buffer := 200, position := 8100, count := 4000 }] =
        some (readDirectly (fun x => BitVec.ofNat 8 x) (fun _ => 0)
          [{ buffer := 0, position := 4000, count := 200 },
            { buffer := 200, position := 8100, count := 4000 }], s) ∧
      s.cache.Inv (fun x => BitVec.ofNat 8 x)
        (.ofImage (fun x => BitVec.ofNat 8 x) 24 (by decide)) entries ∧
      s.cache.blocks entries = [2, 1, 0] := by
  obtain ⟨s, entries, hrun, hinv, hblocks, -⟩ := blockCache_transparent
    (Firmware.ofImage_serves (fun x => BitVec.ofNat 8 x) 24 (by decide)) (fun _ => 0)
    [{ buffer := 0, position := 4000, count := 200 },
      { buffer := 200, position := 8100, count := 4000 }]
    (by decide)
  exact ⟨s, entries, hrun, hinv, hblocks⟩

end XrLinux.Bootloader
