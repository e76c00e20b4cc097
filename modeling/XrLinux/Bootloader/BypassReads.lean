import XrLinux.Bootloader.Paging
import XrLinux.Bootloader.FileReads

/-!
# Bootloader — the reads around the cache

The three requests of `main.c` that bypass the cache, next to the same requests through it. What goes
into the buffer is the same whenever both come to an end, but around the cache only whole sectors
can be read, and a block of almost 4 GiB is allocated with a size that wraps to 0.
-/

namespace XrLinux.Bootloader

open Prog ByteMemory

/-- A file whose blocks are where `map` says. -/
structure Volume.File (vol : Volume) where
  inode : BiInode
  map : Nat → Nat
  maps : vol.Maps inode map

/-- The requests with the cache bypassed: an initrd, a page of the kernel image inside of its file, and
the boot volume as an initrd. -/
inductive BypassRequest (vol : Volume)
  | initrd (file : vol.File)
  | kernelPage (file : vol.File) (virtualAddr page : Nat)
      (inside : sub32 (page * pageSize) virtualAddr + pageSize ≤ biInodeSize vol.fs file.inode)
  | bootVolume

namespace BypassRequest

variable {vol : Volume}

/-- What is allocated; `SIZE_MAX` is 2^32 - 1. -/
def size : BypassRequest vol → Nat
  | initrd file => min (biInodeSize vol.fs file.inode) 4294967295
  | kernelPage .. => pageSize
  | bootVolume => min vol.part.size 4294967295

def run (r : BypassRequest vol) (m : ByteMemory) (buffer : Nat) (bypassCache : Bool) :
    DiskProg ByteMemory :=
  match r with
  | initrd file => blFsFileRead vol.fw vol.part vol.fs file.inode m buffer r.size 0 bypassCache
  | kernelPage file virtualAddr page _ =>
    blFsFileRead vol.fw vol.part vol.fs file.inode m buffer pageSize
      (sub32 (page * pageSize) virtualAddr) bypassCache
  | bootVolume => blReadFromPartition vol.fw vol.part m buffer 0 r.size bypassCache

/-- Whatever is in memory and in the cache, the request completes, with the bytes that it has through
the cache, and does not write outside of what is allocated for it. -/
def Agrees (r : BypassRequest vol) (buffer : Nat) : Prop :=
  ∀ m s, vol.Steady s → Returns (r.run m buffer true) s fun m' _ =>
    (Returns (r.run m buffer false) s fun m'' _ => ∀ i < r.size, m' (buffer + i) = m'' (buffer + i)) ∧
      ∀ x, x < buffer ∨ buffer + alignUp r.size heapAlignment ≤ x → m' x = m x

/-- The size does not wrap, and no piece that is not a hole has a part of a sector. -/
def Whole (r : BypassRequest vol) : Prop :=
  match r with
  | initrd file => r.size ≤ 4294967292 ∧ vol.RangeAligned file.map 0 r.size 0
  | kernelPage file virtualAddr page _ =>
    vol.RangeAligned file.map 0 pageSize (sub32 (page * pageSize) virtualAddr)
  | bootVolume => vol.part.size < 4294967296

end BypassRequest

section
variable {vol : Volume} {inode : BiInode} {map : Nat → Nat} {s : DiskState} {m : ByteMemory}
  {buffer size position fuel : Nat}

/-- Where a page starts makes no difference to the alignment of the pieces. -/
theorem rangeAligned_page (hbuffer : buffer % pageSize = 0) :
    vol.RangeAligned map buffer size position ↔ vol.RangeAligned map 0 size position := by
  have hsame : ∀ k, (buffer + k) % sectorSize = (0 + k) % sectorSize := by
    intro k
    unfold pageSize at hbuffer
    unfold sectorSize
    omega
  unfold Volume.RangeAligned SectorAligned
  simp only [hsame]

/-- Around the cache the loop stops at the first piece that is not aligned. -/
theorem readInodeBlocks_crash (hmaps : vol.Maps inode map) (hs : vol.Steady s)
    (hin : position + size ≤ biInodeSize vol.fs inode)
    (hunaligned : ¬vol.RangeAligned map buffer size position) :
    Post (readInodeBlocks vol.fw vol.part vol.fs inode true fuel m buffer size position) s
      (fun _ _ => False) fun _ _ => True := by
  induction fuel generalizing s m buffer size position with
  | zero => trivial
  | succ fuel ih =>
    have hsize : size ≠ 0 := by
      rintro rfl
      exact hunaligned fun x hlo hhi => absurd hhi (by omega)
    obtain ⟨hposition, hoffset⟩ := div_mul_add_mod position vol.shift
    have hle := firstCount_le vol.shift size position
    have hstart : position / 2 ^ vol.shift * 2 ^ vol.shift < biInodeSize vol.fs inode := by omega
    have hfits : position % 2 ^ vol.shift + firstCount vol.shift size position ≤ 2 ^ vol.shift := by
      unfold firstCount
      omega
    refine readInodeBlocks_step hmaps hs hsize hin fun s₁ hs₁ => ?_
    by_cases hfirst : map (position / 2 ^ vol.shift) ≠ 0 → SectorAligned buffer
        (map (position / 2 ^ vol.shift) * 2 ^ vol.shift + position % 2 ^ vol.shift)
        (firstCount vol.shift size position)
    · refine (readPiece_returns hs₁ (hmaps.hasBlock _ hstart) hfits fun _ => hfirst).post.mono ?_
        fun _ _ => id
      rintro m' s₂ ⟨hs₂, -⟩
      exact ih hs₂ (by omega) fun hrest => hunaligned ((rangeAligned_step hsize).2 ⟨hfirst, hrest⟩)
    · obtain ⟨hhole, hpiece⟩ := Classical.not_imp.1 hfirst
      obtain ⟨reason, hcrash⟩ :=
        readPiece_crash (hmaps.hasBlock _ hstart hhole) hhole hfits hpiece
      rw [hcrash]
      trivial

/-- Inside the file, `BlFsFileRead` reads from the inode, although it subtracts the wrong way round. -/
theorem blFsFileRead_eq (hmaps : vol.Maps inode map) (hsize : size ≠ 0)
    (hcount : size < 4294967296) (hin : position + size ≤ biInodeSize vol.fs inode)
    (bypassCache : Bool) :
    blFsFileRead vol.fw vol.part vol.fs inode m buffer size position bypassCache =
      biReadFromInode vol.fw vol.part vol.fs inode m buffer size position bypassCache := by
  have hlt := hmaps.size_lt
  unfold blFsFileRead sub64
  dsimp only
  rw [if_neg (by omega)]

theorem alignUp_word (hsize : size < 4294967296) :
    (size ≤ 4294967292 → size ≤ alignUp size heapAlignment) ∧
      (4294967292 < size → alignUp size heapAlignment = 0) := by
  have heq : alignUp size heapAlignment =
      if size + 3 < 4294967296 then (size + 3) - (size + 3) % 4 else 0 :=
    @alignUp_eq 2 (by decide) size hsize
  rw [heq]
  constructor
  · intro hle
    rw [if_pos (by omega)]
    omega
  · intro hgt
    exact if_neg (by omega)

/-- A program that delivers bytes, and one that delivers the same. -/
theorem agrees_of_returns {p p' : DiskProg ByteMemory} {bytes : Nat → BitVec 8}
    (hsize : size ≤ 4294967292)
    (h : Returns p s fun m' s' => vol.Steady s' ∧ m' = m.put buffer size bytes)
    (h' : Returns p' s fun m' s' => vol.Steady s' ∧ m' = m.put buffer size bytes) :
    Returns p s fun m' _ => (Returns p' s fun m'' _ => ∀ i < size, m' (buffer + i) = m'' (buffer + i)) ∧
      ∀ x, x < buffer ∨ buffer + alignUp size heapAlignment ≤ x → m' x = m x := by
  refine h.mono ?_
  rintro m' s' ⟨-, rfl⟩
  refine ⟨h'.mono ?_, fun x hx => put_of_not_mem m bytes ?_⟩
  · rintro m'' s'' ⟨-, rfl⟩ i hi
    rfl
  · have := (alignUp_word (show size < 4294967296 by omega)).1 hsize
    omega

/-- A size that wraps leaves no room for the bytes that are read. -/
theorem not_agrees_of_wrap {p : ByteMemory → DiskProg ByteMemory}
    {bytes : Nat → BitVec 8} (hsize : 4294967292 < size) (hlt : size < 4294967296)
    (h : ∀ m, Returns (p m) s fun m' s' => vol.Steady s' ∧ m' = m.put buffer size bytes) :
    ¬∀ m, Returns (p m) s fun m' _ =>
      ∀ x, x < buffer ∨ buffer + alignUp size heapAlignment ≤ x → m' x = m x := by
  intro hall
  -- memory with another byte where the buffer is
  obtain ⟨m', s', hrun, -, rfl⟩ := returns_iff.1 (h fun _ => bytes 0 + 1)
  have hframe := (hall fun _ => bytes 0 + 1).of_run_ok hrun buffer (by
    rw [(alignUp_word hlt).2 hsize]
    omega)
  have hbyte := put_byte (fun _ => bytes 0 + 1) (a := buffer) bytes (show 0 < size by omega)
  rw [Nat.add_zero, hframe] at hbyte
  exact absurd hbyte (by simp)

/-- The pages of `BlAllocateHeap` are pages. -/
theorem blAllocateHeap_page {heap heap' : Heap}
    (halloc : blAllocateHeap heap size pageSize true = .ok (heap', buffer)) :
    buffer % pageSize = 0 := by
  unfold blAllocateHeap at halloc
  split at halloc
  · cases halloc
    rfl
  · dsimp only at halloc
    cases hfit : firstFit heap (alignUp size heapAlignment)
        (if pageSize < heapAlignment then heapAlignment else pageSize) 0 with
    | error e =>
      rw [if_pos rfl, hfit] at halloc
      cases halloc
    | ok range =>
      rw [if_pos rfl, hfit] at halloc
      cases range with
      | none => cases halloc
      | some range =>
        cases halloc
        exact Nat.mod_eq_zero_of_dvd (@alignUp_dvd 12 (by decide) _ (Nat.mod_lt _ (by decide)))

/-- A request for a part of a file. -/
theorem file_agrees_iff (hmaps : vol.Maps inode map) (hbuffer : buffer % pageSize = 0)
    (hlt : size < 4294967296) (hin : position + size ≤ biInodeSize vol.fs inode) :
    (∀ m s, vol.Steady s →
      Returns (blFsFileRead vol.fw vol.part vol.fs inode m buffer size position true) s fun m' _ =>
        (Returns (blFsFileRead vol.fw vol.part vol.fs inode m buffer size position false) s
          fun m'' _ => ∀ i < size, m' (buffer + i) = m'' (buffer + i)) ∧
        ∀ x, x < buffer ∨ buffer + alignUp size heapAlignment ≤ x → m' x = m x) ↔
      size ≤ 4294967292 ∧ vol.RangeAligned map 0 size position := by
  by_cases hsize : size = 0
  · subst hsize
    have hskip : ∀ m bypassCache, blFsFileRead vol.fw vol.part vol.fs inode m buffer 0 position
        bypassCache = pure m := by
      intro m bypassCache
      unfold blFsFileRead
      exact if_pos (.inl rfl)
    refine iff_of_true (fun m s _ => ?_) ⟨by decide, fun x hlo hhi => absurd hhi (by omega)⟩
    rw [hskip, hskip]
    exact ⟨fun i hi => rfl, fun x _ => rfl⟩
  · rw [← rangeAligned_page hbuffer]
    simp only [blFsFileRead_eq hmaps hsize hlt hin]
    have hreturns := fun m s bypassCache hs => @biReadFromInode_returns vol inode map s m buffer size
      position bypassCache hmaps hs hin
    constructor
    · intro h
      have hsteady : vol.Steady .init := ⟨[], DiskState.init_ready _ _⟩
      have haligned : vol.RangeAligned map buffer size position := by
        by_contra hunaligned
        obtain ⟨m', s', hrun, -⟩ := returns_iff.1 (h (fun _ => 0) .init hsteady)
        exact (readInodeBlocks_crash hmaps hsteady hin hunaligned).of_run_ok hrun
      refine ⟨not_lt.1 fun hwrap => ?_, haligned⟩
      exact not_agrees_of_wrap hwrap hlt (fun m => hreturns m .init true hsteady fun _ => haligned)
        fun m => (h m .init hsteady).mono fun m' _ h => h.2
    · rintro ⟨hwhole, haligned⟩ m s hs
      exact agrees_of_returns hwhole (hreturns m s true hs fun _ => haligned)
        (hreturns m s false hs fun h => Bool.noConfusion h)

/-- The request for the whole partition. -/
theorem partition_agrees_iff (hbuffer : buffer % pageSize = 0) :
    (BypassRequest.bootVolume : BypassRequest vol).Agrees buffer ↔ vol.part.size < 4294967296 := by
  have hwhole : vol.part.size % 512 = 0 := Nat.mul_mod_left _ _
  have hin : 0 + min vol.part.size 4294967295 ≤ vol.part.size := by omega
  have hsteady : vol.Steady .init := ⟨[], DiskState.init_ready _ _⟩
  constructor
  · intro h
    by_contra hlarge
    -- 2^32 - 1 bytes end inside of a sector
    have hunaligned : ¬SectorAligned buffer 0 (min vol.part.size 4294967295) := by
      intro haligned
      have hcount := haligned.2.1
      unfold sectorSize at hcount
      omega
    obtain ⟨reason, hcrash⟩ := @blReadFromPartition_unaligned vol (fun _ => 0) buffer 0 _ hin hunaligned
    have hreturns : Returns (blReadFromPartition vol.fw vol.part (fun _ => 0) buffer 0
        (min vol.part.size 4294967295) true) .init _ := h (fun _ => 0) .init hsteady
    rw [hcrash] at hreturns
    exact hreturns
  · intro hsmall m s hs
    have haligned : SectorAligned buffer 0 (min vol.part.size 4294967295) := by
      unfold SectorAligned sectorSize
      unfold pageSize at hbuffer
      omega
    have hsize : min vol.part.size 4294967295 ≤ 4294967292 := by omega
    exact agrees_of_returns hsize (blReadFromPartition_returns hs hin fun _ => haligned)
      (blReadFromPartition_returns hs hin fun h => Bool.noConfusion h)

end

theorem BypassRequest.agrees_iff_of_page {vol : Volume} (r : BypassRequest vol) {buffer : Nat}
    (hbuffer : buffer % pageSize = 0) : r.Agrees buffer ↔ r.Whole := by
  cases r with
  | initrd file =>
    have hlt : min (biInodeSize vol.fs file.inode) 4294967295 < 4294967296 := by omega
    have hin : 0 + min (biInodeSize vol.fs file.inode) 4294967295 ≤ biInodeSize vol.fs file.inode := by
      omega
    exact file_agrees_iff file.maps hbuffer hlt hin
  | kernelPage file virtualAddr page inside =>
    have hpage := file_agrees_iff file.maps hbuffer (show pageSize < 4294967296 by decide) inside
    exact hpage.trans (and_iff_right (by decide))
  | bootVolume => exact partition_agrees_iff hbuffer

/-- Exactly when a request around the cache is as good as one through it, for every page that the
heap has for it. -/
theorem bypassRequest_agrees_iff {vol : Volume} (r : BypassRequest vol) {heap heap' : Heap}
    {buffer : Nat} (halloc : blAllocateHeap heap r.size pageSize true = .ok (heap', buffer)) :
    r.Agrees buffer ↔ r.Whole :=
  r.agrees_iff_of_page (blAllocateHeap_page halloc)

/-- A file with its first block in the third one of the volume, and holes behind it. -/
def smallFile (vol : Volume) (hshift : vol.shift = 10) (hroom : 3072 ≤ vol.part.size) (size : Nat)
    (hsize : size ≤ 12288) : vol.File where
  inode :=
    { mode := typeReg, size, directBlocks := fun i => if i = 0 then 2 else 0,
      indirectBlocks := fun _ => 0, sizeUpper := 0 }
  map i := if i = 0 then 2 else 0
  maps := by
    refine Volume.Maps.of_direct (by omega) ?_ fun block _ hhole => ?_
    · rw [biInodeSize_of_small rfl, hshift]
      exact hsize
    · have hfirst : block = 0 := by
        by_contra hne
        exact hhole (if_neg hne)
      subst hfirst
      show (2 + 1) * 2 ^ vol.shift ≤ vol.part.size
      rw [hshift]
      exact hroom

section
variable {vol : Volume} {hshift : vol.shift = 10} {hroom : 3072 ≤ vol.part.size} {size : Nat}

theorem smallFile_size (hsize : size ≤ 12288) :
    (BypassRequest.initrd (smallFile vol hshift hroom size hsize)).size = size := by
  show min (biInodeSize vol.fs (smallFile vol hshift hroom size hsize).inode) 4294967295 = size
  rw [biInodeSize_of_small rfl]
  exact Nat.min_eq_left (by show size ≤ _; omega)

theorem smallFile_whole_iff (hsize : size ≤ 12288) :
    (BypassRequest.initrd (smallFile vol hshift hroom size hsize)).Whole ↔
      1024 ≤ size ∨ size % 512 = 0 := by
  unfold BypassRequest.Whole
  dsimp only
  rw [smallFile_size]
  unfold Volume.RangeAligned SectorAligned pieceStart pieceEnd smallFile sectorSize
  rw [hshift]
  show size ≤ 4294967292 ∧ (∀ x, 0 ≤ x → x < 0 + size → (if x / 1024 = 0 then 2 else 0) ≠ 0 →
    ((if x / 1024 = 0 then 2 else 0) * 1024 + max 0 (x / 1024 * 1024) % 1024) % 512 = 0 ∧
      (min (0 + size) (x / 1024 * 1024 + 1024) - max 0 (x / 1024 * 1024)) % 512 = 0 ∧
        (0 + (max 0 (x / 1024 * 1024) - 0)) % 512 = 0) ↔ _
  constructor
  · rintro ⟨-, hall⟩
    by_cases hempty : size = 0
    · exact .inr (by omega)
    · have hfirst := (hall 0 (Nat.le_refl _) (by omega) (by decide)).2.1
      omega
  · intro hwhole
    refine ⟨by omega, fun x _ hx hhole => ?_⟩
    have hfirst : x / 1024 = 0 := by
      by_contra hne
      exact hhole (if_neg hne)
    rw [hfirst, if_pos rfl]
    omega

end

def smallHeap : Except Stop Heap :=
  blAddHeapRange { mem := fun _ => 0, heapRanges := .init, freeRanges := .init } 0x1000 0x3000

theorem smallHeap_page {size : Nat} (hsize : size = 1024 ∨ size = 700) : ∃ heap heap' buffer,
    smallHeap = .ok heap ∧ blAllocateHeap heap size pageSize true = .ok (heap', buffer) := by
  have hok : (match smallHeap with
      | .error _ => none
      | .ok heap => (blAllocateHeap heap size pageSize true).toOption.map Prod.snd) = some 0x1000 := by
    rcases hsize with rfl | rfl <;> decide +kernel
  cases hheap : smallHeap with
  | error e =>
    rw [hheap] at hok
    cases hok
  | ok heap =>
    rw [hheap] at hok
    dsimp only at hok
    cases halloc : blAllocateHeap heap size pageSize true with
    | error e =>
      rw [halloc] at hok
      cases hok
    | ok result => exact ⟨heap, result.1, result.2, rfl, halloc⟩

def smallVolume : Volume := farVolume 10 64#32 (by decide)

theorem smallVolume_shift : smallVolume.shift = 10 := farVolume_shift (by decide)

theorem smallVolume_room : 3072 ≤ smallVolume.part.size := by decide

/-- An initrd of one block, in a page of a heap of three. -/
theorem bypassRequest_agrees_iff_block : ∃ heap heap' buffer, smallHeap = .ok heap ∧
    blAllocateHeap heap 1024 pageSize true = .ok (heap', buffer) ∧
      (BypassRequest.initrd (smallFile smallVolume smallVolume_shift smallVolume_room 1024
        (by decide))).Agrees buffer := by
  obtain ⟨heap, heap', buffer, hheap, halloc⟩ := @smallHeap_page 1024 (.inl rfl)
  refine ⟨heap, heap', buffer, hheap, halloc, ?_⟩
  rw [bypassRequest_agrees_iff _ (by rw [smallFile_size]; exact halloc), smallFile_whole_iff]
  decide

/-- An initrd of 700 bytes. -/
theorem bypassRequest_initrd_fails : ∃ heap heap' buffer, smallHeap = .ok heap ∧
    blAllocateHeap heap 700 pageSize true = .ok (heap', buffer) ∧
      ¬(BypassRequest.initrd (smallFile smallVolume smallVolume_shift smallVolume_room 700
        (by decide))).Agrees buffer := by
  obtain ⟨heap, heap', buffer, hheap, halloc⟩ := @smallHeap_page 700 (.inr rfl)
  refine ⟨heap, heap', buffer, hheap, halloc, ?_⟩
  rw [BypassRequest.agrees_iff_of_page _ (blAllocateHeap_page halloc), smallFile_whole_iff]
  decide

end XrLinux.Bootloader
