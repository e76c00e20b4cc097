import XrLinux.Bootloader.BlockCache

/-!
# Bootloader — reads from the root partition

What `BlReadFromPartition` refuses, and what becomes of the reads that it does not. The bounds of the
partition are checked; those of the disk are not: `BxReadFromDisk` cuts a request off at the end of
the disk, and the count wraps when it starts behind it.
-/

namespace XrLinux.Bootloader

open Prog ByteMemory

/-- `struct MbrPartition`, as far as it is read. -/
structure MbrPartition where
  bootIndicator : BitVec 8
  type : BitVec 8
  startingLba : BitVec 32
  sizeInLba : BitVec 32

/-- What `BlFindRootPartition` makes of an entry. -/
def MbrPartition.toPartition (entry : MbrPartition) : BlPartition where
  start := entry.startingLba.toNat * sectorSize
  size := entry.sizeInLba.toNat * sectorSize

structure PartitionRead where
  entry : MbrPartition
  buffer : BitVec 32
  position : BitVec 64
  count : BitVec 32
  bypassCache : Bool

namespace PartitionRead

def start (r : PartitionRead) : Nat := r.entry.toPartition.start + r.position.toNat

/-- The read, in the memory and with the cache there are. -/
def run (fw : Firmware) (r : PartitionRead) (w : ByteMemory × DiskState) :
    Except Stop ByteMemory × DiskState :=
  (blReadFromPartition fw r.entry.toPartition w.1 r.buffer.toNat r.position.toNat r.count.toNat
    r.bypassCache).run w.2

/-- The read is refused, or asks for sectors of the disk and delivers, from inside the partition,
what they hold. -/
def StaysInside (fw : Firmware) (disk : ByteMemory) (r : PartitionRead)
    (w : ByteMemory × DiskState) : Prop :=
  (r.run fw w).2.OnDisk fw ∧
  match (r.run fw w).1 with
  | .error (.crash _) => True
  | .error .diverges => False
  | .ok m => ∀ i < r.count.toNat, r.position.toNat + i < r.entry.toPartition.size ∧
      r.start + i < fw.diskSize ∧ m (r.buffer.toNat + i) = disk (r.start + i)

/-- What the bootloader checks before it reads. -/
def Refused (r : PartitionRead) : Prop :=
  r.entry.toPartition.size < r.position.toNat + r.count.toNat ∨
    r.bypassCache = true ∧ (r.position.toNat % sectorSize ≠ 0 ∨ r.count.toNat % sectorSize ≠ 0 ∨
      r.buffer.toNat % sectorSize ≠ 0)

def InsideDisk (fw : Firmware) (r : PartitionRead) : Prop :=
  r.Refused ∨ (r.bypassCache = false ∧ r.count.toNat = 0) ∨
    r.start + r.count.toNat ≤ fw.diskSize

instance decidableInsideDisk (fw : Firmware) (r : PartitionRead) : Decidable (r.InsideDisk fw) := by
  unfold InsideDisk Refused
  infer_instance

end PartitionRead

section
variable {disk : ByteMemory} {fw : Firmware} {s : DiskState} {blocks : List Nat}
  {part : BlPartition} {m : ByteMemory} {buffer position count : Nat}

/-- Past the check of the bounds. -/
theorem blReadFromPartition_eq (hin : position + count ≤ part.size)
    (hfit : part.start + part.size < 18446744073709551616) (bypassCache : Bool) :
    blReadFromPartition fw part m buffer position count bypassCache =
      biReadFromDisk fw m buffer (part.start + position) count bypassCache := by
  have hstop : add64 position count = position + count := Nat.mod_eq_of_lt (by omega)
  have hplace : add64 part.start position = part.start + position := Nat.mod_eq_of_lt (by omega)
  unfold blReadFromPartition
  rw [hstop, hplace]
  exact if_neg (by omega)

theorem blReadFromPartition_refused (hout : part.size < position + count)
    (hposition : position < 18446744073709551616) (hcount : count < 4294967296)
    (hsize : part.size < 9223372036854775808) (bypassCache : Bool) :
    blReadFromPartition fw part m buffer position count bypassCache =
      Prog.stop (.crash "tried to read beyond partition bounds") := by
  unfold blReadFromPartition
  refine if_pos ?_
  unfold add64
  omega

/-- A read through the cache, inside the partition and the disk. -/
theorem blReadFromPartition_cached (hserves : fw.Serves disk) (hs : s.Steady disk fw)
    (hin : position + count ≤ part.size) (hdisk : part.start + part.size ≤ fw.diskSize) :
    Returns (blReadFromPartition fw part m buffer position count false) s fun m' s' =>
      s'.Steady disk fw ∧ m' = m.put buffer count fun i => disk (part.start + position + i) := by
  obtain ⟨blocks, hs⟩ := hs
  have hlt := fw.sectorCount_lt
  have hfit : part.start + part.size < 18446744073709551616 := by
    simp only [Firmware.diskSize, sectorSize] at hdisk
    omega
  rw [blReadFromPartition_eq hin hfit]
  exact (readCached_returns hserves (Nat.lt_succ_self _) m buffer hs (by omega)).mono
    fun m' s' h => ⟨⟨_, h.1⟩, h.2⟩

/-- A read around the cache from where the disk still is. -/
theorem biReadFromDisk_bypass (hserves : fw.Serves disk) (hs : s.Ready disk fw blocks)
    (hbuffer : buffer % sectorSize = 0) (hposition : position % sectorSize = 0)
    (hcount : count % sectorSize = 0) (hstart : position ≤ fw.diskSize)
    (hfit : position + count < 9223372036854775808) :
    Returns (biReadFromDisk fw m buffer position count true) s fun m' s' =>
      s'.Ready disk fw blocks ∧
        m' = m.put buffer (min count (fw.diskSize - position)) fun i => disk (position + i) := by
  obtain ⟨sector, rfl⟩ : ∃ sector, position = sector * sectorSize :=
    ⟨position / sectorSize, by simp only [sectorSize] at *; omega⟩
  obtain ⟨sectors, rfl⟩ : ∃ sectors, count = sectors * sectorSize :=
    ⟨count / sectorSize, by simp only [sectorSize] at *; omega⟩
  have hsector : sector ≤ fw.sectorCount := by
    simp only [Firmware.diskSize, sectorSize] at hstart
    omega
  unfold biReadFromDisk
  rw [if_pos rfl, if_neg (not_not.2 hposition), if_neg (not_not.2 hcount),
    Nat.mul_div_cancel _ (by decide), Nat.mul_div_cancel _ (by decide)]
  refine Post.bind (Returns.post (bxReadFromDisk_returns hserves hbuffer hsector ?_)) ?_
  · simp only [sectorSize] at hfit
    omega
  · rintro _ s' ⟨delivery, rfl, hsize, hbytes, rfl⟩
    obtain ⟨hon, hcache⟩ := hs
    refine ⟨⟨List.forall_mem_cons.2 ⟨?_, hon⟩, hcache⟩, ?_⟩
    · show sector + min sectors (fw.sectorCount - sector) ≤ fw.sectorCount
      omega
    · have hlen : delivery.size = min (sectors * sectorSize) (fw.diskSize - sector * sectorSize) := by
        rw [hsize]
        simp only [Firmware.diskSize, sectorSize]
        omega
      rw [← hlen]
      exact put_congr m hbytes

/-- A read around the cache from behind the end of the disk. -/
theorem biReadFromDisk_bypass_beyond (hbuffer : buffer % sectorSize = 0)
    (hposition : position % sectorSize = 0) (hcount : count % sectorSize = 0)
    (hstart : fw.diskSize < position) (hfit : position + count < 9223372036854775808) :
    Post (biReadFromDisk fw m buffer position count true) s (fun _ s' => ¬s'.OnDisk fw)
      fun _ s' => ¬s'.OnDisk fw := by
  have hsector : fw.sectorCount < position / sectorSize := by
    simp only [Firmware.diskSize, sectorSize] at *
    omega
  unfold biReadFromDisk
  rw [if_pos rfl, if_neg (not_not.2 hposition), if_neg (not_not.2 hcount)]
  refine Post.bind (bxReadFromDisk_beyond hbuffer hsector ?_) fun delivery s' hs' => ?_
  · simp only [sectorSize]
    omega
  · cases delivery with
    | none => exact hs'
    | some delivery => exact hs'

end

/-! ## Inside the disk or not -/

namespace PartitionRead

variable {disk : ByteMemory} {fw : Firmware} {w : ByteMemory × DiskState} {blocks : List Nat}

/-- What a postcondition of the read says about `StaysInside`. -/
theorem staysInside_of_post {r : PartitionRead} {Q : ByteMemory → DiskState → Prop}
    {E : Stop → DiskState → Prop}
    (h : Post (blReadFromPartition fw r.entry.toPartition w.1 r.buffer.toNat r.position.toNat
      r.count.toNat r.bypassCache) w.2 Q E)
    (hok : ∀ m s, Q m s → s.OnDisk fw ∧ ∀ i < r.count.toNat,
      r.position.toNat + i < r.entry.toPartition.size ∧ r.start + i < fw.diskSize ∧
        m (r.buffer.toNat + i) = disk (r.start + i))
    (herror : ∀ e s, E e s → s.OnDisk fw ∧ e ≠ .diverges) : r.StaysInside fw disk w := by
  unfold StaysInside run
  unfold Post at h
  split at h <;> rename_i hrun <;> rw [hrun]
  · exact hok _ _ h
  · obtain ⟨hon, hcrash⟩ := herror _ _ h
    refine ⟨hon, ?_⟩
    split <;> simp_all

theorem not_staysInside_of_post {r : PartitionRead} {Q : ByteMemory → DiskState → Prop}
    {E : Stop → DiskState → Prop}
    (h : Post (blReadFromPartition fw r.entry.toPartition w.1 r.buffer.toNat r.position.toNat
      r.count.toNat r.bypassCache) w.2 Q E)
    (hok : ∀ m s, Q m s → ¬s.OnDisk fw ∨
      (0 < r.count.toNat ∧ fw.diskSize < r.start + r.count.toNat))
    (herror : ∀ e s, E e s → ¬s.OnDisk fw) : ¬r.StaysInside fw disk w := by
  unfold StaysInside run
  unfold Post at h
  split at h <;> rename_i hrun <;> rw [hrun]
  · rintro ⟨hon, hbytes⟩
    rcases hok _ _ h with hoff | ⟨hcount, hend⟩
    · exact hoff hon
    · -- the last byte is not on the disk
      have hlast := (hbytes (r.count.toNat - 1) (by omega)).2.1
      omega
  · exact fun hstays => herror _ _ h hstays.1

theorem bounds (r : PartitionRead) :
    r.position.toNat < 18446744073709551616 ∧ r.count.toNat < 4294967296 ∧
      r.entry.toPartition.start < 4294967296 * 512 ∧ r.entry.toPartition.size < 4294967296 * 512 ∧
      r.entry.toPartition.start % 512 = 0 := by
  have hposition := r.position.isLt
  have hcount := r.count.isLt
  have hstart := r.entry.startingLba.isLt
  have hsize := r.entry.sizeInLba.isLt
  simp only [MbrPartition.toPartition, sectorSize]
  omega

/-- A read that is refused has asked for nothing. -/
theorem Refused.staysInside {r : PartitionRead} (hrefused : r.Refused) (hon : w.2.OnDisk fw) :
    r.StaysInside fw disk w := by
  obtain ⟨hposition, hcount, hstart, hsize, halign⟩ := r.bounds
  refine staysInside_of_post (Q := fun _ _ => False) (E := fun e s => s = w.2 ∧ e ≠ .diverges) ?_
    (fun _ _ => False.elim) fun e s h => ⟨h.1 ▸ hon, h.2⟩
  by_cases hout : r.entry.toPartition.size < r.position.toNat + r.count.toNat
  · rw [blReadFromPartition_refused hout hposition hcount (by omega)]
    exact ⟨rfl, by simp⟩
  · obtain ⟨hbypass, hunaligned⟩ := hrefused.resolve_left hout
    rw [blReadFromPartition_eq (by omega) (by omega), hbypass]
    simp only [sectorSize] at hunaligned
    unfold biReadFromDisk
    rw [if_pos rfl]
    by_cases hplace : (r.entry.toPartition.start + r.position.toNat) % sectorSize = 0
    · rw [if_neg (not_not.2 hplace)]
      simp only [sectorSize] at hplace
      by_cases hlen : r.count.toNat % sectorSize = 0
      · rw [if_neg (not_not.2 hlen), post_bind]
        simp only [sectorSize] at hlen
        have hbuffer : r.buffer.toNat % sectorSize ≠ 0 := by
          simp only [sectorSize]
          omega
        unfold bxReadFromDisk
        rw [if_pos hbuffer]
        exact ⟨rfl, by simp⟩
      · rw [if_pos hlen]
        exact ⟨rfl, by simp⟩
    · rw [if_pos hplace]
      exact ⟨rfl, by simp⟩

theorem staysInside_cached_iff (hserves : fw.Serves disk) (hs : w.2.Ready disk fw blocks)
    {r : PartitionRead} (hin : r.position.toNat + r.count.toNat ≤ r.entry.toPartition.size)
    (hbypass : r.bypassCache = false) :
    r.StaysInside fw disk w ↔ r.count.toNat = 0 ∨ r.start + r.count.toNat ≤ fw.diskSize := by
  obtain ⟨hposition, hcount, hstart, hsize, -⟩ := r.bounds
  have hpost := readCached_post hserves (Nat.lt_succ_self r.count.toNat) w.1 r.buffer.toNat hs
    (show r.start + r.count.toNat < _ by unfold start; omega)
  have heq : blReadFromPartition fw r.entry.toPartition w.1 r.buffer.toNat r.position.toNat
      r.count.toNat r.bypassCache =
        readCached fw (r.count.toNat + 1) w.1 r.buffer.toNat r.start r.count.toNat := by
    rw [hbypass]
    exact blReadFromPartition_eq hin (by omega) false
  rw [← heq] at hpost
  by_cases hinside : r.count.toNat = 0 ∨ r.start + r.count.toNat ≤ fw.diskSize
  · refine iff_of_true (staysInside_of_post hpost ?_ fun e s h => by omega) hinside
    rintro m s (⟨hready, bytes, rfl, hbytes⟩ | ⟨-, hcount, hbeyond⟩)
    · refine ⟨hready.1, fun i hi => ⟨by omega, by omega, ?_⟩⟩
      rw [put_byte _ _ hi, hbytes i hi (by omega)]
    · omega
  · refine iff_of_false (not_staysInside_of_post hpost ?_ ?_) hinside
    · rintro m s (⟨-, -⟩ | ⟨hbad, -⟩)
      · exact .inr ⟨by omega, by omega⟩
      · exact .inl hbad
    · exact fun e s h => h.1

theorem staysInside_bypass_iff (hserves : fw.Serves disk) (hs : w.2.Ready disk fw blocks)
    {r : PartitionRead} (hin : r.position.toNat + r.count.toNat ≤ r.entry.toPartition.size)
    (hbypass : r.bypassCache = true) (haligned : r.position.toNat % sectorSize = 0)
    (hlen : r.count.toNat % sectorSize = 0) (hbuffer : r.buffer.toNat % sectorSize = 0) :
    r.StaysInside fw disk w ↔ r.start + r.count.toNat ≤ fw.diskSize := by
  obtain ⟨hposition, hcount, hstart, hsize, halign⟩ := r.bounds
  have hplace : r.start % sectorSize = 0 := by
    simp only [sectorSize, start] at haligned ⊢
    omega
  have heq : blReadFromPartition fw r.entry.toPartition w.1 r.buffer.toNat r.position.toNat
      r.count.toNat r.bypassCache =
        biReadFromDisk fw w.1 r.buffer.toNat r.start r.count.toNat true := by
    rw [hbypass]
    exact blReadFromPartition_eq hin (by omega) true
  have hfit : r.start + r.count.toNat < 9223372036854775808 := by
    unfold start
    omega
  by_cases hstarts : r.start ≤ fw.diskSize
  · have hpost := biReadFromDisk_bypass hserves hs hbuffer hplace hlen hstarts hfit (m := w.1)
    unfold Returns at hpost
    rw [← heq] at hpost
    by_cases hends : r.start + r.count.toNat ≤ fw.diskSize
    · refine iff_of_true (staysInside_of_post hpost ?_ fun _ _ => False.elim) hends
      rintro m s ⟨hready, rfl⟩
      refine ⟨hready.1, fun i hi => ⟨by omega, by omega, ?_⟩⟩
      rw [put_byte _ _ (by omega)]
    · refine iff_of_false (not_staysInside_of_post hpost (fun m s _ => .inr ⟨?_, by omega⟩)
        fun _ _ => False.elim) hends
      omega
  · have hpost := biReadFromDisk_bypass_beyond (s := w.2) (m := w.1) hbuffer hplace hlen
      (not_le.1 hstarts) hfit
    rw [← heq] at hpost
    exact iff_of_false (not_staysInside_of_post hpost (fun _ _ => .inl) fun _ _ => id) (by omega)

/-- From a state between reads, a read stays inside exactly when its range does. -/
theorem staysInside_iff_of_ready (hserves : fw.Serves disk) (hs : w.2.Ready disk fw blocks)
    (r : PartitionRead) : r.StaysInside fw disk w ↔ r.InsideDisk fw := by
  by_cases hrefused : r.Refused
  · exact iff_of_true (hrefused.staysInside hs.1) (.inl hrefused)
  · have hin : r.position.toNat + r.count.toNat ≤ r.entry.toPartition.size :=
      not_lt.1 fun hout => hrefused (.inl hout)
    unfold InsideDisk
    cases hbypass : r.bypassCache with
    | false =>
      rw [staysInside_cached_iff hserves hs hin hbypass]
      simp [hrefused]
    | true =>
      have haligned : r.position.toNat % sectorSize = 0 ∧ r.count.toNat % sectorSize = 0 ∧
          r.buffer.toNat % sectorSize = 0 := by
        by_contra hnot
        refine hrefused (.inr ⟨hbypass, ?_⟩)
        tauto
      rw [staysInside_bypass_iff hserves hs hin hbypass haligned.1 haligned.2.1 haligned.2.2]
      simp [hrefused]

end PartitionRead

/-! ## Runs -/

/-- A read that completes. -/
def partitionStep (fw : Firmware) (w : ByteMemory × DiskState) (r : PartitionRead) :
    Option (ByteMemory × DiskState) :=
  if r.InsideDisk fw then
    match r.run fw w with
    | (.ok m, s) => some (m, s)
    | (.error _, _) => none
  else none

section
variable {disk : ByteMemory} {fw : Firmware}

/-- Around the cache means that the cache stays as it is. -/
theorem blReadFromPartition_bypass_cache (fw : Firmware) (part : BlPartition) (m : ByteMemory)
    (buffer position count : Nat) :
    Keeps (fun s s' : DiskState => s'.cache = s.cache)
      (blReadFromPartition fw part m buffer position count true) := by
  have hrefl : ∀ s : DiskState, s.cache = s.cache := fun _ => rfl
  have htrans : ∀ s t u : DiskState, t.cache = s.cache → u.cache = t.cache → u.cache = s.cache :=
    fun _ _ _ h h' => h'.trans h
  have hread : ∀ sector count, Keeps (fun s s' : DiskState => s'.cache = s.cache)
      (bxReadFromDisk fw buffer sector count) := by
    intro sector count
    unfold bxReadFromDisk
    split
    · exact Keeps.stop hrefl _
    · dsimp only
      split
      · exact Keeps.pure hrefl _
      · exact Keeps.bind htrans (Keeps.modify fun _ => rfl) fun _ => Keeps.pure hrefl _
  unfold blReadFromPartition biReadFromDisk
  dsimp only
  split
  · exact Keeps.stop hrefl _
  · rw [if_pos rfl]
    split
    · exact Keeps.stop hrefl _
    · split
      · exact Keeps.stop hrefl _
      · refine Keeps.bind htrans (hread _ _) fun delivery => ?_
        cases delivery with
        | none => exact Keeps.stop hrefl _
        | some delivery => exact Keeps.pure hrefl _

theorem partitionStep_steady (hserves : fw.Serves disk) {w w' : ByteMemory × DiskState}
    {r : PartitionRead} (hs : w.2.Steady disk fw)
    (hstep : partitionStep fw w r = some w') : w'.2.Steady disk fw := by
  obtain ⟨blocks, hs⟩ := hs
  obtain ⟨hposition, hcount, hstart, hsize, halign⟩ := r.bounds
  unfold partitionStep at hstep
  split_ifs at hstep with hin
  have hon := ((r.staysInside_iff_of_ready hserves hs).2 hin).1
  split at hstep
  · rename_i m s hrun
    cases hstep
    rw [hrun] at hon
    unfold PartitionRead.run at hrun
    cases hbypass : r.bypassCache with
    | true =>
      rw [hbypass] at hrun
      have hcache : s.cache = w.2.cache :=
        (blReadFromPartition_bypass_cache fw r.entry.toPartition w.1 r.buffer.toNat r.position.toNat
          r.count.toNat w.2).of_run_ok hrun
      exact ⟨blocks, hon, by rw [hcache]; exact hs.2⟩
    | false =>
      rw [hbypass] at hrun
      by_cases hout : r.entry.toPartition.size < r.position.toNat + r.count.toNat
      · rw [blReadFromPartition_refused hout hposition hcount (by omega)] at hrun
        cases hrun
      · rw [blReadFromPartition_eq (by omega) (by omega)] at hrun
        have hpost := readCached_post hserves (Nat.lt_succ_self r.count.toNat) w.1 r.buffer.toNat hs
          (show r.entry.toPartition.start + r.position.toNat + r.count.toNat < _ by omega)
        rcases hpost.of_run_ok hrun with ⟨hready, -⟩ | ⟨hbad, -⟩
        · exact ⟨_, hready⟩
        · exact absurd hon hbad
  · cases hstep

theorem run_partitionStep_steady (hserves : fw.Serves disk) {m : ByteMemory}
    {reads : List PartitionRead} {w : ByteMemory × DiskState}
    (hrun : Run.run (partitionStep fw) (m, .init) reads = some w) : w.2.Steady disk fw :=
  Run.run_induction (I := fun w : ByteMemory × DiskState => w.2.Steady disk fw)
    (fun _ _ _ hs hstep => partitionStep_steady hserves hs hstep)
    ⟨[], DiskState.init_ready disk fw⟩ hrun

/-- After any reads that stayed inside, the next one does exactly when it is refused, is empty, or
has its range on the disk. -/
theorem partitionRead_staysInside_iff (hserves : fw.Serves disk) (m : ByteMemory)
    (reads : List PartitionRead) {w : ByteMemory × DiskState}
    (hrun : Run.run (partitionStep fw) (m, .init) reads = some w) (r : PartitionRead) :
    r.StaysInside fw disk w ↔ r.InsideDisk fw := by
  obtain ⟨blocks, hs⟩ := run_partitionStep_steady hserves hrun
  exact r.staysInside_iff_of_ready hserves hs

end

/-- A first sector, of a partition that lies on the disk. -/
theorem partitionRead_staysInside_iff_first :
    PartitionRead.StaysInside (.ofImage (fun x => BitVec.ofNat 8 x) 24 (by decide))
      (fun x => BitVec.ofNat 8 x)
      { entry := { bootIndicator := 0, type := 0x83, startingLba := 8, sizeInLba := 16 }
        buffer := 0, position := 0, count := 512, bypassCache := true } (fun _ => 0, .init) :=
  (partitionRead_staysInside_iff
    (Firmware.ofImage_serves (fun x => BitVec.ofNat 8 x) 24 (by decide))
    (fun _ => 0) [] rfl _).2 (by decide)

/-- The first bytes of a partition behind the end of the disk: the count of sectors wraps. -/
theorem partitionRead_beyond_fails :
    ¬PartitionRead.StaysInside (.ofImage (fun x => BitVec.ofNat 8 x) 24 (by decide))
      (fun x => BitVec.ofNat 8 x)
      { entry := { bootIndicator := 0, type := 0x83, startingLba := 32, sizeInLba := 8 }
        buffer := 0, position := 0, count := 512, bypassCache := false } (fun _ => 0, .init) := by
  rw [PartitionRead.staysInside_iff_of_ready
    (Firmware.ofImage_serves (fun x => BitVec.ofNat 8 x) 24 (by decide))
    (DiskState.init_ready _ _)]
  decide

end XrLinux.Bootloader
