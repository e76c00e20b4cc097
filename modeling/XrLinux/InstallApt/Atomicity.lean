import XrLinux.InstallApt.Install

/-!
# `install-apt` — what a failure leaves behind

`Inv` says what is on the disk at every system call of a run; it comes from the order of the
writes alone and holds whatever the operating system answers. From it: sector 0 changes only when
everything else is in place, and the program exits with 0 only when no call has failed and no file
was too short.

Two things are left to the answers. No loop gives up on calls that move nothing, so a file that
ends too early is read forever. And sector 0 is written by a loop of its own, which may get
some of the sector out before it fails. `failureAtomic_iff` says that nothing else can go wrong.
-/

namespace XrLinux.InstallApt

/-! ### What is asked of a run -/

/-- Sector 0 is as it was before the run. -/
def Host.Sector0Kept (h : Host) (disk : File) : Prop :=
  ByteMemory.SameOn h.disk.bytes disk.bytes 0 sectorSize

/-- The whole image, the OS record and the logo are on the disk. -/
structure Host.Installed (h : Host) (disk : File) (stSize : Nat) : Prop where
  stSize_eq : h.stSize = some stSize
  stSize_le : stSize ≤ h.image.size
  image_eq : ∀ i < stSize,
    disk.bytes ((aptStartSector + aptBootSectors) * sectorSize + i) = h.image.bytes i
  record_eq : ∀ i < 28, disk.bytes ((aptStartSector + 1) * sectorSize + i) =
    osRecord h.name (uint32 ((stSize + (sectorSize - 1)) / sectorSize)) i
  logo_eq : ∀ i < 512, disk.bytes ((aptStartSector + 2) * sectorSize + i) = osLogo i

def Host.ExitsAt (h : Host) (n code : Nat) : Prop := (h.run n).point = .exited code

/-- What call number `n` returns. -/
def Host.returns (h : Host) (n : Nat) : Option (Option Nat) := h.result (h.responses n) (h.run n)

/-- A read or write failed. -/
def Host.CallFails (h : Host) : Prop := ∃ n, h.returns n = some none

/-- The disk has no whole sector 0, or the image is shorter than `fstat` says. -/
def Host.InputEndsEarly (h : Host) : Prop :=
  h.disk.size < sectorSize ∨ ∃ stSize, h.stSize = some stSize ∧ h.image.size < stSize

/-- The program comes to an end; after a failure, or with too short a file, it says so and leaves
sector 0 alone; and sector 0 changes only once everything it refers to is in place. -/
structure Host.FailureAtomic (h : Host) : Prop where
  terminates : ∃ n code, h.ExitsAt n code
  sector0_kept : ∀ n code, h.ExitsAt n code → h.CallFails ∨ h.InputEndsEarly →
    code ≠ 0 ∧ h.Sector0Kept (h.run n).disk
  written_last : ∀ n, ¬ h.Sector0Kept (h.run n).disk → ∃ stSize, h.Installed (h.run n).disk stSize

/-! ### When it is met -/

/-- From some call on all calls move nothing. -/
def Host.Stalls (h : Host) : Prop := ∃ n, ∀ m, n ≤ m → h.returns m = some (some 0)

/-- No write to sector 0 fails behind one that has put a new byte there. -/
def Host.Sector0Uncut (h : Host) : Prop :=
  ∀ n l t, (h.run n).point = .writeMbr l t → h.returns n = some none →
    ∀ i < t.buffer, l.aptMbr i = h.disk.bytes i

/-! ### The loops -/

/-- `WriteFully` on its way: `total` bytes of `memory` go to the disk from `start` on. -/
structure Writing (disk : File) (t : Transfer) (start total : Nat) : Prop where
  offset_eq : t.offset = start + t.buffer
  size_eq : t.buffer + t.size = total
  size_ne : t.size ≠ 0
  written : ∀ i < t.buffer, disk.bytes (start + i) = t.memory i

theorem pwrite_eq_some {r : Response} {count current : Nat} {offset : Int}
    (h : pwrite r count offset = some current) :
    current ≤ count ∧ offset.toNat + current ≤ maxOffset := by
  unfold pwrite at h
  split at h
  · cases h
  · split at h
    · cases h
    · rename_i hoffset
      rw [Option.some.injEq] at h
      omega

theorem pread_eq_some {f : File} {r : Response} {count current : Nat} {offset : Int}
    (h : f.pread r count offset = some current) :
    0 ≤ offset ∧ current ≤ count ∧ current ≤ f.size - offset.toNat := by
  unfold File.pread at h
  split at h
  · cases h
  · split at h
    · cases h
    · rename_i hoffset
      rw [Option.some.injEq] at h
      omega

/-- A turn of the loop in `WriteFully`: it dies, goes round again, or is done, and no byte outside
of what it has to write is touched. -/
theorem writeLoop_cases {disk : File} {t : Transfer} {start total : Nat} {again : Transfer → Point}
    {done : Point} {r : Response} {P : State → Prop} (hw : Writing disk t start total)
    (hdies : pwrite r t.size t.offset = none → P { disk, point := .exited 1 })
    (hagain : ∀ (disk' : File) current, pwrite r t.size t.offset = some current →
      Writing disk' (t.advance current) start total →
      (∀ x, x < start ∨ start + t.buffer + current ≤ x → disk'.bytes x = disk.bytes x) →
      P { disk := disk', point := again (t.advance current) })
    (hdone : ∀ disk' : File, pwrite r t.size t.offset = some t.size →
      (∀ i < total, disk'.bytes (start + i) = t.memory i) →
      (∀ x, x < start ∨ start + total ≤ x → disk'.bytes x = disk.bytes x) →
      P { disk := disk', point := done }) :
    P (writeLoop disk t again done (pwrite r t.size t.offset)) := by
  cases hresult : pwrite r t.size t.offset with
  | none => exact hdies hresult
  | some current =>
    obtain ⟨hcurrent, -⟩ := pwrite_eq_some hresult
    have hoffset : t.offset.toNat = start + t.buffer := by
      have := hw.offset_eq
      omega
    have hsize := hw.size_eq
    have hwritten : ∀ i < t.buffer + current,
        (disk.write t.offset.toNat current t.data).bytes (start + i) = t.memory i := by
      intro i hi
      rw [File.write_bytes, hoffset]
      by_cases hold : i < t.buffer
      · rw [ByteMemory.put_of_not_mem _ _ (by omega)]
        exact hw.written i hold
      · obtain ⟨k, rfl⟩ := Nat.exists_eq_add_of_le (Nat.le_of_not_lt hold)
        rw [← Nat.add_assoc, ByteMemory.put_byte _ _ (by omega)]
        rfl
    have hframe : ∀ x, x < start ∨ start + t.buffer + current ≤ x →
        (disk.write t.offset.toNat current t.data).bytes x = disk.bytes x := by
      intro x hx
      rw [File.write_bytes, hoffset, ByteMemory.put_of_not_mem _ _ (by omega)]
    by_cases hleft : (t.advance current).size ≠ 0
    · have hpoint := hagain _ current hresult
        { offset_eq := by
            have := hw.offset_eq
            simp only [Transfer.advance]
            omega
          size_eq := by
            simp only [Transfer.advance]
            omega
          size_ne := hleft
          written := hwritten } hframe
      simpa only [writeLoop, if_pos hleft] using hpoint
    · have hall : current = t.size := by
        simp only [Transfer.advance] at hleft
        omega
      subst hall
      have hpoint := hdone _ hresult (fun i hi => hwritten i (by omega))
        (fun x hx => hframe x (by omega))
      simpa only [writeLoop, if_neg hleft] using hpoint

/-! ### The invariant -/

/-- What the locals of `main` say about the files. -/
structure Host.Checked (h : Host) (l : Locals) : Prop where
  disk_size : sectorSize ≤ h.disk.size
  stSize_eq : h.stSize = some l.stSize
  imageSectors_eq : l.imageSectors = uint32 ((l.stSize + (sectorSize - 1)) / sectorSize)
  mbr_eq : ∀ i < sectorSize, l.mbr i = h.disk.bytes i

/-- The first `done` bytes of the image have been copied. -/
structure Host.Copied (h : Host) (disk : File) (done : Nat) : Prop where
  sector0 : h.Sector0Kept disk
  done_le : done ≤ h.image.size
  image_eq : ∀ i < done,
    disk.bytes ((aptStartSector + aptBootSectors) * sectorSize + i) = h.image.bytes i

/-- `CopyData` at its loop test. -/
structure Copy.At (c : Copy) (l : Locals) (done : Nat) : Prop where
  srcPos_eq : c.srcPos = done
  dstPos_eq : c.dstPos = ((aptStartSector + aptBootSectors) * sectorSize + done : Nat)
  size_eq : done + c.size = l.stSize

/-- The OS record is on the disk. -/
def Host.RecordWritten (h : Host) (l : Locals) (disk : File) : Prop :=
  ∀ i < 28, disk.bytes ((aptStartSector + 1) * sectorSize + i) = osRecord h.name l.imageSectors i

/-- The logo is on the disk. -/
def LogoWritten (disk : File) : Prop :=
  ∀ i < 512, disk.bytes ((aptStartSector + 2) * sectorSize + i) = osLogo i

/-- What holds at each system call. -/
def Host.Inv (h : Host) (s : State) : Prop :=
  match s.point with
  | .readMbr t =>
    s.disk = h.disk ∧ t.offset = t.buffer ∧ t.buffer + t.size = sectorSize ∧ t.size ≠ 0 ∧
      t.buffer ≤ h.disk.size ∧ ∀ i < t.buffer, t.memory i = h.disk.bytes i
  | .copyRead l c =>
    h.Checked l ∧ ∃ done, h.Copied s.disk done ∧ c.At l done ∧ c.size ≠ 0
  | .copyWrite l c current t =>
    h.Checked l ∧ ∃ done, h.Copied s.disk done ∧ c.At l done ∧
      Writing s.disk t ((aptStartSector + aptBootSectors) * sectorSize + done) (sizeT current) ∧
      -- the read before it failed, or it has `current` bytes of the image to write
      (current = -1 ∨
        ∃ k : Nat, current = k ∧ k ≤ c.size ∧ done + k ≤ h.image.size ∧
          ∀ i < k, t.memory i = h.image.bytes (done + i))
  | .writeRecord l t =>
    h.Checked l ∧ h.Copied s.disk l.stSize ∧ t.memory = osRecord h.name l.imageSectors ∧
      Writing s.disk t ((aptStartSector + 1) * sectorSize) 28
  | .writeLogo l t =>
    h.Checked l ∧ h.Copied s.disk l.stSize ∧ h.RecordWritten l s.disk ∧ t.memory = osLogo ∧
      Writing s.disk t ((aptStartSector + 2) * sectorSize) 512
  | .writeMbr l t =>
    h.Checked l ∧ h.Installed s.disk l.stSize ∧ t.memory = l.aptMbr ∧ Writing s.disk t 0 512 ∧
      ∀ i, t.buffer ≤ i → i < sectorSize → s.disk.bytes i = h.disk.bytes i
  | .exited code =>
    ((∃ stSize, h.Installed s.disk stSize) ∨ h.Sector0Kept s.disk ∧ code ≠ 0) ∧
      (code = 0 → sectorSize ≤ h.disk.size)

theorem Host.Copied.frame {h : Host} {disk disk' : File} {done : Nat} (hc : h.Copied disk done)
    (hsame : ∀ x, x < sectorSize ∨ (aptStartSector + aptBootSectors) * sectorSize ≤ x ∧
      x < (aptStartSector + aptBootSectors) * sectorSize + done → disk'.bytes x = disk.bytes x) :
    h.Copied disk' done where
  sector0 := by
    intro x hlo hhi
    rw [hsame x (.inl (by omega))]
    exact hc.sector0 x hlo hhi
  done_le := hc.done_le
  image_eq := by
    intro i hi
    rw [hsame _ (.inr ⟨by omega, by omega⟩)]
    exact hc.image_eq i hi

theorem sizeT_sub {a b : Nat} (hb : b ≤ a) (ha : a < 18446744073709551616) :
    sizeT ((a : Int) - b) = a - b := by
  unfold sizeT
  omega

theorem sizeT_natCast {a : Nat} (ha : a < 18446744073709551616) : sizeT a = a := by
  unfold sizeT
  omega

theorem sizeT_neg_one : sizeT (-1) = 18446744073709551615 := by decide

/-- No file has room for as many bytes as a failed read sends on their way. -/
theorem Writing.not_done {disk : File} {t : Transfer} {start : Nat} {r : Response}
    (hw : Writing disk t start (sizeT (-1))) : pwrite r t.size t.offset ≠ some t.size := by
  intro h
  obtain ⟨-, hend⟩ := pwrite_eq_some h
  have hoffset := hw.offset_eq
  have hsize := hw.size_eq
  rw [sizeT_neg_one] at hsize
  unfold maxOffset at hend
  omega

theorem Host.Checked.stSize_le {h : Host} {l : Locals} (hl : h.Checked l) : l.stSize ≤ maxOffset :=
  h.stSize_le _ hl.stSize_eq

/-- The invariant at the loop test of `CopyData`. -/
theorem inv_copyLoop {h : Host} {disk : File} {l : Locals} {c : Copy} {done : Nat}
    (hl : h.Checked l) (hcopied : h.Copied disk done) (hat : c.At l done) :
    h.Inv { disk, point := copyLoop h l c } := by
  unfold copyLoop
  split
  · rename_i hsize
    exact ⟨hl, done, hcopied, hat, hsize⟩
  · rename_i hsize
    have hall : done = l.stSize := by
      have := hat.size_eq
      omega
    subst hall
    exact ⟨hl, hcopied, rfl,
      { offset_eq := rfl
        size_eq := rfl
        size_ne := (by decide : (28 : Nat) ≠ 0)
        written := fun i hi => absurd hi (Nat.not_lt_zero i) }⟩

/-- The checks on the mbr either end the program or lead into the copying. -/
theorem checkMbr_cases (h : Host) (mbr : ByteMemory) :
    checkMbr h mbr = .exited 1 ∨ ∃ l : Locals, l.mbr = mbr ∧ h.stSize = some l.stSize ∧
      l.imageSectors = uint32 ((l.stSize + (sectorSize - 1)) / sectorSize) ∧
      checkMbr h mbr = copyLoop h l
        { buffer := h.bufferStack, size := l.stSize, srcPos := 0
          dstPos := (aptStartSector + aptBootSectors) * sectorSize } := by
  unfold checkMbr
  split
  · exact .inl rfl
  · split
    · exact .inl rfl
    · rename_i partitionEnd _
      split
      · exact .inl rfl
      · split
        · exact .inl rfl
        · split
          · exact .inl rfl
          · rename_i stSize hstSize
            dsimp only
            split
            · exact .inl rfl
            · exact .inr ⟨⟨mbr, partitionEnd - aptStartSector, stSize, _⟩, rfl, hstSize, rfl, rfl⟩

theorem inv_checkMbr {h : Host} {mbr : ByteMemory} (hsize : sectorSize ≤ h.disk.size)
    (hmbr : ∀ i < sectorSize, mbr i = h.disk.bytes i) :
    h.Inv { disk := h.disk, point := checkMbr h mbr } := by
  obtain hdies | ⟨l, rfl, hstSize, himageSectors, hcopy⟩ := checkMbr_cases h mbr
  · rw [hdies]
    exact ⟨.inr ⟨ByteMemory.SameOn.refl _ _ _, one_ne_zero⟩, fun _ => hsize⟩
  · rw [hcopy]
    exact inv_copyLoop ⟨hsize, hstSize, himageSectors, hmbr⟩
      ⟨ByteMemory.SameOn.refl _ _ _, Nat.zero_le _, fun i hi => absurd hi (Nat.not_lt_zero i)⟩
      ⟨rfl, rfl, Nat.zero_add _⟩

theorem inv_start (h : Host) : h.Inv h.start := by
  unfold Host.start
  split
  · exact ⟨.inr ⟨ByteMemory.SameOn.refl _ _ _, by decide⟩, fun hcode => absurd hcode (by decide)⟩
  · split
    · exact ⟨.inr ⟨ByteMemory.SameOn.refl _ _ _, by decide⟩, fun hcode => absurd hcode (by decide)⟩
    · split
      · exact
          ⟨.inr ⟨ByteMemory.SameOn.refl _ _ _, by decide⟩, fun hcode => absurd hcode (by decide)⟩
      · exact ⟨rfl, rfl, Nat.zero_add _, (by decide : sectorSize ≠ 0), Nat.zero_le _,
          fun i hi => absurd hi (Nat.not_lt_zero i)⟩

/-! ### One call -/

theorem inv_readMbr {h : Host} {disk : File} {t : Transfer} (r : Response)
    (hinv : h.Inv { disk, point := .readMbr t }) :
    h.Inv (h.step r { disk, point := .readMbr t }) := by
  obtain ⟨hdisk, hoffset, htotal, hsize, hle, hmem⟩ := hinv
  dsimp only at hdisk
  subst hdisk
  simp only [Host.step]
  cases hread : h.disk.pread r t.size t.offset with
  | none =>
    exact ⟨.inr ⟨ByteMemory.SameOn.refl _ _ _, one_ne_zero⟩, fun hcode => absurd hcode one_ne_zero⟩
  | some current =>
    obtain ⟨-, hcurrent, havail⟩ := pread_eq_some hread
    have hfile : t.offset.toNat = t.buffer := by omega
    have hbytes : ∀ i < t.buffer + current,
        t.memory.put t.buffer current (fun i => h.disk.bytes (t.offset.toNat + i)) i =
          h.disk.bytes i := by
      intro i hi
      by_cases hold : i < t.buffer
      · rw [ByteMemory.put_of_not_mem _ _ (by omega)]
        exact hmem i hold
      · obtain ⟨k, rfl⟩ := Nat.exists_eq_add_of_le (Nat.le_of_not_lt hold)
        rw [ByteMemory.put_byte _ _ (by omega), hfile]
    dsimp only
    split
    · rename_i hleft
      simp only [Transfer.advance] at hleft
      exact ⟨rfl, by simp only [Transfer.advance]; omega, by simp only [Transfer.advance]; omega,
        hleft, by simp only [Transfer.advance]; omega, hbytes⟩
    · rename_i hleft
      simp only [Transfer.advance] at hleft
      exact inv_checkMbr (by omega) (fun i hi => hbytes i (by omega))

/-- A failed read of the image leads into a write of 2^64 - 1 bytes. -/
theorem startCopyWrite_neg (h : Host) (l : Locals) (c : Copy) :
    startCopyWrite h l c (-1) = .copyWrite l c (-1)
      { memory := c.buffer, buffer := 0, size := sizeT (-1), offset := c.dstPos } :=
  if_pos (by decide)

theorem inv_copyRead {h : Host} {disk : File} {l : Locals} {c : Copy} (r : Response)
    (hinv : h.Inv { disk, point := .copyRead l c }) :
    h.Inv (h.step r { disk, point := .copyRead l c }) := by
  obtain ⟨hl, done, hcopied, hat, hsize⟩ := hinv
  simp only [Host.step]
  cases hread : h.image.pread r (min bufferSize c.size) c.srcPos with
  | none =>
    dsimp only
    rw [startCopyWrite_neg]
    refine ⟨hl, done, hcopied, hat,
      { offset_eq := hat.dstPos_eq
        size_eq := Nat.zero_add _
        size_ne := (by decide : sizeT (-1) ≠ 0)
        written := fun i hi => absurd hi (Nat.not_lt_zero i) }, .inl rfl⟩
  | some current =>
    obtain ⟨hsrc, hcurrent, havail⟩ := pread_eq_some hread
    have hpos := hat.srcPos_eq
    have hdone := hcopied.done_le
    have hstSize := hl.stSize_le
    have htotal := hat.size_eq
    have hsmall : sizeT current = current :=
      sizeT_natCast (by unfold maxOffset at hstSize; omega)
    dsimp only [startCopyWrite]
    split
    · refine ⟨hl, done, hcopied, ⟨hpos, hat.dstPos_eq, htotal⟩,
        { offset_eq := hat.dstPos_eq
          size_eq := Nat.zero_add _
          size_ne := by assumption
          written := fun i hi => absurd hi (Nat.not_lt_zero i) },
        .inr ⟨current, rfl, by dsimp only; omega, by omega, ?_⟩⟩
      intro i hi
      have hbyte := c.buffer.put_byte (a := 0) (fun i => h.image.bytes (c.srcPos.toNat + i)) hi
      rw [Nat.zero_add] at hbyte
      show c.buffer.put 0 current (fun i => h.image.bytes (c.srcPos.toNat + i)) i = _
      rw [hbyte, show c.srcPos.toNat = done by omega]
    · rename_i hzero
      have hnone : current = 0 := by omega
      subst hnone
      exact inv_copyLoop hl hcopied
        ⟨by simpa [Copy.advance] using hpos, by simpa [Copy.advance] using hat.dstPos_eq, by
          simp only [Copy.advance]
          rw [sizeT_sub (Nat.zero_le _) (by unfold maxOffset at hstSize; omega)]
          simpa using htotal⟩

theorem inv_copyWrite {h : Host} {disk : File} {l : Locals} {c : Copy} {current : Int}
    {t : Transfer} (r : Response) (hinv : h.Inv { disk, point := .copyWrite l c current t }) :
    h.Inv (h.step r { disk, point := .copyWrite l c current t }) := by
  obtain ⟨hl, done, hcopied, hat, hwriting, hcurrent⟩ := hinv
  simp only [Host.step]
  refine writeLoop_cases hwriting ?_ ?_ ?_
  · intro _
    exact ⟨.inr ⟨hcopied.sector0, one_ne_zero⟩, fun hcode => absurd hcode one_ne_zero⟩
  · intro disk' moved hmoved hwriting' hframe
    refine ⟨hl, done, hcopied.frame fun x hx => hframe x ?_, hat, hwriting', hcurrent⟩
    unfold sectorSize aptStartSector aptBootSectors at hx ⊢
    omega
  · intro disk' hmoved hwritten hframe
    obtain rfl | ⟨k, rfl, hk, himage, hmem⟩ := hcurrent
    · exact absurd hmoved hwriting.not_done
    · have hstSize := hl.stSize_le
      have htotal := hat.size_eq
      have hsmall : sizeT k = k := sizeT_natCast (by unfold maxOffset at hstSize; omega)
      rw [hsmall] at hwritten hframe
      have hcopied' : h.Copied disk' (done + k) :=
        { sector0 := (hcopied.frame fun x hx => hframe x (by
            unfold sectorSize aptStartSector aptBootSectors at hx ⊢
            omega)).sector0
          done_le := himage
          image_eq := by
            intro i hi
            by_cases hold : i < done
            · rw [hframe _ (.inl (by omega))]
              exact hcopied.image_eq i hold
            · obtain ⟨j, rfl⟩ := Nat.exists_eq_add_of_le (Nat.le_of_not_lt hold)
              rw [← Nat.add_assoc, hwritten j (by omega)]
              exact hmem j (by omega) }
      refine inv_copyLoop hl hcopied'
        { srcPos_eq := by
            have := hat.srcPos_eq
            simp only [Copy.advance]
            omega
          dstPos_eq := by
            have := hat.dstPos_eq
            simp only [Copy.advance]
            omega
          size_eq := by
            simp only [Copy.advance]
            rw [sizeT_sub hk (by unfold maxOffset at hstSize; omega)]
            omega }

theorem Host.Copied.frame_of_lt {h : Host} {disk disk' : File} {l : Locals}
    (hc : h.Copied disk l.stSize) (start total : Nat) (hlo : sectorSize ≤ start)
    (hhi : start + total ≤ (aptStartSector + aptBootSectors) * sectorSize)
    (hframe : ∀ x, x < start ∨ start + total ≤ x → disk'.bytes x = disk.bytes x) :
    h.Copied disk' l.stSize :=
  hc.frame fun x hx => hframe x (by omega)

theorem inv_writeRecord {h : Host} {disk : File} {l : Locals} {t : Transfer} (r : Response)
    (hinv : h.Inv { disk, point := .writeRecord l t }) :
    h.Inv (h.step r { disk, point := .writeRecord l t }) := by
  obtain ⟨hl, hcopied, hmem, hwriting⟩ := hinv
  have htotal := hwriting.size_eq
  simp only [Host.step]
  refine writeLoop_cases hwriting ?_ ?_ ?_
  · intro _
    exact ⟨.inr ⟨hcopied.sector0, one_ne_zero⟩, fun hcode => absurd hcode one_ne_zero⟩
  · intro disk' moved hmoved hwriting' hframe
    obtain ⟨hle, -⟩ := pwrite_eq_some hmoved
    exact ⟨hl, hcopied.frame_of_lt ((aptStartSector + 1) * sectorSize) 28 (by decide) (by decide)
      (fun x hx => hframe x (by omega)), hmem, hwriting'⟩
  · intro disk' _ hwritten hframe
    exact ⟨hl, hcopied.frame_of_lt _ _ (by decide) (by decide) hframe,
      fun i hi => (hwritten i hi).trans (congrFun hmem i), rfl,
      { offset_eq := rfl
        size_eq := rfl
        size_ne := (by decide : (512 : Nat) ≠ 0)
        written := fun i hi => absurd hi (Nat.not_lt_zero i) }⟩

theorem inv_writeLogo {h : Host} {disk : File} {l : Locals} {t : Transfer} (r : Response)
    (hinv : h.Inv { disk, point := .writeLogo l t }) :
    h.Inv (h.step r { disk, point := .writeLogo l t }) := by
  obtain ⟨hl, hcopied, hrecord, hmem, hwriting⟩ := hinv
  have htotal := hwriting.size_eq
  -- the logo is behind the record
  have hrecord' : ∀ disk' : File, (∀ x, x < (aptStartSector + 2) * sectorSize →
      disk'.bytes x = disk.bytes x) → h.RecordWritten l disk' := by
    intro disk' hframe i hi
    rw [hframe _ (by unfold aptStartSector sectorSize; omega)]
    exact hrecord i hi
  simp only [Host.step]
  refine writeLoop_cases hwriting ?_ ?_ ?_
  · intro _
    exact ⟨.inr ⟨hcopied.sector0, one_ne_zero⟩, fun hcode => absurd hcode one_ne_zero⟩
  · intro disk' moved hmoved hwriting' hframe
    obtain ⟨hle, -⟩ := pwrite_eq_some hmoved
    exact ⟨hl, hcopied.frame_of_lt ((aptStartSector + 2) * sectorSize) 512 (by decide) (by decide)
      (fun x hx => hframe x (by omega)), hrecord' disk' fun x hx => hframe x (.inl hx), hmem, hwriting'⟩
  · intro disk' _ hwritten hframe
    have hcopied' := hcopied.frame_of_lt _ _ (by decide) (by decide) hframe
    have hrecord'' := hrecord' disk' fun x hx => hframe x (.inl hx)
    refine ⟨hl,
      { stSize_eq := hl.stSize_eq
        stSize_le := hcopied.done_le
        image_eq := hcopied'.image_eq
        record_eq := fun i hi => by
          rw [← hl.imageSectors_eq]
          exact hrecord'' i hi
        logo_eq := fun i hi => (hwritten i hi).trans (congrFun hmem i) }, rfl,
      { offset_eq := rfl
        size_eq := rfl
        size_ne := (by decide : (512 : Nat) ≠ 0)
        written := fun i hi => absurd hi (Nat.not_lt_zero i) },
      fun i _ hi => hcopied'.sector0 i (Nat.zero_le i) (by omega)⟩

theorem Host.Installed.frame {h : Host} {disk disk' : File} {stSize : Nat}
    (hi : h.Installed disk stSize) (hframe : ∀ x, sectorSize ≤ x → disk'.bytes x = disk.bytes x) :
    h.Installed disk' stSize :=
  { hi with
    image_eq := fun i hlt => by
      rw [hframe _ (by unfold aptStartSector aptBootSectors sectorSize; omega)]
      exact hi.image_eq i hlt
    record_eq := fun i hlt => by
      rw [hframe _ (by unfold aptStartSector sectorSize; omega)]
      exact hi.record_eq i hlt
    logo_eq := fun i hlt => by
      rw [hframe _ (by unfold aptStartSector sectorSize; omega)]
      exact hi.logo_eq i hlt }

theorem inv_writeMbr {h : Host} {disk : File} {l : Locals} {t : Transfer} (r : Response)
    (hinv : h.Inv { disk, point := .writeMbr l t }) :
    h.Inv (h.step r { disk, point := .writeMbr l t }) := by
  obtain ⟨hl, hinstalled, hmem, hwriting, hrest⟩ := hinv
  have htotal := hwriting.size_eq
  simp only [Host.step]
  refine writeLoop_cases hwriting ?_ ?_ ?_
  · intro _
    exact ⟨.inl ⟨_, hinstalled⟩, fun _ => hl.disk_size⟩
  · intro disk' moved hmoved hwriting' hframe
    obtain ⟨hle, -⟩ := pwrite_eq_some hmoved
    refine ⟨hl, hinstalled.frame fun x hx => hframe x ?_, hmem, hwriting', ?_⟩
    · unfold sectorSize at hx
      omega
    · intro i hlo hhi
      simp only [Transfer.advance] at hlo
      dsimp only
      rw [hframe i (.inr (by omega))]
      exact hrest i (by omega) hhi
  · intro disk' _ _ hframe
    refine ⟨.inl ⟨_, hinstalled.frame fun x hx => hframe x ?_⟩, fun _ => hl.disk_size⟩
    unfold sectorSize at hx
    omega

/-- Whatever the answer, the invariant is kept. -/
theorem inv_step {h : Host} (r : Response) (s : State) (hinv : h.Inv s) : h.Inv (h.step r s) := by
  obtain ⟨disk, point⟩ := s
  cases point with
  | readMbr t => exact inv_readMbr r hinv
  | copyRead l c => exact inv_copyRead r hinv
  | copyWrite l c current t => exact inv_copyWrite r hinv
  | writeRecord l t => exact inv_writeRecord r hinv
  | writeLogo l t => exact inv_writeLogo r hinv
  | writeMbr l t => exact inv_writeMbr r hinv
  | exited code => exact hinv

theorem step_of_exited {h : Host} (r : Response) {s : State} {code : Nat}
    (hexit : s.point = .exited code) : h.step r s = s := by
  simp only [Host.step, hexit]

theorem inv_run (h : Host) (n : Nat) : h.Inv (h.run n) :=
  Driven.driven_induction (fun r s => inv_step r s) (inv_start h) n

/-! ### The end of a run -/

/-- How much there is still to do, at most. The write of 2^64 - 1 bytes comes after all of the
copying, since nothing follows it. -/
def Point.left : Point → Nat
  | .readMbr t => 73786976294838222848 + t.size
  | .copyRead _ c => 18446744073709555712 + 2 * c.size
  | .copyWrite _ c current t =>
    if current < 0 then 4096 + t.size
    else 18446744073709555712 + 2 * (c.size - current.toNat) + t.size
  | .writeRecord _ t => 2048 + t.size
  | .writeLogo _ t => 1024 + t.size
  | .writeMbr _ t => t.size
  | .exited _ => 0

theorem left_copyLoop (h : Host) (l : Locals) (c : Copy) :
    (copyLoop h l c).left ≤ 18446744073709555712 + 2 * c.size := by
  unfold copyLoop
  split
  · exact le_rfl
  · simp only [startRecord, Point.left]
    omega

theorem left_checkMbr (h : Host) (mbr : ByteMemory) :
    (checkMbr h mbr).left < 73786976294838222848 := by
  obtain hdies | ⟨l, -, hstSize, -, hcopy⟩ := checkMbr_cases h mbr
  · rw [hdies]
    decide
  · rw [hcopy]
    refine (left_copyLoop h l _).trans_lt ?_
    have hle := h.stSize_le _ hstSize
    unfold maxOffset at hle
    dsimp only
    omega

/-- A call that moves something, or fails, leaves less to do, and no call leaves more. -/
def Host.Lowers (h : Host) (r : Response) (s s' : State) : Prop :=
  s'.point.left < s.point.left ∨ s'.point.left = s.point.left ∧ h.result r s = some (some 0)

/-- `WriteFully`, when what comes after it is less than what it had still to write. -/
theorem lowers_writeLoop {h : Host} {disk : File} {t : Transfer} {start total : Nat}
    {again : Transfer → Point} {done : Point} {r : Response} {s : State}
    (hw : Writing disk t start total)
    (hresult : h.result r s = some (pwrite r t.size t.offset))
    (hpos : 0 < s.point.left)
    (hagain : ∀ current, current ≤ t.size →
      (again (t.advance current)).left + current = s.point.left)
    (hdone : pwrite r t.size t.offset = some t.size → done.left < s.point.left) :
    h.Lowers r s (writeLoop disk t again done (pwrite r t.size t.offset)) := by
  refine writeLoop_cases hw ?_ ?_ ?_
  · intro _
    exact .inl hpos
  · intro disk' current hcurrent _ _
    have hleft := hagain current (pwrite_eq_some hcurrent).1
    cases current with
    | zero => exact .inr ⟨by dsimp only; omega, by rw [hresult, hcurrent]⟩
    | succ k => exact .inl (by dsimp only; omega)
  · intro _ hmoved _ _
    exact .inl (hdone hmoved)

theorem lowers_readMbr {h : Host} {disk : File} {t : Transfer} (r : Response) :
    h.Lowers r { disk, point := .readMbr t } (h.step r { disk, point := .readMbr t }) := by
  simp only [Host.step]
  cases hread : disk.pread r t.size t.offset with
  | none => exact .inl (by simp only [Point.left]; omega)
  | some current =>
    obtain ⟨-, hcurrent, -⟩ := pread_eq_some hread
    dsimp only
    split
    · cases current with
      | zero => exact .inr ⟨rfl, by simp only [Host.result, hread]⟩
      | succ k =>
        refine .inl ?_
        simp only [Transfer.advance, Point.left]
        omega
    · refine .inl ((left_checkMbr h _).trans_le ?_)
      simp only [Point.left]
      omega

theorem lowers_copyRead {h : Host} {disk : File} {l : Locals} {c : Copy} (r : Response)
    (hinv : h.Inv { disk, point := .copyRead l c }) :
    h.Lowers r { disk, point := .copyRead l c } (h.step r { disk, point := .copyRead l c }) := by
  obtain ⟨hl, done, -, hat, hsize⟩ := hinv
  have hstSize := hl.stSize_le
  have htotal := hat.size_eq
  simp only [Host.step]
  cases hread : h.image.pread r (min bufferSize c.size) c.srcPos with
  | none =>
    dsimp only
    rw [startCopyWrite_neg]
    refine .inl ?_
    have hneg : (-1 : Int) < 0 := by decide
    simp only [Point.left, if_pos hneg, sizeT_neg_one]
    omega
  | some current =>
    obtain ⟨-, hcurrent, -⟩ := pread_eq_some hread
    have hsmall : sizeT current = current :=
      sizeT_natCast (by unfold maxOffset at hstSize; omega)
    have hnonneg : ¬ (current : Int) < 0 := by omega
    simp only [startCopyWrite, hsmall]
    cases current with
    | zero =>
      refine .inr ⟨?_, by simp only [Host.result, hread]⟩
      have hstay : sizeT (c.size - (0 : Int)) = c.size := by
        unfold sizeT
        unfold maxOffset at hstSize
        omega
      simp only [ne_eq, not_true_eq_false, if_false, copyLoop, Copy.advance, Nat.cast_zero, hstay,
        if_pos hsize, Point.left]
    | succ k =>
      refine .inl ?_
      simp only [if_pos (Nat.succ_ne_zero k), Point.left, if_neg hnonneg, Int.toNat_natCast]
      omega

theorem lowers_copyWrite {h : Host} {disk : File} {l : Locals} {c : Copy} {current : Int}
    {t : Transfer} (r : Response) (hinv : h.Inv { disk, point := .copyWrite l c current t }) :
    h.Lowers r { disk, point := .copyWrite l c current t }
      (h.step r { disk, point := .copyWrite l c current t }) := by
  obtain ⟨hl, done, -, hat, hwriting, hcurrent⟩ := hinv
  have hsize_ne := hwriting.size_ne
  have hsize := hwriting.size_eq
  have hstSize := hl.stSize_le
  have htotal := hat.size_eq
  obtain rfl | ⟨k, rfl, hk, -, -⟩ := hcurrent
  · have hneg : (-1 : Int) < 0 := by decide
    refine lowers_writeLoop hwriting rfl ?_ ?_ ?_
    · simp only [Point.left, if_pos hneg]
      omega
    · intro moved hmoved
      simp only [Point.left, if_pos hneg, Transfer.advance]
      omega
    · intro hmoved
      exact absurd hmoved hwriting.not_done
  · have hnonneg : ¬ (k : Int) < 0 := by omega
    refine lowers_writeLoop hwriting rfl ?_ ?_ ?_
    · simp only [Point.left, if_neg hnonneg]
      omega
    · intro moved hmoved
      simp only [Point.left, if_neg hnonneg, Transfer.advance, Int.toNat_natCast]
      omega
    · intro _
      refine (left_copyLoop h l _).trans_lt ?_
      simp only [Point.left, if_neg hnonneg, Int.toNat_natCast, Copy.advance]
      rw [sizeT_sub hk (by unfold maxOffset at hstSize; omega)]
      omega

theorem lowers_step {h : Host} (r : Response) {s : State} (hinv : h.Inv s)
    (hgoing : ∀ code, s.point ≠ .exited code) : h.Lowers r s (h.step r s) := by
  obtain ⟨disk, point⟩ := s
  cases point with
  | readMbr t => exact lowers_readMbr r
  | copyRead l c => exact lowers_copyRead r hinv
  | copyWrite l c current t => exact lowers_copyWrite r hinv
  | writeRecord l t =>
    obtain ⟨-, -, -, hwriting⟩ := hinv
    have hsize := hwriting.size_ne
    refine lowers_writeLoop hwriting rfl ?_ ?_ ?_ <;> simp only [Point.left, startLogo, Transfer.advance] <;> omega
  | writeLogo l t =>
    obtain ⟨-, -, -, -, hwriting⟩ := hinv
    have hsize := hwriting.size_ne
    refine lowers_writeLoop hwriting rfl ?_ ?_ ?_ <;> simp only [Point.left, startMbr, Transfer.advance] <;> omega
  | writeMbr l t =>
    obtain ⟨-, -, -, hwriting, -⟩ := hinv
    have hsize := hwriting.size_ne
    refine lowers_writeLoop hwriting rfl ?_ ?_ ?_ <;> simp only [Point.left, Transfer.advance] <;> omega
  | exited code => exact absurd rfl (hgoing code)

/-- A run that never stalls comes to its end. -/
theorem exists_exitsAt {h : Host} (hstalls : ¬ h.Stalls) : ∃ n code, h.ExitsAt n code := by
  have hlowers : ∀ n, (∀ code, (h.run n).point ≠ .exited code) →
      h.Lowers (h.responses n) (h.run n) (h.run (n + 1)) :=
    fun n hgoing => lowers_step (h.responses n) (inv_run h n) hgoing
  refine Driven.exists_halted (fun s : State => s.point.left)
    (fun s => ∃ code, s.point = .exited code) ?_ ?_
  · intro n
    by_cases hgoing : ∀ code, (h.run n).point ≠ .exited code
    · obtain hlt | ⟨heq, -⟩ := hlowers n hgoing
      · exact hlt.le
      · exact heq.le
    · push Not at hgoing
      obtain ⟨code, hcode⟩ := hgoing
      exact le_of_eq (congrArg (fun s : State => s.point.left) (step_of_exited _ hcode))
  · intro m hnever
    by_contra hlow
    push Not at hlow
    refine hstalls ⟨m, fun n hmn => ?_⟩
    obtain hlt | ⟨-, hzero⟩ := hlowers n fun code hcode => hnever n ⟨code, hcode⟩
    · exact absurd hlt (not_lt.2 (hlow n hmn))
    · exact hzero

theorem exitsAt_mono {h : Host} {m n code : Nat} (hexit : h.ExitsAt m code) (hmn : m ≤ n) :
    h.run n = h.run m :=
  Driven.driven_of_fixed (fun r => step_of_exited r hexit) hmn

theorem returns_of_exited {h : Host} {n code : Nat} (hexit : h.ExitsAt n code) :
    h.returns n = none := by
  show h.result _ (h.run n) = none
  simp only [Host.result, (show (h.run n).point = _ from hexit)]

/-! ### After a failure -/

/-- A call has failed: the program has said so, or it is in the write that a failed read of the
image leads to. -/
def Doomed (s : State) : Prop :=
  (∃ code, code ≠ 0 ∧ s.point = .exited code) ∨ ∃ l c t, s.point = .copyWrite l c (-1) t

theorem copyLoop_ne_exited (h : Host) (l : Locals) (c : Copy) (code : Nat) :
    copyLoop h l c ≠ .exited code := by
  unfold copyLoop
  split <;> exact fun heq => nomatch heq

theorem doomed_writeLoop_none {disk : File} {t : Transfer} {again : Transfer → Point}
    {done : Point} : Doomed (writeLoop disk t again done none) :=
  .inl ⟨1, one_ne_zero, rfl⟩

theorem doomed_of_failed {h : Host} {r : Response} {s : State}
    (hfailed : h.result r s = some none) : Doomed (h.step r s) := by
  obtain ⟨disk, point⟩ := s
  cases point with
  | readMbr t =>
    have hread : disk.pread r t.size t.offset = none := Option.some.inj hfailed
    simp only [Host.step, hread]
    exact .inl ⟨1, one_ne_zero, rfl⟩
  | copyRead l c =>
    have hread : h.image.pread r (min bufferSize c.size) c.srcPos = none := Option.some.inj hfailed
    simp only [Host.step, hread]
    exact .inr ⟨l, c, _, startCopyWrite_neg h l c⟩
  | copyWrite l c current t =>
    have hwrite : pwrite r t.size t.offset = none := Option.some.inj hfailed
    simp only [Host.step, hwrite]
    exact doomed_writeLoop_none
  | writeRecord l t =>
    have hwrite : pwrite r t.size t.offset = none := Option.some.inj hfailed
    simp only [Host.step, hwrite]
    exact doomed_writeLoop_none
  | writeLogo l t =>
    have hwrite : pwrite r t.size t.offset = none := Option.some.inj hfailed
    simp only [Host.step, hwrite]
    exact doomed_writeLoop_none
  | writeMbr l t =>
    have hwrite : pwrite r t.size t.offset = none := Option.some.inj hfailed
    simp only [Host.step, hwrite]
    exact doomed_writeLoop_none
  | exited code => cases hfailed

theorem doomed_step {h : Host} (r : Response) {s : State} (hinv : h.Inv s) (hdoomed : Doomed s) :
    Doomed (h.step r s) := by
  obtain ⟨code, hcode, hexit⟩ | ⟨l, c, t, hpoint⟩ := hdoomed
  · rw [step_of_exited r hexit]
    exact .inl ⟨code, hcode, hexit⟩
  · obtain ⟨disk, point⟩ := s
    subst hpoint
    obtain ⟨-, done, -, -, hwriting, -⟩ := hinv
    simp only [Host.step]
    refine writeLoop_cases hwriting ?_ ?_ ?_
    · exact fun _ => .inl ⟨1, one_ne_zero, rfl⟩
    · exact fun _ _ _ _ _ => .inr ⟨l, c, _, rfl⟩
    · exact fun _ hmoved _ _ => absurd hmoved hwriting.not_done

/-- Once a call has failed, the program does not exit with 0. -/
theorem ne_zero_of_callFails {h : Host} {n code : Nat} (hexit : h.ExitsAt n code)
    (hfails : h.CallFails) : code ≠ 0 := by
  obtain ⟨m, hfailed⟩ := hfails
  have hdoomed : ∀ k, Doomed (h.run (m + 1 + k)) := by
    intro k
    induction k with
    | zero => exact doomed_of_failed hfailed
    | succ k ih => exact doomed_step _ (inv_run h _) ih
  have hrun : h.run (m + 1 + n) = h.run n := exitsAt_mono hexit (by omega)
  have hn := hdoomed n
  rw [hrun] at hn
  have hpoint : (h.run n).point = .exited code := hexit
  obtain ⟨code', hcode', hexit'⟩ | ⟨l, c, t, hwrite⟩ := hn
  · rw [hpoint] at hexit'
    cases hexit'
    exact hcode'
  · rw [hpoint] at hwrite
    cases hwrite

/-- With too short a file the program does not exit with 0 either. -/
theorem ne_zero_of_inputEndsEarly {h : Host} {n code : Nat} (hexit : h.ExitsAt n code)
    (hshort : h.InputEndsEarly) : code ≠ 0 := by
  intro hcode
  have hinv := inv_run h n
  simp only [Host.Inv, (show (h.run n).point = _ from hexit)] at hinv
  obtain ⟨hdisk, hsize⟩ := hinv
  obtain hshort | ⟨stSize, hstSize, hshort⟩ := hshort
  · exact absurd (hsize hcode) (by omega)
  · obtain ⟨stSize', hinstalled⟩ | ⟨-, hne⟩ := hdisk
    · have heq := hinstalled.stSize_eq.symm.trans hstSize
      rw [Option.some.injEq] at heq
      subst heq
      exact absurd hinstalled.stSize_le (by omega)
    · exact hne hcode

theorem writeLoop_dies {disk : File} {t : Transfer} {again : Transfer → Point} {done : Point}
    {result : Option Nat} {code : Nat}
    (hexit : (writeLoop disk t again done result).point = .exited code)
    (hagain : ∀ t', again t' ≠ .exited code) (hdone : done ≠ .exited code) :
    result = none ∧ (writeLoop disk t again done result).disk = disk := by
  cases result with
  | none => exact ⟨rfl, rfl⟩
  | some current =>
    simp only [writeLoop] at hexit
    split at hexit
    · exact absurd hexit (hagain _)
    · exact absurd hexit hdone

/-- Where the program gives up, sector 0 is as it was, unless it was being written. -/
theorem kept_of_exit {h : Host} {r : Response} {s : State} {code : Nat} (hinv : h.Inv s)
    (hexit : (h.step r s).point = .exited code)
    (hmbr : ∀ l t, s.point ≠ .writeMbr l t) (hgoing : ∀ code, s.point ≠ .exited code) :
    h.Sector0Kept (h.step r s).disk := by
  obtain ⟨disk, point⟩ := s
  cases point with
  | readMbr t =>
    have hdisk : disk = h.disk := hinv.1
    subst hdisk
    simp only [Host.step]
    split <;> exact ByteMemory.SameOn.refl _ _ _
  | copyRead l c =>
    obtain ⟨-, done, hcopied, -⟩ := hinv
    simp only [Host.step]
    split <;> exact hcopied.sector0
  | copyWrite l c current t =>
    obtain ⟨-, done, hcopied, -⟩ := hinv
    obtain ⟨-, hdisk⟩ := writeLoop_dies hexit (fun _ heq => nomatch heq)
      (copyLoop_ne_exited h l _ code)
    exact hdisk.symm ▸ hcopied.sector0
  | writeRecord l t =>
    obtain ⟨-, hcopied, -⟩ := hinv
    obtain ⟨-, hdisk⟩ := writeLoop_dies hexit (fun _ heq => nomatch heq) (fun heq => nomatch heq)
    exact hdisk.symm ▸ hcopied.sector0
  | writeLogo l t =>
    obtain ⟨-, hcopied, -⟩ := hinv
    obtain ⟨-, hdisk⟩ := writeLoop_dies hexit (fun _ heq => nomatch heq) (fun heq => nomatch heq)
    exact hdisk.symm ▸ hcopied.sector0
  | writeMbr l t => exact absurd rfl (hmbr l t)
  | exited code => exact absurd rfl (hgoing code)

/-- The write to sector 0 on its way: what is out already is of the new mbr, the rest is old. -/
theorem sector0_of_writeMbr {h : Host} {s : State} {l : Locals} {t : Transfer} (hinv : h.Inv s)
    (hpoint : s.point = .writeMbr l t) :
    h.Sector0Kept s.disk ↔ ∀ i < t.buffer, l.aptMbr i = h.disk.bytes i := by
  simp only [Host.Inv, hpoint] at hinv
  obtain ⟨-, -, hmem, hwriting, hrest⟩ := hinv
  have hnew : ∀ i < t.buffer, s.disk.bytes i = l.aptMbr i := by
    intro i hi
    have hbyte := hwriting.written i hi
    rw [Nat.zero_add, hmem] at hbyte
    exact hbyte
  have htotal := hwriting.size_eq
  constructor
  · intro hkept i hi
    rw [← hnew i hi]
    exact hkept i (Nat.zero_le i) (by unfold sectorSize; omega)
  · intro hsame i _ hi
    by_cases hout : i < t.buffer
    · rw [hnew i hout, hsame i hout]
    · exact hrest i (by omega) (by omega)

theorem step_of_writeMbr_failed {h : Host} {r : Response} {s : State} {l : Locals} {t : Transfer}
    (hpoint : s.point = .writeMbr l t) (hfailed : h.result r s = some none) :
    h.step r s = { disk := s.disk, point := .exited 1 } := by
  simp only [Host.result, hpoint, Option.some.injEq] at hfailed
  simp only [Host.step, hpoint, hfailed]
  rfl

/-- When no write to sector 0 is cut short, every exit but the one with 0 leaves the sector. -/
theorem kept_of_exitsAt {h : Host} (huncut : h.Sector0Uncut) {n code : Nat}
    (hexit : h.ExitsAt n code) (hcode : code ≠ 0) : h.Sector0Kept (h.run n).disk := by
  induction n with
  | zero => exact ByteMemory.SameOn.refl _ _ _
  | succ n ih =>
    have hinv := inv_run h n
    have hstep : h.run (n + 1) = h.step (h.responses n) (h.run n) := rfl
    have hpoint : (h.step (h.responses n) (h.run n)).point = .exited code := hexit
    by_cases hended : ∃ code', (h.run n).point = .exited code'
    · obtain ⟨code', hended⟩ := hended
      rw [step_of_exited _ hended] at hpoint
      rw [hstep, step_of_exited _ hended]
      exact ih hpoint
    · by_cases hmbr : ∃ l t, (h.run n).point = .writeMbr l t
      · obtain ⟨l, t, hwrite⟩ := hmbr
        have hfailed : h.returns n = some none := by
          simp only [Host.step, hwrite] at hpoint
          obtain ⟨hnone, -⟩ := writeLoop_dies hpoint (fun _ heq => nomatch heq)
            (fun heq => hcode (Point.exited.inj heq).symm)
          simp only [Host.returns, Host.result, hwrite, hnone]
        rw [hstep, step_of_writeMbr_failed hwrite hfailed]
        exact (sector0_of_writeMbr hinv hwrite).2 (huncut n l t hwrite hfailed)
      · exact kept_of_exit hinv hpoint (fun l t heq => hmbr ⟨l, t, heq⟩)
          (fun code' heq => hended ⟨code', heq⟩)

/-- Sector 0 is written last. -/
theorem installed_of_not_kept {h : Host} {n : Nat} (hchanged : ¬ h.Sector0Kept (h.run n).disk) :
    ∃ stSize, h.Installed (h.run n).disk stSize := by
  have hinv := inv_run h n
  generalize h.run n = s at hinv hchanged
  obtain ⟨disk, point⟩ := s
  cases point with
  | readMbr t =>
    have hdisk : disk = h.disk := hinv.1
    subst hdisk
    exact absurd (ByteMemory.SameOn.refl _ _ _) hchanged
  | copyRead l c =>
    obtain ⟨-, done, hcopied, -⟩ := hinv
    exact absurd hcopied.sector0 hchanged
  | copyWrite l c current t =>
    obtain ⟨-, done, hcopied, -⟩ := hinv
    exact absurd hcopied.sector0 hchanged
  | writeRecord l t => exact absurd hinv.2.1.sector0 hchanged
  | writeLogo l t => exact absurd hinv.2.1.sector0 hchanged
  | writeMbr l t => exact ⟨l.stSize, hinv.2.1⟩
  | exited code =>
    obtain ⟨hinstalled | ⟨hkept, -⟩, -⟩ := hinv
    · exact hinstalled
    · exact absurd hkept hchanged

/-- A failure is clean exactly when the run does not stall and the write to sector 0 is not cut. -/
theorem failureAtomic_iff (h : Host) : h.FailureAtomic ↔ ¬ h.Stalls ∧ h.Sector0Uncut := by
  constructor
  · intro hatomic
    obtain ⟨n, code, hexit⟩ := hatomic.terminates
    constructor
    · rintro ⟨m, hstall⟩
      have hzero := hstall (max m n) (le_max_left m n)
      have hended : h.ExitsAt (max m n) code := by
        show (h.run _).point = _
        rw [exitsAt_mono hexit (le_max_right m n)]
        exact hexit
      rw [returns_of_exited hended] at hzero
      cases hzero
    · intro m l t hpoint hfailed
      have hdead : h.run (m + 1) = { disk := (h.run m).disk, point := .exited 1 } :=
        step_of_writeMbr_failed hpoint hfailed
      have hexit' : h.ExitsAt (m + 1) 1 := by
        show (h.run _).point = _
        rw [hdead]
      obtain ⟨-, hkept⟩ := hatomic.sector0_kept (m + 1) 1 hexit' (.inl ⟨m, hfailed⟩)
      rw [hdead] at hkept
      exact (sector0_of_writeMbr (inv_run h m) hpoint).1 hkept
  · rintro ⟨hstalls, huncut⟩
    exact
      { terminates := exists_exitsAt hstalls
        sector0_kept := by
          intro n code hexit hbad
          have hcode : code ≠ 0 := by
            obtain hfails | hshort := hbad
            · exact ne_zero_of_callFails hexit hfails
            · exact ne_zero_of_inputEndsEarly hexit hshort
          exact ⟨hcode, kept_of_exitsAt huncut hexit hcode⟩
        written_last := fun n hchanged => installed_of_not_kept hchanged }

/-! ### A disk without a sector -/

/-- When nothing fails, a disk that ends before its sector 0 does is read forever. -/
theorem readMbr_of_disk_short {h : Host} (hargs : h.args.length = 4) (hname : h.name.length ≤ 15)
    (hopens : h.diskOpens = true) (hshort : h.disk.size < sectorSize)
    (hanswers : ∀ n, h.responses n ≠ .failed) (n : Nat) : ∃ t, (h.run n).point = .readMbr t := by
  induction n with
  | zero =>
    show ∃ t, h.start.point = .readMbr t
    simp only [Host.start, hargs, hopens, if_neg (Nat.not_lt.2 hname)]
    exact ⟨_, rfl⟩
  | succ n ih =>
    obtain ⟨t, hpoint⟩ := ih
    have hinv := inv_run h n
    show ∃ t, (h.step (h.responses n) (h.run n)).point = .readMbr t
    generalize h.run n = s at hinv hpoint
    obtain ⟨disk, point⟩ := s
    subst hpoint
    obtain ⟨hdisk, hoffset, htotal, -, hle, -⟩ := hinv
    dsimp only at hdisk
    subst hdisk
    simp only [Host.step]
    cases hread : h.disk.pread (h.responses n) t.size t.offset with
    | none =>
      cases hr : h.responses n with
      | failed => exact absurd hr (hanswers n)
      | upTo k =>
        have hnonneg : ¬ t.offset < 0 := by omega
        simp only [hr, File.pread, if_neg hnonneg, reduceCtorEq] at hread
    | some current =>
      obtain ⟨-, -, havail⟩ := pread_eq_some hread
      have hleft : t.size - current ≠ 0 := by omega
      exact ⟨_, if_pos hleft⟩

/-- `install-apt DISK IMAGE NAME` on a file of 100 bytes; every call moves all that it can. -/
def shortDisk : Host where
  args := [[], [], [], []]
  diskOpens := true
  disk := { size := 100, bytes := fun _ => 0, zero_beyond := fun _ _ => rfl }
  imageOpens := true
  image := { size := 0, bytes := fun _ => 0, zero_beyond := fun _ _ => rfl }
  stSize := some 0
  stSize_le := fun _ hsize => Option.some.inj hsize ▸ Nat.zero_le _
  mbrStack := fun _ => 0
  bufferStack := fun _ => 0
  responses := fun _ => .upTo 65536

theorem shortDisk_not_failureAtomic : ¬ shortDisk.FailureAtomic := by
  intro hatomic
  obtain ⟨n, code, hexit⟩ := hatomic.terminates
  obtain ⟨t, hreads⟩ := readMbr_of_disk_short (h := shortDisk) rfl (Nat.zero_le _) rfl (by decide)
    (fun _ heq => nomatch heq) n
  have hpoint : (shortDisk.run n).point = .exited code := hexit
  rw [hpoint] at hreads
  cases hreads

end XrLinux.InstallApt
