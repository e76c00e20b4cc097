import XrLinux.Bootloader.BlockMap

/-!
# Bootloader — the bytes of a file

`BiReadFromInode` cuts a range of a file at the ends of blocks and reads, or fills, one piece after
the other. `Volume.Maps` is what it relies on: every block of the file has its place, the blocks
that are not holes inside the partition.
-/

namespace XrLinux.Bootloader

open Prog ByteMemory

/-- `BiGetInodeBlockBase` gives each block of the file its block of the volume. -/
structure Volume.Maps (vol : Volume) (inode : BiInode) (map : Nat → Nat) : Prop where
  shift_lt : vol.shift < 32
  returns : ∀ block s, block * 2 ^ vol.shift < biInodeSize vol.fs inode → vol.Steady s →
    Returns (biGetInodeBlockBase vol.fw vol.part vol.fs inode block) s fun v s' =>
      vol.Steady s' ∧ v = map block
  hasBlock : ∀ block, block * 2 ^ vol.shift < biInodeSize vol.fs inode → map block ≠ 0 →
    vol.HasBlock (map block)

/-- The byte at `x` of a file. -/
def Volume.fileByte (vol : Volume) (map : Nat → Nat) (x : Nat) : BitVec 8 :=
  if map (x / 2 ^ vol.shift) = 0 then 0
  else vol.bytes (map (x / 2 ^ vol.shift) * 2 ^ vol.shift + x % 2 ^ vol.shift)

/-- One round of the loop: `count` bytes from `offset` of a block of the volume, or zeros. -/
def Volume.readPiece (vol : Volume) (m : ByteMemory) (buffer block offset count : Nat)
    (bypassCache : Bool) : DiskProg ByteMemory :=
  if block = 0 then pure (m.put buffer count fun _ => 0)
  else blReadFromPartition vol.fw vol.part m buffer (block * 2 ^ vol.shift + offset) count bypassCache

section
variable {vol : Volume} {inode : BiInode} {map : Nat → Nat} {s : DiskState} {m : ByteMemory}
  {buffer size position fuel : Nat} {bypassCache : Bool}

theorem shl32_lt (x n : Nat) : shl32 x n < 4294967296 := by
  unfold shl32
  exact Nat.mod_lt _ (by decide)

/-- However the sizes of the levels wrap, three of them are soon behind a block. -/
theorem selectLevel_far {fs : Fs} {left level block blocks : Nat} (hblocks : blocks < 4294967296)
    (hblock : left * 4294967296 ≤ block) : selectLevel fs left level block blocks = none := by
  induction left generalizing level block blocks with
  | zero => rfl
  | succ left ih =>
    rw [Nat.add_mul, Nat.one_mul] at hblock
    have hleft : left * 4294967296 + blocks ≤ block :=
      Nat.le_trans (Nat.add_le_add_left hblocks.le _) hblock
    have hskip : ¬block < blocks := by omega
    unfold selectLevel
    rw [if_neg hskip]
    exact ih (shl32_lt _ _) (Nat.le_sub_of_add_le hleft)

/-- A file whose blocks all have a place is much smaller than `2 ^ 64`. -/
theorem Volume.Maps.size_lt (hmaps : vol.Maps inode map) :
    biInodeSize vol.fs inode < 4611686018427387904 := by
  have hshift := hmaps.shift_lt
  have hsteady : vol.Steady .init := ⟨[], DiskState.init_ready _ _⟩
  have hpos := Nat.two_pow_pos vol.shift
  -- of a block that no level has, the code says so
  have hbeyond : ∀ block, directBlockCount ≤ block →
      selectLevel vol.fs indirectLevels 0 (block - directBlockCount) vol.fs.indirectionCount = none →
      biInodeSize vol.fs inode ≤ block * 2 ^ vol.shift := by
    intro block hblock hselect
    by_contra hin
    have hreturns := hmaps.returns block .init (not_le.1 hin) hsteady
    rw [biGetInodeBlockBase_beyond hblock hselect] at hreturns
    exact hreturns
  by_cases hsmall : vol.shift < 18
  · have hend := hbeyond (12 + 3 * 4294967296) (by decide)
      (selectLevel_far (shl32_lt _ _) (by decide))
    have hpow : 2 ^ vol.shift ≤ 2 ^ 17 := Nat.pow_le_pow_right (by decide) (by omega)
    omega
  · have hfits : ¬LevelFits vol.shift (12 + 2 ^ 29) := by
      have hpow : 2 ^ (vol.shift - 2) ≤ 2 ^ 29 := Nat.pow_le_pow_right (by decide) (by omega)
      unfold LevelFits directBlockCount
      omega
    have hselect := selectLevel_of_not_fits (by omega) hshift
      (indirectionShift_eq (by omega) hshift) (by decide) hfits
    rw [← indirectionCount_eq (by omega) hshift] at hselect
    have hend := hbeyond (12 + 2 ^ 29) (by decide) hselect
    have hpow : 2 ^ vol.shift ≤ 2 ^ 31 := Nat.pow_le_pow_right (by decide) (by omega)
    omega

theorem blockSize_eq (hshift : vol.shift < 32) : vol.fs.blockSize = 2 ^ vol.shift := by
  have hpow := @shl32_two_pow 0 vol.shift hshift
  rw [Nat.zero_add, if_pos hshift] at hpow
  exact hpow

/-- How much of the range is in its first block. -/
def firstCount (shift size position : Nat) : Nat := min size (2 ^ shift - position % 2 ^ shift)

theorem firstCount_pos {shift : Nat} (hsize : size ≠ 0) : 0 < firstCount shift size position := by
  have := Nat.mod_lt position (Nat.two_pow_pos shift)
  unfold firstCount
  omega

theorem firstCount_le (shift size position : Nat) : firstCount shift size position ≤ size :=
  Nat.min_le_left _ _

/-- A round, and the rounds after it. -/
theorem readInodeBlocks_step (hmaps : vol.Maps inode map) (hs : vol.Steady s) (hsize : size ≠ 0)
    (hin : position + size ≤ biInodeSize vol.fs inode) {Q : ByteMemory → DiskState → Prop}
    {E : Stop → DiskState → Prop}
    (hrest : ∀ s', vol.Steady s' → Post (vol.readPiece m buffer (map (position / 2 ^ vol.shift))
      (position % 2 ^ vol.shift) (firstCount vol.shift size position) bypassCache) s'
      (fun m' s'' => Post (readInodeBlocks vol.fw vol.part vol.fs inode bypassCache fuel m'
        (buffer + firstCount vol.shift size position) (size - firstCount vol.shift size position)
        (position + firstCount vol.shift size position)) s'' Q E) E) :
    Post (readInodeBlocks vol.fw vol.part vol.fs inode bypassCache (fuel + 1) m buffer size
      position) s Q E := by
  have hfile := hmaps.size_lt
  have hshift := hmaps.shift_lt
  have hcount_le := firstCount_le vol.shift size position
  have hoffset : position &&& (vol.fs.blockSize - 1) = position % 2 ^ vol.shift := by
    rw [blockSize_eq hshift, and_two_pow_sub_one]
  have hshift64 : vol.fs.blockSizeShift % 64 = vol.shift :=
    Nat.mod_eq_of_lt (show vol.shift < 64 by omega)
  obtain ⟨block, hblock⟩ : ∃ block, block = position / 2 ^ vol.shift := ⟨_, rfl⟩
  obtain ⟨count, hcount⟩ : ∃ count, count = firstCount vol.shift size position := ⟨_, rfl⟩
  have hnext : add64 position count = position + count := Nat.mod_eq_of_lt (by omega)
  have hstart : block * 2 ^ vol.shift < biInodeSize vol.fs inode := by
    have := Nat.div_mul_le_self position (2 ^ vol.shift)
    rw [hblock]
    omega
  rw [← hblock, ← hcount] at hrest
  unfold readInodeBlocks shr64
  rw [if_neg hsize, hshift64]
  dsimp only
  rw [hoffset, blockSize_eq hshift, ← hblock,
    show min size (2 ^ vol.shift - position % 2 ^ vol.shift) = count from hcount.symm, hnext]
  refine Post.bind (Returns.post (hmaps.returns _ _ hstart hs)) ?_
  rintro v s' ⟨hs', rfl⟩
  have hrest := hrest s' hs'
  unfold Volume.readPiece at hrest
  unfold shl64
  rw [hshift64]
  by_cases hhole : map block = 0
  · rw [if_pos hhole] at hrest
    rw [hhole, Nat.zero_mul, if_neg (by simp), post_bind]
    exact hrest
  · have hplace := hmaps.hasBlock _ hstart hhole
    unfold Volume.HasBlock at hplace
    rw [Nat.add_mul, Nat.one_mul] at hplace
    have hpos := Nat.two_pow_pos vol.shift
    have hsize_lt := vol.size_lt
    have hoffset_lt := Nat.mod_lt position hpos
    have hbase : map block * 2 ^ vol.shift ≠ 0 := Nat.mul_ne_zero hhole hpos.ne'
    have hbase_lt : map block * 2 ^ vol.shift % 18446744073709551616 = map block * 2 ^ vol.shift :=
      Nat.mod_eq_of_lt (by omega)
    have hadd : add64 (map block * 2 ^ vol.shift) (position % 2 ^ vol.shift) =
        map block * 2 ^ vol.shift + position % 2 ^ vol.shift := Nat.mod_eq_of_lt (by omega)
    rw [if_neg hhole] at hrest
    rw [hbase_lt, if_pos hbase, hadd, post_bind]
    exact hrest

/-! ## Pieces -/

theorem Volume.part_onDisk (vol : Volume) : vol.part.start % 512 = 0 ∧
    vol.part.start + vol.part.size ≤ vol.fw.diskSize ∧ vol.fw.diskSize < 4294967296 * 512 := by
  have hsectors := vol.fw.sectorCount_lt
  refine ⟨Nat.mul_mod_left _ _, vol.onDisk, ?_⟩
  unfold Firmware.diskSize sectorSize
  omega

/-- What the firmware wants of a read around the cache. -/
def SectorAligned (buffer position count : Nat) : Prop :=
  position % sectorSize = 0 ∧ count % sectorSize = 0 ∧ buffer % sectorSize = 0

instance decidableSectorAligned (buffer position count : Nat) :
    Decidable (SectorAligned buffer position count) :=
  inferInstanceAs (Decidable (_ ∧ _ ∧ _))

theorem blReadFromPartition_returns {count : Nat} (hs : vol.Steady s)
    (hin : position + count ≤ vol.part.size)
    (haligned : bypassCache = true → SectorAligned buffer position count) :
    Returns (blReadFromPartition vol.fw vol.part m buffer position count bypassCache) s
      fun m' s' => vol.Steady s' ∧ m' = m.put buffer count fun i => vol.bytes (position + i) := by
  have hbytes : (fun i => vol.disk (vol.part.start + position + i)) =
      fun i => vol.bytes (position + i) := by
    funext i
    rw [Nat.add_assoc]
    rfl
  rw [← hbytes]
  cases hbypass : bypassCache with
  | false => exact blReadFromPartition_cached vol.serves hs hin vol.onDisk
  | true =>
    obtain ⟨hposition, hcount, hbuffer⟩ := haligned hbypass
    obtain ⟨blocks, hs⟩ := hs
    obtain ⟨hstart, honDisk, hdisk⟩ := vol.part_onDisk
    rw [blReadFromPartition_eq hin (by omega)]
    refine (biReadFromDisk_bypass vol.serves hs hbuffer ?_ hcount (by omega) (by omega)).mono ?_
    · unfold sectorSize at hposition ⊢
      omega
    · rintro m' s' ⟨hs', rfl⟩
      exact ⟨⟨_, hs'⟩, by rw [Nat.min_eq_left (by omega)]⟩

theorem blReadFromPartition_unaligned {count : Nat} (hin : position + count ≤ vol.part.size)
    (hunaligned : ¬SectorAligned buffer position count) :
    ∃ reason, blReadFromPartition vol.fw vol.part m buffer position count true =
      Prog.stop (.crash reason) := by
  obtain ⟨hstart, honDisk, hdisk⟩ := vol.part_onDisk
  rw [blReadFromPartition_eq hin (by omega)]
  unfold biReadFromDisk
  rw [if_pos rfl]
  by_cases hposition : (vol.part.start + position) % sectorSize = 0
  · rw [if_neg (not_not.2 hposition)]
    by_cases hcount : count % sectorSize = 0
    · have hbuffer : buffer % sectorSize ≠ 0 := by
        intro hbuffer
        refine hunaligned ⟨?_, hcount, hbuffer⟩
        unfold sectorSize at hposition ⊢
        omega
      rw [if_neg (not_not.2 hcount)]
      unfold bxReadFromDisk
      rw [if_pos hbuffer]
      exact ⟨_, rfl⟩
    · rw [if_pos hcount]
      exact ⟨_, rfl⟩
  · rw [if_pos hposition]
    exact ⟨_, rfl⟩

theorem Volume.HasBlock.room {block offset count : Nat} (hblock : vol.HasBlock block)
    (hfits : offset + count ≤ 2 ^ vol.shift) :
    block * 2 ^ vol.shift + offset + count ≤ vol.part.size := by
  unfold Volume.HasBlock at hblock
  rw [Nat.add_mul, Nat.one_mul] at hblock
  omega

theorem readPiece_returns {block offset count : Nat} (hs : vol.Steady s)
    (hblock : block ≠ 0 → vol.HasBlock block) (hfits : offset + count ≤ 2 ^ vol.shift)
    (haligned : bypassCache = true → block ≠ 0 →
      SectorAligned buffer (block * 2 ^ vol.shift + offset) count) :
    Returns (vol.readPiece m buffer block offset count bypassCache) s fun m' s' =>
      vol.Steady s' ∧ m' = m.put buffer count fun i =>
        if block = 0 then 0 else vol.bytes (block * 2 ^ vol.shift + offset + i) := by
  unfold Volume.readPiece
  by_cases hhole : block = 0
  · rw [if_pos hhole]
    exact ⟨hs, put_congr m fun i _ => (if_pos hhole).symm⟩
  · rw [if_neg hhole]
    refine (blReadFromPartition_returns hs ((hblock hhole).room hfits) fun hbypass =>
      haligned hbypass hhole).mono ?_
    rintro m' s' ⟨hs', rfl⟩
    exact ⟨hs', put_congr m fun i _ => (if_neg hhole).symm⟩

theorem readPiece_crash {block offset count : Nat} (hblock : vol.HasBlock block) (hhole : block ≠ 0)
    (hfits : offset + count ≤ 2 ^ vol.shift)
    (hunaligned : ¬SectorAligned buffer (block * 2 ^ vol.shift + offset) count) :
    ∃ reason, vol.readPiece m buffer block offset count true = Prog.stop (.crash reason) := by
  unfold Volume.readPiece
  rw [if_neg hhole]
  exact blReadFromPartition_unaligned (hblock.room hfits) hunaligned

/-- Where in the file the piece that has the byte at `x` starts. -/
def pieceStart (shift position x : Nat) : Nat := max position (x / 2 ^ shift * 2 ^ shift)

def pieceEnd (shift size position x : Nat) : Nat :=
  min (position + size) (x / 2 ^ shift * 2 ^ shift + 2 ^ shift)

/-- Every piece of the range that is not a hole is aligned. -/
def Volume.RangeAligned (vol : Volume) (map : Nat → Nat) (buffer size position : Nat) : Prop :=
  ∀ x, position ≤ x → x < position + size → map (x / 2 ^ vol.shift) ≠ 0 →
    SectorAligned (buffer + (pieceStart vol.shift position x - position))
      (map (x / 2 ^ vol.shift) * 2 ^ vol.shift + pieceStart vol.shift position x % 2 ^ vol.shift)
      (pieceEnd vol.shift size position x - pieceStart vol.shift position x)

theorem div_mul_add_mod (x shift : Nat) :
    x / 2 ^ shift * 2 ^ shift + x % 2 ^ shift = x ∧ x % 2 ^ shift < 2 ^ shift :=
  ⟨Nat.div_add_mod' .., Nat.mod_lt _ (Nat.two_pow_pos _)⟩

/-- Blocks of a file do not share bytes. -/
theorem block_eq_of_le {shift x y : Nat} (hlo : x / 2 ^ shift * 2 ^ shift ≤ y)
    (hhi : y < x / 2 ^ shift * 2 ^ shift + 2 ^ shift) : y / 2 ^ shift = x / 2 ^ shift := by
  rw [Nat.div_eq_iff (Nat.two_pow_pos _)]
  omega

theorem rangeAligned_step (hsize : size ≠ 0) :
    vol.RangeAligned map buffer size position ↔
      (map (position / 2 ^ vol.shift) ≠ 0 → SectorAligned buffer
        (map (position / 2 ^ vol.shift) * 2 ^ vol.shift + position % 2 ^ vol.shift)
        (firstCount vol.shift size position)) ∧
      vol.RangeAligned map (buffer + firstCount vol.shift size position)
        (size - firstCount vol.shift size position)
        (position + firstCount vol.shift size position) := by
  obtain ⟨hposition, hoffset⟩ := div_mul_add_mod position vol.shift
  have hcount : firstCount vol.shift size position =
    min size (2 ^ vol.shift - position % 2 ^ vol.shift) := rfl
  generalize firstCount vol.shift size position = count at hcount ⊢
  -- a byte is in the first block, or in one behind it
  have hfirst : ∀ x, position ≤ x → x < position + count →
      x / 2 ^ vol.shift = position / 2 ^ vol.shift :=
    fun x hlo hhi => block_eq_of_le (by omega) (by omega)
  have hlater : ∀ x, position + count ≤ x → x < position + size →
      position + count ≤ x / 2 ^ vol.shift * 2 ^ vol.shift := by
    intro x hlo hhi
    have hnext : (position / 2 ^ vol.shift + 1) * 2 ^ vol.shift = position + count := by
      rw [Nat.add_mul, Nat.one_mul]
      omega
    rw [← hnext] at hlo ⊢
    exact Nat.mul_le_mul_right _ ((Nat.le_div_iff_mul_le (Nat.two_pow_pos _)).2 hlo)
  unfold Volume.RangeAligned pieceStart pieceEnd
  constructor
  · intro h
    constructor
    · intro hhole
      have := h position (Nat.le_refl _) (by omega) hhole
      rw [Nat.max_eq_left (by omega), Nat.sub_self, Nat.add_zero] at this
      rwa [show min (position + size) (position / 2 ^ vol.shift * 2 ^ vol.shift + 2 ^ vol.shift) -
        position = count by omega] at this
    · intro x hlo hhi hhole
      have hx := hlater x hlo (by omega)
      have := h x (by omega) (by omega) hhole
      rw [Nat.max_eq_right (by omega)] at this ⊢
      rwa [show buffer + count + (x / 2 ^ vol.shift * 2 ^ vol.shift - (position + count)) =
          buffer + (x / 2 ^ vol.shift * 2 ^ vol.shift - position) by omega,
        show position + count + (size - count) = position + size by omega]
  · rintro ⟨hhead, htail⟩ x hlo hhi hhole
    by_cases hx : x < position + count
    · rw [hfirst x hlo hx] at hhole ⊢
      rw [Nat.max_eq_left (by omega), Nat.sub_self, Nat.add_zero,
        show min (position + size) (position / 2 ^ vol.shift * 2 ^ vol.shift + 2 ^ vol.shift) -
          position = count by omega]
      exact hhead hhole
    · have hx' := hlater x (by omega) hhi
      have := htail x (by omega) (by omega) hhole
      rw [Nat.max_eq_right (by omega)] at this ⊢
      rwa [show buffer + count + (x / 2 ^ vol.shift * 2 ^ vol.shift - (position + count)) =
          buffer + (x / 2 ^ vol.shift * 2 ^ vol.shift - position) by omega,
        show position + count + (size - count) = position + size by omega] at this

/-! ## Ranges -/

/-- The bytes of the first piece are bytes of the file. -/
theorem fileByte_first {i : Nat} (hi : i < firstCount vol.shift size position) :
    (if map (position / 2 ^ vol.shift) = 0 then 0
      else vol.bytes (map (position / 2 ^ vol.shift) * 2 ^ vol.shift +
        position % 2 ^ vol.shift + i)) = vol.fileByte map (position + i) := by
  obtain ⟨hposition, hoffset⟩ := div_mul_add_mod position vol.shift
  unfold firstCount at hi
  have hblock : (position + i) / 2 ^ vol.shift = position / 2 ^ vol.shift :=
    block_eq_of_le (by omega) (by omega)
  have hplace : (position + i) % 2 ^ vol.shift = position % 2 ^ vol.shift + i := by
    have := (div_mul_add_mod (position + i) vol.shift).1
    rw [hblock] at this
    omega
  unfold Volume.fileByte
  rw [hblock, hplace, Nat.add_assoc]

/-- The loop reads its range, around the cache as long as the pieces are aligned. -/
theorem readInodeBlocks_returns (hmaps : vol.Maps inode map) (hfuel : size < fuel)
    (hs : vol.Steady s) (hin : position + size ≤ biInodeSize vol.fs inode)
    (haligned : bypassCache = true → vol.RangeAligned map buffer size position) :
    Returns (readInodeBlocks vol.fw vol.part vol.fs inode bypassCache fuel m buffer size position) s
      fun m' s' => vol.Steady s' ∧ m' = m.put buffer size fun i => vol.fileByte map (position + i) := by
  induction fuel generalizing s m buffer size position with
  | zero => omega
  | succ fuel ih =>
    by_cases hsize : size = 0
    · subst hsize
      exact ⟨hs, (put_zero ..).symm⟩
    · obtain ⟨hposition, hoffset⟩ := div_mul_add_mod position vol.shift
      have hpos : 0 < firstCount vol.shift size position := firstCount_pos hsize
      have hle := firstCount_le vol.shift size position
      refine readInodeBlocks_step hmaps hs hsize hin fun s₁ hs₁ => ?_
      refine Post.mono (readPiece_returns hs₁ (hmaps.hasBlock _ ?_) ?_ fun hbypass =>
        ((rangeAligned_step hsize).1 (haligned hbypass)).1) ?_ fun _ _ => id
      · omega
      · unfold firstCount
        omega
      · rintro m' s₂ ⟨hs₂, rfl⟩
        refine (ih (by omega) hs₂ (by omega) fun hbypass =>
          ((rangeAligned_step hsize).1 (haligned hbypass)).2).mono ?_
        rintro m' s₃ ⟨hs₃, rfl⟩
        refine ⟨hs₃, ?_⟩
        have hsplit := put_put m buffer (firstCount vol.shift size position)
          (size - firstCount vol.shift size position) fun i => vol.fileByte map (position + i)
        rw [Nat.add_sub_cancel' hle] at hsplit
        rw [← hsplit, put_congr m fun i hi => fileByte_first hi]
        simp only [Nat.add_assoc]

/-- `BiReadFromInode` reads bytes of the file, and nothing else changes. -/
theorem biReadFromInode_returns (hmaps : vol.Maps inode map) (hs : vol.Steady s)
    (hin : position + size ≤ biInodeSize vol.fs inode)
    (haligned : bypassCache = true → vol.RangeAligned map buffer size position) :
    Returns (biReadFromInode vol.fw vol.part vol.fs inode m buffer size position bypassCache) s
      fun m' s' => vol.Steady s' ∧ m' = m.put buffer size fun i => vol.fileByte map (position + i) :=
  readInodeBlocks_returns hmaps (Nat.lt_succ_self _) hs hin haligned

end

/-! ## Consecutive requests -/

/-- Requests of these sizes, each where the one before it ended. -/
def readConsecutive (vol : Volume) (inode : BiInode) (bypassCache : Bool) :
    List Nat → ByteMemory → Nat → Nat → DiskProg ByteMemory
  | [], m, _, _ => pure m
  | size :: sizes, m, buffer, position => do
    let m ← biReadFromInode vol.fw vol.part vol.fs inode m buffer size position bypassCache
    readConsecutive vol inode bypassCache sizes m (buffer + size) (position + size)

def Volume.SplitAligned (vol : Volume) (map : Nat → Nat) : List Nat → Nat → Nat → Prop
  | [], _, _ => True
  | size :: sizes, buffer, position =>
    vol.RangeAligned map buffer size position ∧
      vol.SplitAligned map sizes (buffer + size) (position + size)

section
variable {vol : Volume} {inode : BiInode} {map : Nat → Nat} {s : DiskState} {m : ByteMemory}
  {buffer position : Nat} {bypassCache : Bool}

/-- However a range of a file is split into requests, memory is as it was with the bytes of the range
in the buffer. -/
theorem biReadFromInode_consecutive (hmaps : vol.Maps inode map) (hs : vol.Steady s)
    (sizes : List Nat) (hin : position + sizes.sum ≤ biInodeSize vol.fs inode)
    (haligned : bypassCache = true → vol.SplitAligned map sizes buffer position) :
    Returns (readConsecutive vol inode bypassCache sizes m buffer position) s fun m' s' =>
      vol.Steady s' ∧ m' = m.put buffer sizes.sum fun i => vol.fileByte map (position + i) := by
  induction sizes generalizing s m buffer position with
  | nil => exact ⟨hs, (put_zero ..).symm⟩
  | cons size sizes ih =>
    rw [List.sum_cons] at hin ⊢
    refine (biReadFromInode_returns hmaps hs (by omega) fun hbypass =>
      (haligned hbypass).1).bind ?_
    rintro m' s' ⟨hs', rfl⟩
    refine (ih hs' (by omega) fun hbypass => (haligned hbypass).2).mono ?_
    rintro m' s'' ⟨hs'', rfl⟩
    refine ⟨hs'', ?_⟩
    rw [← put_put]
    simp only [Nat.add_assoc]

theorem biInodeSize_of_small {fs : Fs} (hupper : inode.sizeUpper = 0) :
    biInodeSize fs inode = inode.size := by
  unfold biInodeSize
  rw [hupper]
  split <;> simp

/-- A file that needs no tree. -/
theorem Volume.Maps.of_direct (hshift : vol.shift < 32)
    (hsize : biInodeSize vol.fs inode ≤ directBlockCount * 2 ^ vol.shift)
    (hblocks : ∀ block < directBlockCount, inode.directBlocks block ≠ 0 →
      vol.HasBlock (inode.directBlocks block)) : vol.Maps inode inode.directBlocks := by
  have hdirect : ∀ block, block * 2 ^ vol.shift < biInodeSize vol.fs inode →
      block < directBlockCount := by
    intro block hblock
    exact Nat.lt_of_mul_lt_mul_right (Nat.lt_of_lt_of_le hblock hsize)
  refine ⟨hshift, fun block s hblock hs => ?_, fun block hblock => hblocks _ (hdirect _ hblock)⟩
  rw [biGetInodeBlockBase_direct (hdirect _ hblock)]
  exact ⟨hs, rfl⟩

end

/-- A block and a half, the half a hole, in two requests. -/
theorem biReadFromInode_consecutive_sparse :
    Returns (readConsecutive (farVolume 10 64#32 (by decide))
        { mode := typeReg, size := 1536, directBlocks := fun i => if i = 0 then 2 else 0,
          indirectBlocks := fun _ => 0, sizeUpper := 0 } false [700, 836] (fun _ => 1) 4096 0)
      .init fun m s => (farVolume 10 64#32 (by decide)).Steady s ∧
        m = put (fun _ => 1) 4096 1536 fun i => (farVolume 10 64#32 (by decide)).fileByte
          (fun i => if i = 0 then 2 else 0) (0 + i) := by
  have hshift : (farVolume 10 64#32 (by decide)).shift = 10 := farVolume_shift (by decide)
  have hroom : (farVolume 10 64#32 (by decide)).part.size = 32768 := rfl
  have hsteady : (farVolume 10 64#32 (by decide)).Steady .init := ⟨[], DiskState.init_ready _ _⟩
  generalize farVolume 10 64#32 (by decide) = vol at hshift hroom hsteady ⊢
  refine biReadFromInode_consecutive (Volume.Maps.of_direct ?_ ?_ ?_) hsteady [700, 836] ?_ ?_
  · omega
  · rw [biInodeSize_of_small rfl, hshift]
    decide
  · intro block _ hhole
    have hfirst : block = 0 := by
      by_contra hne
      exact hhole (if_neg hne)
    subst hfirst
    show (2 + 1) * 2 ^ vol.shift ≤ vol.part.size
    rw [hshift, hroom]
    decide
  · rw [biInodeSize_of_small rfl]
    decide
  · intro hbypass
    cases hbypass

end XrLinux.Bootloader
