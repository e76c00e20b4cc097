import XrLinux.Bootloader.FileReads

/-!
# Bootloader — requests at the end of a file

`BlFsFileRead` wants to refuse what goes beyond the end of the file, but takes the difference of
position and size the wrong way round: the bytes it believes to be left are `2 ^ 64` less those that
are. So it reads almost every range that starts inside the file, wherever the range ends.
-/

namespace XrLinux.Bootloader

open Prog ByteMemory

/-- A request that ends inside the file is read, any other is refused with memory as it was. -/
def FileReadBounded (fw : Firmware) (part : BlPartition) (fs : Fs) (inode : BiInode)
    (count position : Nat) : Prop :=
  ∀ (m : ByteMemory) (buffer : Nat) (bypassCache : Bool),
    (position + count ≤ biInodeSize fs inode →
      blFsFileRead fw part fs inode m buffer count position bypassCache =
        biReadFromInode fw part fs inode m buffer count position bypassCache) ∧
    (biInodeSize fs inode < position + count →
      blFsFileRead fw part fs inode m buffer count position bypassCache = pure m)

section
variable {fw : Firmware} {part : BlPartition} {fs : Fs} {inode : BiInode} {m : ByteMemory}
  {buffer count position fuel : Nat} {bypassCache : Bool} {s : DiskState}

/-! ## What a read stores -/

theorem readCached_before (fuel : Nat) (m : ByteMemory) (buffer position count : Nat)
    (s : DiskState) : Post (readCached fw fuel m buffer position count) s
      (fun m' _ => ∀ x < buffer, m' x = m x) fun _ _ => True := by
  induction fuel generalizing m buffer position count s with
  | zero => trivial
  | succ fuel ih =>
    unfold readCached
    split
    · exact fun _ _ => rfl
    · refine Post.bind (Post.trivial _ _) fun data s' _ => ?_
      rw [post_bind, post_get]
      refine (ih _ _ _ _ s').mono (fun m' _ hbefore x hx => ?_) fun _ _ => id
      rw [hbefore x (by omega), put_of_not_mem _ _ (.inl hx)]

/-- A read through the cache leaves what is before the buffer. -/
theorem blReadFromPartition_before (m : ByteMemory) (buffer position count : Nat) (s : DiskState) :
    Post (blReadFromPartition fw part m buffer position count false) s
      (fun m' _ => ∀ x < buffer, m' x = m x) fun _ _ => True := by
  unfold blReadFromPartition
  dsimp only
  split
  · trivial
  · exact readCached_before _ m buffer _ count s

theorem readInodeBlocks_before (fuel : Nat) (m : ByteMemory) (buffer size position : Nat)
    (s : DiskState) : Post (readInodeBlocks fw part fs inode false fuel m buffer size position) s
      (fun m' _ => ∀ x < buffer, m' x = m x) fun _ _ => True := by
  induction fuel generalizing m buffer size position s with
  | zero => trivial
  | succ fuel ih =>
    unfold readInodeBlocks
    split
    · exact fun _ _ => rfl
    · refine Post.bind (Post.trivial _ _) fun blockBase s' _ => ?_
      have hrest : ∀ (m' : ByteMemory) (s'' : DiskState), (∀ x < buffer, m' x = m x) →
          Post (readInodeBlocks fw part fs inode false fuel m'
            (buffer + min size (fs.blockSize - (position &&& (fs.blockSize - 1))))
            (size - min size (fs.blockSize - (position &&& (fs.blockSize - 1))))
            (add64 position (min size (fs.blockSize - (position &&& (fs.blockSize - 1)))))) s''
            (fun m'' _ => ∀ x < buffer, m'' x = m x) fun _ _ => True := by
        intro m' s'' hpiece
        refine (ih m' _ _ _ s'').mono (fun m'' _ hbefore x hx => ?_) fun _ _ => id
        rw [hbefore x (by omega), hpiece x hx]
      dsimp only
      split
      · exact Post.bind (blReadFromPartition_before m buffer _ _ s') hrest
      · exact hrest _ s' fun x hx => put_of_not_mem _ _ (.inl hx)

/-- Whatever was in the buffer, its first byte is the one that is read. -/
theorem readCached_first (hcount : count ≠ 0) (buffer position : Nat) (s : DiskState) :
    ∃ b, ∀ m, Post (readCached fw (count + 1) m buffer position count) s
      (fun m' _ => m' buffer = b) fun _ _ => True := by
  have hoffset : position % bcacheSize < bcacheSize := Nat.mod_lt _ (by decide)
  rcases hentry : (biGetBCacheEntry fw (position / bcacheSize)).run s with ⟨data | data, s'⟩
  · refine ⟨0, fun m => ?_⟩
    unfold readCached
    rw [if_neg hcount]
    exact post_bind_error hentry True.intro
  · refine ⟨s'.cache.data (data + position % bcacheSize + 0), fun m => ?_⟩
    unfold readCached
    rw [if_neg hcount]
    refine post_bind_ok hentry ?_
    rw [post_bind, post_get]
    refine (readCached_before count _ _ _ _ s').mono (fun m' _ hbefore => ?_) fun _ _ => id
    rw [hbefore buffer (by omega)]
    exact put_byte m (a := buffer) (i := 0)
      (fun i => s'.cache.data (data + position % bcacheSize + i)) (by omega)

theorem blReadFromPartition_first (hcount : count ≠ 0) (buffer position : Nat) (s : DiskState) :
    ∃ b, ∀ m, Post (blReadFromPartition fw part m buffer position count false) s
      (fun m' _ => m' buffer = b) fun _ _ => True := by
  unfold blReadFromPartition
  dsimp only
  split
  · exact ⟨0, fun m => True.intro⟩
  · exact readCached_first hcount buffer _ s

theorem biReadFromInode_first (hblock : fs.blockSize ≠ 0) (hcount : count ≠ 0)
    (buffer position : Nat) (s : DiskState) :
    ∃ b, ∀ m, Post (biReadFromInode fw part fs inode m buffer count position false) s
      (fun m' _ => m' buffer = b) fun _ _ => True := by
  have hoffset : position &&& (fs.blockSize - 1) < fs.blockSize :=
    Nat.lt_of_le_of_lt Nat.and_le_right (Nat.sub_lt (Nat.pos_of_ne_zero hblock) Nat.one_pos)
  unfold biReadFromInode
  rcases hbase : (biGetInodeBlockBase fw part fs inode (shr64 position fs.blockSizeShift)).run s
    with ⟨base | base, s'⟩
  · refine ⟨0, fun m => ?_⟩
    unfold readInodeBlocks
    rw [if_neg hcount]
    exact post_bind_error hbase True.intro
  · obtain ⟨current, hcurrent⟩ :
        ∃ current, current = min count (fs.blockSize - (position &&& (fs.blockSize - 1))) := ⟨_, rfl⟩
    have hpos : current ≠ 0 := by omega
    obtain ⟨b, hb⟩ := @blReadFromPartition_first fw part _ hpos buffer
      (add64 (shl64 base fs.blockSizeShift) (position &&& (fs.blockSize - 1))) s'
    refine ⟨if shl64 base fs.blockSizeShift ≠ 0 then b else 0, fun m => ?_⟩
    unfold readInodeBlocks
    rw [if_neg hcount]
    refine post_bind_ok hbase ?_
    dsimp only
    rw [← hcurrent]
    -- the rounds after the first one store behind its piece
    have hrest : ∀ (m' : ByteMemory) (s'' : DiskState) (c : BitVec 8), m' buffer = c →
        Post (readInodeBlocks fw part fs inode false count m' (buffer + current) (count - current)
          (add64 position current)) s'' (fun m'' _ => m'' buffer = c) fun _ _ => True := by
      intro m' s'' c hc
      refine (readInodeBlocks_before count m' _ _ _ s'').mono (fun m'' _ hbefore => ?_)
        fun _ _ => id
      rw [hbefore buffer (by omega), hc]
    split
    · exact Post.bind (hb m) fun m' s'' hc => hrest m' s'' b hc
    · exact hrest _ s' 0 (put_byte m (a := buffer) (i := 0) (fun _ => 0) (Nat.pos_of_ne_zero hpos))

/-- So a read is not the same as none. -/
theorem biReadFromInode_ne_pure (hblock : fs.blockSize ≠ 0) (hcount : count ≠ 0)
    (buffer position : Nat) :
    ∃ m, biReadFromInode fw part fs inode m buffer count position false ≠ pure m := by
  obtain ⟨b, hb⟩ := @biReadFromInode_first fw part fs inode count hblock hcount buffer position .init
  refine ⟨fun _ => b + 1, fun heq => ?_⟩
  have hsame := hb fun _ => b + 1
  rw [heq, post_pure] at hsame
  simp at hsame

end

/-! ## The bound -/

theorem shl32_one_ne_zero (n : Nat) : shl32 1 n ≠ 0 := by
  have hlt : 2 ^ (n % 32) < 4294967296 :=
    Nat.pow_lt_pow_right (n := 32) (by decide) (Nat.mod_lt _ (by decide))
  unfold shl32
  rw [Nat.one_mul, Nat.mod_eq_of_lt hlt]
  exact (Nat.two_pow_pos _).ne'

theorem biInodeSize_lt (fs : Fs) (bytes : ByteMemory) :
    biInodeSize fs (.ofBytes bytes) < 18446744073709551616 := by
  have hsize : bytes.read32 4 < 2 ^ 64 := Nat.lt_trans (read32_lt bytes 4) (by decide)
  have hupper : bytes.read32 108 <<< 32 < 2 ^ 64 := by
    rw [Nat.shiftLeft_eq]
    have := read32_lt bytes 108
    omega
  unfold biInodeSize
  split
  · exact Nat.or_lt_two_pow hsize hupper
  · exact hsize

/-- What `BlFsFileRead` refuses. -/
theorem refused_iff {fileSize count position : Nat} (hsize : fileSize < 18446744073709551616)
    (hcount : count ≠ 0) :
    (count = 0 ∨ position > fileSize ∨ count > sub64 position fileSize) ↔
      fileSize ≤ position ∨ 18446744073709551616 < fileSize - position + count := by
  unfold sub64
  omega

section
variable {fw : Firmware} {part : BlPartition} {fs : Fs} {inode : BiInode} {m : ByteMemory}
  {buffer count position : Nat} {bypassCache : Bool}

theorem blFsFileRead_refused (hsize : biInodeSize fs inode < 18446744073709551616)
    (hcount : count ≠ 0) (h : biInodeSize fs inode ≤ position ∨
      18446744073709551616 < biInodeSize fs inode - position + count) :
    blFsFileRead fw part fs inode m buffer count position bypassCache = pure m :=
  if_pos ((refused_iff hsize hcount).2 h)

theorem blFsFileRead_served (hsize : biInodeSize fs inode < 18446744073709551616)
    (hcount : count ≠ 0) (h : ¬(biInodeSize fs inode ≤ position ∨
      18446744073709551616 < biInodeSize fs inode - position + count)) :
    blFsFileRead fw part fs inode m buffer count position bypassCache =
      biReadFromInode fw part fs inode m buffer count position bypassCache :=
  if_neg fun hrefused => h ((refused_iff hsize hcount).1 hrefused)

theorem fileReadBounded_zero : FileReadBounded fw part fs inode 0 position := by
  intro m buffer bypassCache
  have hread : blFsFileRead fw part fs inode m buffer 0 position bypassCache = pure m := by
    unfold blFsFileRead
    exact if_pos (.inl rfl)
  exact ⟨fun _ => hread, fun _ => hread⟩

/-- A request for something is treated right when the code refuses it just because of its range. -/
theorem fileReadBounded_iff (hblock : fs.blockSize ≠ 0)
    (hsize : biInodeSize fs inode < 18446744073709551616) (hcount : count ≠ 0) :
    FileReadBounded fw part fs inode count position ↔
      ((biInodeSize fs inode ≤ position ∨
          18446744073709551616 < biInodeSize fs inode - position + count) ↔
        biInodeSize fs inode < position + count) := by
  -- a buffer that shows whether something was stored
  obtain ⟨shown, hshown⟩ := @biReadFromInode_ne_pure fw part fs inode _ hblock hcount 0 position
  constructor
  · intro h
    obtain ⟨hinside, hbeyond⟩ := h shown 0 false
    constructor
    · intro hrefused
      by_contra hin
      rw [blFsFileRead_refused hsize hcount hrefused] at hinside
      exact hshown (hinside (not_lt.1 hin)).symm
    · intro hout
      by_contra hserved
      rw [blFsFileRead_served hsize hcount hserved] at hbeyond
      exact hshown (hbeyond hout)
  · intro h m buffer bypassCache
    exact ⟨fun hin => blFsFileRead_served hsize hcount fun hrefused => not_lt.2 hin (h.1 hrefused),
      fun hout => blFsFileRead_refused hsize hcount (h.2 hout)⟩

end

/-- Exactly which requests are treated as their range asks for. -/
theorem blFsFileRead_bounded_iff (fw : Firmware) (part : BlPartition) (superblock : BiSuperblock)
    (bytes : ByteMemory) (count : BitVec 32) (position : BitVec 64) :
    FileReadBounded fw part (.ofSuperblock superblock) (.ofBytes bytes) count.toNat position.toNat ↔
      count = 0 ∨ biInodeSize (.ofSuperblock superblock) (.ofBytes bytes) ≤ position.toNat ∨
        (count.toNat ≤ biInodeSize (.ofSuperblock superblock) (.ofBytes bytes) - position.toNat ∧
          biInodeSize (.ofSuperblock superblock) (.ofBytes bytes) - position.toNat + count.toNat ≤
            18446744073709551616) := by
  by_cases hcount : count = 0
  · subst hcount
    exact iff_of_true fileReadBounded_zero (.inl rfl)
  · have hcount' : count.toNat ≠ 0 := fun h => hcount (BitVec.eq_of_toNat_eq h)
    rw [fileReadBounded_iff (shl32_one_ne_zero _) (biInodeSize_lt _ bytes) hcount',
      or_iff_right hcount]
    omega

/-- The header of a kernel file of five bytes. -/
theorem blFsFileRead_header_fails :
    ¬FileReadBounded (farVolume 10 64#32 (by decide)).fw (farVolume 10 64#32 (by decide)).part
      (farVolume 10 64#32 (by decide)).fs (.ofBytes (write32 (write16 (fun _ => 0) 0 typeReg) 4 5))
      32 0 := by
  have hblock : (farVolume 10 64#32 (by decide)).fs.blockSize ≠ 0 := shl32_one_ne_zero _
  generalize farVolume 10 64#32 (by decide) = vol at hblock ⊢
  have hsize : biInodeSize vol.fs (.ofBytes (write32 (write16 (fun _ => 0) 0 typeReg) 4 5)) = 5 :=
    (biInodeSize_of_small rfl).trans (by decide)
  rw [fileReadBounded_iff hblock (by rw [hsize]; decide) (by decide), hsize]
  decide

end XrLinux.Bootloader
