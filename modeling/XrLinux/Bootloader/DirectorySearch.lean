import XrLinux.Bootloader.FindInode

/-!
# Bootloader — `BiFindEntryInDirectory` with everything it touches

The loop of `Path.lean` once more, now with the whole entry that it hands out, with the buffer it
reads names into, and with two lists that the code does not have: what it asked `BiReadFromInode` for,
and the offsets it compared with the size of the directory, the last one first in both.

`SearchRun` is the search on the bytes of the directory, as long as it stays inside them.
-/

namespace XrLinux.Bootloader

open Prog ByteMemory

/-- `struct BiEntry`. -/
structure BiEntry where
  inode : Nat
  size : Nat
  nameLength : Nat
  type : Nat
  deriving DecidableEq

def BiEntry.ofBytes (m : ByteMemory) : BiEntry where
  inode := m.read32 0
  size := m.read16 4
  nameLength := (m 6).toNat
  type := (m 7).toNat

/-- `buffers` are the buffers that are allocated, `next` is the one to come. -/
structure SearchState where
  disk : DiskState
  buffers : List Nat
  next : Nat
  reads : List (Nat × Nat)
  compared : List Nat

abbrev SearchProg := Prog SearchState FsStop

/-- `BL_ALLOCATE(char, size)`, which is `nullptr` for a size of 0. -/
def allocateBuffer (size : Nat) : SearchProg Nat :=
  if size = 0 then pure 0
  else do
    let buffer := (← Prog.get).next + 1
    Prog.modify fun s => { s with buffers := buffer :: s.buffers, next := buffer }
    return buffer

/-- `BlFreeHeap(buffer)`. -/
def freeBuffer (buffer : Nat) : SearchProg Unit :=
  if buffer = 0 then pure ()
  else do
    if buffer ∈ (← Prog.get).buffers then
      Prog.modify fun s => { s with buffers := s.buffers.erase buffer }
    else Prog.stop .invalidFree

/-- A comparison of the size of the directory with `offset`. -/
def compareAt (offset : Nat) : SearchProg Unit :=
  Prog.modify fun s => { s with compared := offset :: s.compared }

def searchDisk {α : Type} (p : DiskProg α) : SearchProg α := fun s =>
  match p.run s.disk with
  | (.ok a, disk) => (.ok a, { s with disk })
  | (.error e, disk) => (.error (.stop e), { s with disk })

section
variable (fw : Firmware) (part : BlPartition) (fs : Fs)

/-- `BiReadFromInode(dir, …, count, offset, false)`. -/
def readDirectory (dir : BiInode) (count offset : Nat) : SearchProg ByteMemory := do
  Prog.modify fun s => { s with reads := (offset, count) :: s.reads }
  searchDisk (biReadFromInode fw part fs dir (fun _ => 0) 0 count offset false)

/-- The body of the loop of `BiFindEntryInDirectory`, with the exits; `next` is the rounds to come. -/
def searchRecord (dir : BiInode) (name : List (BitVec 8)) (buffer : Nat)
    (next : Nat → SearchProg (Option BiEntry)) (offset : Nat) : SearchProg (Option BiEntry) :=
  if sub64 (biInodeSize fs dir) offset < entrySize then do
    freeBuffer buffer
    return none
  else do
    let out := BiEntry.ofBytes (← readDirectory fw part fs dir entrySize offset)
    if (fs.hasDirTypes ∨ out.type = 0) ∧ out.inode ≠ 0 ∧ out.nameLength = name.length then do
      let read ← readDirectory fw part fs dir name.length (add64 offset entrySize)
      if bytesOf read name.length = name then do
        freeBuffer buffer
        return some out
      else next (add64 offset out.size)
    else next (add64 offset out.size)

/-- The loop, for `fuel` rounds at most. -/
def searchRecords (dir : BiInode) (name : List (BitVec 8)) (buffer : Nat) :
    Nat → Nat → SearchProg (Option BiEntry)
  | 0, _ => Prog.stop (.stop .diverges)
  | fuel + 1, offset => do
    compareAt offset
    searchRecord fw part fs dir name buffer (searchRecords dir name buffer fuel) offset

/-- `BiFindEntryInDirectory`: the entry in `*out`, when it returns true. -/
def searchDirectory (fuel : Nat) (dir : BiInode) (name : List (BitVec 8)) :
    SearchProg (Option BiEntry) :=
  if name.length > maxNameLen then pure none
  else do
    let buffer ← allocateBuffer name.length
    searchRecords fw part fs dir name buffer fuel 0

end

/-! ## The search on the bytes -/

/-- The record at an offset. -/
def entryAt (data : ByteMemory) (offset : Nat) : BiEntry :=
  .ofBytes fun i => data (offset + i)

/-- The record is in use, and its name as long as the one that is looked for. -/
def Candidate (data : ByteMemory) (hasTypes : Bool) (name : List (BitVec 8)) (offset : Nat) : Prop :=
  (hasTypes ∨ (entryAt data offset).type = 0) ∧ (entryAt data offset).inode ≠ 0 ∧
    (entryAt data offset).nameLength = name.length

instance decidableCandidate (data : ByteMemory) (hasTypes : Bool) (name : List (BitVec 8))
    (offset : Nat) : Decidable (Candidate data hasTypes name offset) :=
  inferInstanceAs (Decidable (_ ∧ _ ∧ _))

/-- It is the one. -/
def Matches (data : ByteMemory) (hasTypes : Bool) (name : List (BitVec 8)) (offset : Nat) : Prop :=
  Candidate data hasTypes name offset ∧ recordName data offset = name

instance decidableMatches (data : ByteMemory) (hasTypes : Bool) (name : List (BitVec 8))
    (offset : Nat) : Decidable (Matches data hasTypes name offset) :=
  inferInstanceAs (Decidable (_ ∧ _))

section
variable (data : ByteMemory) (hasTypes : Bool) (size : Nat) (name : List (BitVec 8))

/-- The search from an offset on comes to an end, inside the directory, with this result. -/
inductive SearchRun : Nat → Option BiEntry → Prop
  | finish {offset : Nat} (hle : offset ≤ size) (hend : size < offset + entrySize) :
      SearchRun offset none
  | found {offset : Nat} (hin : offset + entrySize + name.length ≤ size)
      (hmatch : Matches data hasTypes name offset) : SearchRun offset (some (entryAt data offset))
  | pass {offset : Nat} {r : Option BiEntry} (hin : offset + entrySize ≤ size)
      (hname : Candidate data hasTypes name offset → offset + entrySize + name.length ≤ size)
      (hother : ¬Matches data hasTypes name offset)
      (hrest : SearchRun (offset + (entryAt data offset).size) r) : SearchRun offset r

end

section
variable {data : ByteMemory} {hasTypes : Bool} {size offset : Nat} {name : List (BitVec 8)}
  {r : Option BiEntry}

theorem SearchRun.le (h : SearchRun data hasTypes size name offset r) : offset ≤ size := by
  cases h with
  | finish hle hend => exact hle
  | found hin hmatch => omega
  | pass hin hname hother hrest => omega

theorem entryAt_size_lt (data : ByteMemory) (offset : Nat) : (entryAt data offset).size < 65536 := by
  show ByteMemory.read16 (fun i => data (offset + i)) 4 < 65536
  rw [read16_eq]
  exact Nat.mod_lt _ (by decide)

/-- Two memories with the same first bytes have the same entry there. -/
theorem BiEntry.ofBytes_congr {m m' : ByteMemory} (h : ∀ i < entrySize, m i = m' i) :
    BiEntry.ofBytes m = BiEntry.ofBytes m' := by
  unfold BiEntry.ofBytes read32 read16
  rw [h 0 (by decide), h (0 + 1) (by decide), h (0 + 2) (by decide), h (0 + 3) (by decide),
    h 4 (by decide), h (4 + 1) (by decide), h 6 (by decide), h 7 (by decide)]

end

/-! ## What stays -/

/-- Reads and comparisons are only ever added. -/
def SearchState.Extends (s s' : SearchState) : Prop :=
  s.reads ⊆ s'.reads ∧ s.compared ⊆ s'.compared

theorem SearchState.Extends.refl (s : SearchState) : s.Extends s :=
  ⟨List.Subset.refl _, List.Subset.refl _⟩

theorem SearchState.Extends.trans (s t u : SearchState) (h : s.Extends t) (h' : t.Extends u) :
    s.Extends u :=
  ⟨List.Subset.trans h.1 h'.1, List.Subset.trans h.2 h'.2⟩

section
variable {fw : Firmware} {part : BlPartition} {fs : Fs} {dir : BiInode} {name : List (BitVec 8)}

theorem post_searchDisk {α : Type} {p : DiskProg α} {s : SearchState} {Q : α → SearchState → Prop}
    {E : FsStop → SearchState → Prop} :
    Post (searchDisk p) s Q E ↔
      Post p s.disk (fun a disk => Q a { s with disk }) fun e disk => E (.stop e) { s with disk } := by
  unfold Post
  rcases hrun : p.run s.disk with ⟨e | a, disk⟩
  · have hstop : (searchDisk p).run s = (.error (.stop e), { s with disk }) := by
      show searchDisk p s = _
      simp only [searchDisk, hrun]
    rw [hstop]
  · have hok : (searchDisk p).run s = (.ok a, { s with disk }) := by
      show searchDisk p s = _
      simp only [searchDisk, hrun]
    rw [hok]

theorem readDirectory_extends (count offset : Nat) :
    Keeps SearchState.Extends (readDirectory fw part fs dir count offset) := by
  refine Keeps.bind SearchState.Extends.trans ?_ fun _ s => ?_
  · exact Keeps.modify fun s => ⟨List.subset_cons_self _ _, List.Subset.refl _⟩
  · rw [post_searchDisk]
    exact (Post.trivial _ _).mono (fun _ disk _ => SearchState.Extends.refl s)
      fun _ disk _ => SearchState.Extends.refl s

theorem freeBuffer_extends (buffer : Nat) : Keeps SearchState.Extends (freeBuffer buffer) := by
  unfold freeBuffer
  split
  · exact Keeps.pure SearchState.Extends.refl _
  · refine Keeps.bind SearchState.Extends.trans (Keeps.get SearchState.Extends.refl) fun s => ?_
    split
    · exact Keeps.modify fun s => SearchState.Extends.refl s
    · exact Keeps.stop SearchState.Extends.refl _

theorem searchRecord_extends {next : Nat → SearchProg (Option BiEntry)}
    (hnext : ∀ offset, Keeps SearchState.Extends (next offset)) (buffer offset : Nat) :
    Keeps SearchState.Extends (searchRecord fw part fs dir name buffer next offset) := by
  have hexit : ∀ r : Option BiEntry,
      Keeps SearchState.Extends (freeBuffer buffer >>= fun _ => pure r) := fun r =>
    Keeps.bind SearchState.Extends.trans (freeBuffer_extends buffer) fun _ =>
      Keeps.pure SearchState.Extends.refl r
  unfold searchRecord
  split
  · exact hexit none
  · refine Keeps.bind SearchState.Extends.trans (readDirectory_extends _ _) fun out => ?_
    dsimp only
    split
    · refine Keeps.bind SearchState.Extends.trans (readDirectory_extends _ _) fun read => ?_
      split
      · exact hexit _
      · exact hnext _
    · exact hnext _

theorem searchRecords_extends (buffer fuel offset : Nat) :
    Keeps SearchState.Extends (searchRecords fw part fs dir name buffer fuel offset) := by
  induction fuel generalizing offset with
  | zero => exact Keeps.stop SearchState.Extends.refl _
  | succ fuel ih =>
    refine Keeps.bind SearchState.Extends.trans ?_ fun _ => searchRecord_extends ih buffer offset
    exact Keeps.modify fun s => ⟨List.Subset.refl _, List.subset_cons_self _ _⟩

end

/-! ## A round -/

/-- Everything asked for so far is in a directory of this size. -/
def SearchState.Inside (size : Nat) (s : SearchState) : Prop :=
  (∀ read ∈ s.reads, read.1 + read.2 ≤ size) ∧ ∀ offset ∈ s.compared, offset ≤ size

/-- The disk has been read, and otherwise nothing but the two lists has changed. -/
structure SearchState.Reads (vol : Volume) (size : Nat) (s s' : SearchState) : Prop where
  steady : vol.Steady s'.disk
  buffers : s'.buffers = s.buffers
  inside : s.Inside size → s'.Inside size

theorem SearchState.Inside.of_extends {size : Nat} {s s' : SearchState} (h : s.Extends s')
    (hs' : s'.Inside size) : s.Inside size :=
  ⟨fun read hread => hs'.1 read (h.1 hread), fun offset hoffset => hs'.2 offset (h.2 hoffset)⟩

section
variable {vol : Volume} {dir : BiInode} {data : ByteMemory} {s : SearchState}
  {name : List (BitVec 8)} {offset fuel buffer count : Nat}

/-- The way on, from what a program returns. -/
theorem returns_bind_iff {σ ε α β : Type} {p : Prog σ ε α} {f : α → Prog σ ε β} {s s' : σ} {a : α}
    (hrun : p.run s = (.ok a, s')) (Q : β → σ → Prop) :
    Returns (p >>= f) s Q ↔ Returns (f a) s' Q := by
  unfold Returns Post
  rw [run_bind_ok hrun]

theorem readDirectory_run (hdir : vol.Holds dir data) (hs : vol.Steady s.disk)
    (hin : offset + count ≤ biInodeSize vol.fs dir) :
    ∃ m s', (readDirectory vol.fw vol.part vol.fs dir count offset).run s = (.ok m, s') ∧
      s.Reads vol (biInodeSize vol.fs dir) s' ∧ ∀ i < count, m i = data (offset + i) := by
  have hreturns : Returns (readDirectory vol.fw vol.part vol.fs dir count offset) s
      fun m s' => s.Reads vol (biInodeSize vol.fs dir) s' ∧ ∀ i < count, m i = data (offset + i) := by
    unfold readDirectory Returns
    rw [post_bind, post_modify, post_searchDisk]
    refine (hdir.returns offset count s.disk hs hin).mono ?_
    rintro m disk ⟨hdisk, hbytes⟩
    refine ⟨⟨hdisk, rfl, fun hinside => ⟨?_, hinside.2⟩⟩, hbytes⟩
    intro read hread
    rcases List.mem_cons.1 hread with rfl | hread
    · exact hin
    · exact hinside.1 read hread
  exact returns_iff.1 hreturns

/-- The program after a record has been read. -/
def afterRecord (vol : Volume) (dir : BiInode) (data : ByteMemory) (name : List (BitVec 8))
    (buffer fuel offset : Nat) : SearchProg (Option BiEntry) :=
  let rest := searchRecords vol.fw vol.part vol.fs dir name buffer fuel
    (offset + (entryAt data offset).size)
  if Candidate data vol.fs.hasDirTypes name offset then do
    let read ← readDirectory vol.fw vol.part vol.fs dir name.length (offset + entrySize)
    if bytesOf read name.length = name then do
      freeBuffer buffer
      return some (entryAt data offset)
    else rest
  else rest

/-- A round with a record that is in the directory. -/
theorem searchRecords_record (name : List (BitVec 8)) (buffer fuel : Nat)
    (hdir : vol.Holds dir data) (hs : vol.Steady s.disk)
    (hin : offset + entrySize ≤ biInodeSize vol.fs dir) :
    ∃ s', s.Reads vol (biInodeSize vol.fs dir) s' ∧ ∀ Q,
      Returns (searchRecords vol.fw vol.part vol.fs dir name buffer (fuel + 1) offset) s Q ↔
        Returns (afterRecord vol dir data name buffer fuel offset) s' Q := by
  have hfile := hdir.size_lt
  have hmore : ¬sub64 (biInodeSize vol.fs dir) offset < entrySize := by
    unfold sub64 entrySize at *
    omega
  have hnext : add64 offset (entryAt data offset).size = offset + (entryAt data offset).size := by
    have := entryAt_size_lt data offset
    unfold add64
    omega
  have hname : add64 offset entrySize = offset + entrySize := Nat.mod_eq_of_lt (by omega)
  obtain ⟨m, s', hrun, hreads, hbytes⟩ :=
    readDirectory_run (s := { s with compared := offset :: s.compared }) hdir hs hin
  refine ⟨s', ⟨hreads.steady, hreads.buffers, fun hinside => hreads.inside ⟨hinside.1, ?_⟩⟩, ?_⟩
  · intro offset' hoffset'
    rcases List.mem_cons.1 hoffset' with rfl | hoffset'
    · omega
    · exact hinside.2 offset' hoffset'
  · intro Q
    have hentry : BiEntry.ofBytes m = entryAt data offset := BiEntry.ofBytes_congr hbytes
    unfold searchRecords Returns compareAt searchRecord
    rw [post_bind, post_modify, if_neg hmore]
    refine (returns_bind_iff hrun Q).trans ?_
    dsimp only
    rw [hentry, hnext, hname]
    rfl

/-- The name of a candidate that is in the directory. -/
theorem afterRecord_candidate (buffer fuel : Nat) (hdir : vol.Holds dir data)
    (hs : vol.Steady s.disk) (hcandidate : Candidate data vol.fs.hasDirTypes name offset)
    (hin : offset + entrySize + name.length ≤ biInodeSize vol.fs dir) :
    ∃ s', s.Reads vol (biInodeSize vol.fs dir) s' ∧ ∀ Q,
      Returns (afterRecord vol dir data name buffer fuel offset) s Q ↔
        Returns (if recordName data offset = name then do
            freeBuffer buffer
            return some (entryAt data offset)
          else searchRecords vol.fw vol.part vol.fs dir name buffer fuel
            (offset + (entryAt data offset).size)) s' Q := by
  obtain ⟨m, s', hrun, hreads, hbytes⟩ := readDirectory_run hdir hs hin
  refine ⟨s', hreads, fun Q => ?_⟩
  have hlength : (data (offset + 6)).toNat = name.length := hcandidate.2.2
  have hname : bytesOf m name.length = recordName data offset := by
    unfold bytesOf recordName
    rw [hlength]
    exact List.map_congr_left fun i hi => hbytes i (List.mem_range.1 hi)
  unfold afterRecord
  rw [if_pos hcandidate]
  refine (returns_bind_iff hrun Q).trans ?_
  rw [hname]

/-! ## A search that stays inside -/

/-- The buffers while the search has one. -/
def heldBuffers (buffer : Nat) (before : List Nat) : List Nat :=
  if buffer = 0 then before else buffer :: before

theorem freeBuffer_returns {before : List Nat} (hheld : s.buffers = heldBuffers buffer before)
    {α : Type} {p : SearchProg α} {Q : α → SearchState → Prop}
    (h : Returns p { s with buffers := before } Q) : Returns (freeBuffer buffer >>= fun _ => p) s Q := by
  unfold heldBuffers at hheld
  unfold freeBuffer Returns
  split
  · rename_i hnull
    rw [if_pos hnull] at hheld
    rw [← hheld] at h
    exact h
  · rename_i hnull
    rw [if_neg hnull] at hheld
    have hmem : buffer ∈ s.buffers := hheld ▸ List.mem_cons_self
    rw [post_bind, post_bind, post_get, if_pos hmem, post_modify, hheld, List.erase_cons_head]
    exact h

theorem allocateBuffer_returns {α : Type} {f : Nat → SearchProg α} {Q : α → SearchState → Prop}
    (h : ∀ buffer next, Returns (f buffer)
      { s with buffers := heldBuffers buffer s.buffers, next } Q) :
    Returns (allocateBuffer count >>= f) s Q := by
  unfold allocateBuffer
  by_cases hcount : count = 0
  · rw [if_pos hcount]
    exact h 0 s.next
  · rw [if_neg hcount]
    exact h (s.next + 1) (s.next + 1)

/-- Without the buffer and the lists this is the loop of `Path.lean`. -/
theorem searchRecords_erases {fw : Firmware} {part : BlPartition} {fs : Fs} (before : List Nat)
    {Q : Option Nat → DiskState → Prop} {E : Stop → DiskState → Prop}
    (hheld : s.buffers = heldBuffers buffer before)
    (h : Post (findEntry fw part fs dir name fuel offset) s.disk Q E) :
    Post (searchRecords fw part fs dir name buffer fuel offset) s
      (fun r s' => Q (r.map BiEntry.inode) s'.disk) fun e s' => ∃ e', e = .stop e' ∧ E e' s'.disk := by
  induction fuel generalizing s offset with
  | zero => exact ⟨.diverges, rfl, h⟩
  | succ fuel ih =>
    have hfree : ∀ {t : SearchState} {r : Option BiEntry}, t.buffers = heldBuffers buffer before →
        Q (r.map BiEntry.inode) t.disk →
        Post (freeBuffer buffer >>= fun _ => pure r) t (fun r s' => Q (r.map BiEntry.inode) s'.disk)
          fun e s' => ∃ e', e = .stop e' ∧ E e' s'.disk :=
      fun ht hQ => Returns.post (freeBuffer_returns ht hQ)
    unfold searchRecords compareAt searchRecord
    unfold findEntry at h
    rw [post_bind, post_modify]
    split
    · rename_i hend
      rw [if_pos hend] at h
      exact hfree (r := none) hheld h
    · rename_i hmore
      rw [if_neg hmore, post_bind] at h
      unfold readDirectory
      rw [post_bind, post_bind, post_modify, post_searchDisk]
      refine h.mono (fun out disk hout => ?_) fun e disk he => ⟨e, rfl, he⟩
      dsimp only at hout ⊢
      have hsame : ((fs.hasDirTypes = true ∨ (BiEntry.ofBytes out).type = 0) ∧
          (BiEntry.ofBytes out).inode ≠ 0 ∧ (BiEntry.ofBytes out).nameLength = name.length) =
          ((fs.hasDirTypes = true ∨ (out 7).toNat = 0) ∧ out.read32 0 ≠ 0 ∧
            (out 6).toNat = name.length) := rfl
      by_cases hcandidate : (fs.hasDirTypes = true ∨ (out 7).toNat = 0) ∧ out.read32 0 ≠ 0 ∧
          (out 6).toNat = name.length
      · have hlength := hcandidate.2.2
        rw [if_pos hcandidate, post_bind, hlength] at hout
        rw [if_pos (hsame.mpr hcandidate), post_bind, post_bind, post_modify,
          post_searchDisk]
        refine hout.mono (fun read disk' hread => ?_) fun e disk' he => ⟨e, rfl, he⟩
        split
        · rename_i hname
          rw [if_pos hname] at hread
          exact hfree (r := some (BiEntry.ofBytes out)) hheld hread
        · rename_i hname
          rw [if_neg hname] at hread
          exact ih hheld hread
      · rw [if_neg hcandidate] at hout
        rw [if_neg (hsame ▸ hcandidate)]
        exact ih hheld hout

theorem searchDirectory_erases {fw : Firmware} {part : BlPartition} {fs : Fs}
    {Q : Option Nat → DiskState → Prop} {E : Stop → DiskState → Prop}
    (h : Post (biFindEntryInDirectory fw part fs fuel dir name) s.disk Q E) :
    Post (searchDirectory fw part fs fuel dir name) s
      (fun r s' => Q (r.map BiEntry.inode) s'.disk) fun e s' => ∃ e', e = .stop e' ∧ E e' s'.disk := by
  unfold biFindEntryInDirectory at h
  unfold searchDirectory
  split
  · rename_i hlong
    rw [if_pos hlong] at h
    exact h
  · rename_i hshort
    rw [if_neg hshort] at h
    unfold allocateBuffer
    by_cases hempty : name.length = 0
    · rw [if_pos hempty]
      exact searchRecords_erases s.buffers (by rw [heldBuffers, if_pos rfl]) h
    · rw [if_neg hempty]
      refine searchRecords_erases s.buffers ?_ h
      rw [heldBuffers, if_neg (Nat.succ_ne_zero _)]

/-- What is left of a search that came to its end. -/
structure SearchState.Searched (vol : Volume) (size : Nat) (before : List Nat) (s s' : SearchState) :
    Prop where
  steady : vol.Steady s'.disk
  buffers : s'.buffers = before
  inside : s.Inside size → s'.Inside size

/-- The loop does what the search on the bytes does, and frees the buffer. -/
theorem SearchRun.returns (hdir : vol.Holds dir data) {r : Option BiEntry}
    (hrun : SearchRun data vol.fs.hasDirTypes (biInodeSize vol.fs dir) name offset r) :
    ∃ rounds, ∀ fuel ≥ rounds, ∀ buffer before s, vol.Steady s.disk →
      s.buffers = heldBuffers buffer before → Returns (searchRecords vol.fw vol.part vol.fs dir name buffer fuel offset) s
        fun r' s' => r' = r ∧ s.Searched vol (biInodeSize vol.fs dir) before s' := by
  induction hrun with
  | @finish offset hle hend =>
    refine ⟨1, fun fuel hfuel buffer before s hs hheld => ?_⟩
    obtain ⟨fuel, rfl⟩ := Nat.exists_eq_add_of_le' hfuel
    have hshort : sub64 (biInodeSize vol.fs dir) offset < entrySize := by
      have := hdir.size_lt
      unfold sub64 entrySize at *
      omega
    unfold searchRecords Returns compareAt searchRecord
    rw [post_bind, post_modify, if_pos hshort]
    refine freeBuffer_returns (s := { s with compared := offset :: s.compared }) hheld ?_
    refine ⟨rfl, hs, rfl, fun hinside => ⟨hinside.1, fun offset' hoffset' => ?_⟩⟩
    rcases List.mem_cons.1 hoffset' with rfl | hoffset'
    · exact hle
    · exact hinside.2 offset' hoffset'
  | @found offset hin hmatch =>
    refine ⟨1, fun fuel hfuel buffer before s hs hheld => ?_⟩
    obtain ⟨fuel, rfl⟩ := Nat.exists_eq_add_of_le' hfuel
    obtain ⟨s₁, hs₁, hround⟩ := searchRecords_record name buffer fuel hdir hs
      (show offset + entrySize ≤ _ by omega)
    obtain ⟨s₂, hs₂, hname⟩ := afterRecord_candidate buffer fuel hdir hs₁.steady hmatch.1 hin
    rw [hround, hname, if_pos hmatch.2]
    refine freeBuffer_returns (s := s₂) ((hs₂.buffers.trans hs₁.buffers).trans hheld) ?_
    exact ⟨rfl, hs₂.steady, rfl, fun hinside => hs₂.inside (hs₁.inside hinside)⟩
  | @pass offset r hin hname hother hrest ih =>
    obtain ⟨rounds, hrounds⟩ := ih
    refine ⟨rounds + 1, fun fuel hfuel buffer before s hs hheld => ?_⟩
    obtain ⟨fuel, rfl⟩ := Nat.exists_eq_add_of_le' (Nat.le_trans (Nat.le_add_left 1 rounds) hfuel)
    have hfuel' : fuel ≥ rounds := by omega
    obtain ⟨s₁, hs₁, hround⟩ := searchRecords_record name buffer fuel hdir hs hin
    rw [hround]
    by_cases hcandidate : Candidate data vol.fs.hasDirTypes name offset
    · obtain ⟨s₂, hs₂, hread⟩ := afterRecord_candidate buffer fuel hdir hs₁.steady hcandidate
        (hname hcandidate)
      rw [hread, if_neg fun heq => hother ⟨hcandidate, heq⟩]
      refine (hrounds fuel hfuel' buffer before s₂ hs₂.steady
        ((hs₂.buffers.trans hs₁.buffers).trans hheld)).mono ?_
      rintro r' s' ⟨hr, hs'⟩
      exact ⟨hr, hs'.steady, hs'.buffers, fun hinside => hs'.inside (hs₂.inside (hs₁.inside hinside))⟩
    · unfold afterRecord
      rw [if_neg hcandidate]
      refine (hrounds fuel hfuel' buffer before s₁ hs₁.steady (hs₁.buffers.trans hheld)).mono ?_
      rintro r' s' ⟨hr, hs'⟩
      exact ⟨hr, hs'.steady, hs'.buffers, fun hinside => hs'.inside (hs₁.inside hinside)⟩

theorem searchDirectory_short (hname : name.length ≤ maxNameLen) :
    searchDirectory vol.fw vol.part vol.fs fuel dir name = (do
      let buffer ← allocateBuffer name.length
      searchRecords vol.fw vol.part vol.fs dir name buffer fuel 0) :=
  if_neg (not_lt.2 hname)

theorem searchDirectory_long (hname : maxNameLen < name.length) :
    searchDirectory vol.fw vol.part vol.fs fuel dir name = pure none :=
  if_pos hname

/-- From the first record on, with a buffer of its own. -/
theorem searchDirectory_of_run (hdir : vol.Holds dir data) {r : Option BiEntry}
    (hname : name.length ≤ maxNameLen)
    (hrun : SearchRun data vol.fs.hasDirTypes (biInodeSize vol.fs dir) name 0 r) :
    ∃ rounds, ∀ fuel ≥ rounds, ∀ s, vol.Steady s.disk →
      Returns (searchDirectory vol.fw vol.part vol.fs fuel dir name) s fun r' s' =>
        r' = r ∧ s.Searched vol (biInodeSize vol.fs dir) s.buffers s' := by
  obtain ⟨rounds, hrounds⟩ := hrun.returns hdir
  refine ⟨rounds, fun fuel hfuel s hs => ?_⟩
  rw [searchDirectory_short hname]
  refine allocateBuffer_returns fun buffer next => ?_
  refine (hrounds fuel hfuel buffer s.buffers _ ?_ ?_).mono ?_
  · exact hs
  · rfl
  · rintro r' s' ⟨hr, hs'⟩
    exact ⟨hr, hs'.steady, hs'.buffers, hs'.inside⟩

end

/-! ## Packed directories -/

section
variable (data : ByteMemory) (hasTypes : Bool) (size : Nat)

/-- The offsets of the records from an offset on: each is as long as its name needs at least, and the
last one ends with the directory. Without `BI_DIR_TYPES` what would be the type is the rest of the
length of the name. -/
inductive Packed : Nat → List Nat → Prop
  | done : Packed size []
  | record {offset : Nat} {offsets : List Nat} (hsize : entrySize ≤ (entryAt data offset).size)
      (hlive : (entryAt data offset).inode ≠ 0 →
        entrySize + (entryAt data offset).nameLength ≤ (entryAt data offset).size ∧
          (hasTypes ∨ (entryAt data offset).type = 0))
      (hrest : Packed (offset + (entryAt data offset).size) offsets) :
      Packed offset (offset :: offsets)

end

/-- The entry of the first live record of a name. -/
def firstLive (data : ByteMemory) (offsets : List Nat) (name : List (BitVec 8)) : Option BiEntry :=
  (offsets.find? fun offset => (entryAt data offset).inode ≠ 0 ∧ recordName data offset = name).map
    (entryAt data)

section
variable {data : ByteMemory} {hasTypes : Bool} {size offset : Nat} {offsets : List Nat}

theorem Packed.le (h : Packed data hasTypes size offset offsets) : offset ≤ size := by
  induction h with
  | done => exact Nat.le_refl _
  | record hsize hlive hrest ih => omega

theorem Packed.searchRun (h : Packed data hasTypes size offset offsets) (name : List (BitVec 8)) :
    SearchRun data hasTypes size name offset (firstLive data offsets name) := by
  induction h with
  | done => exact .finish (Nat.le_refl _) (Nat.lt_add_of_pos_right (by decide))
  | @record offset offsets hsize hlive hrest ih =>
    have hle := hrest.le
    by_cases hmatch : (entryAt data offset).inode ≠ 0 ∧ recordName data offset = name
    · obtain ⟨hinode, hname⟩ := hmatch
      have hlength : (entryAt data offset).nameLength = name.length := by
        rw [← hname, recordName_length]
        rfl
      have hfirst : firstLive data (offset :: offsets) name = some (entryAt data offset) := by
        unfold firstLive
        rw [List.find?_cons_of_pos (by simpa using ⟨hinode, hname⟩)]
        rfl
      rw [hfirst]
      obtain ⟨hlong, htype⟩ := hlive hinode
      exact .found (by omega) ⟨⟨htype, hinode, hlength⟩, hname⟩
    · have hskip : firstLive data (offset :: offsets) name = firstLive data offsets name := by
        unfold firstLive
        rw [List.find?_cons_of_neg (by simpa using hmatch)]
      rw [hskip]
      refine .pass (by omega) (fun hcandidate => ?_) (fun hmatches => ?_) ih
      · have hlong := (hlive hcandidate.2.1).1
        have hlength := hcandidate.2.2
        omega
      · exact hmatch ⟨hmatches.1.2.1, hmatches.2⟩

end

theorem recordName_le (data : ByteMemory) (offset : Nat) :
    (recordName data offset).length ≤ maxNameLen := by
  rw [recordName_length]
  exact Nat.le_of_lt_succ (data (offset + 6)).isLt

/-- A packed directory is searched to its first live record of the name, or to its end, and the buffer
is free again. -/
theorem searchDirectory_returns {vol : Volume} {dir : BiInode} {map : Nat → Nat} {offsets : List Nat}
    (hmaps : vol.Maps dir map) (hpacked : Packed (vol.fileByte map) vol.fs.hasDirTypes
      (biInodeSize vol.fs dir) 0 offsets) (name : List (BitVec 8)) :
    ∃ rounds, ∀ fuel ≥ rounds, ∀ s, vol.Steady s.disk →
      Returns (searchDirectory vol.fw vol.part vol.fs fuel dir name) s fun r s' =>
        r = firstLive (vol.fileByte map) offsets name ∧
          s.Searched vol (biInodeSize vol.fs dir) s.buffers s' := by
  by_cases hname : name.length ≤ maxNameLen
  · exact searchDirectory_of_run (.of_maps hmaps) hname (hpacked.searchRun name)
  · refine ⟨0, fun fuel _ s hs => ?_⟩
    rw [searchDirectory_long (not_le.1 hname)]
    -- no name in a record is as long
    have hnone : firstLive (vol.fileByte map) offsets name = none := by
      unfold firstLive
      rw [List.find?_eq_none.2, Option.map_none]
      intro offset hoffset heq
      have hrecord := (of_decide_eq_true heq).2
      exact hname (hrecord ▸ recordName_le _ offset)
    exact ⟨hnone.symm, hs, rfl, id⟩

theorem linkVolume_packed : Packed (linkVolume.fileByte (linkContent 3).directBlocks)
    linkVolume.fs.hasDirTypes (biInodeSize linkVolume.fs (linkContent 3)) 0 [0, 12] := by
  have hsizes : (entryAt (linkVolume.fileByte (linkContent 3).directBlocks) 0).size = 12 ∧
      (entryAt (linkVolume.fileByte (linkContent 3).directBlocks) 12).size = 1012 := by
    decide +kernel
  rw [linkContent_size.2.1]
  refine .record (by decide +kernel) (by decide +kernel) ?_
  rw [hsizes.1]
  refine .record (by decide +kernel) (by decide +kernel) ?_
  rw [hsizes.2]
  exact .done

/-- The directory `/a` of the volume with a link, and the name of the link. -/
theorem searchDirectory_returns_link : ∃ rounds, ∀ fuel ≥ rounds, ∀ s, linkVolume.Steady s.disk →
    Returns (searchDirectory linkVolume.fw linkVolume.part linkVolume.fs fuel (linkContent 3) [0x6c]) s
      fun r s' => r = firstLive (linkVolume.fileByte (linkContent 3).directBlocks) [0, 12] [0x6c] ∧
        s.Searched linkVolume (biInodeSize linkVolume.fs (linkContent 3)) s.buffers s' :=
  searchDirectory_returns (linkContent_maps (.inr (.inl rfl))) linkVolume_packed [0x6c]

end XrLinux.Bootloader
