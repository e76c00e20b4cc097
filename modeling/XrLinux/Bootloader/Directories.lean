import XrLinux.Bootloader.Ownership

/-!
# Bootloader — the files of a volume

A directory is a list of records, one behind the other to its end. `BiFindEntryInDirectory` finds
the first record of its name that is in use; so on a volume whose directories are well formed the
names are those of its graph of directories, links and other inodes.
-/

namespace XrLinux.Bootloader

open Prog ByteMemory PathResolution

/-- Directory entries. -/
abbrev Names := List (List (BitVec 8) × Nat)

/-- The name in the record at an offset. -/
def recordName (data : ByteMemory) (offset : Nat) : List (BitVec 8) :=
  (List.range (data (offset + 6)).toNat).map fun i => data (offset + entrySize + i)

/-- The records of a directory from an offset on, with the entries that are in use. Without
`BI_DIR_TYPES` what would be the type is the rest of the length of the name. -/
inductive Records (data : ByteMemory) (hasTypes : Bool) (size : Nat) : Nat → Names → Prop
  | done : Records data hasTypes size size []
  | unused {offset : Nat} {names : Names} (hinode : data.read32 offset = 0)
      (hsize : entrySize ≤ data.read16 (offset + 4))
      (hrest : Records data hasTypes size (offset + data.read16 (offset + 4)) names) :
      Records data hasTypes size offset names
  | used {offset : Nat} {names : Names} (hinode : data.read32 offset ≠ 0)
      (hsize : entrySize + (data (offset + 6)).toNat ≤ data.read16 (offset + 4))
      (htype : hasTypes = true ∨ data (offset + 7) = 0)
      (hrest : Records data hasTypes size (offset + data.read16 (offset + 4)) names) :
      Records data hasTypes size offset ((recordName data offset, data.read32 offset) :: names)

theorem Records.of_used {data : ByteMemory} {hasTypes : Bool} {size offset inode length : Nat}
    {name : List (BitVec 8)} {names : Names} (hinode : data.read32 offset = inode)
    (hlength : data.read16 (offset + 4) = length) (hname : recordName data offset = name)
    (hused : inode ≠ 0) (hsize : entrySize + (data (offset + 6)).toNat ≤ length)
    (htype : hasTypes = true ∨ data (offset + 7) = 0)
    (hrest : Records data hasTypes size (offset + length) names) :
    Records data hasTypes size offset ((name, inode) :: names) := by
  subst hinode hlength hname
  exact .used hused hsize htype hrest

theorem Records.le {data : ByteMemory} {hasTypes : Bool} {size offset : Nat} {names : Names}
    (h : Records data hasTypes size offset names) : offset ≤ size := by
  induction h with
  | done => exact Nat.le_refl _
  | unused hinode hsize hrest ih => omega
  | used hinode hsize htype hrest ih => omega

/-- The inode of the first entry with a name. -/
def lookupName (names : Names) (name : List (BitVec 8)) : Option Nat :=
  (names.find? fun entry => entry.1 = name).map Prod.snd

theorem lookupName_mem {names : Names} {name : List (BitVec 8)} {k : Nat}
    (h : lookupName names name = some k) : ∃ entry ∈ names, entry.2 = k := by
  obtain ⟨entry, hfind, hk⟩ := Option.map_eq_some_iff.1 h
  exact ⟨entry, List.mem_of_find?_eq_some hfind, hk⟩

theorem recordName_length (data : ByteMemory) (offset : Nat) :
    (recordName data offset).length = (data (offset + 6)).toNat := by
  unfold recordName
  rw [List.length_map, List.length_range]

/-- `BiReadFromInode` reads `data` from the inode. -/
structure Volume.Holds (vol : Volume) (inode : BiInode) (data : ByteMemory) : Prop where
  size_lt : biInodeSize vol.fs inode < 4611686018427387904
  returns : ∀ offset count s, vol.Steady s → offset + count ≤ biInodeSize vol.fs inode →
    Returns (biReadFromInode vol.fw vol.part vol.fs inode (fun _ => 0) 0 count offset false) s
      fun m s' => vol.Steady s' ∧ ∀ i < count, m i = data (offset + i)

section
variable {vol : Volume} {dir : BiInode} {data : ByteMemory} {s : DiskState}
  {name : List (BitVec 8)} {names : Names} {offset fuel : Nat}

theorem Volume.Holds.of_maps {map : Nat → Nat} (hmaps : vol.Maps dir map) :
    vol.Holds dir (vol.fileByte map) := by
  refine ⟨hmaps.size_lt, fun offset count s hs hin => ?_⟩
  refine (biReadFromInode_returns hmaps hs hin fun h => Bool.noConfusion h).mono ?_
  rintro m s' ⟨hs', rfl⟩
  refine ⟨hs', fun i hi => ?_⟩
  have hbyte := put_byte (fun _ => 0) (a := 0) (fun i => vol.fileByte map (offset + i)) hi
  rwa [Nat.zero_add] at hbyte

/-- A round of the loop, with the record it reads. -/
theorem findEntry_succ (hdir : vol.Holds dir data) (hs : vol.Steady s)
    (hin : offset + entrySize ≤ biInodeSize vol.fs dir) {Q : Option Nat → DiskState → Prop}
    (h : ∀ s', vol.Steady s' → Returns
      (if (vol.fs.hasDirTypes ∨ (data (offset + 7)).toNat = 0) ∧ data.read32 offset ≠ 0 ∧
          (data (offset + 6)).toNat = name.length then do
        let buffer ← biReadFromInode vol.fw vol.part vol.fs dir (fun _ => 0) 0
          (data (offset + 6)).toNat (offset + entrySize) false
        if bytesOf buffer (data (offset + 6)).toNat = name then return some (data.read32 offset)
        else findEntry vol.fw vol.part vol.fs dir name fuel (offset + data.read16 (offset + 4))
      else findEntry vol.fw vol.part vol.fs dir name fuel (offset + data.read16 (offset + 4))) s' Q) :
    Returns (findEntry vol.fw vol.part vol.fs dir name (fuel + 1) offset) s Q := by
  have hsize := hdir.size_lt
  have hmore : ¬sub64 (biInodeSize vol.fs dir) offset < entrySize := by
    unfold sub64 entrySize at *
    omega
  have hnext : add64 offset (data.read16 (offset + 4)) = offset + data.read16 (offset + 4) := by
    have hlow := (data (offset + 4)).isLt
    have hhigh := (data (offset + 4 + 1)).isLt
    unfold add64 read16
    omega
  have hname : add64 offset entrySize = offset + entrySize := Nat.mod_eq_of_lt (by omega)
  unfold findEntry
  rw [if_neg hmore]
  refine (hdir.returns offset entrySize s hs hin).bind ?_
  rintro out s' ⟨hs', hout⟩
  have hinode : out.read32 0 = data.read32 offset := by
    simp only [read32, hout (0 + 1) (by decide), hout (0 + 2) (by decide), hout (0 + 3) (by decide),
      hout 0 (by decide), Nat.zero_add, Nat.add_zero]
  have hlength : out.read16 4 = data.read16 (offset + 4) := by
    simp only [read16, hout 4 (by decide), hout (4 + 1) (by decide), Nat.add_assoc]
  dsimp only
  rw [hinode, hlength, hout 6 (by decide), hout 7 (by decide), hnext, hname]
  exact h s' hs'

/-- The name in a record, when it is as long as the one that is looked for. -/
theorem readName_returns (hdir : vol.Holds dir data) (hs : vol.Steady s)
    (hin : offset + entrySize + (data (offset + 6)).toNat ≤ biInodeSize vol.fs dir) {α : Type}
    {f : List (BitVec 8) → DiskProg α} {Q : α → DiskState → Prop}
    (h : ∀ s', vol.Steady s' → Returns (f (recordName data offset)) s' Q) :
    Returns (do
      let buffer ← biReadFromInode vol.fw vol.part vol.fs dir (fun _ => 0) 0
        (data (offset + 6)).toNat (offset + entrySize) false
      f (bytesOf buffer (data (offset + 6)).toNat)) s Q := by
  refine (hdir.returns _ _ s hs hin).bind ?_
  rintro buffer s' ⟨hs', hbuffer⟩
  have hbytes : bytesOf buffer (data (offset + 6)).toNat = recordName data offset := by
    unfold bytesOf recordName
    exact List.map_congr_left fun i hi => hbuffer i (List.mem_range.1 hi)
  rw [hbytes]
  exact h s' hs'

/-- A record that does not match is passed over. -/
theorem findEntry_next (hdir : vol.Holds dir data) (hs : vol.Steady s)
    (hsize : entrySize ≤ data.read16 (offset + 4))
    (hin : offset + data.read16 (offset + 4) ≤ biInodeSize vol.fs dir)
    (hother : data.read32 offset = 0 ∨ entrySize + (data (offset + 6)).toNat ≤
      data.read16 (offset + 4) ∧ recordName data offset ≠ name)
    {Q : Option Nat → DiskState → Prop}
    (hrest : ∀ s', vol.Steady s' → Returns (findEntry vol.fw vol.part vol.fs dir name fuel
      (offset + data.read16 (offset + 4))) s' Q) :
    Returns (findEntry vol.fw vol.part vol.fs dir name (fuel + 1) offset) s Q := by
  refine findEntry_succ hdir hs (by omega) fun s' hs' => ?_
  split
  · rename_i hmatch
    obtain ⟨hlength, hname⟩ := hother.resolve_left hmatch.2.1
    refine readName_returns (f := fun read => if read = name then _ else _) hdir hs' (by omega) fun s'' hs'' => ?_
    rw [if_neg hname]
    exact hrest s'' hs''
  · exact hrest s' hs'

theorem findEntry_found (hdir : vol.Holds dir data) (hs : vol.Steady s)
    (hsize : entrySize + (data (offset + 6)).toNat ≤ data.read16 (offset + 4))
    (hin : offset + data.read16 (offset + 4) ≤ biInodeSize vol.fs dir)
    (hinode : data.read32 offset ≠ 0)
    (htype : vol.fs.hasDirTypes = true ∨ data (offset + 7) = 0)
    (hname : recordName data offset = name) :
    Returns (findEntry vol.fw vol.part vol.fs dir name (fuel + 1) offset) s fun r s' =>
      vol.Steady s' ∧ r = some (data.read32 offset) := by
  have htype : vol.fs.hasDirTypes = true ∨ (data (offset + 7)).toNat = 0 :=
    htype.imp_right fun h => by rw [h]; rfl
  refine findEntry_succ hdir hs (by omega) fun s' hs' => ?_
  rw [if_pos ⟨htype, hinode, by rw [← hname, recordName_length]⟩]
  refine readName_returns (f := fun read => if read = name then _ else _) hdir hs' (by omega) fun s'' hs'' => ?_
  rw [if_pos hname]
  exact ⟨hs'', rfl⟩

theorem findEntry_returns (hdir : vol.Holds dir data)
    (hrecords : Records data vol.fs.hasDirTypes (biInodeSize vol.fs dir) offset names)
    (hfuel : (biInodeSize vol.fs dir - offset) / 8 < fuel) (hs : vol.Steady s) :
    Returns (findEntry vol.fw vol.part vol.fs dir name fuel offset) s fun r s' =>
      vol.Steady s' ∧ r = lookupName names name := by
  obtain ⟨size, hsize⟩ : ∃ size, size = biInodeSize vol.fs dir := ⟨_, rfl⟩
  have hfile := hdir.size_lt
  rw [← hsize] at hrecords hfuel hfile
  induction hrecords generalizing fuel s with
  | done =>
    cases fuel with
    | zero => omega
    | succ fuel =>
      have hend : sub64 (biInodeSize vol.fs dir) size < entrySize := by
        rw [← hsize]
        unfold sub64 entrySize
        omega
      unfold findEntry
      rw [if_pos hend]
      exact ⟨hs, rfl⟩
  | @unused offset names hinode hlength hrest ih =>
    have hle := hrest.le
    have hentry : 8 ≤ data.read16 (offset + 4) := hlength
    cases fuel with
    | zero => omega
    | succ fuel =>
      exact findEntry_next hdir hs hlength (hsize ▸ hle) (.inl hinode) fun s' hs' =>
        ih hs' (by omega)
  | @used offset names hinode hlength htype hrest ih =>
    have hle := hrest.le
    have hentry : 8 ≤ data.read16 (offset + 4) := Nat.le_trans (Nat.le_add_right _ _) hlength
    cases fuel with
    | zero => omega
    | succ fuel =>
      by_cases hname : recordName data offset = name
      · refine (findEntry_found hdir hs hlength (hsize ▸ hle) hinode htype hname).mono ?_
        rintro r s' ⟨hs', rfl⟩
        refine ⟨hs', ?_⟩
        unfold lookupName
        rw [List.find?_cons_of_pos (by simpa using hname)]
        rfl
      · have hskip : lookupName ((recordName data offset, data.read32 offset) :: names) name =
            lookupName names name := by
          unfold lookupName
          rw [List.find?_cons_of_neg (by simpa using hname)]
        rw [hskip]
        exact findEntry_next hdir hs hentry (hsize ▸ hle) (.inr ⟨hlength, hname⟩) fun s' hs' =>
          ih hs' (by omega)

theorem Records.name_le (hrecords : Records data vol.fs.hasDirTypes (biInodeSize vol.fs dir) offset names) :
    ∀ entry ∈ names, entry.1.length ≤ maxNameLen := by
  induction hrecords with
  | done => exact fun entry hentry => absurd hentry List.not_mem_nil
  | unused hinode hsize hrest ih => exact ih
  | @used offset names hinode hsize htype hrest ih =>
    intro entry hentry
    rcases List.mem_cons.1 hentry with rfl | hentry
    · rw [recordName_length]
      exact Nat.le_of_lt_succ (data (offset + 6)).isLt
    · exact ih entry hentry

theorem biFindEntryInDirectory_returns (hdir : vol.Holds dir data)
    (hrecords : Records data vol.fs.hasDirTypes (biInodeSize vol.fs dir) 0 names)
    (hfuel : biInodeSize vol.fs dir / 8 < fuel) (hs : vol.Steady s) :
    Returns (biFindEntryInDirectory vol.fw vol.part vol.fs fuel dir name) s fun r s' =>
      vol.Steady s' ∧ r = lookupName names name := by
  unfold biFindEntryInDirectory
  split
  · rename_i hlong
    -- no name in a record is as long
    have hnone : lookupName names name = none := by
      unfold lookupName
      rw [List.find?_eq_none.2, Option.map_none]
      intro entry hentry heq
      have heq : entry.1 = name := by simpa using heq
      have := hrecords.name_le entry hentry
      rw [heq] at this
      omega
    exact ⟨hs, hnone.symm⟩
  · exact findEntry_returns hdir hrecords hfuel hs

/-- The text of a link. -/
theorem readTarget_returns {link : BiInode} (hlink : vol.Holds link data)
    (hsize : biInodeSize vol.fs link < 4294967296) (hs : vol.Steady s) :
    Returns (readTarget vol.fw vol.part vol.fs link) s fun r s' =>
      vol.Steady s' ∧ r = bytesOf data (biInodeSize vol.fs link) := by
  unfold readTarget
  rw [Nat.mod_eq_of_lt hsize]
  refine (hlink.returns 0 _ s hs (Nat.zero_add _).le).bind ?_
  rintro m s' ⟨hs', hm⟩
  refine ⟨hs', List.map_congr_left fun i hi => ?_⟩
  rw [hm i (List.mem_range.1 hi), Nat.zero_add]

end

/-! ## The graph -/

/-- Directories, links and other inodes on a volume, with everything that the directories lead to. -/
structure Volume.Graph (vol : Volume) where
  Mem : Nat → Prop
  content : Nat → BiInode
  entries : Nat → Names
  target : Nat → List (BitVec 8)
  root_mem : Mem biRootInode
  read : ∀ k, Mem k → outcome (biReadInode vol.fw vol.part vol.fs k) = .ok (content k)
  directory : ∀ k, Mem k → biType (content k).mode = typeDir → ∃ data, vol.Holds (content k) data ∧
    Records data vol.fs.hasDirTypes (biInodeSize vol.fs (content k)) 0 (entries k)
  closed : ∀ k, Mem k → biType (content k).mode = typeDir → ∀ entry ∈ entries k, Mem entry.2
  link : ∀ k, Mem k → biType (content k).mode = typeSym →
    outcome (readTarget vol.fw vol.part vol.fs (content k)) = .ok (target k)

namespace Volume.Graph

variable {vol : Volume} (g : vol.Graph)

def entry (k : Nat) : Entry Nat (BitVec 8) :=
  if biType (g.content k).mode = typeSym then .link (g.target k) else .place k

def names : NameSpace Stop Nat (BitVec 8) where
  root := biRootInode
  isDirectory k := biType (g.content k).mode = typeDir
  lookup k name := .ok ((lookupName (g.entries k) name).map g.entry)
  separator := slash

/-- The place as the walk has it; the inodes that names lead to are copies, the root's as well. -/
def place : Option Nat → Place
  | none => .root
  | some k => .copy (g.content k)

variable {g}

theorem place_inode (n : Option Nat) :
    (g.place n).inode (g.content biRootInode) = g.content (n.getD biRootInode) := by
  cases n <;> rfl

theorem content_size_lt {k : Nat} (hk : g.Mem k) (hdirectory : biType (g.content k).mode = typeDir) :
    biInodeSize vol.fs (g.content k) < 4294967296 := by
  have hread : Post (biReadInode vol.fw vol.part vol.fs k) .init
      (fun content _ => ∃ bytes, content = .ofBytes bytes) fun _ _ => True := by
    unfold biReadInode
    split
    · trivial
    · refine Post.bind (R := fun _ _ => True) (Post.trivial _ _) fun inodeTableBlock s' _ => ?_
      exact Post.bind (R := fun _ _ => True) (Post.trivial _ _) fun out s'' _ => ⟨out, rfl⟩
  have hrun : (biReadInode vol.fw vol.part vol.fs k).run .init =
      (.ok (g.content k), ((biReadInode vol.fw vol.part vol.fs k).run .init).2) :=
    Prod.ext (g.read k hk) rfl
  obtain ⟨bytes, hbytes⟩ := hread.of_run_ok hrun
  unfold biInodeSize
  rw [if_neg fun h => h.2 hdirectory, hbytes]
  exact read32_lt bytes 4

theorem entryAt_eq {k : Nat} (hk : g.Mem k) :
    vol.entryAt k = .ok (((g.entry k).map some).map g.place) := by
  unfold entry
  split
  · rename_i hlink
    rw [entryAt_link (g.read k hk) hlink, g.link k hk hlink]
    rfl
  · rename_i hplace
    exact entryAt_place (g.read k hk) hplace

theorem copies_lookup (n : Option Nat) (name : List (BitVec 8)) :
    g.names.copies.lookup n name =
      .ok ((lookupName (g.entries (n.getD biRootInode)) name).map fun k => (g.entry k).map some) := by
  show Except.ok (((lookupName (g.entries (n.getD biRootInode)) name).map g.entry).map _) = _
  rw [Option.map_map]
  rfl

theorem names_agree {fuel : Nat} (hfuel : 536870912 ≤ fuel) :
    Agrees g.names.copies (vol.names (g.content biRootInode) fuel)
      (fun n => g.Mem (n.getD biRootInode)) g.place where
  separator := rfl
  root := rfl
  root_mem := g.root_mem
  isDirectory n _ := by
    show decide (biType ((g.place n).inode _).mode = typeDir) = _
    rw [place_inode]
    rfl
  lookup n name hn hdirectory := by
    have hdirectory : biType (g.content (n.getD biRootInode)).mode = typeDir :=
      of_decide_eq_true hdirectory
    obtain ⟨data, hholds, hrecords⟩ := g.directory _ hn hdirectory
    have hsize := content_size_lt hn hdirectory
    have hfound : outcome (biFindEntryInDirectory vol.fw vol.part vol.fs fuel
        ((g.place n).inode (g.content biRootInode)) name) =
        .ok (lookupName (g.entries (n.getD biRootInode)) name) := by
      rw [place_inode]
      exact outcome_of_returns fun s hs =>
        biFindEntryInDirectory_returns hholds hrecords (by omega) hs
    rw [copies_lookup]
    cases hk : lookupName (g.entries (n.getD biRootInode)) name with
    | none =>
      rw [hk] at hfound
      exact lookup_none hfound
    | some k =>
      obtain ⟨entry, hentry, rfl⟩ := lookupName_mem hk
      rw [hk] at hfound
      rw [lookup_some hfound, entryAt_eq (g.closed _ hn hdirectory entry hentry)]
      rfl
  closed n name m hn hdirectory hlookup := by
    have hdirectory : biType (g.content (n.getD biRootInode)).mode = typeDir :=
      of_decide_eq_true hdirectory
    rw [copies_lookup] at hlookup
    cases hk : lookupName (g.entries (n.getD biRootInode)) name with
    | none =>
      rw [hk] at hlookup
      cases hlookup
    | some k =>
      obtain ⟨entry, hentry, rfl⟩ := lookupName_mem hk
      rw [hk] at hlookup
      have hplace : (g.entry entry.2).map some = .place m :=
        Option.some.inj (Except.ok.inj hlookup)
      unfold Graph.entry at hplace
      split at hplace
      · cases hplace
      · cases hplace
        exact g.closed _ hn hdirectory entry hentry

end Volume.Graph

end XrLinux.Bootloader
