import Mathlib.Logic.Relation
import XrLinux.Bootloader.DirectorySearch

/-!
# Bootloader — searching a directory of any contents

The search goes on by the size in each record, and takes what is left of the directory as a
difference that it never checks. So a record of size 0 is visited for ever, one that overruns the
directory makes what is left very large, and a long name is read from beyond the end. `RecordSound` is
that a record does none of these; the search comes to its end inside the directory exactly when every
record it comes to is sound.
-/

namespace XrLinux.Bootloader

open Prog ByteMemory

/-- From every state the search comes to an end, has read bytes of the directory only, and never
compared an offset beyond it. -/
def SearchSafe (vol : Volume) (dir : BiInode) (name : List (BitVec 8)) : Prop :=
  ∃ rounds, ∀ fuel ≥ rounds, ∀ s, vol.Steady s.disk → s.Inside (biInodeSize vol.fs dir) →
    Returns (searchDirectory vol.fw vol.part vol.fs fuel dir name) s fun _ s' =>
      s'.Inside (biInodeSize vol.fs dir)

section
variable (data : ByteMemory) (hasTypes : Bool) (size : Nat) (name : List (BitVec 8))

/-- The search goes on from one record to the other. -/
def Passes (offset offset' : Nat) : Prop :=
  offset + entrySize ≤ size ∧ ¬Matches data hasTypes name offset ∧
    offset' = offset + (entryAt data offset).size

/-- The search comes there. -/
def Reached (offset : Nat) : Prop :=
  Relation.ReflTransGen (Passes data hasTypes size name) 0 offset

/-- The name that is read ends inside the directory, and so does the record, unless it is the one that
is looked for; and it has a size. -/
structure RecordSound (offset : Nat) : Prop where
  name_in : Candidate data hasTypes name offset → offset + entrySize + name.length ≤ size
  size_ne_zero : ¬Matches data hasTypes name offset → (entryAt data offset).size ≠ 0
  size_in : ¬Matches data hasTypes name offset → offset + (entryAt data offset).size ≤ size

/-- Every record that a search comes to is sound. A name that is too long is not searched for. -/
def ReachedSound : Prop :=
  name.length ≤ maxNameLen → ∀ offset, Reached data hasTypes size name offset →
    offset + entrySize ≤ size → RecordSound data hasTypes size name offset

end

section
variable {data : ByteMemory} {hasTypes : Bool} {size offset : Nat} {name : List (BitVec 8)}
  {r : Option BiEntry}

/-! ## On the bytes -/

/-- A record of size 0 is never left behind. -/
theorem SearchRun.size_ne_zero (h : SearchRun data hasTypes size name offset r)
    (hin : offset + entrySize ≤ size) (hother : ¬Matches data hasTypes name offset) :
    (entryAt data offset).size ≠ 0 := by
  intro hzero
  induction h with
  | finish hle hend => omega
  | found hin' hmatch => exact hother hmatch
  | pass hin' hname hother' hrest ih =>
    rw [hzero, Nat.add_zero] at ih
    exact ih hin hother hzero

theorem SearchRun.sound (h : SearchRun data hasTypes size name offset r) {offset' : Nat}
    (hreached : Relation.ReflTransGen (Passes data hasTypes size name) offset offset')
    (hin : offset' + entrySize ≤ size) : RecordSound data hasTypes size name offset' := by
  induction h with
  | @finish offset hle hend =>
    -- there is no record to go on from
    rcases hreached.cases_head with rfl | ⟨next, hpasses, -⟩
    · omega
    · exact absurd hpasses.1 (not_le.2 hend)
  | @found offset hin' hmatch =>
    rcases hreached.cases_head with rfl | ⟨next, hpasses, -⟩
    · exact ⟨fun _ => hin', fun h => absurd hmatch h, fun h => absurd hmatch h⟩
    · exact absurd hmatch hpasses.2.1
  | @pass offset r hin' hname hother hrest ih =>
    rcases hreached.cases_head with rfl | ⟨next, hpasses, hnext⟩
    · exact ⟨hname, (SearchRun.pass hin' hname hother hrest).size_ne_zero hin', fun _ => hrest.le⟩
    · obtain rfl := hpasses.2.2
      exact ih hnext

/-- As long as the records are sound, each leaves less of the directory. -/
theorem SearchRun.of_sound (hle : offset ≤ size)
    (hsound : ∀ offset', Relation.ReflTransGen (Passes data hasTypes size name) offset offset' →
      offset' + entrySize ≤ size → RecordSound data hasTypes size name offset') :
    ∃ r, SearchRun data hasTypes size name offset r := by
  induction hleft : size - offset using Nat.strong_induction_on generalizing offset with
  | _ left ih =>
    by_cases hin : offset + entrySize ≤ size
    · have hrecord := hsound offset .refl hin
      by_cases hmatch : Matches data hasTypes name offset
      · exact ⟨_, .found (hrecord.name_in hmatch.1) hmatch⟩
      · have hsize := hrecord.size_ne_zero hmatch
        have hnext := hrecord.size_in hmatch
        obtain ⟨r, hr⟩ := ih (size - (offset + (entryAt data offset).size))
          (by unfold entrySize at hin; omega) hnext
          (fun offset' hreached => hsound offset' (.head ⟨hin, hmatch, rfl⟩ hreached)) rfl
        exact ⟨r, .pass hin hrecord.name_in hmatch hr⟩
    · exact ⟨none, .finish hle (not_le.1 hin)⟩

end

/-! ## From the program to the bytes -/

section
variable {vol : Volume} {dir : BiInode} {data : ByteMemory} {s : SearchState}
  {name : List (BitVec 8)} {offset buffer fuel count size : Nat}

/-- What was asked for before the end was inside, when it was at the end. -/
theorem inside_of_returns {α β : Type} {p : SearchProg α} {f : α → SearchProg β}
    (hkeeps : ∀ a, Keeps SearchState.Extends (f a))
    (h : Returns (p >>= f) s fun _ s' => s'.Inside size) :
    Returns p s fun _ s' => s'.Inside size := by
  unfold Returns at h ⊢
  rw [post_bind] at h
  refine h.mono (fun a s' hrest => ?_) fun _ _ => id
  have hboth : Returns (f a) s' fun _ s'' => s''.Inside size ∧ s'.Extends s'' :=
    (hrest.and (hkeeps a s')).mono (fun _ _ => id) fun _ _ hstop => hstop.1
  obtain ⟨b, s'', -, hinside, hextends⟩ := returns_iff.1 hboth
  exact hinside.of_extends hextends

theorem le_of_returns (h : Returns (searchRecords vol.fw vol.part vol.fs dir name buffer fuel offset) s
    fun _ s' => s'.Inside size) : offset ≤ size := by
  cases fuel with
  | zero => exact h.elim
  | succ fuel =>
    have hcompared := inside_of_returns
      (fun _ => searchRecord_extends (searchRecords_extends buffer fuel) buffer offset) h
    exact hcompared.2 offset List.mem_cons_self

theorem readDirectory_inside
    (h : Returns (readDirectory vol.fw vol.part vol.fs dir count offset) s
      fun _ s' => s'.Inside size) : offset + count ≤ size := by
  have hasked := inside_of_returns (fun _ s' => ?_) h
  · exact hasked.1 (offset, count) List.mem_cons_self
  · rw [post_searchDisk]
    exact (Post.trivial _ _).mono (fun _ disk _ => SearchState.Extends.refl s')
      fun _ disk _ => SearchState.Extends.refl s'

/-- A search that comes to an end inside the directory is one on its bytes. -/
theorem SearchRun.of_returns (hdir : vol.Holds dir data) (hs : vol.Steady s.disk)
    (h : Returns (searchRecords vol.fw vol.part vol.fs dir name buffer fuel offset) s
      fun _ s' => s'.Inside (biInodeSize vol.fs dir)) :
    ∃ r, SearchRun data vol.fs.hasDirTypes (biInodeSize vol.fs dir) name offset r := by
  induction fuel generalizing s offset with
  | zero => exact h.elim
  | succ fuel ih =>
    have hle := le_of_returns h
    by_cases hin : offset + entrySize ≤ biInodeSize vol.fs dir
    · obtain ⟨s₁, hs₁, hround⟩ := searchRecords_record name buffer fuel hdir hs hin
      rw [hround] at h
      by_cases hcandidate : Candidate data vol.fs.hasDirTypes name offset
      · have hname : offset + entrySize + name.length ≤ biInodeSize vol.fs dir := by
          unfold afterRecord at h
          rw [if_pos hcandidate] at h
          refine readDirectory_inside (inside_of_returns (fun read => ?_) h)
          split
          · exact Keeps.bind SearchState.Extends.trans (freeBuffer_extends buffer) fun _ =>
              Keeps.pure SearchState.Extends.refl _
          · exact searchRecords_extends buffer fuel _
        obtain ⟨s₂, hs₂, hread⟩ := afterRecord_candidate buffer fuel hdir hs₁.steady hcandidate hname
        rw [hread] at h
        by_cases hmatch : recordName data offset = name
        · exact ⟨_, .found hname ⟨hcandidate, hmatch⟩⟩
        · rw [if_neg hmatch] at h
          obtain ⟨r, hr⟩ := ih hs₂.steady h
          exact ⟨r, .pass hin (fun _ => hname) (fun hmatches => hmatch hmatches.2) hr⟩
      · unfold afterRecord at h
        rw [if_neg hcandidate] at h
        obtain ⟨r, hr⟩ := ih hs₁.steady h
        exact ⟨r, .pass hin (fun hc => absurd hc hcandidate) (fun hmatches => hcandidate hmatches.1) hr⟩
    · exact ⟨none, .finish hle (not_le.1 hin)⟩

theorem searchSafe_iff_run (hdir : vol.Holds dir data) (hname : name.length ≤ maxNameLen) :
    SearchSafe vol dir name ↔
      ∃ r, SearchRun data vol.fs.hasDirTypes (biInodeSize vol.fs dir) name 0 r := by
  constructor
  · rintro ⟨rounds, hrounds⟩
    have hinit := hrounds rounds (Nat.le_refl _)
      { disk := .init, buffers := [], next := 0, reads := [], compared := [] } vol.steady_init
      ⟨fun read hread => absurd hread List.not_mem_nil, fun o ho => absurd ho List.not_mem_nil⟩
    rw [searchDirectory_short hname] at hinit
    unfold allocateBuffer at hinit
    by_cases hempty : name.length = 0
    · rw [if_pos hempty] at hinit
      exact SearchRun.of_returns hdir vol.steady_init hinit
    · rw [if_neg hempty] at hinit
      exact SearchRun.of_returns hdir vol.steady_init hinit
  · rintro ⟨r, hr⟩
    obtain ⟨rounds, hrounds⟩ := searchDirectory_of_run hdir hname hr
    refine ⟨rounds, fun fuel hfuel s hs hinside => (hrounds fuel hfuel s hs).mono ?_⟩
    rintro r' s' ⟨-, hs'⟩
    exact hs'.inside hinside

end

/-- Exactly when the search is safe, for every directory whose blocks have a place and every name. -/
theorem searchDirectory_safe_iff {vol : Volume} {dir : BiInode} {map : Nat → Nat}
    (hmaps : vol.Maps dir map) (name : List (BitVec 8)) :
    SearchSafe vol dir name ↔
      ReachedSound (vol.fileByte map) vol.fs.hasDirTypes (biInodeSize vol.fs dir) name := by
  by_cases hname : name.length ≤ maxNameLen
  · rw [searchSafe_iff_run (.of_maps hmaps) hname]
    constructor
    · rintro ⟨r, hr⟩ - offset hreached hin
      exact hr.sound hreached hin
    · exact fun h => SearchRun.of_sound (Nat.zero_le _) (h hname)
  · refine iff_of_true ⟨0, fun fuel _ s hs hinside => ?_⟩ fun h => absurd h hname
    rw [searchDirectory_long (not_le.1 hname)]
    exact hinside

/-- The directory `/a` of the volume with a link, and the name of the link. -/
theorem searchDirectory_safe_iff_link : SearchSafe linkVolume (linkContent 3) [0x6c] := by
  rw [searchDirectory_safe_iff (linkContent_maps (.inr (.inl rfl)))]
  intro _ offset hreached hin
  exact (linkVolume_packed.searchRun [0x6c]).sound hreached hin

/-- A directory that is all a hole. -/
def holeDirectory : BiInode where
  mode := typeDir
  size := 1024
  directBlocks _ := 0
  indirectBlocks _ := 0
  sizeUpper := 0

/-- The search never leaves its first record. -/
theorem searchDirectory_hole_fails : ¬SearchSafe linkVolume holeDirectory [0x61] := by
  have hsize : biInodeSize linkVolume.fs holeDirectory = 1024 := biInodeSize_of_small rfl
  have hmaps : linkVolume.Maps holeDirectory holeDirectory.directBlocks := by
    refine .of_direct ?_ ?_ fun block _ hblock => absurd rfl hblock
    · rw [linkVolume_shift]
      decide
    · rw [hsize, linkVolume_shift]
      decide
  have hzero : entryAt (linkVolume.fileByte holeDirectory.directBlocks) 0 =
      { inode := 0, size := 0, nameLength := 0, type := 0 } := rfl
  rw [searchSafe_iff_run (.of_maps hmaps) (by decide), hsize]
  rintro ⟨r, hr⟩
  refine hr.size_ne_zero (by decide) (fun hmatch => ?_) (congrArg BiEntry.size hzero)
  exact hmatch.1.2.1 (congrArg BiEntry.inode hzero)

end XrLinux.Bootloader
