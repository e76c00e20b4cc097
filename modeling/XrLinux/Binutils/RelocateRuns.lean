import XrLinux.Binutils.Relocate

/-!
# Binutils — a run over the relocations of a section

What is in the section, in the table of high parts and in the list of low parts after the loop, and
what resolving the low parts changes. No two relocations are for the same bytes, so that each can be
looked at by itself.
-/

namespace XrLinux.Binutils

open ByteMemory

/-! ## The loop over the relocations -/

section
variable {σ α ε : Type} {f : σ → α → Except ε σ}

theorem foldlM_cons_ok {a : α} {l : List α} {s s' : σ} (h : (a :: l).foldlM f s = .ok s') :
    ∃ t, f s a = .ok t ∧ l.foldlM f t = .ok s' := by
  rw [List.foldlM_cons] at h
  cases hstep : f s a with
  | error e =>
    rw [hstep] at h
    cases h
  | ok t =>
    rw [hstep] at h
    exact ⟨t, rfl, h⟩

theorem foldlM_append_ok {l l' : List α} {s s' : σ} (h : (l ++ l').foldlM f s = .ok s') :
    ∃ t, l.foldlM f s = .ok t ∧ l'.foldlM f t = .ok s' := by
  rw [List.foldlM_append] at h
  cases hfirst : l.foldlM f s with
  | error e =>
    rw [hfirst] at h
    cases h
  | ok t =>
    rw [hfirst] at h
    exact ⟨t, rfl, h⟩

end

section
variable {info : LinkInfo} {sec : InputSection} {r : Rela × RelocSymbol} {s s' : RelocState}

/-- The run-time address of a relocation. -/
def InputSection.pc (sec : InputSection) (rel : Rela) : Vma :=
  sec.secAddr + BitVec.ofNat 64 rel.offset

/-- What a relocation adds to the list of low parts. -/
def loOf (info : LinkInfo) (sec : InputSection) (r : Rela × RelocSymbol) : List PcrelLoReloc :=
  if Action.of info sec r.1 r.2 = .lo then [⟨r.2.relocation, r.1⟩] else []

theorem doRelocation_ok {rel : Rela} {relocation : Vma} (h : doRelocation sec rel relocation s = .ok s') :
    ∃ contents, performRelocation rel relocation sec.secAddr s.contents = .ok contents ∧
      s' = { s with contents } := by
  unfold doRelocation at h
  split at h
  · next contents hperform => exact ⟨contents, hperform, (Except.ok.inj h).symm⟩
  · cases h

/-- A round changes the bytes of its relocation, the entry at its address and the list. -/
theorem relocateOne_frame (h : relocateOne info sec s r = .ok s') :
    (∀ {b len}, b + len ≤ r.1.offset ∨ r.1.offset + r.1.type.bitsize / 8 ≤ b →
      SameOn s.contents s'.contents b len) ∧
    (∀ {addr}, addr ≠ sec.pc r.1 → s'.pcrel.hiRelocs addr = s.pcrel.hiRelocs addr) ∧
    s'.pcrel.loRelocs = loOf info sec r ++ s.pcrel.loRelocs := by
  unfold relocateOne at h
  unfold loOf
  dsimp only at h
  cases haction : Action.of info sec r.1 r.2 with
  | skip =>
    rw [haction] at h
    obtain rfl := Except.ok.inj h
    exact ⟨fun _ => SameOn.refl _ _ _, fun _ => rfl, rfl⟩
  | perform relocation =>
    rw [haction] at h
    obtain ⟨contents, hperform, rfl⟩ := doRelocation_ok h
    exact ⟨sameOn_performRelocation hperform, fun _ => rfl, rfl⟩
  | performHi relocation recorded =>
    rw [haction] at h
    obtain ⟨contents, hperform, rfl⟩ := doRelocation_ok h
    exact ⟨sameOn_performRelocation hperform, fun haddr => Function.update_of_ne haddr _ _, rfl⟩
  | lo =>
    rw [haction] at h
    obtain rfl := Except.ok.inj h
    exact ⟨fun _ => SameOn.refl _ _ _, fun _ => rfl, rfl⟩
  | error e =>
    rw [haction] at h
    cases h
  | fail =>
    rw [haction] at h
    cases h

theorem pc_ne {a b : Rela} (ha : a.offset < 2 ^ 64) (hb : b.offset < 2 ^ 64) (h : a.Apart b) :
    sec.pc a ≠ sec.pc b := by
  intro heq
  have hoffset : BitVec.ofNat 64 a.offset = BitVec.ofNat 64 b.offset := add_left_cancel heq
  rw [← BitVec.toNat_inj, BitVec.toNat_ofNat, BitVec.toNat_ofNat, Nat.mod_eq_of_lt ha,
    Nat.mod_eq_of_lt hb] at hoffset
  unfold Rela.Apart at h
  omega

/-- Other relocations leave the bytes and the entry of a relocation alone. -/
theorem relocate_keeps {rs : List (Rela × RelocSymbol)}
    (h : rs.foldlM (relocateOne info sec) s = .ok s') {rel : Rela} (hrel : rel.offset < 2 ^ 64)
    (hsmall : ∀ r ∈ rs, r.1.offset < 2 ^ 64) (hapart : ∀ r ∈ rs, r.1.Apart rel) :
    SameOn s.contents s'.contents rel.offset (rel.type.bitsize / 8) ∧
      s'.pcrel.hiRelocs (sec.pc rel) = s.pcrel.hiRelocs (sec.pc rel) := by
  induction rs generalizing s with
  | nil =>
    obtain rfl := Except.ok.inj h
    exact ⟨SameOn.refl _ _ _, rfl⟩
  | cons r rs ih =>
    obtain ⟨t, hround, hrest⟩ := foldlM_cons_ok h
    obtain ⟨hbytes, hentry, _⟩ := relocateOne_frame hround
    have haway := hapart r List.mem_cons_self
    obtain ⟨hbytes', hentry'⟩ := ih hrest (fun r hr => hsmall r (List.mem_cons_of_mem _ hr))
      (fun r hr => hapart r (List.mem_cons_of_mem _ hr))
    constructor
    · refine (hbytes ?_).trans hbytes'
      unfold Rela.Apart at haway
      omega
    · rw [hentry']
      exact hentry (pc_ne hrel (hsmall r List.mem_cons_self) haway.symm)

/-- The low parts are listed, the last first. -/
theorem relocate_loRelocs {rs : List (Rela × RelocSymbol)}
    (h : rs.foldlM (relocateOne info sec) s = .ok s') :
    s'.pcrel.loRelocs = (rs.flatMap (loOf info sec)).reverse ++ s.pcrel.loRelocs := by
  induction rs generalizing s with
  | nil =>
    obtain rfl := Except.ok.inj h
    rfl
  | cons r rs ih =>
    obtain ⟨t, hround, hrest⟩ := foldlM_cons_ok h
    obtain ⟨_, _, hlo⟩ := relocateOne_frame hround
    have hsingle : (loOf info sec r).reverse = loOf info sec r := by
      unfold loOf
      split <;> rfl
    rw [ih hrest, hlo, List.flatMap_cons, List.reverse_append, hsingle, List.append_assoc]

/-- Only high parts are recorded. -/
theorem relocateOne_entry (h : relocateOne info sec s r = .ok s') {addr : Vma}
    (hother : ∀ relocation recorded, Action.of info sec r.1 r.2 = .performHi relocation recorded →
      sec.pc r.1 ≠ addr) :
    s'.pcrel.hiRelocs addr = s.pcrel.hiRelocs addr := by
  unfold relocateOne at h
  dsimp only at h
  cases haction : Action.of info sec r.1 r.2 with
  | skip =>
    rw [haction] at h
    rw [← Except.ok.inj h]
  | perform relocation =>
    rw [haction] at h
    obtain ⟨contents, _, rfl⟩ := doRelocation_ok h
    rfl
  | performHi relocation recorded =>
    rw [haction] at h
    obtain ⟨contents, _, rfl⟩ := doRelocation_ok h
    exact Function.update_of_ne (hother relocation recorded haction).symm _ _
  | lo =>
    rw [haction] at h
    rw [← Except.ok.inj h]
    rfl
  | error e =>
    rw [haction] at h
    cases h
  | fail =>
    rw [haction] at h
    cases h

theorem relocate_entry {rs : List (Rela × RelocSymbol)}
    (h : rs.foldlM (relocateOne info sec) s = .ok s') {addr : Vma}
    (hother : ∀ r ∈ rs, ∀ relocation recorded,
      Action.of info sec r.1 r.2 = .performHi relocation recorded → sec.pc r.1 ≠ addr) :
    s'.pcrel.hiRelocs addr = s.pcrel.hiRelocs addr := by
  induction rs generalizing s with
  | nil => rw [← Except.ok.inj h]
  | cons r rs ih =>
    obtain ⟨t, hround, hrest⟩ := foldlM_cons_ok h
    rw [ih hrest fun r hr => hother r (List.mem_cons_of_mem _ hr)]
    exact relocateOne_entry hround (hother r List.mem_cons_self)

/-- A relocation in its place, with what comes before and after it. -/
theorem relocateAll_split (h : relocateAll info sec = .ok s) (hr : r ∈ sec.relocs) :
    ∃ t t', relocateOne info sec t r = .ok t' ∧
      SameOn sec.contents t.contents r.1.offset (r.1.type.bitsize / 8) ∧
      SameOn t'.contents s.contents r.1.offset (r.1.type.bitsize / 8) ∧
      s.pcrel.hiRelocs (sec.pc r.1) = t'.pcrel.hiRelocs (sec.pc r.1) := by
  have hsmall := sec.small
  have hapart := sec.apart
  obtain ⟨before, after, hsplit⟩ := List.append_of_mem hr
  rw [relocateAll, hsplit] at h
  rw [hsplit] at hsmall hapart
  rw [List.pairwise_append, List.pairwise_cons] at hapart
  obtain ⟨t, hbefore, h⟩ := foldlM_append_ok h
  obtain ⟨t', hround, hafter⟩ := foldlM_cons_ok h
  have hoffset : r.1.offset < 2 ^ 64 := sec.small r hr
  have hkeeps := relocate_keeps hbefore hoffset
    (fun r hr => hsmall r (List.mem_append_left _ hr))
    (fun b hb => hapart.2.2 b hb r List.mem_cons_self)
  have hkeeps' := relocate_keeps hafter hoffset
    (fun r hr => hsmall r (List.mem_append_right _ (List.mem_cons_of_mem _ hr)))
    (fun b hb => (hapart.2.1.1 b hb).symm)
  exact ⟨t, t', hround, hkeeps.1, hkeeps'.1, hkeeps'.2⟩

theorem relocateAll_hi (h : relocateAll info sec = .ok s) (hr : r ∈ sec.relocs)
    (htype : r.1.type.IsPcrelHi) {relocation recorded : Vma}
    (haction : Action.of info sec r.1 r.2 = .performHi relocation recorded) :
    s.pcrel.hiRelocs (sec.pc r.1) = some ⟨sec.pc r.1, recorded - sec.pc r.1, r.1.type⟩ ∧
      s.contents.read32 r.1.offset =
        linkedWord .hi16 (relocation - sec.pc r.1 + r.1.addend).toNat
          (sec.contents.read32 r.1.offset) := by
  obtain ⟨t, t', hround, hbefore, hafter, hentry⟩ := relocateAll_split h hr
  have hsize : r.1.type.bitsize / 8 = 4 := by rw [htype.isImm.bitsize_eq]
  rw [hsize] at hbefore hafter
  rw [relocateOne, haction] at hround
  obtain ⟨contents, hperform, rfl⟩ := doRelocation_ok hround
  have hhigh := performRelocation_high htype r.1.offset r.1.addend relocation sec.secAddr t.contents
  obtain rfl := Except.ok.inj (hperform.symm.trans hhigh)
  constructor
  · rw [hentry]
    exact Function.update_self _ _ _
  · rw [hafter.read32, ← hbefore.read32]
    exact read32_write32_self _ _ (linkedWord_lt _ _ _)

theorem relocateAll_lo (h : relocateAll info sec = .ok s) (hr : r ∈ sec.relocs)
    (haction : Action.of info sec r.1 r.2 = .lo) :
    SameOn sec.contents s.contents r.1.offset (r.1.type.bitsize / 8) ∧
      ⟨r.2.relocation, r.1⟩ ∈ s.pcrel.loRelocs := by
  obtain ⟨t, t', hround, hbefore, hafter, _⟩ := relocateAll_split h hr
  rw [relocateOne, haction] at hround
  obtain rfl := Except.ok.inj hround
  refine ⟨hbefore.trans hafter, ?_⟩
  rw [relocate_loRelocs h]
  apply List.mem_append_left
  rw [List.mem_reverse, List.mem_flatMap]
  refine ⟨r, hr, ?_⟩
  rw [loOf, if_pos haction]
  exact List.mem_singleton_self _

end

/-! ## When the loop ends early -/

section
variable (info : LinkInfo) (sec : InputSection) (r : Rela × RelocSymbol)

/-- An error that the loop reports. -/
def RelocErrs : Prop :=
  match Action.of info sec r.1 r.2 with
  | .perform relocation | .performHi relocation _ =>
    ∃ e, performRelocation r.1 relocation sec.secAddr sec.contents = .error e
  | .error _ | .fail => True
  | .skip | .lo => False

/-- The relocation is not an error of `perform_relocation`. -/
theorem doRelocation_isOk {rel : Rela} {relocation : Vma} {s : RelocState} :
    (∃ s', doRelocation sec rel relocation s = .ok s') ↔
      ¬ ∃ e, performRelocation rel relocation sec.secAddr sec.contents = .error e := by
  unfold doRelocation
  cases hperform : performRelocation rel relocation sec.secAddr s.contents with
  | ok contents =>
    refine iff_of_true ⟨_, rfl⟩ ?_
    intro ⟨e, he⟩
    rw [performRelocation_error_congr sec.contents s.contents he] at hperform
    cases hperform
  | error e =>
    refine iff_of_false ?_ ?_
    · intro ⟨_, h⟩
      cases h
    · exact not_not.mpr ⟨e, performRelocation_error_congr s.contents sec.contents hperform⟩

theorem relocateOne_isOk (s : RelocState) :
    (∃ s', relocateOne info sec s r = .ok s') ↔ ¬ RelocErrs info sec r := by
  unfold relocateOne RelocErrs
  dsimp only
  cases Action.of info sec r.1 r.2 with
  | skip => exact iff_of_true ⟨s, rfl⟩ id
  | perform relocation => exact doRelocation_isOk sec
  | performHi relocation recorded => exact doRelocation_isOk sec
  | lo => exact iff_of_true ⟨_, rfl⟩ id
  | error e => exact iff_of_false (fun ⟨_, h⟩ => by cases h) (not_not.mpr trivial)
  | fail => exact iff_of_false (fun ⟨_, h⟩ => by cases h) (not_not.mpr trivial)

end

theorem foldlM_isOk {info : LinkInfo} {sec : InputSection} (rs : List (Rela × RelocSymbol))
    (s : RelocState) :
    (∃ s', rs.foldlM (relocateOne info sec) s = .ok s') ↔ ∀ r ∈ rs, ¬ RelocErrs info sec r := by
  induction rs generalizing s with
  | nil => exact iff_of_true ⟨s, rfl⟩ (fun _ h => absurd h List.not_mem_nil)
  | cons r rs ih =>
    rw [List.forall_mem_cons, ← relocateOne_isOk info sec r s]
    constructor
    · intro ⟨s', h⟩
      obtain ⟨t, hround, hrest⟩ := foldlM_cons_ok h
      exact ⟨⟨t, hround⟩, (ih t).mp ⟨s', hrest⟩⟩
    · intro ⟨⟨t, hround⟩, hrest⟩
      obtain ⟨s', h⟩ := (ih t).mpr hrest
      refine ⟨s', ?_⟩
      rw [List.foldlM_cons, hround]
      exact h

theorem relocateAll_isOk (info : LinkInfo) (sec : InputSection) :
    (∃ s, relocateAll info sec = .ok s) ↔ ∀ r ∈ sec.relocs, ¬ RelocErrs info sec r :=
  foldlM_isOk _ _

/-! ## Resolving the low parts -/

section
variable {secAddr : Vma} {hiRelocs : Vma → Option PcrelHiReloc} {rs : List PcrelLoReloc}
  {contents contents' : ByteMemory} {o : Option LoError}

/-- Only the bytes of low parts change. -/
theorem resolve_frame
    (h : resolvePcrelLoRelocs secAddr hiRelocs rs contents = (o, contents')) {b len : Nat}
    (haway : ∀ r ∈ rs, b + len ≤ r.reloc.offset ∨
      r.reloc.offset + r.reloc.type.bitsize / 8 ≤ b) :
    SameOn contents contents' b len := by
  induction rs generalizing contents with
  | nil =>
    obtain ⟨-, rfl⟩ := Prod.mk.inj h
    exact SameOn.refl _ _ _
  | cons r rs ih =>
    have hrest := fun c (h : resolvePcrelLoRelocs secAddr hiRelocs rs c = (o, contents')) =>
      ih h fun r hr => haway r (List.mem_cons_of_mem _ hr)
    rw [resolvePcrelLoRelocs] at h
    split at h
    · obtain ⟨-, rfl⟩ := Prod.mk.inj h
      exact SameOn.refl _ _ _
    · split at h
      · next hperform =>
        exact (sameOn_performRelocation hperform (haway r List.mem_cons_self)).trans (hrest _ h)
      · exact hrest _ h

/-- There is no error if every low part finds its high part. -/
theorem resolve_none_iff (contents : ByteMemory) :
    (∃ contents', resolvePcrelLoRelocs secAddr hiRelocs rs contents = (none, contents')) ↔
      ∀ r ∈ rs, ∃ entry, findHi hiRelocs r = .ok entry := by
  induction rs generalizing contents with
  | nil => exact iff_of_true ⟨contents, rfl⟩ (fun _ h => absurd h List.not_mem_nil)
  | cons r rs ih =>
    rw [List.forall_mem_cons, resolvePcrelLoRelocs]
    cases hfind : findHi hiRelocs r with
    | error e =>
      refine iff_of_false ?_ ?_
      · intro ⟨_, h⟩
        cases h
      · intro ⟨⟨_, h⟩, _⟩
        cases h
    | ok entry =>
      have hhead : (∃ entry', (Except.ok entry : Except LoError _) = .ok entry') ↔ True :=
        iff_true_intro ⟨entry, rfl⟩
      rw [hhead, true_and]
      dsimp only
      split
      · exact ih _
      · exact ih _

/-- A low part and its word, if no other low part is for the same bytes. -/
theorem resolve_at (h : resolvePcrelLoRelocs secAddr hiRelocs rs contents = (none, contents'))
    (hapart : rs.Pairwise fun a b => a.reloc.Apart b.reloc) {r : PcrelLoReloc} (hr : r ∈ rs) :
    ∃ entry before, findHi hiRelocs r = .ok entry ∧
      SameOn contents before r.reloc.offset (r.reloc.type.bitsize / 8) ∧
      ∀ after, performRelocation r.reloc entry.value secAddr before = .ok after →
        SameOn after contents' r.reloc.offset (r.reloc.type.bitsize / 8) := by
  induction rs generalizing contents with
  | nil => exact absurd hr List.not_mem_nil
  | cons q rs ih =>
    rw [List.pairwise_cons] at hapart
    rw [resolvePcrelLoRelocs] at h
    cases hfind : findHi hiRelocs q with
    | error e =>
      rw [hfind] at h
      cases h
    | ok entry =>
      rw [hfind] at h
      dsimp only at h
      rcases List.mem_cons.mp hr with rfl | hmem
      · -- The others come later and are elsewhere.
        have haway : ∀ q ∈ rs, r.reloc.offset + r.reloc.type.bitsize / 8 ≤ q.reloc.offset ∨
            q.reloc.offset + q.reloc.type.bitsize / 8 ≤ r.reloc.offset := by
          intro q hq
          have := hapart.1 q hq
          unfold Rela.Apart at this
          omega
        refine ⟨entry, contents, hfind, SameOn.refl _ _ _, ?_⟩
        intro after hafter
        rw [hafter] at h
        exact resolve_frame h haway
      · have haway := hapart.1 r hmem
        unfold Rela.Apart at haway
        split at h
        · next hperform =>
          obtain ⟨entry', before, hfind', hsame, hafter⟩ := ih h hapart.2 hmem
          exact ⟨entry', before, hfind',
            (sameOn_performRelocation hperform (by omega)).trans hsame, hafter⟩
        · exact ih h hapart.2 hmem

end

end XrLinux.Binutils
