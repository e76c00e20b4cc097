import Mathlib.Data.List.Pairwise
import XrLinux.Binutils.RelocateRuns

/-!
# Binutils — what a pair computes after the link

The high part of a pair is put in place at once and recorded for the low part. What is recorded is
not always what is put in place: for an ifunc and for a TLS slot the addend is missing. And a low
part that does not fit its instruction is left out without a word.
-/

namespace XrLinux.Binutils

open ByteMemory

/-- The relocation is treated as one of an ifunc. -/
def isIfuncReloc (sec : InputSection) (sym : RelocSymbol) : Bool :=
  match sym.h with
  | some h => h.isIfunc && h.defRegular && (sec.alloc || !sec.note)
  | none => false

/-- A symbol that is an ifunc, which is always reached through the PLT. -/
def ifuncOf (sec : InputSection) (sym : RelocSymbol) : Option HashEntry :=
  match sym.h with
  | some h => if h.isIfunc ∧ h.defRegular ∧ sec.alloc then some h else none
  | none => none

/-- The symbol that a high part refers to, or its slot in the GOT. -/
def hiAddress (info : LinkInfo) (sec : InputSection) (rel : Rela) (sym : RelocSymbol) : Vma :=
  match ifuncOf sec sym, rel.type with
  | some h, .hi16Got => ifuncSlot info (info.sgot.getD 0) sym h
  | some h, _ => ifuncPlt info h
  | none, .hi16Got => gotSlot info sym false
  | none, .hi16TlsGd => gotSlot info sym false
  | none, .hi16TlsGot => gotSlot info sym true
  | none, .hi16Plt => callTarget info sym
  | none, _ => sym.relocation

/-- The part of the addend that is recorded for the low part. -/
def recordedAddend (sec : InputSection) (rel : Rela) (sym : RelocSymbol) : Vma :=
  match ifuncOf sec sym, rel.type with
  | some _, _ => 0
  | none, .hi16TlsGd => 0
  | none, .hi16TlsGot => 0
  | none, _ => rel.addend

/-- What is known of a high part that is put in place. -/
structure HighPart (info : LinkInfo) (sec : InputSection) (rel : Rela) (sym : RelocSymbol)
    (relocation recorded : Vma) : Prop where
  isPcrelHi : rel.type.IsPcrelHi
  relocation_eq : relocation = hiAddress info sec rel sym
  recorded_eq : recorded = relocation + recordedAddend sec rel sym
  /-- The linker refuses addends to slots in the GOT. -/
  got_addend : rel.type = .hi16Got → ifuncOf sec sym = none → rel.addend = 0

section
variable {info : LinkInfo} {sec : InputSection} {rel : Rela} {sym : RelocSymbol}
  {relocation recorded : Vma}

theorem ifuncAction_hi {h : HashEntry} (hifunc : ifuncOf sec sym = some h)
    (haction : ifuncAction info sec rel sym h = some (.performHi relocation recorded)) :
    HighPart info sec rel sym relocation recorded := by
  have hgot : rel.type = .hi16Got → ifuncOf sec sym = none → rel.addend = 0 := by
    intro _ hnone
    rw [hifunc] at hnone
    cases hnone
  unfold ifuncAction at haction
  split at haction
  · split at haction
    · cases haction
    · split at haction
      · cases haction
      · cases haction
  split at haction
  · cases haction
  dsimp only at haction
  cases htype : rel.type with
  | hi16Got =>
    rw [htype] at haction
    dsimp only at haction
    split at haction
    · cases haction
    · next sgot hsgot =>
      obtain ⟨rfl, rfl⟩ := Action.performHi.inj (Option.some.inj haction)
      exact
        { isPcrelHi := htype ▸ .got
          relocation_eq := by rw [hiAddress, hifunc, htype, hsgot]; rfl
          recorded_eq := by rw [recordedAddend, hifunc, add_zero]
          got_addend := hgot }
  | hi16Plt =>
    rw [htype] at haction
    obtain ⟨rfl, rfl⟩ := Action.performHi.inj (Option.some.inj haction)
    exact
      { isPcrelHi := htype ▸ .plt
        relocation_eq := by rw [hiAddress, hifunc, htype]
        recorded_eq := by rw [recordedAddend, hifunc, add_zero]
        got_addend := hgot }
  | hi16Pcrel =>
    rw [htype] at haction
    obtain ⟨rfl, rfl⟩ := Action.performHi.inj (Option.some.inj haction)
    exact
      { isPcrelHi := htype ▸ .pcrel
        relocation_eq := by rw [hiAddress, hifunc, htype]
        recorded_eq := by rw [recordedAddend, hifunc, add_zero]
        got_addend := hgot }
  | r32 =>
    rw [htype] at haction
    dsimp only at haction
    split at haction
    · cases haction
    · split at haction
      · cases haction
      · cases haction
  | _ =>
    rw [htype] at haction
    cases haction

theorem relocAction_hi (hifunc : ifuncOf sec sym = none)
    (haction : (relocAction info sec rel sym).1 = .performHi relocation recorded) :
    HighPart info sec rel sym relocation recorded := by
  unfold relocAction at haction
  cases htype : rel.type with
  | hi16Got =>
    simp only [htype] at haction
    split at haction
    · cases haction
    · next haddend =>
      obtain ⟨rfl, rfl⟩ := Action.performHi.inj haction
      exact
        { isPcrelHi := htype ▸ .got
          relocation_eq := by rw [hiAddress, hifunc, htype]
          recorded_eq := by rw [recordedAddend, hifunc, htype]
          got_addend := fun _ _ => not_not.mp haddend }
  | hi16Plt =>
    simp only [htype] at haction
    split at haction
    · cases haction
    · obtain ⟨rfl, rfl⟩ := Action.performHi.inj haction
      exact
        { isPcrelHi := htype ▸ .plt
          relocation_eq := by rw [hiAddress, hifunc, htype]
          recorded_eq := by rw [recordedAddend, hifunc, htype]
          got_addend := by rw [htype]; exact fun h => RelocType.noConfusion h }
  | hi16Pcrel =>
    rw [htype] at haction
    obtain ⟨rfl, rfl⟩ := Action.performHi.inj haction
    exact
      { isPcrelHi := htype ▸ .pcrel
        relocation_eq := by rw [hiAddress, hifunc, htype]
        recorded_eq := by rw [recordedAddend, hifunc, htype]
        got_addend := by rw [htype]; exact fun h => RelocType.noConfusion h }
  | hi16TlsGot =>
    rw [htype] at haction
    obtain ⟨rfl, rfl⟩ := Action.performHi.inj haction
    exact
      { isPcrelHi := htype ▸ .tlsGot
        relocation_eq := by rw [hiAddress, hifunc, htype]
        recorded_eq := by rw [recordedAddend, hifunc, htype, add_zero]
        got_addend := by rw [htype]; exact fun h => RelocType.noConfusion h }
  | hi16TlsGd =>
    rw [htype] at haction
    obtain ⟨rfl, rfl⟩ := Action.performHi.inj haction
    exact
      { isPcrelHi := htype ▸ .tlsGd
        relocation_eq := by rw [hiAddress, hifunc, htype]
        recorded_eq := by rw [recordedAddend, hifunc, htype, add_zero]
        got_addend := by rw [htype]; exact fun h => RelocType.noConfusion h }
  | jump | r32 | lo16Pcrel | lo16_1Pcrel | lo16_2Pcrel =>
    simp only [htype] at haction
    split at haction
    · cases haction
    · cases haction
  | _ =>
    rw [htype] at haction
    cases haction

/-- The ifunc path is only left for the other one, or not entered. -/
theorem action_plain (h : isIfuncReloc sec sym = false) :
    Action.of info sec rel sym =
      if (relocAction info sec rel sym).2 ∧ ¬ unresolvedAllowed sec sym then .error .notSupported
      else (relocAction info sec rel sym).1 := by
  unfold isIfuncReloc at h
  unfold Action.of
  cases hsym : sym.h with
  | none => rfl
  | some e =>
    rw [hsym] at h
    dsimp only at h ⊢
    by_cases hifunc : e.isIfunc = true ∧ e.defRegular = true
    · have halloc : sec.alloc = false ∧ sec.note = true := by
        simpa [hifunc.1, hifunc.2] using h
      have hnone : ifuncAction info sec rel sym e = none := by
        unfold ifuncAction
        rw [if_pos (by simp [halloc.1]), if_pos halloc.2]
      rw [if_pos hifunc, hnone]
    · rw [if_neg hifunc]

theorem ifuncOf_plain (h : isIfuncReloc sec sym = false) : ifuncOf sec sym = none := by
  unfold isIfuncReloc at h
  unfold ifuncOf
  cases hsym : sym.h with
  | none => rfl
  | some e =>
    rw [hsym] at h
    dsimp only at h ⊢
    split
    · next hifunc => simp [hifunc.1, hifunc.2.1, hifunc.2.2] at h
    · rfl

theorem ifuncAction_isSome (hplace : sec.alloc = true ∨ sec.note = false) (h : HashEntry) :
    ∃ action, ifuncAction info sec rel sym h = some action := by
  rw [← Option.isSome_iff_exists]
  unfold ifuncAction
  split
  · next halloc =>
    rw [if_neg (by rw [hplace.resolve_left halloc]; exact Bool.noConfusion)]
    split
    · rfl
    · rfl
  · split
    · rfl
    · dsimp only
      cases rel.type with
      | r32 =>
        dsimp only
        split
        · rfl
        · split
          · rfl
          · rfl
      | hi16Got =>
        dsimp only
        split
        · rfl
        · rfl
      | _ => rfl

theorem action_ifunc (h : isIfuncReloc sec sym = true) :
    ∃ e, ifuncAction info sec rel sym e = some (Action.of info sec rel sym) ∧
      (sec.alloc = true → ifuncOf sec sym = some e) := by
  unfold isIfuncReloc at h
  cases hsym : sym.h with
  | none =>
    rw [hsym] at h
    cases h
  | some e =>
    rw [hsym] at h
    dsimp only at h
    rw [Bool.and_eq_true, Bool.and_eq_true, Bool.or_eq_true, Bool.not_eq_true'] at h
    obtain ⟨⟨hifunc, hdef⟩, hplace⟩ := h
    refine ⟨e, ?_, ?_⟩
    · obtain ⟨action, haction⟩ := @ifuncAction_isSome info sec rel sym hplace e
      unfold Action.of
      rw [hsym]
      dsimp only
      rw [if_pos ⟨hifunc, hdef⟩, haction]
    · intro halloc
      unfold ifuncOf
      rw [hsym]
      exact if_pos ⟨hifunc, hdef, halloc⟩

/-- In a section that is not loaded, nothing is done about an ifunc. -/
theorem ifuncAction_alloc {h : HashEntry} {action : Action} (halloc : sec.alloc = false)
    (haction : ifuncAction info sec rel sym h = some action) : action = .skip ∨ action = .fail := by
  unfold ifuncAction at haction
  rw [if_pos (by rw [halloc]; exact Bool.false_ne_true)] at haction
  split at haction
  · cases haction
  · split at haction
    · exact .inl (Option.some.inj haction).symm
    · exact .inr (Option.some.inj haction).symm

/-- An ifunc has no low part of its own. -/
theorem ifuncAction_lo (halloc : sec.alloc = true) {kind : LowKind} (htype : rel.type = kind.type)
    (h : HashEntry) : ifuncAction info sec rel sym h = some .fail := by
  unfold ifuncAction
  rw [if_neg (not_not.mpr halloc), htype]
  split
  · rfl
  · cases kind <;> rfl

theorem action_hi (haction : Action.of info sec rel sym = .performHi relocation recorded) :
    HighPart info sec rel sym relocation recorded := by
  cases hifunc : isIfuncReloc sec sym with
  | false =>
    rw [action_plain hifunc] at haction
    split at haction
    · cases haction
    · exact relocAction_hi (ifuncOf_plain hifunc) haction
  | true =>
    obtain ⟨e, heq, hof⟩ := @action_ifunc info sec rel sym hifunc
    rw [haction] at heq
    cases halloc : sec.alloc with
    | false =>
      rcases ifuncAction_alloc halloc heq with h | h
      · cases h
      · cases h
    | true => exact ifuncAction_hi (hof halloc) heq

theorem action_lo (haction : Action.of info sec rel sym = .lo) :
    isIfuncReloc sec sym = false ∧ ∃ kind : LowKind, rel.type = kind.type := by
  cases hifunc : isIfuncReloc sec sym with
  | false =>
    refine ⟨rfl, ?_⟩
    rw [action_plain hifunc] at haction
    split at haction
    · cases haction
    · unfold relocAction at haction
      cases htype : rel.type with
      | lo16Pcrel => exact ⟨.plain, rfl⟩
      | lo16_1Pcrel => exact ⟨.scaled1, rfl⟩
      | lo16_2Pcrel => exact ⟨.scaled2, rfl⟩
      | hi16Got | hi16Plt | jump | r32 =>
        simp only [htype] at haction
        split at haction
        · cases haction
        · cases haction
      | _ =>
        rw [htype] at haction
        cases haction
  | true =>
    obtain ⟨e, heq, _⟩ := @action_ifunc info sec rel sym hifunc
    rw [haction] at heq
    unfold ifuncAction at heq
    split at heq
    · split at heq
      · cases heq
      · split at heq
        · cases heq
        · cases heq
    split at heq
    · cases heq
    dsimp only at heq
    cases htype : rel.type with
    | r32 =>
      rw [htype] at heq
      dsimp only at heq
      split at heq
      · cases heq
      · split at heq
        · cases heq
        · cases heq
    | hi16Got =>
      rw [htype] at heq
      dsimp only at heq
      split at heq
      · cases heq
      · cases heq
    | _ =>
      rw [htype] at heq
      cases heq

/-- A low part is listed, unless there is an error. -/
theorem action_of_lowKind (hplain : isIfuncReloc sec sym = false) {kind : LowKind}
    (htype : rel.type = kind.type) :
    Action.of info sec rel sym = .lo ∨ ∃ e, Action.of info sec rel sym = .error e := by
  rw [action_plain hplain]
  have hreloc : relocAction info sec rel sym =
      if sym.isSection ∧ rel.addend ≠ 0 then (.error .dangerous, sym.unresolvedReloc)
      else (.lo, false) := by
    unfold relocAction
    rw [htype]
    cases kind <;> rfl
  rw [hreloc]
  by_cases hsection : sym.isSection = true ∧ rel.addend ≠ 0
  · rw [if_pos hsection]
    dsimp only
    split
    · exact .inr ⟨_, rfl⟩
    · exact .inr ⟨_, rfl⟩
  · rw [if_neg hsection]
    exact .inl (if_neg fun h => Bool.noConfusion h.1)

end

/-! ## What the linker reports -/

section
variable {info : LinkInfo} {sec : InputSection} {s : RelocState}

/-- Each address has one relocation. -/
theorem eq_of_pc_eq {q r : Rela × RelocSymbol} (hq : q ∈ sec.relocs) (hr : r ∈ sec.relocs)
    (h : sec.pc q.1 = sec.pc r.1) : q = r := by
  by_contra hne
  have hsymm : Std.Symm fun a b : Rela × RelocSymbol => a.1.Apart b.1 := ⟨fun _ _ => Rela.Apart.symm⟩
  exact pc_ne (sec.small q hq) (sec.small r hr) (sec.apart.forall hq hr hne) h

/-- The table has the high parts that were put in place. -/
theorem relocateAll_entry (h : relocateAll info sec = .ok s) (addr : Vma) :
    (∃ q ∈ sec.relocs, ∃ relocation recorded,
      Action.of info sec q.1 q.2 = .performHi relocation recorded ∧ sec.pc q.1 = addr ∧
        s.pcrel.hiRelocs addr = some ⟨addr, recorded - addr, q.1.type⟩) ∨
    ((∀ q ∈ sec.relocs, ∀ relocation recorded,
      Action.of info sec q.1 q.2 = .performHi relocation recorded → sec.pc q.1 ≠ addr) ∧
        s.pcrel.hiRelocs addr = none) := by
  by_cases hnone : ∀ q ∈ sec.relocs, ∀ relocation recorded,
      Action.of info sec q.1 q.2 = .performHi relocation recorded → sec.pc q.1 ≠ addr
  · exact .inr ⟨hnone, relocate_entry h hnone⟩
  · push Not at hnone
    obtain ⟨q, hq, relocation, recorded, haction, hpc⟩ := hnone
    refine .inl ⟨q, hq, relocation, recorded, haction, hpc, ?_⟩
    have hentry := (relocateAll_hi h hq (action_hi haction).isPcrelHi haction).1
    rwa [hpc] at hentry

/-- Why the high part of a low part is of no use to it. -/
def LowErrs (info : LinkInfo) (sec : InputSection) (r : Rela × RelocSymbol) : Prop :=
  (∀ q ∈ sec.relocs, ∀ relocation recorded,
    Action.of info sec q.1 q.2 = .performHi relocation recorded →
      sec.pc q.1 ≠ r.2.relocation) ∨
  ∃ q ∈ sec.relocs, ∃ relocation recorded,
    Action.of info sec q.1 q.2 = .performHi relocation recorded ∧ sec.pc q.1 = r.2.relocation ∧
      (((q.1.type = .hi16Got ∨ q.1.type = .hi16Plt) ∧ r.1.addend ≠ 0) ∨
        xrImmHighPart (recorded - r.2.relocation) ≠
          xrImmHighPart (recorded - r.2.relocation + r.1.addend))

/-- The linker has an error to report. -/
def Reports (info : LinkInfo) (sec : InputSection) : Prop :=
  (∃ r ∈ sec.relocs, RelocErrs info sec r) ∨
    ∃ r ∈ sec.relocs, Action.of info sec r.1 r.2 = .lo ∧ LowErrs info sec r

theorem findHi_isOk (h : relocateAll info sec = .ok s) (r : Rela × RelocSymbol) :
    (∃ entry, findHi s.pcrel.hiRelocs ⟨r.2.relocation, r.1⟩ = .ok entry) ↔
      ¬ LowErrs info sec r := by
  unfold findHi LowErrs
  rcases relocateAll_entry h r.2.relocation with ⟨q, hq, relocation, recorded, haction, hpc, hentry⟩ |
    ⟨hnone, hentry⟩
  · have honly : ∀ q' ∈ sec.relocs, ∀ relocation' recorded',
        Action.of info sec q'.1 q'.2 = .performHi relocation' recorded' →
          sec.pc q'.1 = r.2.relocation → q' = q ∧ recorded' = recorded := by
      intro q' hq' relocation' recorded' haction' hpc'
      obtain rfl := eq_of_pc_eq hq' hq (hpc'.trans hpc.symm)
      exact ⟨rfl, (Action.performHi.inj (haction'.symm.trans haction)).2⟩
    simp only [hentry]
    by_cases haddend : (q.1.type = .hi16Got ∨ q.1.type = .hi16Plt) ∧ r.1.addend ≠ 0
    · rw [if_pos haddend]
      refine iff_of_false ?_ (not_not.mpr
        (.inr ⟨q, hq, relocation, recorded, haction, hpc, .inl haddend⟩))
      intro ⟨_, h⟩
      cases h
    · rw [if_neg haddend]
      by_cases hhigh : xrImmHighPart (recorded - r.2.relocation) ≠
          xrImmHighPart (recorded - r.2.relocation + r.1.addend)
      · rw [if_pos hhigh]
        refine iff_of_false ?_ (not_not.mpr
          (.inr ⟨q, hq, relocation, recorded, haction, hpc, .inr hhigh⟩))
        intro ⟨_, h⟩
        cases h
      · rw [if_neg hhigh]
        refine iff_of_true ⟨_, rfl⟩ ?_
        intro herrs
        rcases herrs with hmissing | ⟨q', hq', relocation', recorded', haction', hpc', hbad⟩
        · exact hmissing q hq relocation recorded haction hpc
        · obtain ⟨rfl, rfl⟩ := honly q' hq' relocation' recorded' haction' hpc'
          exact hbad.elim haddend hhigh
  · simp only [hentry]
    refine iff_of_false ?_ (not_not.mpr (.inl hnone))
    intro ⟨_, h⟩
    cases h

theorem mem_loRelocs (h : relocateAll info sec = .ok s) {r' : PcrelLoReloc} :
    r' ∈ s.pcrel.loRelocs ↔
      ∃ r ∈ sec.relocs, Action.of info sec r.1 r.2 = .lo ∧ r' = ⟨r.2.relocation, r.1⟩ := by
  have hlist : s.pcrel.loRelocs = (sec.relocs.flatMap (loOf info sec)).reverse := by
    rw [relocate_loRelocs h]
    exact List.append_nil _
  rw [hlist, List.mem_reverse, List.mem_flatMap]
  constructor
  · intro ⟨r, hr, hmem⟩
    unfold loOf at hmem
    split at hmem
    · next haction => exact ⟨r, hr, haction, List.mem_singleton.mp hmem⟩
    · exact absurd hmem List.not_mem_nil
  · intro ⟨r, hr, haction, heq⟩
    refine ⟨r, hr, ?_⟩
    rw [loOf, if_pos haction, heq]
    exact List.mem_singleton_self _

theorem loRelocs_apart (h : relocateAll info sec = .ok s) :
    s.pcrel.loRelocs.Pairwise fun a b => a.reloc.Apart b.reloc := by
  have hlist : s.pcrel.loRelocs = (sec.relocs.flatMap (loOf info sec)).reverse := by
    rw [relocate_loRelocs h]
    exact List.append_nil _
  have hof : ∀ r, ∀ r' ∈ loOf info sec r, r'.reloc = r.1 := by
    intro r r' hr'
    unfold loOf at hr'
    split at hr'
    · rw [List.mem_singleton.mp hr']
    · exact absurd hr' List.not_mem_nil
  rw [hlist, List.pairwise_reverse, List.pairwise_flatMap]
  constructor
  · intro r _
    unfold loOf
    split
    · exact List.pairwise_singleton _ _
    · exact List.Pairwise.nil
  · apply sec.apart.imp
    intro a b hapart a' ha' b' hb'
    rw [hof a a' ha', hof b b' hb']
    exact hapart.symm

theorem relocateSection_ok {contents : ByteMemory} (h : relocateSection info sec = .ok contents) :
    ∃ s, relocateAll info sec = .ok s ∧
      resolvePcrelLoRelocs sec.secAddr s.pcrel.hiRelocs s.pcrel.loRelocs s.contents =
        (none, contents) := by
  unfold relocateSection at h
  split at h
  · cases h
  · next s hall =>
    split at h
    · next contents' hresolve =>
      obtain rfl := Except.ok.inj h
      exact ⟨s, hall, hresolve⟩
    · cases h

theorem relocateSection_isOk (info : LinkInfo) (sec : InputSection) :
    (∃ contents, relocateSection info sec = .ok contents) ↔ ¬ Reports info sec := by
  rw [Reports, not_or]
  constructor
  · intro ⟨contents, h⟩
    obtain ⟨s, hall, hresolve⟩ := relocateSection_ok h
    have hnone := (relocateAll_isOk info sec).mp ⟨s, hall⟩
    have hfound := (resolve_none_iff s.contents).mp ⟨contents, hresolve⟩
    constructor
    · intro ⟨r, hr, herr⟩
      exact hnone r hr herr
    · intro ⟨r, hr, haction, herr⟩
      exact (findHi_isOk hall r).mp (hfound _ ((mem_loRelocs hall).mpr ⟨r, hr, haction, rfl⟩)) herr
  · intro ⟨hnone, hlow⟩
    obtain ⟨s, hall⟩ := (relocateAll_isOk info sec).mpr fun r hr herr => hnone ⟨r, hr, herr⟩
    have hfound : ∀ r' ∈ s.pcrel.loRelocs, ∃ entry, findHi s.pcrel.hiRelocs r' = .ok entry := by
      intro r' hr'
      obtain ⟨r, hr, haction, rfl⟩ := (mem_loRelocs hall).mp hr'
      exact (findHi_isOk hall r).mpr fun herr => hlow ⟨r, hr, haction, herr⟩
    obtain ⟨contents, hresolve⟩ := (resolve_none_iff s.contents).mpr hfound
    refine ⟨contents, ?_⟩
    rw [relocateSection, hall]
    dsimp only
    rw [hresolve]

end

/-! ## Pairs -/

/-- A low part and the high part that it names. -/
structure PcrelPair (sec : InputSection) where
  hi : Rela × RelocSymbol
  lo : Rela × RelocSymbol
  kind : LowKind
  hi_mem : hi ∈ sec.relocs
  lo_mem : lo ∈ sec.relocs
  isPcrelHi : hi.1.type.IsPcrelHi
  lo_type : lo.1.type = kind.type
  label_eq : lo.2.relocation = sec.pc hi.1
  /-- In a section that is not loaded, and so not executed, ifuncs are left alone. -/
  loaded : sec.alloc = true ∨ isIfuncReloc sec lo.2 = false

namespace PcrelPair

variable {sec : InputSection} (pair : PcrelPair sec) (info : LinkInfo)

/-- What the pair is to compute: its symbol plus addend or its slot in the GOT, and the low part may
have an addend of its own. -/
def target : Vma :=
  match pair.hi.1.type with
  | .hi16Pcrel | .hi16Plt =>
    hiAddress info sec pair.hi.1 pair.hi.2 + pair.hi.1.addend + pair.lo.1.addend
  | _ => hiAddress info sec pair.hi.1 pair.hi.2 + pair.lo.1.addend

/-- The pair computes its target. -/
def Exact (contents : ByteMemory) : Prop :=
  pairAddress ((sec.pc pair.hi.1).setWidth 32) pair.kind.scale
    (contents.read32 pair.hi.1.offset) (contents.read32 pair.lo.1.offset) =
      (pair.target info).setWidth 32

/-- From the high part to where it points, without its addend. -/
def hiOffset : Vma := hiAddress info sec pair.hi.1 pair.hi.2 - sec.pc pair.hi.1

/-- What the low part is made of. -/
def loOffset : Vma :=
  pair.hiOffset info + recordedAddend sec pair.hi.1 pair.hi.2 + pair.lo.1.addend

/-- The addend is in both parts or makes no difference to either. -/
def AddendFits : Prop :=
  match pair.hi.1.type with
  | .hi16Pcrel | .hi16Plt =>
    ifuncOf sec pair.hi.2 = none ∨ 65536 ∣ pair.hi.1.addend.toNat
  | _ =>
    xrImmHighPart (pair.hiOffset info + pair.hi.1.addend) = xrImmHighPart (pair.hiOffset info)

/-- The pair comes out right. -/
structure Fits : Prop where
  aligned : 2 ^ pair.kind.scale ∣ (pair.loOffset info).toNat
  addend : pair.AddendFits info

end PcrelPair

/-- An error of `perform_relocation` that is not passed on. -/
def Dropped (info : LinkInfo) (sec : InputSection) : Prop :=
  ∃ s r entry e, relocateAll info sec = .ok s ∧ r ∈ s.pcrel.loRelocs ∧
    findHi s.pcrel.hiRelocs r = .ok entry ∧
    performRelocation r.reloc entry.value sec.secAddr s.contents = .error e

/-- Either an error is reported, or every pair computes its target and no error has been dropped. -/
def PcrelSound (info : LinkInfo) (sec : InputSection) : Prop :=
  ∀ contents, relocateSection info sec = .ok contents →
    (∀ pair : PcrelPair sec, pair.Exact info contents) ∧ ¬ Dropped info sec

/-! ## What becomes of a pair -/

namespace PcrelPair

variable {info : LinkInfo} {sec : InputSection} (pair : PcrelPair sec)

/-- If nothing is reported, the low part is listed. -/
theorem lo_action (hno : ¬ Reports info sec) :
    Action.of info sec pair.lo.1 pair.lo.2 = .lo := by
  have hnone : ¬ RelocErrs info sec pair.lo := fun herr => hno (.inl ⟨pair.lo, pair.lo_mem, herr⟩)
  unfold RelocErrs at hnone
  cases hifunc : isIfuncReloc sec pair.lo.2 with
  | false =>
    rcases action_of_lowKind hifunc pair.lo_type with haction | ⟨e, haction⟩
    · exact haction
    · rw [haction] at hnone
      exact absurd trivial hnone
  | true =>
    have halloc := pair.loaded.resolve_right (by rw [hifunc]; exact Bool.noConfusion)
    obtain ⟨e, heq, _⟩ := @action_ifunc info sec pair.lo.1 pair.lo.2 hifunc
    rw [ifuncAction_lo halloc pair.lo_type] at heq
    rw [← Option.some.inj heq] at hnone
    exact absurd trivial hnone

/-- The entry that is found for the low part is that of the high part. -/
theorem found {s : RelocState} (h : relocateAll info sec = .ok s) {entry : PcrelHiReloc}
    (hfind : findHi s.pcrel.hiRelocs ⟨pair.lo.2.relocation, pair.lo.1⟩ = .ok entry) :
    ∃ relocation recorded, Action.of info sec pair.hi.1 pair.hi.2 = .performHi relocation recorded ∧
      entry = ⟨sec.pc pair.hi.1, recorded - sec.pc pair.hi.1, pair.hi.1.type⟩ := by
  have hsome := (findHi_ok hfind).1
  rw [show (PcrelLoReloc.mk pair.lo.2.relocation pair.lo.1).address = sec.pc pair.hi.1 from
    pair.label_eq] at hsome
  rcases relocateAll_entry h (sec.pc pair.hi.1) with
    ⟨q, hq, relocation, recorded, haction, hpc, hentry⟩ | ⟨_, hentry⟩
  · obtain rfl := eq_of_pc_eq hq pair.hi_mem hpc
    exact ⟨relocation, recorded, haction, Option.some.inj (hsome.symm.trans hentry)⟩
  · rw [hsome] at hentry
    cases hentry

theorem value_eq {relocation recorded : Vma}
    (haction : Action.of info sec pair.hi.1 pair.hi.2 = .performHi relocation recorded) :
    recorded - sec.pc pair.hi.1 =
      pair.hiOffset info + recordedAddend sec pair.hi.1 pair.hi.2 := by
  have hhigh := action_hi haction
  rw [hhigh.recorded_eq, hhigh.relocation_eq, hiOffset, add_sub_right_comm]

/-- The words of a pair and what is known of its offsets when nothing is reported. -/
structure Linked (info : LinkInfo) (contents : ByteMemory) : Prop where
  lo_addend : pair.hi.1.type = .hi16Got ∨ pair.hi.1.type = .hi16Plt → pair.lo.1.addend = 0
  hi_addend : pair.hi.1.type = .hi16Got → ifuncOf sec pair.hi.2 = none → pair.hi.1.addend = 0
  highPart_eq :
    xrImmHighPart (pair.hiOffset info + recordedAddend sec pair.hi.1 pair.hi.2) =
      xrImmHighPart (pair.loOffset info)
  highWord : contents.read32 pair.hi.1.offset =
    linkedWord .hi16 (pair.hiOffset info + pair.hi.1.addend).toNat
      (sec.contents.read32 pair.hi.1.offset)
  lowWord : 2 ^ pair.kind.scale ∣ (pair.loOffset info).toNat →
    contents.read32 pair.lo.1.offset =
      linkedWord pair.kind.imm (pair.loOffset info).toNat (sec.contents.read32 pair.lo.1.offset)

/-- Resolving the low parts leaves the high parts alone. -/
theorem highWord_kept {s : RelocState} {contents : ByteMemory} (h : relocateAll info sec = .ok s)
    (hresolve : resolvePcrelLoRelocs sec.secAddr s.pcrel.hiRelocs s.pcrel.loRelocs s.contents =
      (none, contents)) :
    contents.read32 pair.hi.1.offset = s.contents.read32 pair.hi.1.offset := by
  have hsize : pair.hi.1.type.bitsize / 8 = 4 := by rw [pair.isPcrelHi.isImm.bitsize_eq]
  have hsymm : Std.Symm fun a b : Rela × RelocSymbol => a.1.Apart b.1 := ⟨fun _ _ => Rela.Apart.symm⟩
  have haway : ∀ r ∈ s.pcrel.loRelocs, pair.hi.1.offset + 4 ≤ r.reloc.offset ∨
      r.reloc.offset + r.reloc.type.bitsize / 8 ≤ pair.hi.1.offset := by
    intro r hr
    obtain ⟨q, hq, haction, rfl⟩ := (mem_loRelocs h).mp hr
    have hne : pair.hi ≠ q := by
      rintro rfl
      obtain ⟨_, kind, htype⟩ := action_lo haction
      exact kind.not_isPcrelHi (htype ▸ pair.isPcrelHi)
    have hapart := sec.apart.forall pair.hi_mem hq hne
    unfold Rela.Apart at hapart
    rw [hsize] at hapart
    dsimp only
    omega
  exact (resolve_frame hresolve haway).read32

theorem linked {contents : ByteMemory} (h : relocateSection info sec = .ok contents) :
    pair.Linked info contents := by
  obtain ⟨s, hall, hresolve⟩ := relocateSection_ok h
  have hlo := pair.lo_action ((relocateSection_isOk info sec).mp ⟨contents, h⟩)
  obtain ⟨hsame, hmem⟩ := relocateAll_lo hall pair.lo_mem hlo
  obtain ⟨entry, before, hfind, hbefore, hafter⟩ := resolve_at hresolve (loRelocs_apart hall) hmem
  obtain ⟨_, haddend, hhighPart⟩ := findHi_ok hfind
  obtain ⟨relocation, recorded, haction, rfl⟩ := pair.found hall hfind
  have hhigh := action_hi haction
  have hword := (relocateAll_hi hall pair.hi_mem pair.isPcrelHi haction).2
  have hsize : pair.lo.1.type.bitsize / 8 = 4 := by rw [pair.lo_type, pair.kind.isImm.bitsize_eq]
  dsimp only at haddend hhighPart hafter hbefore
  rw [pair.value_eq haction] at hhighPart hafter
  rw [hsize] at hbefore hafter hsame
  exact
    { lo_addend := haddend
      hi_addend := hhigh.got_addend
      highPart_eq := hhighPart
      highWord := by
        rw [pair.highWord_kept hall hresolve, hword, hhigh.relocation_eq]
        rfl
      lowWord := by
        intro hdvd
        have hperform := performRelocation_low pair.kind pair.lo.1.offset pair.lo.1.addend
          (pair.hiOffset info + recordedAddend sec pair.hi.1 pair.hi.2) sec.secAddr before hdvd
        rw [← pair.lo_type] at hperform
        rw [(hafter _ hperform).read32, read32_write32_self _ _ (linkedWord_lt _ _ _),
          hbefore.read32, hsame.read32]
        rfl }

/-- What a pair computes if its low part is put in place. -/
theorem address_eq {contents : ByteMemory} (h : pair.Linked info contents)
    (hdvd : 2 ^ pair.kind.scale ∣ (pair.loOffset info).toNat) (pc : BitVec 32) :
    pairAddress pc pair.kind.scale (contents.read32 pair.hi.1.offset)
        (contents.read32 pair.lo.1.offset) =
      pc + (highHalf (pair.hiOffset info + pair.hi.1.addend) + lowHalf (pair.loOffset info)) := by
  have hhigh : contents.read32 pair.hi.1.offset / 65536 =
      (pair.hiOffset info + pair.hi.1.addend).toNat / 65536 % 65536 := by
    rw [h.highWord, linkedWord_div]
    rfl
  have hlow : contents.read32 pair.lo.1.offset / 65536 * 2 ^ pair.kind.scale =
      (pair.loOffset info).toNat % 65536 := by
    rw [h.lowWord hdvd, linkedWord_div, pair.kind.field_eq]
    apply Nat.div_mul_cancel
    exact (Nat.dvd_mod_iff pair.kind.scale_dvd).mpr hdvd
  rw [pairAddress_eq pc pair.kind.scale _ hhigh, hlow]
  rfl

/-- What the pair is to add to its offset, but for the addend of the low part. -/
def hiAddend : Vma :=
  match pair.hi.1.type with
  | .hi16Pcrel | .hi16Plt => pair.hi.1.addend
  | _ => 0

theorem target_eq : pair.target info =
    sec.pc pair.hi.1 + (pair.hiOffset info + pair.hiAddend + pair.lo.1.addend) := by
  have hhi := pair.isPcrelHi
  unfold target hiAddend hiOffset
  generalize pair.hi.1.type = type at hhi ⊢
  cases hhi with
  | pcrel => dsimp only; abel
  | plt => dsimp only; abel
  | got => dsimp only; abel
  | tlsGot => dsimp only; abel
  | tlsGd => dsimp only; abel

theorem exact_iff_halves {contents : ByteMemory} (h : pair.Linked info contents)
    (hdvd : 2 ^ pair.kind.scale ∣ (pair.loOffset info).toNat) :
    pair.Exact info contents ↔
      highHalf (pair.hiOffset info + pair.hi.1.addend) + lowHalf (pair.loOffset info) =
        (pair.hiOffset info + pair.hiAddend + pair.lo.1.addend).setWidth 32 := by
  have hadd : ∀ x y : Vma, (x + y).setWidth 32 = x.setWidth 32 + y.setWidth 32 :=
    fun x y => BitVec.setWidth_add x y (by omega)
  rw [Exact, pair.address_eq h hdvd, pair.target_eq, hadd, add_right_inj]

/-- A slot has no addend, and none is recorded. -/
theorem exact_iff_slot {contents : ByteMemory} (h : pair.Linked info contents)
    (hdvd : 2 ^ pair.kind.scale ∣ (pair.loOffset info).toNat) (hzero : pair.hiAddend = 0)
    (hrecorded : recordedAddend sec pair.hi.1 pair.hi.2 = 0) :
    pair.Exact info contents ↔
      xrImmHighPart (pair.hiOffset info + pair.hi.1.addend) =
        xrImmHighPart (pair.hiOffset info) := by
  have hpart := h.highPart_eq
  have hlo : pair.loOffset info = pair.hiOffset info + pair.lo.1.addend := by
    rw [loOffset, hrecorded, add_zero]
  rw [hrecorded, add_zero] at hpart
  rw [pair.exact_iff_halves h hdvd, hzero, add_zero, ← hlo, halves_eq_iff, ← hpart]

theorem exact_iff_symbol {contents : ByteMemory} (h : pair.Linked info contents)
    (hdvd : 2 ^ pair.kind.scale ∣ (pair.loOffset info).toNat)
    (haddend : pair.hiAddend = pair.hi.1.addend)
    (hrecorded : ifuncOf sec pair.hi.2 = none →
      recordedAddend sec pair.hi.1 pair.hi.2 = pair.hi.1.addend) :
    pair.Exact info contents ↔
      ifuncOf sec pair.hi.2 = none ∨ 65536 ∣ pair.hi.1.addend.toNat := by
  have hpart := h.highPart_eq
  rw [pair.exact_iff_halves h hdvd, haddend]
  cases hifunc : ifuncOf sec pair.hi.2 with
  | none =>
    rw [loOffset, hrecorded hifunc] at hpart ⊢
    exact iff_of_true (halves_eq_iff.mpr hpart) (.inl rfl)
  | some e =>
    -- For an ifunc the addend is in the high part only.
    have hzero : recordedAddend sec pair.hi.1 pair.hi.2 = 0 := by rw [recordedAddend, hifunc]
    rw [loOffset, hzero, add_zero] at hpart ⊢
    rw [halves_add_eq_iff hpart]
    exact (or_iff_right (Option.some_ne_none e)).symm

theorem exact_iff {contents : ByteMemory} (h : pair.Linked info contents)
    (hdvd : 2 ^ pair.kind.scale ∣ (pair.loOffset info).toNat) :
    pair.Exact info contents ↔ pair.AddendFits info := by
  have hhi := pair.isPcrelHi
  have hslot := pair.exact_iff_slot h hdvd
  have hsymbol := pair.exact_iff_symbol h hdvd
  have hgot := h.hi_addend
  unfold AddendFits
  unfold hiAddend recordedAddend at hslot hsymbol
  generalize pair.hi.1.type = type at hhi hslot hsymbol hgot ⊢
  cases hhi with
  | pcrel => exact hsymbol rfl fun hnone => by rw [hnone]
  | plt => exact hsymbol rfl fun hnone => by rw [hnone]
  | got =>
    apply hslot rfl
    cases hifunc : ifuncOf sec pair.hi.2 with
    | none => exact hgot rfl hifunc
    | some e => rfl
  | tlsGot =>
    apply hslot rfl
    cases ifuncOf sec pair.hi.2 <;> rfl
  | tlsGd =>
    apply hslot rfl
    cases ifuncOf sec pair.hi.2 <;> rfl

/-- A low part that does not fit is left out. -/
theorem dropped_of_not_aligned {contents : ByteMemory}
    (h : relocateSection info sec = .ok contents)
    (hdvd : ¬ 2 ^ pair.kind.scale ∣ (pair.loOffset info).toNat) : Dropped info sec := by
  obtain ⟨s, hall, hresolve⟩ := relocateSection_ok h
  have hlo := pair.lo_action ((relocateSection_isOk info sec).mp ⟨contents, h⟩)
  have hmem := (relocateAll_lo hall pair.lo_mem hlo).2
  obtain ⟨entry, hfind⟩ := (resolve_none_iff s.contents).mp ⟨contents, hresolve⟩ _ hmem
  obtain ⟨relocation, recorded, haction, rfl⟩ := pair.found hall hfind
  refine ⟨s, _, _, .overflow, hall, hmem, hfind, ?_⟩
  have hperform := performRelocation_low_error pair.kind pair.lo.1.offset pair.lo.1.addend
    (recorded - sec.pc pair.hi.1) sec.secAddr s.contents
  rw [← pair.lo_type] at hperform
  apply hperform
  rwa [pair.value_eq haction]

end PcrelPair

/-- The low part for which an error has been dropped, with its high part. -/
theorem Dropped.exists_pair {info : LinkInfo} {sec : InputSection} (h : Dropped info sec) :
    ∃ pair : PcrelPair sec, ¬ 2 ^ pair.kind.scale ∣ (pair.loOffset info).toNat := by
  obtain ⟨s, r, entry, e, hall, hr, hfind, hperform⟩ := h
  obtain ⟨lo, hlo, haction, rfl⟩ := (mem_loRelocs hall).mp hr
  obtain ⟨hplain, kind, htype⟩ := action_lo haction
  have hsome := (findHi_ok hfind).1
  rcases relocateAll_entry hall lo.2.relocation with
    ⟨hi, hhi, relocation, recorded, hhigh, hpc, hentry⟩ | ⟨_, hentry⟩
  · obtain rfl := Option.some.inj (hsome.symm.trans hentry)
    let pair : PcrelPair sec :=
      { hi, lo, kind, hi_mem := hhi, lo_mem := hlo, isPcrelHi := (action_hi hhigh).isPcrelHi
        lo_type := htype, label_eq := hpc.symm, loaded := .inr hplain }
    refine ⟨pair, fun hdvd => ?_⟩
    have hvalue : recorded - lo.2.relocation =
        pair.hiOffset info + recordedAddend sec hi.1 hi.2 := by
      rw [← hpc]
      exact pair.value_eq hhigh
    have hok := performRelocation_low kind lo.1.offset lo.1.addend (recorded - lo.2.relocation)
      sec.secAddr s.contents (by rw [hvalue]; exact hdvd)
    rw [← htype] at hok
    cases hperform.symm.trans hok
  · rw [hsome] at hentry
    cases hentry

theorem pcrelSound_iff (info : LinkInfo) (sec : InputSection) :
    PcrelSound info sec ↔ Reports info sec ∨ ∀ pair : PcrelPair sec, pair.Fits info := by
  constructor
  · intro h
    by_cases hreports : Reports info sec
    · exact .inl hreports
    · obtain ⟨contents, hok⟩ := (relocateSection_isOk info sec).mpr hreports
      obtain ⟨hexact, hdropped⟩ := h contents hok
      refine .inr fun pair => ?_
      have hdvd := by_contra fun hne => hdropped (pair.dropped_of_not_aligned hok hne)
      exact ⟨hdvd, (pair.exact_iff (pair.linked hok) hdvd).mp (hexact pair)⟩
  · intro h contents hok
    have hfits := h.resolve_left ((relocateSection_isOk info sec).mp ⟨contents, hok⟩)
    constructor
    · intro pair
      exact (pair.exact_iff (pair.linked hok) (hfits pair).aligned).mpr (hfits pair).addend
    · intro hdropped
      obtain ⟨pair, hne⟩ := hdropped.exists_pair
      exact hne (hfits pair).aligned

/-- `adr` at 0 and a word access at 4, to a symbol at 4098. -/
def oddSection : InputSection where
  secAddr := 0
  contents := fun _ => 0
  alloc := true
  readonly := true
  debugging := false
  note := false
  relocs := [(⟨0, .hi16Pcrel, 0⟩, ⟨4098, false, false, none, noOffset, false, false, false⟩),
    (⟨4, .lo16_2Pcrel, 0⟩, ⟨0, false, false, none, noOffset, false, false, false⟩)]
  small := by decide
  apart := by
    rw [List.pairwise_pair]
    exact .inl ⟨by decide, by decide⟩

def oddPair : PcrelPair oddSection where
  hi := (⟨0, .hi16Pcrel, 0⟩, ⟨4098, false, false, none, noOffset, false, false, false⟩)
  lo := (⟨4, .lo16_2Pcrel, 0⟩, ⟨0, false, false, none, noOffset, false, false, false⟩)
  kind := .scaled2
  hi_mem := List.mem_cons_self
  lo_mem := List.mem_cons_of_mem _ List.mem_cons_self
  isPcrelHi := .pcrel
  lo_type := rfl
  label_eq := rfl
  loaded := .inl rfl

/-- A static link without any of the linker's sections. -/
def plainInfo : LinkInfo := ⟨false, none, 0, none, 0, 0, none⟩

/-- The low part cannot be a multiple of 4, and nothing is said about it. -/
theorem oddSection_unsound : ¬ PcrelSound plainInfo oddSection := by
  intro h
  have hok : ∃ contents, relocateSection plainInfo oddSection = .ok contents := ⟨_, rfl⟩
  obtain ⟨contents, hok⟩ := hok
  exact (h contents hok).2 (oddPair.dropped_of_not_aligned hok (by decide))

end XrLinux.Binutils
