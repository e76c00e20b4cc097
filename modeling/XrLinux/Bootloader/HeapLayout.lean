import Mathlib.Data.List.Nodup
import Mathlib.Tactic.Common

/-!
# Bootloader — the layout of the heap

What the heap is for, without its memory: a sorted list of ranges, the order in which the free
ones are searched, the areas it was given and the blocks that are out. `Added`, `Carved` and
`Released` are what the three operations may do to the ranges; each keeps `Sound`. Nothing here
knows how the ranges are stored.
-/

namespace XrLinux.Bootloader

/-- A range of the heap, up to `stop`, header included. -/
structure Range where
  base : Nat
  stop : Nat
  free : Bool
  deriving DecidableEq, Repr

/-- An area of memory given to the heap. -/
structure Area where
  base : Nat
  size : Nat
  deriving DecidableEq, Repr

/-- A block that was handed out. -/
structure Block where
  ptr : Nat
  size : Nat
  alignment : Nat
  permanent : Bool
  deriving DecidableEq, Repr

def Area.Contains (a : Area) (x : Nat) : Prop := a.base ≤ x ∧ x < a.base + a.size

def Range.Contains (r : Range) (x : Nat) : Prop := r.base ≤ x ∧ x < r.stop

def Block.Contains (b : Block) (x : Nat) : Prop := b.ptr ≤ x ∧ x < b.ptr + b.size

def InAreas (areas : List Area) (x : Nat) : Prop := ∃ a ∈ areas, a.Contains x

def Range.Before (r s : Range) : Prop := r.stop ≤ s.base

/-- Two blocks share no byte. -/
def Block.Clear (b c : Block) : Prop := b.ptr + b.size ≤ c.ptr ∨ c.ptr + c.size ≤ b.ptr

/-- A range holds its header, on an aligned address that is not `nullptr`. -/
structure Range.Valid (r : Range) : Prop where
  pos : r.base ≠ 0
  base_dvd : 4 ∣ r.base
  stop_dvd : 4 ∣ r.stop
  room : r.base + 24 ≤ r.stop
  stop_lt : r.stop < 4294967296

def freeBases (rs : List Range) : List Nat := (rs.filter (·.free)).map (·.base)

/-- The ranges `rs` by address, and the free ones in the order `os`. -/
structure Layout (rs : List Range) (os : List Nat) : Prop where
  sorted : rs.Pairwise Range.Before
  valid : ∀ r ∈ rs, r.Valid
  perm : os.Perm (freeBases rs)

/-- The ranges lie in the areas, and the blocks in the ranges or, permanent ones, beside them. -/
structure Sound (areas : List Area) (live : List Block) (rs : List Range) (os : List Nat) : Prop
    where
  layout : Layout rs os
  inside : ∀ r ∈ rs, ∀ x, r.Contains x → InAreas areas x
  aligned : ∀ b ∈ live, b.ptr ≠ 0 ∧ 0 < b.size ∧ b.alignment ∣ b.ptr
  block_inside : ∀ b ∈ live, ∀ x, b.Contains x → InAreas areas x
  clear : live.Pairwise Block.Clear
  owned : ∀ b ∈ live, b.permanent = false →
    ∃ r ∈ rs, r.free = false ∧ r.base + 24 = b.ptr ∧ b.ptr + b.size ≤ r.stop
  beside : ∀ b ∈ live, b.permanent = true → ∀ r ∈ rs, b.ptr + b.size ≤ r.base ∨ r.stop ≤ b.ptr

/-- No two free ranges that could be one. -/
def NoTouch (rs : List Range) : Prop :=
  ∀ r ∈ rs, ∀ s ∈ rs, r.free = true → s.free = true → r.stop ≠ s.base

/-- A size in whole words. -/
def roundUp (size : Nat) : Nat := size + 3 - (size + 3) % 4

/-- Behind a block that can be freed its range has no room for another header. -/
def Snug (live : List Block) (rs : List Range) : Prop :=
  ∀ b ∈ live, b.permanent = false →
    ∃ r ∈ rs, r.free = false ∧ r.base + 24 = b.ptr ∧ r.stop < b.ptr + roundUp b.size + 24

/-! ## What the operations do -/

/-- The memory from `base` to `stop` joins the free ranges that touch it, or becomes a range. -/
inductive Added (base stop : Nat) : List Range → List Nat → List Range → List Nat → Prop where
  | both {xs ys us vs p q} (hp : p.free = true) (hq : q.free = true) (hpb : p.stop = base)
      (hqb : q.base = stop) :
      Added base stop (xs ++ p :: q :: ys) (us ++ q.base :: vs)
        (xs ++ { p with stop := q.stop } :: ys) (us ++ vs)
  | prev {xs ys os p} (hp : p.free = true) (hpb : p.stop = base)
      (hys : ∀ r ∈ ys, stop ≤ r.base) :
      Added base stop (xs ++ p :: ys) os (xs ++ { p with stop := stop } :: ys) os
  | next {xs ys us vs q} (hxs : ∀ r ∈ xs, r.stop ≤ base) (hq : q.free = true)
      (hqb : q.base = stop) :
      Added base stop (xs ++ q :: ys) (us ++ q.base :: vs)
        (xs ++ { q with base := base } :: ys) (base :: (us ++ vs))
  | fresh {xs ys os} (hxs : ∀ r ∈ xs, r.stop ≤ base ∧ (r.free = true → r.stop ≠ base))
      (hys : ∀ r ∈ ys, stop ≤ r.base) (hroom : base + 24 ≤ stop) :
      Added base stop (xs ++ ys) os
        (xs ++ { base := base, stop := stop, free := true } :: ys) (base :: os)

/-- What the block from `lo` to `hi` makes of the free range `r`: the range before it, the block's
own, and the range behind it. -/
def pieces (r : Range) (lo hi : Nat) (permanent keepHead keepTail : Bool) : List Range :=
  (if keepHead then [{ r with stop := lo }] else []) ++
    (if permanent then [] else [{ base := lo, stop := hi, free := false }]) ++
      (if keepTail then [{ r with base := hi }] else [])

/-- A block with its header, from `lo` to `hi`, taken out of the free range `r`. What is left of
the range stays when it has room for a header; a permanent block has none and leaves no range. -/
inductive Carved (lo hi : Nat) (permanent : Bool) :
    List Range → List Nat → List Range → List Nat → Prop where
  | mk {xs ys us vs r} (hr : r.free = true) (hlo : r.base ≤ lo) (hhi : hi ≤ r.stop)
      (keepHead keepTail : Bool) (hhead : keepHead = true → r.base + 24 ≤ lo)
      (htail : keepTail = true → hi + 24 ≤ r.stop) (hall : keepTail = false → hi = r.stop) :
      Carved lo hi permanent (xs ++ r :: ys) (us ++ r.base :: vs)
        (xs ++ pieces r lo hi permanent keepHead keepTail ++ ys)
        (us ++ ((if keepHead then [r.base] else []) ++ (if keepTail then [hi] else [])) ++ vs)

/-- The range `r`, which is not free, becomes free and joins the free ranges that touch it. -/
inductive Released (r : Range) : List Range → List Nat → List Range → List Nat → Prop where
  | both {xs ys us vs p q} (hp : p.free = true) (hq : q.free = true) (hpr : p.stop = r.base)
      (hrq : r.stop = q.base) :
      Released r (xs ++ p :: r :: q :: ys) (us ++ q.base :: vs)
        (xs ++ { p with stop := q.stop } :: ys) (us ++ vs)
  | prev {xs ys os p} (hp : p.free = true) (hpr : p.stop = r.base)
      (hys : ∀ s ∈ ys, s.free = true → r.stop ≠ s.base) :
      Released r (xs ++ p :: r :: ys) os (xs ++ { p with stop := r.stop } :: ys) os
  | next {xs ys us vs q} (hxs : ∀ s ∈ xs, s.free = true → s.stop ≠ r.base) (hq : q.free = true)
      (hrq : r.stop = q.base) :
      Released r (xs ++ r :: q :: ys) (us ++ q.base :: vs)
        (xs ++ { r with stop := q.stop, free := true } :: ys) (r.base :: (us ++ vs))
  | alone {xs ys os} (hxs : ∀ s ∈ xs, s.free = true → s.stop ≠ r.base)
      (hys : ∀ s ∈ ys, s.free = true → r.stop ≠ s.base) :
      Released r (xs ++ r :: ys) os (xs ++ { r with free := true } :: ys) (r.base :: os)

/-! ## Layouts -/

@[simp] theorem freeBases_nil : freeBases [] = [] := rfl

@[simp] theorem freeBases_append (rs ss : List Range) :
    freeBases (rs ++ ss) = freeBases rs ++ freeBases ss := by
  simp [freeBases]

@[simp] theorem freeBases_cons (r : Range) (rs : List Range) :
    freeBases (r :: rs) = (if r.free then [r.base] else []) ++ freeBases rs := by
  cases h : r.free <;> simp [freeBases, h]

theorem mem_freeBases {rs : List Range} {o : Nat} :
    o ∈ freeBases rs ↔ ∃ r ∈ rs, r.free = true ∧ r.base = o := by
  simp [freeBases, and_assoc]

theorem sorted_middle_iff {xs ys : List Range} {r : Range} :
    (xs ++ r :: ys).Pairwise Range.Before ↔
      xs.Pairwise Range.Before ∧ ys.Pairwise Range.Before ∧ (∀ s ∈ xs, s.Before r) ∧
        (∀ s ∈ ys, r.Before s) ∧ ∀ s ∈ xs, ∀ t ∈ ys, s.Before t := by
  simp only [List.pairwise_append, List.pairwise_cons, List.forall_mem_cons]
  constructor
  · rintro ⟨hxs, ⟨hr, hys⟩, hall⟩
    exact ⟨hxs, hys, fun s hs => (hall s hs).1, hr, fun s hs => (hall s hs).2⟩
  · rintro ⟨hxs, hys, hr, hr', hall⟩
    exact ⟨hxs, ⟨hr', hys⟩, fun s hs => ⟨hr s hs, hall s hs⟩⟩

section
variable {rs : List Range} {os : List Nat}

/-- What lies before a range, and behind it. -/
theorem Layout.middle {xs ys : List Range} {r : Range} (h : Layout (xs ++ r :: ys) os) :
    (∀ s ∈ xs, s.base < r.base ∧ s.stop ≤ r.base) ∧ ∀ s ∈ ys, r.base < s.base ∧ r.stop ≤ s.base := by
  obtain ⟨-, -, hxs, hys, -⟩ := sorted_middle_iff.1 h.sorted
  have hroom : ∀ s ∈ xs ++ r :: ys, s.base + 24 ≤ s.stop := fun s hs => (h.valid s hs).room
  constructor
  · intro s hs
    have hle : s.stop ≤ r.base := hxs s hs
    have := hroom s (by simp [hs])
    omega
  · intro s hs
    have hle : r.stop ≤ s.base := hys s hs
    have := hroom r (by simp)
    omega

theorem Layout.base_injective (h : Layout rs os) {r s : Range} (hr : r ∈ rs) (hs : s ∈ rs)
    (heq : r.base = s.base) : r = s := by
  obtain ⟨xs, ys, rfl⟩ := List.append_of_mem hr
  obtain ⟨hxs, hys⟩ := h.middle
  rcases List.mem_append.1 hs with hs | hs
  · exact absurd heq (by have := (hxs s hs).1; omega)
  · rcases List.mem_cons.1 hs with rfl | hs
    · rfl
    · exact absurd heq (by have := (hys s hs).1; omega)

/-- Two ranges: one lies wholly before the other. -/
theorem Layout.disjoint (h : Layout rs os) {r s : Range} (hr : r ∈ rs) (hs : s ∈ rs)
    (hne : r ≠ s) : r.stop ≤ s.base ∨ s.stop ≤ r.base := by
  obtain ⟨xs, ys, rfl⟩ := List.append_of_mem hr
  obtain ⟨hxs, hys⟩ := h.middle
  rcases List.mem_append.1 hs with hs | hs
  · exact .inr (hxs s hs).2
  · rcases List.mem_cons.1 hs with rfl | hs
    · exact absurd rfl hne
    · exact .inl (hys s hs).2

theorem Layout.bases_nodup (h : Layout rs os) : (rs.map (·.base)).Nodup := by
  rw [List.nodup_iff_pairwise_ne, List.pairwise_map]
  refine h.sorted.imp_of_mem fun {r s} hr _ hle => ?_
  have hroom := (h.valid r hr).room
  have hbefore : r.stop ≤ s.base := hle
  omega

theorem Layout.nodup (h : Layout rs os) : os.Nodup := by
  rw [h.perm.nodup_iff]
  exact h.bases_nodup.sublist (List.filter_sublist.map _)

theorem Layout.mem_iff (h : Layout rs os) (o : Nat) :
    o ∈ os ↔ ∃ r ∈ rs, r.free = true ∧ r.base = o := by
  rw [h.perm.mem_iff, mem_freeBases]

end

theorem mem_pieces {r s : Range} {lo hi : Nat} {permanent keepHead keepTail : Bool} :
    s ∈ pieces r lo hi permanent keepHead keepTail ↔
      (keepHead = true ∧ s = { r with stop := lo }) ∨
      (permanent = false ∧ s = { base := lo, stop := hi, free := false }) ∨
      (keepTail = true ∧ s = { r with base := hi }) := by
  cases keepHead <;> cases permanent <;> cases keepTail <;> simp [pieces]

theorem pieces_map_base (r : Range) (lo hi : Nat) (permanent keepHead keepTail : Bool) :
    (pieces r lo hi permanent keepHead keepTail).map (·.base) =
      (if keepHead then [r.base] else []) ++ ((if permanent then [] else [lo]) ++
        (if keepTail then [hi] else [])) := by
  cases keepHead <;> cases permanent <;> cases keepTail <;> rfl

/-- A field of the ranges after a carving, piece by piece. -/
theorem pieces_field {β : Type*} {f : Nat → β} {g : Range → β} {xs ys : List Range} {r : Range}
    {lo hi : Nat} {permanent keepHead keepTail : Bool} (hxs : ∀ s ∈ xs, f s.base = g s)
    (hys : ∀ s ∈ ys, f s.base = g s) (hhead : keepHead = true → f r.base = g { r with stop := lo })
    (hblock : permanent = false → f lo = g { base := lo, stop := hi, free := false })
    (htail : keepTail = true → f hi = g { r with base := hi }) :
    ∀ s ∈ xs ++ pieces r lo hi permanent keepHead keepTail ++ ys, f s.base = g s := by
  simp only [List.forall_mem_append]
  refine ⟨⟨hxs, fun s hs => ?_⟩, hys⟩
  rcases mem_pieces.1 hs with ⟨hkeep, rfl⟩ | ⟨hperm, rfl⟩ | ⟨hkeep, rfl⟩
  · exact hhead hkeep
  · exact hblock hperm
  · exact htail hkeep

/-- The order gains or loses the bases that the ranges do. -/
theorem perm_of_count {os os' rs rs' : List Nat} (h : os.Perm rs)
    (hcount : ∀ x, os'.count x + rs.count x = rs'.count x + os.count x) : os'.Perm rs' := by
  rw [List.perm_iff_count] at h ⊢
  intro x
  have := h x
  have := hcount x
  omega

section
variable {base stop : Nat} {rs rs' : List Range} {os os' : List Nat}

theorem Added.layout (hadd : Added base stop rs os rs' os') (h : Layout rs os) (hbase : base ≠ 0)
    (hbase_dvd : 4 ∣ base) (hstop_dvd : 4 ∣ stop) (hlt : base < stop) (hstop : stop < 4294967296) :
    Layout rs' os' := by
  obtain ⟨hsorted, hvalid, hperm⟩ := h
  refine ⟨?_, ?_, perm_of_count hperm ?_⟩
  · cases hadd with
    | both hp hq hpb hqb =>
      simp only [sorted_middle_iff, List.pairwise_cons, List.forall_mem_cons, Range.Before] at hsorted ⊢
      grind
    | prev hp hpb hys =>
      simp only [sorted_middle_iff, Range.Before] at hsorted ⊢
      grind
    | next hxs hq hqb =>
      simp only [sorted_middle_iff, Range.Before] at hsorted ⊢
      grind
    | fresh hxs hys hroom =>
      obtain ⟨hxs', hys', hall⟩ := List.pairwise_append.1 hsorted
      exact sorted_middle_iff.2 ⟨hxs', hys', fun s hs => (hxs s hs).1, hys, hall⟩
  · cases hadd with
    | both hp hq hpb hqb =>
      simp only [List.forall_mem_append, List.forall_mem_cons] at hvalid ⊢
      obtain ⟨hxs, hp', hq', hys⟩ := hvalid
      refine ⟨hxs, ⟨hp'.pos, hp'.base_dvd, hq'.stop_dvd, ?_, hq'.stop_lt⟩, hys⟩
      have := hp'.room
      have := hq'.room
      dsimp only
      omega
    | prev hp hpb hys =>
      simp only [List.forall_mem_append, List.forall_mem_cons] at hvalid ⊢
      obtain ⟨hxs, hp', hys'⟩ := hvalid
      refine ⟨hxs, ⟨hp'.pos, hp'.base_dvd, hstop_dvd, ?_, hstop⟩, hys'⟩
      have := hp'.room
      dsimp only
      omega
    | next hxs hq hqb =>
      simp only [List.forall_mem_append, List.forall_mem_cons] at hvalid ⊢
      obtain ⟨hxs', hq', hys⟩ := hvalid
      refine ⟨hxs', ⟨hbase, hbase_dvd, hq'.stop_dvd, ?_, hq'.stop_lt⟩, hys⟩
      have := hq'.room
      dsimp only
      omega
    | fresh hxs hys hroom =>
      simp only [List.forall_mem_append, List.forall_mem_cons] at hvalid ⊢
      exact ⟨hvalid.1, ⟨hbase, hbase_dvd, hstop_dvd, hroom, hstop⟩, hvalid.2⟩
  · intro x
    cases hadd with
    | both hp hq hpb hqb =>
      simp [List.count_append, List.count_cons, hp, hq]
      omega
    | prev hp hpb hys =>
      simp [List.count_append, List.count_cons, hp]
      omega
    | next hxs hq hqb =>
      simp [List.count_append, List.count_cons, hq]
      omega
    | fresh hxs hys hroom =>
      simp [List.count_append, List.count_cons]
      omega

theorem Carved.layout {lo hi : Nat} {permanent : Bool} (hcarve : Carved lo hi permanent rs os rs' os')
    (h : Layout rs os) (hlo_dvd : 4 ∣ lo) (hhi_dvd : 4 ∣ hi) (hlt : lo < hi)
    (hroom : permanent = false → lo + 24 ≤ hi) : Layout rs' os' := by
  obtain ⟨hsorted, hvalid, hperm⟩ := h
  cases hcarve with
  | @mk xs ys us vs r hr hlo hhi keepHead keepTail hhead htail hall =>
    simp only [List.forall_mem_append, List.forall_mem_cons] at hvalid
    obtain ⟨hxs, hr', hys⟩ := hvalid
    refine ⟨?_, ?_, perm_of_count hperm ?_⟩
    · simp only [sorted_middle_iff, Range.Before] at hsorted
      cases keepHead <;> cases keepTail <;> cases permanent <;>
        simp [pieces, List.pairwise_append, Range.Before] <;> grind
    · simp only [List.forall_mem_append]
      refine ⟨⟨hxs, fun s hs => ?_⟩, hys⟩
      have hroom' := hr'.room
      rcases mem_pieces.1 hs with ⟨hkeep, rfl⟩ | ⟨hperm, rfl⟩ | ⟨hkeep, rfl⟩
      · exact ⟨hr'.pos, hr'.base_dvd, hlo_dvd, hhead hkeep, by have := hr'.stop_lt; dsimp only; omega⟩
      · exact ⟨by have := hr'.pos; dsimp only; omega, hlo_dvd, hhi_dvd, hroom hperm,
          by have := hr'.stop_lt; dsimp only; omega⟩
      · exact ⟨by dsimp only; omega, hhi_dvd, hr'.stop_dvd, htail hkeep, hr'.stop_lt⟩
    · intro x
      cases keepHead <;> cases keepTail <;> cases permanent <;>
        simp [pieces, List.count_append, List.count_cons, hr] <;> omega

theorem Released.layout {r : Range} (hrel : Released r rs os rs' os') (h : Layout rs os)
    (hr : r.free = false) : Layout rs' os' := by
  obtain ⟨hsorted, hvalid, hperm⟩ := h
  refine ⟨?_, ?_, perm_of_count hperm ?_⟩
  · cases hrel <;>
      simp only [sorted_middle_iff, List.pairwise_cons, List.forall_mem_cons, Range.Before] at hsorted ⊢ <;>
      grind
  · cases hrel with
    | both hp hq hpr hrq =>
      simp only [List.forall_mem_append, List.forall_mem_cons] at hvalid ⊢
      obtain ⟨hxs, hp', hr', hq', hys⟩ := hvalid
      refine ⟨hxs, ⟨hp'.pos, hp'.base_dvd, hq'.stop_dvd, ?_, hq'.stop_lt⟩, hys⟩
      have := hp'.room
      have := hr'.room
      have := hq'.room
      dsimp only
      omega
    | prev hp hpr hys =>
      simp only [List.forall_mem_append, List.forall_mem_cons] at hvalid ⊢
      obtain ⟨hxs, hp', hr', hys'⟩ := hvalid
      refine ⟨hxs, ⟨hp'.pos, hp'.base_dvd, hr'.stop_dvd, ?_, hr'.stop_lt⟩, hys'⟩
      have := hp'.room
      have := hr'.room
      dsimp only
      omega
    | next hxs hq hrq =>
      simp only [List.forall_mem_append, List.forall_mem_cons] at hvalid ⊢
      obtain ⟨hxs', hr', hq', hys⟩ := hvalid
      refine ⟨hxs', ⟨hr'.pos, hr'.base_dvd, hq'.stop_dvd, ?_, hq'.stop_lt⟩, hys⟩
      have := hr'.room
      have := hq'.room
      dsimp only
      omega
    | alone hxs hys =>
      simp only [List.forall_mem_append, List.forall_mem_cons] at hvalid ⊢
      obtain ⟨hxs', hr', hys'⟩ := hvalid
      exact ⟨hxs', ⟨hr'.pos, hr'.base_dvd, hr'.stop_dvd, hr'.room, hr'.stop_lt⟩, hys'⟩
  · intro x
    cases hrel <;> simp [List.count_append, List.count_cons, *] <;> omega

/-! ## Free ranges that touch -/

theorem Added.noTouch (hadd : Added base stop rs os rs' os') (h : Layout rs os) (ht : NoTouch rs)
    (hlt : base < stop) (habove : ∀ r ∈ rs, r.stop ≤ base) : NoTouch rs' := by
  have hroom : ∀ r ∈ rs, r.base < r.stop := fun r hr => by have := (h.valid r hr).room; omega
  unfold NoTouch at ht ⊢
  -- nothing lies at `stop` or behind it
  cases hadd <;> simp only [List.forall_mem_append, List.forall_mem_cons] at ht hroom habove ⊢ <;>
    grind

theorem Carved.noTouch {lo hi : Nat} {permanent : Bool} (hcarve : Carved lo hi permanent rs os rs' os')
    (h : Layout rs os) (ht : NoTouch rs) (hlt : lo < hi) : NoTouch rs' := by
  have hroom : ∀ r ∈ rs, r.base < r.stop := fun r hr => by have := (h.valid r hr).room; omega
  have hsorted := h.sorted
  unfold NoTouch at ht ⊢
  cases hcarve
  simp only [sorted_middle_iff, Range.Before, List.forall_mem_append, List.forall_mem_cons,
    mem_pieces] at ht hroom hsorted ⊢
  grind

theorem Released.noTouch {r : Range} (hrel : Released r rs os rs' os') (h : Layout rs os)
    (ht : NoTouch rs) : NoTouch rs' := by
  have hroom : ∀ r ∈ rs, r.base < r.stop := fun r hr => by have := (h.valid r hr).room; omega
  have hsorted := h.sorted
  unfold NoTouch at ht ⊢
  cases hrel <;> simp only [sorted_middle_iff, Range.Before, List.forall_mem_append, List.forall_mem_cons] at ht hroom hsorted ⊢ <;>
    grind

/-! ## Ranges that stay -/

theorem Added.keeps {r : Range} (hadd : Added base stop rs os rs' os') (hr : r ∈ rs)
    (hfree : r.free = false) : r ∈ rs' := by
  cases hadd <;> grind

theorem Carved.keeps {lo hi : Nat} {permanent : Bool} {r : Range}
    (hcarve : Carved lo hi permanent rs os rs' os') (hr : r ∈ rs) (hfree : r.free = false) :
    r ∈ rs' := by
  cases hcarve
  grind

theorem Carved.block {lo hi : Nat} (hcarve : Carved lo hi false rs os rs' os') :
    { base := lo, stop := hi, free := false } ∈ rs' := by
  cases hcarve
  exact List.mem_append_left _ (List.mem_append_right _ (mem_pieces.2 (.inr (.inl ⟨rfl, rfl⟩))))

theorem Released.keeps {r s : Range} (hrel : Released r rs os rs' os') (hs : s ∈ rs)
    (hfree : s.free = false) (hne : s ≠ r) : s ∈ rs' := by
  cases hrel <;> grind

section
variable {live live' : List Block}

/-- Ranges that lose none that a block has. -/
theorem Snug.replace (h : Snug live rs) (hsub : ∀ b ∈ live', b ∈ live)
    (hkeep : ∀ r ∈ rs, r.free = false → ∀ b ∈ live', r.base + 24 = b.ptr → r ∈ rs') :
    Snug live' rs' := by
  intro b hb hperm
  obtain ⟨r, hr, hfree, hbase, hstop⟩ := h b (hsub b hb) hperm
  exact ⟨r, hkeep r hr hfree b hb hbase, hfree, hbase, hstop⟩

theorem Snug.cons {b : Block} {r : Range} (h : Snug live rs) (hr : r ∈ rs) (hfree : r.free = false)
    (hbase : r.base + 24 = b.ptr) (hstop : r.stop < b.ptr + roundUp b.size + 24) :
    Snug (b :: live) rs :=
  List.forall_mem_cons.2 ⟨fun _ => ⟨r, hr, hfree, hbase, hstop⟩, h⟩

theorem Snug.permanent {b : Block} (h : Snug live rs) (hperm : b.permanent = true) :
    Snug (b :: live) rs := by
  refine List.forall_mem_cons.2 ⟨fun hfalse => ?_, h⟩
  rw [hperm] at hfalse
  cases hfalse

theorem Added.snug (hadd : Added base stop rs os rs' os') (h : Snug live rs) : Snug live rs' :=
  h.replace (fun _ hb => hb) fun _ hr hfree _ _ _ => hadd.keeps hr hfree

theorem Carved.snug {lo hi : Nat} {b : Block} (hcarve : Carved lo hi b.permanent rs os rs' os')
    (h : Snug live rs) (hptr : b.ptr = if b.permanent then lo else lo + 24)
    (hstop : hi < b.ptr + roundUp b.size + 24) : Snug (b :: live) rs' := by
  have hold : Snug live rs' := h.replace (fun _ hb => hb) fun _ hr hfree _ _ _ => hcarve.keeps hr hfree
  cases hperm : b.permanent with
  | true => exact hold.permanent hperm
  | false =>
    rw [hperm] at hcarve hptr
    exact hold.cons hcarve.block rfl hptr.symm hstop

theorem Released.snug {r : Range} (hrel : Released r rs os rs' os') (h : Snug live rs) :
    Snug (live.filter (·.ptr ≠ r.base + 24)) rs' := by
  refine h.replace (fun b hb => List.mem_of_mem_filter hb) fun s hs hfree b hb hbase => ?_
  refine hrel.keeps hs hfree ?_
  rintro rfl
  have hne : b.ptr ≠ s.base + 24 := by simpa using (List.mem_filter.1 hb).2
  exact hne hbase.symm

end

/-! ## Soundness -/

/-- Ranges that cover nothing but what the old ones did and `New`, and lose none that is out. -/
theorem Sound.replace {areas areas' : List Area} {live : List Block} (h : Sound areas live rs os)
    (hlayout : Layout rs' os') (New : Nat → Prop)
    (hcover : ∀ s ∈ rs', ∀ x, s.Contains x → (∃ r ∈ rs, r.Contains x) ∨ New x)
    (hkeep : ∀ b ∈ live, b.permanent = false → ∀ r ∈ rs, r.free = false → r.base + 24 = b.ptr →
      r ∈ rs') (hareas : ∀ x, InAreas areas x → InAreas areas' x)
    (hnew : ∀ x, New x → InAreas areas' x) (hfresh : ∀ x, New x → ¬InAreas areas x) :
    Sound areas' live rs' os' := by
  refine ⟨hlayout, ?_, h.aligned, fun b hb x hx => hareas x (h.block_inside b hb x hx), h.clear,
    ?_, ?_⟩
  · intro s hs x hx
    rcases hcover s hs x hx with ⟨r, hr, hrx⟩ | hx
    · exact hareas x (h.inside r hr x hrx)
    · exact hnew x hx
  · intro b hb hperm
    obtain ⟨r, hr, hfree, hbase, hstop⟩ := h.owned b hb hperm
    exact ⟨r, hkeep b hb hperm r hr hfree hbase, hfree, hbase, hstop⟩
  · intro b hb hperm s hs
    by_contra hoverlap
    -- a byte of both, which an old range or the new memory would cover
    have hsize := (h.aligned b hb).2.1
    have hroom := (hlayout.valid s hs).room
    have hb' : b.Contains (max b.ptr s.base) := by
      simp only [Block.Contains]
      omega
    have hs' : s.Contains (max b.ptr s.base) := by
      simp only [Range.Contains]
      omega
    rcases hcover s hs _ hs' with ⟨r, hr, hrx⟩ | hx
    · have := h.beside b hb hperm r hr
      simp only [Range.Contains, Block.Contains] at hrx hb'
      omega
    · exact hfresh _ hx (h.block_inside b hb _ hb')

theorem Added.sound {areas : List Area} {live : List Block} {area : Area}
    (hadd : Added base stop rs os rs' os') (h : Sound areas live rs os) (hbase : base ≠ 0)
    (hbase_dvd : 4 ∣ base) (hstop_dvd : 4 ∣ stop) (hlt : base < stop) (hstop : stop < 4294967296)
    (harea : ∀ x, base ≤ x → x < stop → area.Contains x)
    (hfresh : ∀ x, area.Contains x → ¬InAreas areas x) : Sound (area :: areas) live rs' os' := by
  refine h.replace (hadd.layout h.layout hbase hbase_dvd hstop_dvd hlt hstop)
    (fun x => base ≤ x ∧ x < stop) ?_ ?_ ?_ ?_ ?_
  · cases hadd <;> simp only [List.forall_mem_append, List.forall_mem_cons, Range.Contains] <;> grind
  · exact fun _ _ _ r hr hfree _ => hadd.keeps hr hfree
  · exact fun x ⟨a, ha, hx⟩ => ⟨a, List.mem_cons_of_mem _ ha, hx⟩
  · exact fun x hx => ⟨area, List.mem_cons_self, harea x hx.1 hx.2⟩
  · exact fun x hx => hfresh x (harea x hx.1 hx.2)

theorem Carved.sound {areas : List Area} {live : List Block} {lo hi : Nat} {b : Block}
    (hcarve : Carved lo hi b.permanent rs os rs' os') (h : Sound areas live rs os)
    (hlo_dvd : 4 ∣ lo) (hhi_dvd : 4 ∣ hi) (hptr : b.ptr = if b.permanent then lo else lo + 24)
    (hstop : b.ptr + b.size ≤ hi) (hsize : 0 < b.size) (halign : b.alignment ∣ b.ptr) :
    Sound areas (b :: live) rs' os' := by
  have hlo : lo ≤ b.ptr := by
    rw [hptr]
    split <;> omega
  have hroom : b.permanent = false → lo + 24 ≤ hi := by
    intro hperm
    rw [hperm] at hptr
    simp only [Bool.false_eq_true, if_false] at hptr
    omega
  have hlayout := hcarve.layout h.layout hlo_dvd hhi_dvd (by omega) hroom
  -- the old blocks are where they were
  have hold : Sound areas live rs' os' := by
    refine h.replace hlayout (fun _ => False) ?_ ?_ (fun _ hx => hx) (fun _ => False.elim)
      fun _ => False.elim
    · cases hcarve
      simp only [List.forall_mem_append, Range.Contains, mem_pieces]
      grind
    · exact fun _ _ _ r hr hfree _ => hcarve.keeps hr hfree
  cases hcarve with
  | @mk xs ys us vs r hr hrlo hrhi keepHead keepTail hhead htail hall =>
    have hrmem : r ∈ xs ++ r :: ys := by simp
    have hrvalid := h.layout.valid r hrmem
    have hpos := hrvalid.pos
    obtain ⟨hxs, hys⟩ := h.layout.middle
    refine ⟨hlayout, hold.inside, ?_, ?_, ?_, ?_, ?_⟩
    · exact List.forall_mem_cons.2 ⟨⟨by omega, hsize, halign⟩, h.aligned⟩
    · refine List.forall_mem_cons.2 ⟨fun x hx => h.inside r hrmem x ?_, h.block_inside⟩
      simp only [Block.Contains] at hx
      exact ⟨by omega, by omega⟩
    · refine List.pairwise_cons.2 ⟨fun c hc => ?_, h.clear⟩
      -- an old block is in a range of its own, or beside all of them
      simp only [Block.Clear]
      cases hcperm : c.permanent with
      | false =>
        obtain ⟨s, hs, hsfree, hsbase, hsstop⟩ := h.owned c hc hcperm
        have hne : r ≠ s := by
          rintro rfl
          rw [hr] at hsfree
          cases hsfree
        have := h.layout.disjoint hrmem hs hne
        omega
      | true =>
        have := h.beside c hc hcperm r hrmem
        omega
    · refine List.forall_mem_cons.2 ⟨fun hperm => ?_, hold.owned⟩
      rw [hperm] at hptr
      refine ⟨{ base := lo, stop := hi, free := false }, ?_, rfl, hptr.symm, hstop⟩
      exact List.mem_append_left _ (List.mem_append_right _ (mem_pieces.2 (.inr (.inl ⟨hperm, rfl⟩))))
    · refine List.forall_mem_cons.2 ⟨fun hperm s hs => ?_, hold.beside⟩
      rcases List.mem_append.1 hs with hs | hs
      · rcases List.mem_append.1 hs with hs | hs
        · have := (hxs s hs).2
          omega
        · rcases mem_pieces.1 hs with ⟨-, rfl⟩ | ⟨hfalse, -⟩ | ⟨-, rfl⟩
          · exact .inr hlo
          · rw [hperm] at hfalse
            cases hfalse
          · exact .inl hstop
      · have := (hys s hs).2
        omega

theorem Released.sound {areas : List Area} {live : List Block} {r : Range}
    (hrel : Released r rs os rs' os') (h : Sound areas live rs os) (hr : r.free = false) :
    Sound areas (live.filter (·.ptr ≠ r.base + 24)) rs' os' := by
  have hsub : ∀ b ∈ live.filter (·.ptr ≠ r.base + 24), b ∈ live ∧ b.ptr ≠ r.base + 24 := by
    intro b hb
    simpa using hb
  -- without the block that goes
  have hrest : Sound areas (live.filter (·.ptr ≠ r.base + 24)) rs os :=
    { h with
      aligned := fun b hb => h.aligned b (hsub b hb).1
      block_inside := fun b hb => h.block_inside b (hsub b hb).1
      clear := h.clear.sublist List.filter_sublist
      owned := fun b hb => h.owned b (hsub b hb).1
      beside := fun b hb => h.beside b (hsub b hb).1 }
  refine hrest.replace (hrel.layout h.layout hr) (fun _ => False) ?_ ?_ (fun _ hx => hx)
    (fun _ => False.elim) fun _ => False.elim
  · cases hrel <;> simp only [List.forall_mem_append, List.forall_mem_cons, Range.Contains] <;> grind
  · intro b hb hperm s hs hfree hbase
    refine hrel.keeps hs hfree ?_
    rintro rfl
    exact (hsub b hb).2 hbase.symm

end

end XrLinux.Bootloader
