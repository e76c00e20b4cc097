import Mathlib.Tactic.Common

/-!
# Path resolution

A name space has places; in those that are directories a name leads to another place or to a link,
whose target is a path itself. `resolve` says where a path leads from a place: absolute paths start
at the root, the components are looked up one after the other, and a link is resolved from the
directory that has it, with the rest of the path continuing from there. Links nest to a limit.

`Anchored` is for resolutions whose relative links are all found in the root.
-/

namespace PathResolution

variable {ε Loc Loc' Sym : Type}

/-- What a name leads to. -/
inductive Entry (Loc Sym : Type) where
  | place (n : Loc)
  | link (target : List Sym)

/-- A lookup can fail altogether, with an `ε`. -/
structure NameSpace (ε Loc Sym : Type) where
  root : Loc
  isDirectory : Loc → Bool
  lookup : Loc → List Sym → Except ε (Option (Entry Loc Sym))
  separator : Sym

def Entry.map (f : Loc → Loc') : Entry Loc Sym → Entry Loc' Sym
  | place n => place (f n)
  | link target => link target

section
variable [DecidableEq Sym]

/-- The names in a path. -/
def components (separator : Sym) (path : List Sym) : List (List Sym) :=
  (path.splitOnP (· = separator)).filter (· ≠ [])

/-- What comes before and behind the first name. -/
def fromName (separator : Sym) (path : List Sym) : List Sym := path.dropWhile (· = separator)

def firstName (separator : Sym) (path : List Sym) : List Sym :=
  (fromName separator path).takeWhile (· ≠ separator)

def afterName (separator : Sym) (path : List Sym) : List Sym :=
  (fromName separator path).dropWhile (· ≠ separator)

/-- The path asks for a directory. -/
def trailing (separator : Sym) (path : List Sym) : Bool := path.getLast? = some separator

variable {separator : Sym} {path : List Sym}

@[simp] theorem components_nil : components separator [] = [] := by
  simp [components]

theorem components_separator (path : List Sym) :
    components separator (separator :: path) = components separator path := by
  unfold components
  rw [List.splitOnP_cons_eq_if_modifyHead, if_pos (by simp), List.filter_cons, if_neg (by simp)]

theorem components_fromName (path : List Sym) :
    components separator (fromName separator path) = components separator path := by
  induction path with
  | nil => rfl
  | cons x path ih =>
    unfold fromName at ih ⊢
    by_cases hx : x = separator
    · subst hx
      rw [List.dropWhile_cons_of_pos (by simp), ih, components_separator]
    · rw [List.dropWhile_cons_of_neg (by simpa using hx)]

/-- A name up to the end of the path, or to a separator. -/
theorem components_append {name rest : List Sym} (hname : name ≠ [])
    (hsep : ∀ x ∈ name, x ≠ separator) (hrest : rest = [] ∨ ∃ tail, rest = separator :: tail) :
    components separator (name ++ rest) = name :: components separator rest := by
  have hall : ∀ x ∈ name, decide (x = separator) = false := by
    intro x hx
    simpa using hsep x hx
  rcases hrest with rfl | ⟨tail, rfl⟩
  · rw [List.append_nil, components_nil]
    unfold components
    rw [List.splitOnP_eq_singleton hall, List.filter_cons, if_pos (by simpa using hname)]
    rfl
  · rw [components_separator]
    unfold components
    rw [List.splitOnP_append_cons_of_forall_mem hall _ (by simp), List.filter_cons,
      if_pos (by simpa using hname)]

theorem afterName_cases (separator : Sym) (path : List Sym) :
    afterName separator path = [] ∨ ∃ tail, afterName separator path = separator :: tail := by
  unfold afterName
  cases h : (fromName separator path).dropWhile (· ≠ separator) with
  | nil => exact .inl rfl
  | cons x tail =>
    have hx := List.head?_dropWhile_not (· ≠ separator) (fromName separator path)
    rw [h] at hx
    have hx : x = separator := by simpa using hx
    exact .inr ⟨tail, by rw [hx]⟩

theorem firstName_ne_nil (hpath : fromName separator path ≠ []) : firstName separator path ≠ [] := by
  unfold firstName
  cases h : fromName separator path with
  | nil => exact absurd h hpath
  | cons x tail =>
    have hx := List.head?_dropWhile_not (· = separator) path
    unfold fromName at h
    rw [h] at hx
    have hx : ¬x = separator := by simpa using hx
    rw [List.takeWhile_cons_of_pos (by simpa using hx)]
    exact List.cons_ne_nil _ _

theorem firstName_append_afterName (separator : Sym) (path : List Sym) :
    firstName separator path ++ afterName separator path = fromName separator path :=
  List.takeWhile_append_dropWhile

theorem drop_firstName (separator : Sym) (path : List Sym) :
    (fromName separator path).drop (firstName separator path).length = afterName separator path := by
  conv => lhs; rw [← firstName_append_afterName, List.drop_left]

theorem afterName_length_lt (hpath : fromName separator path ≠ []) :
    (afterName separator path).length < path.length := by
  have hle : (fromName separator path).length ≤ path.length :=
    (List.dropWhile_sublist _).length_le
  have hsum := congrArg List.length (firstName_append_afterName separator path)
  rw [List.length_append] at hsum
  have hpos := List.length_pos_iff.2 (firstName_ne_nil hpath)
  omega

/-- The names in a path, from the first one on. -/
theorem components_eq (hpath : fromName separator path ≠ []) :
    components separator path =
      firstName separator path :: components separator (afterName separator path) := by
  rw [← components_fromName, ← firstName_append_afterName]
  refine components_append (firstName_ne_nil hpath) (fun x hx => ?_) (afterName_cases _ _)
  simpa using List.all_eq_true.1 List.all_takeWhile x hx

theorem trailing_append {front rest : List Sym} (hrest : rest ≠ []) :
    trailing separator (front ++ rest) = trailing separator rest := by
  unfold trailing
  rw [List.getLast?_append, List.getLast?_eq_some_getLast hrest]
  rfl

theorem trailing_fromName (hpath : fromName separator path ≠ []) :
    trailing separator path = trailing separator (fromName separator path) := by
  conv => lhs; rw [← List.takeWhile_append_dropWhile (p := (· = separator)) (l := path)]
  exact trailing_append hpath

/-- Whether a path asks for a directory is seen behind its first name. -/
theorem trailing_afterName (hpath : fromName separator path ≠ []) :
    trailing separator path = trailing separator (afterName separator path) := by
  rw [trailing_fromName hpath, ← firstName_append_afterName]
  by_cases hrest : afterName separator path = []
  · rw [hrest, List.append_nil]
    -- the last of a name is no separator
    have hlast : ∀ x ∈ (firstName separator path).getLast?, x ≠ separator := by
      intro x hx
      simpa using List.all_eq_true.1 List.all_takeWhile x (List.mem_of_getLast? hx)
    unfold trailing
    cases h : (firstName separator path).getLast? with
    | none => rfl
    | some x => simpa using hlast x h
  · exact trailing_append hrest

/-- A path of separators only. -/
theorem of_fromName_nil (hpath : path ≠ []) (hfrom : fromName separator path = []) :
    components separator path = [] ∧ trailing separator path = true := by
  constructor
  · rw [← components_fromName, hfrom, components_nil]
  · have hall : ∀ x ∈ path, x = separator := by
      unfold fromName at hfrom
      intro x hx
      have hmem : x ∈ path.takeWhile (· = separator) ++ path.dropWhile (· = separator) := by
        rwa [List.takeWhile_append_dropWhile]
      rw [hfrom, List.append_nil] at hmem
      simpa using List.all_eq_true.1 List.all_takeWhile x hmem
    unfold trailing
    rw [List.getLast?_eq_some_getLast hpath, hall _ (List.getLast_mem hpath)]
    simp

end

section
variable [DecidableEq Sym] (S : NameSpace ε Loc Sym)

/-- One name after the other, links by `expand`. -/
def walk (expand : Loc → List Sym → Except ε (Option Loc)) (directory : Bool) :
    Loc → List (List Sym) → Except ε (Option Loc)
  | n, [] => .ok (if directory && !S.isDirectory n then none else some n)
  | n, name :: names =>
    if S.isDirectory n then
      match S.lookup n name with
      | .error e => .error e
      | .ok none => .ok none
      | .ok (some (.place m)) => walk expand directory m names
      | .ok (some (.link target)) =>
        match expand n target with
        | .error e => .error e
        | .ok none => .ok none
        | .ok (some m) => walk expand directory m names
    else .ok none

/-- Where a path starts. -/
def start (n : Loc) (path : List Sym) : Loc := if path.head? = some S.separator then S.root else n

/-- Where a path leads from a place, with links nested less than `left` deep. -/
def resolve : Nat → Loc → List Sym → Except ε (Option Loc)
  | 0, _, _ => .ok none
  | left + 1, n, path =>
    if path = [] then .ok none
    else walk S (resolve left) (trailing S.separator path) (start S n path)
      (components S.separator path)

/-- `resolve`, from the place where the path starts. -/
def walkPath (left : Nat) (n : Loc) (path : List Sym) : Except ε (Option Loc) :=
  walk S (resolve S left) (trailing S.separator path) n (components S.separator path)

def walkAnchored (expand : Loc → List Sym → Except ε (Option Loc)) (anchored : Loc → List Sym → Prop) :
    Loc → List (List Sym) → Prop
  | _, [] => True
  | n, name :: names => S.isDirectory n →
    match S.lookup n name with
    | .ok (some (.place m)) => walkAnchored expand anchored m names
    | .ok (some (.link target)) => anchored n target ∧
      match expand n target with
      | .ok (some m) => walkAnchored expand anchored m names
      | _ => True
    | _ => True

/-- The link can be resolved: its target is absolute or empty, or links are too deep already, or the
directory is the root. -/
def Kept (left : Nat) (n : Loc) (target : List Sym) : Prop :=
  left = 0 ∨ target = [] ∨ target.head? = some S.separator ∨ n = S.root

/-- Every link that is resolved to an end is one that can be. -/
def Anchored : Nat → Loc → List Sym → Prop
  | 0, _, _ => True
  | left + 1, n, path => path ≠ [] →
    walkAnchored S (resolve S left)
      (fun d target => Anchored left d target ∧
        ((∃ m, resolve S left d target = .ok m) → Kept S left d target))
      (start S n path) (components S.separator path)

def walkPathAnchored (left : Nat) (n : Loc) (path : List Sym) : Prop :=
  walkAnchored S (resolve S left)
    (fun d target => Anchored S left d target ∧
      ((∃ m, resolve S left d target = .ok m) → Kept S left d target))
    n (components S.separator path)

/-- The rest of a path, from where the first name leads. -/
def walkRest (left : Nat) (rest : List Sym) : Option Loc → Except ε (Option Loc)
  | none => .ok none
  | some n => walkPath S left n rest

def walkRestAnchored (left : Nat) (rest : List Sym) : Option Loc → Prop
  | none => True
  | some n => walkPathAnchored S left n rest

variable {S} {n : Loc} {path : List Sym} {left : Nat}

theorem resolve_succ (hpath : path ≠ []) :
    resolve S (left + 1) n path = walkPath S left (start S n path) path :=
  if_neg hpath

theorem anchored_succ (hpath : path ≠ []) :
    Anchored S (left + 1) n path ↔ walkPathAnchored S left (start S n path) path :=
  ⟨fun h => h hpath, fun h _ => h⟩

@[simp] theorem walkPath_nil : walkPath S left n [] = .ok (some n) := by
  unfold walkPath
  rw [components_nil]
  rfl

@[simp] theorem walkPathAnchored_nil : walkPathAnchored S left n [] := by
  unfold walkPathAnchored
  rw [components_nil]
  trivial

theorem walkPath_place (left : Nat) (hpath : path ≠ []) (hplace : S.isDirectory n = false) :
    walkPath S left n path = .ok none ∧ walkPathAnchored S left n path := by
  unfold walkPath walkPathAnchored
  by_cases hfrom : fromName S.separator path = []
  · obtain ⟨hcomponents, htrailing⟩ := of_fromName_nil hpath hfrom
    rw [hcomponents, htrailing]
    exact ⟨by simp [walk, hplace], trivial⟩
  · rw [components_eq hfrom]
    exact ⟨by simp [walk, hplace], fun hdirectory => absurd hdirectory (by simp [hplace])⟩

theorem walkPath_separators (left : Nat) (hpath : path ≠ [])
    (hfrom : fromName S.separator path = []) (hdirectory : S.isDirectory n = true) :
    walkPath S left n path = .ok (some n) ∧ walkPathAnchored S left n path := by
  obtain ⟨hcomponents, htrailing⟩ := of_fromName_nil hpath hfrom
  unfold walkPath walkPathAnchored
  rw [hcomponents, htrailing]
  exact ⟨by simp [walk, hdirectory], trivial⟩

section
variable (left) (hfrom : fromName S.separator path ≠ []) (hdirectory : S.isDirectory n = true)
include hfrom hdirectory

/-- A walk takes the first name, and then the rest of the path. -/
theorem walkPath_name :
    walkPath S left n path =
      match S.lookup n (firstName S.separator path) with
      | .error e => .error e
      | .ok none => .ok none
      | .ok (some (.place m)) => walkPath S left m (afterName S.separator path)
      | .ok (some (.link target)) =>
        match resolve S left n target with
        | .error e => .error e
        | .ok none => .ok none
        | .ok (some m) => walkPath S left m (afterName S.separator path) := by
  unfold walkPath
  rw [components_eq hfrom, trailing_afterName hfrom]
  exact if_pos hdirectory

theorem walkPathAnchored_name :
    walkPathAnchored S left n path ↔
      match S.lookup n (firstName S.separator path) with
      | .ok (some (.place m)) => walkPathAnchored S left m (afterName S.separator path)
      | .ok (some (.link target)) =>
        (Anchored S left n target ∧
          ((∃ m, resolve S left n target = .ok m) → Kept S left n target)) ∧
        match resolve S left n target with
        | .ok (some m) => walkPathAnchored S left m (afterName S.separator path)
        | _ => True
      | _ => True := by
  unfold walkPathAnchored
  rw [components_eq hfrom]
  exact ⟨fun h => h hdirectory, fun h _ => h⟩

theorem walkPath_failed {e : ε} (h : S.lookup n (firstName S.separator path) = .error e) :
    walkPath S left n path = .error e ∧ walkPathAnchored S left n path := by
  rw [walkPath_name left hfrom hdirectory, walkPathAnchored_name left hfrom hdirectory, h]
  exact ⟨rfl, trivial⟩

theorem walkPath_missing (h : S.lookup n (firstName S.separator path) = .ok none) :
    walkPath S left n path = .ok none ∧ walkPathAnchored S left n path := by
  rw [walkPath_name left hfrom hdirectory, walkPathAnchored_name left hfrom hdirectory, h]
  exact ⟨rfl, trivial⟩

theorem walkPath_found {m : Loc}
    (h : S.lookup n (firstName S.separator path) = .ok (some (.place m))) :
    walkPath S left n path = walkRest S left (afterName S.separator path) (some m) ∧
      (walkPathAnchored S left n path ↔
        walkRestAnchored S left (afterName S.separator path) (some m)) := by
  rw [walkPath_name left hfrom hdirectory, walkPathAnchored_name left hfrom hdirectory, h]
  exact ⟨rfl, Iff.rfl⟩

theorem walkPath_link {target : List Sym}
    (h : S.lookup n (firstName S.separator path) = .ok (some (.link target))) :
    walkPath S left n path =
        (resolve S left n target).bind (walkRest S left (afterName S.separator path)) ∧
      (walkPathAnchored S left n path ↔ Anchored S left n target ∧
        ∀ m, resolve S left n target = .ok m → Kept S left n target ∧
          walkRestAnchored S left (afterName S.separator path) m) := by
  rw [walkPath_name left hfrom hdirectory, walkPathAnchored_name left hfrom hdirectory, h]
  dsimp only
  cases resolve S left n target with
  | error e => exact ⟨rfl, by simp⟩
  | ok m => cases m <;> exact ⟨rfl, by simp [walkRestAnchored, and_assoc]⟩

end

end

/-! ## Lookups that do not fail -/

section
variable {S : NameSpace ε Loc Sym} (hlookup : ∀ n name, ∃ entry, S.lookup n name = .ok entry)
include hlookup

theorem walk_ok {expand : Loc → List Sym → Except ε (Option Loc)}
    (hexpand : ∀ n target, ∃ m, expand n target = .ok m) (directory : Bool) (n : Loc)
    (names : List (List Sym)) : ∃ m, walk S expand directory n names = .ok m := by
  induction names generalizing n with
  | nil => exact ⟨_, rfl⟩
  | cons name names ih =>
    unfold walk
    split
    · obtain ⟨entry, hentry⟩ := hlookup n name
      rw [hentry]
      rcases entry with _ | m | target
      · exact ⟨_, rfl⟩
      · exact ih m
      · obtain ⟨m, hm⟩ := hexpand n target
        dsimp only
        rw [hm]
        cases m with
        | none => exact ⟨_, rfl⟩
        | some m => exact ih m
    · exact ⟨_, rfl⟩

theorem resolve_ok [DecidableEq Sym] (left : Nat) (n : Loc) (path : List Sym) :
    ∃ m, resolve S left n path = .ok m := by
  induction left generalizing n path with
  | zero => exact ⟨_, rfl⟩
  | succ left ih =>
    unfold resolve
    split
    · exact ⟨_, rfl⟩
    · exact walk_ok hlookup ih _ _ _

end

/-! ## Two name spaces -/

/-- `S'` is `S`, as `f` sees it, on the places with `I`, which lookups do not leave. -/
structure Agrees (S : NameSpace ε Loc Sym) (S' : NameSpace ε Loc' Sym) (I : Loc → Prop)
    (f : Loc → Loc') : Prop where
  separator : S'.separator = S.separator
  root : S'.root = f S.root
  root_mem : I S.root
  isDirectory : ∀ n, I n → S'.isDirectory (f n) = S.isDirectory n
  lookup : ∀ n name, I n → S.isDirectory n = true →
    S'.lookup (f n) name = (S.lookup n name).map (Option.map (Entry.map f))
  closed : ∀ n name m, I n → S.isDirectory n = true → S.lookup n name = .ok (some (.place m)) → I m

section
variable {S : NameSpace ε Loc Sym} {S' : NameSpace ε Loc' Sym} {I : Loc → Prop} {f : Loc → Loc'}
  {expand : Loc → List Sym → Except ε (Option Loc)}
  {expand' : Loc' → List Sym → Except ε (Option Loc')} {anchored : Loc → List Sym → Prop}
  {anchored' : Loc' → List Sym → Prop} {directory : Bool} {n : Loc} {path : List Sym}

theorem Agrees.walk_mem (h : Agrees S S' I f)
    (hexpand : ∀ n target m, I n → expand n target = .ok (some m) → I m) {m : Loc}
    (names : List (List Sym)) (hn : I n) (hwalk : walk S expand directory n names = .ok (some m)) :
    I m := by
  induction names generalizing n with
  | nil =>
    unfold walk at hwalk
    split at hwalk
    · cases hwalk
    · cases hwalk
      exact hn
  | cons name names ih =>
    unfold walk at hwalk
    split at hwalk
    · rename_i hdirectory
      split at hwalk
      · cases hwalk
      · cases hwalk
      · rename_i m' hlookup
        exact ih (h.closed _ _ _ hn hdirectory hlookup) hwalk
      · split at hwalk
        · cases hwalk
        · cases hwalk
        · rename_i m' hm'
          exact ih (hexpand _ _ _ hn hm') hwalk
    · cases hwalk

theorem Agrees.walk_eq (h : Agrees S S' I f)
    (hexpand : ∀ n target, I n → expand' (f n) target = (expand n target).map (Option.map f))
    (hmem : ∀ n target m, I n → expand n target = .ok (some m) → I m) (names : List (List Sym))
    (hn : I n) :
    walk S' expand' directory (f n) names = (walk S expand directory n names).map (Option.map f) := by
  induction names generalizing n with
  | nil =>
    unfold walk
    rw [h.isDirectory n hn]
    split <;> rfl
  | cons name names ih =>
    unfold walk
    rw [h.isDirectory n hn]
    by_cases hdirectory : S.isDirectory n = true
    · rw [if_pos hdirectory, if_pos hdirectory, h.lookup n name hn hdirectory]
      cases hlookup : S.lookup n name with
      | error e => rfl
      | ok entry =>
        rcases entry with _ | m | target
        · rfl
        · exact ih (h.closed _ _ _ hn hdirectory hlookup)
        · show (match expand' (f n) target with
            | .error e => .error e
            | .ok none => .ok none
            | .ok (some m) => walk S' expand' directory m names) = Except.map _ (match expand n target with
            | .error e => .error e
            | .ok none => .ok none
            | .ok (some m) => walk S expand directory m names)
          rw [hexpand n target hn]
          cases htarget : expand n target with
          | error e => rfl
          | ok r =>
            cases r with
            | none => rfl
            | some m => exact ih (hmem _ _ _ hn htarget)
    · rw [if_neg hdirectory, if_neg hdirectory]
      rfl

theorem Agrees.walkAnchored_iff (h : Agrees S S' I f)
    (hexpand : ∀ n target, I n → expand' (f n) target = (expand n target).map (Option.map f))
    (hmem : ∀ n target m, I n → expand n target = .ok (some m) → I m)
    (hanchored : ∀ n target, I n → (anchored' (f n) target ↔ anchored n target))
    (names : List (List Sym)) (hn : I n) :
    walkAnchored S' expand' anchored' (f n) names ↔ walkAnchored S expand anchored n names := by
  induction names generalizing n with
  | nil => exact Iff.rfl
  | cons name names ih =>
    unfold walkAnchored
    rw [h.isDirectory n hn]
    refine imp_congr_right fun hdirectory => ?_
    rw [h.lookup n name hn hdirectory]
    cases hlookup : S.lookup n name with
    | error e => exact Iff.rfl
    | ok entry =>
      rcases entry with _ | m | target
      · exact Iff.rfl
      · exact ih (h.closed _ _ _ hn hdirectory hlookup)
      · refine and_congr (hanchored n target hn) ?_
        rw [hexpand n target hn]
        cases htarget : expand n target with
        | error e => exact Iff.rfl
        | ok r =>
          cases r with
          | none => exact Iff.rfl
          | some m => exact ih (hmem _ _ _ hn htarget)

section
variable [DecidableEq Sym]

theorem Agrees.start_eq (h : Agrees S S' I f) (hn : I n) :
    start S' (f n) path = f (start S n path) ∧ I (start S n path) := by
  unfold start
  rw [h.separator, h.root]
  split
  · exact ⟨rfl, h.root_mem⟩
  · exact ⟨rfl, hn⟩

theorem Agrees.resolve_mem (h : Agrees S S' I f) (left : Nat) {m : Loc} (hn : I n)
    (hresolve : resolve S left n path = .ok (some m)) : I m := by
  induction left generalizing n path m with
  | zero => cases hresolve
  | succ left ih =>
    unfold resolve at hresolve
    split at hresolve
    · cases hresolve
    · exact h.walk_mem (fun n target m hn => ih hn) _ (h.start_eq hn).2 hresolve

/-- Paths lead to the same places. -/
theorem Agrees.resolve_eq (h : Agrees S S' I f) (path : List Sym) (left : Nat) (hn : I n) :
    resolve S' left (f n) path = (resolve S left n path).map (Option.map f) := by
  induction left generalizing n path with
  | zero => rfl
  | succ left ih =>
    unfold resolve
    split
    · rfl
    · rw [h.separator, (h.start_eq hn).1]
      exact h.walk_eq (fun n target hn => ih target hn) (fun n target m hn => h.resolve_mem left hn) _
        (h.start_eq hn).2


theorem Agrees.anchored_iff (h : Agrees S S' I f) (path : List Sym)
    (hroot : ∀ n, I n → (f n = S'.root ↔ n = S.root)) (left : Nat) (hn : I n) : Anchored S' left (f n) path ↔ Anchored S left n path := by
  induction left generalizing n path with
  | zero => exact Iff.rfl
  | succ left ih =>
    unfold Anchored
    rw [h.separator, (h.start_eq hn).1]
    refine imp_congr_right fun _ => h.walkAnchored_iff (fun n target hn => h.resolve_eq target left hn)
      (fun n target m hn => h.resolve_mem left hn) (fun n target hn => ?_) _ (h.start_eq hn).2
    have hkept : Kept S' left (f n) target ↔ Kept S left n target := by
      unfold Kept
      rw [h.separator, hroot n hn]
    refine and_congr (ih target hn) (imp_congr ?_ hkept)
    rw [h.resolve_eq target left hn]
    cases resolve S left n target with
    | error e => simp [Except.map]
    | ok m => simp [Except.map]

end

end

/-- The places that names lead to are other than the root, though they may be copies of it. -/
def NameSpace.copies (S : NameSpace ε Loc Sym) : NameSpace ε (Option Loc) Sym where
  root := none
  isDirectory n := S.isDirectory (n.getD S.root)
  lookup n name := (S.lookup (n.getD S.root) name).map (Option.map (Entry.map some))
  separator := S.separator

theorem NameSpace.copies_agrees (S : NameSpace ε Loc Sym) :
    Agrees S.copies S (fun _ => True) (·.getD S.root) where
  separator := rfl
  root := rfl
  root_mem := trivial
  isDirectory _ _ := rfl
  lookup n name _ _ := by
    show _ = ((S.lookup (n.getD S.root) name).map _).map _
    cases S.lookup (n.getD S.root) name with
    | error e => rfl
    | ok entry => rcases entry with _ | m | target <;> rfl
  closed _ _ _ _ _ _ := trivial

end PathResolution
