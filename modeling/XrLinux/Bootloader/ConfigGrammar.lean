import Mathlib.Data.List.TakeWhile
import XrLinux.Bootloader.Config

/-!
# Bootloader — the grammar of the configuration

What a configuration means, line by line, and that `blLoadConfigurationFromFile` reads it so
(`load_eq`). Each loop over a line gets one lemma on a buffer that is split where the loop is: the
part that is behind it, and the part before it. The marks of a line are the first places of `:` and
`#` in it (`markOf`).

The length of a value is negative when the `#` comes before the colon. Then the name has a `#` in
it, and no option has such a name.
-/

namespace XrLinux.Bootloader

/-- A text without the blanks around it. -/
def trim (text : List (BitVec 8)) : List (BitVec 8) :=
  ((text.dropWhile biIsWhitespace).reverse.dropWhile biIsWhitespace).reverse

inductive LineMeaning where
  | nothing
  | invalid
  | entry (name value : List (BitVec 8))

/-- What a line says. A `#` before the colon makes the colon part of a comment, and what is before
it no name of an option. -/
def lineMeaning (line : List (BitVec 8)) : LineMeaning :=
  let body := line.dropWhile biIsWhitespace
  if body = [] ∨ body.head? = some 0x23 then .nothing
  else if 0x3a ∉ body then .invalid
  else
    let name := body.takeWhile (· ≠ 0x3a)
    if 0x23 ∈ name then .nothing
    else .entry name (trim ((body.dropWhile (· ≠ 0x3a)).tail.takeWhile (· ≠ 0x23)))

/-- Every required option has been provided. -/
def checkRequired (options : List BiOption) : Except ConfigStop Unit :=
  match options.find? fun option => option.flags &&& (biRequired ||| biProvided) = biRequired with
  | some option =>
    .error (.crash "BiValidateOptions: missing required option `%s`" [.str option.name])
  | none => .ok ()

section
variable {σ : Type} (heap : ConfigHeap σ)

/-- The options with a new value for the one of that name, if there is one. -/
def setOption (name value : List (BitVec 8)) (config : Config σ) : Except ConfigStop (Config σ) :=
  if name ∈ config.options.map (·.name) then do
    let (s, _) ← allocateChars heap config.heap (value.length + 1)
    return {
      options := config.options.map fun option =>
        if option.name = name then option.provide (value ++ [0]) else option
      heap := s }
  else .ok config

/-- What is done with the line of that number. -/
def applyLine (n : Nat) (config : Config σ) : LineMeaning → Except ConfigStop (Config σ)
  | .nothing => .ok config
  | .invalid => .error (.crash "invalid syntax in configuration (line %zu)" [.word n])
  | .entry name value => setOption heap name value config

def applyLines : Nat → List (List (BitVec 8)) → Config σ → Except ConfigStop (Config σ)
  | _, [], config => .ok config
  | n, line :: lines, config => do
    let config ← applyLine heap n config (lineMeaning line)
    applyLines (n + 1) lines config

/-- Loading a configuration by its grammar. -/
def readConfiguration (file : List (BitVec 8)) (config : Config σ) :
    Except ConfigStop (Config σ) := do
  let (s, start) ← allocateChars heap config.heap file.length
  let config ← applyLines heap 1 (file.splitOn 0x0a) { config with heap := s }
  checkRequired config.options
  return { config with heap := heap.free config.heap start }

end

/-! ## The loops over a line -/

theorem byteAt_append {pre post : List (BitVec 8)} (c : BitVec 8) :
    byteAt (pre ++ c :: post) pre.length = .ok c := by
  unfold byteAt
  rw [List.getElem?_append_right (Nat.le_refl _), Nat.sub_self]
  rfl

theorem bytesAt_append (pre text post : List (BitVec 8)) :
    bytesAt (pre ++ (text ++ post)) pre.length text.length = .ok text := by
  unfold bytesAt
  rw [if_pos (by rw [List.length_append, List.length_append]; omega), List.drop_left,
    List.take_left]

theorem skipWhitespace_eq {fuel : Nat} {buffer : List (BitVec 8)} (hfuel : buffer.length < fuel) :
    skipWhitespace fuel buffer buffer.length =
      .ok (buffer.dropWhile biIsWhitespace, (buffer.dropWhile biIsWhitespace).length) := by
  induction fuel generalizing buffer with
  | zero => omega
  | succ fuel ih =>
    cases buffer with
    | nil => rfl
    | cons c buffer =>
      rw [List.dropWhile_cons]
      show (if biIsWhitespace c = true then skipWhitespace fuel buffer buffer.length else
        .ok (c :: buffer, (c :: buffer).length)) = _
      split
      · exact ih (Nat.lt_of_succ_lt_succ hfuel)
      · rfl

/-- The first place of a character in a text. -/
def markOf (c : BitVec 8) (text : List (BitVec 8)) : Nat :=
  if c ∈ text then text.idxOf c else sizeMax

theorem markOf_snoc {c : BitVec 8} {text : List (BitVec 8)} (d : BitVec 8)
    (hlen : text.length < sizeMax) :
    markOf c (text ++ [d]) =
      if markOf c text = sizeMax ∧ d = c then text.length else markOf c text := by
  unfold markOf
  by_cases hmem : c ∈ text
  · have hlt := List.idxOf_lt_length_of_mem hmem
    rw [if_pos hmem, if_pos (List.mem_append_left _ hmem), List.idxOf_append_of_mem hmem,
      if_neg (by omega)]
  · rw [if_neg hmem]
    by_cases hd : d = c
    · have hin : c ∈ text ++ [d] := List.mem_append_right _ (hd ▸ List.mem_cons_self)
      rw [if_pos hin, if_pos ⟨rfl, hd⟩, List.idxOf_append_of_notMem hmem, hd, List.idxOf_cons_self,
        Nat.add_zero]
    · have hboth : c ∉ text ++ [d] := by
        rw [List.mem_append, List.mem_singleton]
        rintro (hin | heq)
        · exact hmem hin
        · exact hd heq.symm
      rw [if_neg hboth, if_neg (fun h => hd h.2)]

/-- The marks of a line. -/
def marksOf (line : List (BitVec 8)) : LineMarks :=
  { nameEnd := markOf 0x3a line, valueEnd := markOf 0x23 line, lineEnd := line.length }

theorem scanLine_eq {fuel : Nat} {pre post : List (BitVec 8)} (hfuel : post.length < fuel)
    (hsize : (pre ++ post).length ≤ sizeMax) :
    scanLine (pre ++ post) (pre ++ post).length fuel (marksOf pre) =
      .ok (marksOf (pre ++ post.takeWhile (· ≠ 0x0a))) := by
  induction fuel generalizing pre post with
  | zero => omega
  | succ fuel ih =>
    have hsize' : (pre ++ post).length ≤ 4294967295 := hsize
    unfold scanLine
    cases post with
    | nil =>
      have hend : ¬ (marksOf pre).lineEnd < pre.length := Nat.lt_irrefl _
      rw [List.append_nil, if_neg hend, List.takeWhile_nil, List.append_nil]
      rfl
    | cons c post =>
      have hlen : (pre ++ c :: post).length = pre.length + (post.length + 1) := List.length_append
      have hlt : (marksOf pre).lineEnd < (pre ++ c :: post).length := by
        show pre.length < _
        omega
      have hread : byteAt (pre ++ c :: post) (marksOf pre).lineEnd = .ok c := byteAt_append c
      rw [if_pos hlt, hread, List.takeWhile_cons]
      show (if c ≠ 0x0a then _ else _) = _
      by_cases hc : c ≠ 0x0a
      · have hpre : pre.length < sizeMax := by
          show pre.length < 4294967295
          omega
        have hadd : add32 pre.length 1 = (pre ++ [c]).length := by
          rw [List.length_append]
          show (pre.length + 1) % 4294967296 = pre.length + 1
          omega
        have hmarks : marksOf (pre ++ [c]) =
            { nameEnd := if (marksOf pre).nameEnd = sizeMax ∧ c = 0x3a then (marksOf pre).lineEnd
                else (marksOf pre).nameEnd
              valueEnd := if (marksOf pre).valueEnd = sizeMax ∧ c = 0x23 then (marksOf pre).lineEnd
                else (marksOf pre).valueEnd
              lineEnd := add32 (marksOf pre).lineEnd 1 } := by
          show LineMarks.mk (markOf 0x3a (pre ++ [c])) (markOf 0x23 (pre ++ [c])) _ = _
          rw [markOf_snoc c hpre, markOf_snoc c hpre, ← hadd]
          rfl
        have hsplit : pre ++ c :: post = (pre ++ [c]) ++ post := by
          rw [List.append_assoc]
          rfl
        rw [if_pos hc, ← hmarks, hsplit,
          ih (Nat.lt_of_succ_lt_succ hfuel) (by rw [← hsplit]; exact hsize),
          if_pos (decide_eq_true hc), List.append_assoc]
        rfl
      · rw [if_neg hc, if_neg (by rw [decide_eq_true_eq]; exact hc), List.append_nil]
        rfl

theorem trimStart_eq {fuel : Nat} {pre text post : List (BitVec 8)} (hfuel : text.length < fuel)
    (hsize : (pre ++ (text ++ post)).length ≤ sizeMax) :
    trimStart (pre ++ (text ++ post)) (pre.length + text.length) fuel pre.length =
      .ok (pre.length + (text.takeWhile biIsWhitespace).length) := by
  induction fuel generalizing pre text with
  | zero => omega
  | succ fuel ih =>
    have hsize' : (pre ++ (text ++ post)).length ≤ 4294967295 := hsize
    unfold trimStart
    cases text with
    | nil =>
      rw [if_neg (by show ¬ pre.length < pre.length + 0; omega)]
      rfl
    | cons c text =>
      have hread : byteAt (pre ++ (c :: text ++ post)) pre.length = .ok c := byteAt_append c
      rw [if_pos (by rw [List.length_cons]; omega), hread, List.takeWhile_cons]
      show (if biIsWhitespace c = true then _ else _) = _
      split
      · have hadd : add32 pre.length 1 = (pre ++ [c]).length := by
          rw [List.length_append, List.length_append, List.length_cons] at hsize'
          rw [List.length_append]
          show (pre.length + 1) % 4294967296 = pre.length + 1
          omega
        have hsplit : pre ++ (c :: text ++ post) = (pre ++ [c]) ++ (text ++ post) := by
          rw [List.append_assoc]
          rfl
        have hend : pre.length + (c :: text).length = (pre ++ [c]).length + text.length := by
          rw [List.length_append, List.length_cons, List.length_singleton]
          omega
        rw [hadd, hsplit, hend,
          ih (Nat.lt_of_succ_lt_succ hfuel) (by rw [← hsplit]; exact hsize), List.length_append]
        show Except.ok (pre.length + 1 + _) = Except.ok (pre.length + (_ + 1))
        rw [Nat.add_assoc, Nat.add_comm 1]
      · rfl

theorem trimEnd_eq {fuel : Nat} {pre text post : List (BitVec 8)} (hfuel : text.length < fuel)
    (hsize : (pre ++ (text ++ post)).length ≤ sizeMax) :
    trimEnd (pre ++ (text ++ post)) pre.length fuel (pre.length + text.length) =
      .ok (pre.length + (text.reverse.dropWhile biIsWhitespace).length) := by
  induction fuel generalizing text post with
  | zero => omega
  | succ fuel ih =>
    have hsize' : (pre ++ (text ++ post)).length ≤ 4294967295 := hsize
    unfold trimEnd
    cases text using List.reverseRecOn with
    | nil =>
      rw [if_neg (by show ¬ pre.length < pre.length + 0; omega)]
      rfl
    | append_singleton text c =>
      have hlen : (text ++ [c]).length = text.length + 1 := List.length_append
      have hsub : sub32 (pre.length + (text ++ [c]).length) 1 = pre.length + text.length := by
        rw [List.length_append, List.length_append] at hsize'
        unfold sub32
        omega
      have hsplit : pre ++ (text ++ [c] ++ post) = pre ++ (text ++ (c :: post)) := by
        rw [List.append_assoc]
        rfl
      have hread : byteAt (pre ++ (text ++ [c] ++ post)) (pre.length + text.length) = .ok c := by
        rw [hsplit, ← List.append_assoc, ← List.length_append]
        exact byteAt_append c
      rw [if_pos (by omega), hsub, hread, List.reverse_append, List.reverse_singleton,
        List.singleton_append, List.dropWhile_cons]
      show (if biIsWhitespace c = true then _ else _) = _
      split
      · rw [hsplit]
        exact ih (by omega) (by rw [← hsplit]; exact hsize)
      · rw [List.length_cons, List.length_reverse, hlen]
        rfl

/-! ## The table of options -/

/-- The names of the options. -/
def optionNames : List (List (BitVec 8)) := (biOptions none).map (·.name)

theorem optionNames_nodup : optionNames.Nodup := by decide

/-- No option has a comment in its name. -/
theorem hash_notMem_optionNames : ∀ name ∈ optionNames, 0x23 ∉ name := by decide

theorem blFindOption_eq {name post : List (BitVec 8)} (options : List BiOption) (i : Nat) :
    blFindOption (name ++ post) name.length options i =
      .ok ((options.findIdx? fun option => option.name = name).map (· + i)) := by
  have hread : bytesAt (name ++ post) 0 name.length = .ok name := bytesAt_append [] name post
  induction options generalizing i with
  | nil => rfl
  | cons option options ih =>
    have hrest : blFindOption (name ++ post) name.length options (i + 1) =
        .ok (((options.findIdx? fun option => option.name = name).map (· + 1)).map (· + i)) := by
      rw [ih, Option.map_map]
      congr 2
      funext j
      show j + (i + 1) = j + 1 + i
      omega
    unfold blFindOption
    rw [List.findIdx?_cons]
    by_cases hname : option.name = name
    · rw [if_pos (congrArg List.length hname), hread, if_pos (decide_eq_true hname)]
      show (if option.name = name then (.ok (some i) : Except ConfigStop (Option Nat)) else _) = _
      rw [if_pos hname, Option.map_some, Nat.zero_add]
    · have hother : ¬ decide (option.name = name) = true := fun h => hname (of_decide_eq_true h)
      rw [if_neg hother, hread]
      show (if option.name.length = name.length then
        (if option.name = name then (.ok (some i) : Except ConfigStop (Option Nat)) else _)
          else _) = _
      rw [if_neg hname, ite_self]
      exact hrest

theorem findIdx_none {options : List BiOption} {name : List (BitVec 8)}
    (h : name ∉ options.map (·.name)) :
    options.findIdx? (fun option => option.name = name) = none := by
  rw [List.findIdx?_eq_none_iff]
  intro option hin
  exact decide_eq_false fun heq => h (heq ▸ List.mem_map_of_mem hin)

/-- The option that is found is the only one of that name. -/
theorem modify_findIdx {options : List BiOption} {name : List (BitVec 8)}
    (hnodup : (options.map (·.name)).Nodup) (hin : name ∈ options.map (·.name))
    (f : BiOption → BiOption) :
    ∃ i, options.findIdx? (fun option => option.name = name) = some i ∧
      options.modify i f = options.map fun option => if option.name = name then f option else option := by
  induction options with
  | nil => exact absurd hin List.not_mem_nil
  | cons option options ih =>
    rw [List.map_cons, List.nodup_cons] at hnodup
    obtain ⟨hnew, hnodup⟩ := hnodup
    rw [List.findIdx?_cons]
    by_cases hname : option.name = name
    · refine ⟨0, if_pos (decide_eq_true hname), ?_⟩
      have hothers : options.map (fun option => if option.name = name then f option else option) =
          options := by
        refine (List.map_congr_left ?_).trans (List.map_id _)
        intro other hother
        apply if_neg
        intro heq
        rw [← hname] at heq
        exact hnew (heq ▸ List.mem_map_of_mem (f := (·.name)) hother)
      rw [List.map_cons, if_pos hname, hothers]
      rfl
    · have hin' : name ∈ options.map (·.name) := (List.mem_cons.1 hin).resolve_left (Ne.symm hname)
      obtain ⟨i, hfind, hmodify⟩ := ih hnodup hin'
      refine ⟨i + 1, ?_, ?_⟩
      · rw [if_neg (by rw [decide_eq_true_eq]; exact hname), hfind]
        rfl
      · rw [List.map_cons, if_neg hname, ← hmodify]
        rfl

/-! ## A line -/

/-- Both loops over the blanks, on a text that stands behind others. -/
theorem trim_loops {rounds : Nat} {pre text post : List (BitVec 8)} (hpre : 0 < pre.length)
    (hrounds : text.length < rounds) (hsize : (pre ++ (text ++ post)).length ≤ sizeMax) :
    ∃ before after valueEnd, pre ++ (text ++ post) = before ++ (trim text ++ after) ∧
      0 < before.length ∧
      trimStart (pre ++ (text ++ post)) (pre.length + text.length) rounds pre.length =
        .ok before.length ∧
      trimEnd (pre ++ (text ++ post)) before.length rounds (pre.length + text.length) =
        .ok valueEnd ∧
      sub32 valueEnd before.length = (trim text).length := by
  have hblanks : text.takeWhile biIsWhitespace ++ text.dropWhile biIsWhitespace = text :=
    List.takeWhile_append_dropWhile
  have hback : trim text ++
      ((text.dropWhile biIsWhitespace).reverse.takeWhile biIsWhitespace).reverse =
        text.dropWhile biIsWhitespace := by
    unfold trim
    rw [← List.reverse_append, List.takeWhile_append_dropWhile, List.reverse_reverse]
  have htrim : ((text.dropWhile biIsWhitespace).reverse.dropWhile biIsWhitespace).length =
      (trim text).length := List.length_reverse.symm
  have hlen := congrArg List.length hblanks
  rw [List.length_append] at hlen
  -- the buffer with the blanks before the value on the other side
  have hbuffer : pre ++ (text ++ post) = (pre ++ text.takeWhile biIsWhitespace) ++
      (text.dropWhile biIsWhitespace ++ post) := by
    rw [List.append_assoc, ← List.append_assoc (text.takeWhile _), hblanks]
  have hend : pre.length + text.length = (pre ++ text.takeWhile biIsWhitespace).length +
      (text.dropWhile biIsWhitespace).length := by
    rw [List.length_append]
    omega
  refine ⟨pre ++ text.takeWhile biIsWhitespace,
    ((text.dropWhile biIsWhitespace).reverse.takeWhile biIsWhitespace).reverse ++ post,
    (pre ++ text.takeWhile biIsWhitespace).length + (trim text).length, ?_, ?_, ?_, ?_, ?_⟩
  · rw [← List.append_assoc (trim text), hback]
    exact hbuffer
  · rw [List.length_append]
    omega
  · rw [trimStart_eq hrounds hsize, List.length_append]
  · rw [hbuffer, hend, trimEnd_eq (by omega) (by rw [← hbuffer]; exact hsize), htrim]
  · have hsize' : (pre ++ (text ++ post)).length ≤ 4294967295 := hsize
    have htail := congrArg List.length hback
    rw [hbuffer] at hsize'
    simp only [List.length_append] at htail hsize' ⊢
    unfold sub32
    omega

theorem markOf_eq_zero {c : BitVec 8} {text : List (BitVec 8)} :
    markOf c text = 0 ↔ text.head? = some c := by
  unfold markOf
  cases text with
  | nil => exact iff_of_false (by decide : sizeMax ≠ 0) fun h => nomatch h
  | cons d text =>
    rw [List.idxOf_cons, List.head?_cons, Option.some.injEq]
    by_cases hd : d = c
    · subst hd
      simp
    · have hbeq : (d == c) = false := beq_eq_false_iff_ne.2 hd
      rw [hbeq]
      refine iff_of_false ?_ hd
      split
      · show ¬ (List.idxOf c text + 1 = 0)
        omega
      · decide

theorem markOf_eq_sizeMax {c : BitVec 8} {text : List (BitVec 8)} (hsize : text.length ≤ sizeMax) :
    markOf c text = sizeMax ↔ c ∉ text := by
  unfold markOf
  by_cases hmem : c ∈ text
  · have hlt := List.idxOf_lt_length_of_mem hmem
    rw [if_pos hmem]
    exact iff_of_false (by omega) fun h => h hmem
  · rw [if_neg hmem]
    exact iff_of_true rfl hmem

/-- The text before a character. -/
theorem takeWhile_split {c : BitVec 8} {text : List (BitVec 8)} (hmem : c ∈ text) :
    text = text.takeWhile (· ≠ c) ++ c :: (text.dropWhile (· ≠ c)).tail ∧
      c ∉ text.takeWhile (· ≠ c) ∧ markOf c text = (text.takeWhile (· ≠ c)).length := by
  have hbefore : c ∉ text.takeWhile (· ≠ c) := by
    intro hin
    have hne : decide (c ≠ c) = true := List.mem_takeWhile_imp (p := fun d => decide (d ≠ c)) hin
    exact of_decide_eq_true hne rfl
  have hsplit : text = text.takeWhile (· ≠ c) ++ c :: (text.dropWhile (· ≠ c)).tail := by
    have hjoin := (List.takeWhile_append_dropWhile (p := (· ≠ c)) (l := text)).symm
    cases hdrop : text.dropWhile (· ≠ c) with
    | nil =>
      rw [hdrop, List.append_nil] at hjoin
      exact absurd (hjoin ▸ hmem) hbefore
    | cons d rest =>
      have hd := List.head_dropWhile_not (· ≠ c) (l := text) (by rw [hdrop]; exact List.cons_ne_nil _ _)
      simp only [hdrop, List.head_cons, decide_eq_false_iff_not, ne_eq, Decidable.not_not] at hd
      rw [hdrop, hd] at hjoin
      exact hjoin
  refine ⟨hsplit, hbefore, ?_⟩
  unfold markOf
  rw [if_pos hmem]
  conv_lhs => rw [hsplit]
  rw [List.idxOf_append_of_notMem hbefore, List.idxOf_cons_self, Nat.add_zero]

/-- Where the value ends, on a line whose comment does not come before the colon. -/
theorem valueEnd_eq {name rest : List (BitVec 8)} (hhash : 0x23 ∉ name)
    (hsize : (name ++ 0x3a :: rest).length ≤ sizeMax) :
    (if markOf 0x23 (name ++ 0x3a :: rest) = sizeMax then (name ++ 0x3a :: rest).length
        else markOf 0x23 (name ++ 0x3a :: rest)) =
      name.length + 1 + (rest.takeWhile (· ≠ 0x23)).length := by
  have hcons : 0x23 ∉ name ++ [0x3a] := by
    rw [List.mem_append, List.mem_singleton]
    rintro (hin | heq)
    · exact hhash hin
    · exact absurd heq (by decide)
  have hsplit : name ++ 0x3a :: rest = (name ++ [0x3a]) ++ rest := by
    rw [List.append_assoc]
    rfl
  have hkey := markOf_eq_sizeMax (c := 0x23) hsize
  by_cases hin : 0x23 ∈ rest
  · obtain ⟨-, -, hmark⟩ := takeWhile_split hin
    have hin' : 0x23 ∈ name ++ 0x3a :: rest := hsplit ▸ List.mem_append_right _ hin
    have hidx : rest.idxOf 0x23 = (rest.takeWhile (· ≠ 0x23)).length := by
      rw [← hmark, markOf, if_pos hin]
    rw [if_neg (fun h => hkey.1 h hin'), markOf, if_pos hin', hsplit,
      List.idxOf_append_of_notMem hcons, hidx, List.length_append, List.length_singleton]
  · have hin' : 0x23 ∉ name ++ 0x3a :: rest := by
      rw [hsplit, List.mem_append]
      exact not_or.2 ⟨hcons, hin⟩
    have hall : rest.takeWhile (· ≠ 0x23) = rest :=
      List.takeWhile_eq_self_iff.2 fun c hc => decide_eq_true fun heq => hin (heq ▸ hc)
    rw [if_pos (hkey.2 hin'), hall, hsplit, List.length_append, List.length_append,
      List.length_singleton]

section
variable {σ : Type} (heap : ConfigHeap σ)

/-- An option and its value, where they stand in the buffer. -/
theorem biHandleOption_eq {name pre text buffer : List (BitVec 8)} {config : Config σ}
    (hnames : config.options.map (·.name) = optionNames) (hname : ∃ post, buffer = name ++ post)
    (hvalue : ∃ after, buffer = pre ++ (text ++ after)) (hpre : 0 < pre.length)
    (hsize : buffer.length ≤ sizeMax) :
    biHandleOption heap buffer name.length pre.length text.length config =
      setOption heap name text config := by
  obtain ⟨post, hname⟩ := hname
  obtain ⟨after, hvalue⟩ := hvalue
  have hfind := @blFindOption_eq name post config.options 0
  unfold biHandleOption setOption
  rw [hname, hfind, ← hname]
  by_cases hin : name ∈ config.options.map (·.name)
  · obtain ⟨i, hi, hmodify⟩ :=
      modify_findIdx (hnames ▸ optionNames_nodup) hin (·.provide (text ++ [0]))
    have hadd : add32 text.length 1 = text.length + 1 := by
      have hlen := congrArg List.length hvalue
      have hsize' : buffer.length ≤ 4294967295 := hsize
      rw [List.length_append, List.length_append] at hlen
      show (text.length + 1) % 4294967296 = text.length + 1
      omega
    rw [if_pos hin, hi, ← hmodify, ← hadd, hvalue, bytesAt_append]
    rfl
  · rw [findIdx_none hin, if_neg hin]
    rfl

/-- A name that no option has. Where the value would be does not matter. -/
theorem biHandleOption_unknown {name buffer : List (BitVec 8)} {config : Config σ}
    (hname : ∃ post, buffer = name ++ post) (hnone : name ∉ config.options.map (·.name))
    (valueStart valueLength : Nat) :
    biHandleOption heap buffer name.length valueStart valueLength config = .ok config := by
  obtain ⟨post, hname⟩ := hname
  have hfind := @blFindOption_eq name post config.options 0
  unfold biHandleOption
  rw [hname, hfind, findIdx_none hnone]
  rfl

/-- A line without blanks before it, at the start of the buffer. -/
theorem handleLine_eq {line post : List (BitVec 8)} {rounds n : Nat} {config : Config σ}
    (hnames : config.options.map (·.name) = optionNames)
    (hstart : line.dropWhile biIsWhitespace = line) (hrounds : (line ++ post).length < rounds)
    (hsize : (line ++ post).length ≤ sizeMax) :
    handleLine heap (line ++ post) rounds n (marksOf line) config =
      applyLine heap n config (lineMeaning line) := by
  have hlen : (line ++ post).length = line.length + post.length := List.length_append
  have hcomment : (marksOf line).valueEnd = 0 ∨ (marksOf line).lineEnd = 0 ↔
      line = [] ∨ line.head? = some 0x23 := by
    rw [or_comm]
    exact or_congr List.length_eq_zero_iff markOf_eq_zero
  have hcolon : (marksOf line).nameEnd = sizeMax ↔ 0x3a ∉ line := markOf_eq_sizeMax (by omega)
  unfold handleLine lineMeaning
  simp only [hstart, hcomment, hcolon]
  by_cases hnothing : line = [] ∨ line.head? = some 0x23
  · rw [if_pos hnothing, if_pos hnothing]
    rfl
  rw [if_neg hnothing, if_neg hnothing]
  by_cases hinvalid : 0x3a ∉ line
  · rw [if_pos hinvalid, if_pos hinvalid]
    rfl
  rw [if_neg hinvalid, if_neg hinvalid]
  obtain ⟨hsplit, hname, hmark⟩ := takeWhile_split (Decidable.not_not.1 hinvalid)
  generalize hnameEq : line.takeWhile (· ≠ 0x3a) = name at hsplit hname hmark ⊢
  generalize hrestEq : (line.dropWhile (· ≠ 0x3a)).tail = rest at hsplit ⊢
  have hend : (marksOf line).nameEnd = name.length := hmark
  have hlines : line.length = name.length + (rest.length + 1) := by
    conv_lhs => rw [hsplit]
    exact List.length_append
  have hsize' : (line ++ post).length ≤ 4294967295 := hsize
  have hafter : add32 name.length 1 = name.length + 1 := by
    unfold add32
    omega
  rw [hend, hafter]
  by_cases hhash : 0x23 ∈ name
  · -- the `#` comes first: the value would end before it starts, and both loops do nothing
    have hvalueEnd : (marksOf line).valueEnd < name.length := by
      show markOf 0x23 line < _
      have hin : 0x23 ∈ line := by
        rw [hsplit]
        exact List.mem_append_left _ hhash
      unfold markOf
      rw [if_pos hin, hsplit, List.idxOf_append_of_mem hhash]
      exact List.idxOf_lt_length_of_mem hhash
    have hknown : (marksOf line).valueEnd ≠ sizeMax := by omega
    have hstop : ¬ name.length + 1 < (marksOf line).valueEnd := by omega
    obtain ⟨rounds, rfl⟩ : ∃ k, rounds = k + 1 := ⟨rounds - 1, by omega⟩
    have hnone : name ∉ config.options.map (·.name) := by
      rw [hnames]
      exact fun hin => hash_notMem_optionNames name hin hhash
    have hbuffer : ∃ more, line ++ post = name ++ more := by
      refine ⟨0x3a :: rest ++ post, ?_⟩
      conv_lhs => rw [hsplit]
      exact List.append_assoc _ _ _
    rw [if_neg hknown, trimStart, if_neg hstop]
    show (do
      let valueEnd ← trimEnd (line ++ post) (name.length + 1) (rounds + 1) (marksOf line).valueEnd
      biHandleOption heap (line ++ post) name.length (name.length + 1)
        (sub32 valueEnd (name.length + 1)) config) = _
    rw [trimEnd, if_neg hstop, if_pos hhash]
    exact biHandleOption_unknown heap hbuffer hnone _ _
  · have hvalueEnd : (if (marksOf line).valueEnd = sizeMax then (marksOf line).lineEnd
        else (marksOf line).valueEnd) = name.length + 1 + (rest.takeWhile (· ≠ 0x23)).length := by
      have hvalue := @valueEnd_eq name rest hhash (by rw [← hsplit]; omega)
      rw [← hsplit] at hvalue
      exact hvalue
    have hrest : rest.takeWhile (· ≠ 0x23) ++ rest.dropWhile (· ≠ 0x23) = rest :=
      List.takeWhile_append_dropWhile
    generalize htext : rest.takeWhile (· ≠ 0x23) = text at hvalueEnd hrest ⊢
    have htextLen := congrArg List.length hrest
    rw [List.length_append] at htextLen
    have hbuffer : line ++ post =
        (name ++ [0x3a]) ++ (text ++ (rest.dropWhile (· ≠ 0x23) ++ post)) := by
      conv_lhs => rw [hsplit, ← hrest]
      simp only [List.append_assoc, List.cons_append, List.nil_append]
    have hpre : (name ++ [0x3a]).length = name.length + 1 := List.length_append
    obtain ⟨before, after, valueEnd, hvalue, hpos, hstartLoop, hendLoop, hcount⟩ :=
      @trim_loops rounds (name ++ [0x3a]) text (rest.dropWhile (· ≠ 0x23) ++ post) (by omega)
        (by omega) (by rw [← hbuffer]; exact hsize)
    rw [← hbuffer, hpre] at hstartLoop hendLoop
    rw [← hbuffer] at hvalue
    have hname : ∃ more, line ++ post = name ++ more := by
      refine ⟨0x3a :: rest ++ post, ?_⟩
      conv_lhs => rw [hsplit]
      exact List.append_assoc _ _ _
    rw [hvalueEnd, if_neg hhash, hstartLoop]
    show (do
      let valueEnd ← trimEnd (line ++ post) before.length rounds (name.length + 1 + text.length)
      biHandleOption heap (line ++ post) name.length before.length
        (sub32 valueEnd before.length) config) = _
    rw [hendLoop]
    show biHandleOption heap (line ++ post) name.length before.length
      (sub32 valueEnd before.length) config = setOption heap name (trim text) config
    rw [hcount]
    exact biHandleOption_eq heap hnames hname ⟨after, hvalue⟩ hpos hsize

/-! ## The file -/

theorem allocateChars_bind {α : Type} (s : σ) (count : Nat)
    (f : σ × Nat → Except ConfigStop α) :
    (allocateChars heap s count >>= f) =
      match heap.allocate s count with
      | some r => f r
      | none => .error (.crash "out of memory" []) := by
  unfold allocateChars
  cases heap.allocate s count with
  | none => rfl
  | some r => rfl

/-- The names stay. -/
theorem applyLine_names {n : Nat} {config config' : Config σ} {meaning : LineMeaning}
    (h : applyLine heap n config meaning = .ok config') :
    config'.options.map (·.name) = config.options.map (·.name) := by
  cases meaning with
  | nothing =>
    cases h
    rfl
  | invalid => cases h
  | entry name value =>
    have h' : setOption heap name value config = .ok config' := h
    unfold setOption at h'
    split at h'
    · rw [allocateChars_bind] at h'
      split at h'
      · cases h'
        show (config.options.map fun option => _).map _ = _
        rw [List.map_map]
        apply List.map_congr_left
        intro option _
        show (if option.name = name then option.provide (value ++ [0]) else option).name = option.name
        split <;> rfl
      · cases h'
    · cases h'
      rfl

/-- A buffer, its first line, and what is behind it. -/
theorem first_line (buffer : List (BitVec 8)) :
    ∃ line rest, buffer.splitOn 0x0a = line :: rest ∧
      (line = buffer ∧ rest = [] ∨
        ∃ more, buffer = line ++ 0x0a :: more ∧ rest = more.splitOn 0x0a) ∧
      buffer.takeWhile (· ≠ 0x0a) = line := by
  by_cases hin : 0x0a ∈ buffer
  · obtain ⟨hsplit, hfirst, -⟩ := takeWhile_split hin
    refine ⟨_, _, ?_, Or.inr ⟨_, hsplit, rfl⟩, rfl⟩
    conv_lhs => rw [hsplit]
    exact List.splitOn_append_cons_self_of_not_mem hfirst _
  · have hall : buffer.takeWhile (· ≠ 0x0a) = buffer :=
      List.takeWhile_eq_self_iff.2 fun c hc => decide_eq_true fun heq => hin (heq ▸ hc)
    exact ⟨buffer, [], List.splitOn_eq_singleton hin, Or.inl ⟨rfl, rfl⟩, hall⟩

/-- The blanks at the start of a buffer are those at the start of its first line. -/
theorem takeWhile_dropWhile (buffer : List (BitVec 8)) :
    (buffer.dropWhile biIsWhitespace).takeWhile (· ≠ 0x0a) =
      (buffer.takeWhile (· ≠ 0x0a)).dropWhile biIsWhitespace := by
  induction buffer with
  | nil => rfl
  | cons c buffer ih =>
    by_cases hblank : biIsWhitespace c = true
    · have hline : c ≠ 0x0a := by
        rintro rfl
        exact absurd hblank (by decide)
      rw [List.dropWhile_cons, if_pos hblank, List.takeWhile_cons, if_pos (decide_eq_true hline),
        List.dropWhile_cons, if_pos hblank]
      exact ih
    · rw [List.dropWhile_cons, if_neg hblank, List.takeWhile_cons]
      split
      · rw [List.dropWhile_cons, if_neg hblank]
      · rfl

theorem dropWhile_twice (line : List (BitVec 8)) :
    (line.dropWhile biIsWhitespace).dropWhile biIsWhitespace = line.dropWhile biIsWhitespace := by
  induction line with
  | nil => rfl
  | cons c line ih =>
    rw [List.dropWhile_cons]
    split
    · exact ih
    · next hc => rw [List.dropWhile_cons, if_neg hc]

/-- A line without its blanks says the same. -/
theorem lineMeaning_dropWhile (line : List (BitVec 8)) :
    lineMeaning (line.dropWhile biIsWhitespace) = lineMeaning line := by
  unfold lineMeaning
  rw [dropWhile_twice]

/-- The loop over the lines reads what is left of the file line by line. -/
theorem parseLines_eq {rounds fuel n : Nat} {buffer : List (BitVec 8)} {config : Config σ}
    (hnames : config.options.map (·.name) = optionNames) (hfuel : buffer.length < fuel)
    (hrounds : buffer.length < rounds) (hsize : buffer.length ≤ sizeMax)
    (hn : n + buffer.length ≤ 4294967296) :
    parseLines heap rounds fuel buffer buffer.length (n % 4294967296) config =
      applyLines heap n (buffer.splitOn 0x0a) config := by
  induction fuel generalizing n buffer config with
  | zero => omega
  | succ fuel ih =>
    unfold parseLines
    by_cases hempty : buffer = []
    · subst hempty
      rfl
    have hpos : 0 < buffer.length := List.length_pos_iff.2 hempty
    obtain ⟨line, rest, hlines, hsplit, hfirst⟩ := first_line buffer
    have hline : n % 4294967296 = n := Nat.mod_eq_of_lt (by omega)
    have hnext : add32 n 1 = (n + 1) % 4294967296 := rfl
    -- the buffer behind the blanks starts with the line behind the blanks
    have hshort : (buffer.dropWhile biIsWhitespace).length ≤ buffer.length :=
      (List.dropWhile_sublist _).length_le
    have hbody : (buffer.dropWhile biIsWhitespace).takeWhile (· ≠ 0x0a) =
        line.dropWhile biIsWhitespace := by
      rw [takeWhile_dropWhile, hfirst]
    have hscan := @scanLine_eq rounds [] (buffer.dropWhile biIsWhitespace) (by omega)
      (by rw [List.nil_append]; omega)
    rw [List.nil_append, List.nil_append, hbody] at hscan
    obtain ⟨post, hpost, hdrop⟩ : ∃ post, buffer.dropWhile biIsWhitespace =
        line.dropWhile biIsWhitespace ++ post ∧
          (post = [] ∧ rest = [] ∨ ∃ more, post = 0x0a :: more ∧ rest = more.splitOn 0x0a) := by
      rcases hsplit with ⟨rfl, rfl⟩ | ⟨more, hmore, rfl⟩
      · exact ⟨[], (List.append_nil _).symm, Or.inl ⟨rfl, rfl⟩⟩
      · refine ⟨0x0a :: more, ?_, Or.inr ⟨more, rfl, rfl⟩⟩
        rw [hmore, List.dropWhile_append]
        split
        · next hblank =>
          rw [List.isEmpty_iff.1 hblank]
          rfl
        · rfl
    have hlen : (buffer.dropWhile biIsWhitespace).length =
        (line.dropWhile biIsWhitespace).length + post.length := by
      rw [hpost, List.length_append]
    have hhandle := @handleLine_eq σ heap (line.dropWhile biIsWhitespace) post rounds n config hnames
      (dropWhile_twice line) (by rw [← hpost]; omega) (by rw [← hpost]; omega)
    rw [← hpost, lineMeaning_dropWhile] at hhandle
    rw [if_pos hpos, skipWhitespace_eq hrounds, hline, hlines]
    show (scanLine _ _ rounds (marksOf []) >>= fun marks =>
      handleLine heap (buffer.dropWhile biIsWhitespace) rounds n marks config >>= fun config =>
        parseLines heap rounds fuel _ _ (add32 n 1) config) = _
    rw [hscan]
    show (handleLine heap (buffer.dropWhile biIsWhitespace) rounds n _ config >>= fun config =>
      parseLines heap rounds fuel
        ((buffer.dropWhile biIsWhitespace).drop (if (line.dropWhile biIsWhitespace).length <
          (buffer.dropWhile biIsWhitespace).length then add32 (line.dropWhile biIsWhitespace).length 1
            else (line.dropWhile biIsWhitespace).length))
        ((buffer.dropWhile biIsWhitespace).length - (if (line.dropWhile biIsWhitespace).length <
          (buffer.dropWhile biIsWhitespace).length then add32 (line.dropWhile biIsWhitespace).length 1
            else (line.dropWhile biIsWhitespace).length))
        (add32 n 1) config) = (applyLine heap n config (lineMeaning line) >>= fun config =>
          applyLines heap (n + 1) rest config)
    rw [hhandle, hnext]
    cases happly : applyLine heap n config (lineMeaning line) with
    | error e => rfl
    | ok config' =>
      have hnames' := (applyLine_names heap happly).trans hnames
      have hsize' : buffer.length ≤ 4294967295 := hsize
      show parseLines heap rounds fuel _ _ _ config' = applyLines heap (n + 1) rest config'
      rcases hdrop with ⟨rfl, rfl⟩ | ⟨more, rfl, rfl⟩
      · -- the last line: nothing is left, as if an empty line followed
        rw [List.length_nil] at hlen
        have hnil := @ih (n + 1) [] config' hnames' (by show 0 < fuel; omega)
          (by show 0 < rounds; omega) (Nat.zero_le _) (by show n + 1 + 0 ≤ _; omega)
        rw [if_neg (by omega), hpost, List.append_nil, List.drop_length, Nat.sub_self]
        exact hnil
      · rw [List.length_cons] at hlen
        have hadd : add32 (line.dropWhile biIsWhitespace).length 1 =
            (line.dropWhile biIsWhitespace ++ [0x0a]).length := by
          rw [List.length_append]
          show ((line.dropWhile biIsWhitespace).length + 1) % 4294967296 = _ + 1
          omega
        have hmore : buffer.dropWhile biIsWhitespace =
            (line.dropWhile biIsWhitespace ++ [0x0a]) ++ more := by
          rw [hpost, List.append_assoc]
          rfl
        have hleft : (buffer.dropWhile biIsWhitespace).length -
            (line.dropWhile biIsWhitespace ++ [0x0a]).length = more.length := by
          have hall := congrArg List.length hmore
          rw [List.length_append] at hall
          omega
        rw [if_pos (by omega), hadd, hleft, hmore, List.drop_left]
        exact ih hnames' (by omega) (by omega) (by omega) (by omega)

/-- What is required but not provided is what the search finds. -/
theorem biValidateOptions_eq (options : List BiOption) :
    biValidateOptions options = checkRequired options := by
  induction options with
  | nil => rfl
  | cons option options ih =>
    unfold checkRequired at ih ⊢
    rw [biValidateOptions, List.find?_cons]
    by_cases hmissing : option.flags &&& (biRequired ||| biProvided) = biRequired
    · rw [if_pos hmissing, decide_eq_true hmissing]
    · rw [if_neg hmissing, decide_eq_false hmissing]
      exact ih

/-- Loading a configuration is reading it by its grammar. -/
theorem load_eq {file : List (BitVec 8)} {config : Config σ} (hsize : file.length ≤ sizeMax)
    (hnames : config.options.map (·.name) = optionNames) :
    blLoadConfigurationFromFile heap file config = readConfiguration heap file config := by
  have hsize' : file.length ≤ 4294967295 := hsize
  unfold blLoadConfigurationFromFile readConfiguration
  rw [allocateChars_bind, allocateChars_bind]
  cases heap.allocate config.heap file.length with
  | none => rfl
  | some r =>
    have hparse := @parseLines_eq σ heap (file.length + 1) (file.length + 1) 1 file
      { config with heap := r.1 } hnames (Nat.lt_succ_self _) (Nat.lt_succ_self _) hsize (by omega)
    show (parseLines heap (file.length + 1) (file.length + 1) file file.length (1 % 4294967296)
      { config with heap := r.1 } >>= fun config => biValidateOptions config.options >>= fun _ =>
        .ok { config with heap := heap.free config.heap r.2 }) =
      (applyLines heap 1 (file.splitOn 0x0a) { config with heap := r.1 } >>= fun config =>
        checkRequired config.options >>= fun _ =>
          .ok { config with heap := heap.free config.heap r.2 })
    rw [hparse]
    refine bind_congr fun config' => ?_
    rw [biValidateOptions_eq]

end

/-! ## What is loaded -/

/-- The name and the value on a line. -/
def LineMeaning.setting : LineMeaning → Option (List (BitVec 8) × List (BitVec 8))
  | .nothing | .invalid => none
  | .entry name value => some (name, value)

/-- The names and values of a file, in order. -/
def settings (lines : List (List (BitVec 8))) : List (List (BitVec 8) × List (BitVec 8)) :=
  lines.filterMap fun line => (lineMeaning line).setting

/-- The value of a name where it occurs last. -/
def lastValue (name : List (BitVec 8)) (entries : List (List (BitVec 8) × List (BitVec 8))) :
    Option (List (BitVec 8)) :=
  ((entries.filter (·.1 = name)).getLast?).map (·.2)

/-- The option with the value that the file has for it. -/
def BiOption.withValue (option : BiOption) : Option (List (BitVec 8)) → BiOption
  | some value => option.provide (value ++ [0])
  | none => option

theorem BiOption.withValue_name (option : BiOption) (value : Option (List (BitVec 8))) :
    (option.withValue value).name = option.name := by
  cases value <;> rfl

theorem lastValue_snoc (name : List (BitVec 8)) (entries : List (List (BitVec 8) × List (BitVec 8)))
    (entry : List (BitVec 8) × List (BitVec 8)) :
    lastValue name (entries ++ [entry]) =
      if entry.1 = name then some entry.2 else lastValue name entries := by
  unfold lastValue
  rw [List.filter_append, List.filter_singleton]
  by_cases hname : entry.1 = name
  · rw [if_pos hname, decide_eq_true hname]
    show Option.map _ (List.getLast? (_ ++ [entry])) = _
    rw [List.getLast?_concat]
    rfl
  · rw [if_neg hname, decide_eq_false hname]
    show Option.map _ (List.getLast? (_ ++ [])) = _
    rw [List.append_nil]

/-- A value that comes first is lost if there is another one. -/
theorem withValue_cons (option : BiOption) (entry : List (BitVec 8) × List (BitVec 8))
    (entries : List (List (BitVec 8) × List (BitVec 8))) :
    (if option.name = entry.1 then option.provide (entry.2 ++ [0]) else option).withValue
        (lastValue option.name entries) = option.withValue (lastValue option.name (entry :: entries)) := by
  induction entries using List.reverseRecOn with
  | nil =>
    have hone := lastValue_snoc option.name [] entry
    rw [List.nil_append] at hone
    rw [hone]
    by_cases hname : option.name = entry.1
    · rw [if_pos hname, if_pos hname.symm]
      rfl
    · rw [if_neg hname, if_neg (Ne.symm hname)]
  | append_singleton entries last ih =>
    rw [← List.cons_append, lastValue_snoc, lastValue_snoc]
    by_cases hlast : last.1 = option.name
    · rw [if_pos hlast, if_pos hlast]
      split
      · show { option with value := _, flags := option.flags ||| biProvided ||| biProvided } = _
        rw [BitVec.or_assoc, BitVec.or_self]
        rfl
      · rfl
    · rw [if_neg hlast, if_neg hlast]
      exact ih

section
variable {σ : Type} (heap : ConfigHeap σ)

theorem applyLine_ok {n : Nat} {config config' : Config σ} {meaning : LineMeaning}
    (h : applyLine heap n config meaning = .ok config') :
    meaning ≠ .invalid ∧ ∀ entries, config'.options.map (fun option =>
        option.withValue (lastValue option.name entries)) =
      config.options.map fun option =>
        option.withValue (lastValue option.name (meaning.setting.toList ++ entries)) := by
  cases meaning with
  | nothing =>
    cases h
    exact ⟨(fun hinvalid => nomatch hinvalid), fun entries => rfl⟩
  | invalid => cases h
  | entry name value =>
    have h' : setOption heap name value config = .ok config' := h
    refine ⟨(fun hinvalid => nomatch hinvalid), fun entries => ?_⟩
    show _ = config.options.map fun option =>
      option.withValue (lastValue option.name ((name, value) :: entries))
    unfold setOption at h'
    split at h'
    · rw [allocateChars_bind] at h'
      split at h'
      · cases h'
        show ((config.options.map fun option => _).map _) = _
        rw [List.map_map]
        apply List.map_congr_left
        intro option _
        have hkeep : (if option.name = name then option.provide (value ++ [0]) else option).name =
            option.name := by
          split <;> rfl
        show BiOption.withValue _ (lastValue _ entries) = _
        rw [hkeep]
        exact withValue_cons option (name, value) entries
      · cases h'
    · next hunknown =>
      cases h'
      apply List.map_congr_left
      intro option hin
      have hne : ¬ option.name = name := fun heq => hunknown (heq ▸ List.mem_map_of_mem hin)
      have hcons := withValue_cons option (name, value) entries
      rw [if_neg hne] at hcons
      exact hcons

theorem applyLines_ok {n : Nat} {lines : List (List (BitVec 8))} {config config' : Config σ}
    (h : applyLines heap n lines config = .ok config') :
    (∀ line ∈ lines, lineMeaning line ≠ .invalid) ∧
      config'.options = config.options.map fun option =>
        option.withValue (lastValue option.name (settings lines)) := by
  induction lines generalizing n config with
  | nil =>
    cases h
    exact ⟨fun _ hin => absurd hin List.not_mem_nil, (List.map_id _).symm⟩
  | cons line lines ih =>
    have h' : (applyLine heap n config (lineMeaning line) >>= fun config =>
      applyLines heap (n + 1) lines config) = .ok config' := h
    cases happly : applyLine heap n config (lineMeaning line) with
    | error e =>
      rw [happly] at h'
      cases h'
    | ok next =>
      rw [happly] at h'
      obtain ⟨hvalid, hoptions⟩ := ih h'
      obtain ⟨hline, hstep⟩ := applyLine_ok heap happly
      have hsettings : settings (line :: lines) =
          (lineMeaning line).setting.toList ++ settings lines := by
        unfold settings
        rw [List.filterMap_cons]
        cases (lineMeaning line).setting <;> rfl
      refine ⟨?_, ?_⟩
      · intro other hother
        rcases List.mem_cons.1 hother with rfl | hother
        · exact hline
        · exact hvalid other hother
      · rw [hoptions, hstep, hsettings]

/-- Whatever stops the loading is a message, no read outside the file and no endless loop. -/
theorem applyLine_error {n : Nat} {config : Config σ} {meaning : LineMeaning} {e : ConfigStop}
    (h : applyLine heap n config meaning = .error e) : ∃ format args, e = .crash format args := by
  cases meaning with
  | nothing => cases h
  | invalid =>
    cases h
    exact ⟨_, _, rfl⟩
  | entry name value =>
    have h' : setOption heap name value config = .error e := h
    unfold setOption at h'
    split at h'
    · rw [allocateChars_bind] at h'
      split at h'
      · cases h'
      · cases h'
        exact ⟨_, _, rfl⟩
    · cases h'

theorem applyLines_error {n : Nat} {lines : List (List (BitVec 8))} {config : Config σ}
    {e : ConfigStop} (h : applyLines heap n lines config = .error e) :
    ∃ format args, e = .crash format args := by
  induction lines generalizing n config with
  | nil => cases h
  | cons line lines ih =>
    have h' : (applyLine heap n config (lineMeaning line) >>= fun config =>
      applyLines heap (n + 1) lines config) = .error e := h
    cases happly : applyLine heap n config (lineMeaning line) with
    | error e' =>
      rw [happly] at h'
      cases h'
      exact applyLine_error heap happly
    | ok next =>
      rw [happly] at h'
      exact ih h'

theorem checkRequired_ok {options : List BiOption} (h : checkRequired options = .ok ()) :
    ∀ option ∈ options, option.flags &&& (biRequired ||| biProvided) ≠ biRequired := by
  unfold checkRequired at h
  split at h
  · cases h
  · next hnone =>
    intro option hin hmissing
    exact absurd (decide_eq_true hmissing) (List.find?_eq_none.1 hnone option hin)

theorem checkRequired_error {options : List BiOption} {e : ConfigStop}
    (h : checkRequired options = .error e) : ∃ format args, e = .crash format args := by
  unfold checkRequired at h
  split at h
  · cases h
    exact ⟨_, _, rfl⟩
  · cases h

/-- The outcome of `BlLoadConfigurationFromFile`. -/
theorem load_configuration (file : List (BitVec 8)) (commandLine : Option (List (BitVec 8))) (s : σ)
    (hsize : file.length < 4294967296) :
    blLoadConfigurationFromFile heap file { options := biOptions commandLine, heap := s } =
        readConfiguration heap file { options := biOptions commandLine, heap := s } ∧
      (∀ config, readConfiguration heap file { options := biOptions commandLine, heap := s } =
          .ok config →
        (∀ line ∈ file.splitOn 0x0a, lineMeaning line ≠ .invalid) ∧
        config.options = (biOptions commandLine).map (fun option =>
          option.withValue (lastValue option.name (settings (file.splitOn 0x0a)))) ∧
        ∀ option ∈ biOptions commandLine, option.flags = biRequired →
          (lastValue option.name (settings (file.splitOn 0x0a))).isSome) ∧
      ∀ e, readConfiguration heap file { options := biOptions commandLine, heap := s } = .error e →
        ∃ format args, e = .crash format args := by
  refine ⟨load_eq heap (Nat.le_of_lt_succ hsize) rfl, ?_, ?_⟩
  · intro config h
    unfold readConfiguration at h
    rw [allocateChars_bind] at h
    split at h
    · next r _ =>
      have h' : (applyLines heap 1 (file.splitOn 0x0a)
        { options := biOptions commandLine, heap := r.1 } >>= fun config =>
          checkRequired config.options >>= fun _ =>
            .ok { config with heap := heap.free config.heap r.2 }) = .ok config := h
      cases hlines : applyLines heap 1 (file.splitOn 0x0a)
          { options := biOptions commandLine, heap := r.1 } with
      | error e =>
        rw [hlines] at h'
        cases h'
      | ok next =>
        rw [hlines] at h'
        obtain ⟨hvalid, hoptions⟩ := applyLines_ok heap hlines
        cases hcheck : checkRequired next.options with
        | error e =>
          have h'' : (checkRequired next.options >>= fun _ =>
            .ok { next with heap := heap.free next.heap r.2 }) = .ok config := h'
          rw [hcheck] at h''
          cases h''
        | ok u =>
          have h'' : (checkRequired next.options >>= fun _ =>
            .ok { next with heap := heap.free next.heap r.2 }) = .ok config := h'
          rw [hcheck] at h''
          cases h''
          refine ⟨hvalid, hoptions, fun option hin hrequired => ?_⟩
          -- without a value the option would still be missing
          cases hlast : lastValue option.name (settings (file.splitOn 0x0a)) with
          | some value => rfl
          | none =>
            have hin' : option ∈ next.options := by
              rw [hoptions]
              refine List.mem_map.2 ⟨option, hin, ?_⟩
              rw [hlast]
              rfl
            have hmissing := checkRequired_ok hcheck option hin'
            rw [hrequired] at hmissing
            exact absurd (by decide) hmissing
    · cases h
  · intro e h
    unfold readConfiguration at h
    rw [allocateChars_bind] at h
    split at h
    · next r _ =>
      have h' : (applyLines heap 1 (file.splitOn 0x0a)
        { options := biOptions commandLine, heap := r.1 } >>= fun config =>
          checkRequired config.options >>= fun _ =>
            .ok { config with heap := heap.free config.heap r.2 }) = .error e := h
      cases hlines : applyLines heap 1 (file.splitOn 0x0a)
          { options := biOptions commandLine, heap := r.1 } with
      | error e' =>
        rw [hlines] at h'
        cases h'
        exact applyLines_error heap hlines
      | ok next =>
        rw [hlines] at h'
        have h'' : (checkRequired next.options >>= fun _ =>
          .ok { next with heap := heap.free next.heap r.2 }) = .error e := h'
        cases hcheck : checkRequired next.options with
        | error e' =>
          rw [hcheck] at h''
          cases h''
          exact checkRequired_error hcheck
        | ok u =>
          rw [hcheck] at h''
          cases h''
    · cases h
      exact ⟨_, _, rfl⟩

end

/-- `KernelPath: /k` with a comment, and a line without a newline that has its `#` before the
colon. -/
theorem load_configuration_kernel :
    (blLoadConfigurationFromFile (σ := Unit) { allocate := fun s _ => some (s, 0), free := fun s _ => s }
        [0x4b, 0x65, 0x72, 0x6e, 0x65, 0x6c, 0x50, 0x61, 0x74, 0x68, 0x3a, 0x20, 0x2f, 0x6b, 0x20,
          0x23, 0x20, 0x3a, 0x0a, 0x61, 0x23, 0x3a] { options := biOptions none, heap := () }).map
        (fun config => config.options.map (·.value)) =
      .ok [some [0x2f, 0x6b, 0], none, none, none] := by
  rw [(load_configuration _ _ _ _ (by decide)).1]
  rfl

end XrLinux.Bootloader
