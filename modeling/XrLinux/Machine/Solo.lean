import XrLinux.Lib.Iterate
import XrLinux.Machine.Instr

/-!
# XR/17032 — one processor in a load-linked / store-conditional loop

One processor runs a sequence on one word of memory while other processors write to it as they
like. The word changes under the loop only between a store-conditional and the next load-linked
as far as the loop can tell, so the other processors are a list of *attempts*: for every
load-linked still to come, the word it finds and whether the link survives up to the
store-conditional.

`Solo.stored` records what this processor has stored, which is how a claim says that a sequence
stored one word, or none.
-/

namespace XrLinux.Machine

open Iterate

/-- What the other processors do around one attempt. -/
structure Attempt where
  /-- The word the load-linked finds. -/
  found : Word
  /-- The store-conditional will succeed, if there is one. -/
  linked : Bool
  deriving DecidableEq, Repr

/-- An attempt whose store-conditional fails. -/
def Attempt.lost (found : Word) : Attempt := ⟨found, false⟩

/-- An attempt whose store-conditional succeeds. -/
def Attempt.kept (found : Word) : Attempt := ⟨found, true⟩

structure Solo where
  cpu : Cpu
  /-- The addressed word as this processor last saw or left it. -/
  word : Word
  linked : Bool
  attempts : List Attempt
  stored : List Word

/-- One instruction. An access to any other word, and a load-linked beyond the last attempt,
is not a step. -/
def soloStep (loc base : Word) (prog : List Instr) (s : Solo) : Option Solo :=
  match fetch prog s.cpu with
  | none => none
  | some instr =>
    match instr.effect base s.cpu with
    | .done cpu => some { s with cpu }
    | .loadLinked rd addr =>
      if addr = loc then
        match s.attempts with
        | [] => none
        | attempt :: rest =>
          some { s with
            cpu := s.cpu.next (s.cpu.regs.set rd attempt.found)
            word := attempt.found
            linked := attempt.linked
            attempts := rest }
      else none
    | .storeConditional rd addr value =>
      if addr = loc then
        if s.linked then
          some { s with
            cpu := s.cpu.next (s.cpu.regs.set rd 1)
            word := value
            linked := false
            stored := s.stored ++ [value] }
        else
          some { s with
            cpu := s.cpu.next (s.cpu.regs.set rd 0)
            linked := false }
      else none

/-- A processor at the start of a sequence. -/
def Solo.start (regs : RegFile) (attempts : List Attempt) : Solo :=
  { cpu := { pc := 0, regs }, word := 0, linked := false, attempts, stored := [] }

/-- The sequence ends past its last instruction, having stored the words of `stored`, with the
registers satisfying `post`. -/
def Finishes (loc base : Word) (prog : List Instr) (regs : RegFile) (attempts : List Attempt)
    (stored : List Word) (post : RegFile → Prop) : Prop :=
  ∃ out, Halts (soloStep loc base prog) (.start regs attempts) out ∧
    out.cpu.pc = prog.length ∧ out.stored = stored ∧ post out.cpu.regs

theorem Finishes.imp {loc base : Word} {prog : List Instr} {regs : RegFile}
    {attempts : List Attempt} {stored : List Word} {post post' : RegFile → Prop}
    (h : Finishes loc base prog regs attempts stored post) (himp : ∀ out, post out → post' out) :
    Finishes loc base prog regs attempts stored post' := by
  obtain ⟨out, hout, hpc, hstored, hpost⟩ := h
  exact ⟨out, hout, hpc, hstored, himp _ hpost⟩

/-! ## One step of each kind -/

section
variable {loc base : Word} {prog : List Instr} {pc : Nat} {regs : RegFile} {word : Word}
  {linked : Bool} {attempts : List Attempt} {stored : List Word}

theorem soloStep_alu {op : AluOp} {rd ra : Reg} {src : Src}
    (h : prog[pc]? = some (.alu op rd ra src)) :
    soloStep loc base prog ⟨{ pc, regs }, word, linked, attempts, stored⟩ =
      some ⟨{ pc := pc + 1, regs := regs.set rd (op.eval (regs.get ra) (src.value op regs)) },
        word, linked, attempts, stored⟩ := by
  simp [soloStep, fetch, h, Instr.effect, Cpu.next]

theorem soloStep_ll {rd ra : Reg} {attempt : Attempt} (h : prog[pc]? = some (.ll rd ra))
    (hloc : regs.get ra = loc) :
    soloStep loc base prog ⟨{ pc, regs }, word, linked, attempt :: attempts, stored⟩ =
      some ⟨{ pc := pc + 1, regs := regs.set rd attempt.found },
        attempt.found, attempt.linked, attempts, stored⟩ := by
  simp [soloStep, fetch, h, Instr.effect, Cpu.next, hloc]

theorem soloStep_sc {rd ra rb : Reg} (h : prog[pc]? = some (.sc rd ra rb))
    (hloc : regs.get ra = loc) :
    soloStep loc base prog ⟨{ pc, regs }, word, true, attempts, stored⟩ =
      some ⟨{ pc := pc + 1, regs := regs.set rd 1 },
        regs.get rb, false, attempts, stored ++ [regs.get rb]⟩ := by
  simp [soloStep, fetch, h, Instr.effect, Cpu.next, hloc]

theorem soloStep_sc_lost {rd ra rb : Reg} (h : prog[pc]? = some (.sc rd ra rb))
    (hloc : regs.get ra = loc) :
    soloStep loc base prog ⟨{ pc, regs }, word, false, attempts, stored⟩ =
      some ⟨{ pc := pc + 1, regs := regs.set rd 0 }, word, false, attempts, stored⟩ := by
  simp [soloStep, fetch, h, Instr.effect, Cpu.next, hloc]

theorem soloStep_taken {cond : Cond} {ra : Reg} {index : Nat}
    (h : prog[pc]? = some (.branch cond ra (.label index))) (htest : cond.test (regs.get ra)) :
    soloStep loc base prog ⟨{ pc, regs }, word, linked, attempts, stored⟩ =
      some ⟨{ pc := index, regs }, word, linked, attempts, stored⟩ := by
  simp [soloStep, fetch, h, Instr.effect, htest]

theorem soloStep_not_taken {cond : Cond} {ra : Reg} {dest : Dest}
    (h : prog[pc]? = some (.branch cond ra dest)) (htest : ¬ cond.test (regs.get ra)) :
    soloStep loc base prog ⟨{ pc, regs }, word, linked, attempts, stored⟩ =
      some ⟨{ pc := pc + 1, regs }, word, linked, attempts, stored⟩ := by
  simp [soloStep, fetch, h, Instr.effect, htest, Cpu.next]

theorem soloStep_end (h : pc = prog.length) :
    soloStep loc base prog ⟨{ pc, regs }, word, linked, attempts, stored⟩ = none := by
  simp [soloStep, fetch, h]

end

/-! ## The retry rule -/

/-- A stretch from the head of the loop to the head again that uses up one lost attempt on a word
satisfying `Retries`. The registers satisfy `Inv a` before and `Inv (next a found)` after, for
some ghost value `a`. -/
def LostTurn {α : Type*} (loc base : Word) (prog : List Instr) (Inv : α → RegFile → Prop)
    (next : α → Word → α) (Retries : Word → Prop) : Prop :=
  ∀ a regs word linked found rest, Inv a regs → Retries found → ∃ regs' word',
    Steps (soloStep loc base prog)
        ⟨{ pc := 0, regs }, word, linked, .lost found :: rest, []⟩
        ⟨{ pc := 0, regs := regs' }, word', false, rest, []⟩ ∧
      Inv (next a found) regs'

/-- Any number of lost turns. -/
theorem LostTurn.steps {α : Type*} {loc base : Word} {prog : List Instr}
    {Inv : α → RegFile → Prop} {next : α → Word → α} {Retries : Word → Prop}
    (hturn : LostTurn loc base prog Inv next Retries) (rest : List Attempt) (lost : List Word)
    (hlost : ∀ found ∈ lost, Retries found) {a : α} {regs : RegFile} (hinv : Inv a regs) :
    ∃ last, Inv (lost.foldl next a) last ∧ ∃ word linked,
      Steps (soloStep loc base prog) (.start regs (lost.map .lost ++ rest))
        ⟨{ pc := 0, regs := last }, word, linked, rest, []⟩ := by
  suffices h : ∀ a regs word linked, Inv a regs →
      ∃ last, Inv (lost.foldl next a) last ∧ ∃ word' linked',
        Steps (soloStep loc base prog)
          ⟨{ pc := 0, regs }, word, linked, lost.map .lost ++ rest, []⟩
          ⟨{ pc := 0, regs := last }, word', linked', rest, []⟩ from
    h a regs 0 false hinv
  clear hinv a regs
  induction lost with
  | nil => intro a regs word linked hinv; exact ⟨regs, hinv, word, linked, .refl _⟩
  | cons found lost ih =>
    intro a regs word linked hinv
    obtain ⟨hfound, hlost⟩ := List.forall_mem_cons.1 hlost
    obtain ⟨regs', word', hsteps, hinv'⟩ :=
      hturn a regs word linked found (lost.map .lost ++ rest) hinv hfound
    obtain ⟨last, hlast, word'', linked'', hrest⟩ :=
      ih hlost (next a found) regs' word' false hinv'
    exact ⟨last, hlast, word'', linked'', hsteps.trans hrest⟩

/-! ## Read-modify-write loops -/

/-- An arithmetic instruction. -/
structure Alu where
  op : AluOp
  rd : Reg
  ra : Reg
  src : Src

def Alu.instr (alu : Alu) : Instr := .alu alu.op alu.rd alu.ra alu.src

def Alu.exec (regs : RegFile) (alu : Alu) : RegFile :=
  regs.set alu.rd (alu.op.eval (regs.get alu.ra) (alu.src.value alu.op regs))

/-- The registers after a stretch of arithmetic. -/
def execAll (body : List Alu) (regs : RegFile) : RegFile := body.foldl Alu.exec regs

theorem steps_body {loc base : Word} {prog tail : List Instr} {word : Word} {linked : Bool}
    {attempts : List Attempt} {stored : List Word} (body : List Alu) {pc : Nat} {regs : RegFile}
    (hprog : prog.drop pc = body.map Alu.instr ++ tail) :
    Steps (soloStep loc base prog) ⟨{ pc, regs }, word, linked, attempts, stored⟩
      ⟨{ pc := pc + body.length, regs := execAll body regs }, word, linked, attempts, stored⟩ := by
  induction body generalizing pc regs with
  | nil => exact .refl _
  | cons alu body ih =>
    have hat : prog[pc]? = some alu.instr := by
      rw [← List.head?_drop, hprog]
      rfl
    have hrest : prog.drop (pc + 1) = body.map Alu.instr ++ tail := by
      rw [← List.tail_drop, hprog]
      rfl
    have hsteps := @ih (pc + 1) (alu.exec regs) hrest
    rw [Nat.add_right_comm] at hsteps
    exact .head (soloStep_alu hat) hsteps

/-- `1: ll old,[addr]; body; sc flag,[addr],stored; beq flag,1b`. -/
def retryLoop (old addr : Reg) (body : List Alu) (flag stored : Reg) : List Instr :=
  .ll old addr :: (body.map Alu.instr ++
    [.sc flag addr stored, .branch .eq flag (.label 0)])

section
variable {loc base : Word} {old addr flag stored : Reg} {body : List Alu} {regs : RegFile}

/-- From the head of the loop to the store-conditional. -/
theorem retryLoop_steps_sc (hloc : regs.get addr = loc) {word : Word} {linked : Bool}
    (attempt : Attempt) (rest : List Attempt) (out : List Word) :
    Steps (soloStep loc base (retryLoop old addr body flag stored))
      ⟨{ pc := 0, regs }, word, linked, attempt :: rest, out⟩
      ⟨{ pc := 1 + body.length, regs := execAll body (regs.set old attempt.found) },
        attempt.found, attempt.linked, rest, out⟩ :=
  .head (soloStep_ll rfl hloc) (steps_body body rfl)

theorem retryLoop_get_sc :
    (retryLoop old addr body flag stored)[1 + body.length]? = some (.sc flag addr stored) := by
  rw [Nat.add_comm]
  simp [retryLoop]

theorem retryLoop_get_beq :
    (retryLoop old addr body flag stored)[1 + body.length + 1]? =
      some (.branch .eq flag (.label 0)) := by
  rw [Nat.add_comm 1]
  simp [retryLoop]

theorem retryLoop_length : (retryLoop old addr body flag stored).length = 1 + body.length + 2 := by
  simp [retryLoop]
  omega

/-- A read-modify-write loop whose body keeps `Inv` through lost attempts stores what the body
computes from the word of the first kept one. -/
theorem retryLoop_finishes {α : Type*} (loc base : Word) (old addr flag stored : Reg)
    (body : List Alu) (Inv : α → RegFile → Prop) (next : α → Word → α) {regs : RegFile} (hflag : flag ≠ zero) (hloc : ∀ a regs, Inv a regs → regs.get addr = loc)
    (hbody : ∀ a regs found, Inv a regs →
      (execAll body (regs.set old found)).get addr = loc ∧
        Inv (next a found) ((execAll body (regs.set old found)).set flag 0))
    (a : α) (hinv : Inv a regs) (lost : List Word) (w : Word) :
    ∃ last, Inv (lost.foldl next a) last ∧
      Finishes loc base (retryLoop old addr body flag stored) regs (lost.map .lost ++ [.kept w])
        [(execAll body (last.set old w)).get stored]
        (· = (execAll body (last.set old w)).set flag 1) := by
  have hturn : LostTurn loc base (retryLoop old addr body flag stored) Inv next fun _ => True := by
    intro a regs word linked found rest hinv _
    obtain ⟨haddr, hnext⟩ := hbody a regs found hinv
    refine ⟨_, found, (retryLoop_steps_sc (hloc a regs hinv) (.lost found) rest []).trans
      (.head (soloStep_sc_lost retryLoop_get_sc haddr) (.single (soloStep_taken
        retryLoop_get_beq ?_))), hnext⟩
    simp [RegFile.get_set_self hflag, Cond.test]
  obtain ⟨last, hlast, word, linked, hsteps⟩ :=
    hturn.steps [.kept w] lost (fun _ _ => trivial) hinv
  obtain ⟨haddr, -⟩ := hbody _ last w hlast
  refine ⟨last, hlast, _, ⟨hsteps.trans ((retryLoop_steps_sc (hloc _ last hlast) (.kept w) []
    []).trans (.head (soloStep_sc retryLoop_get_sc haddr) (.single (soloStep_not_taken
      retryLoop_get_beq ?_)))), soloStep_end ?_⟩, ?_, rfl, rfl⟩
  · simp [RegFile.get_set_self hflag, Cond.test]
  · simp [retryLoop_length]
  · simp [retryLoop_length]

end

/-- A sequence finishes in one way only. -/
theorem Finishes.unique {loc base : Word} {prog : List Instr} {regs : RegFile}
    {attempts : List Attempt} {stored stored' : List Word} {post post' : RegFile → Prop}
    (h : Finishes loc base prog regs attempts stored post)
    (h' : Finishes loc base prog regs attempts stored' post') :
    stored = stored' ∧ ∃ regs', post regs' ∧ post' regs' := by
  obtain ⟨out, hout, -, hstored, hpost⟩ := h
  obtain ⟨out', hout', -, hstored', hpost'⟩ := h'
  obtain rfl := hout.unique hout'
  exact ⟨hstored.symm.trans hstored', _, hpost, hpost'⟩

end XrLinux.Machine
