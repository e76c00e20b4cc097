import XrLinux.Bootloader.NumberFormat

/-!
# Bootloader — printing to a buffer

`Output format args text` is the output of a format made of complete specifiers, with arguments
that match them. Every callback gets the characters of that text, in order (`Output.prints`), so
the run that counts and the run that writes print the same.

The callback of `blPrintArgsToBuffer` counts with the address of the next character. It goes on
counting behind the end of the buffer, so an output can reach the end of the address space
although the buffer does not; then it goes on at address 0, which is below the end of the buffer.
-/

namespace XrLinux.Bootloader

open ByteMemory

/-! ## Specifiers -/

/-- The letter before the conversion, if there is one. -/
inductive TypeCode where
  | plain
  | l
  | z
  deriving DecidableEq

def TypeCode.chars : TypeCode → List (BitVec 8)
  | plain => []
  | l => [0x6c]
  | z => [0x7a]

/-- `typeCode`. -/
def TypeCode.code : TypeCode → BitVec 8
  | plain => 0
  | l => 0x6c
  | z => 0x7a

structure Specifier where
  digits : List (BitVec 8)
  typeCode : TypeCode
  conversion : BitVec 8
  isDigit_digits : ∀ c ∈ digits, isDigit c = true
  conversion_plain : typeCode = .plain →
    isDigit conversion = false ∧ conversion ≠ 0x6c ∧ conversion ≠ 0x7a

namespace Specifier

/-- The specifier behind its `%`. -/
def chars (s : Specifier) : List (BitVec 8) := s.digits ++ (s.typeCode.chars ++ [s.conversion])

def minDigits (s : Specifier) : BitVec 32 :=
  s.digits.foldl (fun count c => count * 10 + .ofNat 32 (c.toNat - 0x30)) 0

theorem minDigitsFrom_digits {digits rest : List (BitVec 8)} (hdigits : ∀ c ∈ digits, isDigit c = true)
    (hrest : ∀ c more, rest = c :: more → isDigit c = false) (count : BitVec 32) :
    minDigitsFrom count.toNat (digits ++ rest) =
      ((digits.foldl (fun count c => count * 10 + .ofNat 32 (c.toNat - 0x30)) count).toNat, rest) := by
  induction digits generalizing count with
  | nil =>
    cases rest with
    | nil => rfl
    | cons c more =>
      have hc := hrest c more rfl
      show (if isDigit c = true then _ else (count.toNat, c :: more)) = _
      rw [hc, if_neg Bool.false_ne_true]
      rfl
  | cons c digits ih =>
    have hc := hdigits c List.mem_cons_self
    have hnext : (count.toNat * 10 + (c.toNat - 0x30)) % 4294967296 =
        (count * 10 + .ofNat 32 (c.toNat - 0x30)).toNat := by
      rw [BitVec.toNat_add, BitVec.toNat_mul, BitVec.toNat_ofNat]
      show _ = (count.toNat * 10 % 4294967296 + (c.toNat - 0x30) % 4294967296) % 4294967296
      omega
    show (if isDigit c = true then minDigitsFrom _ (digits ++ rest) else _) = _
    rw [if_pos hc, hnext, ih (fun c' hc' => hdigits c' (List.mem_cons_of_mem _ hc'))]
    rfl

theorem scanned (s : Specifier) (format : List (BitVec 8)) :
    minDigitsFrom 0 (s.chars ++ format) =
        (s.minDigits.toNat, s.typeCode.chars ++ (s.conversion :: format)) ∧
      typeCodeFrom (s.typeCode.chars ++ (s.conversion :: format)) =
        (s.typeCode.code, s.conversion :: format) := by
  have hsplit : s.chars ++ format = s.digits ++ (s.typeCode.chars ++ (s.conversion :: format)) := by
    unfold chars
    rw [List.append_assoc, List.append_assoc]
    rfl
  have hplain := s.conversion_plain
  have hrest : ∀ c more, s.typeCode.chars ++ (s.conversion :: format) = c :: more →
      isDigit c = false := by
    intro c more hcons
    cases htype : s.typeCode with
    | plain =>
      rw [htype] at hcons
      cases hcons
      exact (hplain htype).1
    | l | z =>
      rw [htype] at hcons
      cases hcons
      decide
  refine ⟨?_, ?_⟩
  · rw [hsplit]
    exact minDigitsFrom_digits s.isDigit_digits hrest 0
  · cases htype : s.typeCode with
    | plain =>
      obtain ⟨-, hl, hz⟩ := hplain htype
      show (if s.conversion = 0x6c ∨ s.conversion = 0x7a then _ else _) = _
      rw [if_neg (by rintro (h | h) <;> contradiction)]
      rfl
    | l | z => rfl

end Specifier

/-- What a specifier other than `%f` prints, with the arguments behind the ones that it takes. -/
inductive Piece (s : Specifier) : List Arg → List (BitVec 8) → List Arg → Prop
  | percent {args} : s.conversion = 0x25 → Piece s args [0x25] args
  | char {args} (value : BitVec 32) :
      s.conversion = 0x63 → Piece s (.word value.toNat :: args) [value.setWidth 8] args
  | string {args} (str : List (BitVec 8)) : s.conversion = 0x73 → Piece s (.str str :: args) str args
  | bytes {args} (data : List (BitVec 8)) (count : BitVec 32) :
      s.conversion = 0x53 → count.toNat ≤ data.length →
        Piece s (.data data :: .word count.toNat :: args) (data.take count.toNat) args
  | pointer {args} (value : BitVec 32) :
      s.conversion = 0x70 →
        Piece s (.word value.toNat :: args)
          (0x30 :: 0x78 :: (Number.hexadecimal (value.setWidth 64)).text 0) args
  | signed {args} (value : BitVec 32) :
      s.conversion = 0x64 → s.typeCode ≠ .l →
        Piece s (.word value.toNat :: args) ((Number.signed value).text s.minDigits.toNat) args
  | unsigned {args} (value : BitVec 32) :
      s.conversion = 0x75 → s.typeCode ≠ .l →
        Piece s (.word value.toNat :: args) ((Number.unsigned value).text s.minDigits.toNat) args
  | hexadecimal {args} (value : BitVec 32) :
      s.conversion = 0x78 → s.typeCode ≠ .l →
        Piece s (.word value.toNat :: args)
          ((Number.hexadecimal (value.setWidth 64)).text s.minDigits.toNat) args
  | wide {args} (value : BitVec 64) :
      s.conversion = 0x78 → s.typeCode = .l →
        Piece s (.wide value.toNat :: args) ((Number.hexadecimal value).text s.minDigits.toNat) args
  -- the conversions that the `switch` has no case for, and `%ld` and `%lu`
  | other {args} :
      s.conversion ∉ [0x25, 0x66, 0x63, 0x73, 0x53, 0x70, 0x64, 0x75, 0x78] ∨
        s.conversion ∈ [0x64, 0x75] ∧ s.typeCode = .l → Piece s args [] args

/-- The output of a format with arguments that match it. -/
inductive Output : List (BitVec 8) → List Arg → List (BitVec 8) → Prop
  | nil {args} : Output [] args []
  | char {c format args text} : c ≠ 0x25 → Output format args text →
      Output (c :: format) args (c :: text)
  | nested {s : Specifier} {format format2 args args2 text text2} : s.conversion = 0x66 →
      Output format2 args2 text2 → Output format args text →
        Output (0x25 :: (s.chars ++ format)) (.str format2 :: .args args2 :: args) (text2 ++ text)
  | piece {s : Specifier} {format args rest text text2} : Piece s args text2 rest →
      Output format rest text → Output (0x25 :: (s.chars ++ format)) args (text2 ++ text)

section
variable {σ : Type} (fn : BitVec 8 → σ → σ) (stack : Nat → BitVec 8)

theorem biPrintString_append (text text2 : List (BitVec 8)) (ctx : σ) :
    biPrintString fn (text ++ text2) ctx = biPrintString fn text2 (biPrintString fn text ctx) :=
  List.foldl_append

theorem hexadecimal_setWidth (value : BitVec 32) (minDigits : Nat) (ctx : σ) :
    biPrintHexadecimal fn stack value.toNat minDigits ctx =
      some (biPrintString fn ((Number.hexadecimal (value.setWidth 64)).text minDigits) ctx) := by
  have hwide : (value.setWidth 64).toNat = value.toNat := by
    have hlt := value.isLt
    rw [BitVec.toNat_setWidth]
    omega
  have hprint := (Number.hexadecimal (value.setWidth 64)).print_eq fn stack minDigits ctx
  rw [← hwide]
  exact hprint

theorem Piece.prints {s : Specifier} {args rest : List Arg} {text : List (BitVec 8)}
    (h : Piece s args text rest) (nested : List (BitVec 8) → List Arg → σ → Option σ) (ctx : σ) :
    printSpecifier fn nested stack s.minDigits.toNat s.typeCode.code s.conversion args ctx =
      some (biPrintString fn text ctx, rest) := by
  have hcode : s.typeCode ≠ .l → s.typeCode.code ≠ 0x6c := by
    cases s.typeCode <;> decide
  cases h with
  | percent hc | string str hc => rw [hc]; rfl
  | char value hc =>
    rw [hc]
    have hlow : BitVec.ofNat 8 value.toNat = value.setWidth 8 := by
      apply BitVec.eq_of_toNat_eq
      rw [BitVec.toNat_ofNat, BitVec.toNat_setWidth]
    show some (fn (.ofNat 8 value.toNat) ctx, rest) = _
    rw [hlow]
    rfl
  | bytes data count hc hlen =>
    rw [hc]
    exact if_pos hlen
  | pointer value hc =>
    rw [hc]
    show (biPrintHexadecimal fn stack value.toNat 0 (fn 0x78 (fn 0x30 ctx))).map (·, rest) = _
    rw [hexadecimal_setWidth]
    rfl
  | signed value hc htype =>
    rw [hc]
    show (if s.typeCode.code = 0x6c then _ else
      (biPrintSignedDecimal fn stack value.toNat s.minDigits.toNat ctx).map (·, rest)) = _
    have hprint := (Number.signed value).print_eq fn stack s.minDigits.toNat ctx
    rw [if_neg (hcode htype)]
    exact congrArg (Option.map (·, rest)) hprint
  | unsigned value hc htype =>
    rw [hc]
    show (if s.typeCode.code = 0x6c then _ else
      (biPrintUnsignedDecimal fn stack value.toNat s.minDigits.toNat 0 ctx).map (·, rest)) = _
    have hprint := (Number.unsigned value).print_eq fn stack s.minDigits.toNat ctx
    rw [if_neg (hcode htype)]
    exact congrArg (Option.map (·, rest)) hprint
  | hexadecimal value hc htype =>
    rw [hc]
    show (if s.typeCode.code = 0x6c then none else
      (biPrintHexadecimal fn stack value.toNat s.minDigits.toNat ctx).map (·, rest)) = _
    rw [if_neg (hcode htype), hexadecimal_setWidth]
    rfl
  | wide value hc htype =>
    rw [hc, htype]
    show (if TypeCode.l.code = 0x6c then
      (biPrintHexadecimal fn stack value.toNat s.minDigits.toNat ctx).map (·, rest) else none) = _
    have hprint := (Number.hexadecimal value).print_eq fn stack s.minDigits.toNat ctx
    have hl : TypeCode.l.code = 0x6c := rfl
    rw [if_pos hl]
    exact congrArg (Option.map (·, rest)) hprint
  | other hc =>
    rcases hc with hc | ⟨hc, htype⟩
    · simp only [List.mem_cons, List.not_mem_nil, or_false, not_or] at hc
      obtain ⟨h25, h66, h63, h73, h53, h70, h64, h75, h78⟩ := hc
      unfold printSpecifier
      rw [if_neg h25, if_neg h66, if_neg h63, if_neg h73, if_neg h53, if_neg h70, if_neg h64,
        if_neg h75, if_neg h78]
      rfl
    · simp only [List.mem_cons, List.not_mem_nil, or_false] at hc
      rcases hc with hc | hc
      · rw [hc, htype]
        rfl
      · rw [hc, htype]
        rfl

theorem argsDepth_rest {s : Specifier} {args rest : List Arg} {text : List (BitVec 8)}
    (h : Piece s args text rest) : argsDepth rest ≤ argsDepth args := by
  cases h with
  | percent | other => exact Nat.le_refl _
  | bytes => exact Nat.le_trans (Nat.le_max_right _ _) (Nat.le_max_right _ _)
  | char | string | pointer | signed | unsigned | hexadecimal | wide => exact Nat.le_max_right _ _

/-- One specifier of the loop. -/
theorem printLoop_specifier (nested : List (BitVec 8) → List Arg → σ → Option σ) {fuel : Nat}
    (s : Specifier) (format : List (BitVec 8)) (args : List Arg) (ctx : σ) :
    printLoop fn nested stack (fuel + 1) (0x25 :: (s.chars ++ format)) args ctx =
      (printSpecifier fn nested stack s.minDigits.toNat s.typeCode.code s.conversion args ctx).bind
        fun next => printLoop fn nested stack fuel format next.2 next.1 := by
  obtain ⟨hdigits, htype⟩ := s.scanned format
  rw [printLoop, if_neg (fun h => h rfl)]
  simp only [hdigits, htype]
  rfl

/-- The loop, with the nested formats below it: every character of the output goes to the
callback. -/
theorem Output.printLoop {format : List (BitVec 8)} {args : List Arg} {text : List (BitVec 8)}
    (h : Output format args text) {depth : Nat} (hdepth : argsDepth args ≤ depth) {fuel : Nat}
    (hfuel : format.length < fuel) (ctx : σ) :
    printLoop fn (printNested fn stack depth) stack fuel format args ctx =
      some (biPrintString fn text ctx) := by
  induction h generalizing depth fuel ctx with
  | nil =>
    cases fuel with
    | zero => omega
    | succ fuel => rfl
  | @char c format args text hc _ ih =>
    cases fuel with
    | zero => omega
    | succ fuel =>
      rw [XrLinux.Bootloader.printLoop, if_pos hc]
      exact ih hdepth (Nat.lt_of_succ_lt_succ hfuel) (fn c ctx)
  | @nested s format format2 args args2 text text2 hc _ _ ih2 ih =>
    cases fuel with
    | zero => omega
    | succ fuel =>
      have hlen : format.length < fuel := by
        simp only [List.length_cons, List.length_append] at hfuel
        omega
      -- the arguments of the nested format are one level deeper
      have hrest : argsDepth args ≤ depth := by
        simp only [argsDepth, Arg.depth] at hdepth
        omega
      have hbelow : argsDepth args2 + 1 ≤ depth := by
        simp only [argsDepth, Arg.depth] at hdepth
        omega
      obtain ⟨below, rfl⟩ : ∃ below, depth = below + 1 := ⟨depth - 1, by omega⟩
      have hnested : printNested fn stack (below + 1) format2 args2 ctx =
          some (biPrintString fn text2 ctx) :=
        ih2 (Nat.le_of_succ_le_succ hbelow) (Nat.lt_succ_self _) ctx
      have hspecifier : printSpecifier fn (printNested fn stack (below + 1)) stack
          s.minDigits.toNat s.typeCode.code s.conversion
            (.str format2 :: .args args2 :: args) ctx = some (biPrintString fn text2 ctx, args) := by
        rw [hc]
        exact congrArg (Option.map (·, args)) hnested
      rw [printLoop_specifier, hspecifier, Option.bind_some, ih hrest hlen]
      exact congrArg some (biPrintString_append fn text2 text ctx).symm
  | @piece s format args rest text text2 hpiece _ ih =>
    cases fuel with
    | zero => omega
    | succ fuel =>
      have hlen : format.length < fuel := by
        simp only [List.length_cons, List.length_append] at hfuel
        omega
      have hrest := Nat.le_trans (argsDepth_rest hpiece) hdepth
      rw [printLoop_specifier, hpiece.prints, Option.bind_some, ih hrest hlen]
      exact congrArg some (biPrintString_append fn text2 text ctx).symm

theorem Output.prints {format : List (BitVec 8)} {args : List Arg} {text : List (BitVec 8)}
    (h : Output format args text) (ctx : σ) :
    blPrintArgsToCallback fn stack format args ctx = some (biPrintString fn text ctx) :=
  h.printLoop fn stack (Nat.le_refl _) (Nat.lt_succ_self _) ctx

end

/-! ## The buffer -/

/-- A text that does not reach the end of the address space is laid out from the address of the
next character on, as far as the buffer goes. -/
theorem biPrintString_buffer (text : List (BitVec 8)) (data : BlPrintBufferData)
    (hfit : data.buffer + text.length ≤ 4294967296) (hbuffer : data.buffer < 4294967296) :
    (biPrintString blPrintBufferCallback text data).buffer = add32 data.buffer text.length ∧
      (biPrintString blPrintBufferCallback text data).stop = data.stop ∧
      ∀ x, (biPrintString blPrintBufferCallback text data).mem x =
        if data.buffer ≤ x ∧ x < min data.stop (data.buffer + text.length) then
          text.getD (x - data.buffer) 0
        else data.mem x := by
  induction text generalizing data with
  | nil =>
    refine ⟨?_, rfl, fun x => (if_neg ?_).symm⟩
    · show data.buffer = (data.buffer + 0) % 4294967296
      omega
    · show ¬ (data.buffer ≤ x ∧ x < min data.stop (data.buffer + 0))
      omega
  | cons c text ih =>
    have hlen : (c :: text).length = text.length + 1 := rfl
    rw [hlen] at hfit ⊢
    have hrun : biPrintString blPrintBufferCallback (c :: text) data =
        biPrintString blPrintBufferCallback text (blPrintBufferCallback c data) := rfl
    have hnext : (blPrintBufferCallback c data).buffer = add32 data.buffer 1 := rfl
    have hstop : (blPrintBufferCallback c data).stop = data.stop := rfl
    have hmem : ∀ x, (blPrintBufferCallback c data).mem x =
        if x = data.buffer ∧ data.buffer < data.stop then c else data.mem x := by
      intro x
      show (if data.buffer < data.stop then data.mem.write8 data.buffer c else data.mem) x = _
      by_cases hin : data.buffer < data.stop
      · rw [if_pos hin]
        by_cases hx : x = data.buffer
        · rw [hx, write8_self, if_pos ⟨rfl, hin⟩]
        · rw [write8_of_ne _ _ hx, if_neg (fun h => hx h.1)]
      · rw [if_neg hin, if_neg (fun h => hin h.2)]
    rw [hrun]
    cases text with
    | nil =>
      refine ⟨rfl, rfl, fun x => ?_⟩
      show (blPrintBufferCallback c data).mem x = _
      rw [hmem]
      by_cases hx : x = data.buffer ∧ data.buffer < data.stop
      · obtain ⟨rfl, hin⟩ := hx
        have hself : data.buffer - data.buffer = 0 := by omega
        rw [if_pos ⟨rfl, hin⟩, if_pos (by show _ ∧ _ < min _ (_ + 1); omega), hself]
        rfl
      · rw [if_neg hx, if_neg (by show ¬ (_ ∧ x < min _ (data.buffer + 1)); omega)]
    | cons c' text =>
      have hlen' : (c' :: text).length = text.length + 1 := rfl
      rw [hlen'] at hfit
      have hadd : add32 data.buffer 1 = data.buffer + 1 := by
        unfold add32
        omega
      obtain ⟨hbuffer', hstop', hmem'⟩ := ih (blPrintBufferCallback c data)
        (by rw [hnext, hadd, hlen']; omega) (by rw [hnext, hadd]; omega)
      rw [hnext, hadd] at hbuffer' hmem'
      refine ⟨?_, hstop', fun x => ?_⟩
      · rw [hbuffer']
        unfold add32
        omega
      · rw [hmem', hstop, hmem]
        by_cases hx : x = data.buffer
        · subst hx
          have hself : data.buffer - data.buffer = 0 := by omega
          rw [if_neg (by omega), hself]
          by_cases hin : data.buffer < data.stop
          · rw [if_pos ⟨rfl, hin⟩, if_pos (by omega)]
            rfl
          · rw [if_neg (fun h => hin h.2), if_neg (by omega)]
        · rw [if_neg (fun h : x = data.buffer ∧ _ => hx h.1)]
          by_cases hin : data.buffer + 1 ≤ x ∧
              x < min data.stop (data.buffer + 1 + (c' :: text).length)
          · have hsub : x - data.buffer = x - (data.buffer + 1) + 1 := by omega
            rw [if_pos hin, if_pos (by omega), hsub]
            rfl
          · rw [if_neg hin, if_neg (by omega)]

/-- The output with its terminator. -/
def terminated (text : List (BitVec 8)) : List (BitVec 8) := text ++ [0]

theorem terminated_length (text : List (BitVec 8)) : (terminated text).length = text.length + 1 :=
  List.length_append

/-- What the buffer gets, and what is returned. -/
theorem Output.buffer_eq {format : List (BitVec 8)} {args : List Arg} {text : List (BitVec 8)}
    (h : Output format args text) (stack : Nat → BitVec 8) (mem : ByteMemory) (buffer size : Nat) :
    blPrintArgsToBuffer stack mem buffer size format args =
      let data := biPrintString blPrintBufferCallback (terminated text)
        { mem, buffer, stop := add32 buffer size }
      some (data.mem, sub32 data.buffer buffer) := by
  simp only [blPrintArgsToBuffer, h.prints, Option.bind_eq_bind, Option.bind_some, terminated,
    biPrintString_append]
  rfl

/-- The buffer gets the beginning of the terminated output and nothing else in memory changes; the
length of the terminated output is returned. -/
def PrintsBounded (format : List (BitVec 8)) (args : List Arg) (text : List (BitVec 8))
    (buffer size : Nat) : Prop :=
  ∀ (stack : Nat → BitVec 8) (mem : ByteMemory),
    blPrintArgsToBuffer stack mem buffer size format args =
      some (mem.put buffer (min size (text.length + 1)) fun i => (terminated text).getD i 0,
        text.length + 1)

/-- An output that ends in the address space. -/
theorem Output.printsBounded {format : List (BitVec 8)} {args : List Arg}
    {text : List (BitVec 8)} (h : Output format args text) {buffer size : Nat}
    (hbuffer : buffer + size < 4294967296) (hcount : text.length + 1 < 4294967296)
    (hfit : buffer + text.length + 1 ≤ 4294967296) : PrintsBounded format args text buffer size := by
  intro stack mem
  have hlen := terminated_length text
  have hstop : add32 buffer size = buffer + size := Nat.mod_eq_of_lt hbuffer
  obtain ⟨hend, -, hmem⟩ := biPrintString_buffer (terminated text)
    { mem, buffer, stop := add32 buffer size } (by show buffer + _ ≤ _; omega)
    (by show buffer < _; omega)
  rw [h.buffer_eq]
  show some (_, sub32 _ buffer) = _
  rw [hend]
  refine congrArg some (Prod.ext ?_ ?_)
  · funext x
    refine (hmem x).trans ?_
    show (if buffer ≤ x ∧ x < min (add32 buffer size) (buffer + (terminated text).length) then
      (terminated text).getD (x - buffer) 0 else mem x) =
        if buffer ≤ x ∧ x < buffer + min size (text.length + 1) then
          (terminated text).getD (x - buffer) 0 else mem x
    rw [hstop, hlen, Nat.add_min_add_left]
  · show sub32 (add32 buffer (terminated text).length) buffer = text.length + 1
    unfold sub32 add32
    omega

/-- Printing without a buffer measures the output, and printing to a block of the measured size
gives all of it. -/
theorem Output.measured {format : List (BitVec 8)} {args : List Arg} {text : List (BitVec 8)}
    (h : Output format args text) (stack : Nat → BitVec 8) (mem : ByteMemory) {block : Nat}
    (hblock : block + (text.length + 1) < 4294967296) :
    blPrintArgsToBuffer stack mem 0 0 format args = some (mem, text.length + 1) ∧
      blPrintArgsToBuffer stack mem block (text.length + 1) format args =
        some (mem.put block (text.length + 1) fun i => (terminated text).getD i 0,
          text.length + 1) := by
  have hmeasured : PrintsBounded format args text 0 0 :=
    h.printsBounded (by decide) (by omega) (by omega)
  have hmeasure := hmeasured stack mem
  have hprint := h.printsBounded hblock (by omega) (by omega) stack mem
  rw [Nat.min_self] at hprint
  refine ⟨?_, hprint⟩
  rw [hmeasure, Nat.zero_min]
  have hnone : (mem.put 0 0 fun i => (terminated text).getD i 0) = mem := by
    funext x
    apply if_neg
    omega
  rw [hnone]

/-- An output that does not writes its rest from address 0 on. -/
theorem Output.wraps {format : List (BitVec 8)} {args : List Arg} {text : List (BitVec 8)}
    (h : Output format args text) {buffer size : Nat} (hbuffer : buffer + size < 4294967296)
    (hcount : text.length + 1 < 4294967296) (hlong : 4294967296 < buffer + text.length + 1) :
    ∃ c, ∀ stack mem r, blPrintArgsToBuffer stack mem buffer size format args = some r →
      r.1 0 = c := by
  have hlen := terminated_length text
  have hstop : add32 buffer size = buffer + size := Nat.mod_eq_of_lt hbuffer
  -- the part up to the end of the address space, the character at address 0, and the others
  obtain ⟨low, c, high, hsplit, hlow⟩ : ∃ low c high, terminated text = low ++ (c :: high) ∧
      low.length = 4294967296 - buffer := by
    have hdrop : (terminated text).drop (4294967296 - buffer) ≠ [] := by
      rw [ne_eq, List.drop_eq_nil_iff]
      omega
    obtain ⟨c, high, hcons⟩ := List.exists_cons_of_ne_nil hdrop
    refine ⟨(terminated text).take (4294967296 - buffer), c, high, ?_, ?_⟩
    · rw [← hcons, List.take_append_drop]
    · rw [List.length_take]
      omega
  refine ⟨c, fun stack mem r hrun => ?_⟩
  have htotal : low.length + (high.length + 1) = text.length + 1 := by
    have hall := congrArg List.length hsplit
    rw [hlen, List.length_append, List.length_cons] at hall
    exact hall.symm
  rw [h.buffer_eq] at hrun
  cases hrun
  show (biPrintString blPrintBufferCallback (terminated text) _).mem 0 = c
  rw [hsplit, biPrintString_append]
  obtain ⟨hbuffer1, hstop1, -⟩ := biPrintString_buffer low
    { mem, buffer, stop := add32 buffer size } (by show buffer + _ ≤ _; omega)
    (by show buffer < _; omega)
  generalize hdata1 : biPrintString blPrintBufferCallback low
    { mem, buffer, stop := add32 buffer size } = data1 at hbuffer1 hstop1
  have hzero : data1.buffer = 0 := by
    rw [hbuffer1, hlow]
    show (buffer + (4294967296 - buffer)) % 4294967296 = 0
    omega
  have hstop' : data1.stop = buffer + size := hstop1.trans hstop
  obtain ⟨-, -, hmem2⟩ := biPrintString_buffer (c :: high) data1
    (by rw [hzero, List.length_cons]; omega) (by rw [hzero]; omega)
  rw [hmem2, hzero, hstop', if_pos (by rw [List.length_cons]; omega)]
  rfl

/-- Printing is bounded exactly when the terminated output ends in the address space. -/
theorem printsBounded_iff {format : List (BitVec 8)} {args : List Arg} {text : List (BitVec 8)}
    {buffer size : Nat} (h : Output format args text) (hbuffer : buffer + size < 4294967296) :
    PrintsBounded format args text buffer size ↔
      text.length + 1 < 4294967296 ∧ buffer + text.length + 1 ≤ 4294967296 := by
  constructor
  · intro hprints
    have hcount : text.length + 1 < 4294967296 := by
      have hrun := hprints (fun _ => 0) (fun _ => 0)
      rw [h.buffer_eq] at hrun
      have hreturned := congrArg Prod.snd (Option.some.inj hrun)
      have hlt : ∀ y, sub32 y buffer < 4294967296 := fun y => Nat.mod_lt _ (by decide)
      exact lt_of_eq_of_lt hreturned.symm (hlt _)
    refine ⟨hcount, ?_⟩
    apply Nat.le_of_not_lt
    intro hlong
    obtain ⟨c, hzero⟩ := h.wraps hbuffer hcount hlong
    have hkept : ∀ mem : ByteMemory, mem 0 = c := by
      intro mem
      have hbyte := hzero (fun _ => 0) mem _ (hprints _ mem)
      have hout : ¬ (buffer ≤ 0 ∧ 0 < buffer + min size (text.length + 1)) := by omega
      rw [← hbyte]
      exact (if_neg hout).symm
    have hone := hkept fun _ => 1
    have htwo := hkept fun _ => 2
    exact absurd (hone.trans htwo.symm) (by decide)
  · rintro ⟨hcount, hfit⟩
    exact h.printsBounded hbuffer hcount hfit

/-- A buffer of 32 bytes at address 64, for the name of a node. -/
theorem printsBounded_memory :
    PrintsBounded [0x6d, 0x40, 0x25, 0x7a, 0x78] [.word 0x2000000]
        (0x6d :: 0x40 :: ((Number.hexadecimal 0x2000000).text 0 ++ [])) 64 32 ↔
      (0x6d :: 0x40 :: ((Number.hexadecimal 0x2000000).text 0 ++ [])).length + 1 < 4294967296 ∧
        64 + (0x6d :: 0x40 :: ((Number.hexadecimal 0x2000000).text 0 ++ [])).length + 1 ≤ 4294967296 := by
  let s : Specifier :=
    { digits := []
      typeCode := .z
      conversion := 0x78
      isDigit_digits := fun _ hc => absurd hc List.not_mem_nil
      conversion_plain := fun hplain => nomatch hplain }
  have hpiece : Piece s [.word 0x2000000] ((Number.hexadecimal 0x2000000).text 0) [] :=
    Piece.hexadecimal (s := s) 0x2000000 rfl (fun hl => nomatch hl)
  have hout : Output [0x6d, 0x40, 0x25, 0x7a, 0x78] [.word 0x2000000] _ :=
    .char (by decide) (.char (by decide) (.piece (s := s) hpiece (.nil : Output [] [] [])))
  exact printsBounded_iff hout (by decide)

/-- Sixteen characters for eight bytes at the end of the address space: the terminator goes to
address 0. -/
theorem not_printsBounded_wrap :
    ¬ PrintsBounded (List.replicate 16 0x61) [] (List.replicate 16 0x61) 0xfffffff0 8 := by
  intro h
  have hrun := h (fun _ => 0) (fun _ => 1)
  have hzero := congrArg (Option.map fun r => r.1 0) hrun
  exact absurd hzero (by decide)

end XrLinux.Bootloader
