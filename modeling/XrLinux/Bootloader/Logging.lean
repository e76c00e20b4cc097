import XrLinux.Lib.ByteMemory
import XrLinux.Bootloader.Memory

/-!
# Bootloader — `logging.c`

Printing, to a callback `fn` that gets one character after the other. A format is a string of C
without its terminator; `Arg` is what `va_arg` can find. `none` is what has no meaning in C: an
element that a buffer does not have, an argument of another type, a format that ends inside a
specifier.
-/

namespace XrLinux.Bootloader

open ByteMemory

/-- `BI_MAX_DIGITS`. -/
def biMaxDigits : Nat := 32

/-- The digits that are there, from `index` to the end of `buffer`. -/
structure Digits where
  buffer : Nat → BitVec 8
  index : Nat

/-- `buffer[--index] = c`. -/
def Digits.push (d : Digits) (c : BitVec 8) : Option Digits :=
  let index := sub32 d.index 1
  if index < biMaxDigits then some { buffer := Function.update d.buffer index c, index } else none

/-- The loop that takes the digits off the value. -/
def digitLoop (digit : Nat → BitVec 8) (rest : Nat → Nat) : Nat → Nat → Digits → Option Digits
  | 0, _, _ => none
  | fuel + 1, value, d => do
    let d ← d.push (digit value)
    if rest value ≠ 0 then digitLoop digit rest fuel (rest value) d else some d

/-- The loop that puts zeros before them. -/
def padLoop (minIndex minDigits : Nat) : Nat → Digits → Option Digits
  | 0, _ => none
  | fuel + 1, d =>
    if d.index > minIndex ∧ sub32 (sub32 biMaxDigits d.index) minIndex < minDigits then do
      let d ← d.push 0x30
      padLoop minIndex minDigits fuel d
    else some d

section
variable {σ : Type} (fn : BitVec 8 → σ → σ)

/-- The loop that prints the buffer. -/
def flush : Nat → Digits → σ → Option σ
  | 0, _, _ => none
  | fuel + 1, d, ctx =>
    if d.index < biMaxDigits then
      flush fuel { d with index := d.index + 1 } (fn (d.buffer d.index) ctx)
    else some ctx

/-- No loop over the buffer takes longer. -/
def digitRounds : Nat := biMaxDigits + 1

def decimalDigit (value : Nat) : BitVec 8 := .ofNat 8 (0x30 + value % 10)

/-- `"0123456789abcdef"[value & 0xf]`. -/
def hexDigit (value : Nat) : BitVec 8 :=
  [0x30, 0x31, 0x32, 0x33, 0x34, 0x35, 0x36, 0x37, 0x38, 0x39, 0x61, 0x62, 0x63, 0x64, 0x65,
    0x66].getD (value &&& 0xf) 0

/-- `BiPrintUnsignedDecimal`; `stack` is what the buffer holds before. -/
def biPrintUnsignedDecimal (stack : Nat → BitVec 8) (value minDigits : Nat) (prefixChar : BitVec 8)
    (ctx : σ) : Option σ := do
  let minIndex := if prefixChar ≠ 0 then 1 else 0
  let d ← digitLoop decimalDigit (· / 10) digitRounds value { buffer := stack, index := biMaxDigits }
  let d ← padLoop minIndex minDigits digitRounds d
  let d ← if prefixChar ≠ 0 then d.push prefixChar else some d
  flush fn digitRounds d ctx

/-- `BiPrintSignedDecimal`, for the `ssize_t` with these bits. -/
def biPrintSignedDecimal (stack : Nat → BitVec 8) (value minDigits : Nat) (ctx : σ) : Option σ :=
  if value < 2147483648 then biPrintUnsignedDecimal fn stack value minDigits 0 ctx
  else biPrintUnsignedDecimal fn stack (sub32 0 value) minDigits 0x2d ctx

def biPrintHexadecimal (stack : Nat → BitVec 8) (value minDigits : Nat) (ctx : σ) : Option σ := do
  let d ← digitLoop hexDigit (· >>> 4) digitRounds value { buffer := stack, index := biMaxDigits }
  let d ← padLoop 0 minDigits digitRounds d
  flush fn digitRounds d ctx

/-- `BiPrintString`, and the loop of `%S`. -/
def biPrintString (str : List (BitVec 8)) (ctx : σ) : σ := str.foldl (fun ctx c => fn c ctx) ctx

end

/-- An argument: a word (`int`, `unsigned`, `size_t`, `ssize_t` or a pointer that is printed), an
`uint64_t`, a string, bytes, or other arguments by their `va_list *`. -/
inductive Arg where
  | word (value : Nat)
  | wide (value : Nat)
  | str (chars : List (BitVec 8))
  | data (bytes : List (BitVec 8))
  | args (list : List Arg)

mutual

/-- How deep `%f` can go into the argument. -/
def Arg.depth : Arg → Nat
  | .args list => argsDepth list + 1
  | .word _ | .wide _ | .str _ | .data _ => 0

def argsDepth : List Arg → Nat
  | [] => 0
  | a :: rest => max a.depth (argsDepth rest)

end

def isDigit (c : BitVec 8) : Bool := 0x30 ≤ c ∧ c ≤ 0x39

/-- The loop over the digits of a specifier. Returns `minDigits` and the format from the first
other character on. -/
def minDigitsFrom : Nat → List (BitVec 8) → Nat × List (BitVec 8)
  | minDigits, [] => (minDigits, [])
  | minDigits, c :: format =>
    if isDigit c then minDigitsFrom ((minDigits * 10 + (c.toNat - 0x30)) % 4294967296) format
    else (minDigits, c :: format)

/-- `typeCode`, and the format behind it. -/
def typeCodeFrom : List (BitVec 8) → BitVec 8 × List (BitVec 8)
  | [] => (0, [])
  | c :: format => if c = 0x6c ∨ c = 0x7a then (c, format) else (0, c :: format)

section
variable {σ : Type} (fn : BitVec 8 → σ → σ)

/-- The `switch` in `BlPrintArgsToCallback`, with the function for nested formats. -/
def printSpecifier (nested : List (BitVec 8) → List Arg → σ → Option σ) (stack : Nat → BitVec 8)
    (minDigits : Nat) (typeCode c : BitVec 8) (args : List Arg) (ctx : σ) :
    Option (σ × List Arg) :=
  -- %
  if c = 0x25 then some (fn 0x25 ctx, args)
  -- f
  else if c = 0x66 then
    match args with
    | .str format2 :: .args args2 :: args => (nested format2 args2 ctx).map fun ctx => (ctx, args)
    | _ => none
  -- c
  else if c = 0x63 then
    match args with
    | .word value :: args => some (fn (.ofNat 8 value) ctx, args)
    | _ => none
  -- s
  else if c = 0x73 then
    match args with
    | .str str :: args => some (biPrintString fn str ctx, args)
    | _ => none
  -- S
  else if c = 0x53 then
    match args with
    | .data data :: .word count :: args =>
      if count ≤ data.length then some (biPrintString fn (data.take count) ctx, args) else none
    | _ => none
  -- p
  else if c = 0x70 then
    match args with
    | .word value :: args =>
      (biPrintHexadecimal fn stack value 0 (fn 0x78 (fn 0x30 ctx))).map fun ctx => (ctx, args)
    | _ => none
  -- d
  else if c = 0x64 then
    if typeCode = 0x6c then some (ctx, args)
    else
      match args with
      | .word value :: args =>
        (biPrintSignedDecimal fn stack value minDigits ctx).map fun ctx => (ctx, args)
      | _ => none
  -- u
  else if c = 0x75 then
    if typeCode = 0x6c then some (ctx, args)
    else
      match args with
      | .word value :: args =>
        (biPrintUnsignedDecimal fn stack value minDigits 0 ctx).map fun ctx => (ctx, args)
      | _ => none
  -- x
  else if c = 0x78 then
    match args with
    | .word value :: args =>
      if typeCode = 0x6c then none
      else (biPrintHexadecimal fn stack value minDigits ctx).map fun ctx => (ctx, args)
    | .wide value :: args =>
      if typeCode = 0x6c then
        (biPrintHexadecimal fn stack value minDigits ctx).map fun ctx => (ctx, args)
      else none
    | _ => none
  else some (ctx, args)

/-- The loop over the format. -/
def printLoop (nested : List (BitVec 8) → List Arg → σ → Option σ) (stack : Nat → BitVec 8) :
    Nat → List (BitVec 8) → List Arg → σ → Option σ
  | 0, _, _, _ => none
  | _ + 1, [], _, ctx => some ctx
  | fuel + 1, c :: format, args, ctx =>
    if c ≠ 0x25 then printLoop nested stack fuel format args (fn c ctx)
    else
      let (minDigits, format) := minDigitsFrom 0 format
      let (typeCode, format) := typeCodeFrom format
      match format with
      | [] => none
      | c :: format => do
        let (ctx, args) ← printSpecifier fn nested stack minDigits typeCode c args ctx
        printLoop nested stack fuel format args ctx

/-- `BlPrintArgsToCallback`, for formats nested no deeper than `depth`. -/
def printNested (stack : Nat → BitVec 8) : Nat → List (BitVec 8) → List Arg → σ → Option σ
  | 0, _, _, _ => none
  | depth + 1, format, args, ctx =>
    printLoop fn (printNested stack depth) stack (format.length + 1) format args ctx

def blPrintArgsToCallback (stack : Nat → BitVec 8) (format : List (BitVec 8)) (args : List Arg)
    (ctx : σ) : Option σ :=
  printNested fn stack (argsDepth args + 1) format args ctx

end

/-- `struct BlPrintBufferData`, and the memory. -/
structure BlPrintBufferData where
  mem : ByteMemory
  buffer : Nat
  stop : Nat

def blPrintBufferCallback (c : BitVec 8) (ctx : BlPrintBufferData) : BlPrintBufferData :=
  { ctx with
    mem := if ctx.buffer < ctx.stop then ctx.mem.write8 ctx.buffer c else ctx.mem
    buffer := add32 ctx.buffer 1 }

/-- `BlPrintArgsToBuffer`: the memory afterwards and the count that is returned. -/
def blPrintArgsToBuffer (stack : Nat → BitVec 8) (mem : ByteMemory) (buffer size : Nat)
    (format : List (BitVec 8)) (args : List Arg) : Option (ByteMemory × Nat) := do
  let data := { mem, buffer, stop := add32 buffer size }
  let data ← blPrintArgsToCallback blPrintBufferCallback stack format args data
  let data := blPrintBufferCallback 0 data
  return (data.mem, sub32 data.buffer buffer)

end XrLinux.Bootloader
