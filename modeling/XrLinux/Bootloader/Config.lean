import XrLinux.Bootloader.Logging

/-!
# Bootloader — `config.c`

The parser of `xrlinux.cfg`. The pointer that walks over the file is the rest of the file from
there on; `size` is what the program takes for its length. A read that the rest of the file does
not have is `outside`. Indices are `size_t`, with `sizeMax` for one that is not known.

A value is what `BiHandleOption` leaves in the block that it allocates. The heap itself is left
open: `allocate` gives a block, or nothing when `BlAllocateHeap` crashes. That an unknown option is
printed before it is skipped is left out.
-/

namespace XrLinux.Bootloader

/-- `SIZE_MAX`. -/
def sizeMax : Nat := 4294967295

inductive ConfigStop where
  | crash (format : String) (args : List Arg)
  | outside
  | diverges

structure ConfigHeap (σ : Type) where
  allocate : σ → Nat → Option (σ × Nat)
  free : σ → Nat → σ

inductive BiOptionType where
  | string

structure BiOption where
  name : List (BitVec 8)
  type : BiOptionType
  flags : BitVec 32
  value : Option (List (BitVec 8))

def biRequired : BitVec 32 := 1

def biProvided : BitVec 32 := 1 <<< 31

/-- `BiOptions`, when `BlCommandLine` is what the firmware has passed. -/
def biOptions (commandLine : Option (List (BitVec 8))) : List BiOption :=
  [ -- KernelPath
    { name := [0x4b, 0x65, 0x72, 0x6e, 0x65, 0x6c, 0x50, 0x61, 0x74, 0x68]
      type := .string
      flags := biRequired
      value := none },
    -- StdoutPath
    { name := [0x53, 0x74, 0x64, 0x6f, 0x75, 0x74, 0x50, 0x61, 0x74, 0x68]
      type := .string
      flags := 0
      value := none },
    -- InitrdPath
    { name := [0x49, 0x6e, 0x69, 0x74, 0x72, 0x64, 0x50, 0x61, 0x74, 0x68]
      type := .string
      flags := 0
      value := none },
    -- CommandLine
    { name := [0x43, 0x6f, 0x6d, 0x6d, 0x61, 0x6e, 0x64, 0x4c, 0x69, 0x6e, 0x65]
      type := .string
      flags := 0
      value := commandLine } ]

/-- `BiValidateOptions`. -/
def biValidateOptions : List BiOption → Except ConfigStop Unit
  | [] => .ok ()
  | option :: options =>
    if option.flags &&& (biRequired ||| biProvided) = biRequired then
      .error (.crash "BiValidateOptions: missing required option `%s`" [.str option.name])
    else biValidateOptions options

def biIsWhitespace (c : BitVec 8) : Bool := c = 0x20 ∨ c = 0x09 ∨ c = 0x0d

/-- `buffer[i]`. -/
def byteAt (buffer : List (BitVec 8)) (i : Nat) : Except ConfigStop (BitVec 8) :=
  match buffer[i]? with
  | some c => .ok c
  | none => .error .outside

/-- `count` bytes from `&buffer[start]` on. -/
def bytesAt (buffer : List (BitVec 8)) (start count : Nat) :
    Except ConfigStop (List (BitVec 8)) :=
  if start + count ≤ buffer.length then .ok ((buffer.drop start).take count) else .error .outside

/-- `BlFindOption`: the place of the option in the table. -/
def blFindOption (name : List (BitVec 8)) (nameLength : Nat) :
    List BiOption → Nat → Except ConfigStop (Option Nat)
  | [], _ => .ok none
  | option :: options, i =>
    if option.name.length = nameLength then do
      let bytes ← bytesAt name 0 nameLength
      if option.name = bytes then return some i else blFindOption name nameLength options (i + 1)
    else blFindOption name nameLength options (i + 1)

structure Config (σ : Type) where
  options : List BiOption
  heap : σ

/-- What `BiHandleOption` does with the option that it has found. -/
def BiOption.provide (option : BiOption) (value : List (BitVec 8)) : BiOption :=
  { option with value := some value, flags := option.flags ||| biProvided }

section
variable {σ : Type} (heap : ConfigHeap σ)

/-- `BL_ALLOCATE(char, count)`. -/
def allocateChars (s : σ) (count : Nat) : Except ConfigStop (σ × Nat) :=
  match heap.allocate s count with
  | some r => .ok r
  | none => .error (.crash "out of memory" [])

/-- `BiHandleOption`; the value is at `&buffer[valueStart]`. -/
def biHandleOption (buffer : List (BitVec 8)) (nameLength valueStart valueLength : Nat)
    (config : Config σ) : Except ConfigStop (Config σ) := do
  match ← blFindOption buffer nameLength config.options 0 with
  | none => return config
  | some i =>
    let (s, _) ← allocateChars heap config.heap (add32 valueLength 1)
    let value ← bytesAt buffer valueStart valueLength
    return { options := config.options.modify i (·.provide (value ++ [0])), heap := s }

/-- The loop over the blanks at the start of a line. -/
def skipWhitespace : Nat → List (BitVec 8) → Nat → Except ConfigStop (List (BitVec 8) × Nat)
  | 0, _, _ => .error .diverges
  | fuel + 1, buffer, size =>
    if 0 < size then do
      let c ← byteAt buffer 0
      if biIsWhitespace c then skipWhitespace fuel (buffer.drop 1) (size - 1)
      else return (buffer, size)
    else return (buffer, size)

structure LineMarks where
  nameEnd : Nat
  valueEnd : Nat
  lineEnd : Nat

/-- The loop that looks for the colon, the `#` and the end of the line. -/
def scanLine (buffer : List (BitVec 8)) (size : Nat) : Nat → LineMarks → Except ConfigStop LineMarks
  | 0, _ => .error .diverges
  | fuel + 1, marks =>
    if marks.lineEnd < size then do
      let c ← byteAt buffer marks.lineEnd
      if c ≠ 0x0a then
        scanLine buffer size fuel
          { nameEnd := if marks.nameEnd = sizeMax ∧ c = 0x3a then marks.lineEnd else marks.nameEnd
            valueEnd :=
              if marks.valueEnd = sizeMax ∧ c = 0x23 then marks.lineEnd else marks.valueEnd
            lineEnd := add32 marks.lineEnd 1 }
      else return marks
    else return marks

/-- The loop over the blanks before the value. -/
def trimStart (buffer : List (BitVec 8)) (valueEnd : Nat) : Nat → Nat → Except ConfigStop Nat
  | 0, _ => .error .diverges
  | fuel + 1, valueStart =>
    if valueStart < valueEnd then do
      let c ← byteAt buffer valueStart
      if biIsWhitespace c then trimStart buffer valueEnd fuel (add32 valueStart 1)
      else return valueStart
    else return valueStart

/-- The loop over the blanks behind it. -/
def trimEnd (buffer : List (BitVec 8)) (valueStart : Nat) : Nat → Nat → Except ConfigStop Nat
  | 0, _ => .error .diverges
  | fuel + 1, valueEnd =>
    if valueStart < valueEnd then do
      let c ← byteAt buffer (sub32 valueEnd 1)
      if biIsWhitespace c then trimEnd buffer valueStart fuel (sub32 valueEnd 1)
      else return valueEnd
    else return valueEnd

/-- What is done with a line once its marks are known. -/
def handleLine (buffer : List (BitVec 8)) (rounds line : Nat) (marks : LineMarks)
    (config : Config σ) : Except ConfigStop (Config σ) :=
  if marks.valueEnd = 0 ∨ marks.lineEnd = 0 then .ok config
  else if marks.nameEnd = sizeMax then
    .error (.crash "invalid syntax in configuration (line %zu)" [.word line])
  else do
    let valueEnd := if marks.valueEnd = sizeMax then marks.lineEnd else marks.valueEnd
    let valueStart := add32 marks.nameEnd 1
    let valueStart ← trimStart buffer valueEnd rounds valueStart
    let valueEnd ← trimEnd buffer valueStart rounds valueEnd
    biHandleOption heap buffer marks.nameEnd valueStart (sub32 valueEnd valueStart) config

/-- The loop over the lines; no loop inside takes more than `rounds`. -/
def parseLines (rounds : Nat) :
    Nat → List (BitVec 8) → Nat → Nat → Config σ → Except ConfigStop (Config σ)
  | 0, _, _, _, _ => .error .diverges
  | fuel + 1, buffer, size, line, config =>
    if 0 < size then do
      let (buffer, size) ← skipWhitespace rounds buffer size
      let marks ← scanLine buffer size rounds { nameEnd := sizeMax, valueEnd := sizeMax, lineEnd := 0 }
      let config ← handleLine heap buffer rounds line marks config
      let lineEnd := if marks.lineEnd < size then add32 marks.lineEnd 1 else marks.lineEnd
      parseLines rounds fuel (buffer.drop lineEnd) (size - lineEnd) (add32 line 1) config
    else return config

/-- `BlLoadConfigurationFromFile`, for the file with these bytes. -/
def blLoadConfigurationFromFile (file : List (BitVec 8)) (config : Config σ) :
    Except ConfigStop (Config σ) := do
  let (s, start) ← allocateChars heap config.heap file.length
  let rounds := file.length + 1
  let config ← parseLines heap rounds rounds file file.length 1 { config with heap := s }
  biValidateOptions config.options
  return { config with heap := heap.free config.heap start }

end

end XrLinux.Bootloader
