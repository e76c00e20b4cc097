import Mathlib.Data.BitVec
import Mathlib.Data.List.TakeWhile
import XrLinux.Lib.Forest

/-!
# Flattened trees

The flattened device tree format, version 17: a structure block of tokens, with the names of the
properties in a strings block. `encode` writes a tree, given where each name is; `parse` reads one, and
gives back what was written if the names are where they are said to be (`parse_encode`).
-/

namespace FlattenedTree

abbrev Bytes := List (BitVec 8)

/-- The name of a node, and its properties with their values. -/
abbrev Label := Bytes × List (Bytes × Bytes)

/-! ## Words and padded data -/

/-- A big-endian word. -/
def be32 (v : Nat) : Bytes :=
  [.ofNat 8 (v / 16777216), .ofNat 8 (v / 65536), .ofNat 8 (v / 256), .ofNat 8 v]

def readBe32 : Bytes → Option (Nat × Bytes)
  | a :: b :: c :: d :: rest =>
    some (16777216 * a.toNat + 65536 * b.toNat + 256 * c.toNat + d.toNat, rest)
  | _ => none

/-- What is missing to a whole number of words. -/
def missing (length : Nat) : Nat := (4 - length % 4) % 4

def padded (data : Bytes) : Bytes := data ++ List.replicate (missing data.length) 0

def readData (length : Nat) (bytes : Bytes) : Option (Bytes × Bytes) :=
  if length + missing length ≤ bytes.length then
    some (bytes.take length, bytes.drop (length + missing length))
  else none

/-- What is in front of the first terminator, if there is one. -/
def readText (bytes : Bytes) : Option Bytes :=
  let text := bytes.takeWhile (· ≠ 0)
  if text.length < bytes.length then some text else none

theorem readBe32_be32 {v : Nat} (hv : v < 4294967296) (rest : Bytes) :
    readBe32 (be32 v ++ rest) = some (v, rest) := by
  simp only [be32, readBe32, List.cons_append, List.nil_append, BitVec.toNat_ofNat, Option.some.injEq,
    Prod.mk.injEq, and_true]
  omega

theorem length_be32 (v : Nat) : (be32 v).length = 4 := rfl

theorem length_padded (data : Bytes) : (padded data).length = data.length + missing data.length := by
  rw [padded, List.length_append, List.length_replicate]

theorem readData_padded (data rest : Bytes) :
    readData data.length (padded data ++ rest) = some (data, rest) := by
  have hlength := length_padded data
  have htake : (padded data ++ rest).take data.length = data := by
    rw [padded, List.append_assoc, List.take_left]
  have hdrop : (padded data ++ rest).drop (data.length + missing data.length) = rest := by
    rw [← hlength, List.drop_left]
  rw [readData, if_pos, htake, hdrop]
  rw [List.length_append]
  omega

theorem readText_append {text : Bytes} (htext : 0 ∉ text) (rest : Bytes) :
    readText (text ++ 0 :: rest) = some text := by
  have hall : ∀ b ∈ text, decide (b ≠ 0) = true := by
    intro b hb
    exact decide_eq_true fun heq => htext (heq ▸ hb)
  have htake : (text ++ 0 :: rest).takeWhile (· ≠ 0) = text := by
    rw [List.takeWhile_append_of_pos hall]
    simp
  unfold readText
  rw [htake]
  refine if_pos ?_
  rw [List.length_append, List.length_cons]
  omega

/-! ## The writer -/

section
variable (offset : Bytes → Nat)

/-- A token, the length of the value, where the name is, and the value. -/
def encodeProps (props : List (Bytes × Bytes)) : Bytes :=
  props.flatMap fun p => be32 3 ++ be32 p.2.length ++ be32 (offset p.1) ++ padded p.2

def encode : Forest Label → Bytes
  | .nil => []
  | .node (name, props) children siblings =>
    be32 1 ++ padded (name ++ [0]) ++ encodeProps offset props ++ encode children ++ be32 2 ++
      encode siblings

end

/-! ## The reader -/

section
variable (strings : Bytes)

def parseProps : Nat → Bytes → Option (List (Bytes × Bytes) × Bytes)
  | 0, _ => none
  | fuel + 1, bytes => do
    let (token, rest) ← readBe32 bytes
    if token = 4 then parseProps fuel rest
    else if token = 3 then
      let (length, rest) ← readBe32 rest
      let (offset, rest) ← readBe32 rest
      let (value, rest) ← readData length rest
      let name ← readText (strings.drop offset)
      let (props, rest) ← parseProps fuel rest
      return ((name, value) :: props, rest)
    else return ([], bytes)

/-- The nodes up to a token that is not the start of one. -/
def parseNodes : Nat → Bytes → Option (Forest Label × Bytes)
  | 0, _ => none
  | fuel + 1, bytes => do
    let (token, rest) ← readBe32 bytes
    if token = 4 then parseNodes fuel rest
    else if token = 1 then
      let name ← readText rest
      let (_, rest) ← readData (name.length + 1) rest
      let (props, rest) ← parseProps strings fuel rest
      let (children, rest) ← parseNodes fuel rest
      let (token, rest) ← readBe32 rest
      if token ≠ 2 then none
      let (siblings, rest) ← parseNodes fuel rest
      return (.node (name, props) children siblings, rest)
    else return (.nil, bytes)

/-- A structure block: nodes, and the token that ends it. -/
def parse (block : Bytes) : Option (Forest Label) := do
  let (forest, rest) ← parseNodes strings (block.length + 1) block
  let (token, rest) ← readBe32 rest
  if token = 9 ∧ rest = [] then return forest else none

end

/-! ## The round trip -/

/-- The names of the nodes are texts, the sizes fit in words, and the names of the properties are where
they are said to be. -/
def Encodable (strings : Bytes) (offset : Bytes → Nat) : Forest Label → Prop
  | .nil => True
  | .node (name, props) children siblings =>
    0 ∉ name ∧ (∀ p ∈ props, p.2.length < 4294967296 ∧ offset p.1 < 4294967296 ∧
      readText (strings.drop (offset p.1)) = some p.1) ∧
      Encodable strings offset children ∧ Encodable strings offset siblings

section
variable {strings : Bytes} {offset : Bytes → Nat}

theorem parseProps_encode {props : List (Bytes × Bytes)} {fuel : Nat} {rest : Bytes}
    (hprops : ∀ p ∈ props, p.2.length < 4294967296 ∧ offset p.1 < 4294967296 ∧
      readText (strings.drop (offset p.1)) = some p.1)
    (hfuel : (encodeProps offset props).length < fuel) {token : Nat} {tail : Bytes}
    (hrest : readBe32 rest = some (token, tail)) (hnop : token ≠ 4) (hprop : token ≠ 3) :
    parseProps strings fuel (encodeProps offset props ++ rest) = some (props, rest) := by
  induction props generalizing fuel with
  | nil =>
    obtain ⟨fuel, rfl⟩ := Nat.exists_eq_add_of_le' hfuel
    show parseProps strings (fuel + 1) rest = _
    rw [parseProps, hrest]
    show (if token = 4 then _ else if token = 3 then _ else _) = _
    rw [if_neg hnop, if_neg hprop]
    rfl
  | cons p props ih =>
    obtain ⟨fuel, rfl⟩ := Nat.exists_eq_add_of_le' (Nat.zero_lt_of_lt hfuel)
    obtain ⟨hlength, hoffset, hname⟩ := hprops p List.mem_cons_self
    have hsplit : encodeProps offset (p :: props) ++ rest = be32 3 ++ (be32 p.2.length ++
        (be32 (offset p.1) ++ (padded p.2 ++ (encodeProps offset props ++ rest)))) := by
      simp only [encodeProps, List.flatMap_cons, List.append_assoc]
    have hlt : (encodeProps offset props).length < fuel := by
      have hlong : (encodeProps offset (p :: props)).length =
          4 + 4 + 4 + (padded p.2).length + (encodeProps offset props).length := by
        simp only [encodeProps, List.flatMap_cons, List.length_append, length_be32]
      omega
    have ih := ih (fun q hq => hprops q (List.mem_cons_of_mem p hq)) hlt
    have hstart : ∀ bytes, readBe32 (be32 3 ++ bytes) = some (3, bytes) := readBe32_be32 (by decide)
    rw [hsplit, parseProps, hstart]
    simp [readBe32_be32 hlength, readBe32_be32 hoffset, readData_padded, hname, ih]

/-- A forest starts with a node, or what is behind it starts. -/
theorem readBe32_encode (offset : Bytes → Nat) (f : Forest Label) {rest tail : Bytes} {token : Nat}
    (hrest : readBe32 rest = some (token, tail)) :
    ∃ first tail, readBe32 (encode offset f ++ rest) = some (first, tail) ∧
      (first = 1 ∨ first = token) := by
  cases f with
  | nil => exact ⟨token, tail, hrest, .inr rfl⟩
  | node label children siblings =>
    obtain ⟨name, props⟩ := label
    have hsplit : encode offset (.node (name, props) children siblings) ++ rest =
        be32 1 ++ (padded (name ++ [0]) ++ (encodeProps offset props ++ (encode offset children ++
          (be32 2 ++ (encode offset siblings ++ rest))))) := by
      simp only [encode, List.append_assoc]
    rw [hsplit]
    exact ⟨1, _, readBe32_be32 (by decide) _, .inl rfl⟩

theorem parseNodes_encode {f : Forest Label} {fuel : Nat} {rest : Bytes}
    (hf : Encodable strings offset f) (hfuel : (encode offset f).length < fuel) {token : Nat}
    {tail : Bytes} (hrest : readBe32 rest = some (token, tail)) (hnop : token ≠ 4) (hnode : token ≠ 1) :
    parseNodes strings fuel (encode offset f ++ rest) = some (f, rest) := by
  induction f generalizing fuel rest token tail with
  | nil =>
    obtain ⟨fuel, rfl⟩ := Nat.exists_eq_add_of_le' hfuel
    show parseNodes strings (fuel + 1) rest = _
    rw [parseNodes, hrest]
    show (if token = 4 then _ else if token = 1 then _ else _) = _
    rw [if_neg hnop, if_neg hnode]
    rfl
  | node label children siblings ihc ihs =>
    obtain ⟨fuel, rfl⟩ := Nat.exists_eq_add_of_le' (Nat.zero_lt_of_lt hfuel)
    obtain ⟨name, props⟩ := label
    obtain ⟨hname, hprops, hchildren, hsiblings⟩ := hf
    have hlong : (encode offset (.node (name, props) children siblings)).length =
        4 + (padded (name ++ [0])).length + (encodeProps offset props).length +
          (encode offset children).length + 4 + (encode offset siblings).length := by
      simp only [encode, List.length_append, length_be32]
    have hsplit : encode offset (.node (name, props) children siblings) ++ rest =
        be32 1 ++ (padded (name ++ [0]) ++ (encodeProps offset props ++ (encode offset children ++
          (be32 2 ++ (encode offset siblings ++ rest))))) := by
      simp only [encode, List.append_assoc]
    have hend : ∀ bytes, readBe32 (be32 2 ++ bytes) = some (2, bytes) := readBe32_be32 (by decide)
    obtain ⟨first, tail', hfirst, hor⟩ := readBe32_encode offset children
      (hend (encode offset siblings ++ rest))
    have htext : ∀ bytes, readText (padded (name ++ [0]) ++ bytes) = some name := by
      intro bytes
      rw [padded, List.append_assoc, List.append_assoc]
      exact readText_append hname _
    have hdata : ∀ bytes, readData (name.length + 1) (padded (name ++ [0]) ++ bytes) =
        some (name ++ [0], bytes) := by
      intro bytes
      have hread := readData_padded (name ++ [0]) bytes
      rwa [List.length_append, List.length_singleton] at hread
    have hpropsRead := @parseProps_encode strings offset props fuel _ hprops (by omega) _ _ hfirst
      (by omega) (by omega)
    have hchildrenRead := @ihc fuel _ hchildren (by omega) _ _
      (hend (encode offset siblings ++ rest)) (by decide) (by decide)
    have hsiblingsRead := @ihs fuel _ hsiblings (by omega) _ _ hrest hnop hnode
    have hstart : ∀ bytes, readBe32 (be32 1 ++ bytes) = some (1, bytes) := readBe32_be32 (by decide)
    rw [hsplit, parseNodes, hstart]
    simp only [Option.bind_eq_bind, Option.bind_some, OfNat.one_ne_ofNat, if_false, if_true, htext, hdata,
      hpropsRead, hchildrenRead, hend, ne_eq, not_true_eq_false, hsiblingsRead]
    rfl

/-- What is written is read back. -/
theorem parse_encode {f : Forest Label} (hf : Encodable strings offset f) :
    parse strings (encode offset f ++ be32 9) = some f := by
  have hend : readBe32 (be32 9) = some (9, []) := by
    have hread := readBe32_be32 (v := 9) (by decide) []
    rwa [List.append_nil] at hread
  have hfuel : (encode offset f).length < (encode offset f ++ be32 9).length + 1 := by
    rw [List.length_append]
    omega
  have hread := parseNodes_encode hf hfuel hend (by decide) (by decide)
  rw [parse, hread]
  simp [hend]

end

/-! ## The header -/

/-- The ten words at the start. -/
structure Header where
  magic : Nat
  totalSize : Nat
  offDtStruct : Nat
  offDtStrings : Nat
  offMemRsvmap : Nat
  version : Nat
  lastCompVersion : Nat
  bootCpuidPhys : Nat
  sizeDtStrings : Nat
  sizeDtStruct : Nat
  deriving DecidableEq

namespace Header

def encode (h : Header) : Bytes :=
  be32 h.magic ++ be32 h.totalSize ++ be32 h.offDtStruct ++ be32 h.offDtStrings ++ be32 h.offMemRsvmap ++
    be32 h.version ++ be32 h.lastCompVersion ++ be32 h.bootCpuidPhys ++ be32 h.sizeDtStrings ++
      be32 h.sizeDtStruct

def read (blob : Bytes) : Option (Header × Bytes) := do
  let (magic, rest) ← readBe32 blob
  let (totalSize, rest) ← readBe32 rest
  let (offDtStruct, rest) ← readBe32 rest
  let (offDtStrings, rest) ← readBe32 rest
  let (offMemRsvmap, rest) ← readBe32 rest
  let (version, rest) ← readBe32 rest
  let (lastCompVersion, rest) ← readBe32 rest
  let (bootCpuidPhys, rest) ← readBe32 rest
  let (sizeDtStrings, rest) ← readBe32 rest
  let (sizeDtStruct, rest) ← readBe32 rest
  return ({ magic, totalSize, offDtStruct, offDtStrings, offMemRsvmap, version, lastCompVersion, bootCpuidPhys, sizeDtStrings, sizeDtStruct }, rest)

/-- It is a header of this version, and the three blocks are aligned, in the blob, behind the header
and not over one another; the reservation block has an entry that ends it. -/
structure Valid (h : Header) (length : Nat) : Prop where
  magic : h.magic = 0xd00dfeed
  version : h.lastCompVersion ≤ 17 ∧ 17 ≤ h.version
  total : h.totalSize = length
  rsvmap : 8 ∣ h.offMemRsvmap ∧ 40 ≤ h.offMemRsvmap ∧ h.offMemRsvmap + 16 ≤ h.offDtStruct
  struct : 4 ∣ h.offDtStruct ∧ h.offDtStruct + h.sizeDtStruct ≤ h.offDtStrings
  strings : h.offDtStrings + h.sizeDtStrings ≤ length

instance (h : Header) (length : Nat) : Decidable (h.Valid length) :=
  decidable_of_iff (h.magic = 0xd00dfeed ∧ (h.lastCompVersion ≤ 17 ∧ 17 ≤ h.version) ∧
      h.totalSize = length ∧
      (8 ∣ h.offMemRsvmap ∧ 40 ≤ h.offMemRsvmap ∧ h.offMemRsvmap + 16 ≤ h.offDtStruct) ∧
      (4 ∣ h.offDtStruct ∧ h.offDtStruct + h.sizeDtStruct ≤ h.offDtStrings) ∧
      h.offDtStrings + h.sizeDtStrings ≤ length)
    ⟨fun ⟨magic, version, total, rsvmap, struct, strings⟩ =>
      ⟨magic, version, total, rsvmap, struct, strings⟩,
      fun ⟨magic, version, total, rsvmap, struct, strings⟩ =>
      ⟨magic, version, total, rsvmap, struct, strings⟩⟩

/-- The fields fit in words. -/
structure Fits (h : Header) : Prop where
  magic : h.magic < 4294967296
  totalSize : h.totalSize < 4294967296
  offDtStruct : h.offDtStruct < 4294967296
  offDtStrings : h.offDtStrings < 4294967296
  offMemRsvmap : h.offMemRsvmap < 4294967296
  version : h.version < 4294967296
  lastCompVersion : h.lastCompVersion < 4294967296
  bootCpuidPhys : h.bootCpuidPhys < 4294967296
  sizeDtStrings : h.sizeDtStrings < 4294967296
  sizeDtStruct : h.sizeDtStruct < 4294967296

theorem length_encode (h : Header) : h.encode.length = 40 := rfl

theorem read_encode {h : Header} (hfits : h.Fits) (rest : Bytes) :
    read (h.encode ++ rest) = some (h, rest) := by
  simp only [encode, List.append_assoc, read, readBe32_be32 hfits.magic, readBe32_be32 hfits.totalSize,
    readBe32_be32 hfits.offDtStruct, readBe32_be32 hfits.offDtStrings, readBe32_be32 hfits.offMemRsvmap,
    readBe32_be32 hfits.version, readBe32_be32 hfits.lastCompVersion, readBe32_be32 hfits.bootCpuidPhys,
    readBe32_be32 hfits.sizeDtStrings, readBe32_be32 hfits.sizeDtStruct, Option.bind_eq_bind,
    Option.bind_some]
  rfl

end Header

/-- A whole blob. -/
def readBlob (blob : Bytes) : Option (Forest Label) := do
  let (header, _) ← Header.read blob
  if header.Valid blob.length then
    parse ((blob.drop header.offDtStrings).take header.sizeDtStrings)
      ((blob.drop header.offDtStruct).take header.sizeDtStruct)
  else none

/-- The header, the reservation block and the two blocks it says the sizes of, one behind the other. -/
theorem readBlob_eq {h : Header} {rsvmap block strings : Bytes} (hfits : h.Fits)
    (hvalid : h.Valid (h.encode ++ (rsvmap ++ (block ++ strings))).length)
    (hstruct : h.offDtStruct = 40 + rsvmap.length) (hblock : h.sizeDtStruct = block.length)
    (hstringsOff : h.offDtStrings = 40 + rsvmap.length + block.length)
    (hstrings : h.sizeDtStrings = strings.length) :
    readBlob (h.encode ++ (rsvmap ++ (block ++ strings))) = parse strings block := by
  have hlength := Header.length_encode h
  have hdrop : (h.encode ++ (rsvmap ++ (block ++ strings))).drop h.offDtStruct = block ++ strings := by
    rw [← List.append_assoc, hstruct, ← hlength, ← List.length_append, List.drop_left]
  have hdrop' : (h.encode ++ (rsvmap ++ (block ++ strings))).drop h.offDtStrings = strings := by
    rw [← List.append_assoc, ← List.append_assoc, hstringsOff, ← hlength, ← List.length_append,
      ← List.length_append, List.drop_left]
  rw [readBlob, Header.read_encode hfits]
  simp only [Option.bind_eq_bind, Option.bind_some, if_pos hvalid, hdrop, hdrop', hblock, hstrings,
    List.take_left, List.take_length]

/-! ## The reservation block -/

def readBe64 (bytes : Bytes) : Option (Nat × Bytes) := do
  let (high, rest) ← readBe32 bytes
  let (low, rest) ← readBe32 rest
  return (4294967296 * high + low, rest)

/-- Addresses and sizes, up to a pair of zeros. -/
def readRsvmap : Nat → Bytes → Option (List (Nat × Nat))
  | 0, _ => none
  | fuel + 1, bytes => do
    let (address, rest) ← readBe64 bytes
    let (size, rest) ← readBe64 rest
    if address = 0 ∧ size = 0 then return []
    else
      let entries ← readRsvmap fuel rest
      return (address, size) :: entries

def readReservations (blob : Bytes) : Option (List (Nat × Nat)) := do
  let (header, _) ← Header.read blob
  if header.Valid blob.length then readRsvmap blob.length (blob.drop header.offMemRsvmap) else none

/-- What a double word is in the other order of its bytes. -/
def turned (v : Nat) : Nat :=
  72057594037927936 * (v % 256) + 281474976710656 * (v / 256 % 256) +
    1099511627776 * (v / 65536 % 256) + 4294967296 * (v / 16777216 % 256) +
    16777216 * (v / 4294967296 % 256) + 65536 * (v / 1099511627776 % 256) +
    256 * (v / 281474976710656 % 256) + v / 72057594037927936 % 256

/-- What is left of entries that all are turned, up to the end that a reader sees. -/
theorem takeWhile_turned_eq {entries : List (Nat × Nat)} :
    ((entries.map fun e => (turned e.1, turned e.2)).takeWhile (· ≠ (0, 0))) = entries ↔
      ∀ e ∈ entries, e ≠ (0, 0) ∧ turned e.1 = e.1 ∧ turned e.2 = e.2 := by
  constructor
  · intro heq
    -- nothing is cut off, so all of them are as they were
    have hlength := congrArg List.length heq
    have hall : (entries.map fun e => (turned e.1, turned e.2)).takeWhile (· ≠ (0, 0)) =
        entries.map fun e => (turned e.1, turned e.2) :=
      (List.takeWhile_prefix _).eq_of_length (by rw [hlength, List.length_map])
    rw [hall] at heq
    intro e he
    have hfixed : (turned e.1, turned e.2) = e :=
      List.map_inj_left.mp (heq.trans (List.map_id' entries).symm) e he
    have hkept := List.takeWhile_eq_self_iff.mp hall _ (List.mem_map_of_mem he)
    rw [hfixed] at hkept
    exact ⟨of_decide_eq_true hkept, congrArg Prod.fst hfixed, congrArg Prod.snd hfixed⟩
  · intro h
    have hmap : (entries.map fun e => (turned e.1, turned e.2)) = entries := by
      refine (List.map_congr_left fun e he => ?_).trans (List.map_id' entries)
      exact Prod.ext (h e he).2.1 (h e he).2.2
    rw [hmap]
    exact List.takeWhile_eq_self_iff.mpr fun e he => decide_eq_true (h e he).1

theorem readBe64_eq {bytes rest tail : Bytes} {high low : Nat} (hhigh : readBe32 bytes = some (high, rest))
    (hlow : readBe32 rest = some (low, tail)) :
    readBe64 bytes = some (4294967296 * high + low, tail) := by
  rw [readBe64, hhigh]
  simp [hlow]

/-- A reader that is given whole entries, of which the last one is zero. -/
theorem readRsvmap_append {α : Type*} {encodeEntry : α → Bytes} {value : α → Nat × Nat} {zero : α}
    (hread : ∀ a rest, ∃ tail, readBe64 (encodeEntry a ++ rest) = some ((value a).1, tail) ∧
      readBe64 tail = some ((value a).2, rest)) (hzero : value zero = (0, 0)) {entries : List α}
    {fuel : Nat} (hfuel : entries.length < fuel) (rest : Bytes) :
    readRsvmap fuel (entries.flatMap encodeEntry ++ (encodeEntry zero ++ rest)) =
      some ((entries.map value).takeWhile (· ≠ (0, 0))) := by
  induction entries generalizing fuel with
  | nil =>
    obtain ⟨fuel, rfl⟩ := Nat.exists_eq_add_of_le' (show 1 ≤ fuel from hfuel)
    obtain ⟨tail, haddress, hsize⟩ := hread zero rest
    rw [hzero] at haddress hsize
    rw [List.flatMap_nil, List.nil_append, readRsvmap, haddress]
    simp [hsize]
  | cons a entries ih =>
    obtain ⟨fuel, rfl⟩ := Nat.exists_eq_add_of_le' (Nat.zero_lt_of_lt hfuel)
    obtain ⟨tail, haddress, hsize⟩ := hread a (entries.flatMap encodeEntry ++ (encodeEntry zero ++ rest))
    have ih := @ih fuel (by simpa using hfuel)
    rw [List.flatMap_cons, List.append_assoc, readRsvmap, haddress]
    by_cases hend : (value a).1 = 0 ∧ (value a).2 = 0
    · have hpair : value a = (0, 0) := Prod.ext hend.1 hend.2
      simp [hsize, hpair]
    · have hpair : value a ≠ (0, 0) := fun heq => hend ⟨congrArg Prod.fst heq, congrArg Prod.snd heq⟩
      simp [hsize, hend, hpair, ih]

end FlattenedTree
