import XrLinux.Bootloader.BlobTree

/-!
# Bootloader — the device tree blob

What `BlDtBuildBlob` writes into its block: the header, the reservation block, the structure block and
the strings block, one behind the other. Read as a flattened device tree it is the tree that the calls
have built.
-/

namespace XrLinux.Bootloader

open ByteMemory LinkedList FlattenedTree

/-! ## The blocks -/

/-- A double word in the order of the machine. -/
def host64 (v : Nat) : Bytes := wordBytes v ++ wordBytes (v / 4294967296)

def rsvBytes (entries : List (Nat × Nat)) : Bytes :=
  entries.flatMap (fun entry => host64 entry.1 ++ host64 entry.2) ++ (host64 0 ++ host64 0)

theorem readBe64_host64 (v : Nat) (rest : Bytes) : readBe64 (host64 v ++ rest) = some (turned v, rest) := by
  have hhigh : readBe32 (host64 v ++ rest) = some
      (16777216 * (v % 256) + 65536 * (v / 256 % 256) + 256 * (v / 65536 % 256) + v / 16777216 % 256,
        wordBytes (v / 4294967296) ++ rest) := by
    simp only [host64, wordBytes, readBe32, List.cons_append, List.nil_append, BitVec.toNat_ofNat]
  have hlow : readBe32 (wordBytes (v / 4294967296) ++ rest) = some
      (16777216 * (v / 4294967296 % 256) + 65536 * (v / 4294967296 / 256 % 256) +
        256 * (v / 4294967296 / 65536 % 256) + v / 4294967296 / 16777216 % 256, rest) := by
    simp only [wordBytes, readBe32, List.cons_append, List.nil_append, BitVec.toNat_ofNat]
  rw [readBe64_eq hhigh hlow, turned]
  simp only [Nat.div_div_eq_div_mul, Nat.reduceMul]
  refine congrArg (fun n => some (n, rest)) ?_
  omega

/-- The reservation block as it is written, read as the format is: what the entries are when their
bytes are turned, up to the first that is zero. -/
theorem readRsvmap_rsvBytes (entries : List (Nat × Nat)) {fuel : Nat} (hfuel : entries.length < fuel)
    (rest : Bytes) : readRsvmap fuel (rsvBytes entries ++ rest) =
      some ((entries.map fun e => (turned e.1, turned e.2)).takeWhile (· ≠ (0, 0))) := by
  have hsplit : rsvBytes entries ++ rest = entries.flatMap (fun e => host64 e.1 ++ host64 e.2) ++
      ((host64 ((0, 0) : Nat × Nat).1 ++ host64 ((0, 0) : Nat × Nat).2) ++ rest) := by
    rw [rsvBytes, List.append_assoc]
  have hread : ∀ (e : Nat × Nat) (rest : Bytes), ∃ tail,
      readBe64 ((host64 e.1 ++ host64 e.2) ++ rest) = some (turned e.1, tail) ∧
        readBe64 tail = some (turned e.2, rest) := by
    intro e rest
    refine ⟨host64 e.2 ++ rest, ?_, readBe64_host64 e.2 rest⟩
    rw [List.append_assoc]
    exact readBe64_host64 e.1 _
  rw [hsplit]
  exact @readRsvmap_append (Nat × Nat) _ (fun e => (turned e.1, turned e.2)) (0, 0) hread rfl entries fuel
    hfuel rest

def DeviceTree.fdtHeader (t : DeviceTree) (whami : Nat) : Header where
  magic := 0xd00dfeed
  totalSize := t.totalSize
  offDtStruct := add32 fdtHeaderSize t.rsvMapSize
  offDtStrings := add32 (add32 fdtHeaderSize t.rsvMapSize) t.structureSize
  offMemRsvmap := fdtHeaderSize
  version := 17
  lastCompVersion := 16
  bootCpuidPhys := whami
  sizeDtStrings := t.stringsSize
  sizeDtStruct := t.structureSize

theorem write64_eq_storeBytes (m : ByteMemory) (a v : Nat) : write64 m a v = storeBytes m a (host64 v) := by
  rw [write64, write32_eq_storeBytes, write32_eq_storeBytes, host64]
  exact storeBytes_append m a (wordBytes v) _

theorem writeRsvmap_eq (m : ByteMemory) (a : Nat) (entries : List (Nat × Nat)) :
    writeRsvmap m a entries = storeBytes m a (rsvBytes entries) := by
  have hpair : ∀ m a u v, write64 (write64 m a u) (a + 8) v = storeBytes m a (host64 u ++ host64 v) := by
    intro m a u v
    rw [write64_eq_storeBytes, write64_eq_storeBytes]
    exact storeBytes_append m a (host64 u) _
  induction entries generalizing m a with
  | nil => exact hpair m a 0 0
  | cons entry entries ih =>
    rw [writeRsvmap, hpair, ih]
    have hnext := storeBytes_append m a (host64 entry.1 ++ host64 entry.2) (rsvBytes entries)
    rw [show (host64 entry.1 ++ host64 entry.2).length = 16 from rfl] at hnext
    rw [hnext]
    simp only [rsvBytes, List.flatMap_cons, List.append_assoc]

theorem length_rsvBytes (entries : List (Nat × Nat)) :
    (rsvBytes entries).length = 16 * (entries.length + 1) := by
  induction entries with
  | nil => rfl
  | cons entry entries ih =>
    have hsplit : rsvBytes (entry :: entries) =
        (host64 entry.1 ++ host64 entry.2) ++ rsvBytes entries := by
      simp only [rsvBytes, List.flatMap_cons, List.append_assoc]
    rw [hsplit, List.length_append, ih, List.length_cons]
    show 16 + _ = _
    omega

theorem writeHeader_eq {t : DeviceTree} {whami : Nat} (hfits : (t.fdtHeader whami).Fits) (header : Nat)
    (m : ByteMemory) :
    t.writeHeader whami header m = storeBytes m header (t.fdtHeader whami).encode := by
  have hown : fdtHeaderSize < 4294967296 := by decide
  have hstruct : add32 fdtHeaderSize t.rsvMapSize < 4294967296 := hfits.offDtStruct
  have hstrings : add32 (add32 fdtHeaderSize t.rsvMapSize) t.structureSize < 4294967296 :=
    hfits.offDtStrings
  have htotal : t.totalSize < 4294967296 := hfits.totalSize
  have hboot : whami < 4294967296 := hfits.bootCpuidPhys
  have hsizes : t.stringsSize < 4294967296 ∧ t.structureSize < 4294967296 :=
    ⟨hfits.sizeDtStrings, hfits.sizeDtStruct⟩
  unfold DeviceTree.writeHeader
  simp (disch := omega) only [writeBe32_eq]
  simp only [Header.encode, ← storeBytes_append]
  rfl

/-! ## Sizes -/

section
variable {statics : Finset Nat} {t : DeviceTree} {log : DtLog} {es : List Nat}
  {buffers : Multiset Block}

/-- The sizes add up without wrapping, and to little more than what the tree takes of the heap. -/
theorem Built.sizes (h : Built statics t log es buffers) :
    t.rsvMapSize = 16 * (t.rsvEntries.length + 1) ∧
    add32 fdtHeaderSize t.rsvMapSize = 40 + t.rsvMapSize ∧
    add32 (40 + t.rsvMapSize) t.structureSize = 40 + t.rsvMapSize + t.structureSize ∧
    t.totalSize = 40 + t.rsvMapSize + t.structureSize + t.stringsSize ∧
    t.totalSize + 12 ≤ 4294967296 ∧
    t.totalSize ≤ 72 + footprints (t.stringBlocks es + (t.treeBlocks log.nodes + buffers)) := by
  have hfit : footprints (t.stringBlocks es + (t.treeBlocks log.nodes + buffers)) + statics.card ≤
      4294967296 := h.serves.footprint_le
  have hstrings : 64 * es.length + t.stringsSize ≤ footprints (t.stringBlocks es) := by
    have hentries : 64 * es.length + (es.map fun e => (t.strings e).text.room).sum ≤
        footprints (DeviceTree.entryBlocks t.strings es) := entryBlocks_footprint t.strings es
    rw [DeviceTree.stringBlocks, footprints_add, h.interned.size]
    omega
  have hempty : es = [] → t.stringsSize = 0 := by
    rintro rfl
    exact h.interned.size
  have hrsv : (t.rsvEntries.length = 0 ∨ 16 * t.rsvEntries.length + 24 ≤ footprints t.rsvBlocks) := by
    refine (Nat.eq_zero_or_pos t.rsvEntries.length).imp id fun hpos => ?_
    have hround := le_roundUp (16 * t.rsvEntries.length)
    rw [DeviceTree.rsvBlocks, arrayBlocks, if_neg (by omega), footprints_singleton, footprint_plain]
    omega
  have hroom := h.room
  have hstatics := h.statics_card
  have hsize : staticsSize = 60 := rfl
  have hstructure := h.size
  have hheader : fdtHeaderSize = 40 := rfl
  -- what is not empty has a header in the heap, which makes up for the parts that are always there
  have hsome : es = [] ∨ 1 ≤ es.length := by
    cases es with
    | nil => exact .inl rfl
    | cons e es => exact .inr (Nat.succ_pos _)
  rw [DeviceTree.treeBlocks] at hfit ⊢
  simp only [footprints_add] at hfit hroom ⊢
  have hbound : 72 + 16 * t.rsvEntries.length + log.room + t.stringsSize = 72 ∨
      72 + 16 * t.rsvEntries.length + log.room + t.stringsSize + 24 ≤
        72 + (footprints (t.stringBlocks es) +
          (footprints (log.nodes.map (DeviceTree.nodeBlocks t.nodes)).sum +
            footprints ((t.root :: log.nodes).map (DeviceTree.propBlocks t.nodes)).sum +
              footprints t.rsvBlocks + footprints buffers)) := by
    rcases hsome with hnone | hsome
    · have := hempty hnone
      omega
    · omega
  have hcount : add32 t.rsvEntries.length 1 = t.rsvEntries.length + 1 := Nat.mod_eq_of_lt (by omega)
  have hmap : t.rsvMapSize = 16 * (t.rsvEntries.length + 1) := by
    rw [DeviceTree.rsvMapSize, hcount]
    exact (Nat.mod_eq_of_lt (by omega)).trans (Nat.mul_comm _ _)
  have hadd : add32 fdtHeaderSize t.rsvMapSize = 40 + t.rsvMapSize :=
    Nat.mod_eq_of_lt (by omega)
  have hadd' : add32 (40 + t.rsvMapSize) t.structureSize = 40 + t.rsvMapSize + t.structureSize :=
    Nat.mod_eq_of_lt (by omega)
  have htotal : t.totalSize = 40 + t.rsvMapSize + t.structureSize + t.stringsSize := by
    rw [DeviceTree.totalSize, hadd, hadd']
    exact Nat.mod_eq_of_lt (by omega)
  exact ⟨hmap, hadd, hadd', htotal, by omega, by omega⟩

/-- The entries of the table are the names of the properties, each once. -/
theorem Built.stringsSize_eq (h : Built statics t log es buffers) :
    t.stringsSize = (log.propertyNames.dedup.map CString.room).sum := by
  have hnodup : (es.map fun e => (t.strings e).text).Nodup :=
    h.interned.nodup.map_on h.interned.text_inj
  have hperm : (es.map fun e => (t.strings e).text).Perm log.propertyNames.dedup := by
    refine (List.perm_ext_iff_of_nodup hnodup (List.nodup_dedup _)).mpr fun name => ?_
    rw [List.mem_dedup, List.mem_map]
    constructor
    · rintro ⟨e, he, rfl⟩
      exact h.used e he
    · intro hname
      obtain ⟨p, bytes, hmem⟩ := DtLog.mem_propertyNames.mp hname
      have hknown := h.tree.owner p name bytes hmem
      have hlisted : (name, bytes) ∈ log.properties p := mem_properties.mpr hmem
      rw [← h.tree.props p hknown] at hlisted
      obtain ⟨property, hproperty, heq⟩ := List.mem_map.mp hlisted
      exact ⟨property.name, h.named p hknown property hproperty, congrArg Prod.fst heq⟩
  rw [h.interned.size, ← (hperm.map CString.room).sum_eq, List.map_map]
  rfl

/-- The header describes the blocks that are behind it. -/
theorem Built.header_valid (h : Built statics t log es buffers) {whami : Nat}
    (hwhami : whami < 4294967296) :
    (t.fdtHeader whami).Fits ∧ (t.fdtHeader whami).Valid t.totalSize := by
  obtain ⟨hmap, hadd, hadd', htotal, hlt, -⟩ := h.sizes
  have hstructure := h.size
  have hstruct : (t.fdtHeader whami).offDtStruct = 40 + t.rsvMapSize := hadd
  have hstrings : (t.fdtHeader whami).offDtStrings = 40 + t.rsvMapSize + t.structureSize := by
    show add32 (add32 fdtHeaderSize t.rsvMapSize) t.structureSize = _
    rw [hadd, hadd']
  have hsizes : (t.fdtHeader whami).sizeDtStruct = t.structureSize ∧
      (t.fdtHeader whami).sizeDtStrings = t.stringsSize := ⟨rfl, rfl⟩
  constructor
  · refine ⟨show 0xd00dfeed < 4294967296 by decide, ?_, ?_, ?_, show 40 < 4294967296 by decide,
      show 17 < 4294967296 by decide, show 16 < 4294967296 by decide, hwhami, ?_, ?_⟩
    · show t.totalSize < _
      omega
    · omega
    · omega
    · omega
    · omega
  · refine ⟨rfl, show 16 ≤ 17 ∧ 17 ≤ 17 by decide, rfl,
      ⟨show 8 ∣ 40 by decide, show 40 ≤ 40 by decide, ?_⟩, ⟨?_, ?_⟩, ?_⟩
    · show 40 + 16 ≤ _
      omega
    · omega
    · omega
    · omega

/-! ## Strings -/

/-- Where a name is in the strings block. -/
def nameOffset (strings : Nat → DtString) (es : List Nat) (name : Bytes) : Nat :=
  ((es.find? fun e => (strings e).text.bytes = name).map fun e => (strings e).identifier).getD 0

theorem nameOffset_eq {strings : Nat → DtString}
    (hinj : ∀ e ∈ es, ∀ e' ∈ es, (strings e).text = (strings e').text → e = e') {e : Nat} (he : e ∈ es) :
    nameOffset strings es (strings e).text.bytes = (strings e).identifier := by
  unfold nameOffset
  cases hfound : es.find? fun x => decide ((strings x).text.bytes = (strings e).text.bytes) with
  | none => exact absurd (decide_eq_true rfl) (List.find?_eq_none.mp hfound e he)
  | some x =>
    have hsome := List.find?_some hfound
    have hbytes : (strings x).text.bytes = (strings e).text.bytes := of_decide_eq_true hsome
    have htext : (strings x).text = (strings e).text := by
      cases hx : (strings x).text
      cases hy : (strings e).text
      rw [hx, hy] at hbytes
      cases hbytes
      rfl
    rw [hinj x (List.mem_of_find?_eq_some hfound) e he htext]
    rfl

/-- The text of an entry is where its identifier says. -/
theorem Placed.readText {strings strings' : Nat → DtString} {order : List Nat}
    (h : Placed strings strings' order) {e : Nat} (he : e ∈ order) :
    readText ((charsOf strings order).drop (strings' e).identifier) = some (strings e).text.bytes ∧
      (strings' e).identifier ≤ roomOf strings order := by
  obtain ⟨before, after, rfl⟩ := List.append_of_mem he
  have hsplit : charsOf strings (before ++ e :: after) =
      charsOf strings before ++ ((strings e).text.bytes ++ 0 :: charsOf strings after) := by
    simp [charsOf, CString.chars]
  rw [h.identifier before e after rfl, hsplit, ← length_charsOf strings before, List.drop_left]
  refine ⟨readText_append (fun h0 => (strings e).text.noNul 0 h0 rfl) _, ?_⟩
  rw [← length_charsOf, hsplit, List.length_append]
  omega

theorem encodable_map {strings : Bytes} {offset : Bytes → Nat} {label : Nat → Label} {f : Forest Nat}
    (h : ∀ n ∈ f.toList, 0 ∉ (label n).1 ∧ ∀ p ∈ (label n).2, p.2.length < 4294967296 ∧
      offset p.1 < 4294967296 ∧ readText (strings.drop (offset p.1)) = some p.1) :
    Encodable strings offset (f.map label) := by
  induction f with
  | nil => trivial
  | node n c s ihc ihs =>
    rw [Forest.toList] at h
    obtain ⟨hname, hprops⟩ := h n List.mem_cons_self
    refine ⟨hname, hprops, ihc fun x hx => ?_, ihs fun x hx => ?_⟩
    · exact h x (List.mem_cons_of_mem n (List.mem_append_left _ hx))
    · exact h x (List.mem_cons_of_mem n (List.mem_append_right _ hx))

/-! ## The blob -/

theorem IsTree.setStrings (h : IsTree t log) {strings : Nat → DtString}
    (htext : ∀ e, (strings e).text = (t.strings e).text) : IsTree { t with strings } log where
  root_ne := h.root_ne
  nodup := h.nodup
  apart := h.apart
  known := h.known
  owner := h.owner
  root := h.root
  node := h.node
  children := h.children
  props n hn := by
    rw [← h.props n hn]
    exact List.map_congr_left fun p _ => by rw [htext p.name]

theorem length_le_room {p : Nat} {name : CString} {bytes : List (BitVec 8)}
    (hmem : .property p name bytes ∈ log) : bytes.length ≤ log.room := by
  have hle : DtEvent.room (.property p name bytes) ≤ log.room :=
    List.le_sum_of_mem (List.mem_map_of_mem hmem)
  have hround := le_roundUp bytes.length
  have hroom : DtEvent.room (.property p name bytes) = 12 + roundUp bytes.length := rfl
  omega

/-- The strings block and where it says that the names are. -/
structure StringsWritten (t : DeviceTree) (es : List Nat) (strings : Nat → DtString) (block : Bytes) :
    Prop where
  text : ∀ e, (strings e).text = (t.strings e).text
  length : block.length = t.stringsSize
  identified : Identified { t with strings } es (nameOffset strings es)
  reads : ∀ e ∈ es, readText (block.drop (nameOffset strings es (t.strings e).text.bytes)) =
    some (t.strings e).text.bytes

theorem Built.stringsWritten (h : Built statics t log es buffers) (base : Nat) (mem : ByteMemory) :
    ∃ strings block, StringsWritten t es strings block ∧
      t.emitStrings base mem = .ok (strings, storeBytes mem base block) := by
  obtain ⟨order, strings, hperm, hplaced, hemit⟩ := h.interned.emitStrings_eq h.serves base mem
  have hroom : roomOf t.strings order = t.stringsSize := by
    rw [roomOf_perm _ hperm, h.interned.size]
    rfl
  have hlt := h.sizes.2.2.2.2.1
  have htotal := h.sizes.2.2.2.1
  have hoffset : ∀ e ∈ es, nameOffset strings es (t.strings e).text.bytes = (strings e).identifier := by
    intro e he
    rw [← hplaced.text e]
    refine nameOffset_eq (fun e he e' he' heq => ?_) he
    rw [hplaced.text, hplaced.text] at heq
    exact h.interned.text_inj e he e' he' heq
  refine ⟨strings, _, ⟨hplaced.text, ?_, fun e he => ⟨?_, ?_⟩, fun e he => ?_⟩, hemit⟩
  · rw [length_charsOf, hroom]
  · show (strings e).identifier = nameOffset strings es (strings e).text.bytes
    rw [hplaced.text e, hoffset e he]
  · have hle := (hplaced.readText (hperm.mem_iff.mpr he)).2
    show (strings e).identifier < 4294967296
    omega
  · rw [hoffset e he]
    exact (hplaced.readText (hperm.mem_iff.mpr he)).1

theorem Built.encodable (h : Built statics t log es buffers) {strings : Nat → DtString}
    {block : Bytes} (hstrings : StringsWritten t es strings block) :
    Encodable block (nameOffset strings es) log.deviceTree := by
  have hroom := h.size
  have hlt := h.sizes.2.2.2.2.1
  have htotal := h.sizes.2.2.2.1
  refine encodable_map fun n hn => ⟨fun h0 => (log.nameOf n).noNul 0 h0 rfl, fun p hp => ?_⟩
  have hknown : log.Known n := by
    have hmem := h.tree.ordered.forest.2.mem_iff.mp hn
    exact List.mem_cons.mp hmem
  have hlength : p.2.length ≤ log.room := by
    obtain ⟨q, hq, rfl⟩ := List.mem_map.mp hp
    exact length_le_room (mem_properties.mp hq)
  rw [← h.tree.props_eq hknown] at hp
  obtain ⟨property, hproperty, rfl⟩ := List.mem_map.mp hp
  have hname := h.named n hknown property hproperty
  obtain ⟨hid, hsmall⟩ := hstrings.identified property.name hname
  have hid' : (strings property.name).identifier =
      nameOffset strings es (t.strings property.name).text.bytes := by
    rw [← hstrings.text]
    exact hid
  have hsmall' : (strings property.name).identifier < 4294967296 := hsmall
  dsimp only at hlength ⊢
  exact ⟨by omega, by omega, hstrings.reads property.name hname⟩

/-- Once the blob has its memory, all of it is written and nothing else. -/
theorem Built.build (h : Built statics t log es buffers) {whami : Nat} (hwhami : whami < 4294967296)
    {kernel : KernelHeader} {mapPage : Nat → Nat → World → Except Stop World} {world : World}
    {header : Nat} (hplace : t.placeBlob kernel mapPage = .ok (world, header)) :
    ∃ strings blob, t.blDtBuildBlob kernel whami mapPage = .ok ({ t with
        strings, world := world.setMem (storeBytes world.heap.mem header blob) }, header) ∧
      blob.length = t.totalSize ∧ (∃ rest, Header.read blob = some (t.fdtHeader whami, rest)) ∧
      readBlob blob = some log.deviceTree ∧ ∃ rest, blob.drop fdtHeaderSize = rsvBytes t.rsvEntries ++ rest := by
  obtain ⟨hmap, hadd, hadd', htotal, hlt, -⟩ := h.sizes
  obtain ⟨hfits, hvalid⟩ := h.header_valid hwhami
  have hstructure := h.size
  have hnodes := h.nodes_fit
  have hsize : staticsSize = 60 := rfl
  obtain ⟨rsv, hrsv⟩ : ∃ rsv, rsvBytes t.rsvEntries = rsv := ⟨_, rfl⟩
  have hrsvLength : rsv.length = t.rsvMapSize := by rw [← hrsv, length_rsvBytes, hmap]
  obtain ⟨hd, hhd⟩ : ∃ hd, t.fdtHeader whami = hd := ⟨_, rfl⟩
  have hhdLength := Header.length_encode hd
  obtain ⟨strings, block, hstrings, hemit⟩ := h.stringsWritten
    (header + fdtHeaderSize + t.rsvMapSize + t.structureSize)
    (writeRsvmap (t.writeHeader whami header world.heap.mem) (header + fdtHeaderSize) t.rsvEntries)
  have hencode := h.tree.length_encode (nameOffset strings es)
  obtain ⟨tree, htree⟩ : ∃ tree, encode (nameOffset strings es) log.deviceTree ++ be32 9 = tree := ⟨_, rfl⟩
  have htreeLength : tree.length = t.structureSize := by
    rw [← htree, List.length_append, hencode, length_be32]
    omega
  have hbuild : ∀ mem, ({ t with strings } : DeviceTree).emitStructure
      (header + fdtHeaderSize + t.rsvMapSize) mem =
        .ok (storeBytes mem (header + fdtHeaderSize + t.rsvMapSize) tree) := by
    intro mem
    rw [← htree]
    exact (h.tree.setStrings hstrings.text).emitStructure_eq hstrings.identified h.named
      (show t.structureSize < 4294967296 by omega) hstructure (by omega) mem
  -- the strings come before the structure, and the structure before the strings
  have hfront : writeRsvmap (t.writeHeader whami header world.heap.mem) (header + fdtHeaderSize)
      t.rsvEntries = storeBytes world.heap.mem header (hd.encode ++ rsv) := by
    rw [writeHeader_eq hfits, writeRsvmap_eq, hrsv, hhd]
    exact storeBytes_append _ header hd.encode rsv
  have hmem : storeBytes (storeBytes (storeBytes world.heap.mem header (hd.encode ++ rsv))
      (header + fdtHeaderSize + t.rsvMapSize + t.structureSize) block)
      (header + fdtHeaderSize + t.rsvMapSize) tree =
      storeBytes world.heap.mem header (hd.encode ++ (rsv ++ (tree ++ block))) := by
    have hat : header + fdtHeaderSize + t.rsvMapSize = header + (hd.encode ++ rsv).length := by
      rw [List.length_append, hhdLength, hrsvLength, ← Nat.add_assoc]
      rfl
    rw [← htreeLength, storeBytes_prepend, hat, storeBytes_append, List.append_assoc]
  refine ⟨strings, hd.encode ++ (rsv ++ (tree ++ block)), ?_, ?_, ?_, ?_, tree ++ block, ?_⟩
  · unfold DeviceTree.blDtBuildBlob
    rw [hplace]
    show (t.emitStrings _ _ >>= _) = _
    rw [hemit]
    show (({ t with strings } : DeviceTree).emitStructure _ _ >>= _) = _
    rw [hbuild, hfront, hmem]
    rfl
  · simp only [List.length_append, hhdLength, hrsvLength, htreeLength, hstrings.length]
    omega
  · rw [hhd] at hfits ⊢
    exact ⟨_, Header.read_encode hfits _⟩
  · have hstruct : hd.offDtStruct = 40 + rsv.length := by
      rw [← hhd, hrsvLength]
      exact hadd
    have hstringsOff : hd.offDtStrings = 40 + rsv.length + tree.length := by
      rw [← hhd, hrsvLength, htreeLength]
      show add32 (add32 fdtHeaderSize t.rsvMapSize) t.structureSize = _
      rw [hadd, hadd']
    have hlength : (hd.encode ++ (rsv ++ (tree ++ block))).length = t.totalSize := by
      simp only [List.length_append, hhdLength, hrsvLength, htreeLength, hstrings.length]
      omega
    rw [hhd] at hfits hvalid
    rw [← hlength] at hvalid
    have hsizeStruct : hd.sizeDtStruct = tree.length := by
      rw [htreeLength, ← hhd]
      rfl
    have hsizeStrings : hd.sizeDtStrings = block.length := by
      rw [hstrings.length, ← hhd]
      rfl
    rw [readBlob_eq hfits hvalid hstruct hsizeStruct hstringsOff hsizeStrings, ← htree]
    exact parse_encode (h.encodable hstrings)
  · rw [hrsv, show fdtHeaderSize = hd.encode.length from rfl, List.drop_left]

/-! ## The memory for it -/

/-- The pages of the blob, each mapped once. -/
def mapPages (mapPage : Nat → Nat → World → Except Stop World) (virt phys totalSize : Nat)
    (world : World) : Except Stop World :=
  (List.range ((totalSize + 4095) / 4096)).foldlM
    (fun world i => mapPage (add32 virt (4096 * i)) (add32 phys (4096 * i)) world) world

theorem mapBlob_eq (mapPage : Nat → Nat → World → Except Stop World) (virt phys : Nat) {totalSize : Nat}
    (hsize : totalSize + 4096 ≤ 4294967296) (world : World) :
    mapBlob mapPage virt phys totalSize rounds 0 world = mapPages mapPage virt phys totalSize world := by
  have hfrom : ∀ n i fuel world, i + n = (totalSize + 4095) / 4096 → n < fuel →
      mapBlob mapPage virt phys totalSize fuel (4096 * i) world =
        (List.range' i n).foldlM
          (fun world i => mapPage (add32 virt (4096 * i)) (add32 phys (4096 * i)) world) world := by
    intro n
    induction n with
    | zero =>
      intro i fuel world hi hfuel
      obtain ⟨fuel, rfl⟩ := Nat.exists_eq_add_of_le' hfuel
      have hdone : ¬4096 * i < totalSize := by omega
      show mapBlob mapPage virt phys totalSize (fuel + 1) (4096 * i) world = _
      rw [mapBlob, if_neg hdone]
      rfl
    | succ n ih =>
      intro i fuel world hi hfuel
      obtain ⟨fuel, rfl⟩ := Nat.exists_eq_add_of_le' (Nat.zero_lt_of_lt hfuel)
      have hmore : 4096 * i < totalSize := by omega
      have hnext : add32 (4096 * i) 4096 = 4096 * (i + 1) := (Nat.mod_eq_of_lt (by omega)).trans (by omega)
      show mapBlob mapPage virt phys totalSize (fuel + 1) (4096 * i) world = _
      rw [mapBlob, if_pos hmore, List.range'_succ, List.foldlM_cons]
      refine congrArg (mapPage (add32 virt (4096 * i)) (add32 phys (4096 * i)) world >>= ·) ?_
      funext world
      rw [hnext]
      exact ih (i + 1) fuel world (by omega) (by omega)
  have hall := hfrom ((totalSize + 4095) / 4096) 0 rounds world (Nat.zero_add _)
    (by simp only [rounds]; omega)
  rw [mapPages, List.range_eq_range']
  exact hall

/-- The alignment of the blob, as a power of two. -/
def blobAlignment (kernel : KernelHeader) : Nat := if kernel.mapDtb then 4096 else 8

/-- The block of the blob is in the heap, aligned, apart from all that the tree is made of. -/
structure BlobPlaced (t : DeviceTree) (kernel : KernelHeader) (world : World) (header : Nat) : Prop where
  live : { ptr := header, size := t.totalSize, alignment := blobAlignment kernel, permanent := true } ∈
    world.live
  aligned : blobAlignment kernel ∣ header
  inMemory : header + t.totalSize < 4294967296

theorem Built.placeBlob_eq (h : Built statics t log es buffers) (kernel : KernelHeader)
    (mapPage : Nat → Nat → World → Except Stop World) :
    (kernel.mapDtb = true ∧ add32 kernel.dtbAddress (t.totalSize - 1) > kernel.maxDtbEnd ∧
      t.placeBlob kernel mapPage = .error (.crash "device tree too large to map")) ∨
    t.placeBlob kernel mapPage = .error (.crash "out of memory") ∨
    ∃ world header, BlobPlaced t kernel world header ∧ t.placeBlob kernel mapPage =
      ((if kernel.mapDtb then mapPages mapPage kernel.dtbAddress header t.totalSize world
        else .ok world) >>= fun world => .ok (world, header)) ∧
      (kernel.mapDtb = true → add32 kernel.dtbAddress (t.totalSize - 1) ≤ kernel.maxDtbEnd) := by
  obtain ⟨hmap, -, -, htotal, hlt, hle⟩ := h.sizes
  have hlast : sub32 t.totalSize 1 = t.totalSize - 1 := by
    unfold sub32
    omega
  have hlong : 24 ≤ t.totalSize := by omega
  have hsize : staticsSize = 60 := rfl
  have hstatics := h.statics_card
  have halignment : (if kernel.mapDtb then max 8 4096 else 8) = blobAlignment kernel := rfl
  obtain ⟨k, hk, hk2, hpow⟩ : ∃ k < 32, 2 ≤ k ∧ 2 ^ k = blobAlignment kernel := by
    unfold blobAlignment
    cases kernel.mapDtb with
    | true => exact ⟨12, by decide, by decide, rfl⟩
    | false => exact ⟨3, by decide, by decide, rfl⟩
  -- the limit is checked before anything is allocated
  have hplace : ¬(kernel.mapDtb = true ∧ add32 kernel.dtbAddress (t.totalSize - 1) > kernel.maxDtbEnd) →
      t.placeBlob kernel mapPage = (t.world.allocate t.totalSize (blobAlignment kernel) true >>= fun r =>
        (if kernel.mapDtb then
          mapBlob mapPage kernel.dtbAddress r.2 t.totalSize rounds 0 r.1
        else .ok r.1) >>= fun world => .ok (world, r.2)) := by
    intro hno
    unfold DeviceTree.placeBlob
    dsimp only
    rw [hlast, halignment]
    by_cases hm : kernel.mapDtb = true
    · rw [if_pos hm, if_neg fun hover => hno ⟨hm, hover⟩]
      simp only [if_pos hm]
      rfl
    · rw [if_neg hm]
      simp only [if_neg hm]
      rfl
  by_cases hover : kernel.mapDtb = true ∧ add32 kernel.dtbAddress (t.totalSize - 1) > kernel.maxDtbEnd
  · refine .inl ⟨hover.1, hover.2, ?_⟩
    unfold DeviceTree.placeBlob
    dsimp only
    rw [hlast, if_pos hover.1, if_pos hover.2]
    rfl
  rw [hplace hover, ← hpow]
  rcases h.serves.allocatePermanent hlong hk hk2 (by omega) with
    hcrash | ⟨world, header, hcall, -, hlive, hdvd, hend, hfit⟩
  · refine .inr (.inl ?_)
    rw [hcrash]
    rfl
  · have hsmall : t.totalSize + 4096 ≤ 4294967296 := by
      unfold footprints at hle
      omega
    refine .inr (.inr ⟨world, header, ⟨hpow ▸ hlive, hpow ▸ hdvd, hend⟩, ?_, fun hm => ?_⟩)
    · rw [hcall]
      show ((if kernel.mapDtb then mapBlob mapPage kernel.dtbAddress header t.totalSize rounds 0 world
        else .ok world) >>= _) = _
      rw [mapBlob_eq _ _ _ hsmall]
    · exact Nat.le_of_not_lt fun hgt => hover ⟨hm, hgt⟩

end

/-! ## Calls -/

/-- A call, with what it is given. -/
inductive DtCall where
  | create (parent : Nat) (name : CString)
  | property (parent : Nat) (name : CString) (data : List (BitVec 8))
  | propertyU32s (parent : Nat) (name : CString) (data : List Nat)
  | propertyStrings (parent : Nat) (name : CString) (data : List CString)
  | reserve (base size : Nat)

namespace DtCall

/-- The node is one that there is, and the data is in memory. -/
def Allowed (log : DtLog) : DtCall → Prop
  | create parent _ => log.Known parent
  | property parent _ data => log.Known parent ∧ FitsInMemory data.length
  | propertyU32s parent _ data => log.Known parent ∧ FitsInMemory (data.length * 4)
  | propertyStrings parent _ data => log.Known parent ∧ FitsInMemory (data.map CString.room).sum
  | reserve _ _ => True

/-- What the log has of it, where `node` is what it returns. -/
def event (node : Nat) : DtCall → DtEvent
  | create parent name => .created node parent name
  | property parent name data => .property parent name data
  | propertyU32s parent name data => .property parent name (data.flatMap fun v => wordBytes (blSwap32 v))
  | propertyStrings parent name data => .property parent name (data.flatMap CString.chars)
  | reserve base size => .reserved base size

end DtCall

/-- The call, with the node that it returns if it creates one. -/
def DeviceTree.call (t : DeviceTree) : DtCall → Except Stop (DeviceTree × Nat)
  | .create parent name => t.blDtCreateNode parent name
  | .property parent name data => t.blDtAddProperty parent name data >>= fun u => .ok (u, 0)
  | .propertyU32s parent name data => t.blDtAddPropertyU32s parent name data >>= fun u => .ok (u, 0)
  | .propertyStrings parent name data =>
    t.blDtAddPropertyStrings parent name data >>= fun u => .ok (u, 0)
  | .reserve base size => t.blDtAddReservedMemory base size >>= fun u => .ok (u, 0)

/-- The size of the blob, from the calls alone: the header, the reservations and the entry behind them,
what the nodes and properties take, and the names of the properties, each once. -/
def DtLog.blobSize (log : DtLog) : Nat :=
  fdtHeaderSize + 16 * (log.reservations.length + 1) + (16 + log.room) +
    (log.propertyNames.dedup.map CString.room).sum

/-- In every run the sizes that `BlDtBuildBlob` allocates by are those of what the calls have asked for,
without a carry out of the word; and whatever is called next stops for want of memory, or returns and
carries the run on. -/
theorem blDtCalls_carry_on {statics : Finset Nat} {world : World} {root name : Nat}
    {strings : Nat → DtString} {nodes : Nat → DtNode} {t : DeviceTree} {log : DtLog}
    (hrun : Builds (.start world root name strings nodes) log t) (hserves : world.Serves statics 0)
    (hstatics : staticsSize ≤ statics.card) (hroot : root ∈ statics) (hroot0 : root ≠ 0) :
    (t.structureSize = 16 + log.room ∧
      t.stringsSize = (log.propertyNames.dedup.map CString.room).sum ∧
      t.totalSize = log.blobSize ∧ log.blobSize + 12 ≤ 4294967296) ∧
    ∀ c : DtCall, c.Allowed log → t.call c = .error (.crash "out of memory") ∨
      ∃ u node, t.call c = .ok (u, node) ∧
        Builds (.start world root name strings nodes) (log ++ [c.event node]) u := by
  obtain ⟨es, buffers, h⟩ := hrun.built hserves hstatics hroot hroot0
  obtain ⟨hmap, -, -, htotal, hlt, -⟩ := h.sizes
  have hstrings := h.stringsSize_eq
  have hsize : t.totalSize = log.blobSize := by
    rw [htotal, hmap, h.size, hstrings, h.reservations]
    rfl
  refine ⟨⟨h.size, hstrings, hsize, hsize ▸ hlt⟩, fun c hallowed => ?_⟩
  cases c with
  | create parent str =>
    rcases h.create hallowed str with hcrash | ⟨u, node, hcall, -⟩
    · exact .inl hcrash
    · exact .inr ⟨u, node, hcall, hrun.create hallowed hcall⟩
  | property parent str data =>
    obtain ⟨hparent, hfits⟩ := hallowed
    rcases h.property hparent hfits str with hcrash | ⟨u, -, -, hcall, -⟩
    · exact .inl (by rw [DeviceTree.call, hcrash]; rfl)
    · exact .inr ⟨u, 0, by rw [DeviceTree.call, hcall]; rfl, hrun.property hparent hfits hcall⟩
  | propertyU32s parent str data =>
    obtain ⟨hparent, hfits⟩ := hallowed
    rcases h.propertyU32s hparent hfits str with hcrash | ⟨u, -, -, hcall, -⟩
    · exact .inl (by rw [DeviceTree.call, hcrash]; rfl)
    · exact .inr ⟨u, 0, by rw [DeviceTree.call, hcall]; rfl, hrun.propertyU32s hparent hfits hcall⟩
  | propertyStrings parent str data =>
    obtain ⟨hparent, hfits⟩ := hallowed
    rcases h.propertyStrings hparent hfits str with hcrash | ⟨u, -, -, hcall, -⟩
    · exact .inl (by rw [DeviceTree.call, hcrash]; rfl)
    · exact .inr ⟨u, 0, by rw [DeviceTree.call, hcall]; rfl, hrun.propertyStrings hparent hfits hcall⟩
  | reserve base size =>
    rcases h.reserve base size with hcrash | ⟨u, hcall, -⟩
    · exact .inl (by rw [DeviceTree.call, hcrash]; rfl)
    · exact .inr ⟨u, 0, by rw [DeviceTree.call, hcall]; rfl, hrun.reserve hcall⟩

/-- The first node below the root. -/
theorem blDtCalls_carry_on_node : ∃ (w : World) (u : DeviceTree) (node : Nat),
    (DeviceTree.fresh w).call (.create 0 .empty) = .ok (u, node) ∧ u.totalSize = 84 := by
  have hcalls : (Run.run World.regularStep (World.start fun _ => 0) [.add 0x1000 0x1000]).map
      (fun w => ((DeviceTree.fresh w).blDtCreateNode 0 .empty).isOk) = some true := by
    decide +kernel
  obtain ⟨w, hpage, hserves⟩ := serves_page
  rw [hpage] at hcalls
  have hok : ((DeviceTree.fresh w).blDtCreateNode 0 .empty).isOk = true := Option.some.inj hcalls
  have hrun : Builds (.fresh w) [] (.fresh w) := .start
  rcases (blDtCalls_carry_on hrun hserves (by decide) (by decide) (by decide)).2
    (.create 0 .empty) (.inl rfl) with hcrash | ⟨u, node, hcall, hrun'⟩
  · rw [show (DeviceTree.fresh w).blDtCreateNode 0 .empty = _ from hcrash] at hok
    cases hok
  · refine ⟨w, u, node, hcall, ?_⟩
    exact (blDtCalls_carry_on hrun' hserves (by decide) (by decide) (by decide)).1.2.2.1

/-- Whatever calls have built a tree: `BlDtBuildBlob` stops where there is no memory for the blob or no
room for it at its address, or where a page of it cannot be mapped, and never else. The blob that it
returns is in a block of its own, nothing beside it is written, and read as a flattened device tree it
is the tree that has been built. -/
theorem blDtBuildBlob_reads_back {statics : Finset Nat} {world : World} {root name : Nat}
    {strings : Nat → DtString} {nodes : Nat → DtNode} {t : DeviceTree} {log : DtLog}
    (hrun : Builds (.start world root name strings nodes) log t) (hserves : world.Serves statics 0)
    (hstatics : staticsSize ≤ statics.card) (hroot : root ∈ statics) (hroot0 : root ≠ 0)
    {whami : Nat} (hwhami : whami < 4294967296) (kernel : KernelHeader)
    (mapPage : Nat → Nat → World → Except Stop World) :
    t.blDtBuildBlob kernel whami mapPage = .error (.crash "out of memory") ∨
    (kernel.mapDtb = true ∧ add32 kernel.dtbAddress (t.totalSize - 1) > kernel.maxDtbEnd ∧
      t.blDtBuildBlob kernel whami mapPage = .error (.crash "device tree too large to map")) ∨
    ∃ placed header, BlobPlaced t kernel placed header ∧
      ((∃ stop, kernel.mapDtb = true ∧
          mapPages mapPage kernel.dtbAddress header t.totalSize placed = .error stop ∧
          t.blDtBuildBlob kernel whami mapPage = .error stop) ∨
        ∃ mapped u blob, (kernel.mapDtb = true →
            mapPages mapPage kernel.dtbAddress header t.totalSize placed = .ok mapped) ∧
          (kernel.mapDtb = false → mapped = placed) ∧
          t.blDtBuildBlob kernel whami mapPage = .ok (u, header) ∧
          u.world = mapped.setMem (storeBytes mapped.heap.mem header blob) ∧
          blob.length = t.totalSize ∧
          (∃ rest, Header.read blob = some (t.fdtHeader whami, rest)) ∧
          readBlob blob = some log.deviceTree) := by
  obtain ⟨es, buffers, h⟩ := hrun.built hserves hstatics hroot hroot0
  have hstop : ∀ stop, t.placeBlob kernel mapPage = .error stop →
      t.blDtBuildBlob kernel whami mapPage = .error stop := by
    intro stop hplace
    unfold DeviceTree.blDtBuildBlob
    rw [hplace]
    rfl
  rcases h.placeBlob_eq kernel mapPage with
    ⟨hm, hover, hplace⟩ | hcrash | ⟨placed, header, hplaced, hplace, -⟩
  · exact .inr (.inl ⟨hm, hover, hstop _ hplace⟩)
  · exact .inl (hstop _ hcrash)
  · refine .inr (.inr ⟨placed, header, hplaced, ?_⟩)
    by_cases hm : kernel.mapDtb = true
    · rw [if_pos hm] at hplace
      cases hmap : mapPages mapPage kernel.dtbAddress header t.totalSize placed with
      | error stop =>
        rw [hmap] at hplace
        exact .inl ⟨stop, hm, rfl, hstop stop hplace⟩
      | ok mapped =>
        rw [hmap] at hplace
        obtain ⟨strings, blob, hbuild, hlength, hheader, hread, -⟩ := h.build hwhami hplace
        refine .inr ⟨mapped, _, blob, fun _ => rfl, fun hno => ?_, hbuild, rfl, hlength, hheader, hread⟩
        rw [hm] at hno
        cases hno
    · rw [if_neg hm] at hplace
      obtain ⟨strings, blob, hbuild, hlength, hheader, hread, -⟩ := h.build hwhami hplace
      exact .inr ⟨placed, _, blob, fun hyes => absurd hyes hm, fun _ => rfl, hbuild, rfl, hlength,
        hheader, hread⟩

/-- What a reader of the format finds in the reservation block: the reservations in their order, but each
number in the other order of its bytes, and no further than to the first one without address and size.
It finds the reservations exactly when none of them is without both and none is changed by that. -/
theorem blDtBuildBlob_reservations {statics : Finset Nat} {world : World} {root name : Nat}
    {strings : Nat → DtString} {nodes : Nat → DtNode} {t u : DeviceTree} {log : DtLog}
    (hrun : Builds (.start world root name strings nodes) log t) (hserves : world.Serves statics 0)
    (hstatics : staticsSize ≤ statics.card) (hroot : root ∈ statics) (hroot0 : root ≠ 0)
    {whami : Nat} (hwhami : whami < 4294967296) {kernel : KernelHeader}
    {mapPage : Nat → Nat → World → Except Stop World} {header : Nat}
    (hbuild : t.blDtBuildBlob kernel whami mapPage = .ok (u, header)) :
    ∃ placed blob, t.placeBlob kernel mapPage = .ok (placed, header) ∧
      u.world = placed.setMem (storeBytes placed.heap.mem header blob) ∧ blob.length = t.totalSize ∧
      readReservations blob =
        some ((log.reservations.map fun e => (turned e.1, turned e.2)).takeWhile (· ≠ (0, 0))) ∧
      (readReservations blob = some log.reservations ↔
        ∀ e ∈ log.reservations, e ≠ (0, 0) ∧ turned e.1 = e.1 ∧ turned e.2 = e.2) := by
  obtain ⟨es, buffers, h⟩ := hrun.built hserves hstatics hroot hroot0
  cases hplace : t.placeBlob kernel mapPage with
  | error stop =>
    unfold DeviceTree.blDtBuildBlob at hbuild
    rw [hplace] at hbuild
    cases hbuild
  | ok placed =>
    obtain ⟨placed, header'⟩ := placed
    obtain ⟨strings', blob, hok, hlength, ⟨rest, hheader⟩, -, tail, hrsv⟩ := h.build hwhami hplace
    rw [hok] at hbuild
    cases hbuild
    obtain ⟨-, hvalid⟩ := h.header_valid hwhami
    obtain ⟨hmap, -, -, htotal, -, -⟩ := h.sizes
    have hread : readReservations blob =
        some ((log.reservations.map fun e => (turned e.1, turned e.2)).takeWhile (· ≠ (0, 0))) := by
      rw [readReservations, hheader, ← h.reservations]
      simp only [Option.bind_eq_bind, Option.bind_some, hlength, if_pos hvalid]
      show readRsvmap _ (blob.drop fdtHeaderSize) = _
      rw [hrsv]
      exact readRsvmap_rsvBytes t.rsvEntries (by omega) tail
    refine ⟨placed, blob, rfl, rfl, hlength, hread, ?_⟩
    rw [hread, Option.some.injEq]
    exact takeWhile_turned_eq

/-- Four megabytes from the second one on are not where they are read. -/
theorem blDtBuildBlob_reservations_one : ∃ (w : World) (t u : DeviceTree) (header : Nat) (blob : Bytes),
    (DeviceTree.fresh w).blDtAddReservedMemory 0x100000 0x400000 = .ok t ∧
      t.blDtBuildBlob { mapDtb := false, dtbAddress := 0, maxDtbEnd := 0 } 0
        (fun _ _ world => .ok world) = .ok (u, header) ∧
      readReservations blob = some [(0x100000000000, 0x400000000000)] ∧
      readReservations blob ≠ some [(0x100000, 0x400000)] := by
  have hcalls : (Run.run World.regularStep (World.start fun _ => 0) [.add 0x1000 0x1000]).map
      (fun w => ((DeviceTree.fresh w).blDtAddReservedMemory 0x100000 0x400000 >>= fun t =>
        t.blDtBuildBlob { mapDtb := false, dtbAddress := 0, maxDtbEnd := 0 } 0
          (fun _ _ world => .ok world)).isOk) = some true := by
    decide +kernel
  obtain ⟨w, hpage, hserves⟩ := serves_page
  rw [hpage] at hcalls
  have hok : ((DeviceTree.fresh w).blDtAddReservedMemory 0x100000 0x400000 >>= fun t =>
      t.blDtBuildBlob { mapDtb := false, dtbAddress := 0, maxDtbEnd := 0 } 0
        (fun _ _ world => .ok world)).isOk = true := Option.some.inj hcalls
  cases hadd : (DeviceTree.fresh w).blDtAddReservedMemory 0x100000 0x400000 with
  | error stop =>
    rw [hadd] at hok
    cases hok
  | ok t =>
    rw [hadd] at hok
    have hok : (t.blDtBuildBlob { mapDtb := false, dtbAddress := 0, maxDtbEnd := 0 } 0
        (fun _ _ world => .ok world)).isOk = true := hok
    cases hbuild : t.blDtBuildBlob { mapDtb := false, dtbAddress := 0, maxDtbEnd := 0 } 0
        (fun _ _ world => .ok world) with
    | error stop =>
      rw [hbuild] at hok
      cases hok
    | ok r =>
      have hrun : Builds (.fresh w) ([] ++ [.reserved 0x100000 0x400000]) t := .reserve .start hadd
      obtain ⟨placed, blob, -, -, -, hread, hiff⟩ := blDtBuildBlob_reservations hrun hserves (by decide)
        (by decide) (by decide) (show 0 < 4294967296 by decide) hbuild
      refine ⟨w, t, r.1, r.2, blob, hadd, hbuild, hread, fun hsame => ?_⟩
      have hfixed := hiff.mp hsame (0x100000, 0x400000) List.mem_cons_self
      exact absurd hfixed.2.1 (by decide)

/-- The tree of a root alone, for a kernel that does not want it mapped. -/
theorem blDtBuildBlob_reads_back_root : ∃ (w : World) (u : DeviceTree) (header : Nat) (blob : Bytes),
    (DeviceTree.fresh w).blDtBuildBlob { mapDtb := false, dtbAddress := 0, maxDtbEnd := 0 } 0
        (fun _ _ world => .ok world) = .ok (u, header) ∧
      blob.length = 72 ∧ readBlob blob = some (.node ([], []) .nil .nil) := by
  have hcalls : (Run.run World.regularStep (World.start fun _ => 0) [.add 0x1000 0x1000]).map
      (fun w => ((DeviceTree.fresh w).blDtBuildBlob { mapDtb := false, dtbAddress := 0, maxDtbEnd := 0 } 0
        (fun _ _ world => .ok world)).isOk) = some true := by
    decide +kernel
  obtain ⟨w, hpage, hserves⟩ := serves_page
  rw [hpage] at hcalls
  have hok : ((DeviceTree.fresh w).blDtBuildBlob { mapDtb := false, dtbAddress := 0, maxDtbEnd := 0 } 0
      (fun _ _ world => .ok world)).isOk = true := Option.some.inj hcalls
  have hrun : Builds (.fresh w) [] (.fresh w) := .start
  rcases blDtBuildBlob_reads_back hrun hserves (by decide) (by decide) (by decide)
    (show 0 < 4294967296 by decide) { mapDtb := false, dtbAddress := 0, maxDtbEnd := 0 }
      (fun _ _ world => .ok world) with hcrash | ⟨hm, -⟩ | ⟨placed, header, -, ⟨stop, hm, -⟩ |
        ⟨mapped, u, blob, -, -, hbuild, -, hlength, -, hread⟩⟩
  · rw [hcrash] at hok
    cases hok
  · cases hm
  · cases hm
  · exact ⟨w, u, header, blob, hbuild, hlength, hread⟩

end XrLinux.Bootloader
