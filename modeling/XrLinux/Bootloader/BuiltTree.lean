import Mathlib.Data.Multiset.OrderedMonoid
import Mathlib.Algebra.Order.BigOperators.Group.List
import XrLinux.Bootloader.TreeRuns

/-!
# Bootloader — the blocks of a device tree

What a run of calls keeps: the nodes and lists in memory are the tree of the log, all of it is in
blocks of the heap, and the size of the structure block is what the calls take.
-/

namespace XrLinux.Bootloader

open ByteMemory LinkedList

/-! ## Blocks -/

/-- The blocks of an array of `count` elements of `c` bytes. -/
def arrayBlocks (ptr c count : Nat) : Multiset Block :=
  if count = 0 then 0 else {Block.plain ptr (c * count) 4}

namespace DeviceTree

/-- The object of a node and its name. -/
def nodeBlocks (nodes : Nat → DtNode) (node : Nat) : Multiset Block :=
  {Block.plain node 32 4, Block.plain (nodes node).name (nodes node).text.room 1}

/-- The array of a node's properties. -/
def propBlocks (nodes : Nat → DtNode) (node : Nat) : Multiset Block :=
  arrayBlocks (nodes node).properties 12 (nodes node).props.length

def rsvBlocks (t : DeviceTree) : Multiset Block := arrayBlocks t.rsvMem 16 t.rsvEntries.length

def treeBlocks (t : DeviceTree) (made : List Nat) : Multiset Block :=
  (made.map (nodeBlocks t.nodes)).sum + ((t.root :: made).map (propBlocks t.nodes)).sum + t.rsvBlocks

end DeviceTree

/-- What blocks take up. -/
def footprints (blocks : Multiset Block) : Nat := (blocks.map Block.footprint).sum

@[simp] theorem footprints_add (a b : Multiset Block) :
    footprints (a + b) = footprints a + footprints b := by
  simp [footprints]

@[simp] theorem footprints_zero : footprints 0 = 0 := rfl

@[simp] theorem footprints_cons (b : Block) (blocks : Multiset Block) :
    footprints (b ::ₘ blocks) = b.footprint + footprints blocks := by
  simp [footprints]

@[simp] theorem footprints_singleton (b : Block) : footprints {b} = b.footprint := by
  simp [footprints]

theorem footprint_plain (ptr size alignment : Nat) :
    (Block.plain ptr size alignment).footprint = 24 + roundUp size := rfl

/-- An array that has grown takes up more, by an element at least. -/
theorem footprints_arrayBlocks_succ (ptr ptr' : Nat) {c : Nat} (hc : 4 ∣ c) (count : Nat) :
    footprints (arrayBlocks ptr c count) + c ≤ footprints (arrayBlocks ptr' c (count + 1)) := by
  unfold arrayBlocks
  rw [if_neg (Nat.succ_ne_zero count), footprints_singleton, footprint_plain, Nat.mul_succ]
  have hle := le_roundUp (c * count + c)
  split_ifs with hcount
  · rw [footprints_zero]
    omega
  · have hround : roundUp (c * count) = c * count := by
      have hdvd : 4 ∣ c * count := Dvd.dvd.mul_right hc count
      unfold roundUp
      omega
    rw [footprints_singleton, footprint_plain, hround]
    omega

section
variable {w : World} {statics : Finset Nat} {rest : Multiset Block}

/-- `BL_RESIZE` of an array by one element. -/
theorem World.Serves.growArray {ptr c count : Nat} (hc : 4 ∣ c) (hc0 : 0 < c) (hc24 : c ≤ 24)
    (h : w.Serves statics (arrayBlocks ptr c count + rest)) (hzero : count = 0 → ptr = 0)
    (hstatics : staticsSize ≤ statics.card) :
    w.reallocate ptr (mul32 c (count + 1)) 4 = .error (.crash "out of memory") ∨
    ∃ w' ptr', w.reallocate ptr (mul32 c (count + 1)) 4 = .ok (w', ptr') ∧
      w'.Serves statics (arrayBlocks ptr' c (count + 1) + rest) := by
  have hsize : staticsSize = 60 := rfl
  have hnew : ∀ p, arrayBlocks p c (count + 1) + rest = Block.plain p (c * (count + 1)) 4 ::ₘ rest := by
    intro p
    rw [arrayBlocks, if_neg (Nat.succ_ne_zero count), Multiset.singleton_add]
  by_cases hcount : count = 0
  · -- there is no array yet
    have hnone : arrayBlocks ptr c count = 0 := if_pos hcount
    have hmul : mul32 c (count + 1) = c * (count + 1) := by
      rw [hcount, Nat.zero_add, Nat.mul_one]
      exact (Nat.mod_eq_of_lt (by omega)).trans (Nat.mul_one c)
    rw [hnone, zero_add] at h
    have hcall : w.reallocate ptr (mul32 c (count + 1)) 4 = w.allocate (c * (count + 1)) 4 false := by
      rw [World.reallocate, if_pos (hzero hcount), hmul]
    have hpos : 0 < c * (count + 1) := Nat.mul_pos hc0 (Nat.succ_pos count)
    have halloc := h.allocate (k := 2) hpos (by decide) (by
      rw [hcount, Nat.zero_add, Nat.mul_one]
      omega)
    rw [show (2 : Nat) ^ 2 = 4 from rfl] at halloc
    rw [hcall]
    rcases halloc with hcrash | ⟨w', ptr', hok, hserves⟩
    · exact .inl hcrash
    · refine .inr ⟨w', ptr', hok, ?_⟩
      rw [hnew]
      exact hserves
  · have hold : arrayBlocks ptr c count = {Block.plain ptr (c * count) 4} := if_neg hcount
    rw [hold, Multiset.singleton_add] at h
    have hle := h.footprint_le
    have hround := le_roundUp (c * count)
    have hown : (Block.plain ptr (c * count) 4).footprint = 24 + roundUp (c * count) := rfl
    rw [Multiset.map_cons, Multiset.sum_cons, hown] at hle
    have hsucc : c * (count + 1) = c * count + c := Nat.mul_succ c count
    have hmul : mul32 c (count + 1) = c * (count + 1) := Nat.mod_eq_of_lt (by omega)
    rw [hmul]
    have hstep : roundUp (c * (count + 1)) ≤ roundUp (c * count) + 24 := by
      rw [hsucc]
      unfold roundUp
      omega
    have hgrow := World.Serves.reallocate (k := 2) h (by omega) hstep (by omega)
    rw [show (2 : Nat) ^ 2 = 4 from rfl] at hgrow
    rcases hgrow with hcrash | ⟨w', ptr', hok, hserves⟩
    · exact .inl hcrash
    · refine .inr ⟨w', ptr', hok, ?_⟩
      rw [hnew]
      exact hserves

end

/-! ## The invariant -/

/-- The tree of the log, with the strings `es`, and with the buffers of its properties. -/
structure Built (statics : Finset Nat) (t : DeviceTree) (log : DtLog) (es : List Nat)
    (buffers : Multiset Block) : Prop where
  tree : IsTree t log
  interned : Interned t es
  named : ∀ n, log.Known n → ∀ p ∈ (t.nodes (t.orRoot n)).props, p.name ∈ es
  used : ∀ e ∈ es, (t.strings e).text ∈ log.propertyNames
  serves : t.world.Serves statics (t.stringBlocks es + (t.treeBlocks log.nodes + buffers))
  statics_card : staticsSize ≤ statics.card
  root_static : t.root ∈ statics
  reservations : t.rsvEntries = log.reservations
  noReservations : t.rsvEntries.length = 0 → t.rsvMem = 0
  noProps : ∀ n, log.Known n → (t.nodes (t.orRoot n)).props.length = 0 →
    (t.nodes (t.orRoot n)).properties = 0
  room : log.room = 0 ∨ log.room + 24 ≤
    footprints ((log.nodes.map (DeviceTree.nodeBlocks t.nodes)).sum +
      ((t.root :: log.nodes).map (DeviceTree.propBlocks t.nodes)).sum + buffers)
  size : t.structureSize = 16 + log.room

section
variable {statics : Finset Nat} {t u : DeviceTree} {log : DtLog} {es : List Nat}
  {buffers : Multiset Block}

/-- Of the address space there is enough left for a header. -/
theorem room_lt {w : World} {room : Nat} {made : List Nat}
    (hserves : w.Serves statics (t.stringBlocks es + (t.treeBlocks made + buffers)))
    (hstatics : staticsSize ≤ statics.card)
    (hroom : room = 0 ∨ room + 24 ≤ footprints ((made.map (DeviceTree.nodeBlocks t.nodes)).sum +
      ((t.root :: made).map (DeviceTree.propBlocks t.nodes)).sum + buffers)) :
    room + 60 ≤ 4294967296 := by
  have hle : footprints (t.stringBlocks es + (t.treeBlocks made + buffers)) + statics.card ≤
      4294967296 := hserves.footprint_le
  have hsize : staticsSize = 60 := rfl
  rw [DeviceTree.treeBlocks] at hle
  simp only [footprints_add] at hle hroom
  omega

/-- The size of a node in the structure block. -/
theorem nodeSize_eq (name : CString) : DeviceTree.nodeSize name.length = 8 + roundUp name.room := by
  have hfits := name.fits
  have hlength : name.length = name.bytes.length := rfl
  have hroom : add32 name.length 1 = name.room := Nat.mod_eq_of_lt (by omega)
  have hup : alignUp name.room 4 = roundUp name.room := alignUp_four (by
    have : name.room = name.bytes.length + 1 := rfl
    omega)
  rw [DeviceTree.nodeSize, hroom, hup]
  refine Nat.mod_eq_of_lt ?_
  have : name.room = name.bytes.length + 1 := rfl
  unfold roundUp
  omega

theorem propSize_eq {length : Nat} (h : FitsInMemory length) :
    DeviceTree.propSize length = 12 + roundUp length := by
  unfold FitsInMemory at h
  have hup : alignUp length 4 = roundUp length := alignUp_four (by omega)
  rw [DeviceTree.propSize, hup]
  refine Nat.mod_eq_of_lt ?_
  unfold roundUp
  omega

/-- What is of a node in the heap. -/
theorem nodeBlocks_congr {m m' : Nat → DtNode} {n : Nat} (hname : (m' n).name = (m n).name)
    (htext : (m' n).text = (m n).text) : DeviceTree.nodeBlocks m' n = DeviceTree.nodeBlocks m n := by
  rw [DeviceTree.nodeBlocks, DeviceTree.nodeBlocks, hname, htext]

theorem propBlocks_congr {m m' : Nat → DtNode} {n : Nat}
    (hproperties : (m' n).properties = (m n).properties) (hprops : (m' n).props = (m n).props) :
    DeviceTree.propBlocks m' n = DeviceTree.propBlocks m n := by
  rw [DeviceTree.propBlocks, DeviceTree.propBlocks, hproperties, hprops]

/-- The object of a node that is known. -/
theorem orRoot_mem {n : Nat} (hn : log.Known n) : t.orRoot n ∈ t.root :: log.nodes := by
  unfold DeviceTree.orRoot
  split_ifs with h0
  · exact List.mem_cons_of_mem _ (hn.resolve_left h0)
  · exact List.mem_cons_self

theorem IsTree.objects_nodup (h : IsTree t log) : (t.root :: log.nodes).Nodup :=
  List.nodup_cons.mpr ⟨fun hmem => (h.apart _ hmem).2 rfl, h.nodup⟩

/-- The sum over a list without repetitions, with one value changed. -/
theorem sum_map_update {α : Type*} [DecidableEq α] {l : List α} (hl : l.Nodup) {a : α} (ha : a ∈ l)
    {f g : α → Multiset Block} (hfg : ∀ x ∈ l, x ≠ a → g x = f x) :
    (l.map g).sum = g a + ((l.erase a).map f).sum := by
  rw [← List.sum_map_erase g ha]
  congr 2
  refine List.map_congr_left fun x hx => ?_
  obtain ⟨hne, hmem⟩ := hl.mem_erase_iff.mp hx
  exact hfg x hmem hne

/-- The property that `BlDtDoAddProperty` adds once it has the array and the name's entry. -/
theorem Built.added {v : DeviceTree} {es' : List Nat} {parent e properties data : Nat}
    {bytes : List (BitVec 8)} {name : CString} (h : Built statics t log es buffers)
    (hparent : log.Known parent) (hfits : FitsInMemory bytes.length)
    (hroom : log.room + roundUp bytes.length = 0 ∨ log.room + roundUp bytes.length + 24 ≤
      footprints ((log.nodes.map (DeviceTree.nodeBlocks t.nodes)).sum +
        ((t.root :: log.nodes).map (DeviceTree.propBlocks t.nodes)).sum + buffers))
    (hbeside : t.Beside v) (hinterned : Interned v es') (hes : ∀ x ∈ es, x ∈ es') (he : e ∈ es')
    (htext : (v.strings e).text = name)
    (hkept : ∀ x ∈ es, (v.strings x).text = (t.strings x).text) (hnew : ∀ x ∈ es', x ∈ es ∨ x = e)
    (hserves : v.world.Serves statics (v.stringBlocks es' +
      (arrayBlocks properties 12 ((t.nodes (t.orRoot parent)).props.length + 1) +
        ((log.nodes.map (DeviceTree.nodeBlocks t.nodes)).sum +
          (((t.root :: log.nodes).erase (t.orRoot parent)).map (DeviceTree.propBlocks t.nodes)).sum +
            t.rsvBlocks + buffers)))) :
    Built statics { v with
      nodes := propertyNodes v.nodes (t.orRoot parent) properties { name := e, data, bytes }
      structureSize := add32 v.structureSize (DeviceTree.propSize bytes.length) }
      (log ++ [.property parent name bytes]) es' buffers := by
  obtain ⟨m, hm⟩ : ∃ m, propertyNodes v.nodes (t.orRoot parent) properties { name := e, data, bytes } = m :=
    ⟨_, rfl⟩
  -- only the parent's array is another one
  have hother : ∀ x, x ≠ t.orRoot parent → m x = t.nodes x := by
    intro x hx
    rw [← hm, propertyNodes, Function.update_of_ne hx, hbeside.nodes]
  have hself : (m (t.orRoot parent)).name = (t.nodes (t.orRoot parent)).name ∧
      (m (t.orRoot parent)).text = (t.nodes (t.orRoot parent)).text ∧
      (m (t.orRoot parent)).properties = properties ∧
      (m (t.orRoot parent)).props =
        (t.nodes (t.orRoot parent)).props ++ [{ name := e, data, bytes }] := by
    rw [← hm, propertyNodes, Function.update_self, hbeside.nodes]
    exact ⟨rfl, rfl, rfl, rfl⟩
  have hnodePart : (log.nodes.map (DeviceTree.nodeBlocks m)).sum =
      (log.nodes.map (DeviceTree.nodeBlocks t.nodes)).sum := by
    congr 1
    refine List.map_congr_left fun n _ => ?_
    by_cases hn : n = t.orRoot parent
    · rw [hn]
      exact nodeBlocks_congr hself.1 hself.2.1
    · exact nodeBlocks_congr (by rw [hother n hn]) (by rw [hother n hn])
  have hobject := orRoot_mem (t := t) hparent
  have hpropPart : ((t.root :: log.nodes).map (DeviceTree.propBlocks m)).sum =
      arrayBlocks properties 12 ((t.nodes (t.orRoot parent)).props.length + 1) +
        (((t.root :: log.nodes).erase (t.orRoot parent)).map (DeviceTree.propBlocks t.nodes)).sum := by
    rw [sum_map_update h.tree.objects_nodup hobject (f := DeviceTree.propBlocks t.nodes)]
    · rw [DeviceTree.propBlocks, hself.2.2.1, hself.2.2.2, List.length_append, List.length_singleton]
    · intro x _ hx
      exact propBlocks_congr (by rw [hother x hx]) (by rw [hother x hx])
  have hrsv : v.rsvBlocks = t.rsvBlocks := by
    rw [DeviceTree.rsvBlocks, DeviceTree.rsvBlocks, hbeside.rsvMem, hbeside.rsvEntries]
  have hserves' : v.world.Serves statics (v.stringBlocks es' +
      ((log.nodes.map (DeviceTree.nodeBlocks m)).sum +
        ((t.root :: log.nodes).map (DeviceTree.propBlocks m)).sum + v.rsvBlocks + buffers)) := by
    rw [hnodePart, hpropPart, hrsv]
    simpa only [add_assoc, add_left_comm] using hserves
  have hlog : DtLog.room (log ++ [.property parent name bytes]) =
      log.room + (12 + roundUp bytes.length) := by
    rw [DtLog.room, List.map_append, List.sum_append, List.map_singleton, List.sum_singleton]
    rfl
  have hmore : DtLog.room (log ++ [.property parent name bytes]) + 24 ≤
      footprints ((log.nodes.map (DeviceTree.nodeBlocks m)).sum +
        ((t.root :: log.nodes).map (DeviceTree.propBlocks m)).sum + buffers) := by
    have hgrown := footprints_arrayBlocks_succ (t.nodes (t.orRoot parent)).properties properties
      (show 4 ∣ 12 by decide) (t.nodes (t.orRoot parent)).props.length
    have hfirst : 36 ≤ footprints
        (arrayBlocks properties 12 ((t.nodes (t.orRoot parent)).props.length + 1)) := by
      have hle := le_roundUp (12 * ((t.nodes (t.orRoot parent)).props.length + 1))
      rw [arrayBlocks, if_neg (Nat.succ_ne_zero _), footprints_singleton, footprint_plain]
      omega
    have hold : footprints ((t.root :: log.nodes).map (DeviceTree.propBlocks t.nodes)).sum =
        footprints (DeviceTree.propBlocks t.nodes (t.orRoot parent)) + footprints
          (((t.root :: log.nodes).erase (t.orRoot parent)).map (DeviceTree.propBlocks t.nodes)).sum := by
      rw [← footprints_add, List.sum_map_erase _ hobject]
    rw [DeviceTree.propBlocks] at hold
    rw [hnodePart, hpropPart]
    simp only [footprints_add] at hroom ⊢
    omega
  have hlt := room_lt (t := { v with nodes := m, root := t.root }) hserves' h.statics_card (.inr hmore)
  have horRoot : ∀ n, v.orRoot n = t.orRoot n := fun n => by
    rw [DeviceTree.orRoot, DeviceTree.orRoot, hbeside.root]
  have hknown : ∀ n, DtLog.Known (log ++ [.property parent name bytes]) n → log.Known n := by
    intro n hn
    unfold DtLog.Known at hn
    rwa [DtLog.nodes_property] at hn
  rw [hm]
  exact {
    tree := by
      refine @IsTree.property t _ log parent name h.tree hparent properties { name := e, data, bytes }
        hbeside.root (fun n hn p hp => ?_) htext ?_
      · exact hkept _ (h.named n hn p hp)
      · rw [← hm, hbeside.nodes]
    interned := hinterned.same ⟨rfl, rfl, rfl, rfl, rfl, rfl⟩
    named := by
      intro n hn p hp
      change p ∈ (m (v.orRoot n)).props at hp
      rw [horRoot] at hp
      by_cases hobject : t.orRoot n = t.orRoot parent
      · rw [hobject, hself.2.2.2, List.mem_append, List.mem_singleton] at hp
        rcases hp with hp | rfl
        · exact hes _ (h.named parent hparent p hp)
        · exact he
      · rw [hother _ hobject] at hp
        exact hes _ (h.named n (hknown n hn) p hp)
    used := by
      intro x hx
      rw [DtLog.propertyNames_property, List.mem_append, List.mem_singleton]
      rcases hnew x hx with hold | rfl
      · refine .inl ?_
        show (v.strings x).text ∈ _
        rw [hkept x hold]
        exact h.used x hold
      · exact .inr htext
    serves := by
      rw [DtLog.nodes_property]
      show v.world.Serves statics (v.stringBlocks es' + (_ + ((v.root :: log.nodes).map
        (DeviceTree.propBlocks m)).sum + v.rsvBlocks + buffers))
      rw [hbeside.root]
      exact hserves'
    statics_card := h.statics_card
    root_static := by
      show v.root ∈ statics
      rw [hbeside.root]
      exact h.root_static
    reservations := by
      rw [DtLog.reservations_property]
      exact hbeside.rsvEntries.trans h.reservations
    noReservations := by
      show v.rsvEntries.length = 0 → v.rsvMem = 0
      rw [hbeside.rsvEntries, hbeside.rsvMem]
      exact h.noReservations
    noProps := by
      intro n hn hnone
      change (m (v.orRoot n)).props.length = 0 at hnone
      show (m (v.orRoot n)).properties = 0
      rw [horRoot] at hnone ⊢
      by_cases hobject : t.orRoot n = t.orRoot parent
      · rw [hobject, hself.2.2.2, List.length_append] at hnone
        cases hnone
      · rw [hother _ hobject] at hnone ⊢
        exact h.noProps n (hknown n hn) hnone
    room := by
      rw [DtLog.nodes_property]
      show _ ∨ _ ≤ footprints (_ + ((v.root :: log.nodes).map (DeviceTree.propBlocks m)).sum + buffers)
      rw [hbeside.root]
      exact .inr hmore
    size := by
      show add32 v.structureSize (DeviceTree.propSize bytes.length) = _
      rw [propSize_eq hfits, hbeside.structureSize, h.size, hlog]
      refine (Nat.mod_eq_of_lt ?_).trans (by omega)
      omega }

/-- `BlDtDoAddProperty`, with the room for its data accounted for. -/
theorem Built.doAddProperty {parent : Nat} (data : Nat) {bytes : List (BitVec 8)}
    (h : Built statics t log es buffers) (hparent : log.Known parent)
    (hfits : FitsInMemory bytes.length)
    (hroom : log.room + roundUp bytes.length = 0 ∨ log.room + roundUp bytes.length + 24 ≤
      footprints ((log.nodes.map (DeviceTree.nodeBlocks t.nodes)).sum +
        ((t.root :: log.nodes).map (DeviceTree.propBlocks t.nodes)).sum + buffers))
    (name : CString) :
    t.blDtDoAddProperty parent name data bytes = .error (.crash "out of memory") ∨
    ∃ u es', t.blDtDoAddProperty parent name data bytes = .ok u ∧
      Built statics u (log ++ [.property parent name bytes]) es' buffers := by
  have hobject := orRoot_mem (t := t) hparent
  have hblocks : t.stringBlocks es + (t.treeBlocks log.nodes + buffers) =
      arrayBlocks (t.nodes (t.orRoot parent)).properties 12 (t.nodes (t.orRoot parent)).props.length +
        (t.stringBlocks es + ((log.nodes.map (DeviceTree.nodeBlocks t.nodes)).sum +
          (((t.root :: log.nodes).erase (t.orRoot parent)).map (DeviceTree.propBlocks t.nodes)).sum +
            t.rsvBlocks + buffers)) := by
    rw [DeviceTree.treeBlocks, ← List.sum_map_erase (DeviceTree.propBlocks t.nodes) hobject,
      DeviceTree.propBlocks]
    ac_rfl
  have hserves := h.serves
  rw [hblocks] at hserves
  have hgrow := hserves.growArray (by decide) (by decide) (by decide) (h.noProps parent hparent)
    h.statics_card
  rcases hgrow with hcrash | ⟨world, properties, hcall, hserves₁⟩
  · refine .inl ?_
    unfold DeviceTree.blDtDoAddProperty
    dsimp only
    rw [hcrash]
    rfl
  have hinterned : Interned { t with world } es := h.interned.same ⟨rfl, rfl, rfl, rfl, rfl, rfl⟩
  have hserves₂ : world.Serves statics (t.stringBlocks es +
      (arrayBlocks properties 12 ((t.nodes (t.orRoot parent)).props.length + 1) +
        ((log.nodes.map (DeviceTree.nodeBlocks t.nodes)).sum +
          (((t.root :: log.nodes).erase (t.orRoot parent)).map (DeviceTree.propBlocks t.nodes)).sum +
            t.rsvBlocks + buffers))) := by
    rwa [add_left_comm] at hserves₁
  have hcalls : t.blDtDoAddProperty parent name data bytes =
      (({ t with world } : DeviceTree).blDtGetString name >>= fun r => pure { r.1 with
        nodes := propertyNodes r.1.nodes (t.orRoot parent) properties { name := r.2, data, bytes }
        structureSize := add32 r.1.structureSize (DeviceTree.propSize bytes.length) }) := by
    unfold DeviceTree.blDtDoAddProperty
    dsimp only
    rw [hcall]
    rfl
  rw [hcalls]
  rcases hinterned.getString hserves₂ name with hcrash | ⟨e, he, htext, hfound⟩ |
    ⟨-, v, e, hadded, -, htext, hinterned', hserves', hkept, hbeside⟩
  · refine .inl ?_
    rw [hcrash]
    rfl
  · -- the name is there already
    refine .inr ⟨_, es, by rw [hfound]; rfl, ?_⟩
    exact h.added (v := { t with world }) hparent hfits hroom ⟨rfl, rfl, rfl, rfl, rfl⟩ hinterned
      (fun _ hx => hx) he htext (fun _ _ => rfl) (fun _ hx => .inl hx) hserves₂
  · refine .inr ⟨_, e :: es, by rw [hadded]; rfl, ?_⟩
    exact h.added hparent hfits hroom ⟨hbeside.root, hbeside.rsvMem, hbeside.rsvEntries,
      hbeside.nodes, hbeside.structureSize⟩ hinterned' (fun _ hx => List.mem_cons_of_mem e hx)
      List.mem_cons_self htext hkept (fun x hx => (List.mem_cons.mp hx).symm) hserves'

/-- The same tree with a block more. -/
theorem Built.buffer {world : World} {b : Block} (h : Built statics t log es buffers)
    (hserves : world.Serves statics
      (b ::ₘ (t.stringBlocks es + (t.treeBlocks log.nodes + buffers)))) :
    Built statics { t with world } log es (b ::ₘ buffers) where
  tree := h.tree.same rfl rfl rfl
  interned := h.interned.same ⟨rfl, rfl, rfl, rfl, rfl, rfl⟩
  named := h.named
  used := h.used
  serves := by
    rw [← Multiset.singleton_add] at hserves ⊢
    rw [add_left_comm, add_left_comm ({b} : Multiset Block)] at hserves
    exact hserves
  statics_card := h.statics_card
  root_static := h.root_static
  reservations := h.reservations
  noReservations := h.noReservations
  noProps := h.noProps
  room := by
    refine h.room.imp_right fun hle => ?_
    simp only [footprints_add, footprints_cons] at hle ⊢
    have hmore : log.room + 24 ≤ footprints (log.nodes.map (DeviceTree.nodeBlocks t.nodes)).sum +
      footprints ((t.root :: log.nodes).map (DeviceTree.propBlocks t.nodes)).sum +
        footprints buffers := hle
    show log.room + 24 ≤ footprints (log.nodes.map (DeviceTree.nodeBlocks t.nodes)).sum +
      footprints ((t.root :: log.nodes).map (DeviceTree.propBlocks t.nodes)).sum +
        (b.footprint + footprints buffers)
    omega
  size := h.size

/-- A property is added by way of a buffer that has its bytes. -/
theorem Built.addProperty {parent k : Nat} {bytes : List (BitVec 8)}
    (h : Built statics t log es buffers) (hparent : log.Known parent)
    (hfits : FitsInMemory bytes.length) (hk : k < 32) (name : CString) :
    (t.world.allocate bytes.length (2 ^ k) false >>= fun r =>
      ({ t with world := r.1 } : DeviceTree).blDtDoAddProperty parent name r.2 bytes) =
        .error (.crash "out of memory") ∨
    ∃ u es' buffers', (t.world.allocate bytes.length (2 ^ k) false >>= fun r =>
      ({ t with world := r.1 } : DeviceTree).blDtDoAddProperty parent name r.2 bytes) = .ok u ∧
        Built statics u (log ++ [.property parent name bytes]) es' buffers' := by
  by_cases hempty : bytes.length = 0
  · -- nothing is allocated
    rw [hempty, World.allocate_zero]
    have hroom : log.room + roundUp bytes.length = 0 ∨ log.room + roundUp bytes.length + 24 ≤
        footprints ((log.nodes.map (DeviceTree.nodeBlocks t.nodes)).sum +
          ((t.root :: log.nodes).map (DeviceTree.propBlocks t.nodes)).sum + buffers) := by
      rw [hempty]
      exact h.room
    rcases h.doAddProperty 0 hparent hfits hroom name with hcrash | ⟨u, es', hcall, hbuilt⟩
    · exact .inl hcrash
    · exact .inr ⟨u, es', buffers, hcall, hbuilt⟩
  · unfold FitsInMemory at hfits
    rcases h.serves.allocate (k := k) (Nat.pos_of_ne_zero hempty) hk (by omega) with
      hcrash | ⟨world, data, hcall, hserves⟩
    · refine .inl ?_
      rw [hcrash]
      rfl
    have hbuilt := h.buffer hserves
    have hroom : log.room + roundUp bytes.length = 0 ∨ log.room + roundUp bytes.length + 24 ≤
        footprints ((log.nodes.map (DeviceTree.nodeBlocks t.nodes)).sum +
          ((t.root :: log.nodes).map (DeviceTree.propBlocks t.nodes)).sum +
            (Block.plain data bytes.length (2 ^ k) ::ₘ buffers)) := by
      have hroom := h.room
      simp only [footprints_add, footprints_cons, footprint_plain] at hroom ⊢
      omega
    rcases hbuilt.doAddProperty data hparent (show FitsInMemory _ from hfits) hroom name with
      hcrash | ⟨u, es', hcall', hbuilt'⟩
    · refine .inl ?_
      rw [hcall]
      exact hcrash
    · refine .inr ⟨u, es', _, ?_, hbuilt'⟩
      rw [hcall]
      exact hcall'

/-- A new node. -/
theorem Built.create (h : Built statics t log es buffers) {parent : Nat} (hparent : log.Known parent)
    (name : CString) :
    t.blDtCreateNode parent name = .error (.crash "out of memory") ∨
    ∃ u node, t.blDtCreateNode parent name = .ok (u, node) ∧
      Built statics u (log ++ [.created node parent name]) es buffers := by
  have hfits := name.fits
  have hlength : name.length = name.bytes.length := rfl
  have hroom : name.room = name.bytes.length + 1 := rfl
  have hadd : add32 name.length 1 = name.room := Nat.mod_eq_of_lt (by omega)
  have hobjectSize : 0 < 32 := by decide
  have hobject := h.serves.allocate (k := 2) hobjectSize (by decide) (by decide)
  rw [show (2 : Nat) ^ 2 = 4 from rfl] at hobject
  rcases hobject with hcrash | ⟨world₁, node, hcall₁, hserves₁⟩
  · refine .inl ?_
    unfold DeviceTree.blDtCreateNode
    dsimp only
    rw [hcrash]
    rfl
  have hnameSize : 0 < name.room := Nat.succ_pos _
  have htext := hserves₁.allocate (k := 0) hnameSize (by decide) (by omega)
  rw [pow_zero] at htext
  rcases htext with hcrash | ⟨world₂, nameAt, hcall₂, hserves₂⟩
  · refine .inl ?_
    unfold DeviceTree.blDtCreateNode
    dsimp only
    rw [hcall₁]
    show (world₁.allocate (add32 name.length 1) 1 false >>= _) = _
    rw [hadd, hcrash]
    rfl
  have hcall : t.blDtCreateNode parent name = .ok ({ t with
      world := world₂, nodes := createdNodes t.nodes node (t.orRoot parent) nameAt name
      structureSize := add32 t.structureSize (DeviceTree.nodeSize name.length) }, node) := by
    unfold DeviceTree.blDtCreateNode
    dsimp only
    rw [hcall₁]
    show (world₁.allocate (add32 name.length 1) 1 false >>= _) = _
    rw [hadd, hcall₂]
    rfl
  have hnew : node ∉ log.nodes := by
    intro hmem
    have hout : Block.plain node 32 4 ∈ t.stringBlocks es + (t.treeBlocks log.nodes + buffers) := by
      simp only [Multiset.mem_add, DeviceTree.treeBlocks]
      refine .inr (.inl (.inl (.inl ?_)))
      refine Multiset.mem_of_le (List.le_sum_of_mem (List.mem_map_of_mem hmem)) ?_
      rw [DeviceTree.nodeBlocks, Multiset.insert_eq_cons]
      exact Multiset.mem_cons_self _ _
    exact (Multiset.nodup_cons.mp hserves₁.nodup).1 hout
  have hptr : 24 < node := (hserves₁.bounds (Multiset.mem_cons_self _ _)).1
  have hoffset : nodeOffset < node := Nat.lt_trans (by decide) hptr
  have hroot : node ≠ t.root := by
    rintro rfl
    exact hserves₁.not_static (Multiset.mem_cons_self _ _) (x := t.root)
      ⟨le_rfl, Nat.lt_add_of_pos_right hobjectSize⟩ h.root_static
  have hcreated := h.tree.isCreated hparent hnew hoffset hroot nameAt name
  have hother := fun n (hn : log.Known n) => orRoot_ne_new hnew hoffset hroot hn
  have hold : ∀ n ∈ log.nodes, n ≠ node := fun n hn heq => hnew (heq ▸ hn)
  -- the blocks of the tree are those that there were and the two new ones
  have hnodePart : ((log.nodes ++ [node]).map (DeviceTree.nodeBlocks
      (createdNodes t.nodes node (t.orRoot parent) nameAt name))).sum =
      (log.nodes.map (DeviceTree.nodeBlocks t.nodes)).sum +
        {Block.plain node 32 4, Block.plain nameAt name.room 1} := by
    rw [List.map_append, List.sum_append, List.map_singleton, List.sum_singleton]
    congr 1
    · congr 1
      refine List.map_congr_left fun n hn => nodeBlocks_congr ?_ ?_
      · exact hcreated.names n (hold n hn)
      · exact hcreated.texts n (hold n hn)
    · rw [DeviceTree.nodeBlocks, hcreated.new.2.1, hcreated.new.2.2.1]
  have hpropPart : ((t.root :: (log.nodes ++ [node])).map (DeviceTree.propBlocks
      (createdNodes t.nodes node (t.orRoot parent) nameAt name))).sum =
      ((t.root :: log.nodes).map (DeviceTree.propBlocks t.nodes)).sum := by
    have hnone : DeviceTree.propBlocks (createdNodes t.nodes node (t.orRoot parent) nameAt name) node =
        0 := by
      rw [DeviceTree.propBlocks, hcreated.new.2.2.2.2.1]
      rfl
    rw [← List.cons_append, List.map_append, List.sum_append, List.map_singleton,
      List.sum_singleton, hnone, add_zero]
    congr 1
    refine List.map_congr_left fun n hn => ?_
    have hne : n ≠ node := by
      rcases List.mem_cons.mp hn with rfl | hn
      · exact hroot.symm
      · exact hold n hn
    exact propBlocks_congr (hcreated.properties n hne) (hcreated.props n hne)
  obtain ⟨m, hm⟩ : ∃ m, createdNodes t.nodes node (t.orRoot parent) nameAt name = m := ⟨_, rfl⟩
  rw [hm] at hcall hcreated hnodePart hpropPart
  have hobjectRoom : (Block.plain node 32 4).footprint = 56 := by
    show 24 + roundUp 32 = 56
    decide
  have hblocks : ((log.nodes ++ [node]).map (DeviceTree.nodeBlocks m)).sum +
      ((t.root :: (log.nodes ++ [node])).map (DeviceTree.propBlocks m)).sum + t.rsvBlocks =
      Block.plain nameAt name.room 1 ::ₘ Block.plain node 32 4 ::ₘ t.treeBlocks log.nodes := by
    rw [hnodePart, hpropPart, DeviceTree.treeBlocks, Multiset.insert_eq_cons,
      ← Multiset.singleton_add, ← Multiset.singleton_add, ← Multiset.singleton_add]
    ac_rfl
  have hserves : world₂.Serves statics (t.stringBlocks es +
      (((log.nodes ++ [node]).map (DeviceTree.nodeBlocks m)).sum +
        ((t.root :: (log.nodes ++ [node])).map (DeviceTree.propBlocks m)).sum + t.rsvBlocks +
          buffers)) := by
    rw [hblocks]
    simpa only [← Multiset.singleton_add, add_assoc, add_left_comm] using hserves₂
  have hlog : DtLog.room (log ++ [.created node parent name]) = log.room + (8 + roundUp name.room) := by
    rw [DtLog.room, List.map_append, List.sum_append, List.map_singleton, List.sum_singleton]
    rfl
  have hmore : DtLog.room (log ++ [.created node parent name]) + 24 ≤
      footprints (((log.nodes ++ [node]).map (DeviceTree.nodeBlocks m)).sum +
        ((t.root :: (log.nodes ++ [node])).map (DeviceTree.propBlocks m)).sum + buffers) := by
    have hold := h.room
    simp only [hnodePart, hpropPart, footprints_add, Multiset.insert_eq_cons, footprints_cons,
      footprints_singleton, hobjectRoom, footprint_plain] at hold ⊢
    omega
  have hlt := room_lt (t := { t with nodes := m }) hserves h.statics_card (.inr hmore)
  have hknown : ∀ n, DtLog.Known (log ++ [.created node parent name]) n → n = node ∨ log.Known n := by
    intro n hn
    unfold DtLog.Known at hn
    rw [DtLog.nodes_created, List.mem_append, List.mem_singleton] at hn
    rcases hn with hn | hn | hn
    · exact .inr (.inl hn)
    · exact .inr (.inr hn)
    · exact .inl hn
  have hself : t.orRoot node = node := if_pos (by omega)
  refine .inr ⟨_, node, hcall, ?_⟩
  exact {
    tree := h.tree.create hparent hnew hoffset hroot rfl rfl hm.symm
    interned := h.interned.same ⟨rfl, rfl, rfl, rfl, rfl, rfl⟩
    named := by
      intro n hn p hp
      change p ∈ (m (t.orRoot n)).props at hp
      rcases hknown n hn with rfl | hn
      · rw [hself, hcreated.new.2.2.2.2.1] at hp
        cases hp
      · rw [hcreated.props _ (hother n hn)] at hp
        exact h.named n hn p hp
    used := by
      rw [DtLog.propertyNames_created]
      exact h.used
    serves := by
      rw [DtLog.nodes_created]
      exact hserves
    statics_card := h.statics_card
    root_static := h.root_static
    reservations := by
      rw [DtLog.reservations_created]
      exact h.reservations
    noReservations := h.noReservations
    noProps := by
      intro n hn hnone
      change (m (t.orRoot n)).props.length = 0 at hnone
      show (m (t.orRoot n)).properties = 0
      rcases hknown n hn with rfl | hn
      · rw [hself, hcreated.new.2.2.2.2.2]
      · rw [hcreated.props _ (hother n hn)] at hnone
        rw [hcreated.properties _ (hother n hn)]
        exact h.noProps n hn hnone
    room := by
      rw [DtLog.nodes_created]
      exact .inr hmore
    size := by
      show add32 t.structureSize (DeviceTree.nodeSize name.length) = _
      rw [nodeSize_eq, h.size, hlog]
      refine (Nat.mod_eq_of_lt ?_).trans (by omega)
      omega }

theorem Built.property {parent : Nat} {data : List (BitVec 8)} (h : Built statics t log es buffers)
    (hparent : log.Known parent) (hfits : FitsInMemory data.length) (name : CString) :
    t.blDtAddProperty parent name data = .error (.crash "out of memory") ∨
    ∃ u es' buffers', t.blDtAddProperty parent name data = .ok u ∧
      Built statics u (log ++ [.property parent name data]) es' buffers' :=
  h.addProperty (k := 0) hparent hfits (by decide) name

theorem length_flatMap_words (data : List Nat) :
    (data.flatMap fun v => wordBytes (blSwap32 v)).length = data.length * 4 := by
  induction data with
  | nil => rfl
  | cons v data ih =>
    rw [List.flatMap_cons, List.length_append, ih, List.length_cons]
    show 4 + data.length * 4 = _
    omega

theorem Built.propertyU32s {parent : Nat} {data : List Nat} (h : Built statics t log es buffers)
    (hparent : log.Known parent) (hfits : FitsInMemory (data.length * 4)) (name : CString) :
    t.blDtAddPropertyU32s parent name data = .error (.crash "out of memory") ∨
    ∃ u es' buffers', t.blDtAddPropertyU32s parent name data = .ok u ∧
      Built statics u (log ++ [.property parent name (data.flatMap fun v => wordBytes (blSwap32 v))])
        es' buffers' := by
  have hlength := length_flatMap_words data
  have hmul : mul32 data.length 4 = (data.flatMap fun v => wordBytes (blSwap32 v)).length := by
    unfold FitsInMemory at hfits
    rw [hlength]
    exact Nat.mod_eq_of_lt (by omega)
  unfold DeviceTree.blDtAddPropertyU32s
  rw [hmul]
  rw [← hlength] at hfits
  exact h.addProperty (k := 2) hparent hfits (by decide) name

theorem length_flatMap_chars (data : List CString) :
    (data.flatMap CString.chars).length = (data.map CString.room).sum := by
  rw [List.length_flatMap]
  simp only [CString.length_chars]

/-- The size of the strings, as it is summed up. -/
theorem foldl_room {data : List CString} {size : Nat}
    (h : size + (data.map CString.room).sum < 4294967296) :
    data.foldl (fun size str => add32 size (add32 str.length 1)) size =
      size + (data.map CString.room).sum := by
  induction data generalizing size with
  | nil => rfl
  | cons str data ih =>
    have hfits := str.fits
    have hlength : str.length = str.bytes.length := rfl
    have hroom : add32 str.length 1 = str.room := Nat.mod_eq_of_lt (by omega)
    rw [List.map_cons, List.sum_cons] at h
    have hadd : add32 size str.room = size + str.room := Nat.mod_eq_of_lt (by omega)
    rw [List.foldl_cons, hroom, hadd, ih (by omega), List.map_cons, List.sum_cons, Nat.add_assoc]

theorem Built.propertyStrings {parent : Nat} {data : List CString}
    (h : Built statics t log es buffers) (hparent : log.Known parent)
    (hfits : FitsInMemory (data.map CString.room).sum) (name : CString) :
    t.blDtAddPropertyStrings parent name data = .error (.crash "out of memory") ∨
    ∃ u es' buffers', t.blDtAddPropertyStrings parent name data = .ok u ∧
      Built statics u (log ++ [.property parent name (data.flatMap CString.chars)]) es' buffers' := by
  have hlength := length_flatMap_chars data
  have hsize : data.foldl (fun size str => add32 size (add32 str.length 1)) 0 =
      (data.flatMap CString.chars).length := by
    unfold FitsInMemory at hfits
    rw [hlength, foldl_room (by omega), Nat.zero_add]
  unfold DeviceTree.blDtAddPropertyStrings
  dsimp only
  rw [hsize]
  rw [← hlength] at hfits
  exact h.addProperty (k := 0) hparent hfits (by decide) name

/-- A region more. -/
theorem Built.reserve (h : Built statics t log es buffers) (base size : Nat) :
    t.blDtAddReservedMemory base size = .error (.crash "out of memory") ∨
    ∃ u, t.blDtAddReservedMemory base size = .ok u ∧
      Built statics u (log ++ [.reserved base size]) es buffers := by
  have hserves : t.world.Serves statics (arrayBlocks t.rsvMem 16 t.rsvEntries.length +
      (t.stringBlocks es + ((log.nodes.map (DeviceTree.nodeBlocks t.nodes)).sum +
        ((t.root :: log.nodes).map (DeviceTree.propBlocks t.nodes)).sum + buffers))) := by
    have hserves := h.serves
    rw [DeviceTree.treeBlocks, DeviceTree.rsvBlocks] at hserves
    simpa only [add_assoc, add_left_comm, add_comm buffers] using hserves
  have hgrow := hserves.growArray (by decide) (by decide) (by decide) h.noReservations h.statics_card
  rcases hgrow with hcrash | ⟨world, rsvMem, hcall, hserves'⟩
  · refine .inl ?_
    unfold DeviceTree.blDtAddReservedMemory
    rw [hcrash]
    rfl
  have hlog : DtLog.room (log ++ [.reserved base size]) = log.room := by
    rw [DtLog.room, List.map_append, List.sum_append]
    rfl
  refine .inr ⟨_, by unfold DeviceTree.blDtAddReservedMemory; rw [hcall]; rfl, ?_⟩
  exact {
    tree := (h.tree.reserve base size).same rfl rfl rfl
    interned := h.interned.same ⟨rfl, rfl, rfl, rfl, rfl, rfl⟩
    named := by
      intro n hn
      unfold DtLog.Known at hn
      rw [DtLog.nodes_reserved] at hn
      exact h.named n hn
    used := by
      rw [DtLog.propertyNames_reserved]
      exact h.used
    serves := by
      rw [DtLog.nodes_reserved]
      show world.Serves statics (t.stringBlocks es + ((log.nodes.map (DeviceTree.nodeBlocks t.nodes)).sum +
        ((t.root :: log.nodes).map (DeviceTree.propBlocks t.nodes)).sum +
          arrayBlocks rsvMem 16 (t.rsvEntries ++ [(base, size)]).length + buffers))
      rw [List.length_append, List.length_singleton]
      simpa only [add_assoc, add_left_comm, add_comm buffers] using hserves'
    statics_card := h.statics_card
    root_static := h.root_static
    reservations := by
      rw [DtLog.reservations_reserved, ← h.reservations]
    noReservations := by
      intro hnone
      rw [List.length_append] at hnone
      cases hnone
    noProps := by
      intro n hn
      unfold DtLog.Known at hn
      rw [DtLog.nodes_reserved] at hn
      exact h.noProps n hn
    room := by
      rw [hlog, DtLog.nodes_reserved]
      exact h.room
    size := by
      rw [hlog]
      exact h.size }

/-- Allocations by others. -/
theorem Built.same (h : Built statics t log es buffers) (hsame : SameTree t u) :
    Built statics u log es buffers := by
  have hstrings := hsame.strings
  have hstringBlocks := hsame.toSameTable.stringBlocks_eq es
  obtain ⟨htable, hroot, hrsvMem, hrsvEntries, hnodes, hstructureSize, hserves⟩ := hsame
  have horRoot : ∀ n, u.orRoot n = t.orRoot n := fun n => by
    rw [DeviceTree.orRoot, DeviceTree.orRoot, hroot]
  have htreeBlocks : u.treeBlocks log.nodes = t.treeBlocks log.nodes := by
    unfold DeviceTree.treeBlocks DeviceTree.rsvBlocks
    rw [hnodes, hroot, hrsvMem, hrsvEntries]
  refine ⟨h.tree.same hroot hnodes hstrings, h.interned.same htable, ?_, ?_, ?_, h.statics_card, ?_, ?_,
    ?_, ?_, ?_, ?_⟩
  · simp only [horRoot, hnodes]
    exact h.named
  · rw [hstrings]
    exact h.used
  · rw [hstringBlocks, htreeBlocks]
    exact hserves _ _ h.serves
  · rw [hroot]
    exact h.root_static
  · rw [hrsvEntries]
    exact h.reservations
  · rw [hrsvEntries, hrsvMem]
    exact h.noReservations
  · simp only [horRoot, hnodes]
    exact h.noProps
  · rw [hnodes, hroot]
    exact h.room
  · rw [hstructureSize]
    exact h.size

/-! ## The tree in memory -/

/-- What the nodes take of the address space. -/
theorem nodeBlocks_footprint (m : Nat → DtNode) (ns : List Nat) :
    80 * ns.length + (ns.map fun n => (m n).text.room).sum ≤
      footprints (ns.map (DeviceTree.nodeBlocks m)).sum := by
  induction ns with
  | nil => exact le_rfl
  | cons n ns ih =>
    have hround := le_roundUp (m n).text.room
    have hobject : (Block.plain n 32 4).footprint = 56 := by
      show 24 + roundUp 32 = 56
      decide
    rw [List.map_cons, List.map_cons, List.sum_cons, List.sum_cons, footprints_add,
      DeviceTree.nodeBlocks, Multiset.insert_eq_cons, footprints_cons, footprints_singleton, hobject,
      footprint_plain, List.length_cons]
    omega

theorem Built.nodes_fit (h : Built statics t log es buffers) :
    80 * log.nodes.length + (log.nodes.map fun n => (t.nodes n).text.room).sum + staticsSize ≤
      4294967296 := by
  have hle : footprints (t.stringBlocks es + (t.treeBlocks log.nodes + buffers)) + statics.card ≤
      4294967296 := h.serves.footprint_le
  have hnodes := nodeBlocks_footprint t.nodes log.nodes
  have hstatics := h.statics_card
  rw [DeviceTree.treeBlocks] at hle
  simp only [footprints_add] at hle
  omega

theorem Built.nodes_lt (h : Built statics t log es buffers) : log.nodes.length + 60 < rounds := by
  have hfit := h.nodes_fit
  have hsize : staticsSize = 60 := rfl
  simp only [rounds]
  by_cases hnone : log.nodes.length = 0
  · omega
  · omega

theorem IsTree.child_ne (h : IsTree t log) {p n : Nat} (hn : n ∈ log.children p) : n ≠ 0 := by
  have hlt := (h.apart n ((DtLog.children_sublist p).subset hn)).1
  omega

theorem IsTree.firstChild_eq (h : IsTree t log) {p : Nat} (hp : log.Known p) :
    t.firstChild (t.orRoot p) = (log.children p).headD 0 := by
  have hhead := Holds.head_eq (h.children p hp)
  rw [DeviceTree.firstChild, hhead]
  exact container_headD_map_add nodeOffset fun _ ha => h.child_ne ha

theorem IsTree.nextChild_eq (h : IsTree t log) {p n : Nat} (hp : log.Known p)
    {before after : List Nat} (hsplit : log.children p = before ++ n :: after) :
    t.nextChild n = after.headD 0 := by
  have hlist := h.children p hp
  have hpos : ∀ a ∈ after, a ≠ 0 := fun a ha => h.child_ne (p := p) (by
    rw [hsplit]
    exact List.mem_append_right _ (List.mem_cons_of_mem n ha))
  rw [hsplit, List.map_append, List.map_cons] at hlist
  rw [DeviceTree.nextChild, hlist.next_eq]
  exact container_headD_map_add nodeOffset hpos

theorem IsTree.parent_root (h : IsTree t log) : (t.nodes (t.orRoot 0)).parent = 0 := h.root.1

theorem IsTree.parent_child (h : IsTree t log) {n p : Nat} {name : CString}
    (hmem : .created n p name ∈ log) :
    (t.nodes (t.orRoot n)).parent = t.orRoot p ∧ (t.nodes (t.orRoot n)).text = name := by
  rw [h.orRoot_created (DtLog.mem_nodes.mpr ⟨p, name, hmem⟩)]
  exact h.node n p name hmem

end

/-! ## Runs -/

section
variable {statics : Finset Nat} {world : World} {root name : Nat} {strings : Nat → DtString}
  {nodes : Nat → DtNode}

theorem built_start (hserves : world.Serves statics 0) (hstatics : staticsSize ≤ statics.card)
    (hroot : root ∈ statics) (hroot0 : root ≠ 0) :
    Built statics (.start world root name strings nodes) [] [] 0 := by
  have hself : (Function.update nodes root { parent := 0, prev := 0, next := 0, name, text := .empty, children := .init, properties := 0, props := [] }) root =
      { parent := 0, prev := 0, next := 0, name, text := .empty, children := .init, properties := 0, props := [] } :=
    Function.update_self ..
  have horRoot : ∀ n, DtLog.Known [] n →
      (DeviceTree.start world root name strings nodes).orRoot n = root := by
    intro n hn
    have hn0 : n = 0 := hn.resolve_right List.not_mem_nil
    exact if_neg fun hne => hne hn0
  have hnode : ∀ n, DtLog.Known [] n → (DeviceTree.start world root name strings nodes).nodes
      ((DeviceTree.start world root name strings nodes).orRoot n) =
        { parent := 0, prev := 0, next := 0, name, text := .empty, children := .init, properties := 0, props := [] } := by
    intro n hn
    rw [horRoot n hn]
    exact hself
  refine ⟨⟨hroot0, List.nodup_nil, nofun, ?_, nofun, ?_, nofun, ?_, ?_⟩, interned_start .., ?_, nofun, ?_,
    hstatics, hroot, rfl, fun _ => rfl, ?_, .inl rfl, rfl⟩
  · intro before n p name after heq
    simp at heq
  · rw [show (DeviceTree.start world root name strings nodes).nodes
      (DeviceTree.start world root name strings nodes).root = _ from hself]
    exact ⟨rfl, rfl⟩
  · intro n hn
    rw [hnode n hn]
    exact lists_init _
  · intro n hn
    rw [hnode n hn]
    rfl
  · intro n hn p hp
    rw [hnode n hn] at hp
    cases hp
  · have hprops : DeviceTree.propBlocks (DeviceTree.start world root name strings nodes).nodes root =
        0 := by
      rw [DeviceTree.propBlocks, show (DeviceTree.start world root name strings nodes).nodes root = _
        from hself]
      rfl
    have hnone : (DeviceTree.start world root name strings nodes).stringBlocks [] +
        ((DeviceTree.start world root name strings nodes).treeBlocks [] + 0) = 0 := by
      have htree : (DeviceTree.start world root name strings nodes).treeBlocks [] =
          0 + (DeviceTree.propBlocks (DeviceTree.start world root name strings nodes).nodes root + 0) + 0 :=
        rfl
      rw [htree, hprops]
      rfl
    show world.Serves statics _
    rw [show DtLog.nodes [] = [] from rfl, hnone]
    exact hserves
  · intro n hn _
    rw [hnode n hn]

/-- In every state that a run reaches the tree of the log is in memory. -/
theorem Builds.built {t : DeviceTree} {log : DtLog}
    (hrun : Builds (.start world root name strings nodes) log t) (hserves : world.Serves statics 0)
    (hstatics : staticsSize ≤ statics.card) (hroot : root ∈ statics) (hroot0 : root ≠ 0) :
    ∃ es buffers, Built statics t log es buffers := by
  induction hrun with
  | start => exact ⟨[], 0, built_start hserves hstatics hroot hroot0⟩
  | @create log t u parent node str hrun hparent hcall ih =>
    obtain ⟨es, buffers, h⟩ := ih
    rcases h.create hparent str with hcrash | ⟨u', node', hok, hbuilt⟩
    · rw [hcrash] at hcall
      cases hcall
    · rw [hok] at hcall
      cases hcall
      exact ⟨es, buffers, hbuilt⟩
  | @property log t u parent str data hrun hparent hfits hcall ih =>
    obtain ⟨es, buffers, h⟩ := ih
    rcases h.property hparent hfits str with hcrash | ⟨u', es', buffers', hok, hbuilt⟩
    · rw [hcrash] at hcall
      cases hcall
    · rw [hok] at hcall
      cases hcall
      exact ⟨es', buffers', hbuilt⟩
  | @propertyU32s log t u parent str data hrun hparent hfits hcall ih =>
    obtain ⟨es, buffers, h⟩ := ih
    rcases h.propertyU32s hparent hfits str with hcrash | ⟨u', es', buffers', hok, hbuilt⟩
    · rw [hcrash] at hcall
      cases hcall
    · rw [hok] at hcall
      cases hcall
      exact ⟨es', buffers', hbuilt⟩
  | @propertyStrings log t u parent str data hrun hparent hfits hcall ih =>
    obtain ⟨es, buffers, h⟩ := ih
    rcases h.propertyStrings hparent hfits str with hcrash | ⟨u', es', buffers', hok, hbuilt⟩
    · rw [hcrash] at hcall
      cases hcall
    · rw [hok] at hcall
      cases hcall
      exact ⟨es', buffers', hbuilt⟩
  | @reserve log t u base size hrun hcall ih =>
    obtain ⟨es, buffers, h⟩ := ih
    rcases h.reserve base size with hcrash | ⟨u', hok, hbuilt⟩
    · rw [hcrash] at hcall
      cases hcall
    · rw [hok] at hcall
      cases hcall
      exact ⟨es, buffers, hbuilt⟩
  | elsewhere _ hsame ih =>
    obtain ⟨es, buffers, h⟩ := ih
    exact ⟨es, buffers, h.same hsame⟩

end

/-- A heap of one page, with the variables of `dt.c` below it. -/
theorem serves_page : ∃ w, Run.run World.regularStep (World.start fun _ => 0) [.add 0x1000 0x1000] = some w ∧
    w.Serves (Finset.Ico 0x100 0x13c) 0 := by
  have hareas : (Run.run World.regularStep (World.start fun _ => 0) [.add 0x1000 0x1000]).map World.areas =
      some [{ base := 0x1000, size := 0x1000 }] := by
    decide +kernel
  obtain ⟨w, hrun, harea⟩ := Option.map_eq_some_iff.1 hareas
  refine ⟨w, hrun, World.regularRun_tight hrun, fun x hx => ?_, Multiset.nodup_zero, nofun, nofun⟩
  have hbelow := (Finset.mem_Ico.mp hx).2
  refine ⟨by omega, ?_⟩
  rintro ⟨a, ha, hlo, -⟩
  rw [harea, List.mem_singleton] at ha
  subst ha
  dsimp only at hlo
  omega

end XrLinux.Bootloader
