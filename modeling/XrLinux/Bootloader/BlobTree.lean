import XrLinux.Lib.FlattenedTree
import XrLinux.Bootloader.ByteSwap
import XrLinux.Bootloader.BuiltTree

/-!
# Bootloader — the structure block

The loop of `BlDtBuildBlob` over the tree has neither a stack nor marks: it knows a node that it enters
from one that it comes back to by the node before. What it writes is the encoding of the tree that the
calls have built, and that takes exactly the size that the calls have added up.
-/

namespace XrLinux.Bootloader

open ByteMemory LinkedList FlattenedTree

/-! ## The tree that is built -/

namespace DtLog

/-- The root, and the other nodes below their parents in the order of their creation. -/
def forest (log : DtLog) : Forest Nat :=
  log.foldl (fun f event => match event with
    | .created node parent _ => f.insert parent node
    | _ => f) (.node 0 .nil .nil)

def nameOf (log : DtLog) (node : Nat) : CString :=
  (log.findSome? fun
    | .created n _ name => if n = node then some name else none
    | _ => none).getD .empty

/-- The name and the properties of a node. -/
def label (log : DtLog) (node : Nat) : Label :=
  ((log.nameOf node).bytes, (log.properties node).map fun p => (p.1.bytes, p.2))

/-- The device tree. -/
def deviceTree (log : DtLog) : Forest Label := log.forest.map log.label

/-- The forest is what is below these nodes, and they themselves. -/
inductive Below (log : DtLog) : List Nat → Forest Nat → Prop where
  | nil : log.Below [] .nil
  | node {n : Nat} {ns : List Nat} {c s : Forest Nat} (hc : log.Below (log.children n) c)
      (hs : log.Below ns s) : log.Below (n :: ns) (.node n c s)

variable {log : DtLog}

theorem forest_created (log : DtLog) (node parent : Nat) (name : CString) :
    DtLog.forest (log ++ [.created node parent name]) = log.forest.insert parent node := by
  simp [DtLog.forest]

theorem forest_property (log : DtLog) (parent : Nat) (name : CString) (bytes : List (BitVec 8)) :
    DtLog.forest (log ++ [.property parent name bytes]) = log.forest := by
  simp [DtLog.forest]

theorem forest_reserved (log : DtLog) (base size : Nat) :
    DtLog.forest (log ++ [.reserved base size]) = log.forest := by
  simp [DtLog.forest]

theorem Below.mem {ns : List Nat} {f : Forest Nat} (h : log.Below ns f) {x : Nat} (hx : x ∈ f.toList) :
    x ∈ ns ∨ x ∈ log.nodes := by
  induction h with
  | nil => cases hx
  | @node n ns c s _ _ ihc ihs =>
    rw [Forest.toList, List.mem_cons, List.mem_append] at hx
    rcases hx with rfl | hx | hx
    · exact .inl List.mem_cons_self
    · refine .inr ((ihc hx).elim (fun hmem => ?_) id)
      exact (children_sublist n).subset hmem
    · exact (ihs hx).imp_left (List.mem_cons_of_mem n)

theorem Below.congr {log' : DtLog} {ns : List Nat} {f : Forest Nat} (h : log.Below ns f)
    (hchildren : ∀ n, log'.children n = log.children n) : log'.Below ns f := by
  induction h with
  | nil => exact .nil
  | @node n ns c s _ _ ihc ihs =>
    rw [← hchildren n] at ihc
    exact .node ihc ihs

/-- A leaf behind the others. -/
theorem Below.snoc {ns : List Nat} {f : Forest Nat} (h : log.Below ns f) {a : Nat}
    (ha : log.children a = []) : log.Below (ns ++ [a]) (f.snoc a) := by
  induction h with
  | nil =>
    have hleaf : log.Below (log.children a) .nil := by
      rw [ha]
      exact .nil
    exact .node hleaf .nil
  | node hc _ _ ihs => exact .node hc ihs

theorem Below.insert {ns : List Nat} {f : Forest Nat} (h : log.Below ns f) {p a : Nat}
    {name : CString} (ha : log.children a = []) (hne : p ≠ a) :
    DtLog.Below (log ++ [.created a p name]) ns (f.insert p a) := by
  have hleaf : DtLog.children (log ++ [.created a p name]) a = [] := by
    rw [children_created, ha, if_neg hne]
    rfl
  induction h with
  | nil => exact .nil
  | @node n ns c s _ _ ihc ihs =>
    rw [Forest.insert]
    refine .node ?_ ihs
    rw [children_created]
    by_cases hn : n = p
    · rw [if_pos hn, if_pos hn.symm]
      exact ihc.snoc hleaf
    · rw [if_neg hn, if_neg fun heq => hn heq.symm, List.append_nil]
      exact ihc

end DtLog

/-- What is behind the last call may be forgotten. -/
structure DtLog.Ordered (log : DtLog) : Prop where
  nodup : log.nodes.Nodup
  nonzero : ∀ n ∈ log.nodes, n ≠ 0
  known : ∀ before n p name after, log = before ++ .created n p name :: after →
    DtLog.Known before p

theorem DtLog.Ordered.front {log : DtLog} {event : DtEvent} (h : DtLog.Ordered (log ++ [event])) :
    log.Ordered where
  nodup := by
    have hnodup := h.nodup
    unfold DtLog.nodes at hnodup ⊢
    rw [List.filterMap_append] at hnodup
    exact hnodup.of_append_left
  nonzero n hn := by
    refine h.nonzero n ?_
    unfold DtLog.nodes
    rw [List.filterMap_append]
    exact List.mem_append_left _ hn
  known before n p name after heq := h.known before n p name (after ++ [event]) (by rw [heq]; simp)

section
variable {log : DtLog}

/-- A node that is new has no children. -/
theorem DtLog.Ordered.new {node parent : Nat} {name : CString}
    (h : DtLog.Ordered (log ++ [.created node parent name])) :
    log.Known parent ∧ ¬log.Known node ∧ log.children node = [] := by
  have hparent := h.known log node parent name [] rfl
  have hnodup := h.nodup
  rw [DtLog.nodes_created] at hnodup
  have hnew : node ∉ log.nodes := fun hmem =>
    (List.nodup_append.mp hnodup).2.2 node hmem node List.mem_cons_self rfl
  have hnonzero := h.nonzero node (by rw [DtLog.nodes_created]; simp)
  have hunknown : ¬log.Known node := fun hknown => hnew (hknown.resolve_left hnonzero)
  refine ⟨hparent, hunknown, List.eq_nil_iff_forall_not_mem.mpr fun c hc => ?_⟩
  obtain ⟨name', hmem⟩ := DtLog.mem_children.mp hc
  obtain ⟨before, after, rfl⟩ := List.append_of_mem hmem
  exact hunknown ((h.front.known before c node name' after rfl).append _)

/-- The forest has each node once, with its children below it. -/
theorem DtLog.Ordered.forest (h : log.Ordered) :
    log.Below [0] log.forest ∧ log.forest.toList.Perm (0 :: log.nodes) := by
  induction log using List.reverseRecOn with
  | nil => exact ⟨.node .nil .nil, List.Perm.refl _⟩
  | append_singleton log event ih =>
    obtain ⟨hbelow, hperm⟩ := ih h.front
    cases event with
    | created node parent name =>
      obtain ⟨hparent, hunknown, hleaf⟩ := h.new
      have hnodup : (0 :: DtLog.nodes log).Nodup :=
        List.nodup_cons.mpr ⟨fun h0 => h.front.nonzero 0 h0 rfl, h.front.nodup⟩
      have hcount : (DtLog.forest log).toList.count parent = 1 := by
        rw [hperm.count_eq, List.count_eq_one_of_mem hnodup]
        exact hparent.elim (fun h0 => h0 ▸ List.mem_cons_self) (List.mem_cons_of_mem 0)
      have hne : parent ≠ node := fun heq => hunknown (heq ▸ hparent)
      rw [DtLog.forest_created, DtLog.nodes_created]
      exact ⟨hbelow.insert hleaf hne,
        (Forest.toList_insert_perm hcount).trans (hperm.append_right [node])⟩
    | property parent name bytes =>
      rw [DtLog.forest_property, DtLog.nodes_property]
      exact ⟨hbelow.congr fun n => DtLog.children_property log parent n name bytes, hperm⟩
    | reserved base size =>
      rw [DtLog.forest_reserved, DtLog.nodes_reserved]
      exact ⟨hbelow.congr fun n => DtLog.children_reserved log n base size, hperm⟩

end

theorem IsTree.ordered {t : DeviceTree} {log : DtLog} (h : IsTree t log) : log.Ordered where
  nodup := h.nodup
  nonzero n hn := Nat.ne_of_gt (Nat.zero_lt_of_lt (h.apart n hn).1)
  known := h.known

/-! ## The writes -/

theorem write32_eq_storeBytes (m : ByteMemory) (a v : Nat) :
    m.write32 a v = storeBytes m a (wordBytes v) := by
  have hsplit : wordBytes v = [.ofNat 8 v] ++ ([.ofNat 8 (v / 256)] ++
      ([.ofNat 8 (v / 65536)] ++ [.ofNat 8 (v / 16777216)])) := rfl
  rw [write32, hsplit, ← storeBytes_append, ← storeBytes_append, ← storeBytes_append]
  simp only [write8_eq_storeBytes]
  rfl

theorem wordBytes_blSwap32 {v : Nat} (hv : v < 4294967296) : wordBytes (blSwap32 v) = be32 v := by
  have hreversed := (swaps_blSwap32 (show v < 256 ^ 4 from hv)).reversed
  have hbyte : ∀ i < 4, BitVec.ofNat 8 (blSwap32 v / 2 ^ (8 * i)) =
      BitVec.ofNat 8 (v / 2 ^ (8 * (3 - i))) := by
    intro i hi
    apply BitVec.eq_of_toNat_eq
    rw [BitVec.toNat_ofNat, BitVec.toNat_ofNat]
    exact hreversed i hi
  have h0 := hbyte 0 (by decide)
  rw [Nat.mul_zero, Nat.pow_zero, Nat.div_one] at h0
  have h3 := hbyte 3 (by decide)
  rw [Nat.sub_self, Nat.mul_zero, Nat.pow_zero, Nat.div_one] at h3
  exact congrArg₂ (· :: ·) h0 (congrArg₂ (· :: ·) (hbyte 1 (by decide))
    (congrArg₂ (· :: ·) (hbyte 2 (by decide)) (congrArg ([·]) h3)))

theorem writeBe32_eq (m : ByteMemory) (a : Nat) {v : Nat} (hv : v < 4294967296) :
    writeBe32 m a v = storeBytes m a (be32 v) := by
  rw [writeBe32, write32_eq_storeBytes, wordBytes_blSwap32 hv]

/-- What has been written so far of a block at `base`. -/
def emitted (m : ByteMemory) (base : Nat) (bytes : Bytes) : Emitted where
  mem := storeBytes m base bytes
  offset := bytes.length

section
variable {structureSize base : Nat} {m : ByteMemory} {bytes : Bytes}

theorem missing_eq (length : Nat) : roundUp length - length = missing length := by
  unfold roundUp missing
  omega

theorem length_padded_eq (data : Bytes) : (padded data).length = roundUp data.length := by
  have hle := le_roundUp data.length
  rw [length_padded, ← missing_eq]
  omega

theorem blDtAddToken_eq {token : Nat} (htoken : token < 4294967296) (hsize : structureSize < 4294967296)
    (hroom : bytes.length + 4 ≤ structureSize) :
    blDtAddToken structureSize base token (emitted m base bytes) =
      .ok (emitted m base (bytes ++ be32 token)) := by
  have hadd : add32 bytes.length 4 = bytes.length + 4 := Nat.mod_eq_of_lt (by omega)
  have hmem : writeBe32 (storeBytes m base bytes) (base + bytes.length) token =
      storeBytes m base (bytes ++ be32 token) := by
    rw [writeBe32_eq _ _ htoken, storeBytes_append]
  simp only [blDtAddToken, emitted, hadd, hmem, List.length_append, length_be32]
  exact if_neg (by omega)

theorem blDtAddDataAndAlign_eq (data : Bytes) (hsize : structureSize < 4294967296)
    (hroom : bytes.length + roundUp data.length ≤ structureSize) :
    blDtAddDataAndAlign structureSize base data (emitted m base bytes) =
      .ok (emitted m base (bytes ++ padded data)) := by
  have hle := le_roundUp data.length
  have hup : alignUp data.length 4 = roundUp data.length := by
    by_cases hlt : data.length + 3 < 4294967296
    · exact alignUp_four hlt
    · have hlong : roundUp data.length < 4294967296 := by omega
      unfold roundUp at hlong
      omega
  have hadd : add32 bytes.length (roundUp data.length) = bytes.length + roundUp data.length :=
    Nat.mod_eq_of_lt (by omega)
  have hsub : sub32 (roundUp data.length) data.length = missing data.length := by
    rw [← missing_eq]
    unfold sub32
    omega
  have hmem : storeBytes (storeBytes (storeBytes m base bytes) (base + bytes.length) data)
      (base + bytes.length + data.length) (List.replicate (missing data.length) 0) =
      storeBytes m base (bytes ++ padded data) := by
    rw [storeBytes_append, storeBytes_append]
    rfl
  simp only [blDtAddDataAndAlign, emitted, hup, hadd, hsub, hmem, List.length_append, length_padded_eq]
  exact if_neg (by omega)

/-! ## A node -/

/-- The strings have the identifiers that this says. -/
def Identified (t : DeviceTree) (es : List Nat) (offset : Bytes → Nat) : Prop :=
  ∀ e ∈ es, (t.strings e).identifier = offset (t.strings e).text.bytes ∧
    (t.strings e).identifier < 4294967296

variable {t : DeviceTree} {es : List Nat} {offset : Bytes → Nat}

theorem emitProperty_eq (hids : Identified t es offset) {property : DtProperty}
    (hname : property.name ∈ es) (hsize : t.structureSize < 4294967296)
    (hroom : bytes.length + (12 + roundUp property.bytes.length) ≤ t.structureSize) :
    t.emitProperty base (emitted m base bytes) property = .ok (emitted m base (bytes ++
      (be32 3 ++ be32 property.bytes.length ++ be32 (offset (t.strings property.name).text.bytes) ++
        padded property.bytes))) := by
  obtain ⟨hid, hlt⟩ := hids property.name hname
  have hle := le_roundUp property.bytes.length
  unfold DeviceTree.emitProperty
  rw [blDtAddToken_eq (by decide) hsize (by omega)]
  show (blDtAddToken _ _ _ (emitted m base (bytes ++ be32 3)) >>= _) = _
  rw [blDtAddToken_eq (by omega) hsize (by rw [List.length_append, length_be32]; omega)]
  show (blDtAddToken _ _ _ (emitted m base (bytes ++ be32 3 ++ be32 _)) >>= _) = _
  rw [blDtAddToken_eq hlt hsize (by simp only [List.length_append, length_be32]; omega)]
  show blDtAddDataAndAlign _ _ _ (emitted m base (bytes ++ be32 3 ++ be32 _ ++ be32 _)) = _
  rw [blDtAddDataAndAlign_eq _ hsize (by simp only [List.length_append, length_be32]; omega), hid]
  simp only [List.append_assoc]

theorem length_encodeProps (offset : Bytes → Nat) (props : List (Bytes × Bytes)) :
    (encodeProps offset props).length = (props.map fun p => 12 + roundUp p.2.length).sum := by
  induction props with
  | nil => rfl
  | cons p props ih =>
    rw [encodeProps, List.flatMap_cons, List.length_append, List.map_cons, List.sum_cons, ← ih,
      encodeProps]
    simp only [List.length_append, length_be32, length_padded_eq]

theorem emitProps_eq (hids : Identified t es offset) {props : List DtProperty}
    (hnames : ∀ p ∈ props, p.name ∈ es) (hsize : t.structureSize < 4294967296)
    (hroom : bytes.length + (props.map fun p => 12 + roundUp p.bytes.length).sum ≤ t.structureSize) :
    props.foldlM (fun s property => t.emitProperty base s property) (emitted m base bytes) =
      .ok (emitted m base (bytes ++
        encodeProps offset (props.map fun p => ((t.strings p.name).text.bytes, p.bytes)))) := by
  induction props generalizing bytes with
  | nil =>
    rw [List.foldlM_nil, List.map_nil, encodeProps, List.flatMap_nil, List.append_nil]
    rfl
  | cons p props ih =>
    rw [List.map_cons, List.sum_cons] at hroom
    rw [List.foldlM_cons, emitProperty_eq hids (hnames p List.mem_cons_self) hsize (by omega)]
    show props.foldlM _ (emitted m base _) = _
    rw [ih (fun q hq => hnames q (List.mem_cons_of_mem p hq)), List.map_cons, encodeProps, encodeProps,
      List.flatMap_cons, List.append_assoc]
    simp only [List.length_append, length_be32, length_padded_eq]
    omega

theorem emitNode_eq (hids : Identified t es offset) {node : Nat}
    (hnames : ∀ p ∈ (t.nodes node).props, p.name ∈ es) (hsize : t.structureSize < 4294967296)
    (hroom : bytes.length + (4 + roundUp (t.nodes node).text.room +
      ((t.nodes node).props.map fun p => 12 + roundUp p.bytes.length).sum) ≤ t.structureSize) :
    t.emitNode base node (emitted m base bytes) = .ok (emitted m base (bytes ++
      (be32 1 ++ padded (t.nodes node).text.chars ++ encodeProps offset
        ((t.nodes node).props.map fun p => ((t.strings p.name).text.bytes, p.bytes))))) := by
  have hchars := CString.length_chars (t.nodes node).text
  unfold DeviceTree.emitNode
  rw [blDtAddToken_eq (by decide) hsize (by omega)]
  show (blDtAddDataAndAlign _ _ _ (emitted m base (bytes ++ be32 1)) >>= _) = _
  rw [blDtAddDataAndAlign_eq _ hsize (by rw [List.length_append, length_be32, hchars]; omega)]
  show (t.nodes node).props.foldlM _ (emitted m base (bytes ++ be32 1 ++ padded _)) = _
  rw [emitProps_eq hids hnames hsize]
  · simp only [List.append_assoc]
  · simp only [List.length_append, length_be32, length_padded_eq, hchars]
    omega

/-! ## The loop -/

theorem DtLog.nameOf_created {log : DtLog} (hnodup : log.nodes.Nodup) {n p : Nat} {name : CString}
    (hmem : .created n p name ∈ log) : log.nameOf n = name := by
  unfold DtLog.nameOf
  cases hfound : log.findSome? fun
    | .created m _ name => if m = n then some name else none
    | _ => none with
  | some name' =>
    obtain ⟨event, hevent, heq⟩ := List.exists_of_findSome?_eq_some hfound
    cases event with
    | created n' p' name'' =>
      dsimp only at heq
      split_ifs at heq with hn
      cases heq
      subst hn
      exact (DtLog.created_unique hnodup hevent hmem).2
    | property => cases heq
    | reserved => cases heq
  | none =>
    have hnone := List.findSome?_eq_none_iff.mp hfound _ hmem
    dsimp only at hnone
    rw [if_pos rfl] at hnone
    cases hnone

theorem DtLog.nameOf_unknown {log : DtLog} {n : Nat} (hn : n ∉ log.nodes) : log.nameOf n = .empty := by
  unfold DtLog.nameOf
  have hnone : (log.findSome? fun
      | .created m _ name => if m = n then some name else none
      | _ => none) = none := by
    refine List.findSome?_eq_none_iff.mpr fun event hevent => ?_
    cases event with
    | created m p name =>
      refine if_neg fun heq => hn ?_
      subst heq
      exact DtLog.mem_nodes.mpr ⟨p, name, hevent⟩
    | property => rfl
    | reserved => rfl
  rw [hnone]
  rfl

section
variable {log : DtLog}

theorem IsTree.text_eq (h : IsTree t log) {n : Nat} (hn : log.Known n) :
    (t.nodes (t.orRoot n)).text = log.nameOf n := by
  by_cases hmem : n ∈ log.nodes
  · obtain ⟨p, name, hcreated⟩ := DtLog.mem_nodes.mp hmem
    rw [(h.parent_child hcreated).2, DtLog.nameOf_created h.nodup hcreated]
  · have hn0 : n = 0 := hn.resolve_right hmem
    subst hn0
    rw [DtLog.nameOf_unknown hmem]
    exact h.root.2

theorem IsTree.props_eq (h : IsTree t log) {n : Nat} (hn : log.Known n) :
    ((t.nodes (t.orRoot n)).props.map fun p => ((t.strings p.name).text.bytes, p.bytes)) =
      (log.label n).2 := by
  rw [DtLog.label, ← h.props n hn, List.map_map]
  rfl

/-- The node before tells whether a node is entered. -/
theorem IsTree.child_ne_parent (h : IsTree t log) {n p : Nat} (hn : n ∈ log.children p) :
    n ≠ (t.nodes (t.orRoot p)).parent := by
  obtain ⟨name, hmem⟩ := DtLog.mem_children.mp hn
  have hnode := DtLog.mem_nodes.mpr ⟨p, name, hmem⟩
  obtain ⟨before, after, hlog⟩ := List.append_of_mem hmem
  have hknown := h.known before n p name after hlog
  have hfresh : n ∉ DtLog.nodes before := by
    have hnodup := h.nodup
    rw [hlog] at hnodup
    unfold DtLog.nodes at hnodup ⊢
    rw [List.filterMap_append] at hnodup
    exact fun hin => (List.nodup_append.mp hnodup).2.2 n hin n List.mem_cons_self rfl
  by_cases hp : p = 0
  · subst hp
    rw [h.parent_root]
    exact h.child_ne hn
  · obtain ⟨q, name', hq⟩ := DtLog.mem_nodes.mp (hknown.resolve_left hp)
    -- its parent's parent was there before it
    have hbefore : DtLog.Known before q := by
      obtain ⟨front, back, rfl⟩ := List.append_of_mem hq
      refine (h.known front p q name' (back ++ .created n p name :: after) ?_).append _
      rw [hlog]
      simp
    have hin : .created p q name' ∈ log := by
      rw [hlog]
      exact List.mem_append_left _ hq
    rw [(h.parent_child hin).1]
    intro heq
    rw [← h.orRoot_created hnode, h.orRoot_inj (.inr hnode) (h.parent_known hin)] at heq
    subst heq
    exact hfresh (hbefore.resolve_left (h.child_ne hn))

theorem emitFrom_enter {fuel node previous : Nat} {s : Emitted} (hnode : node ≠ 0)
    (hparent : previous = (t.nodes node).parent) :
    t.emitFrom base (fuel + 1) node previous s = (t.emitNode base node s >>= fun s =>
      if t.firstChild node ≠ 0 then t.emitFrom base fuel (t.firstChild node) node s
      else blDtAddToken t.structureSize base 2 s >>= fun s =>
        t.emitFrom base fuel (t.nodes node).parent node s) := by
  rw [DeviceTree.emitFrom, if_neg hnode, if_pos hparent]

theorem emitFrom_back {fuel node previous : Nat} {s : Emitted} (hnode : node ≠ 0)
    (hparent : previous ≠ (t.nodes node).parent) :
    t.emitFrom base (fuel + 1) node previous s =
      if t.nextChild previous ≠ 0 then t.emitFrom base fuel (t.nextChild previous) node s
      else blDtAddToken t.structureSize base 2 s >>= fun s =>
        t.emitFrom base fuel (t.nodes node).parent node s := by
  rw [DeviceTree.emitFrom, if_neg hnode, if_neg hparent]

/-- From the first of the nodes that are left below a node to the end of that node. -/
theorem IsTree.emitFrom_forest (h : IsTree t log) (hids : Identified t es offset)
    (hnamed : ∀ n, log.Known n → ∀ p ∈ (t.nodes (t.orRoot n)).props, p.name ∈ es)
    (hsize : t.structureSize < 4294967296) {f : Forest Nat} {p : Nat} {before ns : List Nat}
    (hp : log.Known p) (hchildren : log.children p = before ++ ns) (hns : ns ≠ [])
    (hf : log.Below ns f)
    (hroom : bytes.length + (encode offset (f.map log.label)).length + 4 ≤ t.structureSize)
    (fuel : Nat) :
    t.emitFrom base (fuel + 2 * f.size) (ns.headD 0) (t.orRoot p) (emitted m base bytes) =
      t.emitFrom base fuel (t.nodes (t.orRoot p)).parent (t.orRoot p)
        (emitted m base (bytes ++ encode offset (f.map log.label) ++ be32 2)) := by
  induction f generalizing p before ns bytes fuel with
  | nil =>
    cases hf
    exact absurd rfl hns
  | node n c s ihc ihs =>
    cases hf with
    | @node _ ns _ _ hc hs =>
    have hn : n ∈ log.children p := by
      rw [hchildren]
      exact List.mem_append_right _ List.mem_cons_self
    have hnode : n ∈ log.nodes := (DtLog.children_sublist p).subset hn
    have hself := h.orRoot_created hnode
    obtain ⟨name, hcreated⟩ := DtLog.mem_children.mp hn
    have hparent : (t.nodes n).parent = t.orRoot p := (h.node n p name hcreated).1
    have htext := h.text_eq (.inr hnode)
    have hprops := h.props_eq (.inr hnode)
    have hnames := hnamed n (.inr hnode)
    have hfirst := h.firstChild_eq (.inr hnode)
    rw [hself] at htext hprops hnames hfirst
    have hnext := h.nextChild_eq hp hchildren
    -- the node's own part, and those of the nodes below and beside it
    obtain ⟨own, hown⟩ : ∃ own, be32 1 ++ padded (t.nodes n).text.chars ++ encodeProps offset
        ((t.nodes n).props.map fun p => ((t.strings p.name).text.bytes, p.bytes)) = own := ⟨_, rfl⟩
    have hsplit : encode offset ((Forest.node n c s).map log.label) =
        own ++ encode offset (c.map log.label) ++ be32 2 ++ encode offset (s.map log.label) := by
      rw [← hown, hprops, htext]
      rfl
    have hlength : own.length = 4 + roundUp (t.nodes n).text.room +
        ((t.nodes n).props.map fun p => 12 + roundUp p.bytes.length).sum := by
      rw [← hown, List.length_append, List.length_append, length_be32, length_padded_eq,
        CString.length_chars, length_encodeProps, List.map_map]
      rfl
    rw [hsplit] at hroom ⊢
    simp only [List.length_append, length_be32] at hroom
    have hemit : t.emitNode base n (emitted m base bytes) = .ok (emitted m base (bytes ++ own)) := by
      rw [← hown]
      exact emitNode_eq hids hnames hsize (by omega)
    -- on the way back from the node
    have hback : ∀ fuel, t.emitFrom base (fuel + 1 + 2 * s.size) (t.orRoot p) n
        (emitted m base (bytes ++ own ++ encode offset (c.map log.label) ++ be32 2)) =
        t.emitFrom base fuel (t.nodes (t.orRoot p)).parent (t.orRoot p) (emitted m base (bytes ++
          (own ++ encode offset (c.map log.label) ++ be32 2 ++ encode offset (s.map log.label)) ++
            be32 2)) := by
      intro fuel
      rw [Nat.add_right_comm, emitFrom_back h.orRoot_ne (h.child_ne_parent hn), hnext]
      cases ns with
      | nil =>
        cases hs
        rw [List.headD_nil, if_neg fun hne => hne rfl,
          blDtAddToken_eq (by decide) hsize (by simp only [List.length_append, length_be32]; omega)]
        show t.emitFrom base fuel _ _ (emitted m base _) = _
        simp only [Forest.map, encode, List.append_assoc, List.append_nil]
      | cons n' ns =>
        have hn' : n' ≠ 0 := h.child_ne (p := p) (by rw [hchildren]; simp)
        rw [List.headD_cons, if_pos hn']
        have hchildren' : log.children p = (before ++ [n]) ++ (n' :: ns) := by
          rw [hchildren, List.append_assoc]
          rfl
        have ih := @ihs (bytes ++ own ++ encode offset (c.map log.label) ++ be32 2) p (before ++ [n])
          (n' :: ns) hp hchildren' (List.cons_ne_nil _ _) hs
          (by simp only [List.length_append, length_be32]; omega) fuel
        rw [List.headD_cons] at ih
        rw [ih]
        simp only [List.append_assoc]
    have hfuel : fuel + 2 * (Forest.node n c s).size = (fuel + 1 + 2 * s.size) + 2 * c.size + 1 := by
      rw [Forest.size]
      omega
    rw [hfuel, List.headD_cons, emitFrom_enter (h.child_ne hn) hparent.symm, hemit]
    show (if t.firstChild n ≠ 0 then _ else _) = _
    rw [hfirst]
    by_cases hnone : log.children n = []
    · rw [hnone] at hc ⊢
      cases hc
      rw [List.headD_nil, if_neg fun hne => hne rfl,
        blDtAddToken_eq (by decide) hsize (by simp only [List.length_append]; omega)]
      show t.emitFrom base _ (t.nodes n).parent n (emitted m base _) = _
      rw [hparent, ← hback fuel]
      simp only [Forest.map, encode, List.append_nil]
      rfl
    · have hhead : (log.children n).headD 0 ≠ 0 := by
        cases hcs : log.children n with
        | nil => exact absurd hcs hnone
        | cons c' cs => exact h.child_ne (p := n) (by rw [hcs]; exact List.mem_cons_self)
      rw [if_pos hhead]
      have ih := @ihc (bytes ++ own) n [] (log.children n) (.inr hnode) rfl hnone hc
        (by simp only [List.length_append]; omega) (fuel + 1 + 2 * s.size)
      rw [hself, hparent] at ih
      rw [ih, ← hback fuel]

end

/-! ## The sizes -/

section
variable {log : DtLog}

/-- What a node and its properties take. -/
def labelRoom (label : Label) : Nat :=
  8 + roundUp (label.1.length + 1) + (label.2.map fun p => 12 + roundUp p.2.length).sum

theorem length_encode_map (offset : Bytes → Nat) (f : Forest Nat) (label : Nat → Label) :
    (encode offset (f.map label)).length = (f.toList.map fun n => labelRoom (label n)).sum := by
  induction f with
  | nil => rfl
  | node n c s ihc ihs =>
    have hname : (padded ((label n).1 ++ [0])).length = roundUp ((label n).1.length + 1) := by
      rw [length_padded_eq, List.length_append, List.length_singleton]
    rw [Forest.toList, List.map_cons, List.map_append, List.sum_cons, List.sum_append, ← ihc, ← ihs,
      labelRoom, Forest.map]
    simp only [encode, List.length_append, length_be32, hname, length_encodeProps]
    omega

theorem sum_map_ite {l : List Nat} (hl : l.Nodup) {a : Nat} (ha : a ∈ l) (c : Nat) (f : Nat → Nat) :
    (l.map fun n => if a = n then c + f n else f n).sum = c + (l.map f).sum := by
  induction l with
  | nil => cases ha
  | cons b l ih =>
    obtain ⟨hb, hl⟩ := List.nodup_cons.mp hl
    rw [List.map_cons, List.map_cons, List.sum_cons, List.sum_cons]
    by_cases hab : a = b
    · subst hab
      have hrest : (l.map fun n => if a = n then c + f n else f n) = l.map f := by
        refine List.map_congr_left fun n hn => if_neg ?_
        rintro rfl
        exact hb hn
      rw [if_pos rfl, hrest]
      omega
    · have ih := ih hl ((List.mem_cons.mp ha).resolve_left hab)
      rw [if_neg hab, ih]
      omega

/-- The properties of all nodes are those that have been added. -/
theorem sum_properties {l : List Nat} (hl : l.Nodup)
    (howner : ∀ p name bytes, .property p name bytes ∈ log → p ∈ l) :
    (l.map fun n => ((log.properties n).map fun p => 12 + roundUp p.2.length).sum).sum =
      (log.map fun event => match event with
        | .property _ _ bytes => 12 + roundUp bytes.length
        | _ => 0).sum := by
  induction log with
  | nil => simp [DtLog.properties]
  | cons event log ih =>
    have ih := ih fun p name bytes hmem => howner p name bytes (List.mem_cons_of_mem event hmem)
    rw [List.map_cons, List.sum_cons, ← ih]
    cases event with
    | property p name bytes =>
      rw [← sum_map_ite hl (howner p name bytes List.mem_cons_self)]
      congr 1
      refine List.map_congr_left fun n _ => ?_
      by_cases hpn : p = n
      · rw [if_pos hpn]
        simp [DtLog.properties, hpn]
      · rw [if_neg hpn]
        simp [DtLog.properties, hpn]
    | created => simp [DtLog.properties]
    | reserved => simp [DtLog.properties]

/-- The names of all nodes are those that they have been created with. -/
theorem sum_names {names : Nat → CString}
    (hnames : ∀ n p name, .created n p name ∈ log → names n = name) :
    (log.nodes.map fun n => 8 + roundUp (names n).room).sum =
      (log.map fun event => match event with
        | .created _ _ name => 8 + roundUp name.room
        | _ => 0).sum := by
  induction log with
  | nil => rfl
  | cons event log ih =>
    have ih := ih fun n p name hmem => hnames n p name (List.mem_cons_of_mem event hmem)
    rw [List.map_cons, List.sum_cons, ← ih]
    cases event with
    | created n p name =>
      have hname := hnames n p name List.mem_cons_self
      simp [DtLog.nodes, hname]
    | property => simp [DtLog.nodes]
    | reserved => simp [DtLog.nodes]

theorem room_split : log.room =
    (log.map fun event => match event with
      | .created _ _ name => 8 + roundUp name.room
      | _ => 0).sum +
    (log.map fun event => match event with
      | .property _ _ bytes => 12 + roundUp bytes.length
      | _ => 0).sum := by
  induction log with
  | nil => rfl
  | cons event log ih =>
    unfold DtLog.room at ih ⊢
    rw [List.map_cons, List.map_cons, List.map_cons, List.sum_cons, List.sum_cons, List.sum_cons, ih]
    cases event <;> simp only [DtEvent.room] <;> omega

/-- The tree takes what the calls have added up. -/
theorem IsTree.length_encode (h : IsTree t log) (offset : Bytes → Nat) :
    (encode offset log.deviceTree).length = 12 + log.room := by
  obtain ⟨-, hperm⟩ := h.ordered.forest
  have hnodup : (0 :: log.nodes).Nodup :=
    List.nodup_cons.mpr ⟨fun h0 => h.ordered.nonzero 0 h0 rfl, h.nodup⟩
  have hprops := sum_properties hnodup fun p name bytes hmem =>
    (h.owner p name bytes hmem).elim (fun h0 => h0 ▸ List.mem_cons_self) (List.mem_cons_of_mem 0)
  have hnames := @sum_names log log.nameOf fun n p name hmem => DtLog.nameOf_created h.nodup hmem
  have hlabel : ∀ n, labelRoom (log.label n) = 8 + roundUp (log.nameOf n).room +
      ((log.properties n).map fun p => 12 + roundUp p.2.length).sum := by
    intro n
    rw [labelRoom, DtLog.label, List.map_map]
    rfl
  have hroot : roundUp (log.nameOf 0).room = 4 := by
    rw [DtLog.nameOf_unknown fun h0 => h.ordered.nonzero 0 h0 rfl]
    decide
  have hsum : (log.nodes.map fun n => labelRoom (log.label n)).sum =
      (log.nodes.map fun n => 8 + roundUp (log.nameOf n).room).sum +
        (log.nodes.map fun n => ((log.properties n).map fun p => 12 + roundUp p.2.length).sum).sum := by
    rw [← List.sum_map_add]
    congr 1
    exact List.map_congr_left fun n _ => hlabel n
  rw [DtLog.deviceTree, length_encode_map, (hperm.map _).sum_eq, List.map_cons,
    List.sum_cons, hsum, hnames, hlabel, hroot, room_split, ← hprops, List.map_cons, List.sum_cons]
  omega

/-- The structure block. -/
theorem IsTree.emitStructure_eq (h : IsTree t log) (hids : Identified t es offset)
    (hnamed : ∀ n, log.Known n → ∀ p ∈ (t.nodes (t.orRoot n)).props, p.name ∈ es)
    (hsize : t.structureSize < 4294967296) (hroom : t.structureSize = 16 + log.room)
    (hcount : 80 * log.nodes.length < 4294967296) (mem : ByteMemory) :
    t.emitStructure base mem = .ok (storeBytes mem base (encode offset log.deviceTree ++ be32 9)) := by
  have hlength := h.length_encode offset
  obtain ⟨hbelow, hperm⟩ := h.ordered.forest
  obtain ⟨f, hf⟩ : ∃ f, log.forest = f := ⟨_, rfl⟩
  have hcounted : f.size = log.nodes.length + 1 := by
    rw [← Forest.length_toList, ← hf, hperm.length_eq, List.length_cons]
  rw [DtLog.deviceTree] at hlength ⊢
  rw [hf] at hbelow hlength ⊢
  have hknown : log.Known 0 := .inl rfl
  have hself : t.orRoot 0 = t.root := if_neg fun hne => hne rfl
  have hparent : (t.nodes t.root).parent = 0 := h.root.1
  have hroot : t.root ≠ 0 := h.root_ne
  have htext := h.text_eq hknown
  have hprops := h.props_eq hknown
  have hnames := hnamed 0 hknown
  have hfirst := h.firstChild_eq hknown
  rw [hself] at htext hprops hnames hfirst
  cases hbelow with
  | @node _ _ c _ hc hs =>
  cases hs
  obtain ⟨own, hown⟩ : ∃ own, be32 1 ++ padded (t.nodes t.root).text.chars ++ encodeProps offset
      ((t.nodes t.root).props.map fun p => ((t.strings p.name).text.bytes, p.bytes)) = own := ⟨_, rfl⟩
  have hsplit : encode offset ((Forest.node 0 c .nil).map log.label) =
      own ++ encode offset (c.map log.label) ++ be32 2 := by
    rw [← hown, hprops, htext]
    exact List.append_nil _
  have hownLength : own.length = 4 + roundUp (t.nodes t.root).text.room +
      ((t.nodes t.root).props.map fun p => 12 + roundUp p.bytes.length).sum := by
    rw [← hown, List.length_append, List.length_append, length_be32, length_padded_eq,
      CString.length_chars, length_encodeProps, List.map_map]
    rfl
  rw [hsplit] at hlength ⊢
  simp only [List.length_append, length_be32] at hlength
  have hemit : t.emitNode base t.root (emitted mem base []) = .ok (emitted mem base ([] ++ own)) := by
    rw [← hown]
    exact emitNode_eq hids hnames hsize (by rw [List.length_nil]; omega)
  have hstart : (⟨mem, 0⟩ : Emitted) = emitted mem base [] := by
    rw [emitted, storeBytes_nil]
    rfl
  have hloop : t.emitFrom base rounds t.root 0 (emitted mem base []) =
      .ok (emitted mem base (own ++ encode offset (c.map log.label) ++ be32 2)) := by
    obtain ⟨fuel, hfuel⟩ : ∃ fuel, rounds = fuel + 1 + 2 * c.size + 1 := by
      rw [Forest.size, Forest.size] at hcounted
      exact ⟨rounds - 2 * c.size - 2, by simp only [rounds]; omega⟩
    rw [hfuel, emitFrom_enter hroot hparent.symm, hemit]
    show (if t.firstChild t.root ≠ 0 then _ else _) = _
    rw [hfirst]
    by_cases hnone : log.children 0 = []
    · rw [hnone] at hc ⊢
      cases hc
      rw [List.headD_nil, if_neg fun hne => hne rfl, List.nil_append,
        blDtAddToken_eq (by decide) hsize (by omega)]
      show t.emitFrom base _ (t.nodes t.root).parent t.root (emitted mem base _) = _
      rw [hparent]
      exact congrArg (fun bytes => Except.ok (emitted mem base (bytes ++ be32 2))) (List.append_nil own).symm
    · have hhead : (log.children 0).headD 0 ≠ 0 := by
        cases hcs : log.children 0 with
        | nil => exact absurd hcs hnone
        | cons c' cs => exact h.child_ne (p := 0) (by rw [hcs]; exact List.mem_cons_self)
      have hwalk := @IsTree.emitFrom_forest base mem ([] ++ own) t es offset log h hids hnamed hsize c 0 []
        (log.children 0) hknown rfl hnone hc (by rw [List.nil_append]; omega) (fuel + 1)
      rw [hself, hparent] at hwalk
      rw [if_pos hhead, hwalk]
      rfl
  unfold DeviceTree.emitStructure
  rw [hstart, hloop]
  show (blDtAddToken _ _ _ (emitted mem base _) >>= _) = _
  rw [blDtAddToken_eq (by decide) hsize (by simp only [List.length_append, length_be32]; omega)]
  refine (if_neg fun hne => hne ?_).trans rfl
  show List.length _ = _
  simp only [List.length_append, length_be32]
  omega

end

end

end XrLinux.Bootloader
