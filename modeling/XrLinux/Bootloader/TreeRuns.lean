import XrLinux.Bootloader.Interning

/-!
# Bootloader — device trees that are built

The calls that build a device tree, in any order, with what they return. A log of them says which
tree has been built, and `IsTree` that the nodes and lists in memory are that tree.
-/

namespace XrLinux.Bootloader

open ByteMemory LinkedList

/-! ## The log -/

/-- A call that has returned. The root is the node 0. -/
inductive DtEvent where
  /-- `BlDtCreateNode`, which has returned `node`. -/
  | created (node parent : Nat) (name : CString)
  /-- `BlDtDoAddProperty`. -/
  | property (parent : Nat) (name : CString) (bytes : List (BitVec 8))
  /-- `BlDtAddReservedMemory`. -/
  | reserved (base size : Nat)

/-- The calls, the first one first. -/
abbrev DtLog := List DtEvent

namespace DtLog

/-- The nodes that have been created. -/
def nodes (log : DtLog) : List Nat :=
  log.filterMap fun
    | .created node _ _ => some node
    | _ => none

/-- The children of a node, in the order of their creation. -/
def children (log : DtLog) (parent : Nat) : List Nat :=
  log.filterMap fun
    | .created node p _ => if p = parent then some node else none
    | _ => none

/-- The properties of a node, in their order. -/
def properties (log : DtLog) (parent : Nat) : List (CString × List (BitVec 8)) :=
  log.filterMap fun
    | .property p name bytes => if p = parent then some (name, bytes) else none
    | _ => none

/-- The names of all properties. -/
def propertyNames (log : DtLog) : List CString :=
  log.filterMap fun
    | .property _ name _ => some name
    | _ => none

/-- The reserved memory. -/
def reservations (log : DtLog) : List (Nat × Nat) :=
  log.filterMap fun
    | .reserved base size => some (base, size)
    | _ => none

/-- The root, or a node that has been created. -/
def Known (log : DtLog) (node : Nat) : Prop := node = 0 ∨ node ∈ log.nodes

end DtLog

/-- What it takes of the structure block. -/
def DtEvent.room : DtEvent → Nat
  | .created _ _ name => 8 + roundUp name.room
  | .property _ _ bytes => 12 + roundUp bytes.length
  | .reserved _ _ => 0

def DtLog.room (log : DtLog) : Nat := (log.map DtEvent.room).sum

/-! ## Runs -/

/-- What a caller has in memory is not the whole of the address space. -/
def FitsInMemory (length : Nat) : Prop := length + 28 < 4294967296

/-- What is known of the tree is as it was, and its blocks are still out. -/
structure SameTree (t u : DeviceTree) : Prop extends SameTable t u where
  root : u.root = t.root
  rsvMem : u.rsvMem = t.rsvMem
  rsvEntries : u.rsvEntries = t.rsvEntries
  nodes : u.nodes = t.nodes
  structureSize : u.structureSize = t.structureSize
  serves : ∀ statics blocks, t.world.Serves statics blocks → u.world.Serves statics blocks

/-- The tree is built by calls that return, one after the other, for nodes that there are. In between
there can be allocations by others. -/
inductive Builds (t₀ : DeviceTree) : DtLog → DeviceTree → Prop where
  | start : Builds t₀ [] t₀
  | create {log : DtLog} {t u : DeviceTree} {parent node : Nat} {name : CString}
      (h : Builds t₀ log t) (hparent : log.Known parent)
      (hcall : t.blDtCreateNode parent name = .ok (u, node)) :
      Builds t₀ (log ++ [.created node parent name]) u
  | property {log : DtLog} {t u : DeviceTree} {parent : Nat} {name : CString}
      {data : List (BitVec 8)} (h : Builds t₀ log t) (hparent : log.Known parent)
      (hfits : FitsInMemory data.length)
      (hcall : t.blDtAddProperty parent name data = .ok u) :
      Builds t₀ (log ++ [.property parent name data]) u
  | propertyU32s {log : DtLog} {t u : DeviceTree} {parent : Nat} {name : CString}
      {data : List Nat} (h : Builds t₀ log t) (hparent : log.Known parent)
      (hfits : FitsInMemory (data.length * 4))
      (hcall : t.blDtAddPropertyU32s parent name data = .ok u) :
      Builds t₀ (log ++ [.property parent name (data.flatMap fun v => wordBytes (blSwap32 v))]) u
  | propertyStrings {log : DtLog} {t u : DeviceTree} {parent : Nat} {name : CString}
      {data : List CString} (h : Builds t₀ log t) (hparent : log.Known parent)
      (hfits : FitsInMemory (data.map CString.room).sum)
      (hcall : t.blDtAddPropertyStrings parent name data = .ok u) :
      Builds t₀ (log ++ [.property parent name (data.flatMap CString.chars)]) u
  | reserve {log : DtLog} {t u : DeviceTree} {base size : Nat} (h : Builds t₀ log t)
      (hcall : t.blDtAddReservedMemory base size = .ok u) :
      Builds t₀ (log ++ [.reserved base size]) u
  | elsewhere {log : DtLog} {t u : DeviceTree} (h : Builds t₀ log t) (hsame : SameTree t u) :
      Builds t₀ log u

/-! ## The tree in memory -/

/-- The nodes and their lists are the tree of the log. -/
structure IsTree (t : DeviceTree) (log : DtLog) : Prop where
  root_ne : t.root ≠ 0
  nodup : log.nodes.Nodup
  apart : ∀ n ∈ log.nodes, nodeOffset < n ∧ n ≠ t.root
  known : ∀ before n p name after, log = before ++ .created n p name :: after →
    DtLog.Known before p
  owner : ∀ p name bytes, .property p name bytes ∈ log → log.Known p
  root : (t.nodes t.root).parent = 0 ∧ (t.nodes t.root).text = .empty
  node : ∀ n p name, .created n p name ∈ log →
    (t.nodes n).parent = t.orRoot p ∧ (t.nodes n).text = name
  children : ∀ n, log.Known n →
    Lists treeNode t.nodes (t.nodes (t.orRoot n)).children ((log.children n).map (· + nodeOffset))
  props : ∀ n, log.Known n → ((t.nodes (t.orRoot n)).props.map fun p =>
    ((t.strings p.name).text, p.bytes)) = log.properties n

/-! ### Lists of children -/

/-- The nodes have kept all but their links. -/
structure SameNodes (m m' : Nat → DtNode) : Prop where
  parent : ∀ x, (m' x).parent = (m x).parent
  name : ∀ x, (m' x).name = (m x).name
  text : ∀ x, (m' x).text = (m x).text
  children : ∀ x, (m' x).children = (m x).children
  properties : ∀ x, (m' x).properties = (m x).properties
  props : ∀ x, (m' x).props = (m x).props

theorem SameNodes.trans {m m' m'' : Nat → DtNode} (h : SameNodes m m') (h' : SameNodes m' m'') :
    SameNodes m m'' where
  parent x := (h'.parent x).trans (h.parent x)
  name x := (h'.name x).trans (h.name x)
  text x := (h'.text x).trans (h.text x)
  children x := (h'.children x).trans (h.children x)
  properties x := (h'.properties x).trans (h.properties x)
  props x := (h'.props x).trans (h.props x)

/-- A node that is only linked anew. -/
theorem sameNodes_update (m : Nat → DtNode) (a : Nat) (prev next : Nat) :
    SameNodes m (Function.update m a { m a with prev, next }) := by
  refine ⟨fun x => ?_, fun x => ?_, fun x => ?_, fun x => ?_, fun x => ?_, fun x => ?_⟩ <;>
  · by_cases hx : x = a
    · rw [hx, Function.update_self]
    · rw [Function.update_of_ne hx]

theorem sameNodes_setPrev (m : Nat → DtNode) (a v : Nat) : SameNodes m (treeNode.setPrev m a v) :=
  sameNodes_update m (a - nodeOffset) v _

theorem sameNodes_setNext (m : Nat → DtNode) (a v : Nat) : SameNodes m (treeNode.setNext m a v) :=
  sameNodes_update m (a - nodeOffset) _ v

theorem treeNode_lawful : treeNode.Lawful (nodeOffset ≤ ·) where
  prev_setPrev := by
    intro s a b v ha hb _
    by_cases heq : b = a
    · subst heq
      simp [treeNode]
    · have hne : b - nodeOffset ≠ a - nodeOffset := by omega
      simp [treeNode, heq, hne]
  next_setPrev := by
    intro s a b v ha hb
    by_cases heq : b - nodeOffset = a - nodeOffset
    · simp [treeNode, heq]
    · simp [treeNode, heq]
  next_setNext := by
    intro s a b v ha hb _
    by_cases heq : b = a
    · subst heq
      simp [treeNode]
    · have hne : b - nodeOffset ≠ a - nodeOffset := by omega
      simp [treeNode, heq, hne]
  prev_setNext := by
    intro s a b v ha hb
    by_cases heq : b - nodeOffset = a - nodeOffset
    · simp [treeNode, heq]
    · simp [treeNode, heq]

theorem sameNodes_insertBefore (m : Nat → DtNode) (list : BlList) (anchor node : Nat) :
    SameNodes m (blListInsertBefore treeNode m list anchor node).1 := by
  have hprev := sameNodes_setPrev
  have hnext := sameNodes_setNext
  unfold blListInsertBefore
  dsimp only
  split_ifs
  · exact ((hnext ..).trans ((hprev ..).trans (hprev ..))).trans (hnext ..)
  · exact (hnext ..).trans ((hprev ..).trans (hprev ..))
  · exact ((hnext ..).trans (hprev ..)).trans (hnext ..)
  · exact (hnext ..).trans (hprev ..)

/-- At the end of a list. -/
theorem Lists.insertLast {m : Nat → DtNode} {list : BlList} {xs : List Nat} {n : Nat}
    (h : Lists treeNode m list xs) (hn : n ∉ xs) (hoffset : ∀ a ∈ n :: xs, nodeOffset ≤ a)
    {r : (Nat → DtNode) × BlList} (hr : blListInsertBefore treeNode m list 0 n = r) :
    Lists treeNode r.1 r.2 (xs ++ [n]) ∧ SameNodes m r.1 ∧
      ∀ b, nodeOffset ≤ b → b ∉ xs → b ≠ n →
        treeNode.next r.1 b = treeNode.next m b ∧ treeNode.prev r.1 b = treeNode.prev m b := by
  subst hr
  have hne : ∀ b, nodeOffset ≤ b → b ≠ 0 := by
    intro b hb
    have : 0 < nodeOffset := by decide
    omega
  have hn0 := hne n (hoffset n List.mem_cons_self)
  have h' : Lists treeNode m list (xs ++ []) := by rwa [List.append_nil]
  have hn' : n ∉ xs ++ [] := by rwa [List.append_nil]
  have hoffset' : ∀ a ∈ n :: (xs ++ []), nodeOffset ≤ a := by rwa [List.append_nil]
  refine ⟨Lists.insertBefore treeNode_lawful hoffset' h' hn0 hn', sameNodes_insertBefore .., ?_⟩
  intro b hb hbxs hbn
  obtain ⟨hp, hq, hpn, hqn⟩ := neighbours_of_notMem hoffset' hn0 hn'
  have hlinked := blListInsertBefore_linked treeNode_lawful (hoffset n List.mem_cons_self) hp hq hpn
    hqn h'.getLastD_eq
  have hlast : b ≠ xs.getLastD 0 := by
    rintro rfl
    by_cases hnil : xs = []
    · exact hne _ hb (by rw [hnil]; rfl)
    · exact hbxs (getLastD_mem hnil 0)
  have hnext := hlinked.next_eq b hb (hne b hb)
  have hprev := hlinked.prev_eq b hb (hne b hb)
  rw [if_neg hbn, if_neg hlast] at hnext
  have hfirst : b ≠ ([] : List Nat).headD 0 := hne b hb
  rw [if_neg hbn, if_neg hfirst] at hprev
  exact ⟨hnext, hprev⟩

/-! ### The log, call by call -/

namespace DtLog

variable (log : DtLog) (node parent n : Nat) (name : CString) (bytes : List (BitVec 8))

@[simp] theorem nodes_created :
    DtLog.nodes (log ++ [.created node parent name]) = log.nodes ++ [node] := by
  simp [DtLog.nodes]

@[simp] theorem nodes_property :
    DtLog.nodes (log ++ [.property parent name bytes]) = log.nodes := by
  simp [DtLog.nodes]

@[simp] theorem nodes_reserved (base size : Nat) :
    DtLog.nodes (log ++ [.reserved base size]) = log.nodes := by
  simp [DtLog.nodes]

@[simp] theorem children_created :
    DtLog.children (log ++ [.created node parent name]) n =
      log.children n ++ if parent = n then [node] else [] := by
  by_cases hn : parent = n <;> simp [DtLog.children, hn]

@[simp] theorem children_property :
    DtLog.children (log ++ [.property parent name bytes]) n = log.children n := by
  simp [DtLog.children]

@[simp] theorem children_reserved (base size : Nat) :
    DtLog.children (log ++ [.reserved base size]) n = log.children n := by
  simp [DtLog.children]

@[simp] theorem properties_created :
    DtLog.properties (log ++ [.created node parent name]) n = log.properties n := by
  simp [DtLog.properties]

@[simp] theorem properties_property :
    DtLog.properties (log ++ [.property parent name bytes]) n =
      log.properties n ++ if parent = n then [(name, bytes)] else [] := by
  by_cases hn : parent = n <;> simp [DtLog.properties, hn]

@[simp] theorem properties_reserved (base size : Nat) :
    DtLog.properties (log ++ [.reserved base size]) n = log.properties n := by
  simp [DtLog.properties]

@[simp] theorem propertyNames_created :
    DtLog.propertyNames (log ++ [.created node parent name]) = log.propertyNames := by
  simp [DtLog.propertyNames]

@[simp] theorem propertyNames_property :
    DtLog.propertyNames (log ++ [.property parent name bytes]) = log.propertyNames ++ [name] := by
  simp [DtLog.propertyNames]

@[simp] theorem propertyNames_reserved (base size : Nat) :
    DtLog.propertyNames (log ++ [.reserved base size]) = log.propertyNames := by
  simp [DtLog.propertyNames]

@[simp] theorem reservations_created :
    DtLog.reservations (log ++ [.created node parent name]) = log.reservations := by
  simp [DtLog.reservations]

@[simp] theorem reservations_property :
    DtLog.reservations (log ++ [.property parent name bytes]) = log.reservations := by
  simp [DtLog.reservations]

@[simp] theorem reservations_reserved (base size : Nat) :
    DtLog.reservations (log ++ [.reserved base size]) = log.reservations ++ [(base, size)] := by
  simp [DtLog.reservations]

variable {log node parent n name bytes}

theorem mem_propertyNames : name ∈ log.propertyNames ↔ ∃ p bytes, .property p name bytes ∈ log := by
  unfold DtLog.propertyNames
  rw [List.mem_filterMap]
  constructor
  · rintro ⟨event, hmem, heq⟩
    cases event with
    | property p name bytes =>
      cases heq
      exact ⟨p, bytes, hmem⟩
    | created => cases heq
    | reserved => cases heq
  · rintro ⟨p, bytes, hmem⟩
    exact ⟨_, hmem, rfl⟩

theorem mem_nodes : n ∈ log.nodes ↔ ∃ p name, .created n p name ∈ log := by
  unfold DtLog.nodes
  rw [List.mem_filterMap]
  constructor
  · rintro ⟨event, hmem, heq⟩
    cases event with
    | created node p name =>
      cases heq
      exact ⟨p, name, hmem⟩
    | property => cases heq
    | reserved => cases heq
  · rintro ⟨p, name, hmem⟩
    exact ⟨_, hmem, rfl⟩

theorem mem_children : n ∈ log.children parent ↔ ∃ name, .created n parent name ∈ log := by
  unfold DtLog.children
  rw [List.mem_filterMap]
  constructor
  · rintro ⟨event, hmem, heq⟩
    cases event with
    | created node p name =>
      dsimp only at heq
      split_ifs at heq with hp
      cases heq
      subst hp
      exact ⟨name, hmem⟩
    | property => cases heq
    | reserved => cases heq
  · rintro ⟨name, hmem⟩
    exact ⟨_, hmem, if_pos rfl⟩

theorem children_sublist (parent : Nat) : (log.children parent).Sublist log.nodes := by
  induction log with
  | nil => exact List.Sublist.slnil
  | cons event log ih =>
    cases event with
    | created node p name =>
      by_cases hp : p = parent
      · simpa [DtLog.children, DtLog.nodes, hp] using ih
      · simpa [DtLog.children, DtLog.nodes, hp] using ih.cons node
    | property => simpa [DtLog.children, DtLog.nodes] using ih
    | reserved => simpa [DtLog.children, DtLog.nodes] using ih

/-- A node has been created once. -/
theorem created_unique (hnodup : log.nodes.Nodup) {p p' : Nat} {name' : CString}
    (h : .created n p name ∈ log) (h' : .created n p' name' ∈ log) : p = p' ∧ name = name' := by
  induction log with
  | nil => cases h
  | cons event log ih =>
    have hrest : (DtLog.nodes log).Nodup :=
      hnodup.sublist (by cases event <;> simp [DtLog.nodes])
    rcases List.mem_cons.mp h with heq | hmem <;> rcases List.mem_cons.mp h' with heq' | hmem'
    · rw [← heq] at heq'
      cases heq'
      exact ⟨rfl, rfl⟩
    · -- it would be there twice
      have hin : n ∈ DtLog.nodes log := mem_nodes.mpr ⟨_, _, hmem'⟩
      rw [← heq] at hnodup
      exact absurd hin (List.nodup_cons.mp hnodup).1
    · have hin : n ∈ DtLog.nodes log := mem_nodes.mpr ⟨_, _, hmem⟩
      rw [← heq'] at hnodup
      exact absurd hin (List.nodup_cons.mp hnodup).1
    · exact ih hrest hmem hmem'

theorem Known.append (h : log.Known n) (more : DtLog) : DtLog.Known (log ++ more) n := by
  refine h.imp_right fun hmem => ?_
  unfold DtLog.nodes
  rw [List.filterMap_append]
  exact List.mem_append_left _ hmem

end DtLog

/-! ### The calls -/

section
variable {t u : DeviceTree} {log : DtLog} {node parent : Nat} {name : CString}

theorem IsTree.orRoot_ne (h : IsTree t log) {n : Nat} : t.orRoot n ≠ 0 := by
  unfold DeviceTree.orRoot
  split_ifs with hn
  · exact hn
  · exact h.root_ne

/-- Different nodes have different objects. -/
theorem IsTree.orRoot_inj (h : IsTree t log) {m n : Nat} (hm : log.Known m) (hn : log.Known n) :
    t.orRoot m = t.orRoot n ↔ m = n := by
  refine ⟨fun heq => ?_, fun heq => by rw [heq]⟩
  unfold DeviceTree.orRoot at heq
  split_ifs at heq with hm0 hn0 hn0
  · exact heq
  · exact absurd heq (h.apart m (hm.resolve_left hm0)).2
  · exact absurd heq.symm (h.apart n (hn.resolve_left hn0)).2
  · omega

theorem IsTree.orRoot_created (h : IsTree t log) {n : Nat} (hn : n ∈ log.nodes) : t.orRoot n = n :=
  if_pos (Nat.ne_of_gt (Nat.zero_lt_of_lt (h.apart n hn).1))

/-- What `BlDtCreateNode` makes of the nodes. -/
def createdNodes (m : Nat → DtNode) (node parent nameAt : Nat) (name : CString) : Nat → DtNode :=
  let m := Function.update m node
    { m node with parent, name := nameAt, text := name, children := .init, properties := 0, props := [] }
  let r := blListInsertBefore treeNode m (m parent).children 0 (node + nodeOffset)
  Function.update r.1 parent { r.1 parent with children := r.2 }

/-- The nodes that there were have kept all but their links, and the parent has one child more. -/
structure IsCreated (m m' : Nat → DtNode) (node parent nameAt : Nat) (name : CString)
    (xs : List Nat) : Prop where
  parents : ∀ x, x ≠ node → (m' x).parent = (m x).parent
  names : ∀ x, x ≠ node → (m' x).name = (m x).name
  texts : ∀ x, x ≠ node → (m' x).text = (m x).text
  properties : ∀ x, x ≠ node → (m' x).properties = (m x).properties
  props : ∀ x, x ≠ node → (m' x).props = (m x).props
  children : ∀ x, x ≠ node → x ≠ parent → (m' x).children = (m x).children
  new : (m' node).parent = parent ∧ (m' node).name = nameAt ∧ (m' node).text = name ∧
    (m' node).children = .init ∧ (m' node).props = [] ∧ (m' node).properties = 0
  list : Lists treeNode m' (m' parent).children ((xs ++ [node]).map (· + nodeOffset))
  links : ∀ b, nodeOffset ≤ b → b ∉ xs.map (· + nodeOffset) → b ≠ node + nodeOffset →
    treeNode.next m' b = treeNode.next m b ∧ treeNode.prev m' b = treeNode.prev m b

/-- What a change of an object that is not to its links keeps of them. -/
theorem links_update {m : Nat → DtNode} {x : Nat} {object : DtNode}
    (hobject : object.prev = (m x).prev ∧ object.next = (m x).next) (b : Nat) :
    treeNode.next (Function.update m x object) b = treeNode.next m b ∧
      treeNode.prev (Function.update m x object) b = treeNode.prev m b := by
  by_cases hx : b - nodeOffset = x
  · simp [treeNode, hx, hobject]
  · simp [treeNode, hx]

theorem Lists.of_links {m m' : Nat → DtNode} {list : BlList} {xs : List Nat}
    (h : Lists treeNode m list xs)
    (hlinks : ∀ a ∈ xs, treeNode.next m' a = treeNode.next m a ∧
      treeNode.prev m' a = treeNode.prev m a) : Lists treeNode m' list xs :=
  h.congr (fun a ha => (hlinks a ha).2) fun a ha => (hlinks a ha).1

theorem isCreated_createdNodes {m : Nat → DtNode} {nameAt : Nat} {xs : List Nat}
    (hne : node ≠ parent) (hlist : Lists treeNode m (m parent).children (xs.map (· + nodeOffset)))
    (hnew : node ∉ xs) :
    IsCreated m (createdNodes m node parent nameAt name) node parent nameAt name xs := by
  obtain ⟨m₁, hm₁⟩ : ∃ m₁, Function.update m node { m node with
    parent, name := nameAt, text := name, children := .init, properties := 0, props := [] } = m₁ := ⟨_, rfl⟩
  have hself : m₁ node = { m node with
      parent, name := nameAt, text := name, children := .init, properties := 0, props := [] } := by
    rw [← hm₁]
    exact Function.update_self ..
  have hother : ∀ x, x ≠ node → m₁ x = m x := by
    intro x hx
    rw [← hm₁]
    exact Function.update_of_ne hx _ _
  have hlinks₁ : ∀ b, treeNode.next m₁ b = treeNode.next m b ∧
      treeNode.prev m₁ b = treeNode.prev m b := by
    rw [← hm₁]
    exact links_update ⟨rfl, rfl⟩
  have hlist₁ : Lists treeNode m₁ (m₁ parent).children (xs.map (· + nodeOffset)) := by
    rw [hother parent hne.symm]
    exact hlist.of_links fun a _ => hlinks₁ a
  have hnew' : node + nodeOffset ∉ xs.map (· + nodeOffset) := by
    intro hmem
    obtain ⟨x, hx, heq⟩ := List.mem_map.mp hmem
    have hsame : x = node := Nat.add_right_cancel heq
    exact hnew (hsame ▸ hx)
  have hoffset : ∀ a ∈ (node + nodeOffset) :: xs.map (· + nodeOffset), nodeOffset ≤ a := by
    intro a ha
    rcases List.mem_cons.mp ha with rfl | ha
    · exact Nat.le_add_left _ _
    · obtain ⟨x, -, rfl⟩ := List.mem_map.mp ha
      exact Nat.le_add_left _ _
  obtain ⟨r, hr⟩ : ∃ r, blListInsertBefore treeNode m₁ (m₁ parent).children 0 (node + nodeOffset) = r :=
    ⟨_, rfl⟩
  obtain ⟨hlast, hsame, hlinks⟩ := hlist₁.insertLast hnew' hoffset hr
  have hm' : createdNodes m node parent nameAt name =
      Function.update r.1 parent { r.1 parent with children := r.2 } := by
    rw [← hr, ← hm₁]
    rfl
  have hlinks₂ : ∀ b, treeNode.next (createdNodes m node parent nameAt name) b = treeNode.next r.1 b ∧
      treeNode.prev (createdNodes m node parent nameAt name) b = treeNode.prev r.1 b := by
    rw [hm']
    exact links_update ⟨rfl, rfl⟩
  -- of the parent's object too only the list is new
  have hrest : ∀ x, (createdNodes m node parent nameAt name x).parent = (m₁ x).parent ∧
      (createdNodes m node parent nameAt name x).name = (m₁ x).name ∧
      (createdNodes m node parent nameAt name x).text = (m₁ x).text ∧
      (createdNodes m node parent nameAt name x).properties = (m₁ x).properties ∧
      (createdNodes m node parent nameAt name x).props = (m₁ x).props := by
    intro x
    rw [← hsame.parent, ← hsame.name, ← hsame.text, ← hsame.properties, ← hsame.props, hm']
    by_cases hx : x = parent
    · rw [hx, Function.update_self]
      exact ⟨rfl, rfl, rfl, rfl, rfl⟩
    · rw [Function.update_of_ne hx]
      exact ⟨rfl, rfl, rfl, rfl, rfl⟩
  have hchildren : ∀ x, x ≠ parent →
      (createdNodes m node parent nameAt name x).children = (m₁ x).children := by
    intro x hx
    rw [hm', Function.update_of_ne hx, hsame.children]
  refine ⟨fun x hx => ?_, fun x hx => ?_, fun x hx => ?_, fun x hx => ?_, fun x hx => ?_,
    fun x hx hp => ?_, ?_, ?_, fun b hb hbxs hbn => ?_⟩
  · rw [(hrest x).1, hother x hx]
  · rw [(hrest x).2.1, hother x hx]
  · rw [(hrest x).2.2.1, hother x hx]
  · rw [(hrest x).2.2.2.1, hother x hx]
  · rw [(hrest x).2.2.2.2, hother x hx]
  · rw [hchildren x hp, hother x hx]
  · rw [(hrest node).1, (hrest node).2.1, (hrest node).2.2.1, (hrest node).2.2.2.1,
      (hrest node).2.2.2.2, hchildren node hne, hself]
    exact ⟨rfl, rfl, rfl, rfl, rfl, rfl⟩
  · rw [List.map_append, List.map_singleton]
    have hself' : (createdNodes m node parent nameAt name parent).children = r.2 := by
      rw [hm', Function.update_self]
    rw [hself']
    exact hlast.of_links fun a _ => hlinks₂ a
  · obtain ⟨hnext, hprev⟩ := hlinks b hb hbxs hbn
    rw [(hlinks₂ b).1, (hlinks₂ b).2, hnext, hprev, (hlinks₁ b).1, (hlinks₁ b).2]
    exact ⟨rfl, rfl⟩

theorem IsTree.parent_known (h : IsTree t log) {n p : Nat} (hmem : .created n p name ∈ log) :
    log.Known p := by
  obtain ⟨before, after, rfl⟩ := List.append_of_mem hmem
  exact (h.known before n p name after rfl).append _

theorem mem_properties {p : Nat} {bytes : List (BitVec 8)} :
    (name, bytes) ∈ log.properties p ↔ .property p name bytes ∈ log := by
  unfold DtLog.properties
  rw [List.mem_filterMap]
  constructor
  · rintro ⟨event, hmem, heq⟩
    cases event with
    | created => cases heq
    | property q name' bytes' =>
      dsimp only at heq
      split_ifs at heq with hq
      cases heq
      rwa [← hq]
    | reserved => cases heq
  · exact fun hmem => ⟨_, hmem, if_pos rfl⟩

/-- One event more is the last one, or those before are as they were. -/
theorem append_singleton_split {α : Type*} {xs before after : List α} {a b : α}
    (h : xs ++ [a] = before ++ b :: after) :
    (before = xs ∧ b = a ∧ after = []) ∨ ∃ after', xs = before ++ b :: after' := by
  rcases List.eq_nil_or_concat after with rfl | ⟨after', c, rfl⟩
  · obtain ⟨rfl, heq⟩ := List.append_inj' h rfl
    cases heq
    exact .inl ⟨rfl, rfl, rfl⟩
  · have h' : xs ++ [a] = (before ++ b :: after') ++ [c] := by simpa using h
    exact .inr ⟨after', (List.append_inj' h' rfl).1⟩

/-- The objects of the nodes that there are, are others than a new one. -/
theorem orRoot_ne_new (hnew : node ∉ log.nodes) (hoffset : nodeOffset < node)
    (hroot : node ≠ t.root) {n : Nat} (hn : log.Known n) : t.orRoot n ≠ node := by
  intro heq
  unfold DeviceTree.orRoot at heq
  split_ifs at heq with hn0
  · rw [heq] at hn
    exact hnew (hn.resolve_left (by omega))
  · exact hroot heq.symm

theorem IsTree.isCreated (h : IsTree t log) (hparent : log.Known parent) (hnew : node ∉ log.nodes)
    (hoffset : nodeOffset < node) (hroot : node ≠ t.root) (nameAt : Nat) (name : CString) :
    IsCreated t.nodes (createdNodes t.nodes node (t.orRoot parent) nameAt name) node
      (t.orRoot parent) nameAt name (log.children parent) :=
  isCreated_createdNodes (orRoot_ne_new hnew hoffset hroot hparent).symm (h.children parent hparent)
    fun hmem => hnew ((DtLog.children_sublist parent).subset hmem)

theorem IsTree.create (h : IsTree t log) (hparent : log.Known parent) (hnew : node ∉ log.nodes)
    (hoffset : nodeOffset < node) (hroot : node ≠ t.root) {nameAt : Nat} (hsame : u.root = t.root)
    (hstrings : u.strings = t.strings)
    (hnodes : u.nodes = createdNodes t.nodes node (t.orRoot parent) nameAt name) :
    IsTree u (log ++ [.created node parent name]) := by
  have horRoot : ∀ n, u.orRoot n = t.orRoot n := fun n => by
    rw [DeviceTree.orRoot, DeviceTree.orRoot, hsame]
  have hnode0 : node ≠ 0 := by omega
  have hunknown : ¬ log.Known node := fun hknown => hnew (hknown.resolve_left hnode0)
  have hself : t.orRoot node = node := if_pos hnode0
  have hother := fun n (hn : log.Known n) => orRoot_ne_new hnew hoffset hroot hn
  have hcreated := h.isCreated hparent hnew hoffset hroot nameAt name
  rw [← hnodes] at hcreated
  refine ⟨?_, ?_, ?_, ?_, ?_, ?_, ?_, ?_, ?_⟩
  · rw [hsame]
    exact h.root_ne
  · rw [DtLog.nodes_created]
    refine h.nodup.append (List.nodup_singleton node) ?_
    rw [List.disjoint_singleton]
    exact hnew
  · intro n hn
    rw [DtLog.nodes_created, List.mem_append, List.mem_singleton] at hn
    rw [hsame]
    rcases hn with hn | rfl
    · exact h.apart n hn
    · exact ⟨hoffset, hroot⟩
  · intro before n p name' after heq
    rcases append_singleton_split heq with ⟨rfl, hevent, -⟩ | ⟨after', hlog⟩
    · cases hevent
      exact hparent
    · exact h.known before n p name' after' hlog
  · intro p name' bytes hmem
    rcases List.mem_append.mp hmem with hmem | hmem
    · exact (h.owner p name' bytes hmem).append _
    · rw [List.mem_singleton] at hmem
      cases hmem
  · rw [hsame, hcreated.parents _ hroot.symm, hcreated.texts _ hroot.symm]
    exact h.root
  · intro n p name' hmem
    rw [horRoot]
    rcases List.mem_append.mp hmem with hmem | hmem
    · have hne : n ≠ node := fun heq => hnew (heq ▸ DtLog.mem_nodes.mpr ⟨p, name', hmem⟩)
      rw [hcreated.parents n hne, hcreated.texts n hne]
      exact h.node n p name' hmem
    · rw [List.mem_singleton] at hmem
      cases hmem
      exact ⟨hcreated.new.1, hcreated.new.2.2.1⟩
  · intro n hn
    rw [horRoot, DtLog.children_created]
    by_cases hnn : n = node
    · -- the new node has no children
      have hnone : log.children node = [] := by
        refine List.eq_nil_iff_forall_not_mem.mpr fun c hc => ?_
        obtain ⟨name', hmem⟩ := DtLog.mem_children.mp hc
        exact hunknown (h.parent_known hmem)
      have hp : parent ≠ node := fun heq => hunknown (heq ▸ hparent)
      rw [hnn, hself, hcreated.new.2.2.2.1, hnone, if_neg hp]
      exact lists_init _
    · have hn' : log.Known n := by
        rcases hn with h0 | hmem
        · exact .inl h0
        · rw [DtLog.nodes_created, List.mem_append, List.mem_singleton] at hmem
          exact .inr (hmem.resolve_right hnn)
      by_cases hnp : parent = n
      · subst hnp
        rw [if_pos rfl]
        exact hcreated.list
      · have hobject : t.orRoot n ≠ t.orRoot parent := fun heq =>
          hnp ((h.orRoot_inj hn' hparent).mp heq).symm
        rw [if_neg hnp, List.append_nil, hcreated.children _ (hother n hn') hobject]
        refine (h.children n hn').of_links fun a ha => ?_
        obtain ⟨c, hc, rfl⟩ := List.mem_map.mp ha
        refine hcreated.links _ (Nat.le_add_left _ _) (fun hmem => ?_) fun heq => ?_
        · -- a node has one parent
          obtain ⟨c', hc', heq⟩ := List.mem_map.mp hmem
          have hsame : c' = c := Nat.add_right_cancel heq
          subst hsame
          obtain ⟨name₁, hc₁⟩ := DtLog.mem_children.mp hc
          obtain ⟨name₂, hc₂⟩ := DtLog.mem_children.mp hc'
          exact hnp (DtLog.created_unique h.nodup hc₂ hc₁).1
        · have hsame : c = node := Nat.add_right_cancel heq
          exact hnew (hsame ▸ (DtLog.children_sublist n).subset hc)
  · intro n hn
    rw [horRoot, DtLog.properties_created, hstrings]
    by_cases hnn : n = node
    · have hnone : log.properties node = [] := by
        refine List.eq_nil_iff_forall_not_mem.mpr fun p hp => ?_
        exact hunknown (h.owner node p.1 p.2 (mem_properties.mp hp))
      rw [hnn, hself, hcreated.new.2.2.2.2.1, hnone]
      rfl
    · have hn' : log.Known n := by
        rcases hn with h0 | hmem
        · exact .inl h0
        · rw [DtLog.nodes_created, List.mem_append, List.mem_singleton] at hmem
          exact .inr (hmem.resolve_right hnn)
      rw [hcreated.props _ (hother n hn')]
      exact h.props n hn'

/-- What `BlDtDoAddProperty` makes of the nodes. -/
def propertyNodes (m : Nat → DtNode) (parent properties : Nat) (property : DtProperty) :
    Nat → DtNode :=
  Function.update m parent { m parent with properties, props := (m parent).props ++ [property] }

theorem IsTree.property (h : IsTree t log) (hparent : log.Known parent) {properties : Nat}
    {property : DtProperty} (hsame : u.root = t.root)
    (hkept : ∀ n, log.Known n → ∀ p ∈ (t.nodes (t.orRoot n)).props,
      (u.strings p.name).text = (t.strings p.name).text)
    (hname : (u.strings property.name).text = name)
    (hnodes : u.nodes = propertyNodes t.nodes (t.orRoot parent) properties property) :
    IsTree u (log ++ [.property parent name property.bytes]) := by
  have horRoot : ∀ n, u.orRoot n = t.orRoot n := fun n => by
    rw [DeviceTree.orRoot, DeviceTree.orRoot, hsame]
  have hknown : ∀ n, DtLog.Known (log ++ [.property parent name property.bytes]) n ↔ log.Known n := by
    intro n
    unfold DtLog.Known
    rw [DtLog.nodes_property]
  -- the object of the parent has one property more, and all else is as it was
  have hfields : ∀ x, (u.nodes x).parent = (t.nodes x).parent ∧ (u.nodes x).text = (t.nodes x).text ∧
      (u.nodes x).children = (t.nodes x).children := by
    intro x
    rw [hnodes, propertyNodes]
    by_cases hx : x = t.orRoot parent
    · rw [hx, Function.update_self]
      exact ⟨rfl, rfl, rfl⟩
    · rw [Function.update_of_ne hx]
      exact ⟨rfl, rfl, rfl⟩
  refine ⟨?_, ?_, ?_, ?_, ?_, ?_, ?_, ?_, ?_⟩
  · rw [hsame]
    exact h.root_ne
  · rw [DtLog.nodes_property]
    exact h.nodup
  · rw [DtLog.nodes_property, hsame]
    exact h.apart
  · intro before n p name' after heq
    rcases append_singleton_split heq with ⟨-, hevent, -⟩ | ⟨after', hlog⟩
    · cases hevent
    · exact h.known before n p name' after' hlog
  · intro p name' bytes hmem
    rw [hknown]
    rcases List.mem_append.mp hmem with hmem | hmem
    · exact h.owner p name' bytes hmem
    · rw [List.mem_singleton] at hmem
      cases hmem
      exact hparent
  · rw [hsame, (hfields _).1, (hfields _).2.1]
    exact h.root
  · intro n p name' hmem
    rw [horRoot, (hfields n).1, (hfields n).2.1]
    rcases List.mem_append.mp hmem with hmem | hmem
    · exact h.node n p name' hmem
    · rw [List.mem_singleton] at hmem
      cases hmem
  · intro n hn
    rw [hknown] at hn
    rw [horRoot, (hfields _).2.2, DtLog.children_property]
    refine (h.children n hn).of_links fun a _ => ?_
    rw [hnodes, propertyNodes]
    refine links_update ?_ a
    exact ⟨rfl, rfl⟩
  · intro n hn
    rw [hknown] at hn
    have hold : ((t.nodes (t.orRoot n)).props.map fun p => ((u.strings p.name).text, p.bytes)) =
        log.properties n := by
      rw [← h.props n hn]
      exact List.map_congr_left fun p hp => by rw [hkept n hn p hp]
    rw [horRoot, DtLog.properties_property, hnodes, propertyNodes]
    by_cases hnp : parent = n
    · subst hnp
      rw [if_pos rfl, Function.update_self, List.map_append, hold, List.map_singleton, hname]
    · have hobject : t.orRoot n ≠ t.orRoot parent := fun heq =>
        hnp ((h.orRoot_inj hn hparent).mp heq).symm
      rw [if_neg hnp, List.append_nil, Function.update_of_ne hobject]
      exact hold

/-- A call that is not about the tree. -/
theorem IsTree.same (h : IsTree t log) (hroot : u.root = t.root) (hnodes : u.nodes = t.nodes)
    (hstrings : u.strings = t.strings) : IsTree u log := by
  have horRoot : ∀ n, u.orRoot n = t.orRoot n := fun n => by
    rw [DeviceTree.orRoot, DeviceTree.orRoot, hroot]
  refine ⟨?_, h.nodup, ?_, h.known, h.owner, ?_, ?_, ?_, ?_⟩
  · rw [hroot]
    exact h.root_ne
  · rw [hroot]
    exact h.apart
  · rw [hroot, hnodes]
    exact h.root
  · simp only [horRoot, hnodes]
    exact h.node
  · simp only [horRoot, hnodes]
    exact h.children
  · simp only [horRoot, hnodes, hstrings]
    exact h.props

theorem IsTree.reserve (h : IsTree t log) (base size : Nat) :
    IsTree t (log ++ [.reserved base size]) := by
  refine ⟨h.root_ne, ?_, ?_, fun before n p name' after heq => ?_, fun p name' bytes hmem => ?_,
    h.root, fun n p name' hmem => ?_, fun n hn => ?_, fun n hn => ?_⟩
  · rw [DtLog.nodes_reserved]
    exact h.nodup
  · rw [DtLog.nodes_reserved]
    exact h.apart
  · rcases append_singleton_split heq with ⟨-, hevent, -⟩ | ⟨after', hlog⟩
    · cases hevent
    · exact h.known before n p name' after' hlog
  · rcases List.mem_append.mp hmem with hmem | hmem
    · exact (h.owner p name' bytes hmem).append _
    · rw [List.mem_singleton] at hmem
      cases hmem
  · rcases List.mem_append.mp hmem with hmem | hmem
    · exact h.node n p name' hmem
    · rw [List.mem_singleton] at hmem
      cases hmem
  · unfold DtLog.Known at hn
    rw [DtLog.nodes_reserved] at hn
    rw [DtLog.children_reserved]
    exact h.children n hn
  · unfold DtLog.Known at hn
    rw [DtLog.nodes_reserved] at hn
    rw [DtLog.properties_reserved]
    exact h.props n hn

end

end XrLinux.Bootloader
