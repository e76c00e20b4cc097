import XrLinux.Bootloader.BuiltTree

/-!
# Bootloader — paths of nodes

`BlDtNodePath` measures the path of a node on the way up and writes it on a second way up, from its
end to its start. Where siblings have different names, and there are no slashes in them, looking the
components up one by one leads back to the node.
-/

namespace XrLinux.Bootloader

open ByteMemory LinkedList

/-! ## Paths -/

/-- The names on the way from the root to a node. -/
inductive DtLog.PathTo (log : DtLog) : Nat → List CString → Prop where
  | root : log.PathTo 0 []
  | child {p n : Nat} {names : List CString} {name : CString} (hp : log.PathTo p names)
      (hmem : .created n p name ∈ log) : log.PathTo n (names ++ [name])

/-- A path, less its terminator. -/
def pathText (names : List CString) : List (BitVec 8) := names.flatMap fun name => 0x2f :: name.bytes

/-- The lookup of the components of a path, each in the node that the one before it leads to. -/
def DeviceTree.lookUp (t : DeviceTree) : List CString → Nat → Except Stop (Option Nat)
  | [], node => .ok (some node)
  | name :: names, node => do
    match ← t.blDtFindNode node name with
    | some child => lookUp t names child
    | none => return none

/-- Siblings have different names, and no name has a slash. -/
structure DtLog.NamesApart (log : DtLog) : Prop where
  siblings : ∀ p n m name, .created n p name ∈ log → .created m p name ∈ log → n = m
  slashes : ∀ n p name, .created n p name ∈ log → 0x2f ∉ CString.bytes name

theorem length_pathText (names : List CString) :
    (pathText names).length = (names.map CString.room).sum := by
  rw [pathText, List.length_flatMap]
  rfl

theorem pathText_append (names : List CString) (name : CString) :
    pathText (names ++ [name]) = pathText names ++ 0x2f :: name.bytes := by
  simp [pathText]

/-- What stands between the slashes. -/
theorem splitOn_pathText {names : List CString} (hslashes : ∀ name ∈ names, 0x2f ∉ name.bytes)
    {xs : List (BitVec 8)} (hxs : 0x2f ∉ xs) :
    (xs ++ pathText names).splitOn 0x2f = xs :: names.map CString.bytes := by
  induction names generalizing xs with
  | nil =>
    rw [show pathText [] = [] from rfl, List.append_nil, List.splitOn_eq_splitOnP]
    refine List.splitOnP_eq_singleton fun x hx => ?_
    rw [beq_eq_false_iff_ne]
    exact fun heq => hxs (heq ▸ hx)
  | cons name names ih =>
    have htext : pathText (name :: names) = 0x2f :: (name.bytes ++ pathText names) := rfl
    have hfirst : ∀ x ∈ xs, (x == 0x2f) = false := by
      intro x hx
      rw [beq_eq_false_iff_ne]
      exact fun heq => hxs (heq ▸ hx)
    have ih := ih (fun s hs => hslashes s (List.mem_cons_of_mem name hs))
      (hslashes name List.mem_cons_self)
    rw [List.splitOn_eq_splitOnP] at ih ⊢
    rw [htext, List.splitOnP_append_cons_of_forall_mem hfirst 0x2f rfl, ih, List.map_cons]

/-! ## The search among children -/

section
variable {t : DeviceTree} {log : DtLog} {statics : Finset Nat} {es : List Nat}
  {buffers : Multiset Block}

/-- `BlDtFindNode` finds the first child of the name. -/
theorem Built.findNode_eq (h : Built statics t log es buffers) {p : Nat} (hp : log.Known p)
    (name : CString) :
    t.blDtFindNode p name = .ok ((log.children p).find? fun n => (t.nodes n).text = name) := by
  have hbody : (fun node (found : Option Nat) =>
      if blCompareStrings (t.nodes node).text name = 0 then ForInStep.done (some node)
      else .yield found) = fun node found =>
      if decide ((t.nodes node).text = name) then .done (some node) else .yield found := by
    funext node found
    simp only [blCompareStrings_eq_zero, decide_eq_true_eq]
  have hlt := h.nodes_lt
  have hle : (log.children p).length ≤ log.nodes.length := (DtLog.children_sublist p).length_le
  rw [← foreachList_find, DeviceTree.blDtFindNode, h.tree.firstChild_eq hp, hbody]
  refine foreach_eq none (fun _ hv => h.tree.child_ne hv) (fun before n after heq => ?_) (by omega)
  exact h.tree.nextChild_eq hp heq

theorem Built.findNode_child (h : Built statics t log es buffers) (hapart : log.NamesApart)
    {p n : Nat} {name : CString} (hmem : .created n p name ∈ log) :
    t.blDtFindNode p name = .ok (some n) := by
  rw [h.findNode_eq (h.tree.parent_known hmem)]
  cases hfound : (log.children p).find? fun n => decide ((t.nodes n).text = name) with
  | some m =>
    obtain ⟨name', hm⟩ := DtLog.mem_children.mp (List.mem_of_find?_eq_some hfound)
    have hsome := List.find?_some hfound
    have htext : (t.nodes m).text = name := of_decide_eq_true hsome
    rw [(h.tree.node m p name' hm).2] at htext
    subst htext
    rw [hapart.siblings p m n name' hm hmem]
  | none =>
    -- the node itself would have been found
    have hn := DtLog.mem_children.mpr ⟨name, hmem⟩
    have htext := (h.tree.node n p name hmem).2
    exact absurd (decide_eq_true htext) (List.find?_eq_none.mp hfound n hn)

theorem lookUp_append (t : DeviceTree) (names : List CString) (name : CString) (n : Nat) :
    t.lookUp (names ++ [name]) n = (t.lookUp names n >>= fun found => found.elim (.ok none)
      fun p => t.lookUp [name] p) := by
  induction names generalizing n with
  | nil => rfl
  | cons first names ih =>
    rw [List.cons_append, DeviceTree.lookUp, DeviceTree.lookUp]
    cases t.blDtFindNode n first with
    | error stop => rfl
    | ok found =>
      cases found with
      | none => rfl
      | some child => exact ih child

/-- A path leads from the root to its node. -/
theorem Built.lookUp_path (h : Built statics t log es buffers) (hapart : log.NamesApart) {n : Nat}
    {names : List CString} (hpath : log.PathTo n names) : t.lookUp names 0 = .ok (some n) := by
  induction hpath with
  | root => rfl
  | @child p n names name _ hmem ih =>
    rw [lookUp_append, ih]
    show (t.blDtFindNode p name >>= _) = _
    rw [h.findNode_child hapart hmem]
    rfl

/-! ## The two ways up -/

/-- Every node has a path, of the names of different nodes. -/
theorem IsTree.exists_path (h : IsTree t log) {before after : DtLog} (hlog : log = before ++ after)
    {n : Nat} (hn : before.Known n) :
    ∃ chain : List Nat, log.PathTo n (chain.map fun c => (t.nodes c).text) ∧ chain.Nodup ∧
      ∀ c ∈ chain, c ∈ before.nodes := by
  induction before using List.reverseRecOn generalizing n after with
  | nil =>
    have hn0 : n = 0 := hn.resolve_right List.not_mem_nil
    subst hn0
    exact ⟨[], .root, List.nodup_nil, nofun⟩
  | append_singleton before event ih =>
    have hlog' : log = before ++ event :: after := by rw [hlog, List.append_assoc]; rfl
    by_cases hold : DtLog.Known before n
    · obtain ⟨chain, hpath, hnodup, hmem⟩ := ih hlog' hold
      refine ⟨chain, hpath, hnodup, fun c hc => ?_⟩
      unfold DtLog.nodes
      rw [List.filterMap_append]
      exact List.mem_append_left _ (hmem c hc)
    · -- the last call has created the node
      have hnew : n ∈ DtLog.nodes (before ++ [event]) :=
        hn.resolve_left fun h0 => hold (.inl h0)
      obtain ⟨p, name, hmem⟩ := DtLog.mem_nodes.mp hnew
      have hevent : event = .created n p name := by
        rcases List.mem_append.mp hmem with hmem | hmem
        · exact absurd (.inr (DtLog.mem_nodes.mpr ⟨p, name, hmem⟩)) hold
        · exact (List.mem_singleton.mp hmem).symm
      subst hevent
      have hin : .created n p name ∈ log := by
        rw [hlog']
        exact List.mem_append_right _ List.mem_cons_self
      obtain ⟨chain, hpath, hnodup, hchain⟩ := ih hlog' (h.known before n p name after hlog')
      refine ⟨chain ++ [n], ?_, ?_, fun c hc => ?_⟩
      · rw [List.map_append, List.map_singleton, (h.node n p name hin).2]
        exact .child hpath hin
      · refine hnodup.append (List.nodup_singleton n) ?_
        rw [List.disjoint_singleton]
        exact fun hc => hold (.inr (hchain n hc))
      · rw [DtLog.nodes_created]
        rcases List.mem_append.mp hc with hc | hc
        · exact List.mem_append_left _ (hchain c hc)
        · exact List.mem_append_right _ hc

/-- The first way up. -/
theorem IsTree.pathSize_eq (h : IsTree t log) {n : Nat} {names : List CString}
    (hpath : log.PathTo n names) {size fuel : Nat} (hfuel : names.length < fuel)
    (hsize : size + (names.map CString.room).sum < 4294967296) :
    t.pathSize fuel (t.orRoot n) size = .ok (size + (names.map CString.room).sum) := by
  induction hpath generalizing size fuel with
  | root =>
    obtain ⟨fuel, rfl⟩ := Nat.exists_eq_add_of_le' (show 1 ≤ fuel from hfuel)
    rw [DeviceTree.pathSize, h.parent_root]
    rfl
  | @child p n names name _ hmem ih =>
    obtain ⟨fuel, rfl⟩ := Nat.exists_eq_add_of_le' (Nat.zero_lt_of_lt hfuel)
    obtain ⟨hparent, htext⟩ := h.parent_child hmem
    have hlength : name.length = name.bytes.length := rfl
    have hfits := name.fits
    have hroom : add32 name.length 1 = name.room := Nat.mod_eq_of_lt (by omega)
    rw [List.length_append, List.length_singleton] at hfuel
    rw [List.map_append, List.sum_append, List.map_singleton, List.sum_singleton] at hsize ⊢
    have hadd : add32 size name.room = size + name.room := Nat.mod_eq_of_lt (by omega)
    rw [DeviceTree.pathSize, hparent, htext, if_pos h.orRoot_ne]
    dsimp only
    rw [hroom, hadd, ih (by omega) (by omega)]
    congr 1
    omega

/-- The second way up: what is in front of the bytes that are there already. -/
theorem IsTree.fillPath_eq (h : IsTree t log) {n : Nat} {names : List CString}
    (hpath : log.PathTo n names) {fuel path : Nat} (hfuel : names.length < fuel) (m : ByteMemory)
    (rest : List (BitVec 8)) (hfits : path + (pathText names).length < 4294967296) :
    t.fillPath path fuel (t.orRoot n) (storeBytes m (path + (pathText names).length) rest)
      (pathText names).length = .ok (storeBytes m path (pathText names ++ rest), 0) := by
  induction hpath generalizing fuel rest with
  | root =>
    obtain ⟨fuel, rfl⟩ := Nat.exists_eq_add_of_le' (show 1 ≤ fuel from hfuel)
    rw [DeviceTree.fillPath, h.parent_root]
    rfl
  | @child p n names name _ hmem ih =>
    obtain ⟨fuel, rfl⟩ := Nat.exists_eq_add_of_le' (Nat.zero_lt_of_lt hfuel)
    obtain ⟨hparent, htext⟩ := h.parent_child hmem
    have hlength : name.length = name.bytes.length := rfl
    rw [List.length_append, List.length_singleton] at hfuel
    have htotal : (pathText (names ++ [name])).length =
        (pathText names).length + 1 + name.bytes.length := by
      rw [pathText_append, List.length_append, List.length_cons]
      omega
    rw [htotal] at hfits ⊢
    have hname : sub32 ((pathText names).length + 1 + name.bytes.length) name.length =
        (pathText names).length + 1 := by
      unfold sub32
      omega
    have hslash : sub32 ((pathText names).length + 1) 1 = (pathText names).length := by
      unfold sub32
      omega
    have haddr : add32 path ((pathText names).length + 1) = path + (pathText names).length + 1 :=
      Nat.mod_eq_of_lt (by omega)
    have haddr' : add32 path (pathText names).length = path + (pathText names).length :=
      Nat.mod_eq_of_lt (by omega)
    have hbytes : storeBytes (storeBytes m (path + ((pathText names).length + 1 + name.bytes.length)) rest)
        (path + (pathText names).length + 1) name.bytes =
        storeBytes m (path + (pathText names).length + 1) (name.bytes ++ rest) := by
      have hend : path + ((pathText names).length + 1 + name.bytes.length) =
          path + (pathText names).length + 1 + name.bytes.length := by omega
      rw [hend, storeBytes_prepend]
    have hfront : storeBytes (storeBytes m (path + (pathText names).length + 1) (name.bytes ++ rest))
        (path + (pathText names).length) [0x2f] =
        storeBytes m (path + (pathText names).length) ([0x2f] ++ (name.bytes ++ rest)) :=
      storeBytes_prepend m _ [0x2f] (name.bytes ++ rest)
    rw [DeviceTree.fillPath, hparent, htext, if_pos h.orRoot_ne]
    dsimp only
    rw [hname, hslash, haddr, haddr', hbytes, write8_eq_storeBytes, hfront,
      ih (by omega) ([0x2f] ++ (name.bytes ++ rest)) (by omega), pathText_append]
    simp

/-- The path in a buffer that is as long as it, and nothing else is written. -/
theorem Built.nodePath_eq (h : Built statics t log es buffers) {n : Nat} (hn : n ∈ log.nodes) :
    ∃ names, log.PathTo n names ∧
      ((t.world.allocate (pathText names).length.succ 1 false = .error (.crash "out of memory") ∧
        t.blDtNodePath n = .error (.crash "out of memory")) ∨
      ∃ world path, t.world.allocate (pathText names).length.succ 1 false = .ok (world, path) ∧
        world.Serves statics (Block.plain path (pathText names).length.succ 1 ::ₘ
          (t.stringBlocks es + (t.treeBlocks log.nodes + buffers))) ∧
        t.blDtNodePath n = .ok ({ t with
          world := world.setMem (storeBytes world.heap.mem path (pathText names ++ [0])) }, path)) := by
  obtain ⟨chain, hpath, hnodup, hchain⟩ :=
    @IsTree.exists_path t log h.tree log [] (List.append_nil log).symm n (.inr hn)
  refine ⟨_, hpath, ?_⟩
  obtain ⟨names, hnames⟩ : ∃ names, chain.map (fun c => (t.nodes c).text) = names := ⟨_, rfl⟩
  have hn0 : n ≠ 0 := by
    have hlt := (h.tree.apart n hn).1
    omega
  have hself := h.tree.orRoot_created hn
  -- the names on the way are among those of all nodes
  have hle : chain.length ≤ log.nodes.length ∧
      (names.map CString.room).sum ≤ (log.nodes.map fun n => (t.nodes n).text.room).sum := by
    obtain ⟨sub, hperm, hsub⟩ := hnodup.subperm hchain
    refine ⟨hperm.length_eq ▸ hsub.length_le, ?_⟩
    have hsum := (hsub.map fun n => (t.nodes n).text.room).sum_le_sum fun _ _ => Nat.zero_le _
    rw [(hperm.map fun n => (t.nodes n).text.room).sum_eq] at hsum
    rw [← hnames, List.map_map]
    exact hsum
  have hsize : staticsSize = 60 := rfl
  have hsome : 1 ≤ log.nodes.length := List.length_pos_of_mem hn
  have hfit := h.nodes_fit
  have hlt := h.nodes_lt
  have hcount : names.length = chain.length := by rw [← hnames, List.length_map]
  rw [hnames] at hpath ⊢
  have htext := length_pathText names
  have hmeasure : t.pathSize rounds n 1 = .ok (pathText names).length.succ := by
    rw [← hself, h.tree.pathSize_eq hpath (by omega) (by omega), htext, Nat.add_comm]
  have halloc := h.serves.allocate (k := 0) (Nat.succ_pos (pathText names).length) (by decide) (by omega)
  rw [pow_zero] at halloc
  rcases halloc with hcrash | ⟨world, path, hcall, hserves⟩
  · refine .inl ⟨hcrash, ?_⟩
    unfold DeviceTree.blDtNodePath
    rw [if_neg hn0, hmeasure]
    show (t.world.allocate (pathText names).length.succ 1 false >>= _) = _
    rw [hcrash]
    rfl
  refine .inr ⟨world, path, hcall, hserves, ?_⟩
  have hbounds := (hserves.bounds (Multiset.mem_cons_self _ _)).2.2.2
  have hround := le_roundUp (pathText names).length.succ
  have hblock : path + roundUp (pathText names).length.succ < 4294967296 := hbounds
  have hlast : sub32 (pathText names).length.succ 1 = (pathText names).length := by
    unfold sub32
    omega
  have haddr : add32 path (pathText names).length = path + (pathText names).length :=
    Nat.mod_eq_of_lt (by omega)
  have hfill : t.fillPath path rounds (t.orRoot n)
      (storeBytes world.heap.mem (path + (pathText names).length) [0]) (pathText names).length =
        .ok (storeBytes world.heap.mem path (pathText names ++ [0]), 0) :=
    h.tree.fillPath_eq hpath (by omega) world.heap.mem [0] (by omega)
  rw [hself, ← write8_eq_storeBytes] at hfill
  unfold DeviceTree.blDtNodePath
  rw [if_neg hn0, hmeasure]
  show (t.world.allocate (pathText names).length.succ 1 false >>= _) = _
  rw [hcall]
  show (t.fillPath path rounds n (world.heap.mem.write8
    (add32 path (sub32 (pathText names).length.succ 1)) 0)
    (sub32 (pathText names).length.succ 1) >>= _) = _
  rw [hlast, haddr, hfill]
  rfl

theorem DtLog.PathTo.no_slash (hapart : log.NamesApart) {n : Nat} {names : List CString}
    (hpath : log.PathTo n names) : ∀ name ∈ names, 0x2f ∉ name.bytes := by
  induction hpath with
  | root => nofun
  | @child p n names name _ hmem ih =>
    intro s hs
    rcases List.mem_append.mp hs with hs | hs
    · exact ih s hs
    · rw [List.mem_singleton.mp hs]
      exact hapart.slashes n p name hmem

end

/-- The string at an address is this one, with its terminator. -/
def StandsAt (mem : ByteMemory) (a : Nat) (text : List (BitVec 8)) : Prop :=
  (∀ i < text.length, mem (a + i) = text.getD i 0) ∧ mem (a + text.length) = 0 ∧ 0 ∉ text

/-- What `BlDtNodePath` has given for a node: a block that is as long as the path, which stands in it;
all other memory is as the allocation has left it. -/
structure PathGiven (t u : DeviceTree) (path : Nat) (names : List CString) : Prop where
  allocated : ∃ world, t.world.allocate (pathText names).length.succ 1 false = .ok (world, path) ∧
    Block.plain path (pathText names).length.succ 1 ∈ world.live ∧
    ∃ mem, u = { t with world := world.setMem mem } ∧
      ∀ a, a < path ∨ path + (pathText names).length < a → mem a = world.heap.mem a
  text : StandsAt u.world.heap.mem path (pathText names)

theorem getD_append_zero (xs : List (BitVec 8)) (i : Nat) :
    (xs ++ [0]).getD i 0 = xs.getD i 0 := by
  by_cases hi : i < xs.length
  · rw [List.getD_append _ _ _ _ hi]
  · rw [List.getD_append_right _ _ _ _ (by omega), List.getD_eq_default xs _ (by omega)]
    cases i - xs.length with
    | zero => rfl
    | succ k => rfl

theorem zero_notMem_pathText (names : List CString) : 0 ∉ pathText names := by
  intro hmem
  obtain ⟨name, -, hname⟩ := List.mem_flatMap.mp hmem
  rcases List.mem_cons.mp hname with hslash | hname
  · exact absurd hslash (by decide)
  · exact name.noNul 0 hname rfl

/-- In whatever order a tree is built, every node of it has a path that leads back to it and to no
other node, where siblings have different names without slashes; and `BlDtNodePath` gives it, unless
there is no memory for it. -/
theorem blDtNodePath_leads_back {statics : Finset Nat} {world : World} {root name : Nat}
    {strings : Nat → DtString} {nodes : Nat → DtNode} {t : DeviceTree} {log : DtLog}
    (hrun : Builds (.start world root name strings nodes) log t) (hserves : world.Serves statics 0)
    (hstatics : staticsSize ≤ statics.card) (hroot : root ∈ statics) (hroot0 : root ≠ 0)
    (hapart : log.NamesApart) {n : Nat} (hn : n ∈ log.nodes) :
    ∃ names, log.PathTo n names ∧
      (t.blDtNodePath n = .error (.crash "out of memory") ∨
        ∃ u path, t.blDtNodePath n = .ok (u, path) ∧ PathGiven t u path names) ∧
      (pathText names).splitOn 0x2f = [] :: names.map CString.bytes ∧
      t.lookUp names 0 = .ok (some n) ∧
      ∀ m names', log.PathTo m names' → pathText names' = pathText names → m = n := by
  obtain ⟨es, buffers, h⟩ := hrun.built hserves hstatics hroot hroot0
  obtain ⟨names, hpath, hcall⟩ := h.nodePath_eq hn
  have hlookUp := h.lookUp_path hapart hpath
  have hsplit : ∀ {m names'}, log.PathTo m names' →
      (pathText names').splitOn 0x2f = [] :: names'.map CString.bytes := by
    intro m names' hpath'
    exact @splitOn_pathText names' (hpath'.no_slash hapart) [] List.not_mem_nil
  refine ⟨names, hpath, ?_, hsplit hpath, hlookUp, ?_⟩
  · refine hcall.imp (fun hcrash => hcrash.2) ?_
    rintro ⟨w, path, halloc, hserves', hok⟩
    refine ⟨_, path, hok, ⟨w, halloc, ?_, _, rfl, fun a ha => if_neg ?_⟩, ?_, ?_, ?_⟩
    · exact hserves'.live _ (Multiset.mem_cons_self _ _)
    · rw [List.length_append, List.length_singleton]
      omega
    · intro i hi
      rw [← getD_append_zero]
      refine storeBytes_at _ _ ?_
      rw [List.length_append]
      omega
    · refine (storeBytes_at _ _ ?_).trans ?_
      · rw [List.length_append, List.length_singleton]
        omega
      · rw [List.getD_append_right _ _ _ _ le_rfl, Nat.sub_self]
        rfl
    · exact zero_notMem_pathText names
  · intro m names' hpath' htext
    -- the components are the same, and so are the names
    have hcomponents := hsplit hpath'
    rw [htext, hsplit hpath] at hcomponents
    have hnames : names' = names := by
      have hbytes := (List.cons.inj hcomponents).2
      refine (List.map_injective_iff.mpr ?_ hbytes).symm
      intro a b hab
      cases a
      cases b
      cases hab
      rfl
    rw [hnames] at hpath'
    have hsame := h.lookUp_path hapart hpath'
    rw [hlookUp] at hsame
    cases hsame
    rfl

/-- A node below the root. -/
theorem blDtNodePath_leads_back_one : ∃ (w : World) (t : DeviceTree) (n : Nat) (names : List CString),
    Builds (.fresh w) [.created n 0 .reg] t ∧ DtLog.PathTo [.created n 0 .reg] n names ∧
      t.lookUp names 0 = .ok (some n) := by
  have hcalls : (Run.run World.regularStep (World.start fun _ => 0) [.add 0x1000 0x1000]).map
      (fun w => ((DeviceTree.fresh w).blDtCreateNode 0 .reg).isOk) = some true := by
    decide +kernel
  obtain ⟨w, hpage, hserves⟩ := serves_page
  rw [hpage] at hcalls
  have hok : ((DeviceTree.fresh w).blDtCreateNode 0 .reg).isOk = true := Option.some.inj hcalls
  cases hcreate : (DeviceTree.fresh w).blDtCreateNode 0 .reg with
  | error stop =>
    rw [hcreate] at hok
    cases hok
  | ok r =>
    obtain ⟨t, n⟩ := r
    have hrun : Builds (.fresh w) [.created n 0 .reg] t := .create .start (.inl rfl) hcreate
    have hapart : DtLog.NamesApart [.created n 0 .reg] := by
      refine ⟨fun p a b name ha hb => ?_, fun a p name ha => ?_⟩
      · cases List.mem_singleton.mp ha
        cases List.mem_singleton.mp hb
        rfl
      · cases List.mem_singleton.mp ha
        decide
    obtain ⟨names, hpath, -, -, hlookUp, -⟩ := blDtNodePath_leads_back hrun hserves (by decide)
      (by decide) (by decide) hapart (n := n) List.mem_cons_self
    exact ⟨w, t, n, names, hrun, hpath, hlookUp⟩

end XrLinux.Bootloader
