import Chirc.Server.HashMaps
import Chirc.Verify.HashRuns
import Chirc.Verify.Tables
import Mathlib.Data.List.Induction
import Mathlib.Data.List.Infix

/-! # The tables of the server are hash tables

The server keeps `connection_hash` as a list of nodes with distinct names, and `sockfd_nick_hash` as
the nodes in the order in which lookups meet them. On the tables of `uthash.h` the same additions,
deletions and lookups give the same results, and the teardown of `chirc_run` takes each node out
once. -/

namespace Chirc.Uthash

open DoublyLinked (Chain)

variable {hash : List Byte → UInt32} {malloc : Nat → Bool}

/-! ## Iterations that delete -/

theorem Holds.head {s : Hash} (H : Holds hash s items) : s.root.map Prod.fst = items.head? := by
  rw [Holds] at H
  cases hroot : s.root with
  | none =>
    rw [hroot] at H
    rw [H]
    rfl
  | some root =>
    obtain ⟨head, tbl⟩ := root
    rw [hroot] at H
    obtain ⟨chain, H⟩ := H
    exact H.app.head_eq

theorem Holds.next {s : Hash} (H : Holds hash s (a :: l)) : s.hh.next a = l.head? := by
  rw [Holds] at H
  split at H
  · cases H
  · obtain ⟨chain, H⟩ := H
    exact (DoublyLinked.Chain.cons_iff.mp H.app).2.2.head_eq

/-- The loop is at the first struct of the table, and `tmp` is the one behind it. -/
theorem deleteLoop_ok {s : Hash} (H : Holds hash s items) (hfuel : items.length < fuel)
    (visited : List Nat) :
    ∃ hh, hashIterLoop (·.2.hh) (fun s node => do
        let table ← hashDelete s.2 node
        return (s.1 ++ [node], table))
      fuel items.head? (items.head?.bind s.hh.next) (visited, s) =
        .ok (visited ++ items, ⟨hh, none⟩) := by
  induction items generalizing s fuel visited with
  | nil =>
    obtain ⟨fuel, rfl⟩ := Nat.exists_eq_succ_of_ne_zero (Nat.ne_of_gt hfuel)
    obtain ⟨hh, root⟩ := s
    cases root with
    | none =>
      rw [List.append_nil]
      exact ⟨hh, rfl⟩
    | some root => cases H.head
  | cons a l ih =>
    rw [List.length_cons] at hfuel
    have hpos : 0 < fuel := Nat.lt_of_le_of_lt (Nat.zero_le _) hfuel
    obtain ⟨fuel, rfl⟩ := Nat.exists_eq_succ_of_ne_zero hpos.ne'
    obtain ⟨s', hs', H', -⟩ := hashDelete_ok H List.mem_cons_self
    rw [List.erase_cons_head] at H'
    have hfuel' : l.length < fuel := by omega
    obtain ⟨hh, hloop⟩ := ih H' hfuel' (visited ++ [a])
    refine ⟨hh, ?_⟩
    rw [List.append_assoc] at hloop
    rw [List.head?_cons, Option.bind_some, H.next, hashIterLoop, hs']
    exact hloop

theorem hashIter_delete {s : Hash} (H : Holds hash s items) (hfuel : items.length < fuel) :
    ∃ hh, hashIter (·.2.hh) (fun s node => do
        let table ← hashDelete s.2 node
        return (s.1 ++ [node], table)) fuel s ([], s) = .ok (items, ⟨hh, none⟩) := by
  rw [hashIter, H.head]
  exact deleteLoop_ok H hfuel []

/-- Additions of nodes with these names -/
def additions (nicks : List CStr) : List Op := nicks.zipIdx.map fun e => .add e.2 e.1

def numbered (nicks : List CStr) : Entries := nicks.zipIdx.map fun e => (e.2, e.1)

theorem map_fst_numbered (nicks : List CStr) :
    (numbered nicks).map Prod.fst = List.range nicks.length := by
  rw [numbered, List.map_map, List.range_eq_range']
  exact List.zipIdx_map_snd 0 nicks

theorem numbered_concat (nicks : List CStr) (nick : CStr) :
    numbered (nicks ++ [nick]) = numbered nicks ++ [(nicks.length, nick)] := by
  rw [numbered, List.zipIdx_append, List.map_append]
  simp [numbered]

theorem applyOps_additions (nicks : List CStr) :
    applyOps (additions nicks) = some (numbered nicks) := by
  induction nicks using List.reverseRecOn with
  | nil => rfl
  | append_singleton nicks nick ih =>
    have hfresh : nicks.length ∉ (numbered nicks).map Prod.fst := by
      rw [map_fst_numbered, List.mem_range]
      exact Nat.lt_irrefl _
    rw [applyOps, additions, List.zipIdx_append, List.map_append, List.foldlM_append]
    show (applyOps (additions nicks)).bind _ = _
    rw [ih, numbered_concat, Option.bind_some]
    simp [Op.apply, hfresh]

theorem mem_numbered {nicks : List CStr} : (a, nick) ∈ numbered nicks ↔ nicks[a]? = some nick := by
  rw [numbered, List.mem_map]
  constructor
  · intro ⟨e, he, heq⟩
    cases heq
    exact List.mem_zipIdx_iff_getElem?.mp he
  · intro h
    exact ⟨(nick, a), List.mem_zipIdx_iff_getElem?.mpr h, rfl⟩

theorem foldlM_size (l : List Nat) (size : Int) :
    l.foldlM (fun size _ => (.ok (size + 1) : Except Stop Int)) size = .ok (size + l.length) := by
  induction l generalizing size with
  | nil => exact congrArg Except.ok (Int.add_zero size).symm
  | cons a l ih =>
    rw [List.foldlM_cons, Stop.ok_bind, ih, List.length_cons]
    congr 1
    omega

/-- With distinct names a node is the first one with its name. -/
theorem findConnectionMapNode_of_mem {nodes : List ConnectionMap}
    (hkeys : (nodes.map (·.name)).Nodup) (hnode : node ∈ nodes) :
    Chirc.findConnectionMapNode nodes node.name = some node := by
  obtain ⟨node', hfind, -⟩ := (found_iff_mem_bindings (map_fst_bindings ▸ hkeys)).mpr
    (List.mem_map_of_mem (f := fun node => (node.name, node.fd)) hnode)
  have hname := findConnectionMapNode_name hfind
  rw [hfind, List.inj_on_of_nodup_map hkeys (List.mem_of_find?_eq_some hfind) hnode hname]

/-- What the server does with `sockfd_nick_hash`: it adds a node, or deletes the one that a lookup
for a descriptor finds, if any. -/
inductive FdOp
  | add (node : SockfdNickMap)
  | del (fd : Nat)

/-- On the table as lookups see it -/
def FdOp.apply (h : SockfdNickHash) : FdOp → SockfdNickHash
  | .add node => Chirc.addSockfdNickMapNode h node
  | .del fd => Chirc.delSockfdNickMapNode h (Chirc.findSockfdNickMapNode h fd)

/-- The nodes on the heap: `malloc` has given out the addresses below `next`. -/
structure SockfdNodes where
  table : Hash
  node : Nat → SockfdNickMap
  next : Nat

/-- On the table -/
def FdOp.run (hash : List Byte → UInt32) (malloc : Nat → Bool) (fuel : Nat) (m : SockfdNodes) :
    FdOp → Except Stop SockfdNodes
  | .add node => do
    let table ← addSockfdNickMapNode hash malloc fuel m.table m.next node.fd
    return ⟨table, Function.update m.node m.next node, m.next + 1⟩
  | .del fd => do
    let found ← findSockfdNickMapNode hash fuel m.table fd
    let table ← delSockfdNickMapNode m.table found
    return { m with table := table }

/-- Lookups in the table see the nodes of `h`. -/
structure Mirrors (hash : List Byte → UInt32) (m : SockfdNodes) (h : SockfdNickHash)
    (items : List Nat) : Prop where
  shows : ∃ t, Shows hash m.table items t ∧ h = t.map m.node
  key : ∀ a ∈ items, m.table.hh.key a = intKey (m.node a).fd
  lt : ∀ a ∈ items, a < m.next

theorem intKey_injective (hfd : fd < 4294967296) (hfd' : fd' < 4294967296)
    (h : intKey fd = intKey fd') : fd = fd' := by
  simp only [intKey, List.cons.injEq, and_true, ← UInt8.toNat_inj] at h
  obtain ⟨h₀, h₁, h₂, h₃⟩ := h
  simp only [Nat.toUInt8, UInt8.toNat_ofNat'] at h₀ h₁ h₂ h₃
  omega

namespace Mirrors

variable {m : SockfdNodes} {h : SockfdNickHash}

theorem length_eq (H : Mirrors hash m h items) : h.items.length = items.length := by
  obtain ⟨t, T, rfl⟩ := H.shows
  exact (List.length_map m.node).trans T.perm.length_eq

/-- A struct has the key of a descriptor if its node has the descriptor. -/
theorem key_eq_iff (H : Mirrors hash m h items) (hfds : ∀ node ∈ h.items, node.fd < 4294967296)
    (hfd : fd < 4294967296) {t : Chained Nat} (T : Shows hash m.table items t)
    (ht : h = t.map m.node) (ha : a ∈ t.items) :
    decide (m.table.hh.key a = intKey fd) = ((m.node a).fd == fd) := by
  have hlt : (m.node a).fd < 4294967296 := hfds _ (ht ▸ List.mem_map_of_mem ha)
  rw [H.key a (T.perm.mem_iff.mp ha), Bool.eq_iff_iff, decide_eq_true_iff, beq_iff_eq]
  constructor
  · intro hkey
    exact intKey_injective hlt hfd hkey
  · intro heq
    rw [heq]

/-- A lookup finds the node that lookups in `h` find. -/
theorem find (H : Mirrors hash m h items) (hfds : ∀ node ∈ h.items, node.fd < 4294967296)
    (hfd : fd < 4294967296) (hfuel : items.length < fuel) :
    ∃ r, findSockfdNickMapNode hash fuel m.table fd = .ok r ∧
      r.map m.node = Chirc.findSockfdNickMapNode h fd := by
  obtain ⟨t, T, ht⟩ := H.shows
  refine ⟨_, hashFind_shows T hfuel (intKey fd), ?_⟩
  rw [ht, Chirc.findSockfdNickMapNode]
  show _ = (t.items.map m.node).find? _
  rw [List.find?_map]
  exact congrArg (Option.map m.node) (List.find?_congr fun a ha => H.key_eq_iff hfds hfd T ht ha)

theorem add (H : Mirrors hash m h items) (hhash : ∀ fd, hash (intKey fd) = hashInt fd)
    (hlimit : malloc 68719476736 = false) (hfuel : items.length + 1 < fuel) (node : SockfdNickMap) :
    Refused malloc ((FdOp.add node).run hash malloc fuel m) ∨
      ∃ m', (FdOp.add node).run hash malloc fuel m = .ok m' ∧
        Mirrors hash m' (Chirc.addSockfdNickMapNode h node) (items ++ [m.next]) := by
  obtain ⟨t, T, ht⟩ := H.shows
  have hfresh : m.next ∉ items := fun h => Nat.lt_irrefl _ (H.lt _ h)
  have hne : ∀ a ∈ items, a ≠ m.next := fun a ha h => hfresh (h ▸ ha)
  rw [FdOp.run]
  cases hashAdd_shows hlimit T hfresh hfuel (intKey node.fd) with
  | inl h =>
    left
    rw [addSockfdNickMapNode]
    exact h.bind _
  | inr h =>
    obtain ⟨table, htable, hkey, T'⟩ := h
    have hkeys : ∀ a ∈ items ++ [m.next],
        table.hh.key a = intKey (Function.update m.node m.next node a).fd := by
      intro a ha
      rw [hkey]
      cases List.mem_append.mp ha with
      | inl ha =>
        rw [Function.update_of_ne (hne a ha), Function.update_of_ne (hne a ha)]
        exact H.key a ha
      | inr ha =>
        rw [List.mem_singleton.mp ha, Function.update_self, Function.update_self]
    right
    rw [addSockfdNickMapNode, htable]
    refine ⟨_, rfl, ⟨_, T', ?_⟩, hkeys, ?_⟩
    · -- the old nodes are where they were
      have hold : t.map (Function.update m.node m.next node) = h := by
        rw [ht, Chained.map, Chained.map]
        congr 1
        apply List.map_congr_left
        intro a ha
        exact Function.update_of_ne (hne a (T.perm.mem_iff.mp ha)) _ _
      have hnode : Function.update m.node m.next node m.next = node := Function.update_self _ _ _
      show Chirc.addSockfdNickMapNode h node =
        (t.add table.hh.hashv m.next).map (Function.update m.node m.next node)
      rw [Chained.map_add, hold, hnode]
      · rfl
      · intro a ha
        have ha' : a ∈ items ++ [m.next] := by
          rw [List.mem_append, List.mem_singleton]
          exact (List.mem_cons.mp ha).symm.imp_left T.perm.mem_iff.mp
        rw [T'.hashv a ha', hkeys a ha', hhash]
        rfl
    · intro a ha
      cases List.mem_append.mp ha with
      | inl ha => exact Nat.lt_succ_of_lt (H.lt a ha)
      | inr ha =>
        rw [List.mem_singleton.mp ha]
        exact Nat.lt_succ_self _

theorem del (H : Mirrors hash m h items) (hhash : ∀ fd, hash (intKey fd) = hashInt fd)
    (hfds : ∀ node ∈ h.items, node.fd < 4294967296) (hfd : fd < 4294967296)
    (hfuel : items.length < fuel) :
    ∃ m' items', (FdOp.del fd).run hash malloc fuel m = .ok m' ∧ items'.length ≤ items.length ∧
      Mirrors hash m' (Chirc.delSockfdNickMapNode h (Chirc.findSockfdNickMapNode h fd)) items' := by
  obtain ⟨r, hr, hnode⟩ := H.find hfds hfd hfuel
  obtain ⟨t, T, ht⟩ := H.shows
  have hfind : r = t.items.find? fun a => (m.node a).fd == fd := by
    have hr' := (hashFind_shows T hfuel (intKey fd)).symm.trans hr
    rw [← Except.ok.inj hr']
    exact List.find?_congr fun a ha => H.key_eq_iff hfds hfd T ht ha
  rw [FdOp.run, hr]
  cases r with
  | none =>
    rw [← hnode]
    exact ⟨m, items, rfl, Nat.le_refl _, H⟩
  | some a =>
    have ha : a ∈ items := T.perm.mem_iff.mp (List.mem_of_find?_eq_some hfind.symm)
    obtain ⟨table, htable, hkey, -, T'⟩ := hashDelete_shows T ha
    refine ⟨{ m with table := table }, items.erase a, ?_, List.length_erase_le, ⟨_, T', ?_⟩, ?_, ?_⟩
    · rw [Stop.ok_bind, delSockfdNickMapNode, htable]
      rfl
    · rw [← hnode, ht]
      symm
      refine Chained.map_del (q := fun node => node.fd == fd) ?_ hfind.symm
      rw [T.hashv a ha, H.key a ha, hhash]
      rfl
    · intro x hx
      rw [hkey]
      exact H.key x (List.mem_of_mem_erase hx)
    · intro x hx
      exact H.lt x (List.mem_of_mem_erase hx)

end Mirrors

def FdOp.fd : FdOp → Nat
  | .add node => node.fd
  | .del fd => fd

/-- The table after the operations, as lookups see it -/
def sockfdNicks (ops : List FdOp) : SockfdNickHash := ops.foldl FdOp.apply .empty

theorem sockfdNicks_concat (ops : List FdOp) (op : FdOp) :
    sockfdNicks (ops ++ [op]) = op.apply (sockfdNicks ops) := by
  rw [sockfdNicks, List.foldl_append]
  rfl

theorem mem_apply {h : SockfdNickHash} {op : FdOp} (hmem : node ∈ (op.apply h).items) :
    node ∈ h.items ∨ node.fd = op.fd := by
  cases op with
  | add node' =>
    cases Chained.mem_add.mp hmem with
    | inl h => exact .inr (congrArg SockfdNickMap.fd h)
    | inr h => exact .inl h
  | del fd => exact .inl ((delSockfdNickMapNode_sublist).subset hmem)

theorem fd_lt_of_mem {ops : List FdOp} (hfds : ∀ op ∈ ops, op.fd < 2147483648) :
    ∀ node ∈ (sockfdNicks ops).items, node.fd < 4294967296 := by
  induction ops using List.reverseRecOn with
  | nil => exact nofun
  | append_singleton ops op ih =>
    intro node hnode
    rw [sockfdNicks_concat] at hnode
    cases mem_apply hnode with
    | inl h => exact ih (fun op hop => hfds op (List.mem_append_left _ hop)) node h
    | inr h =>
      have := hfds op (List.mem_append_right _ (List.mem_singleton_self op))
      omega

/-- The operations on the table, which starts empty -/
def runFdOps (hash : List Byte → UInt32) (malloc : Nat → Bool) (fuel : Nat) (m : SockfdNodes)
    (ops : List FdOp) : Except Stop SockfdNodes :=
  ops.foldlM (FdOp.run hash malloc fuel) { m with table := ⟨m.table.hh, none⟩ }

theorem mirrors_runFdOps {ops : List FdOp} (hhash : ∀ fd, hash (intKey fd) = hashInt fd)
    (hlimit : malloc 68719476736 = false) (hfds : ∀ op ∈ ops, op.fd < 2147483648)
    (hfuel : ops.length < fuel) (m : SockfdNodes) :
    Refused malloc (runFdOps hash malloc fuel m ops) ∨
      ∃ m' items, runFdOps hash malloc fuel m ops = .ok m' ∧ items.length ≤ ops.length ∧
        Mirrors hash m' (sockfdNicks ops) items := by
  induction ops using List.reverseRecOn with
  | nil => exact .inr ⟨_, [], rfl, Nat.le_refl 0, ⟨.empty, ⟨rfl, rfl⟩, rfl⟩, nofun, nofun⟩
  | append_singleton ops op ih =>
    rw [List.length_append, List.length_singleton] at hfuel
    have hfds' : ∀ op ∈ ops, op.fd < 2147483648 :=
      fun op hop => hfds op (List.mem_append_left _ hop)
    have hfd : op.fd < 2147483648 := hfds op (List.mem_append_right _ (List.mem_singleton_self op))
    have hrun : runFdOps hash malloc fuel m (ops ++ [op]) =
        runFdOps hash malloc fuel m ops >>= fun m' => op.run hash malloc fuel m' := by
      rw [runFdOps, List.foldlM_append]
      congr
      funext m'
      rw [List.foldlM_cons]
      exact bind_pure _
    rw [hrun, sockfdNicks_concat, List.length_append, List.length_singleton]
    cases ih hfds' (by omega) with
    | inl h =>
      exact .inl (h.bind _)
    | inr h =>
      obtain ⟨m₁, items, h, hlen, H⟩ := h
      rw [h, Stop.ok_bind]
      cases op with
      | add node =>
        have hfuel' : items.length + 1 < fuel := by omega
        cases H.add hhash hlimit hfuel' node with
        | inl h => exact .inl h
        | inr h =>
          obtain ⟨m₂, h, H'⟩ := h
          refine .inr ⟨m₂, _, h, ?_, H'⟩
          rw [List.length_append, List.length_singleton]
          exact Nat.succ_le_succ hlen
      | del fd =>
        have hlt : fd < 4294967296 := Nat.lt_trans hfd (by decide)
        have hfuel' : items.length < fuel := by omega
        obtain ⟨m₂, items', h, hle, H'⟩ := H.del hhash (fd_lt_of_mem hfds') hlt hfuel'
        exact .inr ⟨m₂, items', h, by omega, H'⟩

/-- `HASH_JEN` as the hash function of a table -/
def jenkins (key : List Byte) : UInt32 :=
  match (hashJen 1 key).result with
  | .ok hashv => hashv
  | .error _ => 0

/-- A descriptor with two nodes, and ten nodes for another one, the last of which expands the
buckets -/
def tenNodes : List FdOp :=
  [.add ⟨5, lit "bob"⟩, .add ⟨5, lit "rob"⟩] ++
    (lit "abcdefghij").map fun a => .add ⟨4, [a]⟩

/-- No node has been allocated. -/
def SockfdNodes.empty : SockfdNodes := ⟨⟨.zero, none⟩, fun _ => ⟨0, []⟩, 0⟩

end Chirc.Uthash
