import Mathlib.Data.List.Basic
import Mathlib.Data.List.Find
import Chirc.Server.NodeLists

/-! # Deleting a name from a list

`del_user_node` is given the head pointer by value. It links past a node that has a predecessor; the
first node is freed, and the caller's pointer to it stays. `del_user_list_node` never moves on to
the next node, so that it ends only if the first node is the one to delete, or there is none. -/

namespace Chirc

open LinkedList

variable {name user : CStr}

/-! ## Lengths as `int` -/

theorem intLen_cases (s : CStr) :
    intLen s = s.length % 4294967296 ∨ intLen s = s.length % 4294967296 - 4294967296 := by
  have hsize : ((UInt32.size : Nat) : Int) = 4294967296 := rfl
  unfold intLen
  rw [Int.bmod_def, hsize]
  split
  · exact .inl rfl
  · exact .inr rfl

theorem intLen_of_lt (h : s.length < 2147483648) : intLen s = s.length := by
  have hsize : ((UInt32.size : Nat) : Int) = 4294967296 := rfl
  unfold intLen
  rw [Int.bmod_def, hsize]
  omega

theorem toSizeT_of_lt {n : Nat} (h : n < 256) : toSizeT n = n := by
  have hsize : ((UInt64.size : Nat) : Int) = 18446744073709551616 := rfl
  rw [toSizeT, hsize]
  omega

theorem eq_toSizeT_iff {n : Nat} (h : n < 256) (s : CStr) :
    n = toSizeT (intLen s) ↔ (n : Int) = intLen s := by
  have hsize : ((UInt64.size : Nat) : Int) = 18446744073709551616 := rfl
  have hcases := intLen_cases s
  rw [toSizeT, hsize]
  omega

theorem UserEntry.sameLen_iff {node : UserEntry} :
    node.sameLen name ↔ (node.name.str.length : Int) = intLen name := by
  have hlt := node.name.lt
  rw [UserEntry.sameLen, decide_eq_true_iff]
  exact eq_toSizeT_iff (by omega) name

theorem UserListEntry.sameLen_iff {node : UserListEntry} :
    node.sameLen user ↔ (node.user.str.length : Int) = intLen user := by
  have hlt := node.user.lt
  rw [UserListEntry.sameLen, decide_eq_true_iff, intLen_of_lt (by omega)]

/-- A node is found by the names that begin with its own and have its length as an `int`. -/
theorem UserEntry.isNamed_iff {node : UserEntry} : node.isNamed name ↔
    (node.name.str.length : Int) = intLen name ∧
      node.name.str = name.take node.name.str.length := by
  have hlt := node.name.lt
  rw [UserEntry.isNamed, Bool.and_eq_true, UserEntry.sameLen_iff]
  refine and_congr_right fun hlen => ?_
  rw [← hlen, toSizeT_of_lt (by omega), strncmpEq, decide_eq_true_iff, List.take_length]

theorem UserEntry.isNamed_of_eq {node : UserEntry} (h : node.name.str = name) :
    node.isNamed name := by
  have hlt := node.name.lt
  subst h
  rw [UserEntry.isNamed_iff, intLen_of_lt (by omega), List.take_length]
  exact ⟨rfl, rfl⟩

/-- A name whose length an `int` can hold finds the nodes with this name. -/
theorem UserEntry.isNamed_iff_of_lt {node : UserEntry} (h : name.length < 2147483648) :
    node.isNamed name ↔ node.name.str = name := by
  constructor
  · intro hnamed
    obtain ⟨hlen, htake⟩ := UserEntry.isNamed_iff.mp hnamed
    rw [intLen_of_lt h] at hlen
    rw [htake, Int.ofNat_inj.mp hlen, List.take_length]
  · exact UserEntry.isNamed_of_eq

/-- Two nodes that are found by one name have the same name. -/
theorem UserEntry.isNamed_unique {node node' : UserEntry} (h : node.isNamed name)
    (h' : node'.isNamed name) : node.name.str = node'.name.str := by
  obtain ⟨hlen, htake⟩ := UserEntry.isNamed_iff.mp h
  obtain ⟨hlen', htake'⟩ := UserEntry.isNamed_iff.mp h'
  rw [htake, htake', Int.ofNat_inj.mp (hlen.trans hlen'.symm)]

/-! ## The loops -/

variable {heap heap' : Heap UserEntry} {head : Option Nat} {l : List (Nat × UserEntry)}

theorem load_eq {heap : Heap ν} (h : heap p = some node) : load heap p = .ok node := by
  rw [load, h]

theorem findUserNodeLoop_pass (hp : heap p = some ⟨v, q⟩) (hv : ¬ v.isNamed name) :
    findUserNodeLoop heap name (r, some p) = .ok (.inr (r, q)) := by
  rw [findUserNodeLoop, load_eq hp, Res.ok_bind, if_neg hv]
  rfl

theorem findUserNodeLoop_found (hp : heap p = some ⟨v, q⟩) (hv : v.isNamed name) :
    findUserNodeLoop heap name (r, some p) = .ok (.inl (some p)) := by
  rw [findUserNodeLoop, load_eq hp, Res.ok_bind, if_pos hv]
  rfl

/-- `find_user_node` returns the first node that is found by the name. -/
theorem findUserNode_ends (H : Segment heap head l none) (name : CStr) :
    FindUserNode heap head name (.ok ((l.find? (·.2.isNamed name)).map Prod.fst)) := by
  cases hfind : l.find? (·.2.isNamed name) with
  | none =>
    refine H.ends (fun r _ => r) ?_ ?_
    · intro r node hnode q hp
      exact findUserNodeLoop_pass hp (by simpa using List.find?_eq_none.mp hfind node hnode)
    · rw [List.foldl_fixed]
      exact .leave rfl
  | some node =>
    obtain ⟨hnamed, l₁, l₂, rfl, hpassed⟩ := List.find?_eq_some_iff_append.mp hfind
    obtain ⟨q, hfirst, hrest⟩ := H.split
    refine hfirst.ends (fun r _ => r) ?_ ?_
    · intro r node hnode q hp
      exact findUserNodeLoop_pass hp (by simpa using hpassed node hnode)
    · rw [List.foldl_fixed]
      cases hrest with
      | cons hp _ => exact .leave (findUserNodeLoop_found hp hnamed)

theorem findUserNode_iff (H : Segment heap head l none) {r : Res (Option Nat)} :
    FindUserNode heap head name r ↔ r = .ok ((l.find? (·.2.isNamed name)).map Prod.fst) := by
  constructor
  · intro h
    exact h.unique (findUserNode_ends H name)
  · intro h
    rw [h]
    exact findUserNode_ends H name

/-- On the heap a name is found as in the list that stands for it, if an `int` can count it. -/
theorem findUserNode_refines (H : Segment heap head l none) (hname : name.length < 2147483648) :
    ∃ r, FindUserNode heap head name (.ok r) ∧
      r.bind (fun p => (heap p).map (·.val.toUserNode)) =
        findUserNode (l.map (·.2.toUserNode)) name := by
  refine ⟨_, findUserNode_ends H name, ?_⟩
  have hfind : l.find? (fun node => node.2.toUserNode.name == name) =
      l.find? (·.2.isNamed name) := by
    refine List.find?_congr fun node _ => ?_
    rw [Bool.eq_iff_iff, beq_iff_eq, UserEntry.isNamed_iff_of_lt hname]
    rfl
  rw [findUserNode, List.find?_map, Function.comp_def, hfind]
  cases hnode : l.find? (·.2.isNamed name) with
  | none => rfl
  | some node =>
    obtain ⟨q, hq⟩ := H.get_of_mem (List.mem_of_find?_eq_some hnode)
    rw [Option.map_some, Option.bind_some, hq]
    rfl

theorem delUserNodeLoop_pass (hp : heap p = some ⟨v, q⟩) (hv : ¬ v.isNamed name) :
    delUserNodeLoop heap name (prev, some p) = .ok (.inr (some p, q)) := by
  rw [delUserNodeLoop, load_eq hp, Res.ok_bind, if_neg hv]
  rfl

/-- Without a node that is found by the name nothing is deleted. -/
theorem delUserNode_absent (H : Segment heap head l none)
    (habsent : ∀ node ∈ l, ¬ node.2.isNamed name) : DelUserNode heap head name (.ok heap) := by
  refine H.ends (fun _ node => some node.1) ?_ (.leave rfl)
  intro prev node hnode q hp
  exact delUserNodeLoop_pass hp (habsent node hnode)

/-- The first node is freed, and nothing else happens. -/
theorem delUserNode_first (H : Segment heap head ((p, v) :: l) none) (hv : v.isNamed name) :
    DelUserNode heap head name (.ok (heap.free p)) := by
  cases H with
  | cons hp _ =>
    refine .leave ?_
    rw [delUserNodeLoop, load_eq hp, Res.ok_bind, if_pos hv]
    rfl

/-- A node with a predecessor is linked past and freed. -/
theorem delUserNode_later (H : Segment heap head (l₁ ++ (a, u) :: (b, v) :: l₂) none)
    (hpassed : ∀ node ∈ l₁ ++ [(a, u)], ¬ node.2.isNamed name) (hv : v.isNamed name) :
    ∃ q, heap b = some ⟨v, q⟩ ∧
      DelUserNode heap head name (.ok ((heap.setNext a q).free b)) := by
  have hsplit : l₁ ++ (a, u) :: (b, v) :: l₂ = (l₁ ++ [(a, u)]) ++ (b, v) :: l₂ := by simp
  rw [hsplit] at H
  obtain ⟨r, hfirst, hrest⟩ := H.split
  obtain ⟨r', -, hlast⟩ := hfirst.split
  cases hlast with
  | cons ha _ =>
    cases hrest with
    | @cons _ _ q _ _ hb _ =>
      refine ⟨q, hb, hfirst.ends (fun _ node => some node.1) ?_ ?_⟩
      · intro prev node hnode q hp
        exact delUserNodeLoop_pass hp (hpassed node hnode)
      · rw [List.foldl_append]
        refine .leave ?_
        rw [List.foldl_cons, List.foldl_nil, delUserNodeLoop, load_eq hb, Res.ok_bind, if_pos hv]
        simp only [storeNext, load_eq ha, Res.ok_bind, Res.pure_eq]

/-! ## What is left of the list -/

/-- The list is without the node named `x`, which is not found any more, and `y` finds what it found
before. -/
structure Deleted (heap heap' : Heap UserEntry) (head : Option Nat) (l : List (Nat × UserEntry))
    (x y : CStr) : Prop where
  list : Segment heap' head (l.filter (·.2.name.str ≠ x)) none
  same : ∀ r, FindUserNode heap' head y r ↔ FindUserNode heap head y r
  gone : FindUserNode heap' head x (.ok none)

/-- What is found follows from what the list is, if neither `x` nor `y` finds nodes that it should
not. -/
theorem Deleted.of_segment (H : Segment heap head l none)
    (hx : ∀ node ∈ l, node.2.isNamed x → node.2.name.str = x ∧ ¬ node.2.isNamed y)
    (hlist : Segment heap' head (l.filter (·.2.name.str ≠ x)) none) :
    Deleted heap heap' head l x y where
  list := hlist
  same := by
    intro r
    have hfind : (l.filter (·.2.name.str ≠ x)).find? (·.2.isNamed y) =
        l.find? (·.2.isNamed y) := by
      rw [List.find?_filter]
      refine List.find?_congr fun node hnode => ?_
      cases hy : node.2.isNamed y with
      | false => simp
      | true =>
        have hne : node.2.name.str ≠ x := fun h =>
          (hx node hnode (UserEntry.isNamed_of_eq h)).2 hy
        simp [hne]
    rw [findUserNode_iff hlist, findUserNode_iff H, hfind]
  gone := by
    rw [findUserNode_iff hlist, List.find?_eq_none.mpr]
    · rfl
    · intro node hnode hnamed
      obtain ⟨hmem, hne⟩ := List.mem_filter.mp hnode
      exact of_decide_eq_true hne (hx node hmem hnamed).1

/-- The other way round: a node that `x` finds is the one that is missing. -/
theorem Deleted.named (H : Segment heap head l none) (hdel : Deleted heap heap' head l x y) :
    ∀ node ∈ l, node.2.isNamed x → node.2.name.str = x ∧ ¬ node.2.isNamed y := by
  intro node hnode hnamed
  have hgone := (findUserNode_iff hdel.list).mp hdel.gone
  have hnone := Option.map_eq_none_iff.mp (Except.ok.inj hgone).symm
  have hname : node.2.name.str = x := by
    by_contra hne
    have hkept : node ∈ l.filter (·.2.name.str ≠ x) :=
      List.mem_filter.mpr ⟨hnode, decide_eq_true hne⟩
    exact List.find?_eq_none.mp hnone node hkept hnamed
  refine ⟨hname, ?_⟩
  intro hy
  -- `y` found a node with the name `x`, and there is none left
  have hsame := (findUserNode_iff hdel.list).mp ((hdel.same _).mpr (findUserNode_ends H y))
  cases hleft : (l.filter (·.2.name.str ≠ x)).find? (·.2.isNamed y) with
  | none =>
    rw [hleft] at hsame
    have hnone := Option.map_eq_none_iff.mp (Except.ok.inj hsame)
    exact List.find?_eq_none.mp hnone node hnode hy
  | some node' =>
    have hne := (List.mem_filter.mp (List.mem_of_find?_eq_some hleft)).2
    have hy' := List.find?_some hleft
    exact of_decide_eq_true hne ((UserEntry.isNamed_unique hy' hy).trans hname)

/-- The positions at which the node that is deleted can be -/
theorem named_cases (l : List (Nat × UserEntry)) (x : CStr) :
    (∀ node ∈ l, ¬ node.2.isNamed x) ∨
    (∃ p v l₂, l = (p, v) :: l₂ ∧ v.isNamed x) ∨
    ∃ l₁ a u b v l₂, l = l₁ ++ (a, u) :: (b, v) :: l₂ ∧ v.isNamed x ∧
      ∀ node ∈ l₁ ++ [(a, u)], ¬ node.2.isNamed x := by
  cases hfind : l.find? (·.2.isNamed x) with
  | none => exact .inl (by simpa using hfind)
  | some node =>
    obtain ⟨hnamed, l₁, l₂, rfl, hpassed⟩ := List.find?_eq_some_iff_append.mp hfind
    obtain rfl | ⟨l₁, ⟨a, u⟩, rfl⟩ := List.eq_nil_or_concat l₁
    · exact .inr (.inl ⟨node.1, node.2, l₂, rfl, hnamed⟩)
    · refine .inr (.inr ⟨l₁, a, u, node.1, node.2, l₂, by simp, hnamed, ?_⟩)
      intro node' hnode'
      simpa using hpassed node' (by simpa using hnode')

theorem filter_ne_of_nodup [DecidableEq β] {f : α → β} {l₁ l₂ : List α}
    (h : ((l₁ ++ a :: l₂).map f).Nodup) (ha : f a = b) :
    (l₁ ++ a :: l₂).filter (f · ≠ b) = l₁ ++ l₂ := by
  have hperm : ((a :: (l₁ ++ l₂)).map f).Nodup :=
    (List.Perm.nodup_iff (List.perm_middle.map f)).mp h
  have hother : ∀ c ∈ l₁ ++ l₂, f c ≠ b := by
    intro c hc heq
    refine (List.nodup_cons.mp hperm).1 ?_
    rw [ha, ← heq]
    exact List.mem_map_of_mem hc
  rw [List.filter_append, List.filter_cons_of_neg (by simp [ha]), ← List.filter_append,
    List.filter_eq_self.mpr]
  intro c hc
  exact decide_eq_true (hother c hc)

/-- The first node is freed under the caller's pointer. -/
theorem not_deleted_first (H : Segment heap head ((p, v) :: l) none) (hv : v.isNamed x)
    (hends : DelUserNode heap head x (.ok heap')) :
    ¬ Deleted heap heap' head ((p, v) :: l) x y := by
  intro hdel
  cases hends.unique (delUserNode_first H hv)
  have hlist := hdel.list
  rw [H.head_ne] at hlist
  exact Segment.not_free _ _ hlist

/-- **A deletion removes just the node with this name exactly if that node is not the first one**,
and no name that is longer than an `int` can count makes `x` find another node than its own, or `y`
the node of `x`. -/
theorem delUserNode_deletes_iff (H : Segment heap head l none)
    (hnames : (l.map (·.2.name.str)).Nodup) (x y : CStr) :
    (∃ heap', DelUserNode heap head x (.ok heap') ∧ Deleted heap heap' head l x y) ↔
      (∀ node ∈ l.head?, ¬ node.2.isNamed x) ∧
      ∀ node ∈ l, node.2.isNamed x → node.2.name.str = x ∧ ¬ node.2.isNamed y := by
  constructor
  · intro ⟨heap', hends, hdel⟩
    refine ⟨?_, hdel.named H⟩
    intro node hnode hnamed
    obtain ⟨l₂, rfl⟩ := List.head?_eq_some_iff.mp hnode
    exact not_deleted_first H hnamed hends hdel
  · intro ⟨hfirst, hx⟩
    obtain habsent | ⟨p, v, l₂, rfl, hv⟩ | ⟨l₁, a, u, b, v, l₂, rfl, hv, hpassed⟩ := named_cases l x
    · refine ⟨heap, delUserNode_absent H habsent, .of_segment H hx ?_⟩
      rw [List.filter_eq_self.mpr]
      · exact H
      · intro node hnode
        exact decide_eq_true fun h => habsent node hnode (UserEntry.isNamed_of_eq h)
    · exact absurd hv (hfirst _ rfl)
    · obtain ⟨q, hb, hends⟩ := delUserNode_later H hpassed hv
      refine ⟨_, hends, .of_segment H hx ?_⟩
      have hname : v.name.str = x := (hx (b, v) (by simp) hv).1
      have hsplit : l₁ ++ (a, u) :: (b, v) :: l₂ = (l₁ ++ [(a, u)]) ++ (b, v) :: l₂ := by simp
      have hfilter : ((l₁ ++ [(a, u)]) ++ (b, v) :: l₂).filter (·.2.name.str ≠ x) =
          (l₁ ++ [(a, u)]) ++ l₂ := filter_ne_of_nodup (hsplit ▸ hnames) hname
      rw [hsplit, hfilter]
      simpa using H.unlink hb

/-- For names that an `int` can count, this only asks for another name on the first node. -/
theorem deletes_of_lt (hx : x.length < 2147483648) (hy : y.length < 2147483648) (hne : y ≠ x) :
    ((∀ node ∈ l.head?, ¬ node.2.isNamed x) ∧
      ∀ node ∈ l, node.2.isNamed x → node.2.name.str = x ∧ ¬ node.2.isNamed y) ↔
      ∀ node ∈ l.head?, node.2.name.str ≠ x := by
  simp only [UserEntry.isNamed_iff_of_lt hx, UserEntry.isNamed_iff_of_lt hy]
  refine and_iff_left ?_
  intro node _ hname
  exact ⟨hname, fun h => hne (h.symm.trans hname)⟩

def userEntry (name : CharArray 128) : UserEntry := ⟨name, none⟩

def amy : CharArray 128 := ⟨lit "amy", by decide, by decide⟩
def bob : CharArray 128 := ⟨lit "bob", by decide, by decide⟩

/-- The list of amy, bob -/
def amyBob : Heap UserEntry
  | 1 => some ⟨userEntry amy, some 2⟩
  | 2 => some ⟨userEntry bob, none⟩
  | _ => none

theorem segment_amyBob :
    Segment amyBob (some 1) [(1, userEntry amy), (2, userEntry bob)] none :=
  .cons rfl (.cons rfl .nil)

theorem delUserNode_bob :
    ∃ heap', DelUserNode amyBob (some 1) (lit "bob") (.ok heap') ∧
      Deleted amyBob heap' (some 1) [(1, userEntry amy), (2, userEntry bob)] (lit "bob")
        (lit "amy") := by
  refine (delUserNode_deletes_iff segment_amyBob (by decide) _ _).mpr ?_
  refine (deletes_of_lt (by decide) (by decide) (by decide)).mpr ?_
  intro node hnode
  cases hnode
  decide

/-- Deleting the first node leaves the caller with a pointer to it. -/
theorem not_deletes_amy :
    ¬ ∀ (heap : Heap UserEntry) (head : Option Nat) (l : List (Nat × UserEntry)),
      Segment heap head l none → (l.map (·.2.name.str)).Nodup → ∀ x y, y ≠ x →
        ∃ heap', DelUserNode heap head x (.ok heap') ∧ Deleted heap heap' head l x y := by
  intro hall
  obtain ⟨heap', hends, hdel⟩ :=
    hall _ _ _ segment_amyBob (by decide) (lit "amy") (lit "bob") (by decide)
  exact not_deleted_first segment_amyBob (by decide) hends hdel

/-! ## `del_user_list_node` -/

section UserList

variable {heap heap' : Heap UserListEntry} {head : Option Nat} {l : List (Nat × UserListEntry)}

theorem delUserListNodeLoop_deletes (hp : heap p = some ⟨v, q⟩) (hv : v.isUser user) :
    delUserListNodeLoop user ((heap, none), some p) = .ok (.inr ((heap.free p, none), none)) := by
  rw [delUserListNodeLoop, load_eq hp, Res.ok_bind, if_pos hv]
  rfl

/-- The round of a node that is not deleted changes nothing. -/
theorem delUserListNodeLoop_stays (hp : heap p = some ⟨v, q⟩) (hv : ¬ v.isUser user) :
    delUserListNodeLoop user ((heap, prev), some p) = .ok (.inr ((heap, prev), some p)) := by
  rw [delUserListNodeLoop, load_eq hp, Res.ok_bind, if_neg hv]
  rfl

theorem delUserListNode_first (H : Segment heap head ((p, v) :: l) none) (hv : v.isUser user) :
    DelUserListNode heap head user (.ok (heap.free p)) := by
  cases H with
  | cons hp _ => exact .next (delUserListNodeLoop_deletes hp hv) (.leave rfl)

/-- The loop is at the first node forever if this is not the one to delete. -/
theorem not_delUserListNode (H : Segment heap head ((p, v) :: l) none) (hv : ¬ v.isUser user)
    (r : Res (Heap UserListEntry)) : ¬ DelUserListNode heap head user r := by
  cases H with
  | cons hp _ =>
    refine While.not_ends_of_invariant (I := (· = ((heap, none), some p))) ?_ rfl r
    intro s hs
    subst hs
    exact ⟨_, delUserListNodeLoop_stays hp hv, rfl⟩

/-- The loop ends if the list is empty or the first node is the one to delete. -/
theorem delUserListNode_ends_iff (H : Segment heap head l none) (user : CStr) :
    (∃ r, DelUserListNode heap head user r) ↔ ∀ node ∈ l.head?, node.2.isUser user := by
  cases l with
  | nil =>
    cases H with
    | nil => exact iff_of_true ⟨_, .leave rfl⟩ nofun
  | cons node l =>
    obtain ⟨p, v⟩ := node
    constructor
    · intro ⟨r, hends⟩ node hnode
      cases hnode
      by_contra hv
      exact not_delUserListNode H hv r hends
    · intro hfirst
      have hv : v.isUser user := hfirst (p, v) rfl
      exact ⟨_, delUserListNode_first H hv⟩

/-- Whoever has a list with a node in it has none afterwards. -/
theorem not_removed (H : Segment heap head (node :: l) none) (l' : List (Nat × UserListEntry))
    (hends : DelUserListNode heap head user (.ok heap')) : ¬ Segment heap' head l' none := by
  obtain ⟨p, v⟩ := node
  have hfirst : v.isUser user := (delUserListNode_ends_iff H user).mp ⟨_, hends⟩ (p, v) rfl
  cases hends.unique (delUserListNode_first H hfirst)
  rw [H.head_ne]
  exact Segment.not_free _ _

/-- **`del_user_list_node` ends and removes just the node of the user exactly if the list is
empty.** -/
theorem delUserListNode_removes_iff (H : Segment heap head l none) (user : CStr) :
    (∃ heap', DelUserListNode heap head user (.ok heap') ∧
      Segment heap' head (l.eraseP (·.2.user.str = user)) none) ↔ l = [] := by
  cases l with
  | nil =>
    cases H with
    | nil => exact iff_of_true ⟨heap, .leave rfl, .nil⟩ rfl
  | cons node l =>
    refine iff_of_false ?_ (List.cons_ne_nil _ _)
    intro ⟨heap', hends, hremoved⟩
    exact not_removed H _ hends hremoved

theorem delUserListNode_empty :
    ∃ heap', DelUserListNode (fun _ => none) none (lit "amy") (.ok heap') ∧
      Segment heap' none [] none :=
  (delUserListNode_removes_iff .nil (lit "amy")).mpr rfl

def bobNode : UserListEntry := ⟨⟨lit "bob", by decide, by decide⟩⟩

/-- A list with the one node bob, from which amy is to be deleted -/
theorem not_removes_amy :
    ¬ ∀ (heap : Heap UserListEntry) (head : Option Nat) (l : List (Nat × UserListEntry)),
      Segment heap head l none → ∀ user,
        ∃ heap', DelUserListNode heap head user (.ok heap') ∧
          Segment heap' head (l.eraseP (·.2.user.str = user)) none := by
  intro hall
  obtain ⟨heap', hends, -⟩ :=
    hall (fun _ => some ⟨bobNode, none⟩) (some 1) _ (.cons rfl .nil) (lit "amy")
  exact not_delUserListNode (.cons rfl .nil) (by decide) _ hends

end UserList

end Chirc
