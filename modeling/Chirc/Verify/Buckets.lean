import Chirc.Chained
import Chirc.Theory.Counting
import Mathlib.Data.List.Basic

/-! # The chains of a hash table

What the handles of a bucket are, which the lookups and the stores of `uthash.h` follow and change:
`Chains` gives for each bucket the list of its handles, the first one of the chain first. An
addition puts a handle at the front of one list, a deletion takes it out, and an expansion deals out
the handles of all lists to twice as many, so that those of a list come in the opposite order. -/

namespace Chirc.Uthash

open DoublyLinked (Chain)
open DoublyLinked.Chain (setAt)

/-! ## Numbers of buckets -/

theorem hashToBkt_lt (hashv : UInt32) (hn : n ≠ 0) : hashToBkt hashv n < n.toNat := by
  have hle : 1 ≤ n := by
    rw [UInt32.le_iff_toNat_le]
    exact Nat.one_le_iff_ne_zero.mpr fun h => hn (UInt32.toNat_inj.mp h)
  have hpos : 1 ≤ n.toNat := UInt32.le_iff_toNat_le.mp hle
  unfold hashToBkt
  rw [UInt32.toNat_and, UInt32.toNat_sub_of_le _ _ hle]
  refine Nat.lt_of_le_of_lt Nat.and_le_right ?_
  show n.toNat - 1 < n.toNat
  omega

theorem bucketAt_of_get {buckets : List Bucket} (h : buckets[i]? = some b) :
    bucketAt buckets i = .ok b := by
  rw [bucketAt, h]

/-- The members of a bucket other than its chain -/
def Bucket.load (b : Bucket) : Load := ⟨b.count, b.expandMult⟩

/-- What the moves have made of the loads, and `nonideal_items` -/
def Expansion.loads (e : Expansion) : List Load × UInt32 :=
  (e.newBuckets.map Bucket.load, e.nonidealItems)

theorem getD_loads {buckets : List Bucket} (h : buckets[i]? = some b) :
    (buckets.map Bucket.load).getD i ⟨0, 0⟩ = b.load := by
  rw [List.getD_eq_getElem?_getD, List.getElem?_map, h]
  rfl

/-! ## Chains -/

/-- The handles in the chain of a bucket -/
structure Bucket.Holds (b : Bucket) (hh : Handles) (l : List Nat) : Prop where
  chain : Chain hh.hhNext hh.hhPrev none b.hhHead l
  count : b.count = UInt32.ofNat l.length

/-- The handles in the chains of an array of `n` buckets, each of them in the bucket of its hash
value -/
structure Chains (hh : Handles) (buckets : List Bucket) (n : UInt32) (chain : Nat → List Nat) :
    Prop where
  size : buckets.length = n.toNat
  pos : n ≠ 0
  holds : ∀ {i : Nat} {b : Bucket}, buckets[i]? = some b → b.Holds hh (chain i)
  bkt : ∀ {i a : Nat}, a ∈ chain i → hashToBkt (hh.hashv a) n = i

/-- A chain is walked along its links and stops at the first handle with the key. -/
theorem hashFindInBkt_eq {hh : Handles} (H : Chain hh.hhNext hh.hhPrev b p l)
    (hfuel : l.length < fuel) : hashFindInBkt hh key hashv fuel p =
      .ok (l.find? fun a => hh.hashv a = hashv ∧ hh.key a = key) := by
  induction fuel generalizing b p l with
  | zero => omega
  | succ fuel ih =>
    cases H with
    | nil => rfl
    | @cons a _ l _ rest =>
      rw [hashFindInBkt, List.find?_cons]
      rw [List.length_cons] at hfuel
      cases hmatch : decide (hh.hashv a = hashv ∧ hh.key a = key) with
      | true => rw [if_pos (of_decide_eq_true hmatch)]
      | false =>
        rw [if_neg (of_decide_eq_false hmatch)]
        exact ih rest (by omega)

namespace Chains

variable {hh hh' : Handles} {chain : Nat → List Nat}

theorem lt (C : Chains hh buckets n chain) (hashv : UInt32) :
    hashToBkt hashv n < buckets.length := C.size ▸ hashToBkt_lt hashv C.pos

theorem get (C : Chains hh buckets n chain) (hashv : UInt32) :
    ∃ b, buckets[hashToBkt hashv n]? = some b ∧ b.Holds hh (chain (hashToBkt hashv n)) := by
  have hb := List.getElem?_eq_getElem (C.lt hashv)
  exact ⟨_, hb, C.holds hb⟩

/-- A handle is in the chain of its bucket or in none. -/
theorem not_mem (C : Chains hh buckets n chain) (ha : a ∉ chain (hashToBkt (hh.hashv a) n))
    (i : Nat) : a ∉ chain i := by
  intro hmem
  rw [C.bkt hmem] at ha
  exact ha hmem

/-- Only the links in the chains and the hash values of the handles in them count. -/
theorem congr (C : Chains hh buckets n chain)
    (hnext : ∀ i, ∀ a ∈ chain i, hh'.hhNext a = hh.hhNext a)
    (hprev : ∀ i, ∀ a ∈ chain i, hh'.hhPrev a = hh.hhPrev a)
    (hhashv : ∀ i, ∀ a ∈ chain i, hh'.hashv a = hh.hashv a) : Chains hh' buckets n chain where
  size := C.size
  pos := C.pos
  holds := by
    intro i b hb
    exact ⟨(C.holds hb).chain.congr (hnext i) (hprev i), (C.holds hb).count⟩
  bkt := by
    intro i a ha
    rw [hhashv i a ha]
    exact C.bkt ha

/-- `bzero` leaves empty chains. -/
theorem zero (hh : Handles) (hn : n ≠ 0) :
    Chains hh (List.replicate n.toNat .zero) n fun _ => [] where
  size := List.length_replicate
  pos := hn
  holds := by
    intro i b hb
    obtain ⟨-, rfl⟩ := List.mem_replicate.mp (List.mem_of_getElem? hb)
    exact ⟨.nil, rfl⟩
  bkt := nofun

/-- A handle that is in no chain becomes the first one in the chain of its bucket. -/
theorem push (C : Chains hh buckets n chain) (hi : i = hashToBkt (hh.hashv a) n)
    (hb : buckets[i]? = some b) (ha : a ∉ chain i) (hhead : b'.hhHead = some a)
    (hcount : b'.count = b.count + 1) :
    Chains (hh.pushHh b.hhHead a) (buckets.set i b') n
      (Function.update chain i (a :: chain i)) := by
  have hnone : ∀ j, a ∉ chain j := C.not_mem (hi ▸ ha)
  have hne : ∀ j, ∀ x ∈ chain j, x ≠ a := by
    rintro j x hx rfl
    exact hnone j hx
  constructor
  · rw [List.length_set, C.size]
  · exact C.pos
  · intro j c hc
    rcases Decidable.eq_or_ne i j with rfl | hij
    · have hlt : i < buckets.length := (List.getElem?_eq_some_iff.mp hb).1
      rw [List.getElem?_set_self hlt] at hc
      cases hc
      rw [Function.update_self]
      refine ⟨?_, ?_⟩
      · rw [hhead]
        exact (C.holds hb).chain.push ha
      · rw [hcount, (C.holds hb).count, List.length_cons, UInt32.ofNat_add]
        rfl
    · rw [List.getElem?_set_ne hij] at hc
      rw [Function.update_of_ne (Ne.symm hij)]
      refine ⟨(C.holds hc).chain.congr ?_ ?_, (C.holds hc).count⟩
      · intro x hx
        exact Function.update_of_ne (hne j x hx) _ _
      · intro x hx
        show setAt _ _ _ _ = _
        rw [DoublyLinked.Chain.setAt_of_ne, Function.update_of_ne (hne j x hx)]
        rw [(C.holds hb).chain.head_eq]
        -- the first handle of a chain is in no other
        intro hx'
        exact hij ((C.bkt (List.mem_of_mem_head? hx')).symm.trans (C.bkt hx))
  · intro j x hx
    rcases Decidable.eq_or_ne j i with rfl | hij
    · rw [Function.update_self] at hx
      cases List.mem_cons.mp hx with
      | inl h => rw [h, hi]; rfl
      | inr h => exact C.bkt h
    · rw [Function.update_of_ne hij] at hx
      exact C.bkt hx

end Chains

/-! ## Taking a handle out of its chain -/

/-- Only the links of chains differ. -/
structure SameStructs (hh hh' : Handles) : Prop where
  next : hh'.next = hh.next
  prev : hh'.prev = hh.prev
  key : hh'.key = hh.key
  hashv : hh'.hashv = hh.hashv

theorem SameStructs.trans (H : SameStructs hh hh') (H' : SameStructs hh' hh'') :
    SameStructs hh hh'' :=
  ⟨H'.next.trans H.next, H'.prev.trans H.prev, H'.key.trans H.key, H'.hashv.trans H.hashv⟩

theorem Chains.del {hh : Handles} {chain : Nat → List Nat} (C : Chains hh buckets n chain)
    (ha : a ∈ chain i) : ∃ hh' buckets', hashDelInBkt hh buckets i a = .ok (hh', buckets') ∧
      Chains hh' buckets' n (Function.update chain i ((chain i).erase a)) ∧ SameStructs hh hh' ∧
      ∃ b, buckets[i]? = some b ∧ buckets'.map Bucket.load =
        (buckets.map Bucket.load).set i ⟨b.count - 1, b.expandMult⟩ := by
  have hi : i < buckets.length := C.bkt ha ▸ C.lt (hh.hashv a)
  have hb := List.getElem?_eq_getElem hi
  have H := (C.holds hb).chain
  obtain ⟨l, r, hlr⟩ := List.append_of_mem ha
  have hnodup := H.nodup
  rw [hlr] at H hnodup
  have herase : (chain i).erase a = l ++ r := by
    have hal : a ∉ l := by
      intro hal
      exact (List.nodup_append.mp hnodup).2.2 a hal a List.mem_cons_self rfl
    rw [hlr, List.erase_append_right _ hal, List.erase_cons_head]
  have hcount := (C.holds hb).count
  rw [hashDelInBkt, bucketAt_of_get hb]
  refine ⟨_, _, rfl, ?_, ⟨rfl, rfl, rfl, rfl⟩, _, hb, List.map_set⟩
  constructor
  · rw [List.length_set, C.size]
  · exact C.pos
  · intro j c hc
    rcases Decidable.eq_or_ne i j with rfl | hij
    · rw [List.getElem?_set_self hi] at hc
      cases hc
      rw [Function.update_self, herase]
      refine ⟨H.unlink nofun, ?_⟩
      show buckets[i].count - 1 = _
      rw [hcount, hlr, List.length_append, List.length_cons, List.length_append, ← Nat.add_assoc,
        UInt32.ofNat_add _ 1]
      exact UInt32.add_sub_cancel _ _
    · rw [List.getElem?_set_ne hij] at hc
      rw [Function.update_of_ne (Ne.symm hij)]
      -- the neighbours of the handle are in its own chain
      have hother : ∀ x ∈ chain j, x ∉ chain i := by
        intro x hx hx'
        exact hij ((C.bkt hx').symm.trans (C.bkt hx))
      refine ⟨(C.holds hc).chain.congr ?_ ?_, (C.holds hc).count⟩
      · intro x hx
        apply DoublyLinked.Chain.setAt_of_ne
        rw [H.prev_eq, Option.or_none]
        intro h
        apply hother x hx
        rw [hlr]
        exact List.mem_append_left _ (List.mem_of_getLast? h)
      · intro x hx
        apply DoublyLinked.Chain.setAt_of_ne
        rw [H.tail_of_append.head_eq]
        intro h
        apply hother x hx
        rw [hlr]
        exact List.mem_append_right _ (List.mem_cons_of_mem _ (List.mem_of_mem_head? h))
  · intro j x hx
    rcases Decidable.eq_or_ne j i with rfl | hij
    · rw [Function.update_self] at hx
      exact C.bkt (List.mem_of_mem_erase hx)
    · rw [Function.update_of_ne hij] at hx
      exact C.bkt hx

/-! ## Expansions -/

/-- The handles of `l`, dealt out one after the other: each comes to the front of its list. -/
def deal (bkt : Nat → Nat) (l : List Nat) (i : Nat) : List Nat :=
  (l.filter fun a => bkt a = i).reverse

theorem mem_deal : a ∈ deal bkt l i ↔ a ∈ l ∧ bkt a = i := by
  rw [deal, List.mem_reverse, List.mem_filter, decide_eq_true_iff]

theorem deal_append_singleton (bkt : Nat → Nat) (l : List Nat) (a : Nat) :
    deal bkt (l ++ [a]) = Function.update (deal bkt l) (bkt a) (a :: deal bkt l (bkt a)) := by
  funext i
  rw [deal, List.filter_append, List.reverse_append]
  rcases Decidable.eq_or_ne i (bkt a) with rfl | hi
  · rw [Function.update_self, List.filter_cons_of_pos (by simp)]
    rfl
  · rw [Function.update_of_ne hi, List.filter_cons_of_neg (by simpa using Ne.symm hi)]
    rfl

/-- The links of the handles that are not in `l` stay. -/
def Elsewhere (l : List Nat) (hh hh' : Handles) : Prop :=
  ∀ x, x ∉ l → hh'.hhNext x = hh.hhNext x ∧ hh'.hhPrev x = hh.hhPrev x

/-- A round of the inner loop: the handle `a` is moved after those of `l`. -/
theorem moveHandle_ok {e : Expansion} {bkt : Nat → Nat}
    (hbkt : ∀ a, hashToBkt (e.hh.hashv a) n = bkt a)
    (C : Chains e.hh e.newBuckets n (deal bkt l)) (ha : a ∉ l) (ideal : UInt32) :
    ∃ e', moveHandle n ideal e a = .ok e' ∧ Chains e'.hh e'.newBuckets n (deal bkt (l ++ [a])) ∧
      SameStructs e.hh e'.hh ∧ Elsewhere (l ++ [a]) e.hh e'.hh ∧
      e'.loads = Chained.moveLoad e.hh.hashv n ideal e.loads a := by
  obtain ⟨b, hb, hholds⟩ := C.get (e.hh.hashv a)
  rw [hbkt] at hb hholds
  have hfree : a ∉ deal bkt l (bkt a) := fun h => ha (mem_deal.mp h).1
  rw [moveHandle, hbkt, bucketAt_of_get hb]
  refine ⟨_, rfl, ?_, ⟨rfl, rfl, rfl, rfl⟩, ?_, ?_⟩
  · rw [deal_append_singleton]
    exact C.push (hbkt a).symm hb hfree rfl rfl
  · intro x hx
    have hxa : x ≠ a := fun h => hx (h ▸ List.mem_append_right _ (List.mem_singleton_self _))
    refine ⟨Function.update_of_ne hxa _ _, ?_⟩
    show setAt _ _ _ _ = _
    rw [DoublyLinked.Chain.setAt_of_ne, Function.update_of_ne hxa]
    rw [hholds.chain.head_eq]
    intro h
    exact hx (List.mem_append_left _ (mem_deal.mp (List.mem_of_mem_head? h)).1)
  · simp only [Chained.moveLoad, Expansion.loads, hbkt, getD_loads hb, List.map_set]
    rfl

/-- The inner loop: the handles `r` of a chain are moved after those of `l`. -/
theorem moveChain_ok {e : Expansion} {bkt : Nat → Nat}
    (hbkt : ∀ a, hashToBkt (e.hh.hashv a) n = bkt a)
    (C : Chains e.hh e.newBuckets n (deal bkt l)) (H : Chain e.hh.hhNext e.hh.hhPrev b p r)
    (hnodup : (l ++ r).Nodup) (hfuel : r.length < fuel) (ideal : UInt32) :
    ∃ e', moveChain n ideal fuel p e = .ok e' ∧ Chains e'.hh e'.newBuckets n (deal bkt (l ++ r)) ∧
      SameStructs e.hh e'.hh ∧ Elsewhere (l ++ r) e.hh e'.hh ∧
      e'.loads = r.foldl (Chained.moveLoad e.hh.hashv n ideal) e.loads := by
  induction fuel generalizing e l b p r with
  | zero => omega
  | succ fuel ih =>
    cases H with
    | nil =>
      rw [List.append_nil]
      exact ⟨e, rfl, C, ⟨rfl, rfl, rfl, rfl⟩, fun _ _ => ⟨rfl, rfl⟩, rfl⟩
    | @cons a _ r _ rest =>
      rw [List.length_cons] at hfuel
      have hsplit : l ++ a :: r = l ++ [a] ++ r := (List.append_assoc l [a] r).symm
      rw [hsplit] at hnodup ⊢
      obtain ⟨hleft, -, hdisj⟩ := List.nodup_append.mp hnodup
      have ha : a ∉ l := by
        intro hal
        exact (List.nodup_append.mp hleft).2.2 a hal a (List.mem_singleton_self a) rfl
      obtain ⟨e₁, he₁, C₁, S₁, E₁, L₁⟩ := moveHandle_ok hbkt C ha ideal
      -- the rest of the chain is not touched by the move
      have hrest : Chain e₁.hh.hhNext e₁.hh.hhPrev (some a) (e.hh.hhNext a) r := by
        have hfree : ∀ x ∈ r, x ∉ l ++ [a] := fun x hx hx' => hdisj x hx' x hx rfl
        exact rest.congr (fun x hx => (E₁ x (hfree x hx)).1) fun x hx => (E₁ x (hfree x hx)).2
      have hbkt₁ : ∀ a, hashToBkt (e₁.hh.hashv a) n = bkt a := by
        rw [S₁.hashv]
        exact hbkt
      obtain ⟨e₂, he₂, C₂, S₂, E₂, L₂⟩ := ih hbkt₁ C₁ hrest hnodup (by omega)
      refine ⟨e₂, ?_, C₂, S₁.trans S₂, ?_, ?_⟩
      · rw [moveChain, he₁]
        exact he₂
      · intro x hx
        have hx' : x ∉ l ++ [a] := fun h => hx (List.mem_append_left _ h)
        exact ⟨(E₂ x hx).1.trans (E₁ x hx').1, (E₂ x hx).2.trans (E₁ x hx').2⟩
      · rw [L₂, L₁, S₁.hashv, List.foldl_cons]

/-- The handles of the first `i` buckets, chain by chain -/
def firstChains (chain : Nat → List Nat) (i : Nat) : List Nat := (List.range i).flatMap chain

theorem firstChains_succ (chain : Nat → List Nat) (i : Nat) :
    firstChains chain (i + 1) = firstChains chain i ++ chain i := by
  rw [firstChains, List.range_succ, List.flatMap_append]
  simp [firstChains]

/-- The chains of the buckets below `n` among all items -/
theorem filter_firstChains {chain : Nat → List Nat} {bkt : Nat → Nat}
    (hbkt : ∀ j, ∀ a ∈ chain j, bkt a = j) (q : Nat → Bool) (hq : ∀ a, q a → bkt a = j) :
    (firstChains chain n).filter q = if j < n then (chain j).filter q else [] := by
  induction n with
  | zero => rfl
  | succ n ih =>
    rw [firstChains_succ, List.filter_append, ih]
    have hnil (hne : j ≠ n) : (chain n).filter q = [] := by
      rw [List.filter_eq_nil_iff]
      intro a ha hqa
      exact hne ((hq a hqa).symm.trans (hbkt n a ha))
    rcases Nat.lt_trichotomy j n with h | rfl | h
    · rw [if_pos h, if_pos (Nat.lt_succ_of_lt h), hnil (Nat.ne_of_lt h), List.append_nil]
    · rw [if_neg (Nat.lt_irrefl j), if_pos (Nat.lt_succ_self j), List.nil_append]
    · rw [if_neg (Nat.lt_asymm h), if_neg (by omega), hnil (Nat.ne_of_gt h), List.append_nil]

theorem mem_firstChains {chain : Nat → List Nat} :
    a ∈ firstChains chain i ↔ ∃ j < i, a ∈ chain j := by
  simp [firstChains, List.mem_flatMap]

theorem Chains.nodup_firstChains {hh : Handles} {chain : Nat → List Nat}
    (C : Chains hh buckets n chain) (hi : i ≤ buckets.length) : (firstChains chain i).Nodup := by
  induction i with
  | zero => exact List.nodup_nil
  | succ i ih =>
    rw [firstChains_succ]
    refine List.nodup_append.mpr ⟨ih (by omega), ?_, ?_⟩
    · exact (C.holds (List.getElem?_eq_getElem hi)).chain.nodup
    · rintro x hx _ hx' rfl
      obtain ⟨j, hj, hmem⟩ := mem_firstChains.mp hx
      have := (C.bkt hmem).symm.trans (C.bkt hx')
      omega

theorem moveChains_ok {hh : Handles} {tbl : Table} {chain : Nat → List Nat} {bkt : Nat → Nat}
    (C : Chains hh tbl.buckets tbl.numBuckets chain) (hm : m ≠ 0)
    (hbkt : ∀ a, hashToBkt (hh.hashv a) m = bkt a) (hfuel : ∀ i, (chain i).length < fuel)
    (ideal : UInt32) : ∃ e, moveChains fuel hh tbl m.toNat m ideal = .ok e ∧
      Chains e.hh e.newBuckets m (deal bkt (firstChains chain tbl.numBuckets.toNat)) ∧
      SameStructs hh e.hh ∧
      e.loads = (firstChains chain tbl.numBuckets.toNat).foldl (Chained.moveLoad hh.hashv m ideal)
        (List.replicate m.toNat ⟨0, 0⟩, 0) := by
  have hloop := Counting.foldlM_range_ok (n := tbl.numBuckets.toNat)
    (s := (⟨hh, List.replicate m.toNat .zero, 0⟩ : Expansion))
    (f := fun e i => do
      let b ← bucketAt tbl.buckets i
      moveChain m ideal fuel b.hhHead e)
    (P := fun i e => Chains e.hh e.newBuckets m (deal bkt (firstChains chain i)) ∧
      SameStructs hh e.hh ∧ Elsewhere (firstChains chain i) hh e.hh ∧
      e.loads = (firstChains chain i).foldl (Chained.moveLoad hh.hashv m ideal)
        (List.replicate m.toNat ⟨0, 0⟩, 0))
    ⟨Chains.zero hh hm, ⟨rfl, rfl, rfl, rfl⟩, fun _ _ => ⟨rfl, rfl⟩, ?_⟩ ?_
  · obtain ⟨e, he, C', S, -, L⟩ := hloop
    exact ⟨e, he, C', S, L⟩
  · rw [Expansion.loads, List.map_replicate]
    rfl
  · intro i e hi ⟨C', S, E, L⟩
    rw [← C.size] at hi
    have hb := List.getElem?_eq_getElem hi
    have hnodup := C.nodup_firstChains hi
    rw [firstChains_succ] at hnodup
    have hbkt' : ∀ a, hashToBkt (e.hh.hashv a) m = bkt a := by
      rw [S.hashv]
      exact hbkt
    have hchain : Chain e.hh.hhNext e.hh.hhPrev none tbl.buckets[i].hhHead (chain i) := by
      have hfree : ∀ x ∈ chain i, x ∉ firstChains chain i :=
        fun x hx hx' => (List.nodup_append.mp hnodup).2.2 x hx' x hx rfl
      exact (C.holds hb).chain.congr (fun x hx => (E x (hfree x hx)).1)
        fun x hx => (E x (hfree x hx)).2
    obtain ⟨e', he', C'', S', E', L'⟩ := moveChain_ok hbkt' C' hchain hnodup (hfuel i) ideal
    rw [← firstChains_succ] at C'' E'
    refine ⟨e', ?_, C'', S.trans S', ?_, ?_⟩
    · rw [bucketAt_of_get hb]
      exact he'
    · intro x hx
      have hx' : x ∉ firstChains chain i := by
        intro h
        rw [firstChains_succ] at hx
        exact hx (List.mem_append_left _ h)
      exact ⟨(E' x hx).1.trans (E x hx').1, (E' x hx).2.trans (E x hx').2⟩
    · rw [L', L, S.hashv, firstChains_succ, List.foldl_append]

end Chirc.Uthash
