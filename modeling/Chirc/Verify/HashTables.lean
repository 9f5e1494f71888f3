import Chirc.Verify.Buckets
import Mathlib.Data.List.Perm.Subperm
import Mathlib.Data.List.Nodup
import Mathlib.Data.List.Find

/-! # Hash tables as lists of structs

`Holds hash s items` says that the table `s` is well formed and that `items` are its structs in the
order in which they were added: the list in that order is linked in both directions and ends at
`tail`, each struct is in the chain of the bucket of its hash value, and the counts are right.
`Shows hash s items t` adds that the chains are in the order of `t`, and that `t` has the members of
the table that decide when the buckets are expanded. Additions and deletions keep it, whatever the
hash function is and whether or not the buckets are expanded. -/

namespace Chirc.Uthash

open DoublyLinked (Chain)
open DoublyLinked.Chain (setAt)

/-! ## The number of buckets -/

/-- The number of buckets is a power of two with the logarithm that the table keeps. -/
structure Table.Power (tbl : Table) : Prop where
  eq : tbl.numBuckets.toNat = Nat.pow 2 tbl.log2NumBuckets.toNat
  ge : 5 ≤ tbl.log2NumBuckets.toNat

theorem Table.Power.lt {tbl : Table} (P : tbl.Power) : tbl.log2NumBuckets.toNat < 32 := by
  have hlt := tbl.numBuckets.toNat_lt
  rw [P.eq] at hlt
  exact (Nat.pow_lt_pow_iff_right (Nat.lt_succ_self 1)).mp hlt

/-- Where `malloc` has given out twice as many buckets, their number is no number that wraps around.
-/
theorem Table.Power.double {tbl : Table} {malloc : Nat → Bool} (P : tbl.Power)
    (hlimit : malloc 68719476736 = false)
    (hmalloc : malloc (sizeofBucket * (tbl.numBuckets.toNat * 2)) = true) :
    (tbl.log2NumBuckets + 1).toNat = tbl.log2NumBuckets.toNat + 1 ∧
      tbl.log2NumBuckets.toNat + 1 < 32 ∧
      (tbl.numBuckets * 2).toNat = tbl.numBuckets.toNat * 2 := by
  have hlt := P.lt
  have hne : tbl.log2NumBuckets.toNat ≠ 31 := by
    intro h
    rw [P.eq, h] at hmalloc
    rw [show sizeofBucket * (Nat.pow 2 31 * 2) = 68719476736 from rfl, hlimit] at hmalloc
    cases hmalloc
  have hle : Nat.pow 2 tbl.log2NumBuckets.toNat ≤ Nat.pow 2 30 :=
    Nat.pow_le_pow_right (by omega) (by omega)
  rw [← P.eq] at hle
  have hpow : Nat.pow 2 30 = 1073741824 := rfl
  refine ⟨?_, by omega, ?_⟩
  · rw [UInt32.toNat_add]
    show (tbl.log2NumBuckets.toNat + 1) % 4294967296 = _
    omega
  · rw [UInt32.toNat_mul]
    show (tbl.numBuckets.toNat * 2) % 4294967296 = _
    omega

theorem Table.Power.ne_zero {tbl : Table} (P : tbl.Power) : tbl.numBuckets ≠ 0 := by
  intro h
  have hpos : 0 < Nat.pow 2 tbl.log2NumBuckets.toNat := Nat.pow_pos (Nat.succ_pos 1)
  rw [← P.eq, h] at hpos
  exact Nat.lt_irrefl 0 hpos

/-- The bucket of a hash value is its remainder. -/
theorem hashToBkt_eq_mod (hashv : UInt32) (hn : n.toNat = Nat.pow 2 k) :
    hashToBkt hashv n = hashv.toNat % n.toNat := by
  have hpos : 1 ≤ n.toNat := hn ▸ Nat.pow_pos (Nat.succ_pos 1)
  have hle : 1 ≤ n := UInt32.le_iff_toNat_le.mpr hpos
  rw [hashToBkt, UInt32.toNat_and, UInt32.toNat_sub_of_le _ _ hle, hn]
  exact Nat.and_two_pow_sub_one_eq_mod _ k

/-- Twice as many buckets split those that there are. -/
theorem hashToBkt_of_double {m n hashv : UInt32} (hn : n.toNat = Nat.pow 2 k)
    (hm : m.toNat = n.toNat * 2) : hashToBkt hashv n = hashToBkt hashv m % n.toNat := by
  have hm' : m.toNat = Nat.pow 2 (k + 1) := by rw [hm, hn]; rfl
  rw [hashToBkt_eq_mod hashv hn, hashToBkt_eq_mod hashv hm', hm, Nat.mod_mul_right_mod]

/-! ## What lookups see -/

/-- Lookups in the table see `t`: the chains are the items of the buckets in the order of `t`. -/
structure Sees (hh : Handles) (tbl : Table) (chain : Nat → List Nat) (t : Chained Nat) : Prop where
  chain_eq : ∀ i, chain i = t.items.filter fun a => hashToBkt (hh.hashv a) tbl.numBuckets = i
  loads : t.loads = tbl.buckets.map Bucket.load
  numBuckets : t.numBuckets = tbl.numBuckets
  log2NumBuckets : t.log2NumBuckets = tbl.log2NumBuckets
  ineffExpands : t.ineffExpands = tbl.ineffExpands
  noexpand : t.noexpand = tbl.noexpand

section
variable {hh : Handles} {tbl : Table} {chain : Nat → List Nat} {t : Chained Nat}

/-- The items of some of the buckets, in any table that lookups see -/
theorem Sees.filter_firstChains (S : Sees hh tbl chain t) (q : Nat → Bool)
    (hj : j < tbl.numBuckets.toNat)
    (hq : ∀ a, q a → hashToBkt (hh.hashv a) tbl.numBuckets = j) :
    (firstChains chain tbl.numBuckets.toNat).filter q = t.items.filter q := by
  have hbkt : ∀ j, ∀ a ∈ chain j, hashToBkt (hh.hashv a) tbl.numBuckets = j := by
    intro j a ha
    rw [S.chain_eq] at ha
    exact of_decide_eq_true (List.mem_filter.mp ha).2
  rw [Uthash.filter_firstChains hbkt q hq, if_pos hj, S.chain_eq, List.filter_filter]
  apply List.filter_congr
  intro a _
  rw [Bool.and_eq_left_iff_imp]
  exact fun h => decide_eq_true (hq a h)

theorem Sees.perm_firstChains (S : Sees hh tbl chain t) (hn : tbl.numBuckets ≠ 0) :
    (firstChains chain tbl.numBuckets.toNat).Perm t.items := by
  refine List.perm_iff_count.mpr fun a => ?_
  have hfilter := S.filter_firstChains (· == a) (hashToBkt_lt (hh.hashv a) hn) fun x hx => by
    rw [eq_of_beq hx]
  rw [List.count_eq_countP, List.count_eq_countP, List.countP_eq_length_filter,
    List.countP_eq_length_filter, hfilter]

/-- An expansion of the buckets is seen as one. -/
theorem Sees.expand (S : Sees hh tbl chain t) {hh' : Handles} {tbl' : Table}
    (hn : tbl.numBuckets.toNat = Nat.pow 2 k)
    (hm : tbl'.numBuckets.toNat = tbl.numBuckets.toNat * 2)
    (hhashv : hh'.hashv = hh.hashv) (hnum : tbl'.numBuckets = tbl.numBuckets * 2)
    (hlog2 : tbl'.log2NumBuckets = tbl.log2NumBuckets + 1)
    (hloads : (tbl'.buckets.map Bucket.load, nonideal) =
      (firstChains chain tbl.numBuckets.toNat).foldl
        (Chained.moveLoad hh.hashv (tbl.numBuckets * 2) t.ideal)
        (List.replicate (tbl.numBuckets.toNat * 2) ⟨0, 0⟩, 0))
    (hineff : tbl'.ineffExpands =
      if nonideal > UInt32.ofNat t.items.length >>> 1 then tbl.ineffExpands + 1 else 0)
    (hnoexpand : tbl'.noexpand = (tbl.noexpand || tbl'.ineffExpands > 1)) :
    Sees hh' tbl' (deal (fun a => hashToBkt (hh.hashv a) tbl'.numBuckets)
      (firstChains chain tbl.numBuckets.toNat)) (t.expand hh.hashv) := by
  have hpos : tbl.numBuckets ≠ 0 := by
    intro h
    have : 0 < Nat.pow 2 k := Nat.pow_pos (Nat.succ_pos 1)
    rw [← hn, h] at this
    exact Nat.lt_irrefl 0 this
  rw [(S.perm_firstChains hpos).foldl_eq] at hloads
  constructor
  · intro i
    have hlt : i % tbl.numBuckets.toNat < tbl.numBuckets.toNat :=
      Nat.mod_lt _ (hn ▸ Nat.pow_pos (Nat.succ_pos 1))
    show _ = t.items.reverse.filter _
    rw [deal, hhashv, List.filter_reverse, S.filter_firstChains _ hlt]
    intro a ha
    rw [hashToBkt_of_double hn hm, of_decide_eq_true ha]
  · rw [Chained.expand, S.numBuckets, ← hloads]
  · rw [Chained.expand, S.numBuckets, hnum]
  · rw [Chained.expand, S.log2NumBuckets, hlog2]
  · rw [Chained.expand, S.numBuckets, ← hloads, S.ineffExpands, hineff]
  · rw [hnoexpand, hineff]
    rw [Chained.expand, S.numBuckets, ← hloads, S.ineffExpands, S.noexpand]

theorem Sees.congr (S : Sees hh tbl chain t) {hh' : Handles} {tbl' : Table}
    (hhashv : ∀ a ∈ t.items, hh'.hashv a = hh.hashv a) (hbuckets : tbl'.buckets = tbl.buckets)
    (hnum : tbl'.numBuckets = tbl.numBuckets) (hlog2 : tbl'.log2NumBuckets = tbl.log2NumBuckets)
    (hineff : tbl'.ineffExpands = tbl.ineffExpands) (hnoexpand : tbl'.noexpand = tbl.noexpand) :
    Sees hh' tbl' chain t where
  chain_eq i := by
    rw [S.chain_eq, hnum]
    exact List.filter_congr fun a ha => by rw [hhashv a ha]
  loads := hbuckets ▸ S.loads
  numBuckets := hnum ▸ S.numBuckets
  log2NumBuckets := hlog2 ▸ S.log2NumBuckets
  ineffExpands := hineff ▸ S.ineffExpands
  noexpand := hnoexpand ▸ S.noexpand

theorem Sees.loadOf_eq (S : Sees hh tbl chain t)
    (hb : tbl.buckets[hashToBkt (hh.hashv a) tbl.numBuckets]? = some b) :
    t.loadOf hh.hashv a = b.load := by
  rw [Chained.loadOf, S.loads, S.numBuckets, getD_loads hb]

theorem Sees.expands_iff (S : Sees hh tbl chain t)
    (hb : tbl.buckets[hashToBkt (hh.hashv a) tbl.numBuckets]? = some b) :
    t.Expands hh.hashv a ↔
      b.count + 1 ≥ (b.expandMult + 1) * hashBktCapacityThresh ∧ tbl.noexpand = false := by
  rw [Chained.Expands, S.loadOf_eq hb, S.noexpand]
  rfl

/-- A struct that becomes the first one of its chain -/
theorem Sees.push (S : Sees hh tbl chain t)
    (hb : tbl.buckets[hashToBkt (hh.hashv a) tbl.numBuckets]? = some b) (head : Option Nat) :
    Sees (hh.pushHh head a)
      { tbl with
        buckets := tbl.buckets.set (hashToBkt (hh.hashv a) tbl.numBuckets)
          ⟨some a, b.count + 1, b.expandMult⟩ }
      (Function.update chain (hashToBkt (hh.hashv a) tbl.numBuckets)
        (a :: chain (hashToBkt (hh.hashv a) tbl.numBuckets)))
      { t with
        items := a :: t.items
        loads := t.setLoad hh.hashv a
          { t.loadOf hh.hashv a with count := (t.loadOf hh.hashv a).count + 1 } } where
  chain_eq i := by
    show _ = (a :: t.items).filter fun x => hashToBkt (hh.hashv x) tbl.numBuckets = i
    rcases Decidable.eq_or_ne i (hashToBkt (hh.hashv a) tbl.numBuckets) with rfl | hi
    · rw [Function.update_self, List.filter_cons_of_pos (by simp), S.chain_eq]
    · rw [Function.update_of_ne hi, List.filter_cons_of_neg (by simpa using Ne.symm hi),
        S.chain_eq]
  loads := by
    show t.setLoad hh.hashv a _ = (tbl.buckets.set _ _).map Bucket.load
    rw [Chained.setLoad, S.loadOf_eq hb, S.loads, S.numBuckets, List.map_set]
    rfl
  numBuckets := S.numBuckets
  log2NumBuckets := S.log2NumBuckets
  ineffExpands := S.ineffExpands
  noexpand := S.noexpand

/-- A struct that is taken out of its chain -/
theorem Sees.del (S : Sees hh tbl chain t) {hh' : Handles} {tbl' : Table}
    (hi : hashToBkt (hh.hashv a) tbl.numBuckets = i) (hb : tbl.buckets[i]? = some b)
    (hhashv : hh'.hashv = hh.hashv) (hne : t.items.erase a ≠ [])
    (hbuckets : tbl'.buckets.map Bucket.load =
      (tbl.buckets.map Bucket.load).set i ⟨b.count - 1, b.expandMult⟩)
    (hnum : tbl'.numBuckets = tbl.numBuckets) (hlog2 : tbl'.log2NumBuckets = tbl.log2NumBuckets)
    (hineff : tbl'.ineffExpands = tbl.ineffExpands) (hnoexpand : tbl'.noexpand = tbl.noexpand) :
    Sees hh' tbl' (Function.update chain i ((chain i).erase a)) (t.del hh.hashv a) := by
  subst hi
  rw [Chained.del, if_neg hne]
  constructor
  · intro j
    show _ = (t.items.erase a).filter _
    rw [← List.erase_filter, hhashv, hnum]
    rcases Decidable.eq_or_ne j (hashToBkt (hh.hashv a) tbl.numBuckets) with rfl | hj
    · rw [Function.update_self, S.chain_eq]
    · rw [Function.update_of_ne hj, S.chain_eq]
      symm
      apply List.erase_of_not_mem
      intro hmem
      exact hj (of_decide_eq_true (List.mem_filter.mp hmem).2).symm
  · rw [hbuckets, Chained.setLoad, S.loadOf_eq hb, S.loads, S.numBuckets]
    rfl
  · exact S.numBuckets.trans hnum.symm
  · exact S.log2NumBuckets.trans hlog2.symm
  · exact S.ineffExpands.trans hineff.symm
  · exact S.noexpand.trans hnoexpand.symm

end

/-! ## Expansions -/

/-- What a table is after an expansion of its buckets -/
structure Expanded (hh : Handles) (tbl : Table) (chain : Nat → List Nat) (hh' : Handles)
    (tbl' : Table) : Prop where
  chains : Chains hh' tbl'.buckets tbl'.numBuckets
    (deal (fun a => hashToBkt (hh.hashv a) tbl'.numBuckets)
      (firstChains chain tbl.numBuckets.toNat))
  same : SameStructs hh hh'
  power : tbl'.Power
  more : tbl'.numBuckets ≠ hashInitialNumBuckets
  numItems : tbl'.numItems = tbl.numItems
  tail : tbl'.tail = tbl.tail
  sees : ∀ t, Sees hh tbl chain t → tbl.numItems = UInt32.ofNat t.items.length →
    Sees hh' tbl' (deal (fun a => hashToBkt (hh.hashv a) tbl'.numBuckets)
      (firstChains chain tbl.numBuckets.toNat)) (t.expand hh.hashv)

theorem hashExpandBuckets_ok {hh : Handles} (tbl : Table) {chain : Nat → List Nat}
    {malloc : Nat → Bool} (hlimit : malloc 68719476736 = false)
    (C : Chains hh tbl.buckets tbl.numBuckets chain) (P : tbl.Power)
    (hfuel : ∀ i, (chain i).length < fuel) :
    Refused malloc (hashExpandBuckets malloc fuel hh tbl) ∨
      ∃ hh' tbl', hashExpandBuckets malloc fuel hh tbl = .ok (hh', tbl') ∧
        Expanded hh tbl chain hh' tbl' := by
  rw [hashExpandBuckets]
  cases hmalloc : malloc (sizeofBucket * (tbl.numBuckets.toNat * 2)) with
  | false => exact .inl ⟨_, hmalloc, rfl⟩
  | true =>
    obtain ⟨hlog, hlt, htwice⟩ := P.double hlimit hmalloc
    have hshift : shiftRight tbl.numItems (tbl.log2NumBuckets + 1) =
        .ok (tbl.numItems >>> (tbl.log2NumBuckets + 1)) := by
      rw [shiftRight, if_pos]
      rw [UInt32.lt_iff_toNat_lt, hlog]
      exact hlt
    have hm : tbl.numBuckets * 2 ≠ 0 := by
      intro h
      rw [h] at htwice
      have hpos := P.ne_zero
      exact hpos (UInt32.toNat_inj.mp (by rw [UInt32.toNat_zero] at *; omega))
    obtain ⟨e, he, C', S, L⟩ := moveChains_ok C hm (fun a => rfl) hfuel
      (tbl.numItems >>> (tbl.log2NumBuckets + 1) +
        if tbl.numItems &&& (tbl.numBuckets * 2 - 1) = 0 then 0 else 1)
    rw [htwice] at he L
    right
    rw [if_neg (by simp), hshift]
    simp only [Stop.ok_bind, he]
    refine ⟨_, _, rfl, C', S, ⟨?_, ?_⟩, ?_, rfl, rfl, fun t T hnum => ?_⟩
    · show (tbl.numBuckets * 2).toNat = Nat.pow 2 (tbl.log2NumBuckets + 1).toNat
      rw [htwice, hlog, P.eq]
      rfl
    · show 5 ≤ (tbl.log2NumBuckets + 1).toNat
      have := P.ge
      omega
    · intro h
      have hge : Nat.pow 2 5 ≤ Nat.pow 2 tbl.log2NumBuckets.toNat :=
        Nat.pow_le_pow_right (by omega) P.ge
      rw [← P.eq] at hge
      have h32 : (tbl.numBuckets * 2).toNat = 32 := congrArg UInt32.toNat h
      have : Nat.pow 2 5 = 32 := rfl
      omega
    · have hideal : t.ideal = tbl.numItems >>> (tbl.log2NumBuckets + 1) +
          if tbl.numItems &&& (tbl.numBuckets * 2 - 1) = 0 then 0 else 1 := by
        rw [Chained.ideal, hnum, T.log2NumBuckets, T.numBuckets]
      rw [← hideal] at L
      refine T.expand P.eq htwice S.hashv rfl rfl L ?_ rfl
      rw [← hnum]

/-! ## The structs of a table -/

/-- The table that `head` leads to is well formed, and `items` are its structs in the order in which
they were added. Before the first expansion the struct added last is the first one of its chain. -/
structure Laid (hash : List Byte → UInt32) (hh : Handles) (head : Nat) (tbl : Table)
    (items : List Nat) (chain : Nat → List Nat) : Prop where
  app : Chain hh.next hh.prev none (some head) items
  tail : items.getLast? = some tbl.tail
  numItems : tbl.numItems = UInt32.ofNat items.length
  chains : Chains hh tbl.buckets tbl.numBuckets chain
  power : tbl.Power
  mem : ∀ a, (∃ i, a ∈ chain i) ↔ a ∈ items
  hashv : ∀ a ∈ items, hh.hashv a = hash (hh.key a)
  newest : tbl.numBuckets = hashInitialNumBuckets →
    chain = deal (fun a => hashToBkt (hh.hashv a) tbl.numBuckets) items

def Holds (hash : List Byte → UInt32) (s : Hash) (items : List Nat) : Prop :=
  match s.root with
  | none => items = []
  | some (head, tbl) => ∃ chain, Laid hash s.hh head tbl items chain

/-- The table is well formed, `items` are its structs, and lookups see `t` in it. -/
def Shows (hash : List Byte → UInt32) (s : Hash) (items : List Nat) (t : Chained Nat) : Prop :=
  match s.root with
  | none => items = [] ∧ t = .empty
  | some (head, tbl) => ∃ chain, Laid hash s.hh head tbl items chain ∧ Sees s.hh tbl chain t

variable {hash : List Byte → UInt32} {malloc : Nat → Bool}

/-- The structs of all chains are those of the table. -/
theorem Laid.perm_firstChains (H : Laid hash hh head tbl items chain) :
    (firstChains chain tbl.numBuckets.toNat).Perm items := by
  have hnodup := H.chains.nodup_firstChains (Nat.le_of_eq H.chains.size.symm)
  refine (List.perm_ext_iff_of_nodup hnodup H.app.nodup).mpr ?_
  intro a
  rw [mem_firstChains, ← H.mem]
  constructor
  · intro ⟨i, _, hi⟩
    exact ⟨i, hi⟩
  · intro ⟨i, hi⟩
    exact ⟨i, H.chains.bkt hi ▸ hashToBkt_lt _ H.chains.pos, hi⟩

/-- Lookups see something in any table. -/
theorem Laid.sees (H : Laid hash hh head tbl items chain) :
    Sees hh tbl chain ⟨firstChains chain tbl.numBuckets.toNat, tbl.buckets.map Bucket.load,
      tbl.numBuckets, tbl.log2NumBuckets, tbl.ineffExpands, tbl.noexpand⟩ where
  chain_eq i := by
    have hbkt : ∀ a ∈ chain i, decide (hashToBkt (hh.hashv a) tbl.numBuckets = i) = true :=
      fun a ha => decide_eq_true (H.chains.bkt ha)
    rw [filter_firstChains (fun j a ha => H.chains.bkt ha) _ fun a ha => of_decide_eq_true ha]
    split
    · exact (List.filter_eq_self.mpr hbkt).symm
    · next hlt =>
      rw [List.eq_nil_iff_forall_not_mem]
      intro a ha
      exact hlt (H.chains.bkt ha ▸ hashToBkt_lt _ H.chains.pos)
  loads := rfl
  numBuckets := rfl
  log2NumBuckets := rfl
  ineffExpands := rfl
  noexpand := rfl

theorem Holds.shows {s : Hash} (H : Holds hash s items) : ∃ t, Shows hash s items t := by
  rw [Holds] at H
  cases hroot : s.root with
  | none =>
    rw [hroot] at H
    exact ⟨.empty, by rw [Shows, hroot]; exact ⟨H, rfl⟩⟩
  | some root =>
    rw [hroot] at H
    obtain ⟨chain, H⟩ := H
    exact ⟨_, by rw [Shows, hroot]; exact ⟨chain, H, H.sees⟩⟩

theorem Shows.holds {s : Hash} (H : Shows hash s items t) : Holds hash s items := by
  rw [Shows] at H
  rw [Holds]
  cases hroot : s.root with
  | none =>
    rw [hroot] at H
    exact H.1
  | some root =>
    rw [hroot] at H
    obtain ⟨chain, H, -⟩ := H
    exact ⟨chain, H⟩

theorem Shows.perm {s : Hash} (H : Shows hash s items t) : t.items.Perm items := by
  rw [Shows] at H
  cases hroot : s.root with
  | none =>
    rw [hroot] at H
    obtain ⟨rfl, rfl⟩ := H
    exact .nil
  | some root =>
    rw [hroot] at H
    obtain ⟨chain, H, S⟩ := H
    exact (S.perm_firstChains H.chains.pos).symm.trans H.perm_firstChains

theorem Laid.length_chain_le (H : Laid hash hh head tbl items chain) (i : Nat) :
    (chain i).length ≤ items.length := by
  cases hb : tbl.buckets[i]? with
  | none =>
    cases hc : chain i with
    | nil => exact Nat.zero_le _
    | cons a l =>
      have ha : a ∈ chain i := hc ▸ List.mem_cons_self
      have hlt := H.chains.lt (hh.hashv a)
      rw [H.chains.bkt ha] at hlt
      rw [List.getElem?_eq_getElem hlt] at hb
      cases hb
  | some b =>
    refine (List.subperm_of_subset (H.chains.holds hb).chain.nodup ?_).length_le
    intro a ha
    exact (H.mem a).mp ⟨i, ha⟩

/-- The buckets have not been expanded since the table was made. -/
def Hash.Initial (s : Hash) : Prop :=
  ∀ head tbl, s.root = some (head, tbl) → tbl.numBuckets = hashInitialNumBuckets

/-- What a lookup for `key` may find among `items`: a struct with the key if there is one, and as
long as the buckets are the initial ones, the one added last. -/
structure Finds (s : Hash) (items : List Nat) (key : List Byte) (r : Option Nat) : Prop where
  found : ∀ a, r = some a → a ∈ items ∧ s.hh.key a = key
  missed : r = none → ∀ a ∈ items, s.hh.key a ≠ key
  newest : s.Initial → r = items.reverse.find? fun a => s.hh.key a = key

theorem Laid.finds {s : Hash} (H : Laid hash s.hh head tbl items chain)
    (hroot : s.root = some (head, tbl)) (key : List Byte) : Finds s items key
      ((chain (hashToBkt (hash key) tbl.numBuckets)).find? fun a =>
        s.hh.hashv a = hash key ∧ s.hh.key a = key) where
  found := by
    intro a ha
    have hmatch := List.find?_some ha
    rw [decide_eq_true_iff] at hmatch
    exact ⟨(H.mem a).mp ⟨_, List.mem_of_find?_eq_some ha⟩, hmatch.2⟩
  missed := by
    intro hnone a ha hkey
    have hhashv : s.hh.hashv a = hash key := hkey ▸ H.hashv a ha
    obtain ⟨i, hi⟩ := (H.mem a).mpr ha
    have hbkt := H.chains.bkt hi
    rw [hhashv] at hbkt
    rw [← hbkt] at hi
    exact List.find?_eq_none.mp hnone a hi (decide_eq_true ⟨hhashv, hkey⟩)
  newest := by
    intro hinit
    rw [H.newest (hinit head tbl hroot), deal, ← List.filter_reverse, List.find?_filter]
    apply List.find?_congr
    intro a ha
    have hhashv := H.hashv a (List.mem_reverse.mp ha)
    rw [Bool.eq_iff_iff]
    simp only [decide_eq_true_iff]
    constructor
    · intro h
      exact h.2.2
    · intro hkey
      rw [hhashv, hkey]
      exact ⟨rfl, rfl, rfl⟩

theorem hashFind_ok {s : Hash} (H : Holds hash s items) (hfuel : items.length < fuel)
    (key : List Byte) : ∃ r, hashFind hash fuel s key = .ok r ∧ Finds s items key r := by
  rw [Holds] at H
  rw [hashFind]
  cases hroot : s.root with
  | none =>
    rw [hroot] at H
    rw [H]
    exact ⟨none, rfl, nofun, fun _ => nofun, fun _ => rfl⟩
  | some root =>
    obtain ⟨head, tbl⟩ := root
    rw [hroot] at H
    obtain ⟨chain, H⟩ := H
    obtain ⟨b, hb, hholds⟩ := H.chains.get (hash key)
    have hlen := H.length_chain_le (hashToBkt (hash key) tbl.numBuckets)
    refine ⟨_, ?_, H.finds hroot key⟩
    show (bucketAt tbl.buckets _ >>= _) = _
    rw [bucketAt_of_get hb]
    exact hashFindInBkt_eq hholds.chain (by omega)

theorem Shows.hashv {s : Hash} (H : Shows hash s items t) :
    ∀ a ∈ items, s.hh.hashv a = hash (s.hh.key a) := by
  rw [Shows] at H
  cases hroot : s.root with
  | none =>
    rw [hroot] at H
    rw [H.1]
    exact nofun
  | some root =>
    rw [hroot] at H
    obtain ⟨chain, H, -⟩ := H
    exact H.hashv

/-- A lookup finds what stands first. -/
theorem hashFind_shows {s : Hash} (H : Shows hash s items t) (hfuel : items.length < fuel)
    (key : List Byte) :
    hashFind hash fuel s key = .ok (t.items.find? fun a => s.hh.key a = key) := by
  have hhashv := H.hashv
  have hperm := H.perm
  rw [Shows] at H
  rw [hashFind]
  cases hroot : s.root with
  | none =>
    rw [hroot] at H
    rw [H.2]
    rfl
  | some root =>
    obtain ⟨head, tbl⟩ := root
    rw [hroot] at H
    obtain ⟨chain, H, S⟩ := H
    obtain ⟨b, hb, hholds⟩ := H.chains.get (hash key)
    have hlen := H.length_chain_le (hashToBkt (hash key) tbl.numBuckets)
    show (bucketAt tbl.buckets _ >>= _) = _
    rw [bucketAt_of_get hb]
    refine (hashFindInBkt_eq hholds.chain (by omega)).trans ?_
    rw [S.chain_eq, List.find?_filter]
    refine congrArg Except.ok (List.find?_congr fun a ha => ?_)
    -- a struct with the key is in its bucket
    have hv := hhashv a (hperm.mem_iff.mp ha)
    rw [Bool.eq_iff_iff]
    simp only [decide_eq_true_iff]
    constructor
    · intro h
      exact h.2.2
    · intro h
      rw [h] at hv
      exact ⟨by rw [hv], hv, h⟩

/-! ## Additions -/

/-- What a table is when `a` has come into a chain -/
structure Bucketed (hh : Handles) (tbl : Table) (chain : Nat → List Nat) (a : Nat) (hh' : Handles)
    (tbl' : Table) (chain' : Nat → List Nat) : Prop where
  chains : Chains hh' tbl'.buckets tbl'.numBuckets chain'
  same : SameStructs hh hh'
  power : tbl'.Power
  numItems : tbl'.numItems = tbl.numItems
  tail : tbl'.tail = tbl.tail
  mem : ∀ x, (∃ i, x ∈ chain' i) ↔ (∃ i, x ∈ chain i) ∨ x = a
  initial : tbl'.numBuckets = hashInitialNumBuckets → tbl.numBuckets = hashInitialNumBuckets ∧
    chain' = Function.update chain (hashToBkt (hh.hashv a) tbl.numBuckets)
      (a :: chain (hashToBkt (hh.hashv a) tbl.numBuckets))
  sees : ∀ t, Sees hh tbl chain t → tbl.numItems = UInt32.ofNat (t.items.length + 1) →
    Sees hh' tbl' chain' (t.add hh.hashv a)

theorem mem_update_cons {chain : Nat → List Nat} :
    (∃ i, x ∈ Function.update chain j (a :: chain j) i) ↔ (∃ i, x ∈ chain i) ∨ x = a := by
  constructor
  · intro ⟨i, hx⟩
    rcases Decidable.eq_or_ne i j with rfl | hij
    · rw [Function.update_self] at hx
      cases List.mem_cons.mp hx with
      | inl h => exact .inr h
      | inr h => exact .inl ⟨i, h⟩
    · rw [Function.update_of_ne hij] at hx
      exact .inl ⟨i, hx⟩
  · intro h
    cases h with
    | inl h =>
      obtain ⟨i, hx⟩ := h
      refine ⟨i, ?_⟩
      rcases Decidable.eq_or_ne i j with rfl | hij
      · rw [Function.update_self]
        exact List.mem_cons_of_mem _ hx
      · rw [Function.update_of_ne hij]
        exact hx
    | inr h =>
      refine ⟨j, ?_⟩
      rw [Function.update_self, h]
      exact List.mem_cons_self

/-- The handles of an expanded table are those of the table. -/
theorem mem_deal_firstChains {hh : Handles} {chain : Nat → List Nat} {bkt : Nat → Nat}
    (C : Chains hh buckets n chain) :
    (∃ i, x ∈ deal bkt (firstChains chain n.toNat) i) ↔ ∃ i, x ∈ chain i := by
  constructor
  · intro ⟨i, hx⟩
    obtain ⟨j, -, hj⟩ := mem_firstChains.mp (mem_deal.mp hx).1
    exact ⟨j, hj⟩
  · intro ⟨i, hx⟩
    have hlt : i < n.toNat := C.bkt hx ▸ hashToBkt_lt _ C.pos
    exact ⟨bkt x, mem_deal.mpr ⟨mem_firstChains.mpr ⟨i, hlt, hx⟩, rfl⟩⟩

theorem hashAddToBkt_ok {hh : Handles} (tbl : Table) {chain : Nat → List Nat}
    (hlimit : malloc 68719476736 = false) (C : Chains hh tbl.buckets tbl.numBuckets chain)
    (P : tbl.Power) (ha : ∀ i, a ∉ chain i) (hfuel : ∀ i, (chain i).length + 1 < fuel) :
    Refused malloc (hashAddToBkt malloc fuel hh tbl (hashToBkt (hh.hashv a) tbl.numBuckets) a) ∨
      ∃ hh' tbl' chain', hashAddToBkt malloc fuel hh tbl (hashToBkt (hh.hashv a) tbl.numBuckets) a =
        .ok (hh', tbl') ∧ Bucketed hh tbl chain a hh' tbl' chain' := by
  obtain ⟨b, hb, -⟩ := C.get (hh.hashv a)
  have hexpands {t} (S : Sees hh tbl chain t) := S.expands_iff hb
  have hpush {t} (S : Sees hh tbl chain t) := S.push hb b.hhHead
  generalize hbkt : hashToBkt (hh.hashv a) tbl.numBuckets = bkt at *
  have C' : Chains (hh.pushHh b.hhHead a) (tbl.buckets.set bkt ⟨some a, b.count + 1, b.expandMult⟩)
      tbl.numBuckets (Function.update chain bkt (a :: chain bkt)) :=
    C.push hbkt.symm hb (ha _) rfl rfl
  cases Decidable.em (b.count + 1 ≥ (b.expandMult + 1) * hashBktCapacityThresh ∧
      tbl.noexpand = false) with
  | inl hfull =>
    have hexpand : hashAddToBkt malloc fuel hh tbl bkt a =
        hashExpandBuckets malloc fuel (hh.pushHh b.hhHead a)
          { tbl with buckets := tbl.buckets.set bkt ⟨some a, b.count + 1, b.expandMult⟩ } := by
      rw [hashAddToBkt, bucketAt_of_get hb]
      exact if_pos hfull
    have hfuel' : ∀ i, (Function.update chain bkt (a :: chain bkt) i).length < fuel := by
      intro i
      rcases Decidable.eq_or_ne i bkt with rfl | hi
      · rw [Function.update_self]
        exact hfuel _
      · rw [Function.update_of_ne hi]
        exact Nat.lt_of_succ_lt (hfuel i)
    rw [hexpand]
    cases hashExpandBuckets_ok { tbl with buckets := _ } hlimit C' ⟨P.eq, P.ge⟩ hfuel' with
    | inl h => exact .inl h
    | inr h =>
      obtain ⟨hh', tbl', h, E⟩ := h
      refine .inr ⟨hh', tbl', _, h, E.chains, ?_, E.power, E.numItems, E.tail, ?_, ?_, ?_⟩
      · exact ⟨E.same.next, E.same.prev, E.same.key, E.same.hashv⟩
      · intro x
        rw [mem_deal_firstChains C']
        exact mem_update_cons
      · intro hinit
        exact absurd hinit E.more
      · intro t S hnum
        rw [Chained.add, if_pos ((hexpands S).mpr hfull)]
        exact E.sees _ (hpush S) hnum
  | inr hfull =>
    have hkeep : hashAddToBkt malloc fuel hh tbl bkt a = .ok (hh.pushHh b.hhHead a,
        { tbl with buckets := tbl.buckets.set bkt ⟨some a, b.count + 1, b.expandMult⟩ }) := by
      rw [hashAddToBkt, bucketAt_of_get hb]
      exact if_neg hfull
    rw [hkeep]
    refine .inr ⟨_, _, _, rfl, C', ⟨rfl, rfl, rfl, rfl⟩, ⟨P.eq, P.ge⟩, rfl, rfl, ?_, ?_, ?_⟩
    · intro x
      exact mem_update_cons
    · intro hinit
      rw [hbkt]
      exact ⟨hinit, rfl⟩
    · intro t S hnum
      rw [Chained.add, if_neg fun h => hfull ((hexpands S).mp h)]
      exact hpush S

theorem setKey_self (hh : Handles) (a : Nat) (key : List Byte) (hashv : UInt32) :
    (hh.setKey a key hashv).hashv a = hashv ∧ (hh.setKey a key hashv).key a = key :=
  ⟨Function.update_self _ _ _, Function.update_self _ _ _⟩

theorem setKey_of_ne (hh : Handles) (hne : x ≠ a) (key : List Byte) (hashv : UInt32) :
    (hh.setKey a key hashv).hashv x = hh.hashv x ∧ (hh.setKey a key hashv).key x = hh.key x :=
  ⟨Function.update_of_ne hne _ _, Function.update_of_ne hne _ _⟩

/-- The structs of `items` and the new struct are linked, and the new one comes into its chain. -/
theorem hashAddToTable_ok {hh : Handles} {tbl : Table} {chain : Nat → List Nat} (items : List Nat)
    (hlimit : malloc 68719476736 = false)
    (happ : Chain hh.next hh.prev none (some head) (items ++ [a])) (htail : tbl.tail = a)
    (hnum : tbl.numItems = UInt32.ofNat items.length)
    (C : Chains hh tbl.buckets tbl.numBuckets chain) (P : tbl.Power)
    (hmem : ∀ x, (∃ i, x ∈ chain i) ↔ x ∈ items) (ha : a ∉ items)
    (hhashv : ∀ x ∈ items ++ [a], hh.hashv x = hash (hh.key x))
    (hnewest : tbl.numBuckets = hashInitialNumBuckets →
      chain = deal (fun x => hashToBkt (hh.hashv x) tbl.numBuckets) items)
    (hfuel : ∀ i, (chain i).length + 1 < fuel) (hv : hh.hashv a = hashv)
    (S : Sees hh tbl chain t) (hlen : t.items.length = items.length) :
    Refused malloc (hashAddToTable malloc fuel hh head tbl hashv a) ∨
      ∃ s', hashAddToTable malloc fuel hh head tbl hashv a = .ok s' ∧
        s'.hh.key = hh.key ∧ Shows hash s' (items ++ [a]) (t.add s'.hh.hashv a) := by
  subst hv
  have ha' : ∀ i, a ∉ chain i := fun i hi => ha ((hmem a).mp ⟨i, hi⟩)
  rw [hashAddToTable]
  cases hashAddToBkt_ok { tbl with numItems := tbl.numItems + 1 } hlimit C ⟨P.eq, P.ge⟩ ha'
      hfuel with
  | inl h =>
    exact .inl (h.bind _)
  | inr h =>
    obtain ⟨hh', tbl', chain', h, B⟩ := h
    have hlaid : Laid hash hh' head tbl' (items ++ [a]) chain' := by
      constructor
      · rw [B.same.next, B.same.prev]
        exact happ
      · rw [List.getLast?_concat, B.tail, ← htail]
      · rw [B.numItems, List.length_append, List.length_singleton, UInt32.ofNat_add, ← hnum]
        rfl
      · exact B.chains
      · exact B.power
      · intro x
        rw [B.mem, hmem, List.mem_append, List.mem_singleton]
      · rw [B.same.hashv, B.same.key]
        exact hhashv
      · intro hinit
        obtain ⟨hinit', hchain⟩ := B.initial hinit
        rw [hchain, hnewest hinit', B.same.hashv, hinit]
        rw [show tbl.numBuckets = hashInitialNumBuckets from hinit']
        exact (deal_append_singleton
          (fun x => hashToBkt (hh.hashv x) hashInitialNumBuckets) _ _).symm
    refine .inr ⟨⟨hh', some (head, tbl')⟩, ?_, B.same.key, chain', hlaid, ?_⟩
    · show (hashAddToBkt _ _ _ _ _ _ >>= _) = _
      rw [h]
      rfl
    · show Sees hh' tbl' chain' (t.add hh'.hashv a)
      rw [B.same.hashv]
      refine B.sees t (S.congr (fun _ _ => rfl) rfl rfl rfl rfl rfl) ?_
      rw [hlen, UInt32.ofNat_add, ← hnum]
      rfl

theorem hashMakeTable_ok (malloc : Nat → Bool) (hh : Handles) (a : Nat) :
    Refused malloc (hashMakeTable malloc a) ∨
      ∃ tbl, hashMakeTable malloc a = .ok tbl ∧ tbl.tail = a ∧ tbl.numItems = 0 ∧
        Chains hh tbl.buckets tbl.numBuckets (fun _ => []) ∧ tbl.Power ∧
        Sees hh tbl (fun _ => []) .empty := by
  rw [hashMakeTable]
  split
  · next hrefused => exact .inl ⟨_, hrefused, rfl⟩
  · split
    · next hrefused => exact .inl ⟨_, hrefused, rfl⟩
    · exact .inr ⟨_, rfl, rfl, rfl, Chains.zero hh (n := hashInitialNumBuckets) (by decide),
        ⟨rfl, Nat.le_refl 5⟩, ⟨fun _ => rfl, rfl, rfl, rfl, rfl, rfl⟩⟩

/-- An addition is seen as one. -/
theorem hashAdd_shows {s : Hash} (hlimit : malloc 68719476736 = false) (H : Shows hash s items t)
    (ha : a ∉ items) (hfuel : items.length + 1 < fuel) (key : List Byte) :
    Refused malloc (hashAdd hash malloc fuel s a key) ∨
      ∃ s', hashAdd hash malloc fuel s a key = .ok s' ∧
        s'.hh.key = Function.update s.hh.key a key ∧
        Shows hash s' (items ++ [a]) (t.add s'.hh.hashv a) := by
  have hself := setKey_self s.hh a key (hash key)
  have hlen := H.perm.length_eq
  rw [Shows] at H
  rw [hashAdd]
  cases hroot : s.root with
  | none =>
    rw [hroot] at H
    obtain ⟨rfl, rfl⟩ := H
    dsimp only
    cases hashMakeTable_ok malloc ((s.hh.setKey a key (hash key)).alone a) a with
    | inl h => exact .inl (h.bind _)
    | inr h =>
      obtain ⟨tbl, h, htail, hnum, C, P, S⟩ := h
      rw [h, Stop.ok_bind]
      refine hashAddToTable_ok [] hlimit ?_ htail hnum C P ?_ ha ?_ ?_ ?_ hself.1 S hlen
      · refine .cons (Function.update_self _ _ _) ?_
        rw [show ((s.hh.setKey a key (hash key)).alone a).next a = none from
          Function.update_self _ _ _]
        exact .nil
      · intro x
        exact ⟨fun ⟨_, h⟩ => h, fun h => ⟨0, h⟩⟩
      · intro x hx
        cases List.mem_singleton.mp hx
        exact hself.1.trans (congrArg hash hself.2.symm)
      · intro _
        rfl
      · intro _
        exact hfuel
  | some root =>
    obtain ⟨head, tbl⟩ := root
    rw [hroot] at H
    obtain ⟨chain, H, S⟩ := H
    obtain ⟨l, hl⟩ := List.getLast?_eq_some_iff.mp H.tail
    have hchain : ∀ i, ∀ x ∈ chain i, x ≠ a := by
      rintro i x hx rfl
      exact ha ((H.mem x).mp ⟨i, hx⟩)
    have hitem : ∀ x ∈ t.items, x ≠ a := by
      rintro x hx rfl
      exact hchain (hashToBkt (s.hh.hashv x) tbl.numBuckets) x
        (S.chain_eq _ ▸ List.mem_filter.mpr ⟨hx, decide_eq_true rfl⟩) rfl
    refine hashAddToTable_ok _ hlimit ?_ rfl H.numItems ?_ ⟨H.power.eq, H.power.ge⟩ H.mem ha
      ?_ ?_ ?_ hself.1 (S.congr ?_ rfl rfl rfl rfl rfl) hlen
    · have happ := H.app
      rw [hl] at happ ha ⊢
      rw [List.append_assoc]
      exact happ.append ha
    · refine H.chains.congr (fun _ _ _ => rfl) (fun _ _ _ => rfl) ?_
      intro i x hx
      exact (setKey_of_ne s.hh (hchain i x hx) key (hash key)).1
    · intro x hx
      rcases Decidable.eq_or_ne x a with rfl | hxa
      · exact hself.1.trans (congrArg hash hself.2.symm)
      · obtain ⟨hv, hk⟩ := setKey_of_ne s.hh hxa key (hash key)
        have hx' := (List.mem_append.mp hx).resolve_right fun h => hxa (List.mem_singleton.mp h)
        exact hv.trans ((H.hashv x hx').trans (congrArg hash hk.symm))
    · intro hinit
      rw [H.newest hinit]
      funext i
      rw [deal, deal]
      congr 1
      apply List.filter_congr
      intro x hx
      have hxa : x ≠ a := fun h => ha (h ▸ hx)
      rw [show ((s.hh.setKey a key (hash key)).appendList tbl.tail a).hashv x = s.hh.hashv x from
        (setKey_of_ne s.hh hxa key (hash key)).1]
    · intro i
      have := H.length_chain_le i
      omega
    · intro x hx
      exact (setKey_of_ne s.hh (hitem x hx) key (hash key)).1

theorem hashAdd_ok {s : Hash} (hlimit : malloc 68719476736 = false) (H : Holds hash s items)
    (ha : a ∉ items) (hfuel : items.length + 1 < fuel) (key : List Byte) :
    Refused malloc (hashAdd hash malloc fuel s a key) ∨
      ∃ s', hashAdd hash malloc fuel s a key = .ok s' ∧ Holds hash s' (items ++ [a]) ∧
        s'.hh.key = Function.update s.hh.key a key := by
  obtain ⟨t, H⟩ := H.shows
  refine (hashAdd_shows hlimit H ha hfuel key).imp_right fun h => ?_
  obtain ⟨s', h, hkey, H'⟩ := h
  exact ⟨s', h, H'.holds, hkey⟩

/-! ## Deletions -/

/-- `tail` after the deletion of `a` between `l` and `r` -/
theorem tailAfter_ok {hh : Handles} (hprev : hh.prev a = l.getLast?)
    (htail : (l ++ a :: r).getLast? = some t) (hnodup : (l ++ a :: r).Nodup)
    (hne : ¬ (l = [] ∧ r = [])) :
    ∃ t', tailAfter hh t a = .ok t' ∧ (l ++ r).getLast? = some t' := by
  rw [tailAfter]
  cases hr : r.getLast? with
  | none =>
    have hnil := List.getLast?_eq_none_iff.mp hr
    subst hnil
    rw [List.getLast?_concat] at htail
    rw [if_pos (Option.some.inj htail), hprev, List.append_nil]
    cases hl : l.getLast? with
    | none => exact absurd ⟨List.getLast?_eq_none_iff.mp hl, rfl⟩ hne
    | some p => exact ⟨p, rfl, rfl⟩
  | some last =>
    have hlast : (l ++ a :: r).getLast? = some last := by
      rw [List.getLast?_append, List.getLast?_cons, hr]
      rfl
    have hlt : last = t := Option.some.inj (hlast.symm.trans htail)
    have hat : a ≠ t := by
      intro h
      have hmem : a ∈ r := h ▸ hlt ▸ List.mem_of_getLast? hr
      exact (List.nodup_cons.mp (List.nodup_append.mp hnodup).2.1).1 hmem
    rw [if_neg hat, List.getLast?_append, hr, hlt]
    exact ⟨t, rfl, rfl⟩

/-- `head` after the deletion of `a` between `l` and `r` -/
theorem head_ok {next prev : Nat → Option Nat} (H : Chain next prev none (some head) (l ++ a :: r))
    (hne : ¬ (prev a = none ∧ next a = none)) :
    some (if prev a = none then (next a).getD head else head) =
      if some head = some a then next a else some head := by
  cases l with
  | nil =>
    have hprev : prev a = none := H.prev_eq
    have hhead : some head = some a := H.head_eq
    rw [if_pos hprev, if_pos hhead]
    cases hnext : next a with
    | none => exact absurd ⟨hprev, hnext⟩ hne
    | some b => rfl
  | cons d l =>
    have hprev : prev a ≠ none := by
      rw [H.prev_eq, List.getLast?_eq_some_getLast (List.cons_ne_nil d l)]
      exact nofun
    have hda : some head ≠ some a := by
      rw [H.head_eq]
      intro h
      have hda : d = a := Option.some.inj h
      exact (List.nodup_cons.mp H.nodup).1 (List.mem_append_right _ (hda ▸ List.mem_cons_self))
    rw [if_neg hprev, if_neg hda]

theorem deal_erase (bkt : Nat → Nat) (hnodup : l.Nodup) (a : Nat) :
    deal bkt (l.erase a) =
      Function.update (deal bkt l) (bkt a) ((deal bkt l (bkt a)).erase a) := by
  funext i
  have hnodup' : (deal bkt l (bkt a)).Nodup := List.nodup_reverse.mpr (hnodup.filter _)
  rw [deal, hnodup.erase_eq_filter, List.filter_filter]
  rcases Decidable.eq_or_ne i (bkt a) with rfl | hi
  · rw [Function.update_self, hnodup'.erase_eq_filter, deal, List.filter_reverse,
      List.filter_filter]
    congr 1
    apply List.filter_congr
    intro x _
    exact Bool.and_comm _ _
  · rw [Function.update_of_ne hi, deal]
    congr 1
    apply List.filter_congr
    intro x _
    rw [Bool.and_eq_left_iff_imp]
    intro hx
    rw [bne_iff_ne]
    rintro rfl
    exact hi (of_decide_eq_true hx).symm

theorem mem_update_erase {chain : Nat → List Nat} (hnodup : (chain j).Nodup)
    (honly : ∀ i, a ∈ chain i → i = j) :
    (∃ i, x ∈ Function.update chain j ((chain j).erase a) i) ↔ (∃ i, x ∈ chain i) ∧ x ≠ a := by
  constructor
  · intro ⟨i, hx⟩
    rcases Decidable.eq_or_ne i j with rfl | hij
    · rw [Function.update_self] at hx
      exact ⟨⟨i, List.mem_of_mem_erase hx⟩, (hnodup.mem_erase_iff.mp hx).1⟩
    · rw [Function.update_of_ne hij] at hx
      refine ⟨⟨i, hx⟩, ?_⟩
      rintro rfl
      exact hij (honly i hx)
  · intro ⟨⟨i, hx⟩, hne⟩
    refine ⟨i, ?_⟩
    rcases Decidable.eq_or_ne i j with rfl | hij
    · rw [Function.update_self]
      exact hnodup.mem_erase_iff.mpr ⟨hne, hx⟩
    · rw [Function.update_of_ne hij]
      exact hx

theorem hashDelete_eq {s : Hash} (hroot : s.root = some (head, tbl))
    (hne : ¬ (s.hh.prev a = none ∧ s.hh.next a = none)) (htail : tailAfter s.hh tbl.tail a = .ok t)
    (hdel : hashDelInBkt (s.hh.unlinkApp a) tbl.buckets
      (hashToBkt (s.hh.hashv a) tbl.numBuckets) a = .ok (hh', buckets')) :
    hashDelete s a = .ok ⟨hh', some (if s.hh.prev a = none then (s.hh.next a).getD head else head,
      { tbl with tail := t, buckets := buckets', numItems := tbl.numItems - 1 })⟩ := by
  rw [hashDelete]
  simp only [hroot, if_neg hne, htail, Stop.ok_bind]
  show (hashDelInBkt (s.hh.unlinkApp a) _ (hashToBkt (s.hh.hashv a) _) _ >>= _) = _
  rw [hdel]
  rfl

/-- A deletion is seen as one. -/
theorem hashDelete_shows {s : Hash} (H : Shows hash s items t) (ha : a ∈ items) :
    ∃ s', hashDelete s a = .ok s' ∧ s'.hh.key = s.hh.key ∧ s'.hh.hashv = s.hh.hashv ∧
      Shows hash s' (items.erase a) (t.del s.hh.hashv a) := by
  have hperm := H.perm
  rw [Shows] at H
  cases hroot : s.root with
  | none =>
    rw [hroot] at H
    rw [H.1] at ha
    cases ha
  | some root =>
    obtain ⟨head, tbl⟩ := root
    rw [hroot] at H
    obtain ⟨chain, H, T⟩ := H
    obtain ⟨l, r, hlr⟩ := List.append_of_mem ha
    have happ := H.app
    have hnodup := H.app.nodup
    have htail := H.tail
    rw [hlr] at happ hnodup htail
    have hprev : s.hh.prev a = l.getLast? := by rw [happ.prev_eq, Option.or_none]
    have hnext : s.hh.next a = r.head? := happ.tail_of_append.head_eq
    have herase : items.erase a = l ++ r := by
      have hal : a ∉ l := fun hal =>
        (List.nodup_append.mp hnodup).2.2 a hal a List.mem_cons_self rfl
      rw [hlr, List.erase_append_right _ hal, List.erase_cons_head]
    cases Decidable.em (l = [] ∧ r = []) with
    | inl hboth =>
      obtain ⟨rfl, rfl⟩ := hboth
      have hnil : t.items.erase a = [] := by
        have hnil := hperm.erase a
        rwa [herase, List.append_nil, List.perm_nil] at hnil
      refine ⟨⟨s.hh, none⟩, ?_, rfl, rfl, herase, if_pos hnil⟩
      rw [hashDelete]
      simp only [hroot]
      exact if_pos ⟨hprev, hnext⟩
    | inr hboth =>
      have hne : ¬ (s.hh.prev a = none ∧ s.hh.next a = none) := by
        rw [hprev, hnext, List.getLast?_eq_none_iff, List.head?_eq_none_iff]
        exact hboth
      obtain ⟨last, ht, hlast⟩ := tailAfter_ok hprev htail hnodup hboth
      obtain ⟨i, hi⟩ := (H.mem a).mpr ha
      have hbkt := H.chains.bkt hi
      have C : Chains (s.hh.unlinkApp a) tbl.buckets tbl.numBuckets chain :=
        H.chains.congr (fun _ _ _ => rfl) (fun _ _ _ => rfl) fun _ _ _ => rfl
      obtain ⟨hh', buckets', hdel, C', S, b, hb, hloads⟩ := C.del hi
      rw [← hbkt] at hdel
      have hnil : t.items.erase a ≠ [] := by
        rw [ne_eq, ← List.perm_nil]
        intro hnil
        have := (hperm.erase a).symm.trans hnil
        rw [herase, List.perm_nil, List.append_eq_nil_iff] at this
        exact hboth this
      refine ⟨_, hashDelete_eq hroot hne ht hdel, S.key, S.hashv,
        ⟨Function.update chain i ((chain i).erase a), ?_,
          T.del hbkt hb S.hashv hnil hloads rfl rfl rfl rfl⟩⟩
      have hlen : items.length = (l ++ r).length + 1 := by
        rw [hlr, List.length_append, List.length_append, List.length_cons, Nat.add_assoc]
      have hnodup' : (chain i).Nodup :=
        (C.holds (List.getElem?_eq_getElem (hbkt ▸ C.lt (s.hh.hashv a)))).chain.nodup
      constructor
      · show Chain hh'.next hh'.prev none (some _) (items.erase a)
        rw [S.next, S.prev, herase, head_ok happ hne]
        exact happ.unlink nofun
      · rw [herase]
        exact hlast
      · show tbl.numItems - 1 = _
        rw [H.numItems, hlen, herase, UInt32.ofNat_add _ 1]
        exact UInt32.add_sub_cancel _ _
      · exact C'
      · exact ⟨H.power.eq, H.power.ge⟩
      · intro x
        rw [mem_update_erase hnodup' fun j hj => (H.chains.bkt hj).symm.trans hbkt, H.mem,
          H.app.nodup.mem_erase_iff]
        exact And.comm
      · show ∀ x ∈ items.erase a, hh'.hashv x = hash (hh'.key x)
        rw [S.hashv, S.key]
        intro x hx
        exact H.hashv x (List.mem_of_mem_erase hx)
      · intro hinit
        show Function.update chain i ((chain i).erase a) =
          deal (fun x => hashToBkt (hh'.hashv x) tbl.numBuckets) _
        rw [S.hashv, ← hbkt, H.newest hinit]
        exact (deal_erase (fun x => hashToBkt (s.hh.hashv x) tbl.numBuckets) H.app.nodup a).symm

theorem hashDelete_ok {s : Hash} (H : Holds hash s items) (ha : a ∈ items) :
    ∃ s', hashDelete s a = .ok s' ∧ Holds hash s' (items.erase a) ∧ s'.hh.key = s.hh.key := by
  obtain ⟨t, H⟩ := H.shows
  obtain ⟨s', h, hkey, -, H'⟩ := hashDelete_shows H ha
  exact ⟨s', h, H'.holds, hkey⟩

end Chirc.Uthash
