import Chirc.Uthash
import Mathlib.Data.List.Perm.Basic

/-! # Tables as their lookups see them

Of several items with one key, `HASH_FIND` finds the one that stands first in the chain of its
bucket. `HASH_ADD` puts an item in front, but when it expands the buckets each chain is dealt out
from its front to the fronts of two others, so that the items of a key come in the opposite order.
Here a table is the list of its items such that those of each bucket stand in the order of its
chain, with what decides when the buckets are expanded. -/

namespace Chirc.Uthash

/-- The members of a `UT_hash_bucket` other than its chain -/
structure Load where
  count : UInt32
  expandMult : UInt32
  deriving DecidableEq, Repr

/-- The items of a table, and its members that have to do with the number of buckets -/
structure Chained (α : Type) where
  items : List α
  loads : List Load
  numBuckets : UInt32
  log2NumBuckets : UInt32
  ineffExpands : UInt32
  noexpand : Bool
  deriving DecidableEq, Repr

namespace Chained

variable {α : Type} (hashv : α → UInt32)

/-- A table without items, as `HASH_MAKE_TABLE` will make it -/
def empty : Chained α where
  items := []
  loads := List.replicate hashInitialNumBuckets.toNat ⟨0, 0⟩
  numBuckets := hashInitialNumBuckets
  log2NumBuckets := hashInitialNumBucketsLog2
  ineffExpands := 0
  noexpand := false

/-- The load of the bucket of an item -/
def loadOf (t : Chained α) (a : α) : Load :=
  t.loads.getD (hashToBkt (hashv a) t.numBuckets) ⟨0, 0⟩

/-- Another load for the bucket of an item -/
def setLoad (t : Chained α) (a : α) (load : Load) : List Load :=
  t.loads.set (hashToBkt (hashv a) t.numBuckets) load

/-- A round of the inner loop of `HASH_EXPAND_BUCKETS`: the new loads and `nonideal_items` -/
def moveLoad (numBuckets ideal : UInt32) (e : List Load × UInt32) (a : α) : List Load × UInt32 :=
  let bkt := hashToBkt (hashv a) numBuckets
  let load := e.1.getD bkt ⟨0, 0⟩
  let count := load.count + 1
  let expandMult :=
    if count > ideal ∧ count > load.expandMult * ideal then load.expandMult + 1
    else load.expandMult
  (e.1.set bkt ⟨count, expandMult⟩, if count > ideal then e.2 + 1 else e.2)

/-- `ideal_chain_maxlen` after `HASH_EXPAND_BUCKETS` -/
def ideal (t : Chained α) : UInt32 :=
  let numItems := UInt32.ofNat t.items.length
  (numItems >>> (t.log2NumBuckets + 1)) +
    if numItems &&& (t.numBuckets * 2 - 1) = 0 then 0 else 1

/-- `HASH_EXPAND_BUCKETS` -/
def expand (t : Chained α) : Chained α :=
  let moved := t.items.foldl (moveLoad hashv (t.numBuckets * 2) t.ideal)
    (List.replicate (t.numBuckets.toNat * 2) ⟨0, 0⟩, 0)
  let ineff := if moved.2 > UInt32.ofNat t.items.length >>> 1 then t.ineffExpands + 1 else 0
  { items := t.items.reverse
    loads := moved.1
    numBuckets := t.numBuckets * 2
    log2NumBuckets := t.log2NumBuckets + 1
    ineffExpands := ineff
    noexpand := t.noexpand || ineff > 1 }

/-- The addition of the item makes `HASH_ADD_TO_BKT` expand the buckets. -/
def Expands (t : Chained α) (a : α) : Prop :=
  (t.loadOf hashv a).count + 1 ≥ ((t.loadOf hashv a).expandMult + 1) * hashBktCapacityThresh ∧
    t.noexpand = false

instance (t : Chained α) (a : α) : Decidable (t.Expands hashv a) :=
  inferInstanceAs (Decidable (_ ∧ _))

/-- `HASH_ADD` -/
def add (t : Chained α) (a : α) : Chained α :=
  let load := t.loadOf hashv a
  let t' := { t with
    items := a :: t.items
    loads := t.setLoad hashv a { load with count := load.count + 1 } }
  if t.Expands hashv a then t'.expand hashv else t'

/-- `HASH_DEL` -/
def del [DecidableEq α] (t : Chained α) (a : α) : Chained α :=
  let load := t.loadOf hashv a
  if t.items.erase a = [] then .empty
  else { t with
    items := t.items.erase a
    loads := t.setLoad hashv a { load with count := load.count - 1 } }

/-! ## The items -/

variable {hashv}
variable {t : Chained α} {a : α}

/-- An addition that does not expand the buckets puts the item in front. -/
theorem items_add_of_not (h : ¬ t.Expands hashv a) : (t.add hashv a).items = a :: t.items := by
  rw [add, if_neg h]

/-- An addition that expands the buckets puts the items in the opposite order. -/
theorem items_add_of_expands (h : t.Expands hashv a) :
    (t.add hashv a).items = (a :: t.items).reverse := by
  rw [add, if_pos h]
  rfl

theorem perm_add : (t.add hashv a).items.Perm (a :: t.items) := by
  by_cases h : t.Expands hashv a
  · rw [items_add_of_expands h]
    exact List.reverse_perm _
  · rw [items_add_of_not h]

@[simp] theorem mem_add {b : α} : b ∈ (t.add hashv a).items ↔ b = a ∨ b ∈ t.items := by
  rw [perm_add.mem_iff, List.mem_cons]

@[simp] theorem items_del [DecidableEq α] : (t.del hashv a).items = t.items.erase a := by
  rw [del]
  split
  · next h => rw [h]; rfl
  · rfl

/-- The items that a lookup may find, in the order in which it meets them -/
theorem filter_add {p : α → Bool} : (t.add hashv a).items.filter p =
    if t.Expands hashv a then ((a :: t.items).filter p).reverse else (a :: t.items).filter p := by
  split
  · next h => rw [items_add_of_expands h, List.filter_reverse]
  · next h => rw [items_add_of_not h]

/-- The deletion of an item that a lookup does not look for -/
theorem filter_del_of_neg [DecidableEq α] {p : α → Bool} (ha : ¬ p a) :
    (t.del hashv a).items.filter p = t.items.filter p := by
  rw [items_del, ← List.erase_filter]
  exact List.erase_of_not_mem fun h => ha (List.mem_filter.mp h).2

/-! ## Loads -/

/-- The loads do not depend on the order in which the items are moved. -/
instance (numBuckets ideal : UInt32) : RightCommutative (moveLoad hashv numBuckets ideal) where
  right_comm e a b := by
    by_cases hbkt : hashToBkt (hashv a) numBuckets = hashToBkt (hashv b) numBuckets
    · simp only [moveLoad, hbkt]
    · simp only [moveLoad, List.getD_eq_getElem?_getD, List.getElem?_set_ne hbkt,
        List.getElem?_set_ne (Ne.symm hbkt), List.set_comm _ _ hbkt]
      split_ifs <;> rfl

/-! ## Other items -/

/-- The table with what a function gives for the items -/
def map (f : α → β) (t : Chained α) : Chained β where
  items := t.items.map f
  loads := t.loads
  numBuckets := t.numBuckets
  log2NumBuckets := t.log2NumBuckets
  ineffExpands := t.ineffExpands
  noexpand := t.noexpand

section
variable {f : α → β} {hashv' : β → UInt32}

theorem map_empty : (empty : Chained α).map f = empty := rfl

theorem map_expand (h : ∀ b ∈ t.items, hashv' (f b) = hashv b) :
    (t.expand hashv).map f = (t.map f).expand hashv' := by
  have hmoved (ideal : UInt32) (e : List Load × UInt32) :
      (t.items.map f).foldl (moveLoad hashv' (t.numBuckets * 2) ideal) e =
        t.items.foldl (moveLoad hashv (t.numBuckets * 2) ideal) e := by
    rw [List.foldl_map]
    refine List.foldl_ext _ _ _ fun e b hb => ?_
    rw [moveLoad, h b hb]
    rfl
  have hideal : (t.map f).ideal = t.ideal := by
    rw [ideal, ideal, show (t.map f).items.length = t.items.length from List.length_map f]
    rfl
  rw [expand, expand, hideal]
  simp only [map, hmoved, List.length_map, List.map_reverse]

theorem map_loadOf (h : hashv' (f a) = hashv a) :
    (t.map f).loadOf hashv' (f a) = t.loadOf hashv a := by
  rw [loadOf, h]
  rfl

theorem map_add (h : ∀ b ∈ a :: t.items, hashv' (f b) = hashv b) :
    (t.add hashv a).map f = (t.map f).add hashv' (f a) := by
  have ha := h a List.mem_cons_self
  have hexpands : (t.map f).Expands hashv' (f a) ↔ t.Expands hashv a := by
    rw [Expands, map_loadOf ha]
    rfl
  have hset (load : Load) : (t.map f).setLoad hashv' (f a) load = t.setLoad hashv a load := by
    rw [setLoad, ha]
    rfl
  by_cases hfull : t.Expands hashv a
  · rw [add, add, if_pos hfull, if_pos (hexpands.mpr hfull), map_expand h, map_loadOf ha, hset]
    rfl
  · rw [add, add, if_neg hfull, if_neg fun hfull' => hfull (hexpands.mp hfull'), map_loadOf ha,
      hset]
    rfl

/-- What is found first is also the first with its image. -/
theorem map_erase_of_find [DecidableEq α] [DecidableEq β] {q : β → Bool} {as : List α}
    (h : as.find? (fun b => q (f b)) = some a) : (as.erase a).map f = (as.map f).erase (f a) := by
  induction as with
  | nil => cases h
  | cons b as ih =>
    rw [List.find?_cons] at h
    split at h
    · cases h
      rw [List.erase_cons_head, List.map_cons, List.erase_cons_head]
    · next hb =>
      have hne : f b ≠ f a := by
        intro heq
        rw [heq, List.find?_some h] at hb
        cases hb
      have hne' : b ≠ a := fun heq => hne (heq ▸ rfl)
      rw [List.erase_cons_tail (by simpa using hne'), List.map_cons, List.map_cons,
        List.erase_cons_tail (by simpa using hne), ih h]

theorem map_del [DecidableEq α] [DecidableEq β] {q : β → Bool} (ha : hashv' (f a) = hashv a)
    (h : t.items.find? (fun b => q (f b)) = some a) :
    (t.del hashv a).map f = (t.map f).del hashv' (f a) := by
  have herase := map_erase_of_find h
  have hset (load : Load) : (t.map f).setLoad hashv' (f a) load = t.setLoad hashv a load := by
    rw [setLoad, ha]
    rfl
  have hitems : (t.map f).items.erase (f a) = (t.items.erase a).map f := herase.symm
  by_cases hnil : t.items.erase a = []
  · have hnil' : (t.map f).items.erase (f a) = [] := by rw [hitems, hnil]; rfl
    rw [del, del, if_pos hnil, if_pos hnil', map_empty]
  · have hnil' : (t.map f).items.erase (f a) ≠ [] := by
      rw [hitems]
      exact fun h => hnil (List.map_eq_nil_iff.mp h)
    rw [del, del, if_neg hnil, if_neg hnil', map_loadOf ha, hset, hitems]
    rfl

end

end Chained

/-- Of items with different names the first and the last bear the same name if there is only one. -/
theorem map_getLast?_eq_iff {f : α → β} {as : List α} (h : (as.map f).Nodup) :
    as.getLast?.map f = as.head?.map f ↔ as.length ≤ 1 := by
  cases as with
  | nil => simp
  | cons a as =>
    cases as with
    | nil => simp
    | cons b as =>
      refine iff_of_false (fun heq => ?_) (by simp)
      have hlast := List.getLast_mem (List.cons_ne_nil b as)
      have hname : f ((b :: as).getLast (List.cons_ne_nil b as)) = f a := by
        simpa [List.getLast?_eq_some_getLast] using heq
      exact (List.nodup_cons.mp h).1 (hname ▸ List.mem_map_of_mem hlast)

end Chirc.Uthash
