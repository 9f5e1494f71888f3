import Mathlib.Logic.Function.Basic
import Mathlib.Data.List.Perm.Basic
import Mathlib.Tactic.Common

/-! # Allocated blocks

A heap gives out blocks of contents `β`; the addresses are numbers that are never used again.
`Adds base h as` says that `h` has the blocks of `base`, untouched, and besides them those at `as`:
what a function has allocated and not freed so far.

* `Adds.alloc`, `Adds.set`, `Adds.free`, `Adds.trans`: what the operations do to these blocks.
* `Adds.block_eq`: with none of them left, the heap is as before. -/

namespace Allocation

variable {β : Type*}

structure Heap (β : Type*) where
  block : Nat → Option β
  /-- the next address -/
  next : Nat
  /-- the requests that were not granted, each with the address that it did not get and its size, the
  last one first -/
  refused : List (Nat × Nat)
  fresh : ∀ a, next ≤ a → block a = none

namespace Heap

def empty : Heap β := ⟨fun _ => none, 0, [], fun _ _ => rfl⟩

theorem lt_next {h : Heap β} (ha : h.block a ≠ none) : a < h.next := by
  by_contra hle
  exact ha (h.fresh a (Nat.le_of_not_lt hle))

/-- A new block, at `h.next` -/
def alloc (h : Heap β) (b : β) : Heap β where
  block := Function.update h.block h.next (some b)
  next := h.next + 1
  refused := h.refused
  fresh a ha := by
    rw [Function.update_of_ne (by omega)]
    exact h.fresh a (by omega)

/-- An address that is not given out -/
def skip (h : Heap β) : Heap β where
  block := h.block
  next := h.next + 1
  refused := h.refused
  fresh a ha := h.fresh a (by omega)

/-- A request for `size` that is not granted -/
def refuse (h : Heap β) (size : Nat) : Heap β where
  block := h.block
  next := h.next + 1
  refused := (h.next, size) :: h.refused
  fresh a ha := h.fresh a (by omega)

/-- Other contents for a block, if it is allocated -/
def set (h : Heap β) (a : Nat) (b : β) : Heap β where
  block := Function.update h.block a ((h.block a).map fun _ => b)
  next := h.next
  refused := h.refused
  fresh a' ha' := by
    by_cases h' : a' = a
    · subst h'
      rw [Function.update_self, h.fresh a' ha', Option.map_none]
    · rw [Function.update_of_ne h']
      exact h.fresh a' ha'

def free (h : Heap β) (a : Nat) : Heap β where
  block := Function.update h.block a none
  next := h.next
  refused := h.refused
  fresh a' ha' := by
    by_cases h' : a' = a
    · rw [h', Function.update_self]
    · rw [Function.update_of_ne h']
      exact h.fresh a' ha'

theorem block_alloc (h : Heap β) (b : β) : (h.alloc b).block h.next = some b :=
  Function.update_self _ _ _

theorem block_alloc_of_ne {h : Heap β} (b : β) (ha : a ≠ h.next) :
    (h.alloc b).block a = h.block a := Function.update_of_ne ha _ _

theorem block_set {h : Heap β} (ha : h.block a ≠ none) (b : β) :
    (h.set a b).block a = some b := by
  obtain ⟨c, hc⟩ := Option.ne_none_iff_exists'.mp ha
  have hself : (h.set a b).block a = (h.block a).map fun _ => b := Function.update_self _ _ _
  rw [hself, hc, Option.map_some]

theorem block_set_of_ne (h : Heap β) (b : β) (ha : a' ≠ a) : (h.set a b).block a' = h.block a' :=
  Function.update_of_ne ha _ _

theorem block_free (h : Heap β) (a : Nat) : (h.free a).block a = none := Function.update_self _ _ _

theorem block_free_of_ne (h : Heap β) (ha : a' ≠ a) : (h.free a).block a' = h.block a' :=
  Function.update_of_ne ha _ _

end Heap

/-- Besides the blocks of `base`, the heap `h` has those at `as`. -/
structure Adds (base h : Heap β) (as : List Nat) : Prop where
  nodup : as.Nodup
  new : ∀ a ∈ as, base.next ≤ a
  live : ∀ a ∈ as, h.block a ≠ none
  same : ∀ a, a ∉ as → h.block a = base.block a
  le : base.next ≤ h.next

variable {base h : Heap β} {as : List Nat}

namespace Adds

theorem refl (h : Heap β) : Adds h h [] := ⟨.nil, nofun, nofun, fun _ _ => rfl, Nat.le_refl _⟩

theorem unused (H : Adds base h as) (ha : a ∈ as) : base.block a = none :=
  base.fresh a (H.new a ha)

/-- With nothing added, the heap is as before. -/
theorem block_eq (H : Adds base h []) : h.block = base.block :=
  funext fun a => H.same a (List.not_mem_nil)

theorem perm (H : Adds base h as) (hp : as.Perm as') : Adds base h as' where
  nodup := hp.nodup_iff.mp H.nodup
  new a ha := H.new a (hp.mem_iff.mpr ha)
  live a ha := H.live a (hp.mem_iff.mpr ha)
  same a ha := H.same a fun h => ha (hp.mem_iff.mp h)
  le := H.le

theorem next_notMem (H : Adds base h as) : h.next ∉ as :=
  fun ha => H.live _ ha (h.fresh _ (Nat.le_refl _))

theorem alloc (H : Adds base h as) (b : β) : Adds base (h.alloc b) (h.next :: as) where
  nodup := List.nodup_cons.mpr ⟨H.next_notMem, H.nodup⟩
  new a ha := by
    cases List.mem_cons.mp ha with
    | inl ha =>
      rw [ha]
      exact H.le
    | inr ha => exact H.new a ha
  live a ha := by
    by_cases hne : a = h.next
    · rw [hne, Heap.block_alloc]
      exact nofun
    · rw [Heap.block_alloc_of_ne b hne]
      exact H.live a ((List.mem_cons.mp ha).resolve_left hne)
  same a ha := by
    obtain ⟨hne, ha⟩ := List.ne_and_not_mem_of_not_mem_cons ha
    rw [Heap.block_alloc_of_ne b hne]
    exact H.same a ha
  le := Nat.le_succ_of_le H.le

theorem skip (H : Adds base h as) : Adds base h.skip as where
  nodup := H.nodup
  new := H.new
  live := H.live
  same := H.same
  le := Nat.le_succ_of_le H.le

theorem refuse (H : Adds base h as) (size : Nat) : Adds base (h.refuse size) as where
  nodup := H.nodup
  new := H.new
  live := H.live
  same := H.same
  le := Nat.le_succ_of_le H.le

theorem set (H : Adds base h as) (ha : a ∈ as) (b : β) : Adds base (h.set a b) as where
  nodup := H.nodup
  new := H.new
  live a' ha' := by
    by_cases hne : a' = a
    · rw [hne, Heap.block_set (H.live a ha)]
      exact nofun
    · rw [Heap.block_set_of_ne h b hne]
      exact H.live a' ha'
  same a' ha' := by
    have hne : a' ≠ a := by
      intro heq
      rw [heq] at ha'
      exact ha' ha
    rw [Heap.block_set_of_ne h b hne]
    exact H.same a' ha'
  le := H.le

theorem free (H : Adds base h (a :: as)) : Adds base (h.free a) as where
  nodup := (List.nodup_cons.mp H.nodup).2
  new a' ha' := H.new a' (List.mem_cons_of_mem _ ha')
  live a' ha' := by
    have hne : a' ≠ a := fun heq => (List.nodup_cons.mp H.nodup).1 (heq ▸ ha')
    rw [Heap.block_free_of_ne h hne]
    exact H.live a' (List.mem_cons_of_mem _ ha')
  same a' ha' := by
    by_cases hne : a' = a
    · rw [hne, Heap.block_free]
      exact (H.unused List.mem_cons_self).symm
    · rw [Heap.block_free_of_ne h hne]
      exact H.same a' (List.not_mem_cons_of_ne_of_not_mem hne ha')
  le := H.le

/-- What is added in two steps -/
theorem trans {h' : Heap β} {as' : List Nat} (H : Adds base h as) (H' : Adds h h' as') :
    Adds base h' (as' ++ as) where
  nodup := by
    refine List.nodup_append.mpr ⟨H'.nodup, H.nodup, fun a ha b hb heq => ?_⟩
    subst heq
    exact H.live a hb (H'.unused ha)
  new a ha := by
    cases List.mem_append.mp ha with
    | inl ha => exact Nat.le_trans H.le (H'.new a ha)
    | inr ha => exact H.new a ha
  live a ha := by
    by_cases hnew : a ∈ as'
    · exact H'.live a hnew
    · rw [H'.same a hnew]
      exact H.live a ((List.mem_append.mp ha).resolve_left hnew)
  same a ha := by
    rw [H'.same a fun h => ha (List.mem_append_left _ h),
      H.same a fun h => ha (List.mem_append_right _ h)]
  le := Nat.le_trans H.le H'.le

/-- What was allocated before is untouched. -/
theorem block_of_live (H : Adds base h as) (ha : base.block a ≠ none) :
    h.block a = base.block a := H.same a fun hmem => ha (H.unused hmem)

end Adds

end Allocation
