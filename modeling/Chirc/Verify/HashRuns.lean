import Chirc.Verify.HashTables

/-! # Runs of a hash table

A table starts empty and is changed by additions of structs that are not in it, deletions of structs
that are, and `HASH_CLEAR`. After any such operations it is what the list of the structs with their
keys, in the order in which they were added, says: for lookups, for the count, for iterations (also
for one that deletes what it visits) and for the check of `HASH_FSCK`. -/

namespace Chirc.Uthash

open DoublyLinked (Chain)

inductive Op
  | add (a : Nat) (key : List Byte)
  | del (a : Nat)
  | clear

def Op.run (hash : List Byte → UInt32) (malloc : Nat → Bool) (fuel : Nat) (s : Hash) :
    Op → Except Stop Hash
  | .add a key => hashAdd hash malloc fuel s a key
  | .del a => hashDelete s a
  | .clear => .ok (hashClear s)

/-- The operations one after the other on a table that is empty -/
def runOps (hash : List Byte → UInt32) (malloc : Nat → Bool) (fuel : Nat) (hh : Handles)
    (ops : List Op) : Except Stop Hash :=
  ops.foldlM (Op.run hash malloc fuel) ⟨hh, none⟩

/-- Structs with their keys, in the order in which they were added -/
abbrev Entries := List (Nat × List Byte)

/-- What an operation does to the entries; a struct is added only if it is not in the table, and
deleted only if it is. -/
def Op.apply (entries : Entries) : Op → Option Entries
  | .add a key =>
    if a ∈ entries.map Prod.fst then none else some (entries ++ [(a, key)])
  | .del a =>
    if a ∈ entries.map Prod.fst then some (entries.filter (·.1 != a)) else none
  | .clear => some []

/-- The entries after the operations -/
def applyOps (ops : List Op) : Option Entries := ops.foldlM Op.apply []

/-- The table holds the entries. -/
structure Stored (hash : List Byte → UInt32) (s : Hash) (entries : Entries) : Prop where
  holds : Holds hash s (entries.map Prod.fst)
  key : ∀ e ∈ entries, s.hh.key e.1 = e.2

variable {hash : List Byte → UInt32} {malloc : Nat → Bool}

theorem Holds.nodup {s : Hash} (H : Holds hash s items) : items.Nodup := by
  rw [Holds] at H
  split at H
  · rw [H]
    exact List.nodup_nil
  · obtain ⟨chain, H⟩ := H
    exact H.app.nodup

theorem Stored.empty (hh : Handles) : Stored hash ⟨hh, none⟩ [] :=
  ⟨show [].map Prod.fst = [] from rfl, fun _ he => nomatch he⟩

/-! ## Steps -/

theorem Stored.add {s : Hash} {entries : Entries} (hlimit : malloc 68719476736 = false)
    (H : Stored hash s entries) (ha : a ∉ entries.map Prod.fst) (hfuel : entries.length + 1 < fuel)
    (key : List Byte) : Refused malloc (hashAdd hash malloc fuel s a key) ∨
      ∃ s', hashAdd hash malloc fuel s a key = .ok s' ∧ Stored hash s' (entries ++ [(a, key)]) := by
  rw [← List.length_map (f := Prod.fst)] at hfuel
  cases hashAdd_ok hlimit H.holds ha hfuel key with
  | inl h => exact .inl h
  | inr h =>
    obtain ⟨s', hs', H', hkey⟩ := h
    refine .inr ⟨s', hs', ?_, ?_⟩
    · rw [List.map_append]
      exact H'
    · intro e he
      rw [hkey]
      cases List.mem_append.mp he with
      | inl he =>
        have hne : e.1 ≠ a := fun h => ha (h ▸ List.mem_map_of_mem he)
        rw [Function.update_of_ne hne]
        exact H.key e he
      | inr he =>
        rw [List.mem_singleton.mp he]
        exact Function.update_self _ _ _

theorem map_fst_filter {entries : Entries} (hnodup : (entries.map Prod.fst).Nodup) :
    (entries.filter (·.1 != a)).map Prod.fst = (entries.map Prod.fst).erase a := by
  rw [hnodup.erase_eq_filter, List.filter_map]
  rfl

theorem Stored.del {s : Hash} {entries : Entries} (H : Stored hash s entries)
    (ha : a ∈ entries.map Prod.fst) :
    ∃ s', hashDelete s a = .ok s' ∧ Stored hash s' (entries.filter (·.1 != a)) := by
  obtain ⟨s', hs', H', hkey⟩ := hashDelete_ok H.holds ha
  refine ⟨s', hs', ?_, ?_⟩
  · rw [map_fst_filter H.holds.nodup]
    exact H'
  · intro e he
    rw [hkey]
    exact H.key e (List.mem_of_mem_filter he)

theorem Stored.step {s : Hash} {entries entries' : Entries} {op : Op}
    (hlimit : malloc 68719476736 = false) (H : Stored hash s entries)
    (happly : op.apply entries = some entries') (hfuel : entries.length + 1 < fuel) :
    Refused malloc (op.run hash malloc fuel s) ∨
      ∃ s', op.run hash malloc fuel s = .ok s' ∧ Stored hash s' entries' := by
  cases op with
  | add a key =>
    rw [Op.apply] at happly
    split at happly
    · cases happly
    · next ha =>
      cases happly
      exact H.add hlimit ha hfuel key
  | del a =>
    rw [Op.apply] at happly
    split at happly
    · next ha =>
      cases happly
      exact .inr (H.del ha)
    · cases happly
  | clear =>
    cases happly
    exact .inr ⟨_, rfl, .empty s.hh⟩

theorem length_apply_le {op : Op} {entries entries' : Entries}
    (happly : op.apply entries = some entries') : entries'.length ≤ entries.length + 1 := by
  cases op with
  | add a key =>
    rw [Op.apply] at happly
    split at happly
    · cases happly
    · cases happly
      rw [List.length_append]
      exact Nat.le_refl _
  | del a =>
    rw [Op.apply] at happly
    split at happly
    · cases happly
      exact Nat.le_succ_of_le (List.length_filter_le _ _)
    · cases happly
  | clear =>
    cases happly
    exact Nat.zero_le _

/-! ## Runs -/

theorem Stored.run {s : Hash} {entries entries' : Entries} {ops : List Op}
    (hlimit : malloc 68719476736 = false) (H : Stored hash s entries)
    (happly : ops.foldlM Op.apply entries = some entries')
    (hfuel : entries.length + ops.length < fuel) :
    Refused malloc (ops.foldlM (Op.run hash malloc fuel) s) ∨
      ∃ s', ops.foldlM (Op.run hash malloc fuel) s = .ok s' ∧ Stored hash s' entries' := by
  induction ops generalizing s entries with
  | nil =>
    cases happly
    exact .inr ⟨s, rfl, H⟩
  | cons op ops ih =>
    rw [List.foldlM_cons] at happly ⊢
    obtain ⟨entries₁, h₁, happly⟩ := Option.bind_eq_some_iff.mp happly
    rw [List.length_cons] at hfuel
    have hle := length_apply_le h₁
    have hfuel₁ : entries.length + 1 < fuel := by omega
    cases H.step hlimit h₁ hfuel₁ with
    | inl h => exact .inl (h.bind _)
    | inr h =>
      obtain ⟨s₁, hs₁, H₁⟩ := h
      rw [hs₁]
      exact ih H₁ happly (by omega)

theorem stored_runOps {ops : List Op} (hlimit : malloc 68719476736 = false)
    (happly : applyOps ops = some entries) (hfuel : ops.length < fuel)
    (hash : List Byte → UInt32) (hh : Handles) :
    Refused malloc (runOps hash malloc fuel hh ops) ∨
      ∃ s, runOps hash malloc fuel hh ops = .ok s ∧ Stored hash s entries := by
  refine Stored.run hlimit (Stored.empty hh) happly ?_
  rw [List.length_nil, Nat.zero_add]
  exact hfuel

/-- The entries are no more than the operations. -/
theorem length_entries_le {ops : List Op} {entries₀ entries : Entries}
    (happly : ops.foldlM Op.apply entries₀ = some entries) :
    entries.length ≤ entries₀.length + ops.length := by
  induction ops generalizing entries₀ with
  | nil =>
    cases happly
    exact Nat.le_refl _
  | cons op ops ih =>
    rw [List.foldlM_cons] at happly
    obtain ⟨entries₁, h₁, happly⟩ := Option.bind_eq_some_iff.mp happly
    have hle := length_apply_le h₁
    have := ih happly
    rw [List.length_cons]
    omega

/-! ## Lookups -/

theorem Stored.mem_iff {s : Hash} {entries : Entries} {key : List Byte}
    (H : Stored hash s entries) :
    a ∈ entries.map Prod.fst ∧ s.hh.key a = key ↔ (a, key) ∈ entries := by
  constructor
  · intro ⟨ha, hkey⟩
    obtain ⟨e, he, rfl⟩ := List.mem_map.mp ha
    rw [← hkey, H.key e he]
    exact he
  · intro he
    exact ⟨List.mem_map_of_mem (f := Prod.fst) he, H.key _ he⟩

theorem Stored.find {s : Hash} {entries : Entries} (H : Stored hash s entries)
    (hfuel : entries.length < fuel) (key : List Byte) :
    ∃ r, hashFind hash fuel s key = .ok r ∧ (∀ a, r = some a → (a, key) ∈ entries) ∧
      (r = none ↔ ∀ a, (a, key) ∉ entries) := by
  rw [← List.length_map (f := Prod.fst)] at hfuel
  obtain ⟨r, hr, F⟩ := hashFind_ok H.holds hfuel key
  have hfound : ∀ a, r = some a → (a, key) ∈ entries := fun a ha => H.mem_iff.mp (F.found a ha)
  refine ⟨r, hr, hfound, ?_, ?_⟩
  · intro hnone a ha
    obtain ⟨ha', hkey⟩ := H.mem_iff.mpr ha
    exact F.missed hnone a ha' hkey
  · intro hmiss
    cases hr : r with
    | none => rfl
    | some a => exact absurd (hfound a hr) (hmiss a)

theorem hashIterLoop_eq {σ : Type} {hh : Handles} {body : σ → Nat → Except Stop σ} {v : σ}
    (H : Chain hh.next hh.prev b p l) (hfuel : l.length < fuel) :
    hashIterLoop (fun _ => hh) body fuel p (p.bind hh.next) v = l.foldlM body v := by
  induction fuel generalizing b p l v with
  | zero => omega
  | succ fuel ih =>
    cases H with
    | nil => rfl
    | @cons a _ l _ rest =>
      rw [List.length_cons] at hfuel
      rw [hashIterLoop, List.foldlM_cons]
      cases body v a with
      | error e => rfl
      | ok v' => exact ih rest (by omega)

/-- An iteration visits the structs in the order in which they were added. -/
theorem hashIter_eq {σ : Type} {s : Hash} {body : σ → Nat → Except Stop σ} {v : σ}
    (H : Holds hash s items) (hfuel : items.length < fuel) :
    hashIter (fun _ => s.hh) body fuel s v = items.foldlM body v := by
  rw [Holds] at H
  rw [hashIter]
  cases hroot : s.root with
  | none =>
    rw [hroot] at H
    rw [H] at hfuel ⊢
    exact hashIterLoop_eq (b := none) .nil hfuel
  | some root =>
    obtain ⟨head, tbl⟩ := root
    rw [hroot] at H
    obtain ⟨chain, H⟩ := H
    exact hashIterLoop_eq H.app hfuel

theorem fsckChain_eq {next prev : Nat → Option Nat} (H : Chain next prev b p l)
    (hfuel : l.length < fuel) (count : UInt32) :
    fsckChain next prev fuel b p count = .ok (count + UInt32.ofNat l.length) := by
  induction fuel generalizing b p l count with
  | zero => omega
  | succ fuel ih =>
    cases H with
    | nil => exact congrArg Except.ok (UInt32.add_zero count).symm
    | @cons a _ l hb rest =>
      rw [List.length_cons] at hfuel
      rw [fsckChain, if_pos hb.symm, ih rest (by omega), List.length_cons, UInt32.ofNat_add,
        UInt32.add_assoc, UInt32.add_comm 1]
      rfl

theorem hashFsck_ok {s : Hash} (H : Holds hash s items) (hfuel : items.length < fuel) :
    hashFsck fuel s = .ok () := by
  rw [Holds] at H
  rw [hashFsck]
  cases hroot : s.root with
  | none => rfl
  | some root =>
    obtain ⟨head, tbl⟩ := root
    rw [hroot] at H
    obtain ⟨chain, H⟩ := H
    have hloop := Counting.foldlM_range_ok (n := tbl.numBuckets.toNat) (s := (0 : UInt32))
      (f := fun count i => do
        let bkt ← bucketAt tbl.buckets i
        let bktCount ← fsckChain s.hh.hhNext s.hh.hhPrev fuel none bkt.hhHead 0
        if bkt.count = bktCount then return count + bktCount else .error .oops)
      (P := fun i count => count = UInt32.ofNat (firstChains chain i).length) rfl ?_
    · obtain ⟨count, hcount, htotal⟩ := hloop
      rw [H.perm_firstChains.length_eq] at htotal
      show ((List.range tbl.numBuckets.toNat).foldlM _ 0 >>= _) = _
      rw [hcount, Stop.ok_bind, if_pos (htotal.trans H.numItems.symm), fsckChain_eq H.app hfuel,
        Stop.ok_bind, UInt32.zero_add, if_pos H.numItems.symm]
      rfl
    · intro i count hi hcount
      rw [← H.chains.size] at hi
      have hb := List.getElem?_eq_getElem hi
      have hlen := H.length_chain_le i
      refine ⟨count + UInt32.ofNat (chain i).length, ?_, ?_⟩
      · rw [bucketAt_of_get hb, Stop.ok_bind,
          fsckChain_eq (H.chains.holds hb).chain (Nat.lt_of_le_of_lt hlen hfuel), Stop.ok_bind,
          UInt32.zero_add, if_pos (H.chains.holds hb).count]
        rfl
      · rw [hcount, firstChains_succ, List.length_append, UInt32.ofNat_add]

theorem hashCnt_eq {s : Hash} (H : Holds hash s items) :
    hashCnt s = UInt32.ofNat items.length := by
  rw [Holds] at H
  rw [hashCnt]
  cases hroot : s.root with
  | none =>
    rw [hroot] at H
    rw [H]
    rfl
  | some root =>
    obtain ⟨head, tbl⟩ := root
    rw [hroot] at H
    obtain ⟨chain, H⟩ := H
    exact H.numItems

end Chirc.Uthash
