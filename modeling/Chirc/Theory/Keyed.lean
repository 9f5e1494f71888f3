import Mathlib.Data.List.Nodup
import Mathlib.Data.Set.Card

/-! # Tables with keys

A table is a list of entries with distinct keys. What a lookup finds, and how the entries change
when one is added or deleted. -/

/-- The entries of the table have keys, no two of them the same one. -/
structure Keyed (key : α → Option κ) (table : List α) : Prop where
  nodup : (table.map key).Nodup
  some : ∀ a ∈ table, ∃ k, key a = some k

namespace Keyed

variable {key key' : α → Option κ} {table table' : List α}

theorem nil : Keyed key [] := ⟨List.nodup_nil, nofun⟩

theorem nodup_table (H : Keyed key table) : table.Nodup := H.nodup.of_map

theorem eq_of_key (H : Keyed key table) (ha : a ∈ table) (hb : b ∈ table) (h : key a = key b) :
    a = b := List.inj_on_of_nodup_map H.nodup ha hb h

theorem congr (H : Keyed key table) (h : ∀ a ∈ table, key' a = key a) : Keyed key' table where
  nodup := by
    rw [List.map_congr_left h]
    exact H.nodup
  some a ha := by
    rw [h a ha]
    exact H.some a ha

/-- An entry with another key than those in the table -/
theorem cons (H : Keyed key table) (ha : key a = Option.some k)
    (hnew : ∀ b ∈ table, key b ≠ Option.some k) : Keyed key (a :: table) where
  nodup := by
    rw [List.map_cons, List.nodup_cons, List.mem_map]
    refine ⟨?_, H.nodup⟩
    intro h
    obtain ⟨b, hb, hkey⟩ := h
    exact hnew b hb (hkey.trans ha)
  some b hb := by
    cases List.mem_cons.mp hb with
    | inl hb => exact ⟨k, hb ▸ ha⟩
    | inr hb => exact H.some b hb

theorem sublist (H : Keyed key table) (h : table'.Sublist table) : Keyed key table' where
  nodup := H.nodup.sublist (h.map key)
  some b hb := H.some b (h.subset hb)

theorem erase [DecidableEq α] (H : Keyed key table) (a : α) : Keyed key (table.erase a) :=
  H.sublist List.erase_sublist

variable [BEq κ] [LawfulBEq κ]

theorem find_eq_none {k : κ} :
    table.find? (fun a => key a == Option.some k) = none ↔ ∀ a ∈ table, key a ≠ Option.some k := by
  simp only [List.find?_eq_none, beq_iff_eq]

/-- A lookup finds the entry with the key. -/
theorem find_iff (H : Keyed key table) {k : κ} :
    table.find? (fun a => key a == Option.some k) = Option.some a ↔
      a ∈ table ∧ key a = Option.some k := by
  constructor
  · intro h
    exact ⟨List.mem_of_find?_eq_some h, by simpa using List.find?_some h⟩
  · intro h
    obtain ⟨ha, hkey⟩ := h
    cases hfind : table.find? (fun a => key a == Option.some k) with
    | none => exact absurd hkey (find_eq_none.mp hfind a ha)
    | some b =>
      have hb : key b = Option.some k := by simpa using List.find?_some hfind
      rw [H.eq_of_key (List.mem_of_find?_eq_some hfind) ha (hb.trans hkey.symm)]

/-- An entry is found under its key. -/
theorem mem_iff (H : Keyed key table) :
    a ∈ table ↔ ∃ k, key a = Option.some k ∧
      table.find? (fun b => key b == Option.some k) = Option.some a := by
  constructor
  · intro ha
    obtain ⟨k, hk⟩ := H.some a ha
    exact ⟨k, hk, H.find_iff.mpr ⟨ha, hk⟩⟩
  · intro h
    obtain ⟨k, -, hfind⟩ := h
    exact List.mem_of_find?_eq_some hfind

/-- Counting entries is counting the keys under which they are found. -/
theorem countP_eq_ncard (H : Keyed key table) (p : α → Bool) :
    table.countP p = {k | ∃ a, table.find? (fun b => key b == Option.some k) = Option.some a ∧
      p a = true}.ncard := by
  classical
  have hnodup : ((table.filter p).map key).Nodup := (H.sublist List.filter_sublist).nodup
  have himage : (((table.filter p).map key).toFinset : Set (Option κ)) = Option.some '' {k | ∃ a,
      table.find? (fun b => key b == Option.some k) = Option.some a ∧ p a = true} := by
    ext k
    rw [Finset.mem_coe, List.mem_toFinset, List.mem_map]
    constructor
    · intro h
      obtain ⟨a, ha, hkey⟩ := h
      obtain ⟨ha, hp⟩ := List.mem_filter.mp ha
      obtain ⟨k', hk'⟩ := H.some a ha
      exact ⟨k', ⟨a, H.find_iff.mpr ⟨ha, hk'⟩, hp⟩, hk'.symm.trans hkey⟩
    · intro h
      obtain ⟨k', ⟨a, hfind, hp⟩, heq⟩ := h
      obtain ⟨ha, hkey⟩ := H.find_iff.mp hfind
      exact ⟨a, List.mem_filter.mpr ⟨ha, hp⟩, hkey.trans heq⟩
  rw [← Set.ncard_image_of_injective _ (Option.some_injective κ), ← himage, Set.ncard_coe_finset,
    List.toFinset_card_of_nodup hnodup, List.length_map, List.countP_eq_length_filter]

end Keyed
