import Chirc.Jenkins
import Mathlib.Tactic.IntervalCases

/-! # What the hash function reads

`HASH_JEN` reads each byte of the key once: the loop goes through the blocks of twelve bytes, and
the `switch` through the rest of the key, from its last byte to its first. -/

namespace Chirc.Uthash

theorem keyAt_eq (key : List Byte) (hi : i < key.length) :
    ∃ b, keyAt key i = ⟨[i], .ok b⟩ := by
  refine ⟨key[i].toUInt32, ?_⟩
  rw [keyAt, List.getElem?_eq_getElem hi]

theorem wordAt_eq (key : List Byte) (hoff : off + 4 ≤ key.length) :
    ∃ w, wordAt key off = ⟨List.range' off 4, .ok w⟩ := by
  obtain ⟨b₀, h₀⟩ := keyAt_eq key (i := off) (by omega)
  obtain ⟨b₁, h₁⟩ := keyAt_eq key (i := off + 1) (by omega)
  obtain ⟨b₂, h₂⟩ := keyAt_eq key (i := off + 2) (by omega)
  obtain ⟨b₃, h₃⟩ := keyAt_eq key (i := off + 3) (by omega)
  refine ⟨b₀ + (b₁ <<< 8) + (b₂ <<< 16) + (b₃ <<< 24), ?_⟩
  rw [wordAt, h₀, h₁, h₂, h₃]
  rfl

/-- A block of twelve bytes -/
theorem range'_block (off n : Nat) : List.range' off (12 + n) =
    List.range' off 4 ++ (List.range' (off + 4) 4 ++ (List.range' (off + 8) 4 ++
      List.range' (off + 12) n)) := by
  rw [show off + 12 = off + 8 + 4 from rfl, List.range'_append_1,
    show off + 8 = off + 4 + 4 from rfl, List.range'_append_1, List.range'_append_1]
  congr 1
  omega

/-- The loop reads whole blocks and leaves less than one. -/
theorem hashJenLoop_eq {key : List Byte} {k : UInt32} (hlen : off + k.toNat = key.length)
    (hfuel : k.toNat < 12 * fuel) (v : JenVars) :
    ∃ v' k', hashJenLoop key fuel v off k =
        ⟨List.range' off (12 * (k.toNat / 12)), .ok (v', off + 12 * (k.toNat / 12), k')⟩ ∧
      k'.toNat = k.toNat % 12 := by
  induction fuel generalizing v off k with
  | zero => omega
  | succ fuel ih =>
    rw [hashJenLoop]
    cases Decidable.em (12 ≤ k) with
    | inr hlt =>
      rw [if_neg hlt]
      rw [UInt32.le_iff_toNat_le] at hlt
      have h12 : (12 : UInt32).toNat = 12 := rfl
      have hzero : k.toNat / 12 = 0 := Nat.div_eq_of_lt (by omega)
      rw [hzero]
      exact ⟨v, k, rfl, (Nat.mod_eq_of_lt (by omega)).symm⟩
    | inl hle =>
      rw [if_pos hle]
      have hsub := UInt32.toNat_sub_of_le k 12 hle
      rw [UInt32.le_iff_toNat_le] at hle
      have h12 : (12 : UInt32).toNat = 12 := rfl
      rw [h12] at hsub hle
      have hoff₀ : off + 4 ≤ key.length := by omega
      have hoff₁ : off + 4 + 4 ≤ key.length := by omega
      have hoff₂ : off + 8 + 4 ≤ key.length := by omega
      obtain ⟨w₀, h₀⟩ := wordAt_eq key hoff₀
      obtain ⟨w₁, h₁⟩ := wordAt_eq key hoff₁
      obtain ⟨w₂, h₂⟩ := wordAt_eq key hoff₂
      have hlen' : off + 12 + (k - 12).toNat = key.length := by omega
      obtain ⟨v', k', h, hk'⟩ := ih hlen' (by omega)
        (hashJenMix ⟨v.i + w₀, v.j + w₁, v.hashv + w₂⟩)
      rw [hsub] at h hk'
      have hdiv : k.toNat / 12 = (k.toNat - 12) / 12 + 1 := by omega
      refine ⟨v', k', ?_, by omega⟩
      have hblock : 12 * ((k.toNat - 12) / 12 + 1) = 12 + 12 * ((k.toNat - 12) / 12) := by omega
      rw [h₀, h₁, h₂, hdiv, hblock, range'_block, ← Nat.add_assoc]
      show Traced.mk (_ ++ (_ ++ (_ ++ (hashJenLoop key fuel _ (off + 12) (k - 12)).log)))
        (hashJenLoop key fuel _ (off + 12) (k - 12)).result = _
      rw [h]

theorem hashJenCase_eq {key : List Byte} {k : UInt32} (hlen : off + k.toNat = key.length)
    (hn : 0 < n) (shift : UInt32) :
    ∃ c, hashJenCase key off k n shift =
      ⟨if n ≤ k.toNat then [off + (n - 1)] else [], .ok c⟩ := by
  rw [hashJenCase]
  cases Decidable.em (n ≤ k.toNat) with
  | inl hle =>
    obtain ⟨b, hb⟩ := keyAt_eq key (i := off + (n - 1)) (by omega)
    refine ⟨b <<< shift, ?_⟩
    rw [if_pos hle, if_pos hle, hb]
    rfl
  | inr hle =>
    rw [if_neg hle, if_neg hle]
    exact ⟨0, rfl⟩

/-- The `switch` reads what is left of the key, which is less than a block. -/
theorem hashJenSwitch_eq {key : List Byte} {k : UInt32} (hlen : off + k.toNat = key.length)
    (hk : k.toNat < 12) (v : JenVars) :
    ∃ v', hashJenSwitch key v off k = ⟨(List.range' off k.toNat).reverse, .ok v'⟩ := by
  obtain ⟨c₁₁, h₁₁⟩ := hashJenCase_eq hlen (n := 11) (by omega) 24
  obtain ⟨c₁₀, h₁₀⟩ := hashJenCase_eq hlen (n := 10) (by omega) 16
  obtain ⟨c₉, h₉⟩ := hashJenCase_eq hlen (n := 9) (by omega) 8
  obtain ⟨c₈, h₈⟩ := hashJenCase_eq hlen (n := 8) (by omega) 24
  obtain ⟨c₇, h₇⟩ := hashJenCase_eq hlen (n := 7) (by omega) 16
  obtain ⟨c₆, h₆⟩ := hashJenCase_eq hlen (n := 6) (by omega) 8
  obtain ⟨c₅, h₅⟩ := hashJenCase_eq hlen (n := 5) (by omega) 0
  obtain ⟨c₄, h₄⟩ := hashJenCase_eq hlen (n := 4) (by omega) 24
  obtain ⟨c₃, h₃⟩ := hashJenCase_eq hlen (n := 3) (by omega) 16
  obtain ⟨c₂, h₂⟩ := hashJenCase_eq hlen (n := 2) (by omega) 8
  obtain ⟨c₁, h₁⟩ := hashJenCase_eq hlen (n := 1) (by omega) 0
  rw [hashJenSwitch, h₁₁, h₁₀, h₉, h₈, h₇, h₆, h₅, h₄, h₃, h₂, h₁]
  generalize k.toNat = m at hk
  refine ⟨_, congrArg₂ Traced.mk ?_ rfl⟩
  interval_cases m <;> rfl

/-- `HASH_JEN` ends, and reads each byte of the key once and nothing else. -/
theorem hashJen_reads {key : List Byte} (hlen : key.length < 4294967296)
    (hfuel : key.length < 12 * fuel) :
    ∃ hashv, (hashJen fuel key).result = .ok hashv ∧
      (hashJen fuel key).log.Perm (List.range key.length) := by
  have hk : (UInt32.ofNat key.length).toNat = key.length := UInt32.toNat_ofNat_of_lt' hlen
  have hlen' : 0 + (UInt32.ofNat key.length).toNat = key.length := by rw [hk, Nat.zero_add]
  have hfuel' : (UInt32.ofNat key.length).toNat < 12 * fuel := by rw [hk]; exact hfuel
  obtain ⟨v, k, hloop, hmod⟩ := hashJenLoop_eq hlen' hfuel' ⟨0x9e3779b9, 0x9e3779b9, 0xfeedbeef⟩
  rw [hk] at hloop hmod
  rw [Nat.zero_add] at hloop
  have hrest : 12 * (key.length / 12) + k.toNat = key.length := by omega
  obtain ⟨v', hswitch⟩ := hashJenSwitch_eq hrest (by omega)
    { v with hashv := v.hashv + UInt32.ofNat key.length }
  rw [hmod] at hswitch
  have heq : hashJen fuel key = ⟨List.range' 0 (12 * (key.length / 12)) ++
      ((List.range' (12 * (key.length / 12)) (key.length % 12)).reverse ++ []),
      .ok (hashJenMix v').hashv⟩ := by
    rw [hashJen]
    dsimp only
    rw [hloop]
    show Traced.mk (_ ++ (hashJenSwitch key _ _ k >>= _).log)
      (hashJenSwitch key _ _ k >>= _).result = _
    rw [hswitch]
    rfl
  rw [heq, List.append_nil]
  refine ⟨_, rfl, ?_⟩
  refine ((List.reverse_perm _).append_left _).trans ?_
  have happ := List.range'_append_1 (s := 0) (m := 12 * (key.length / 12)) (n := key.length % 12)
  rw [Nat.zero_add, Nat.div_add_mod] at happ
  rw [happ, ← List.range_eq_range']

/-- A key with a block of twelve bytes and four more -/
theorem hashJen_reads_block : ∃ hashv, (hashJen 2 (lit "nickname_of_user")).result = .ok hashv ∧
    (hashJen 2 (lit "nickname_of_user")).log.Perm (List.range 16) :=
  hashJen_reads (by decide) (by decide)

end Chirc.Uthash
