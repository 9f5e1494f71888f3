import Mathlib.Data.List.Nodup

/-! # Tables about the holders of keys

Keys are held by holders, some of which have a name; a table lists names with keys. The table is
sound if each entry gives the name of the holder of its key (`Sound`), and it mirrors the holders
if it lists all that have a name (`Mirrors`). Each operation on keys and names comes with the
condition under which the table stays sound, or a mirror, when it is updated in the obvious way. -/

namespace Holders

variable {ν κ γ : Type*} {bound : List (ν × κ)} {holder holder' : κ → Option γ}
  {nameOf nameOf' : γ → Option ν} {n : ν} {k : κ} {c : γ}

/-- The entries give the names of the holders of their keys. -/
def Sound (bound : List (ν × κ)) (holder : κ → Option γ) (nameOf : γ → Option ν) : Prop :=
  ∀ n k, (n, k) ∈ bound → ∃ c, holder k = some c ∧ nameOf c = some n

/-- The entries are the names of the holders with their keys. -/
def Mirrors (bound : List (ν × κ)) (holder : κ → Option γ) (nameOf : γ → Option ν) : Prop :=
  ∀ n k, (n, k) ∈ bound ↔ ∃ c, holder k = some c ∧ nameOf c = some n

theorem Sound.mono {bound' : List (ν × κ)} (H : Sound bound holder nameOf)
    (hsub : ∀ {p}, p ∈ bound' → p ∈ bound) : Sound bound' holder nameOf :=
  fun n k hm => H n k (hsub hm)

/-- The order of the entries does not matter. -/
theorem sound_congr {bound' : List (ν × κ)} (h : bound.Perm bound') :
    Sound bound holder nameOf ↔ Sound bound' holder nameOf :=
  ⟨fun H => H.mono h.mem_iff.mpr, fun H => H.mono h.mem_iff.mp⟩

theorem Mirrors.sound (H : Mirrors bound holder nameOf) : Sound bound holder nameOf :=
  fun n k => (H n k).mp

/-- No two entries of a mirror have the same key, if none have the same name. -/
theorem Mirrors.nodup_keys (H : Mirrors bound holder nameOf) (hnames : (bound.map Prod.fst).Nodup) :
    (bound.map Prod.snd).Nodup := by
  refine (List.nodup_map_iff_inj_on hnames.of_map).mpr ?_
  rintro ⟨n, k⟩ hn ⟨n', _⟩ hn' rfl
  obtain ⟨c, hc, hname⟩ := (H _ _).mp hn
  obtain ⟨c', hc', hname'⟩ := (H _ _).mp hn'
  cases hc.symm.trans hc'
  cases hname.symm.trans hname'
  rfl

/-- A mirror has as many entries as there are keys whose holder has a name. -/
theorem Mirrors.length_eq (H : Mirrors bound holder nameOf) (hnames : (bound.map Prod.fst).Nodup)
    {keys : List κ} (hkeys : keys.Nodup) (hmem : ∀ k, holder k ≠ none → k ∈ keys) :
    bound.length = keys.countP fun k => ((holder k).bind nameOf).isSome := by
  rw [← List.length_map Prod.snd, List.countP_eq_length_filter]
  refine List.Perm.length_eq ?_
  refine (List.perm_ext_iff_of_nodup (H.nodup_keys hnames) (hkeys.filter _)).mpr fun k => ?_
  rw [List.mem_filter, Option.isSome_iff_exists]
  constructor
  · intro hk
    obtain ⟨⟨n, k⟩, hm, rfl⟩ := List.mem_map.mp hk
    obtain ⟨c, hc, hn⟩ := (H n k).mp hm
    exact ⟨hmem k (by simp [hc]), n, Option.bind_eq_some_iff.mpr ⟨c, hc, hn⟩⟩
  · rintro ⟨-, n, h⟩
    exact List.mem_map_of_mem ((H n k).mpr (Option.bind_eq_some_iff.mp h))

/-! ## A new holder -/

section Acquire
variable (hfree : holder k = none) (hk : holder' k = some c)
  (hother : ∀ j, j ≠ k → holder' j = holder j)
include hfree hother

theorem Sound.acquire (H : Sound bound holder nameOf) : Sound bound holder' nameOf := by
  intro n j hj
  obtain ⟨d, hd, hn⟩ := H n j hj
  refine ⟨d, ?_, hn⟩
  rw [hother j (by rintro rfl; rw [hfree] at hd; cases hd), hd]

include hk

theorem Mirrors.acquire (H : Mirrors bound holder nameOf) (hname : nameOf c = none) :
    Mirrors bound holder' nameOf := by
  refine fun n j => ⟨H.sound.acquire hfree hother n j, ?_⟩
  rintro ⟨d, hd, hn⟩
  have hj : j ≠ k := by
    rintro rfl
    cases hk.symm.trans hd
    rw [hname] at hn
    cases hn
  exact (H n j).mpr ⟨d, hother j hj ▸ hd, hn⟩

end Acquire

/-! ## A key that is released -/

section Release
variable (hk : holder' k = none) (hother : ∀ j, j ≠ k → holder' j = holder j)
include hk hother

/-- The table stays sound when a key is released exactly if it does not list the key. -/
theorem Sound.release_iff (H : Sound bound holder nameOf) :
    Sound bound holder' nameOf ↔ k ∉ bound.map Prod.snd := by
  constructor
  · intro H' hmem
    obtain ⟨⟨n, _⟩, hm, rfl⟩ := List.mem_map.mp hmem
    obtain ⟨c, hc, -⟩ := H' n _ hm
    rw [hk] at hc
    cases hc
  · intro hmem n j hj
    have hne : j ≠ k := by
      rintro rfl
      exact hmem (List.mem_map_of_mem hj)
    rw [hother j hne]
    exact H n j hj

theorem Mirrors.release_iff (H : Mirrors bound holder nameOf) :
    Mirrors bound holder' nameOf ↔ k ∉ bound.map Prod.snd := by
  refine ⟨fun H' => (H.sound.release_iff hk hother).mp H'.sound, fun hmem n j => ?_⟩
  refine ⟨(H.sound.release_iff hk hother).mpr hmem n j, ?_⟩
  rintro ⟨c, hc, hn⟩
  have hne : j ≠ k := by
    rintro rfl
    rw [hk] at hc
    cases hc
  exact (H n j).mpr ⟨c, hother j hne ▸ hc, hn⟩

end Release

/-! ## A holder that is named -/

section Name
variable (hinj : ∀ {j j' c}, holder j = some c → holder j' = some c → j = j')
  (hname : ∀ c, holder k = some c → nameOf' c = some n)
  (hother : ∀ c, holder k ≠ some c → nameOf' c = nameOf c)
include hinj hname hother

/-- An entry for a new name of the holder of `k` leaves the entries of the other keys sound. -/
theorem Sound.enter (H : Sound bound holder nameOf) (hopen : holder k ≠ none)
    (hkeys : k ∉ bound.map Prod.snd) : Sound ((n, k) :: bound) holder nameOf' := by
  intro m j hj
  rcases List.mem_cons.mp hj with h | hold
  · cases h
    obtain ⟨c, hc⟩ := Option.ne_none_iff_exists'.mp hopen
    exact ⟨c, hc, hname c hc⟩
  · obtain ⟨d, hd, hm⟩ := H m j hold
    refine ⟨d, hd, ?_⟩
    rw [hother d ?_, hm]
    intro hkd
    obtain rfl := hinj hd hkd
    exact hkeys (List.mem_map_of_mem hold)

/-- The table stays a mirror when the holder of `k` gets the new name `n` exactly if there is a
holder and it has no name yet. -/
theorem Mirrors.enter_iff (H : Mirrors bound holder nameOf) (hnew : n ∉ bound.map Prod.fst) :
    Mirrors ((n, k) :: bound) holder nameOf' ↔ holder k ≠ none ∧ k ∉ bound.map Prod.snd := by
  constructor
  · intro H'
    obtain ⟨c, hc, hn⟩ := (H' n k).mp List.mem_cons_self
    refine ⟨by simp [hc], fun hmem => ?_⟩
    obtain ⟨⟨m, _⟩, hm, rfl⟩ := List.mem_map.mp hmem
    obtain ⟨c', hc', hm'⟩ := (H' m _).mp (List.mem_cons_of_mem _ hm)
    cases hc.symm.trans hc'
    cases hn.symm.trans hm'
    exact hnew (List.mem_map_of_mem hm)
  · rintro ⟨hopen, hkeys⟩ m j
    refine ⟨H.sound.enter hinj hname hother hopen hkeys m j, ?_⟩
    rintro ⟨d, hd, hm⟩
    by_cases hkd : holder k = some d
    · obtain rfl := hinj hd hkd
      cases (hname d hkd).symm.trans hm
      exact List.mem_cons_self
    · rw [hother d hkd] at hm
      exact List.mem_cons_of_mem _ ((H m j).mpr ⟨d, hd, hm⟩)

end Name

end Holders
