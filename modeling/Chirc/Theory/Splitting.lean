import Mathlib.Data.List.Infix
import Mathlib.Tactic.Common

/-! # Splits at a separator

`split sep w` cuts a list at each occurrence of the separator, the leftmost ones that do not
overlap.

* `intercalate_split`: the parts with the separator between them are the list.
* `not_infix_of_mem_split`: no part contains the separator.
* `split_singleton`: for a separator of one element it is `List.splitOn`. -/

namespace Splitting

variable {α : Type*} [DecidableEq α]

/-- The parts of a list, of which the first one begins with `acc`; `skip` elements are left of a
separator. -/
def splitAux (sep : List α) : List α → Nat → List α → List (List α)
  | acc, _, [] => [acc]
  | acc, skip + 1, _ :: w => splitAux sep acc skip w
  | acc, 0, a :: w =>
    if sep.isPrefixOf (a :: w) then acc :: splitAux sep [] (sep.length - 1) w
    else splitAux sep (acc ++ [a]) 0 w

def split (sep w : List α) : List (List α) := splitAux sep [] 0 w

variable {sep : List α}

theorem splitAux_nil (acc : List α) (skip : Nat) : splitAux sep acc skip [] = [acc] := by
  cases skip <;> rfl

theorem splitAux_skip (acc xs w : List α) :
    splitAux sep acc xs.length (xs ++ w) = splitAux sep acc 0 w := by
  induction xs with
  | nil => rfl
  | cons x xs ih => exact ih

/-- At a separator, a part ends. -/
theorem splitAux_of_match (hsep : sep ≠ []) (acc w : List α) :
    splitAux sep acc 0 (sep ++ w) = acc :: splitAux sep [] 0 w := by
  cases hsep' : sep with
  | nil => exact absurd hsep' hsep
  | cons a s =>
    have hp : (a :: s).isPrefixOf (a :: (s ++ w)) := List.isPrefixOf_iff_prefix.mpr ⟨w, rfl⟩
    rw [List.cons_append, splitAux, if_pos hp]
    exact congrArg (acc :: ·) (splitAux_skip [] s w)

theorem splitAux_of_noMatch {a : α} {w : List α} (h : ¬ sep <+: a :: w) (acc : List α) :
    splitAux sep acc 0 (a :: w) = splitAux sep (acc ++ [a]) 0 w := by
  rw [splitAux, if_neg fun hp => h (List.isPrefixOf_iff_prefix.mp hp)]

/-- The induction along a split -/
theorem split_induction {P : List α → Prop} (hsep : sep ≠ []) (nil : P [])
    (part : ∀ w, P w → P (sep ++ w)) (cons : ∀ a w, ¬ sep <+: a :: w → P w → P (a :: w))
    (w : List α) : P w := by
  induction h : w.length using Nat.strongRecOn generalizing w with
  | _ n ih =>
    cases w with
    | nil => exact nil
    | cons a w =>
      by_cases hp : sep <+: a :: w
      · obtain ⟨v, hv⟩ := hp
        have hlen : (sep ++ v).length = n := by rw [hv, h]
        have hpos : 0 < sep.length := List.length_pos_iff.mpr hsep
        rw [List.length_append] at hlen
        rw [← hv]
        exact part v (ih v.length (by omega) v rfl)
      · rw [List.length_cons] at h
        exact cons a w hp (ih w.length (by omega) w rfl)

/-- There is no separator in what is too short. -/
theorem splitAux_of_length_lt {w : List α} (h : w.length < sep.length) (acc : List α) :
    splitAux sep acc 0 w = [acc ++ w] := by
  induction w generalizing acc with
  | nil => rw [splitAux_nil, List.append_nil]
  | cons a w ih =>
    rw [List.length_cons] at h
    have hp : ¬ sep <+: a :: w := by
      intro hp
      have hle := hp.length_le
      rw [List.length_cons] at hle
      omega
    rw [splitAux_of_noMatch hp, ih (by omega), List.append_assoc, List.singleton_append]

theorem splitAux_ne_nil (sep acc : List α) (skip : Nat) (w : List α) :
    splitAux sep acc skip w ≠ [] := by
  induction w generalizing acc skip with
  | nil =>
    rw [splitAux_nil]
    exact nofun
  | cons a w ih =>
    cases skip with
    | succ skip => exact ih acc skip
    | zero =>
      rw [splitAux]
      split
      · exact nofun
      · exact ih _ 0

/-! ## What the parts are -/

theorem intercalate_splitAux (hsep : sep ≠ []) (acc w : List α) :
    sep.intercalate (splitAux sep acc 0 w) = acc ++ w := by
  induction w using split_induction hsep generalizing acc with
  | nil => rw [splitAux_nil, List.append_nil, List.intercalate_singleton]
  | part w ih =>
    rw [splitAux_of_match hsep, List.intercalate_cons_of_ne_nil (splitAux_ne_nil _ _ _ _), ih,
      List.nil_append, List.append_assoc]
  | cons a w hp ih => rw [splitAux_of_noMatch hp, ih, List.append_assoc, List.singleton_append]

theorem intercalate_split (hsep : sep ≠ []) (w : List α) : sep.intercalate (split sep w) = w :=
  intercalate_splitAux hsep [] w

theorem length_splitAux_le (hsep : sep ≠ []) (acc w : List α) :
    (splitAux sep acc 0 w).length ≤ w.length + 1 := by
  have hpos : 0 < sep.length := List.length_pos_iff.mpr hsep
  induction w using split_induction hsep generalizing acc with
  | nil => rw [splitAux_nil, List.length_singleton, List.length_nil]
  | part w ih =>
    have h := ih []
    rw [splitAux_of_match hsep, List.length_cons, List.length_append]
    omega
  | cons a w hp ih =>
    have h := ih (acc ++ [a])
    rw [splitAux_of_noMatch hp, List.length_cons]
    omega

theorem subset_of_mem_splitAux {acc w part : List α} {skip : Nat}
    (h : part ∈ splitAux sep acc skip w) : part ⊆ acc ++ w := by
  induction w generalizing acc skip with
  | nil =>
    rw [splitAux_nil] at h
    rw [List.mem_singleton.mp h, List.append_nil]
    exact List.Subset.refl _
  | cons a w ih =>
    have hw : ∀ {xs : List α}, xs ⊆ acc ++ w → xs ⊆ acc ++ a :: w := fun h b hb =>
      List.mem_append.mpr ((List.mem_append.mp (h hb)).imp id (List.mem_cons_of_mem _))
    cases skip with
    | succ skip => exact hw (ih h)
    | zero =>
      rw [splitAux] at h
      split at h
      · cases List.mem_cons.mp h with
        | inl h => exact h ▸ List.subset_append_left _ _
        | inr h => exact hw (List.Subset.trans (ih h) (List.subset_append_right _ _))
      · have hpart := ih h
        rwa [List.append_assoc, List.singleton_append] at hpart

/-- The parts have no other elements than the list. -/
theorem subset_of_mem_split {w part : List α} (h : part ∈ split sep w) : part ⊆ w :=
  subset_of_mem_splitAux h

omit [DecidableEq α] in
theorem none_before_nil (w : List α) :
    ∀ i, i < ([] : List α).length → ¬ sep <+: ([] ++ w).drop i := fun _ => nofun

/-- If no separator begins in `acc`, the parts contain none. -/
theorem not_infix_of_mem_splitAux (hsep : sep ≠ []) {acc w : List α}
    (hacc : ∀ i, i < acc.length → ¬ sep <+: (acc ++ w).drop i) :
    ∀ part ∈ splitAux sep acc 0 w, ¬ sep <:+: part := by
  have hpos : 0 < sep.length := List.length_pos_iff.mpr hsep
  -- an occurrence in `acc` begins in it
  have hin {acc w : List α} (hacc : ∀ i, i < acc.length → ¬ sep <+: (acc ++ w).drop i) :
      ¬ sep <:+: acc := by
    intro hinfix
    obtain ⟨x, y, rfl⟩ := hinfix
    refine hacc x.length ?_ ⟨y ++ w, ?_⟩
    · rw [List.length_append, List.length_append]
      omega
    · simp only [List.append_assoc, List.drop_left]
  induction w using split_induction hsep generalizing acc with
  | nil =>
    intro part hpart
    rw [splitAux_nil] at hpart
    cases List.mem_singleton.mp hpart
    exact hin hacc
  | part w ih =>
    intro part hpart
    rw [splitAux_of_match hsep] at hpart
    cases List.mem_cons.mp hpart with
    | inl h =>
      subst h
      exact hin hacc
    | inr h => exact ih (none_before_nil _) part h
  | cons a w hp ih =>
    rw [splitAux_of_noMatch hp]
    refine ih fun i hi => ?_
    rw [List.append_assoc, List.singleton_append]
    rw [List.length_append, List.length_singleton] at hi
    cases Nat.lt_or_eq_of_le (Nat.lt_succ_iff.mp hi) with
    | inl hi => exact hacc i hi
    | inr hi =>
      rw [hi, List.drop_left]
      exact hp

theorem not_infix_of_mem_split (hsep : sep ≠ []) {w part : List α} (h : part ∈ split sep w) :
    ¬ sep <:+: part :=
  not_infix_of_mem_splitAux hsep (none_before_nil _) part h

theorem splitAux_singleton (c : α) (acc w : List α) :
    splitAux [c] acc 0 w = (w.splitOn c).modifyHead (acc ++ ·) := by
  induction w generalizing acc with
  | nil => rw [splitAux_nil, List.splitOn_nil, List.modifyHead_cons, List.append_nil]
  | cons a w ih =>
    rw [List.splitOn_cons_eq_if_modifyHead]
    by_cases h : a = c
    · subst h
      rw [if_pos (beq_self_eq_true a), List.modifyHead_cons, List.append_nil]
      have hrest := ih []
      rw [show ([] ++ · : List α → List α) = id from rfl, List.modifyHead_id] at hrest
      exact (splitAux_of_match (List.cons_ne_nil a []) acc w).trans (congrArg (acc :: ·) hrest)
    · have hp : ¬ [c] <+: a :: w := fun hp => h (List.cons_prefix_cons.mp hp).1.symm
      rw [if_neg (by simpa using h), splitAux_of_noMatch hp, ih, List.modifyHead_modifyHead]
      congr
      funext v
      simp

theorem split_singleton (c : α) (w : List α) : split [c] w = w.splitOn c := by
  rw [split, splitAux_singleton, show ([] ++ · : List α → List α) = id from rfl,
    List.modifyHead_id]
  rfl

end Splitting
