import Mathlib.Tactic.Common
import Mathlib.Data.List.Infix

/-! # Prefix codes and words with a terminator

A set of words none of which is a proper prefix of another can be read back from a stream in
one way only (`PrefixFree.next`). Words ended by the first occurrence of a two
symbol terminator (`Terminated`) are such a set (`terminated_prefixFree`). -/

namespace PrefixCode

variable {α : Type*}

/-- No word of `C` is a proper prefix of another. -/
def PrefixFree (C : List α → Prop) : Prop :=
  ∀ u v, C u → C v → u <+: v → u = v

theorem PrefixFree.eq_of_append {C : List α → Prop} (hC : PrefixFree C) (hu : C u) (hv : C v)
    (h : u ++ x = v ++ y) : u = v ∧ x = y := by
  have huv : u = v := by
    have hux : u <+: v ++ y := ⟨x, h⟩
    rcases List.prefix_or_prefix_of_prefix hux (List.prefix_append v y) with hp | hp
    · exact hC u v hu hv hp
    · exact (hC v u hv hu hp).symm
  subst huv
  exact ⟨rfl, List.append_cancel_left h⟩

/-- A word at the beginning of a stream of words is the first of them. -/
theorem PrefixFree.next {C : List α → Prop} (hC : PrefixFree C) (hne : ¬ C []) (hw : C w)
    (hws : ∀ v ∈ ws, C v) (h : w ++ u <+: ws.flatten) :
    ∃ vs, ws = w :: vs ∧ u <+: vs.flatten := by
  obtain ⟨x, hx⟩ := h
  cases ws with
  | nil =>
    have : w = [] := by simp at hx; exact hx.1
    exact absurd (this ▸ hw) hne
  | cons v vs =>
    have hx : w ++ (u ++ x) = v ++ vs.flatten := by simpa using hx
    obtain ⟨rfl, hu⟩ := hC.eq_of_append hw (hws v List.mem_cons_self) hx
    exact ⟨vs, rfl, x, hu⟩

/-- The words that end with their first occurrence of the terminator `[a, b]`. -/
def Terminated (a b : α) (w : List α) : Prop :=
  ∃ body, w = body ++ [a, b] ∧ ¬ [a, b] <:+: body ++ [a]

theorem not_terminated_nil {a b : α} : ¬ Terminated a b [] := by
  rintro ⟨body, h, -⟩
  simp at h

theorem terminated_prefixFree (a b : α) : PrefixFree (Terminated a b) := by
  rintro u v ⟨bu, rfl, -⟩ ⟨bv, rfl, hv⟩ hp
  by_contra hne
  -- a proper prefix of `bv ++ [a, b]` already lies in `bv ++ [a]`, which has no terminator
  have hlt : (bu ++ [a, b]).length < (bv ++ [a, b]).length :=
    lt_of_le_of_ne hp.length_le fun h => hne (hp.eq_of_length h)
  have hp' : bu ++ [a, b] <+: bv ++ [a] :=
    List.prefix_of_prefix_length_le hp ⟨[b], by simp⟩ (by simp at hlt ⊢; omega)
  exact hv ((List.infix_append' bu [a, b] []).trans (by simpa using hp'.isInfix))

theorem Terminated.contains {a b : α} {w : List α} (hw : Terminated a b w) : [a, b] <:+: w := by
  obtain ⟨body, rfl, -⟩ := hw
  exact ⟨body, [], by simp⟩

/-- A piece of a stream of terminated words that begins with a word and has no terminator is
shorter than the word. -/
theorem length_lt_of_not_infix {a b : α} (hw : Terminated a b w) (h : u <+: (w :: ws).flatten)
    (hnot : ¬ [a, b] <:+: u) : u.length < w.length := by
  by_contra hle
  have hwu : w <+: u :=
    List.prefix_of_prefix_length_le (List.prefix_append w ws.flatten) h (Nat.le_of_not_lt hle)
  exact hnot (hw.contains.trans hwu.isInfix)

end PrefixCode
