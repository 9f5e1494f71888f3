import Mathlib.Tactic.Common

/-! # Counting loops

A loop `for (i = 0; i < n; i++)` is a fold over `List.range n` in `Except`, and a loop through a
list a fold over this list. -/

namespace Counting

variable {σ ε : Type*} {f : σ → Nat → Except ε σ}

theorem foldlM_range_succ (f : σ → Nat → Except ε σ) (n : Nat) (s : σ) :
    (List.range (n + 1)).foldlM f s = (List.range n).foldlM f s >>= fun s' => f s' n := by
  rw [List.range_succ, List.foldlM_append]
  congr
  funext s'
  rw [List.foldlM_cons]
  exact bind_pure (f s' n)

/-- What holds before the first round and is kept by each round, which does not fail, holds after
the loop, which does not fail either. -/
theorem foldlM_range_ok {P : Nat → σ → Prop} (hinit : P 0 s)
    (hround : ∀ i s, i < n → P i s → ∃ s', f s i = .ok s' ∧ P (i + 1) s') :
    ∃ s', (List.range n).foldlM f s = .ok s' ∧ P n s' := by
  induction n with
  | zero => exact ⟨s, rfl, hinit⟩
  | succ n ih =>
    obtain ⟨s', hs', hP⟩ := ih fun i s hi => hround i s (Nat.lt_succ_of_lt hi)
    obtain ⟨s'', hs'', hP'⟩ := hround n s' (Nat.lt_succ_self n) hP
    refine ⟨s'', ?_, hP'⟩
    rw [foldlM_range_succ, hs']
    exact hs''

/-- A loop that adds one for each entry with a property counts these entries. -/
theorem foldlM_countP {f : Nat → α → Except ε Nat} {p : α → Bool} {l : List α}
    (hf : ∀ n, ∀ a ∈ l, f n a = .ok (if p a then n + 1 else n)) (n : Nat) :
    l.foldlM f n = .ok (n + l.countP p) := by
  induction l generalizing n with
  | nil => rfl
  | cons a l ih =>
    have ih := ih fun n b hb => hf n b (List.mem_cons_of_mem a hb)
    rw [List.foldlM_cons, hf n a List.mem_cons_self]
    refine (ih _).trans (congrArg Except.ok ?_)
    rw [List.countP_cons]
    cases p a with
    | true => exact Nat.add_right_comm n 1 _
    | false => rfl

theorem foldl_countP (p : α → Bool) (l : List α) (n : Nat) :
    l.foldl (fun n a => if p a then n + 1 else n) n = n + l.countP p := by
  induction l generalizing n with
  | nil => rfl
  | cons a l ih =>
    rw [List.foldl_cons, ih, List.countP_cons]
    cases p a with
    | true => exact Nat.add_right_comm n 1 _
    | false => rfl

end Counting
