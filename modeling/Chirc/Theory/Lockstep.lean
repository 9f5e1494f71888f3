import Mathlib.Tactic.Common

/-! # Computations in lockstep

Two computations that can fail agree if both fail with the same error, or both return and their
results are related. This composes along `bind` and along folds. -/

/-- Both fail with the same error, or the results are related. -/
inductive Lockstep (P : α → β → Prop) : Except ε α → Except ε β → Prop
  | ok : P a b → Lockstep P (.ok a) (.ok b)
  | error (e : ε) : Lockstep P (.error e) (.error e)

namespace Lockstep

variable {P : α → β → Prop} {Q : γ → δ → Prop} {x : Except ε α} {y : Except ε β}

theorem mono {P' : α → β → Prop} (H : Lockstep P x y) (h : ∀ a b, P a b → P' a b) :
    Lockstep P' x y := by
  cases H with
  | ok hab => exact .ok (h _ _ hab)
  | error e => exact .error e

/-- The result of the first computation is the one that it returns. -/
theorem with_eq (H : Lockstep P x y) : Lockstep (fun a b => x = .ok a ∧ P a b) x y := by
  cases H with
  | ok hab => exact .ok ⟨rfl, hab⟩
  | error e => exact .error e

/-- What follows two computations in lockstep need only agree on related results. -/
theorem bind {f : α → Except ε γ} {g : β → Except ε δ} (H : Lockstep P x y)
    (hfg : ∀ a b, P a b → Lockstep Q (f a) (g b)) : Lockstep Q (x >>= f) (y >>= g) := by
  cases H with
  | ok hab => exact hfg _ _ hab
  | error e => exact .error e

/-- A result that is changed on one side only -/
theorem map_left {f : α → γ} {Q : γ → β → Prop} (H : Lockstep P x y)
    (hf : ∀ a b, P a b → Q (f a) b) : Lockstep Q (x >>= fun a => .ok (f a)) y := by
  cases H with
  | ok hab => exact .ok (hf _ _ hab)
  | error e => exact .error e

theorem map_right {g : β → δ} {Q : α → δ → Prop} (H : Lockstep P x y)
    (hg : ∀ a b, P a b → Q a (g b)) : Lockstep Q x (y >>= fun b => .ok (g b)) := by
  cases H with
  | ok hab => exact .ok (hg _ _ hab)
  | error e => exact .error e

/-- Folds over the same list whose rounds keep up the relation -/
theorem foldlM {f : α → ι → Except ε α} {g : β → ι → Except ε β} {l : List ι}
    (hround : ∀ a b, ∀ i ∈ l, P a b → Lockstep P (f a i) (g b i)) {a : α} {b : β} (hab : P a b) :
    Lockstep P (l.foldlM f a) (l.foldlM g b) := by
  induction l generalizing a b with
  | nil => exact .ok hab
  | cons i l ih =>
    rw [List.foldlM_cons, List.foldlM_cons]
    refine (hround a b i List.mem_cons_self hab).bind fun a' b' hab' => ih ?_ hab'
    intro a b j hj
    exact hround a b j (List.mem_cons_of_mem i hj)

end Lockstep
