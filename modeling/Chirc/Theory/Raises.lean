import Mathlib.Tactic.Common

/-! # The errors of a computation

`x.Raises E` says that `x` fails with no error outside `E`; it may also succeed. The predicate
passes through `>>=` (`Raises.bind`), where the continuation may use what is known of the results
of the first part. Two facts go with it: which errors a bind ends in (`bind_eq_error`), and that a
computation which raises at most `e` succeeds if it does not raise `e` (`Raises.exists_ok`). -/

namespace Except

universe u v

variable {ε : Type u} {α β : Type v} {x : Except ε α} {f : α → Except ε β} {E : ε → Prop} {e : ε}

theorem bind_eq_error :
    (x >>= f) = .error e ↔ x = .error e ∨ ∃ a, x = .ok a ∧ f a = .error e := by
  cases x with
  | error e' =>
    constructor
    · intro h
      cases h
      exact .inl rfl
    · rintro (h | ⟨_, h, -⟩)
      · cases h
        rfl
      · cases h
  | ok a =>
    constructor
    · intro h
      exact .inr ⟨a, rfl, h⟩
    · rintro (h | ⟨_, h, hf⟩)
      · cases h
      · cases h
        exact hf

/-- Whenever `x` fails, it fails with an error in `E`. -/
def Raises (x : Except ε α) (E : ε → Prop) : Prop := ∀ e, x = .error e → E e

namespace Raises

theorem ok (a : α) : (.ok a : Except ε α).Raises E := by
  intro e h
  cases h

theorem error (h : E e) : (.error e : Except ε α).Raises E := by
  intro e' h'
  cases h'
  exact h

/-- The errors of a bind are those of its parts. -/
theorem bind (hx : x.Raises E) (hf : ∀ a, x = .ok a → (f a).Raises E) : (x >>= f).Raises E := by
  intro e h
  rcases bind_eq_error.mp h with h | ⟨a, ha, h⟩
  · exact hx e h
  · exact hf a ha e h

/-- What fails with `e` at most, and does not, succeeds. -/
theorem exists_ok (h : x.Raises (· = e)) (hne : x ≠ .error e) : ∃ a, x = .ok a := by
  cases x with
  | error e' => exact absurd (congrArg Except.error (h e' rfl)) hne
  | ok a => exact ⟨a, rfl⟩

/-- What fails with `e` at most fails exactly if it does not succeed. -/
theorem eq_error_iff (h : x.Raises (· = e)) : x = .error e ↔ ¬ ∃ a, x = .ok a := by
  constructor
  · rintro hx ⟨a, ha⟩
    cases hx.symm.trans ha
  · intro hno
    by_contra hne
    exact hno (h.exists_ok hne)

end Raises

end Except
