import Mathlib.Tactic.Common

/-! # Loops

A `while` loop is given by what one round does to the variables: it fails, leaves the loop with a
result, or goes on with new values. `rounds` runs a loop for a number of rounds, and `Ends` says
that the loop ends by itself.

* `rounds_ne_of_measure`: a loop ends if each round that goes on makes a measure smaller.
* `not_ends_of_invariant`: a loop does not end if each round keeps it going. -/

namespace While

variable {σ ρ ε : Type*} {body : σ → Except ε (ρ ⊕ σ)}

/-- The loop after at most `n` rounds: its result, or `none` if it is still running. -/
def rounds (body : σ → Except ε (ρ ⊕ σ)) : Nat → σ → Except ε (Option ρ)
  | 0, _ => .ok none
  | n + 1, s =>
    match body s with
    | .error e => .error e
    | .ok (.inl r) => .ok (some r)
    | .ok (.inr s') => rounds body n s'

/-- The loop ends, with the result or the error `x`. -/
def Ends (body : σ → Except ε (ρ ⊕ σ)) (s : σ) (x : Except ε ρ) : Prop :=
  ∃ n, rounds body n s = x.map some

/-! ## One round -/

theorem rounds_of_fail (h : body s = .error e) (n : Nat) :
    rounds body (n + 1) s = .error e := by rw [rounds, h]

theorem rounds_of_leave (h : body s = .ok (.inl r)) (n : Nat) :
    rounds body (n + 1) s = .ok (some r) := by rw [rounds, h]

theorem rounds_of_next (h : body s = .ok (.inr s')) (n : Nat) :
    rounds body (n + 1) s = rounds body n s' := by rw [rounds, h]

theorem Ends.leave (h : body s = .ok (.inl r)) : Ends body s (.ok r) := ⟨1, rounds_of_leave h 0⟩

theorem Ends.next (h : body s = .ok (.inr s')) (H : Ends body s' x) : Ends body s x := by
  obtain ⟨n, hn⟩ := H
  exact ⟨n + 1, (rounds_of_next h n).trans hn⟩

/-! ## More rounds -/

theorem rounds_zero_ne (x : Except ε ρ) : rounds body 0 s ≠ x.map some := by
  cases x with
  | error e => exact nofun
  | ok r => exact nofun

/-- Once a loop has ended, further rounds make no difference. -/
theorem rounds_add {x : Except ε ρ} (h : rounds body n s = x.map some) (k : Nat) :
    rounds body (n + k) s = x.map some := by
  induction n generalizing s with
  | zero => exact absurd h (rounds_zero_ne x)
  | succ n ih =>
    rw [Nat.succ_add]
    cases hbody : body s with
    | error e =>
      rw [rounds_of_fail hbody] at h ⊢
      exact h
    | ok r =>
      cases r with
      | inl r =>
        rw [rounds_of_leave hbody] at h ⊢
        exact h
      | inr s' =>
        rw [rounds_of_next hbody] at h ⊢
        exact ih h

theorem map_some_injective {x y : Except ε ρ} (h : x.map some = y.map some) : x = y := by
  cases x with
  | error e =>
    cases y with
    | error e' => exact congrArg Except.error (Except.error.inj h)
    | ok r => cases h
  | ok r =>
    cases y with
    | error e => cases h
    | ok r' => exact congrArg Except.ok (Option.some.inj (Except.ok.inj h))

/-- A loop ends in one way only. -/
theorem Ends.unique {x y : Except ε ρ} (hx : Ends body s x) (hy : Ends body s y) : x = y := by
  obtain ⟨n, hn⟩ := hx
  obtain ⟨m, hm⟩ := hy
  have hn := rounds_add hn m
  have hm := rounds_add hm n
  rw [Nat.add_comm] at hm
  exact map_some_injective (hn.symm.trans hm)

theorem Ends.of_rounds_ne (h : rounds body n s ≠ .ok none) : ∃ x, Ends body s x := by
  cases hn : rounds body n s with
  | error e => exact ⟨.error e, n, hn⟩
  | ok r =>
    cases r with
    | none => exact absurd hn h
    | some r => exact ⟨.ok r, n, hn⟩

/-- A state in which a round of the loop begins -/
inductive Reaches (body : σ → Except ε (ρ ⊕ σ)) : σ → σ → Prop
  | refl : Reaches body s s
  | next : body s = .ok (.inr s') → Reaches body s' s'' → Reaches body s s''

/-- A loop that ends with an error has a round that fails. -/
theorem Ends.exists_fail (h : Ends body s (.error e)) :
    ∃ s', Reaches body s s' ∧ body s' = .error e := by
  obtain ⟨n, hn⟩ := h
  induction n generalizing s with
  | zero => cases hn
  | succ n ih =>
    cases hbody : body s with
    | error e' =>
      rw [rounds_of_fail hbody] at hn
      cases hn
      exact ⟨s, .refl, hbody⟩
    | ok r =>
      cases r with
      | inl r =>
        rw [rounds_of_leave hbody] at hn
        cases hn
      | inr s' =>
        rw [rounds_of_next hbody] at hn
        obtain ⟨s'', hreach, hfail⟩ := ih hn
        exact ⟨s'', .next hbody hreach, hfail⟩

/-! ## Whether a loop ends -/

/-- A loop is left after no more rounds than the measure allows. -/
theorem rounds_ne_of_measure {I : σ → Prop} {m : σ → Nat}
    (hround : ∀ s s', I s → body s = .ok (.inr s') → I s' ∧ m s' < m s) (hs : I s)
    (hn : m s < n) : rounds body n s ≠ .ok none := by
  induction n generalizing s with
  | zero => omega
  | succ n ih =>
    cases hbody : body s with
    | error e =>
      rw [rounds_of_fail hbody]
      exact nofun
    | ok r =>
      cases r with
      | inl r =>
        rw [rounds_of_leave hbody]
        exact nofun
      | inr s' =>
        rw [rounds_of_next hbody]
        obtain ⟨hs', hlt⟩ := hround s s' hs hbody
        exact ih hs' (by omega)

theorem rounds_eq_of_invariant {I : σ → Prop}
    (hround : ∀ s, I s → ∃ s', body s = .ok (.inr s') ∧ I s') (hs : I s) (n : Nat) :
    rounds body n s = .ok none := by
  induction n generalizing s with
  | zero => rfl
  | succ n ih =>
    obtain ⟨s', hbody, hs'⟩ := hround s hs
    rw [rounds_of_next hbody]
    exact ih hs'

/-- A loop all of whose rounds go on does not end. -/
theorem not_ends_of_invariant {I : σ → Prop}
    (hround : ∀ s, I s → ∃ s', body s = .ok (.inr s') ∧ I s') (hs : I s) (x : Except ε ρ) :
    ¬ Ends body s x := by
  intro hends
  obtain ⟨n, hn⟩ := hends
  rw [rounds_eq_of_invariant hround hs n] at hn
  cases x with
  | error e => cases hn
  | ok r => cases hn

end While
