import Mathlib.Tactic.Common

/-! # Transition systems with histories

A run is recorded as the list of its steps, latest first, each with the state it was taken
from. A property may therefore speak about the history (`P tr s`) and not only about the
state, and a condition on a step about everything that happened before it (`C tr s l`).

* `Run.invariant`, `Run.invariant_of_allSteps`: induction over runs, without and with a
  condition on the steps.
* `Run.map`: runs of one system as runs of another.
* `Run.allStates_iff_allSteps`: when each step keeps `P` exactly if it meets `C`, the runs
  along which `P` always holds are the runs all of whose steps meet `C`. -/

/-- A transition system over states `σ` whose steps carry labels in `α`. -/
structure TransitionSystem (σ α : Type*) where
  init : σ → Prop
  step : σ → α → σ → Prop

namespace TransitionSystem

variable {σ α : Type*} {M : TransitionSystem σ α}

/-- The runs of `M`: the steps taken, latest first, and the state reached. -/
inductive Run (M : TransitionSystem σ α) : List (σ × α) → σ → Prop
  | nil : M.init s → Run M [] s
  | cons : Run M tr s → M.step s l s' → Run M ((s, l) :: tr) s'

/-- Every step of the history meets the condition `C`, given the history before it. -/
def AllSteps (C : List (σ × α) → σ → α → Prop) : List (σ × α) → Prop
  | [] => True
  | (s, l) :: tr => C tr s l ∧ AllSteps C tr

/-- `P` holds of every state visited, the last one `s` included. -/
def AllStates (P : List (σ × α) → σ → Prop) : List (σ × α) → σ → Prop
  | [], s => P [] s
  | (s', l) :: tr, s => P ((s', l) :: tr) s ∧ AllStates P tr s'

instance instDecidableAllSteps {C : List (σ × α) → σ → α → Prop} [∀ tr s l, Decidable (C tr s l)] :
    ∀ tr, Decidable (AllSteps C tr)
  | [] => .isTrue trivial
  | (s, l) :: tr =>
    have : Decidable (AllSteps C tr) := instDecidableAllSteps tr
    inferInstanceAs (Decidable (C tr s l ∧ AllSteps C tr))

@[simp] theorem allSteps_cons {C : List (σ × α) → σ → α → Prop} :
    AllSteps C ((s, l) :: tr) ↔ C tr s l ∧ AllSteps C tr := .rfl

@[simp] theorem allStates_cons {P : List (σ × α) → σ → Prop} :
    AllStates P ((s', l) :: tr) s ↔ P ((s', l) :: tr) s ∧ AllStates P tr s' := .rfl

theorem AllSteps.mono {C D : List (σ × α) → σ → α → Prop}
    (hCD : ∀ tr s l, C tr s l → D tr s l) : ∀ {tr}, AllSteps C tr → AllSteps D tr
  | [], _ => trivial
  | (_, _) :: _, h => ⟨hCD _ _ _ h.1, h.2.mono hCD⟩

theorem allSteps_of_forall {C : List (σ × α) → σ → α → Prop} (h : ∀ tr s l, C tr s l) :
    ∀ tr, AllSteps C tr
  | [] => trivial
  | (_, _) :: _ => ⟨h _ _ _, allSteps_of_forall h _⟩

theorem AllStates.last {P : List (σ × α) → σ → Prop} : ∀ {tr s}, AllStates P tr s → P tr s
  | [], _, h => h
  | (_, _) :: _, _, h => h.1

namespace Run

/-- What holds initially and is kept by every step holds in every state reached. -/
theorem invariant {P : List (σ × α) → σ → Prop} (hinit : ∀ s, M.init s → P [] s)
    (hstep : ∀ {tr s l s'}, M.Run tr s → P tr s → M.step s l s' → P ((s, l) :: tr) s')
    (hrun : M.Run tr s) : P tr s := by
  induction hrun with
  | nil h => exact hinit _ h
  | cons hrun hs ih => exact hstep hrun ih hs

/-- What holds initially and is kept by every step that meets `C` holds in every state
reached by such steps. -/
theorem invariant_of_allSteps {P : List (σ × α) → σ → Prop} {C : List (σ × α) → σ → α → Prop}
    (hinit : ∀ s, M.init s → P [] s)
    (hstep : ∀ {tr s l s'}, M.Run tr s → P tr s → C tr s l → M.step s l s' →
      P ((s, l) :: tr) s')
    (hrun : M.Run tr s) (hC : AllSteps C tr) : P tr s := by
  induction hrun with
  | nil h => exact hinit _ h
  | cons hrun hs ih => exact hstep hrun (ih hC.2) hC.1 hs

/-- A relation that each step keeps up holds between the states visited and the last one. -/
theorem rel {R : σ → σ → Prop} (htrans : ∀ {s s' s''}, R s s' → R s' s'' → R s s'')
    (hstep : ∀ {s l s'}, M.step s l s' → R s s') (hrun : M.Run tr s) : ∀ e ∈ tr, R e.1 s := by
  induction hrun with
  | nil _ => exact nofun
  | @cons tr s l s' _ hs ih =>
    intro e he
    cases List.mem_cons.mp he with
    | inl he => exact he ▸ hstep hs
    | inr he => exact htrans (ih e he) (hstep hs)

/-- A run is carried over to another system whose steps follow those of `M`. -/
theorem map {M' : TransitionSystem σ' α'} {f : σ → σ'} {g : α → α'}
    (hinit : ∀ s, M.init s → M'.init (f s))
    (hstep : ∀ s l s', M.step s l s' → M'.step (f s) (g l) (f s')) (hrun : M.Run tr s) :
    M'.Run (tr.map fun e => (f e.1, g e.2)) (f s) := by
  induction hrun with
  | nil h => exact .nil (hinit _ h)
  | cons _ hs ih => exact .cons ih (hstep _ _ _ hs)

/-- If a step out of a run along which `P` holds and all of whose steps meet `C` keeps `P` exactly
when it meets `C`, then `P` holds along a run exactly when all of its steps meet `C`. -/
theorem allStates_iff_allSteps {P : List (σ × α) → σ → Prop} {C : List (σ × α) → σ → α → Prop}
    (hinit : ∀ s, M.init s → P [] s)
    (hstep : ∀ {tr s l s'}, M.Run tr s → AllSteps C tr → P tr s → M.step s l s' →
      (P ((s, l) :: tr) s' ↔ C tr s l))
    (hrun : M.Run tr s) : AllStates P tr s ↔ AllSteps C tr := by
  induction hrun with
  | nil h => exact ⟨fun _ => trivial, fun _ => hinit _ h⟩
  | cons hrun hs ih =>
    rw [allStates_cons, allSteps_cons, ih]
    constructor
    · rintro ⟨hP, hall⟩
      exact ⟨(hstep hrun hall (ih.mpr hall).last hs).mp hP, hall⟩
    · rintro ⟨hC, hall⟩
      exact ⟨(hstep hrun hall (ih.mpr hall).last hs).mpr hC, hall⟩

end Run

end TransitionSystem
