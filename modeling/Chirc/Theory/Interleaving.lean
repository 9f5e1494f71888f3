import Chirc.Theory.Transition
import Mathlib.Logic.Function.Basic

/-! # Threads over a shared state

Threads run one program. Each has a local state, with its program counter in it, and takes atomic
steps on the state that all of them share, in any order. A thread may be started at any time.

`Outline.holds` proves an invariant thread by thread: every thread keeps an assertion about the
shared state, which its own steps establish and the steps of the others do not disturb. -/

/-- The program of the threads: how they may start, and the steps they take. A step ends the thread
or gives its next local state. -/
structure ThreadProgram (σ κ ε : Type*) where
  start : κ → Prop
  step : σ → κ → Except ε (σ × Option κ)

namespace ThreadProgram

/-- The shared state, and the local states of the threads. -/
structure Conf (σ κ ι : Type*) where
  shared : σ
  threads : ι → Option κ

/-- Thread `t` starts in the local state `k`, or takes a step from it. -/
inductive Act (κ ι : Type*)
  | start (t : ι) (k : κ)
  | step (t : ι) (k : κ)

variable {σ κ ε ι : Type*} [DecidableEq ι] {P : ThreadProgram σ κ ε} {init : σ → Prop}

/-- All interleavings of the steps of threads. -/
def system (P : ThreadProgram σ κ ε) (init : σ → Prop) :
    TransitionSystem (Conf σ κ ι) (Act κ ι) where
  init s := init s.shared ∧ ∀ t, s.threads t = none
  step s l s' := match l with
    | .start t k => s.threads t = none ∧ P.start k ∧
        s' = { s with threads := Function.update s.threads t (some k) }
    | .step t k => s.threads t = some k ∧ ∃ σ' o, P.step s.shared k = .ok (σ', o) ∧
        s' = ⟨σ', Function.update s.threads t o⟩

theorem run_mono {init' : σ → Prop} {tr : List (Conf σ κ ι × Act κ ι)} {s : Conf σ κ ι}
    (hinit : ∀ s, init s → init' s) (hrun : (P.system init).Run tr s) :
    (P.system init').Run tr s := by
  induction hrun with
  | nil h => exact .nil ⟨hinit _ h.1, h.2⟩
  | cons _ hstep ih => exact .cons ih hstep

/-- The condition `C` on the step of one thread and the local state of another. -/
def Undisturbed (C : σ → κ → κ → Prop) (_ : List (Conf σ κ ι × Act κ ι)) (s : Conf σ κ ι) :
    Act κ ι → Prop
  | .start _ _ => True
  | .step t k => ∀ t' k', t' ≠ t → s.threads t' = some k' → C s.shared k k'

/-- A proof outline: an invariant of the shared state, an assertion for each local state, and the
pairs of local states that two threads may be in at the same time. -/
structure Outline (P : ThreadProgram σ κ ε) (init : σ → Prop) (C : σ → κ → κ → Prop) where
  inv : σ → Prop
  assert : σ → κ → Prop
  apart : κ → κ → Prop
  symm : apart k k' → apart k' k
  inv_init : init s → inv s
  assert_start : inv s → P.start k → assert s k
  apart_start : P.start k → apart k k'
  step_own : inv s → assert s k → P.step s k = .ok (s', o) →
    inv s' ∧ ∀ k', o = some k' → assert s' k'
  step_other : inv s → assert s k → assert s k₂ → apart k k₂ → C s k k₂ →
    P.step s k = .ok (s', o) → assert s' k₂ ∧ ∀ k', o = some k' → apart k' k₂

namespace Outline
variable {C : σ → κ → κ → Prop} (O : Outline P init C)

/-- The outline holds in a state. -/
structure Holds (s : Conf σ κ ι) : Prop where
  inv : O.inv s.shared
  assert : ∀ t k, s.threads t = some k → O.assert s.shared k
  apart : ∀ t t' k k', t ≠ t' → s.threads t = some k → s.threads t' = some k' → O.apart k k'

variable {O}

/-- When one thread goes from one local state to another, and the others keep theirs. -/
theorem Holds.update {σ' : σ} {threads : ι → Option κ} {o : Option κ} (hinv : O.inv σ')
    (hown : ∀ k', o = some k' → O.assert σ' k')
    (hothers : ∀ t₂ k₂, t₂ ≠ t → threads t₂ = some k₂ →
      O.assert σ' k₂ ∧ ∀ k', o = some k' → O.apart k' k₂)
    (hold : ∀ t₁ t₂ k₁ k₂, t₁ ≠ t₂ → threads t₁ = some k₁ → threads t₂ = some k₂ → O.apart k₁ k₂) :
    O.Holds (⟨σ', Function.update threads t o⟩ : Conf σ κ ι) := by
  have hself {k₁} (h : Function.update threads t o t = some k₁) : o = some k₁ :=
    (Function.update_self t o threads).symm.trans h
  have hne {t₁ k₁} (ht : t₁ ≠ t) (h : Function.update threads t o t₁ = some k₁) :
      threads t₁ = some k₁ := (Function.update_of_ne ht o threads).symm.trans h
  refine ⟨hinv, fun t₁ k₁ h₁ => ?_, fun t₁ t₂ k₁ k₂ ht h₁ h₂ => ?_⟩
  · by_cases ht₁ : t₁ = t
    · subst ht₁
      exact hown k₁ (hself h₁)
    · exact (hothers t₁ k₁ ht₁ (hne ht₁ h₁)).1
  · by_cases ht₁ : t₁ = t
    · subst ht₁
      exact (hothers t₂ k₂ ht.symm (hne ht.symm h₂)).2 k₁ (hself h₁)
    · by_cases ht₂ : t₂ = t
      · subst ht₂
        exact O.symm ((hothers t₁ k₁ ht₁ (hne ht₁ h₁)).2 k₂ (hself h₂))
      · exact hold t₁ t₂ k₁ k₂ ht (hne ht₁ h₁) (hne ht₂ h₂)

theorem Holds.start {s : Conf σ κ ι} (H : O.Holds s) (hk : P.start k) (t : ι) :
    O.Holds { s with threads := Function.update s.threads t (some k) } := by
  refine .update H.inv ?_ (fun t₂ k₂ _ h₂ => ⟨H.assert t₂ k₂ h₂, ?_⟩) H.apart
  · rintro _ ⟨⟩
    exact O.assert_start H.inv hk
  · rintro _ ⟨⟩
    exact O.apart_start hk

theorem Holds.step {s : Conf σ κ ι} {o : Option κ} (H : O.Holds s) (hk : s.threads t = some k)
    (hC : ∀ t' k', t' ≠ t → s.threads t' = some k' → C s.shared k k')
    (hstep : P.step s.shared k = .ok (σ', o)) :
    O.Holds (⟨σ', Function.update s.threads t o⟩ : Conf σ κ ι) := by
  have hassert := H.assert t k hk
  obtain ⟨hinv, hown⟩ := O.step_own H.inv hassert hstep
  refine .update hinv hown (fun t₂ k₂ ht₂ h₂ => ?_) H.apart
  exact O.step_other H.inv hassert (H.assert t₂ k₂ h₂) (H.apart t t₂ k k₂ ht₂.symm hk h₂)
    (hC t₂ k₂ ht₂ h₂) hstep

/-- The outline holds in every state of a run whose steps leave the other threads undisturbed. -/
theorem holds (O : Outline P init C) {tr : List (Conf σ κ ι × Act κ ι)} {s : Conf σ κ ι}
    (hrun : (P.system init).Run tr s) (hC : TransitionSystem.AllSteps (Undisturbed C) tr) :
    O.Holds s := by
  refine TransitionSystem.Run.invariant_of_allSteps (P := fun _ s => O.Holds s) ?_ ?_ hrun hC
  · rintro s ⟨hinit, hnone⟩
    refine ⟨O.inv_init hinit, fun t k hk => ?_, fun t t' k k' _ hk => ?_⟩
    · rw [hnone t] at hk
      cases hk
    · rw [hnone t] at hk
      cases hk
  · intro tr s l s' _ H hC hstep
    cases l with
    | start t k =>
      obtain ⟨-, hk, rfl⟩ := hstep
      exact H.start hk t
    | step t k =>
      obtain ⟨hk, σ', o, hstep, rfl⟩ := hstep
      exact H.step hk hC hstep

end Outline

/-! ## One thread alone -/

/-- The steps of one thread from a local state to its end, with no steps of others in between. -/
inductive Alone (P : ThreadProgram σ κ ε) : σ → κ → σ → Prop
  | last : P.step s k = .ok (s', none) → Alone P s k s'
  | cons : P.step s k = .ok (s', some k') → Alone P s' k' s'' → Alone P s k s''

theorem system_step {c : Conf σ κ ι} (hk : c.threads t = some k)
    (h : P.step c.shared k = .ok (s', o)) :
    (P.system init).step c (.step t k) ⟨s', Function.update c.threads t o⟩ :=
  ⟨hk, s', o, h, rfl⟩

/-- A run goes on with a thread alone. -/
theorem Alone.run {c : Conf σ κ ι} {tr : List (Conf σ κ ι × Act κ ι)} (h : P.Alone c.shared k s')
    (hrun : (P.system init).Run tr c) (hk : c.threads t = some k) :
    ∃ tr', (P.system init).Run tr' ⟨s', Function.update c.threads t none⟩ := by
  generalize hs : c.shared = s at h
  induction h generalizing c tr with
  | last hstep => exact ⟨_, .cons hrun (system_step hk (hs ▸ hstep))⟩
  | cons hstep _ ih =>
    obtain ⟨tr', hrun'⟩ := ih (.cons hrun (system_step hk (hs ▸ hstep)))
      (Function.update_self t _ c.threads) rfl
    rw [Function.update_idem] at hrun'
    exact ⟨tr', hrun'⟩

/-! ## Schedules -/

def Act.thread : Act κ ι → ι
  | .start t _ => t
  | .step t _ => t

/-- The condition `C` on the step of one of the threads `ts` and the local states of the others. -/
def UndisturbedAmong (ts : List ι) (C : σ → κ → κ → Prop) (_ : List (Conf σ κ ι × Act κ ι))
    (s : Conf σ κ ι) (l : Act κ ι) : Prop :=
  l.thread ∈ ts ∧
  match l with
  | .start _ _ => True
  | .step t k => ∀ t' ∈ ts, t' ≠ t → ∀ k' ∈ s.threads t', C s.shared k k'

instance UndisturbedAmong.decidable [∀ σ k k', Decidable (C σ k k')] {ts : List ι}
    {tr : List (Conf σ κ ι × Act κ ι)} {s : Conf σ κ ι} :
    ∀ l, Decidable (UndisturbedAmong ts C tr s l)
  | .start _ _ => inferInstanceAs (Decidable (_ ∧ True))
  | .step t _ => inferInstanceAs (Decidable (_ ∧ ∀ t' ∈ ts, t' ≠ t → ∀ k' ∈ s.threads t', _))

/-- When only the threads `ts` act, only they can be disturbed. -/
theorem allSteps_undisturbed {C : σ → κ → κ → Prop} {tr : List (Conf σ κ ι × Act κ ι)}
    {s : Conf σ κ ι} {ts : List ι} (hrun : (P.system init).Run tr s)
    (hC : TransitionSystem.AllSteps (UndisturbedAmong ts C) tr) :
    TransitionSystem.AllSteps (Undisturbed C) tr ∧ ∀ t, t ∉ ts → s.threads t = none := by
  induction hrun with
  | nil h => exact ⟨trivial, fun t _ => h.2 t⟩
  | @cons tr s l s' _ hstep ih =>
    obtain ⟨⟨hmem, hthis⟩, hC⟩ := hC
    obtain ⟨hall, hnone⟩ := ih hC
    cases l with
    | start t k =>
      obtain ⟨-, -, rfl⟩ := hstep
      refine ⟨⟨trivial, hall⟩, fun t' ht' => ?_⟩
      have hne : t' ≠ t := by
        rintro rfl
        exact ht' hmem
      exact (Function.update_of_ne hne _ _).trans (hnone t' ht')
    | step t k =>
      obtain ⟨-, σ', o, -, rfl⟩ := hstep
      refine ⟨⟨fun t' k' hne hk' => ?_, hall⟩, fun t' ht' => ?_⟩
      · refine hthis t' ?_ hne k' hk'
        by_contra ht'
        rw [hnone t' ht'] at hk'
        cases hk'
      · have hne : t' ≠ t := by
          rintro rfl
          exact ht' hmem
        exact (Function.update_of_ne hne _ _).trans (hnone t' ht')

/-- The next turn of a schedule: thread `t` starts in `k`, or takes a step. -/
inductive Turn (κ ι : Type*)
  | start (t : ι) (k : κ)
  | step (t : ι)

/-- The turn is taken, if it can be. -/
def turn (P : ThreadProgram σ κ ε) [DecidablePred P.start] (s : Conf σ κ ι) :
    Turn κ ι → Option (Conf σ κ ι × Act κ ι)
  | .start t k =>
    if (s.threads t).isNone ∧ P.start k then
      some ({ s with threads := Function.update s.threads t (some k) }, .start t k)
    else none
  | .step t =>
    match s.threads t with
    | none => none
    | some k =>
      match P.step s.shared k with
      | .error _ => none
      | .ok (σ', o) => some (⟨σ', Function.update s.threads t o⟩, .step t k)

theorem step_of_turn [DecidablePred P.start] {s s' : Conf σ κ ι} {m : Turn κ ι}
    (h : P.turn s m = some (s', l)) : (P.system init).step s l s' := by
  cases m with
  | start t k =>
    rw [turn] at h
    split at h
    · next hturn =>
      cases h
      exact ⟨Option.isNone_iff_eq_none.mp hturn.1, hturn.2, rfl⟩
    · cases h
  | step t =>
    rw [turn] at h
    split at h
    · cases h
    · next k hk =>
      split at h
      · cases h
      · next σ' o hstep =>
        cases h
        exact ⟨hk, σ', o, hstep, rfl⟩

/-- Follow a schedule from a state, extending a history. -/
def follow (P : ThreadProgram σ κ ε) [DecidablePred P.start] :
    List (Conf σ κ ι × Act κ ι) → Conf σ κ ι → List (Turn κ ι) →
      Option (List (Conf σ κ ι × Act κ ι) × Conf σ κ ι)
  | tr, s, [] => some (tr, s)
  | tr, s, m :: ms =>
    match P.turn s m with
    | none => none
    | some (s', l) => follow P ((s, l) :: tr) s' ms

theorem run_of_follow [DecidablePred P.start] {ms : List (Turn κ ι)}
    {tr tr' : List (Conf σ κ ι × Act κ ι)} {s s' : Conf σ κ ι} (hrun : (P.system init).Run tr s)
    (h : P.follow tr s ms = some (tr', s')) : (P.system init).Run tr' s' := by
  induction ms generalizing tr s with
  | nil =>
    cases h
    exact hrun
  | cons m ms ih =>
    rw [follow] at h
    split at h
    · cases h
    · next hturn => exact ih (.cons hrun (step_of_turn hturn)) h

/-- The schedule can be followed from the shared state `σ₀`, and the check `p` accepts the run. -/
def followsTo (P : ThreadProgram σ κ ε) [DecidablePred P.start] (σ₀ : σ) (ms : List (Turn κ ι))
    (p : List (Conf σ κ ι × Act κ ι) → Conf σ κ ι → Bool) : Bool :=
  match P.follow [] ⟨σ₀, fun _ => none⟩ ms with
  | some (tr, s) => p tr s
  | none => false

theorem run_of_followsTo [DecidablePred P.start] {σ₀ : σ} {ms : List (Turn κ ι)}
    {p : List (Conf σ κ ι × Act κ ι) → Conf σ κ ι → Bool} (hinit : init σ₀)
    (h : P.followsTo σ₀ ms p = true) :
    ∃ tr s, (P.system init).Run tr s ∧ p tr s = true := by
  rw [followsTo] at h
  split at h
  · next tr s hfollow => exact ⟨tr, s, run_of_follow (.nil ⟨hinit, fun _ => rfl⟩) hfollow, h⟩
  · cases h

end ThreadProgram
