import Chirc.Theory.While
import Chirc.Verify.Buffer
import Chirc.Verify.Closing

/-! # The inner loop ends

The inner loop of `subthread_work` takes lines out of `buf` while there is a CRLF in it. A round
leaves either the bytes behind the line, at least two fewer than before, or what a handler printed
into `buf`, which has no CRLF whatever a client sent. So the loop ends, alone and among other
threads. -/

namespace Chirc

open TransitionSystem

/-! ## The loop -/

/-- The global variables and the thread after a round. -/
def Round.next (srv : Server) : Round → Server × Thread
  | .blank th => (srv, th)
  | .handled th _ _ w => (w.srv, th)

/-- The loop `while (NULL != (p = strstr(buf, "\r\n")))`, run without other threads. -/
def innerLoop (ctx : Ctx) (s : Server × Thread) : Res ((Server × Thread) ⊕ (Server × Thread)) := do
  match ← strstrCrlf s.2.buf with
  | none => return .inl s
  | some p => return .inr ((← innerRound ctx s.1 s.2 p).next s.1)

/-- The server from a given state on. -/
def chircFrom (ctx : Ctx) (σ₀ : Sys) : TransitionSystem Sys Label :=
  { chirc ctx with init := fun σ => σ = σ₀ }

/-- Thread `t` takes a line out of its buffer. -/
def Label.isRound (t : Nat) : Label → Bool
  | .blank t' => t' = t
  | .command t' .. => t' = t
  | _ => false

/-- The rounds of the inner loop of thread `t`. -/
def roundsOf (t : Nat) (tr : History) : Nat := tr.countP (·.2.isRound t)

/-- Thread `t` does not go back to its `read`. -/
def StaysInLoop (t : Nat) (_ : History) (_ : Sys) : Label → Prop
  | .recv t' .. => t' ≠ t
  | .hangup t' .. => t' ≠ t
  | _ => True

instance : ∀ tr σ l, Decidable (StaysInLoop t tr σ l)
  | _, _, .recv .. => inferInstanceAs (Decidable (_ ≠ _))
  | _, _, .hangup .. => inferInstanceAs (Decidable (_ ≠ _))
  | _, _, .accept .. => inferInstanceAs (Decidable True)
  | _, _, .blank .. => inferInstanceAs (Decidable True)
  | _, _, .command .. => inferInstanceAs (Decidable True)

/-! ## The measure -/

/-- A bound on the rounds that are left, each of which takes two bytes at least. -/
def Thread.linesLeft (th : Thread) : Nat :=
  if (crlfIdx th.buf).isSome then th.buf.length / 2 else 0

theorem Thread.linesLeft_le (th : Thread) : th.linesLeft ≤ th.buf.length / 2 := by
  rw [linesLeft]
  split
  · exact Nat.le_refl _
  · exact Nat.zero_le _

section
variable {th : Thread} {p : Nat} {s : List Byte} (hp : crlfIdx th.buf = some p)
  (hbuf : s = (th.shift p).buf ∨ OneLine s ∧ s.length < 1024)
include hp hbuf

/-- What a round leaves in the buffer has fewer lines. -/
theorem Thread.linesLeft_lt : ({ th.shift p with buf := s } : Thread).linesLeft < th.linesLeft := by
  have hlen := (terminated_of_crlfIdx hp).2
  have hold : th.linesLeft = th.buf.length / 2 := by
    rw [linesLeft, hp, Option.isSome_some, if_pos rfl]
  rw [hold]
  rcases hbuf with rfl | ⟨hone, -⟩
  · have hle := linesLeft_le (th.shift p)
    have hshift : (th.shift p).buf.length = th.buf.length - (p + 2) := List.length_drop
    rw [hshift] at hle
    have hlt : (th.buf.length - (p + 2)) / 2 < th.buf.length / 2 := by omega
    exact Nat.lt_of_le_of_lt hle hlt
  · have hnone : ({ th.shift p with buf := s } : Thread).linesLeft = 0 := by
      rw [linesLeft, crlfIdx_of_oneLine hone]
      rfl
    rw [hnone]
    omega

theorem Thread.length_lt_of_shift (hle : th.buf.length ≤ 1024) : s.length < 1024 := by
  rcases hbuf with rfl | ⟨-, hlt⟩
  · have hlen := (terminated_of_crlfIdx hp).2
    have hshift : (th.shift p).buf.length = th.buf.length - (p + 2) := List.length_drop
    omega
  · exact hlt

end

/-! ## The loop without other threads -/

theorem innerLoop_next (h : innerLoop ctx (srv, th) = .ok (.inr s')) :
    ∃ p r, crlfIdx th.buf = some p ∧ innerRound ctx srv th p = .ok r ∧ s' = r.next srv := by
  rw [innerLoop, Except.bind_eq_ok] at h
  obtain ⟨found, hfound, h⟩ := h
  cases found with
  | none => cases h
  | some p =>
    obtain ⟨r, hr, h⟩ := Except.bind_eq_ok.mp h
    cases h
    exact ⟨p, r, strstrCrlf_eq_some.mp hfound, hr, rfl⟩

/-- A round keeps the texts clean and leaves fewer lines. -/
theorem innerRound_shrinks {th : Thread} (H : srv.Clean) (hp : crlfIdx th.buf = some p)
    (h : innerRound ctx srv th p = .ok r) :
    (r.next srv).1.Clean ∧ (r.next srv).2.linesLeft < th.linesLeft := by
  rcases innerRound_cases h with ⟨line, -, -, rfl⟩ | ⟨line, msg, w, hparses, hw, rfl⟩
  · exact ⟨H, Thread.linesLeft_lt hp (.inl rfl)⟩
  · have hmsg := hparses.received (strstrCrlf_eq_some.mpr hp)
    exact ⟨(dispatch_handled hw).clean hmsg H, Thread.linesLeft_lt hp (dispatch_buf hmsg H hw)⟩

theorem innerLoop_rounds_ne (H : srv.Clean) (hn : th.linesLeft < n) :
    While.rounds (innerLoop ctx) n (srv, th) ≠ .ok none := by
  apply While.rounds_ne_of_measure (I := fun s => s.1.Clean) (m := fun s => s.2.linesLeft) _ H hn
  intro s s' hs hround
  obtain ⟨p, r, hp, hr, rfl⟩ := innerLoop_next hround
  exact innerRound_shrinks hs hp hr

/-! ## The loop among other threads -/

/-- Thread `t` has taken lines out of its buffer, `n` at most with those that are left. -/
structure Draining (t n : Nat) (tr : History) (σ : Sys) : Prop where
  clean : σ.server.Clean
  lt : t < σ.next
  thread : ∃ th, σ.threads t = some th ∧ (th.buf.length < 1024 ∨ NUL ∈ th.buf) ∧
    th.buf.length ≤ 1024 ∧ roundsOf t tr + th.linesLeft ≤ n

theorem roundsOf_cons (t : Nat) (σ : Sys) (l : Label) (tr : History) :
    roundsOf t ((σ, l) :: tr) = roundsOf t tr + if l.isRound t then 1 else 0 := List.countP_cons

theorem Draining.thread_of_ne {σ σ' : Sys} (H : Draining t n tr σ) (hl : l.isRound t = false)
    (hsame : σ'.threads t = σ.threads t) :
    ∃ th, σ'.threads t = some th ∧ (th.buf.length < 1024 ∨ NUL ∈ th.buf) ∧
      th.buf.length ≤ 1024 ∧ roundsOf t ((σ, l) :: tr) + th.linesLeft ≤ n := by
  obtain ⟨th, hth, hnul, hlen, hle⟩ := H.thread
  refine ⟨th, hsame.trans hth, hnul, hlen, ?_⟩
  rw [roundsOf_cons, hl]
  exact hle

/-- A round of thread `t` itself. -/
theorem Draining.thread_of_round {σ σ' : Sys} (H : Draining t n tr σ) (hth : σ.threads t = some th)
    (hp : crlfIdx th.buf = some p)
    (hbuf : s = (th.shift p).buf ∨ OneLine s ∧ s.length < 1024) (hl : l.isRound t = true)
    (hth' : σ'.threads t = some { th.shift p with buf := s }) :
    ∃ th, σ'.threads t = some th ∧ (th.buf.length < 1024 ∨ NUL ∈ th.buf) ∧
      th.buf.length ≤ 1024 ∧ roundsOf t ((σ, l) :: tr) + th.linesLeft ≤ n := by
  obtain ⟨th₀, hth₀, -, hlen, hle⟩ := H.thread
  obtain rfl : th₀ = th := Option.some.inj (hth₀.symm.trans hth)
  have hlt := Thread.length_lt_of_shift hp hbuf hlen
  have hfewer := Thread.linesLeft_lt hp hbuf
  refine ⟨_, hth', .inl hlt, Nat.le_of_lt hlt, ?_⟩
  rw [roundsOf_cons, hl, if_pos rfl]
  omega

theorem Step.draining {σ σ' : Sys} (hstep : Step ctx σ l σ') (H : Draining t n tr σ)
    (hstays : StaysInLoop t tr σ l) : Draining t n ((σ, l) :: tr) σ' := by
  refine ⟨hstep.clean H.clean, Nat.lt_of_lt_of_le H.lt hstep.next_le, ?_⟩
  cases hstep with
  | accept fd => exact H.thread_of_ne rfl (if_neg (Nat.ne_of_lt H.lt))
  | recv t' => exact H.thread_of_ne rfl (if_neg (Ne.symm hstays))
  | blank t' th p line hth hp =>
    by_cases ht : t' = t
    · subst ht
      exact H.thread_of_round hth (strstrCrlf_eq_some.mp hp) (.inl rfl) (decide_eq_true rfl)
        (if_pos rfl)
    · exact H.thread_of_ne (decide_eq_false ht) (if_neg (Ne.symm ht))
  | command t' th p line msg w hth hp hparses hw =>
    have hset : (σ.handled t' th p w).threads t = _ := Sys.handled_threads σ
    by_cases ht : t' = t
    · subst ht
      have hbuf := dispatch_buf (hparses.received hp) H.clean hw
      exact H.thread_of_round hth (strstrCrlf_eq_some.mp hp) hbuf (decide_eq_true rfl)
        (hset.trans (if_pos rfl))
    · exact H.thread_of_ne (decide_eq_false ht) (hset.trans (if_neg (Ne.symm ht)))
  | hangup t' => exact H.thread_of_ne rfl (if_neg (Ne.symm hstays))

theorem Run.draining {σ₀ σ : Sys} (hrun : (chircFrom ctx σ₀).Run tr σ)
    (hstays : AllSteps (StaysInLoop t) tr) (H : Draining t n [] σ₀) : Draining t n tr σ := by
  refine TransitionSystem.Run.invariant_of_allSteps (P := Draining t n) ?_ ?_ hrun hstays
  · intro σ hσ
    cases hσ
    exact H
  · intro tr σ l σ' _ H hstays hstep
    exact (step_cases hstep).draining H hstays

/-- **The inner loop ends**: whatever the buffer of a thread holds in a state that is reached, the
loop ends when it runs alone, without a fault unless a round faults, and takes a bounded number of
rounds however the steps of other threads come between them; and each time it can search its
buffer. -/
theorem innerLoop_ends {σ : Sys} (hrun : Run ctx tr σ) (ht : (σ.threads t).isSome) {th : Thread}
    (hlen : th.buf.length = 1024) (hnul : NUL ∈ th.buf) :
    (∃ x, While.Ends (innerLoop ctx) (σ.server, th) x ∧ ∀ f, x = .error f →
      ∃ s, While.Reaches (innerLoop ctx) (σ.server, th) s ∧ innerLoop ctx s = .error f) ∧
    ∀ tr' σ', (chircFrom ctx (σ.setThread t (some th))).Run tr' σ' →
      AllSteps (StaysInLoop t) tr' → roundsOf t tr' ≤ 512 ∧
        ∃ th' p, σ'.threads t = some th' ∧ strstrCrlf th'.buf = .ok p := by
  have hclean := hrun.clean
  obtain ⟨x, hends⟩ := While.Ends.of_rounds_ne (innerLoop_rounds_ne hclean
    (Nat.lt_succ_self _))
  have hfault : ∀ f, x = .error f →
      ∃ s, While.Reaches (innerLoop ctx) (σ.server, th) s ∧ innerLoop ctx s = .error f := by
    rintro f rfl
    exact hends.exists_fail
  refine ⟨⟨x, hends, hfault⟩, ?_⟩
  intro tr' σ' hrun' hstays
  have hlines : th.linesLeft ≤ 512 := by
    have := th.linesLeft_le
    rwa [hlen] at this
  have hlt : t < σ.next := by
    by_contra hge
    rw [hrun.threads_next t (Nat.le_of_not_lt hge)] at ht
    cases ht
  have hinit : Draining t 512 [] (σ.setThread t (some th)) :=
    ⟨hclean, hlt, th, if_pos rfl, .inr hnul, Nat.le_of_eq hlen, by rwa [roundsOf, List.countP_nil,
      Nat.zero_add]⟩
  obtain ⟨th', hth', hnul', -, hle⟩ := (Run.draining hrun' hstays hinit).thread
  refine ⟨by omega, th', ?_⟩
  cases hidx : crlfIdx th'.buf with
  | some p => exact ⟨some p, hth', strstrCrlf_eq_some.mpr hidx⟩
  | none =>
    refine ⟨none, hth', ?_⟩
    rw [strstrCrlf, hidx]
    exact if_pos hnul'

/-- A QUIT and a PING in the buffer of a thread that has just started. -/
def quitAndPing : Thread := ⟨3, lit "QUIT bye\r\nPING\r\n" ++ List.replicate 1008 NUL, 16⟩

theorem innerLoop_quitAndPing : ∃ tr σ, Run plainServer tr σ ∧
    (∃ x, While.Ends (innerLoop plainServer) (σ.server, quitAndPing) x ∧ ∀ f, x = .error f →
      ∃ s, While.Reaches (innerLoop plainServer) (σ.server, quitAndPing) s ∧
        innerLoop plainServer s = .error f) ∧
    ∀ tr' σ', (chircFrom plainServer (σ.setThread 0 (some quitAndPing))).Run tr' σ' →
      AllSteps (StaysInLoop 0) tr' → roundsOf 0 tr' ≤ 512 ∧
        ∃ th' p, σ'.threads 0 = some th' ∧ strstrCrlf th'.buf = .ok p := by
  obtain ⟨tr, σ, -, hrun, ht⟩ := run_of_playsTo plainServer [.accept 3]
    (fun _ σ => (σ.threads 0).isSome) (by decide +kernel)
  have hnul : NUL ∈ quitAndPing.buf :=
    List.mem_append_right _ (List.mem_replicate.mpr ⟨by decide, rfl⟩)
  exact ⟨tr, σ, hrun, innerLoop_ends hrun ht (by decide +kernel) hnul⟩

end Chirc
