import Chirc.Verify.Mirror

/-! # After closing the socket

A thread leaves its loop when a `read` ends its connection, but not after a QUIT: it has closed its
socket then, and goes on to read from the number. A thread is done with its socket once it has
closed it exactly if it handles no QUIT. -/

namespace Chirc

open TransitionSystem

/-- The thread that takes a step, unless it is the accept loop. -/
def Event.thread : Event → Option Nat
  | .accept _ => none
  | .recv t _ => some t
  | .line t => some t
  | .eof t => some t
  | .rerr t => some t

namespace Label

/-- The thread that took the step, unless it was the accept loop. -/
def thread : Label → Option Nat
  | .accept _ _ => none
  | .recv t _ _ _ => some t
  | .blank t => some t
  | .command t _ _ _ _ _ => some t
  | .hangup t _ _ => some t

/-- The connection that the step read from, answered or closed. -/
def conn : Label → Option Nat
  | .recv _ _ c _ => some c
  | .command _ _ c _ _ _ => c
  | .hangup _ _ c => c
  | _ => none

end Label

/-- Thread `t` has closed its socket. -/
def hasClosed (tr : History) (t : Nat) : Bool :=
  tr.any fun e => e.2.thread = some t ∧ e.2.closes.isSome

/-- Threads are done with their sockets once they have closed them: no thread took a step after it
did, none can take another one, and each has dealt with its own connection only (which has the
number of the thread). -/
structure DoneOnceClosed (ctx : Ctx) (tr : History) (σ : Sys) : Prop where
  past : ∀ e tr', e :: tr' <:+ tr → ∀ t, e.2.thread = some t → hasClosed tr' t = false
  next : ∀ e t, e.thread = some t → hasClosed tr t = true → step ctx σ e = .error .disabled
  own : ∀ e ∈ tr, ∀ t c, e.2.thread = some t → e.2.conn = some c → c = t

/-- The step does not handle a QUIT. -/
def NoQuit (_ : History) (_ : Sys) (l : Label) : Prop := l.quits = none

instance : Decidable (NoQuit tr σ l) := inferInstanceAs (Decidable (_ = _))

theorem hasClosed_cons : hasClosed ((σ, l) :: tr) t =
    (decide (l.thread = some t ∧ l.closes.isSome) || hasClosed tr t) := rfl

theorem hasClosed_cons_of_ne (h : l.thread ≠ some t) :
    hasClosed ((σ, l) :: tr) t = hasClosed tr t := by
  simp [hasClosed_cons, h]

/-! ## Without a QUIT -/

/-- Each thread has its own connection open, and those that have closed theirs are gone. -/
structure Attached (tr : History) (σ : Sys) : Prop where
  conn : ∀ t th, σ.threads t = some th → σ.connOn th.sockfd = some t
  gone : ∀ t, hasClosed tr t = true → σ.threads t = none ∧ t < σ.next

namespace Attached
variable {tr : History} {σ σ' : Sys} (H : Attached tr σ)
include H

/-- A step of thread `t` that closes nothing. -/
theorem of_thread (hth : σ.threads t = some th)
    (hth' : ∀ t', σ'.threads t' = if t' = t then some th' else σ.threads t')
    (hfd : th'.sockfd = th.sockfd) (hconns : σ'.conns = σ.conns) (hnext : σ'.next = σ.next)
    (hclosed : ∀ t', hasClosed ((σ, l) :: tr) t' = hasClosed tr t') :
    Attached ((σ, l) :: tr) σ' where
  conn t' th₁ h := by
    rw [Sys.connOn_congr hconns]
    rw [hth'] at h
    split at h
    · next ht =>
      cases h
      rw [hfd, ht]
      exact H.conn t th hth
    · exact H.conn t' th₁ h
  gone t' h := by
    rw [hclosed] at h
    obtain ⟨hnone, hlt⟩ := H.gone t' h
    have hne : t' ≠ t := fun heq => by
      rw [heq, hth] at hnone
      cases hnone
    rw [hth', if_neg hne, hnext]
    exact ⟨hnone, hlt⟩

theorem accept (hfd : σ.connOn fd = none)
    (hth' : ∀ t, σ'.threads t = if t = σ.next then some ⟨fd, [], 0⟩ else σ.threads t)
    (hconns : σ'.conns = ⟨fd, σ.next⟩ :: σ.conns) (hnext : σ'.next = σ.next + 1) :
    Attached ((σ, .accept σ.next fd) :: tr) σ' where
  conn t th h := by
    rw [hth'] at h
    split at h
    · next ht =>
      cases h
      rw [ht]
      exact Sys.connOn_accept_self hconns
    · have hopen := H.conn t th h
      have hne : th.sockfd ≠ fd := fun heq => by
        rw [heq, hfd] at hopen
        cases hopen
      rw [Sys.connOn_accept_ne hconns hne]
      exact hopen
  gone t h := by
    rw [hasClosed_cons_of_ne (by simp [Label.thread])] at h
    obtain ⟨hnone, hlt⟩ := H.gone t h
    rw [hth', if_neg (Nat.ne_of_lt hlt), hnext]
    exact ⟨hnone, Nat.lt_succ_of_lt hlt⟩

theorem hangup (hwf : ∀ t, σ.next ≤ t → σ.threads t = none) (hth : σ.threads t = some th) :
    Attached ((σ, .hangup t th.sockfd c) :: tr) (hangup σ t th).1 where
  conn t' th' h := by
    have h : (if t' = t then none else σ.threads t') = some th' := h
    split at h
    · cases h
    · next hne =>
      have hopen := H.conn t' th' h
      have hfd : th'.sockfd ≠ th.sockfd := fun heq => by
        rw [heq, H.conn t th hth] at hopen
        exact hne (Option.some.inj hopen).symm
      exact (Sys.connOn_close_ne _ hfd).trans hopen
  gone t' h := by
    change (if t' = t then none else σ.threads t') = none ∧ t' < σ.next
    by_cases ht : t' = t
    · subst ht
      refine ⟨if_pos rfl, Nat.lt_of_not_le fun hle => ?_⟩
      rw [hwf t' hle] at hth
      cases hth
    · rw [hasClosed_cons_of_ne (by simpa [Label.thread] using Ne.symm ht)] at h
      rw [if_neg ht]
      exact H.gone t' h

end Attached

theorem Thread.recv_sockfd {th : Thread} (h : th.recv chunk = .ok th') :
    th'.sockfd = th.sockfd := by
  rw [Thread.recv] at h
  split at h
  · cases h
  · cases h
    rfl

theorem Step.attached {σ σ' : Sys} (H : Step ctx σ l σ') (hatt : Attached tr σ)
    (hfresh : ∀ t, σ.next ≤ t → σ.threads t = none) (hquit : l.quits = none) :
    Attached ((σ, l) :: tr) σ' := by
  cases H with
  | accept fd hfd => exact hatt.accept hfd (fun _ => rfl) rfl rfl
  | recv t th c chunk th' hth hp hc hne hroom hrecv =>
    exact hatt.of_thread hth (fun _ => rfl) (Thread.recv_sockfd hrecv) rfl rfl fun t' => by
      simp [hasClosed_cons, Label.closes]
  | blank t th p line hth =>
    exact hatt.of_thread hth (fun _ => rfl) rfl rfl rfl fun t' => by
      simp [hasClosed_cons, Label.closes]
  | command t th p line msg w hth hp hparses hw =>
    have hcmd : Chirc.command msg.cmd ≠ .quit := fun hcmd => by simp [Label.quits, hcmd] at hquit
    refine hatt.of_thread hth (fun t' => Sys.handled_threads σ) rfl ?_ (Sys.handled_next σ)
      fun t' => by simp [hasClosed_cons, Label.closes, hcmd]
    rw [Sys.handled_conns, if_neg (hcmd ∘ ((dispatch_handled hw).closed_iff rfl).mp)]
  | hangup t th hth => exact hatt.hangup hfresh hth

/-- The threads that are still to come. -/
theorem Run.threads_next {σ : Sys} (hrun : Run ctx tr σ) :
    ∀ t, σ.next ≤ t → σ.threads t = none := by
  refine TransitionSystem.Run.invariant (P := fun _ σ => ∀ t, σ.next ≤ t → σ.threads t = none)
    (by rintro _ rfl _ _; rfl) ?_ hrun
  intro tr σ l σ' _ hfresh hstep t' ht'
  have hne {t th} (hth : σ.threads t = some th) (hle : σ.next ≤ t') : t' ≠ t := by
    intro h
    rw [← h, hfresh t' hle] at hth
    cases hth
  cases step_cases hstep with
  | accept fd => exact (if_neg (Nat.ne_of_gt ht')).trans (hfresh t' (Nat.le_of_succ_le ht'))
  | recv t th c chunk th' hth => exact (if_neg (hne hth ht')).trans (hfresh t' ht')
  | blank t th p line hth => exact (if_neg (hne hth ht')).trans (hfresh t' ht')
  | command t th p line msg w hth =>
    rw [Sys.handled_next] at ht'
    rw [Sys.handled_threads, if_neg (hne hth ht')]
    exact hfresh t' ht'
  | hangup t th hth => exact (if_neg (hne hth ht')).trans (hfresh t' ht')

theorem Run.attached {σ : Sys} (hrun : Run ctx tr σ) (hquit : AllSteps NoQuit tr) :
    Attached tr σ := by
  refine TransitionSystem.Run.invariant_of_allSteps ?_ ?_ hrun hquit
  · rintro _ rfl
    exact ⟨nofun, nofun⟩
  · intro tr σ l σ' hrun hatt hquit hstep
    exact (step_cases hstep).attached hatt (Run.threads_next hrun) hquit

/-! ## Steps and threads -/

theorem step_of_no_thread (hthread : e.thread = some t) (hnone : σ.threads t = none) :
    step ctx σ e = .error .disabled := by
  cases e with
  | accept fd => cases hthread
  | _ => cases hthread; simp only [step, nextLine, hnone]; rfl

theorem Step.thread_isSome {σ σ' : Sys} (H : Step ctx σ l σ') (hthread : l.thread = some t) :
    ∃ th, σ.threads t = some th := by
  cases H with
  | accept fd => cases hthread
  | recv t th c chunk th' hth => cases hthread; exact ⟨th, hth⟩
  | blank t th p line hth => cases hthread; exact ⟨th, hth⟩
  | command t th p line msg w hth => cases hthread; exact ⟨th, hth⟩
  | hangup t th hth => cases hthread; exact ⟨th, hth⟩

/-- The connection that a step deals with is the one open on the descriptor of its thread. -/
theorem Step.conn_eq {σ σ' : Sys} (H : Step ctx σ l σ') (hthread : l.thread = some t)
    (hth : σ.threads t = some th) (hconn : l.conn = some c) : σ.connOn th.sockfd = some c := by
  cases H with
  | accept fd => cases hthread
  | recv t th c chunk th' hth' hp hc =>
    cases hthread
    cases hconn
    cases hth.symm.trans hth'
    exact hc
  | blank t th p line => cases hconn
  | command t th p line msg w hth' =>
    cases hthread
    cases hth.symm.trans hth'
    exact hconn
  | hangup t th hth' =>
    cases hthread
    cases hth.symm.trans hth'
    exact hconn

/-- A thread that is in its loop can go on, be it into undefined behaviour. -/
theorem exists_enabled (ctx : Ctx) {σ : Sys} (hth : σ.threads t = some th) :
    ∃ e, e.thread = some t ∧ step ctx σ e ≠ .error .disabled := by
  cases hp : strstrCrlf th.buf with
  | error f =>
    have hstep : step ctx σ (.line t) = .error (.fault f) := by
      simp only [step, nextLine, hth, hp]
      rfl
    exact ⟨.line t, rfl, fun h => by rw [hstep] at h; cases h⟩
  | ok p =>
    have hnext : nextLine σ t = .ok (th, p) := nextLine_eq_ok.mpr ⟨hth, hp⟩
    cases p with
    | none =>
      have hstep : step ctx σ (.rerr t) = .ok (hangup σ t th) :=
        Except.bind_eq_ok.mpr ⟨_, hnext, rfl⟩
      exact ⟨.rerr t, rfl, fun h => by rw [hstep] at h; cases h⟩
    | some p =>
      cases hr : innerRound ctx σ.server th p with
      | error f =>
        have hstep : step ctx σ (.line t) = .error (.fault f) := by
          simp only [step, hnext, bind, Except.bind, hr]
          rfl
        exact ⟨.line t, rfl, fun h => by rw [hstep] at h; cases h⟩
      | ok r =>
        have hstep : step ctx σ (.line t) = .ok (afterRound σ t th.sockfd r) :=
          Except.bind_eq_ok.mpr
            ⟨_, hnext, Except.bind_eq_ok.mpr ⟨r, Res.orHalt_eq_ok.mpr hr, rfl⟩⟩
        exact ⟨.line t, rfl, fun h => by rw [hstep] at h; cases h⟩

/-- After a QUIT the thread is still in its loop. -/
theorem Step.quits {σ σ' : Sys} (H : Step ctx σ l σ') (hquit : l.quits ≠ none) :
    ∃ t th, σ'.threads t = some th ∧ l.thread = some t ∧ l.closes.isSome := by
  cases H with
  | command t th p line msg w =>
    have hcmd : Chirc.command msg.cmd = .quit := by
      by_contra hcmd
      exact hquit (if_neg hcmd)
    exact ⟨t, _, (Sys.handled_threads σ).trans (if_pos rfl), rfl, by simp [Label.closes, hcmd]⟩
  | _ => exact absurd rfl hquit

/-! ## Runs -/

theorem doneOnceClosed_step {σ σ' : Sys} (hrun : Run ctx tr σ) (hquits : AllSteps NoQuit tr)
    (H : DoneOnceClosed ctx tr σ) (hstep : (chirc ctx).step σ l σ') :
    DoneOnceClosed ctx ((σ, l) :: tr) σ' ↔ NoQuit tr σ l := by
  have hS := step_cases hstep
  constructor
  · intro H'
    by_contra hquit
    obtain ⟨t, th, hth, hthread, hcloses⟩ := hS.quits hquit
    obtain ⟨e, he, henabled⟩ := exists_enabled ctx hth
    exact henabled (H'.next e t he (by simp [hasClosed_cons, hthread, hcloses]))
  · intro hquit
    have hatt := Run.attached hrun hquits
    have hatt' := hS.attached hatt (Run.threads_next hrun) hquit
    refine ⟨fun e tr' hsuf t ht => ?_, fun e t he hclosed => ?_, fun e he t c ht hc => ?_⟩
    · rcases List.suffix_cons_iff.mp hsuf with heq | hsuf
      · cases heq
        obtain ⟨th, hth⟩ := hS.thread_isSome ht
        refine Bool.eq_false_iff.mpr fun hclosed => ?_
        rw [(hatt.gone t hclosed).1] at hth
        cases hth
      · exact H.past e tr' hsuf t ht
    · exact step_of_no_thread he (hatt'.gone t hclosed).1
    · rcases List.mem_cons.mp he with rfl | he
      · obtain ⟨th, hth⟩ := hS.thread_isSome ht
        exact Option.some.inj ((hS.conn_eq ht hth hc).symm.trans (hatt.conn t th hth))
      · exact H.own e he t c ht hc

/-- **Threads are done with their sockets once they have closed them** in every state of a run
exactly if no step of the run handles a QUIT. -/
theorem doneOnceClosed_iff {σ : Sys} (hrun : Run ctx tr σ) :
    AllStates (DoneOnceClosed ctx) tr σ ↔ AllSteps NoQuit tr := by
  refine Run.allStates_iff_allSteps ?_ doneOnceClosed_step hrun
  rintro _ rfl
  exact ⟨fun e tr' h => absurd h (by simp), nofun, nofun⟩

theorem doneOnceClosed_registerAmy :
    ∃ tr σ, play plainServer (registerAmy ++ [.eof 0, .accept 4]) = .ok (tr, σ) ∧
      AllStates (DoneOnceClosed plainServer) tr σ := by
  obtain ⟨tr, σ, hplay, hrun, h⟩ := run_of_playsTo plainServer
    (registerAmy ++ [.eof 0, .accept 4]) (fun tr _ => AllSteps NoQuit tr) (by decide +kernel)
  exact ⟨tr, σ, hplay, (doneOnceClosed_iff hrun).mpr (of_decide_eq_true h)⟩

/-- A client quits, and its descriptor goes to the next one, which sends a NICK. -/
def quitThenNick : List Event :=
  [.accept 4, .recv 0 (lit "QUIT\r\n"), .line 0, .accept 4, .recv 0 (lit "NICK amy\r\n"), .line 0]

/-- The thread of the client that has quit reads the NICK of the next one and handles it. -/
theorem doneOnceClosed_reused : ∃ tr σ, play plainServer quitThenNick = .ok (tr, σ) ∧
    (∃ e ∈ commands tr, e.thread = 0 ∧ e.sender = some 1) ∧
    ¬ DoneOnceClosed plainServer tr σ := by
  obtain ⟨tr, σ, hplay, -, h⟩ := run_of_playsTo plainServer quitThenNick
    (fun tr _ => ((commands tr).any fun e => e.thread = 0 ∧ e.sender = some 1) ∧
      tr.any fun e => e.2.thread = some 0 ∧ e.2.conn = some 1) (by decide +kernel)
  obtain ⟨hmessage, hconn⟩ := of_decide_eq_true h
  refine ⟨tr, σ, hplay, by simpa using hmessage, fun H => ?_⟩
  obtain ⟨e, he, hthread, hconn⟩ : ∃ e ∈ tr, e.2.thread = some 0 ∧ e.2.conn = some 1 := by
    simpa using hconn
  exact absurd (H.own e he 0 1 hthread hconn) (by decide)

end Chirc
