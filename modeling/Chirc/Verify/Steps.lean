import Chirc.Verify.Effects
import Chirc.Server.System

/-! # The steps of the server

`Step` lists what a step of the server can do, one case for each kind of label, in terms of
`dispatch`; `step_cases` is its inversion lemma. Every state reached shows a board and gives each
open descriptor to one connection. -/

namespace Chirc

open Rendezvous

/-! ## Rounds -/

/-- The thread without the line whose CRLF is at `p`. -/
def Thread.shift (th : Thread) (p : Nat) : Thread :=
  { th with buf := th.buf.drop (p + 2), pos := th.pos - (p + 2 : Nat) }

/-- The line of `th` whose CRLF is at `p` is handed to the parser as `line`, which reads `msg`. -/
structure Parses (th : Thread) (p : Nat) (line : CStr) (msg : Message) : Prop where
  trim : trimSpace (th.buf.take (p + 2)) = .ok line
  crlf : ∃ q, strstrCrlf line = .ok (some q) ∧ q ≠ 0
  length_lt : line.length < 1024
  parse : chircMessageFromString line = .ok (some msg)

/-- The state in which the message of the line is handled. -/
def Thread.work (th : Thread) (srv : Server) (p : Nat) : Work := ⟨srv, (th.shift p).buf, [], false⟩

theorem innerRound_parses (hp : Parses th p line msg) :
    innerRound ctx srv th p = do
      let w ← dispatch ctx th.sockfd msg (th.work srv p)
      return .handled { th.shift p with buf := w.buf } line msg w := by
  obtain ⟨q, hq, hq0⟩ := hp.crlf
  have hlen : ¬ 1024 ≤ line.length := Nat.not_le.mpr hp.length_lt
  have hq2 : ¬ q + 2 ≤ 2 := by omega
  simp only [innerRound, hp.trim, Res.ok_bind, hq, hq2, hlen, if_false, hp.parse]
  rfl

theorem innerRound_cases (h : innerRound ctx srv th p = .ok r) :
    (∃ line, trimSpace (th.buf.take (p + 2)) = .ok line ∧ strstrCrlf line = .ok (some 0) ∧
      r = .blank (th.shift p)) ∨
    ∃ line msg w, Parses th p line msg ∧ dispatch ctx th.sockfd msg (th.work srv p) = .ok w ∧
      r = .handled { th.shift p with buf := w.buf } line msg w := by
  simp only [innerRound, Except.bind_eq_ok] at h
  obtain ⟨line, htrim, q, hq, h⟩ := h
  split at h
  · cases h
  · next q =>
    split at h
    · next hq0 =>
      obtain rfl : q = 0 := by omega
      cases h
      exact .inl ⟨line, htrim, hq, rfl⟩
    · next hq0 =>
      split at h
      · cases h
      · next hlen =>
        obtain ⟨m, hm, h⟩ := Except.bind_eq_ok.mp h
        split at h
        · cases h
        · next msg =>
          obtain ⟨w, hw, h⟩ := Except.bind_eq_ok.mp h
          cases h
          exact .inr ⟨line, msg, w, ⟨htrim, ⟨q, hq, by omega⟩, Nat.lt_of_not_le hlen, hm⟩, hw, rfl⟩

/-! ## Steps -/

/-- The state after a command of thread `t`. -/
def Sys.handled (σ : Sys) (t : Nat) (th : Thread) (p : Nat) (w : Work) : Sys :=
  let σ' := { σ with server := w.srv }.setThread t (some { th.shift p with buf := w.buf })
  if w.closed then σ'.close th.sockfd else σ'

/-- The steps of the server, one case for each kind of label. -/
inductive Step (ctx : Ctx) (σ : Sys) : Label → Sys → Prop
  | accept (fd : Nat) : σ.connOn fd = none →
    Step ctx σ (.accept σ.next fd)
      (({ σ with
        server := { σ.server with connectionCount := σ.server.connectionCount + 1 }
        conns := ⟨fd, σ.next⟩ :: σ.conns
        next := σ.next + 1 } : Sys).setThread σ.next (some ⟨fd, [], 0⟩))
  | recv (t th c chunk th') : σ.threads t = some th → strstrCrlf th.buf = .ok none →
    σ.connOn th.sockfd = some c → chunk ≠ [] → chunk.length ≤ th.room → th.recv chunk = .ok th' →
    Step ctx σ (.recv t th.sockfd c chunk) (σ.setThread t (some th'))
  | blank (t th p line) : σ.threads t = some th → strstrCrlf th.buf = .ok (some p) →
    trimSpace (th.buf.take (p + 2)) = .ok line → strstrCrlf line = .ok (some 0) →
    Step ctx σ (.blank t) (σ.setThread t (some (th.shift p)))
  | command (t th p line msg w) : σ.threads t = some th → strstrCrlf th.buf = .ok (some p) →
    Parses th p line msg → dispatch ctx th.sockfd msg (th.work σ.server p) = .ok w →
    Step ctx σ (.command t th.sockfd (σ.connOn th.sockfd) line msg w.out) (σ.handled t th p w)
  | hangup (t th) : σ.threads t = some th → strstrCrlf th.buf = .ok none →
    Step ctx σ (.hangup t th.sockfd (σ.connOn th.sockfd)) (hangup σ t th).1

theorem Res.orHalt_eq_ok {x : Res α} : x.orHalt = .ok a ↔ x = .ok a := by
  cases x with
  | ok a =>
    exact ⟨fun h => congrArg Except.ok (Except.ok.inj h),
      fun h => congrArg Except.ok (Except.ok.inj h)⟩
  | error f => exact ⟨nofun, nofun⟩

theorem nextLine_eq_ok :
    nextLine σ t = .ok (th, p) ↔ σ.threads t = some th ∧ strstrCrlf th.buf = .ok p := by
  rw [nextLine]
  cases σ.threads t with
  | none => exact ⟨nofun, nofun⟩
  | some th' =>
    simp only [Option.some.injEq]
    cases h : strstrCrlf th'.buf with
    | error f =>
      refine ⟨nofun, ?_⟩
      rintro ⟨rfl, h'⟩
      rw [h] at h'
      cases h'
    | ok q =>
      constructor
      · intro h'
        cases h'
        exact ⟨rfl, h⟩
      · rintro ⟨rfl, h'⟩
        rw [h] at h'
        cases h'
        rfl

/-- What a step can do. -/
theorem step_cases {σ σ' : Sys} (h : (chirc ctx).step σ l σ') : Step ctx σ l σ' := by
  obtain ⟨e, h⟩ := h
  cases e with
  | accept fd =>
    rw [step] at h
    split at h
    · cases h
    · next hfd =>
      cases h
      exact .accept fd (by simpa using hfd)
  | recv t chunk =>
    obtain ⟨⟨th, p⟩, hnext, h⟩ := Except.bind_eq_ok.mp h
    obtain ⟨hth, hp⟩ := nextLine_eq_ok.mp hnext
    cases p with
    | some p => cases h
    | none =>
      simp only at h
      split at h
      · cases h
      · next c hc =>
        split at h
        · cases h
        · next hroom =>
          obtain ⟨th', hth', h⟩ := Except.bind_eq_ok.mp h
          cases h
          rw [not_or, Int.not_lt] at hroom
          exact .recv t th c chunk th' hth hp hc hroom.1 hroom.2 (Res.orHalt_eq_ok.mp hth')
  | line t =>
    obtain ⟨⟨th, p⟩, hnext, h⟩ := Except.bind_eq_ok.mp h
    obtain ⟨hth, hp⟩ := nextLine_eq_ok.mp hnext
    cases p with
    | none => cases h
    | some p =>
      obtain ⟨r, hr, h⟩ := Except.bind_eq_ok.mp h
      rcases innerRound_cases (Res.orHalt_eq_ok.mp hr) with
        ⟨line, htrim, hline, rfl⟩ | ⟨line, msg, w, hparses, hw, rfl⟩
      · cases h
        exact .blank t th p line hth hp htrim hline
      · cases h
        exact .command t th p line msg w hth hp hparses hw
  | eof t =>
    obtain ⟨⟨th, p⟩, hnext, h⟩ := Except.bind_eq_ok.mp h
    obtain ⟨hth, hp⟩ := nextLine_eq_ok.mp hnext
    cases p with
    | some p => cases h
    | none =>
      simp only at h
      split at h
      · cases h
      · cases h
        exact .hangup t th hth hp
  | rerr t =>
    obtain ⟨⟨th, p⟩, hnext, h⟩ := Except.bind_eq_ok.mp h
    obtain ⟨hth, hp⟩ := nextLine_eq_ok.mp hnext
    cases p with
    | some p => cases h
    | none =>
      cases h
      exact .hangup t th hth hp

/-- The step of a thread whose next line is parsed. -/
theorem step_line {σ σ' : Sys} (hth : σ.threads t = some th) (hp : strstrCrlf th.buf = .ok (some p))
    (hparses : Parses th p line msg) : step ctx σ (.line t) = .ok (σ', l) ↔
      ∃ w, dispatch ctx th.sockfd msg (th.work σ.server p) = .ok w ∧ σ' = σ.handled t th p w ∧
        l = .command t th.sockfd (σ.connOn th.sockfd) line msg w.out := by
  have hnext : nextLine σ t = .ok (th, some p) := nextLine_eq_ok.mpr ⟨hth, hp⟩
  constructor
  · intro h
    obtain ⟨_, h₁, h⟩ := Except.bind_eq_ok.mp h
    cases hnext.symm.trans h₁
    obtain ⟨r, hr, h⟩ := Except.bind_eq_ok.mp h
    rw [Res.orHalt_eq_ok, innerRound_parses hparses] at hr
    obtain ⟨w, hw, hr⟩ := Except.bind_eq_ok.mp hr
    cases hr
    cases h
    exact ⟨w, hw, rfl, rfl⟩
  · rintro ⟨w, hw, rfl, rfl⟩
    have hround : innerRound ctx σ.server th p =
        .ok (.handled { th.shift p with buf := w.buf } line msg w) := by
      rw [innerRound_parses hparses, hw]
      rfl
    exact Except.bind_eq_ok.mpr
      ⟨_, hnext, Except.bind_eq_ok.mpr ⟨_, Res.orHalt_eq_ok.mpr hround, rfl⟩⟩

/-! ## Open descriptors -/

namespace Sys

theorem setThread_threads (σ : Sys) :
    (σ.setThread t th).threads t' = if t' = t then th else σ.threads t' := rfl

/-- Each open descriptor belongs to one connection, and each connection has one descriptor. -/
structure Wf (σ : Sys) : Prop where
  fds : (σ.conns.map (·.fd)).Nodup
  ids : (σ.conns.map (·.id)).Nodup
  lt : ∀ c ∈ σ.conns, c.id < σ.next

theorem connOn_eq_none {σ : Sys} : σ.connOn fd = none ↔ fd ∉ σ.conns.map (·.fd) := by
  simp [connOn]

theorem mem_conns_of_connOn {σ : Sys} (h : σ.connOn fd = some c) : ⟨fd, c⟩ ∈ σ.conns := by
  obtain ⟨⟨fd', c'⟩, hfind, rfl⟩ := Option.map_eq_some_iff.mp h
  have hfd : fd' = fd := by simpa using List.find?_some hfind
  exact hfd ▸ List.mem_of_find?_eq_some hfind

theorem Wf.connOn_iff {σ : Sys} (H : σ.Wf) : σ.connOn fd = some c ↔ ⟨fd, c⟩ ∈ σ.conns := by
  refine ⟨mem_conns_of_connOn, fun h => ?_⟩
  cases hc : σ.connOn fd with
  | none => exact absurd (List.mem_map_of_mem h) (connOn_eq_none.mp hc)
  | some c' =>
    have := List.inj_on_of_nodup_map H.fds (mem_conns_of_connOn hc) h rfl
    exact congrArg some (congrArg Conn.id this)

/-- A connection is open on one descriptor only. -/
theorem Wf.unique {σ : Sys} (H : σ.Wf) (h : σ.connOn fd = some c) (h' : σ.connOn fd' = some c) :
    fd = fd' := by
  have := List.inj_on_of_nodup_map H.ids (H.connOn_iff.mp h) (H.connOn_iff.mp h') rfl
  exact congrArg Conn.fd this

theorem Wf.connOn_lt {σ : Sys} (H : σ.Wf) (h : σ.connOn fd = some c) : c < σ.next :=
  H.lt _ (H.connOn_iff.mp h)

/-- A further connection. -/
theorem Wf.accept {σ σ' : Sys} (H : σ.Wf) (hfd : σ.connOn fd = none)
    (hconns : σ'.conns = ⟨fd, σ.next⟩ :: σ.conns) (hnext : σ'.next = σ.next + 1) : σ'.Wf := by
  have hid : σ.next ∉ σ.conns.map (·.id) := by
    intro h
    obtain ⟨c, hc, h⟩ := List.mem_map.mp h
    exact Nat.lt_irrefl _ (h ▸ H.lt c hc)
  refine ⟨?_, ?_, fun c hc => ?_⟩
  · rw [hconns]
    exact List.nodup_cons.mpr ⟨connOn_eq_none.mp hfd, H.fds⟩
  · rw [hconns]
    exact List.nodup_cons.mpr ⟨hid, H.ids⟩
  · rw [hconns] at hc
    rw [hnext]
    rcases List.mem_cons.mp hc with rfl | hc
    · exact Nat.lt_succ_self _
    · exact Nat.lt_succ_of_lt (H.lt c hc)

/-- Descriptors that are closed, or none. -/
theorem Wf.sublist {σ σ' : Sys} (H : σ.Wf) (hconns : σ'.conns.Sublist σ.conns)
    (hnext : σ'.next = σ.next) : σ'.Wf :=
  ⟨(hconns.map _).nodup H.fds, (hconns.map _).nodup H.ids,
    fun c hc => hnext ▸ H.lt c (hconns.subset hc)⟩

theorem connOn_accept_self {σ σ' : Sys} (h : σ'.conns = ⟨fd, c⟩ :: σ.conns) :
    σ'.connOn fd = some c := by
  simp [connOn, h]

theorem connOn_accept_ne {σ σ' : Sys} (h : σ'.conns = ⟨fd, c⟩ :: σ.conns) (hne : fd' ≠ fd) :
    σ'.connOn fd' = σ.connOn fd' := by
  simp [connOn, h, Ne.symm hne]

@[simp] theorem close_conns (σ : Sys) : (σ.close fd).conns = σ.conns.filter (·.fd != fd) := rfl

@[simp] theorem connOn_close_self (σ : Sys) : (σ.close fd).connOn fd = none := by
  rw [connOn_eq_none]
  simp

theorem connOn_close_ne (σ : Sys) (h : fd' ≠ fd) : (σ.close fd).connOn fd' = σ.connOn fd' := by
  rw [connOn, connOn, close_conns, List.find?_filter]
  congr 2
  funext c
  by_cases hc : c.fd = fd'
  · simp [hc, h]
  · simp [hc]

theorem close_conns_of_none {σ : Sys} (h : σ.connOn fd = none) : (σ.close fd).conns = σ.conns := by
  rw [close_conns, List.filter_eq_self]
  intro c hc
  have : c.fd ≠ fd := fun heq => connOn_eq_none.mp h (heq ▸ List.mem_map_of_mem hc)
  simpa using this

/-- Closing an open descriptor takes away the connection on it. -/
theorem Wf.perm_close {σ : Sys} (H : σ.Wf) (h : σ.connOn fd = some c) :
    σ.conns.Perm (⟨fd, c⟩ :: (σ.close fd).conns) := by
  have hmem := H.connOn_iff.mp h
  refine (List.perm_cons_erase hmem).trans (.of_eq (congrArg _ ?_))
  rw [H.fds.of_map.erase_eq_filter, close_conns]
  refine List.filter_congr fun d hd => ?_
  by_cases hfd : d.fd = fd
  · obtain rfl : d = ⟨fd, c⟩ := List.inj_on_of_nodup_map H.fds hd hmem hfd
    rw [bne_self_eq_false, bne_self_eq_false]
  · have : d ≠ ⟨fd, c⟩ := fun heq => hfd (congrArg Conn.fd heq)
    rw [bne_iff_ne.mpr this, bne_iff_ne.mpr hfd]

@[simp] theorem handled_server (σ : Sys) : (σ.handled t th p w).server = w.srv := by
  rw [handled]
  split <;> rfl

@[simp] theorem handled_next (σ : Sys) : (σ.handled t th p w).next = σ.next := by
  rw [handled]
  split <;> rfl

theorem handled_threads (σ : Sys) : (σ.handled t th p w).threads t' =
    if t' = t then some { th.shift p with buf := w.buf } else σ.threads t' := by
  rw [handled]
  split <;> rfl

theorem handled_conns (σ : Sys) : (σ.handled t th p w).conns =
    if w.closed then (σ.close th.sockfd).conns else σ.conns := by
  rw [handled]
  split <;> rfl

end Sys

/-! ## Runs -/

theorem Step.wf {σ σ' : Sys} (H : Step ctx σ l σ') (hσ : σ.Wf) : σ'.Wf := by
  cases H with
  | accept fd hfd => exact hσ.accept hfd rfl rfl
  | recv t th c chunk th' => exact hσ.sublist (.refl _) rfl
  | blank t th p line => exact hσ.sublist (.refl _) rfl
  | command t th p line msg w =>
    refine hσ.sublist ?_ (Sys.handled_next σ)
    rw [Sys.handled_conns]
    split
    · exact List.filter_sublist
    · exact .refl _
  | hangup t th => exact hσ.sublist List.filter_sublist rfl

/-- The post that the step makes. -/
def Label.request : Label → Post CStr
  | .command _ _ _ _ msg _ => Chirc.request msg
  | _ => .idle

theorem Step.represents {σ σ' : Sys} {b : Board CStr Nat} (H : Step ctx σ l σ')
    (hb : Represents σ.server b) : ∃ fd, Represents σ'.server (b.post fd l.request) := by
  cases H with
  | accept fd hfd => exact ⟨fd, hb.left, hb.right, hb.bound⟩
  | recv t th c chunk th' => exact ⟨th.sockfd, hb.left, hb.right, hb.bound⟩
  | blank t th p line => exact ⟨th.sockfd, hb.left, hb.right, hb.bound⟩
  | command t th p line msg w hth hp hparses hw =>
    rw [Sys.handled_server]
    exact ⟨_, (dispatch_handled hw).represents hb⟩
  | hangup t th => exact ⟨th.sockfd, hb.left, hb.right, hb.bound⟩

/-- Every state reached shows a board, and gives each descriptor to one connection. -/
theorem Run.wf_represents {σ : Sys} (hrun : Run ctx tr σ) :
    σ.Wf ∧ ∃ b, Represents σ.server b := by
  refine TransitionSystem.Run.invariant (P := fun _ σ => σ.Wf ∧ ∃ b, Represents σ.server b)
    ?_ ?_ hrun
  · rintro _ rfl
    exact ⟨⟨.nil, .nil, nofun⟩, .empty, .init⟩
  · rintro tr σ l σ' - ⟨hwf, b, hb⟩ hstep
    obtain ⟨fd, hb'⟩ := (step_cases hstep).represents hb
    exact ⟨(step_cases hstep).wf hwf, _, hb'⟩

theorem Run.wf {σ : Sys} (hrun : Run ctx tr σ) : σ.Wf := hrun.wf_represents.1

theorem Run.represents {σ : Sys} (hrun : Run ctx tr σ) : ∃ b, Represents σ.server b :=
  hrun.wf_represents.2

end Chirc
