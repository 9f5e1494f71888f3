import Chirc.Verify.Provenance

/-! # What a connection has sent and received

The claims of the repository's tests and documents are about connections: the commands that a
connection sent, the replies it received, the nick it is registered under. Here these are read off
the history of a run. A command belongs to the connection that sent its bytes, a reply to the one
that is open on the descriptor of the thread when it is written. -/

namespace Chirc

open Rendezvous

/-! ## One step -/

namespace Label

/-- The replies that the step writes to connection `c`. -/
def sentTo (c : Nat) : Label → List Message
  | .command _ _ c' _ _ out => if c' = some c then out else []
  | _ => []

/-- The descriptor that the step closes. -/
def closes : Label → Option Nat
  | .command _ fd _ _ msg _ => if Chirc.command msg.cmd = Command.quit then some fd else none
  | .hangup _ fd _ => some fd
  | _ => none

end Label

/-- The nick in the last RPL_WELCOME among some replies. -/
def welcomedAs (ms : List Message) : Option CStr :=
  (ms.filter (·.cmd = rplWelcome)).getLast?.bind (·.params.head?)

/-- The nick of a NICK command that puts it on `nick_head`. -/
def acceptedNick (srv : Server) (msg : Message) : Option CStr :=
  (nickParam msg).filter fun nick => findUserNode srv.nickHead nick = none

/-- The user name of a USER command that puts it on `user_head`. -/
def acceptedUser (srv : Server) (msg : Message) : Option CStr :=
  (userParam msg).filter fun user => findUserNode srv.userHead user = none

/-! ## Histories -/

/-- The nick under which connection `c` is registered: that of the last RPL_WELCOME it received. -/
def registered (tr : History) (c : Nat) : Option CStr :=
  tr.findSome? fun e => welcomedAs (e.2.sentTo c)

/-- The nick under which connection `c` has itself registered: that of the last RPL_WELCOME that it
received for a command of its own. -/
def registeredItself : History → Nat → Option CStr
  | [], _ => none
  | (σ, l) :: tr, c => (if l.sender tr σ = some c then welcomedAs (l.sentTo c) else none).or
    (registeredItself tr c)

/-- The nick of the last NICK command of connection `c`. -/
def lastNick (tr : History) (c : Nat) : Option CStr :=
  (commands tr).findSome? fun e => (e.message c).bind nickParam

/-- The user name of the last USER command of connection `c`. -/
def lastUser (tr : History) (c : Nat) : Option CStr :=
  (commands tr).findSome? fun e => (e.message c).bind userParam

/-- The nick of the last NICK command of connection `c` that was accepted. -/
def lastAccepted (tr : History) (c : Nat) : Option CStr :=
  (commands tr).findSome? fun e => (e.message c).bind (acceptedNick e.server)

/-- The welcomes that connection `c` has received, latest first. -/
def welcomes (tr : History) (c : Nat) : List Message :=
  tr.flatMap fun e => (e.2.sentTo c).filter (·.cmd = rplWelcome)

/-! ## The step and the history -/

theorem registered_cons : registered ((σ, l) :: tr) c =
    (welcomedAs (l.sentTo c)).or (registered tr c) := by
  rw [registered, List.findSome?_cons]
  cases welcomedAs (l.sentTo c) <;> rfl

theorem mem_sentTo_command : m ∈ (Label.command t fd c' line msg out).sentTo c ↔
    c' = some c ∧ m ∈ out := by
  rw [Label.sentTo]
  split <;> simp [*]

theorem sentTo_command_eq_cons : (Label.command t fd c' line msg out).sentTo c = m :: ms ↔
    c' = some c ∧ out = m :: ms := by
  rw [Label.sentTo]
  split <;> simp [*]

theorem registered_cons_of_nil (h : l.sentTo c = []) :
    registered ((σ, l) :: tr) c = registered tr c := by
  rw [registered_cons, h]
  rfl

theorem welcomedAs_eq_none (h : ∀ m ∈ ms, m.cmd ≠ rplWelcome) : welcomedAs ms = none := by
  have : ms.filter (·.cmd = rplWelcome) = [] := by simpa using h
  rw [welcomedAs, this]
  rfl

/-- One of the replies to a registration is a welcome. -/
theorem filter_registrationReplies :
    (registrationReplies ctx srv nick user).filter (·.cmd = rplWelcome) =
      [welcome ctx nick user] := by
  have hbrief : (briefing ctx srv nick).filter (·.cmd = rplWelcome) = [] := by
    simpa using fun m hm => (briefing_addressed hm).cmd_ne
  rw [registrationReplies,
    List.filter_cons_of_pos (p := fun m : Message => decide (m.cmd = rplWelcome)) rfl, hbrief]

theorem welcomedAs_registrationReplies :
    welcomedAs (registrationReplies ctx srv nick user) = some nick := by
  rw [welcomedAs, filter_registrationReplies]
  rfl

/-- The welcomes among the replies to a command are that of its registration, if there is one. -/
theorem welcomedAs_out {σ : Sys} {b : Board CStr Nat} {th : Thread} (hb : Represents σ.server b)
    (hw : dispatch ctx th.sockfd msg (th.work σ.server p) = .ok w) :
    welcomedAs w.out = registers σ.server msg := by
  change _ = registers (th.work σ.server p).srv msg
  cases (dispatch_handled hw).registration hb with
  | silent hreg htags hout =>
    rw [hreg]
    exact welcomedAs_eq_none fun m hm => ((hout m hm).resolve_left List.not_mem_nil).cmd_ne
  | welcomed nick w₁ stored hreg htags hout h =>
    rw [hreg, h, Work.registered_out, hout]
    exact welcomedAs_registrationReplies

/-! ## Moves -/

/-- The descriptor that the step registers. -/
def Label.registersOn (σ : Sys) : Label → Option Nat
  | .command _ fd _ _ msg _ => if (registers σ.server msg).isSome then some fd else none
  | _ => none

/-- The nick under which the step registers a connection. -/
def Label.registersAs (σ : Sys) : Label → Option CStr
  | .command _ _ _ _ msg _ => registers σ.server msg
  | _ => none

/-- The descriptor on which the step handles a QUIT. -/
def Label.quits : Label → Option Nat
  | .command _ fd _ _ msg _ => if Chirc.command msg.cmd = Command.quit then some fd else none
  | _ => none

theorem Label.quits_of_closes {l : Label} (h : l.closes = none) : l.quits = none := by
  cases l with
  | command t fd c line msg out => exact h
  | _ => rfl

/-- What a step does to the tables, the descriptors, the counter and the registrations. -/
inductive Move (tr : History) (σ σ' : Sys) (l : Label) : Prop
  | quiet (closes : l.closes = none) (registersOn : l.registersOn σ = none)
    (conns : σ'.conns = σ.conns)
    (bound : bindings σ'.server.connectionHash = bindings σ.server.connectionHash)
    (tags : σ'.server.sockfdNickHash = σ.server.sockfdNickHash)
    (count : σ'.server.connectionCount = σ.server.connectionCount)
    (registered : ∀ c, registered ((σ, l) :: tr) c = registered tr c)
  | accept (fd : Nat) (closes : l.closes = none) (registersOn : l.registersOn σ = none)
    (free : σ.connOn fd = none) (conns : σ'.conns = ⟨fd, σ.next⟩ :: σ.conns)
    (bound : bindings σ'.server.connectionHash = bindings σ.server.connectionHash)
    (tags : σ'.server.sockfdNickHash = σ.server.sockfdNickHash)
    (count : σ'.server.connectionCount = σ.server.connectionCount + 1)
    (registered : ∀ c, registered ((σ, l) :: tr) c = registered tr c)
  | register (fd : Nat) (nick : CStr) (closes : l.closes = none)
    (registersOn : l.registersOn σ = some fd) (registersAs : l.registersAs σ = some nick)
    (conns : σ'.conns = σ.conns)
    (fresh : nick ∉ (bindings σ.server.connectionHash).map Prod.fst)
    (bound : bindings σ'.server.connectionHash = (nick, fd) :: bindings σ.server.connectionHash)
    (tags : σ'.server.sockfdNickHash = addSockfdNickMapNode σ.server.sockfdNickHash ⟨fd, nick⟩)
    (count : σ'.server.connectionCount = σ.server.connectionCount)
    (registered : ∀ c, σ.connOn fd = some c → registered ((σ, l) :: tr) c = some nick)
    (others : ∀ c, σ.connOn fd ≠ some c → Chirc.registered ((σ, l) :: tr) c = Chirc.registered tr c)
  | close (fd : Nat) (closes : l.closes = some fd) (registersOn : l.registersOn σ = none)
    (conns : σ'.conns = (σ.close fd).conns)
    (bound : bindings σ'.server.connectionHash = bindings σ.server.connectionHash)
    (tags : (l.quits = some fd ∧ σ'.server.sockfdNickHash = σ.server.sockfdNickHash) ∨
      (l.quits = none ∧ σ'.server.sockfdNickHash = delSockfdNickMapNode σ.server.sockfdNickHash
        (findSockfdNickMapNode σ.server.sockfdNickHash fd)))
    (count : σ'.server.connectionCount = σ.server.connectionCount - 1)
    (registered : ∀ c, registered ((σ, l) :: tr) c = registered tr c)

theorem registered_command (hout : welcomedAs out = registers σ.server msg) :
    registered ((σ, .command t fd c' line msg out) :: tr) c =
      if c' = some c then (registers σ.server msg).or (registered tr c) else registered tr c := by
  rw [registered_cons, Label.sentTo]
  split
  · rw [hout]
  · rfl

/-- A command that does not register: a QUIT, or one that changes neither table. -/
theorem Move.of_silent {σ : Sys} {th : Thread}
    (H : Handled ctx th.sockfd msg (th.work σ.server p) w) (hreg : registers σ.server msg = none)
    (hbound : bindings w.srv.connectionHash = bindings σ.server.connectionHash)
    (htags : w.srv.sockfdNickHash = σ.server.sockfdNickHash)
    (hout : welcomedAs w.out = registers σ.server msg) (tr : History) :
    Move tr σ (σ.handled t th p w)
      (.command t th.sockfd (σ.connOn th.sockfd) line msg w.out) := by
  have hcount := H.connectionCount
  have hsame (c) :
      registered ((σ, .command t th.sockfd (σ.connOn th.sockfd) line msg w.out) :: tr) c =
        registered tr c := by
    rw [registered_command hout, hreg]
    split <;> rfl
  by_cases hquit : Chirc.command msg.cmd = .quit
  · refine .close th.sockfd (if_pos hquit) (by simp [Label.registersOn, hreg]) ?_ ?_
      (.inl ⟨if_pos hquit, ?_⟩) ?_ hsame
    · rw [Sys.handled_conns, if_pos ((H.closed_iff rfl).mpr hquit)]
    · rwa [Sys.handled_server]
    · rwa [Sys.handled_server]
    · rw [Sys.handled_server, hcount, if_pos hquit]
      rfl
  · refine .quiet (if_neg hquit) (by simp [Label.registersOn, hreg]) ?_ ?_ ?_ ?_ hsame
    · rw [Sys.handled_conns, if_neg (hquit ∘ (H.closed_iff rfl).mp)]
    · rwa [Sys.handled_server]
    · rwa [Sys.handled_server]
    · rw [Sys.handled_server, hcount, if_neg hquit]
      exact Int.sub_zero _

theorem Move.of_registers {σ : Sys} {th : Thread}
    (H : Handled ctx th.sockfd msg (th.work σ.server p) w)
    (hreg : registers σ.server msg = some nick)
    (hfresh : nick ∉ (bindings σ.server.connectionHash).map Prod.fst)
    (hbound : bindings w.srv.connectionHash =
      (nick, th.sockfd) :: bindings σ.server.connectionHash)
    (htags : w.srv.sockfdNickHash =
      addSockfdNickMapNode σ.server.sockfdNickHash ⟨th.sockfd, nick⟩)
    (hout : welcomedAs w.out = registers σ.server msg) (tr : History) :
    Move tr σ (σ.handled t th p w)
      (.command t th.sockfd (σ.connOn th.sockfd) line msg w.out) := by
  have hquit : Chirc.command msg.cmd ≠ .quit := fun hquit => by
    rw [registers_of_command hquit (by decide)] at hreg
    cases hreg
  refine .register th.sockfd nick (if_neg hquit) (by simp [Label.registersOn, hreg]) hreg ?_ hfresh
    ?_ ?_ ?_ (fun c hc => ?_) fun c hc => ?_
  · rw [Sys.handled_conns, if_neg (hquit ∘ (H.closed_iff rfl).mp)]
  · rwa [Sys.handled_server]
  · rwa [Sys.handled_server]
  · rw [Sys.handled_server, H.connectionCount, if_neg hquit]
    exact Int.sub_zero _
  · rw [registered_command hout, if_pos hc, hreg]
    rfl
  · rw [registered_command hout, if_neg hc]

theorem Step.move {σ σ' : Sys} {b : Board CStr Nat} (H : Step ctx σ l σ')
    (hb : Represents σ.server b) (tr : History) : Move tr σ σ' l := by
  cases H with
  | accept fd hfd =>
    exact .accept fd rfl rfl hfd rfl rfl rfl rfl fun c => registered_cons_of_nil rfl
  | recv t th c chunk th' =>
    exact .quiet rfl rfl rfl rfl rfl rfl fun c => registered_cons_of_nil rfl
  | blank t th p line => exact .quiet rfl rfl rfl rfl rfl rfl fun c => registered_cons_of_nil rfl
  | hangup t th =>
    exact .close th.sockfd rfl rfl rfl rfl (.inr ⟨rfl, rfl⟩) rfl fun c => registered_cons_of_nil rfl
  | command t th p line msg w hth hp hparses hw =>
    have hH := dispatch_handled hw
    have hbound := (hH.represents hb).bound
    cases hH.registration hb with
    | silent hreg htags hms =>
      have hmeets : b.meets (request msg) = none := hb.registers_eq.symm.trans hreg
      have hbound := hbound.trans ((Board.boundAfter_of_none hmeets).trans hb.bound.symm)
      exact .of_silent hH hreg hbound htags (welcomedAs_out hb hw) tr
    | welcomed nick w₁ stored hreg htags hms h =>
      have hmeets : b.meets (request msg) = some nick := hb.registers_eq.symm.trans hreg
      refine .of_registers hH hreg ?_ ?_ ?_ (welcomedAs_out hb hw) tr
      · rw [hb.bound]
        exact Board.not_mem_bound_of_meets hmeets
      · exact hbound.trans ((Board.boundAfter_of_some hmeets).trans (congrArg _ hb.bound.symm))
      · rw [h]
        exact congrArg (addSockfdNickMapNode · _) htags

/-- A step that does not register welcomes nobody. -/
theorem Step.welcomedAs_sentTo {σ σ' : Sys} {b : Board CStr Nat} (H : Step ctx σ l σ')
    (hb : Represents σ.server b) (hreg : l.registersOn σ = none) :
    welcomedAs (l.sentTo c) = none := by
  cases H with
  | command t th p line msg w hth hp hparses hw =>
    have hnone : registers σ.server msg = none := by simpa [Label.registersOn] using hreg
    rw [Label.sentTo]
    split
    · exact (welcomedAs_out hb hw).trans hnone
    · rfl
  | _ => rfl

/-- A step that registers welcomes the connection on the descriptor. -/
theorem Step.welcomedAs_registers {σ σ' : Sys} {b : Board CStr Nat} (H : Step ctx σ l σ')
    (hb : Represents σ.server b) (hreg : l.registersOn σ = some fd)
    (hname : l.registersAs σ = some nick) :
    welcomedAs (l.sentTo c) = if σ.connOn fd = some c then some nick else none := by
  cases H with
  | command t th p line msg w hth hp hparses hw =>
    have hname : registers σ.server msg = some nick := hname
    obtain rfl : th.sockfd = fd := by simpa [Label.registersOn, hname] using hreg
    rw [Label.sentTo]
    split
    · exact (welcomedAs_out hb hw).trans hname
    · rfl
  | _ => cases hreg

theorem Step.registeredItself_silent {σ σ' : Sys} {b : Board CStr Nat} (H : Step ctx σ l σ')
    (hb : Represents σ.server b) (hreg : l.registersOn σ = none) (tr : History) :
    registeredItself ((σ, l) :: tr) = registeredItself tr := by
  funext c
  rw [registeredItself, H.welcomedAs_sentTo hb hreg, ite_self, Option.none_or]

theorem Step.registeredItself_registers {σ σ' : Sys} {b : Board CStr Nat} (H : Step ctx σ l σ')
    (hb : Represents σ.server b) (hreg : l.registersOn σ = some fd)
    (hname : l.registersAs σ = some nick) (tr : History) (c : Nat) :
    registeredItself ((σ, l) :: tr) c =
      if l.sender tr σ = some c ∧ σ.connOn fd = some c then some nick
      else registeredItself tr c := by
  rw [registeredItself, H.welcomedAs_registers hb hreg hname]
  by_cases hsender : l.sender tr σ = some c
  · by_cases hc : σ.connOn fd = some c
    · simp only [hsender, hc, if_true, and_self, Option.some_or]
    · simp only [hc, and_false, if_false, ite_self, Option.none_or]
  · simp only [hsender, false_and, if_false, Option.none_or]

theorem Step.next_le {σ σ' : Sys} (H : Step ctx σ l σ') : σ.next ≤ σ'.next := by
  cases H with
  | accept => exact Nat.le_succ _
  | recv => exact Nat.le_refl _
  | blank => exact Nat.le_refl _
  | command => exact Nat.le_of_eq (Sys.handled_next σ).symm
  | hangup => exact Nat.le_refl _

/-- A connection that is still to come is not registered. -/
theorem Run.registered_next {σ : Sys} (hrun : Run ctx tr σ) : registered tr σ.next = none := by
  suffices ∀ c, σ.next ≤ c → registered tr c = none from this _ (Nat.le_refl _)
  refine TransitionSystem.Run.invariant (P := fun tr σ => ∀ c, σ.next ≤ c → registered tr c = none)
    (fun _ _ _ _ => rfl) ?_ hrun
  intro tr σ l σ' hrun hfresh hstep c hc
  obtain ⟨b, hb⟩ := Run.represents hrun
  have hc := Nat.le_trans (step_cases hstep).next_le hc
  cases (step_cases hstep).move hb tr with
  | quiet _ _ _ _ _ _ hregistered => rw [hregistered, hfresh c hc]
  | accept fd _ _ _ _ _ _ _ hregistered => rw [hregistered, hfresh c hc]
  | register fd nick _ _ _ _ _ _ _ _ _ hothers =>
    rw [hothers c fun hon => Nat.not_lt.mpr hc ((Run.wf hrun).connOn_lt hon), hfresh c hc]
  | close fd _ _ _ _ _ _ hregistered => rw [hregistered, hfresh c hc]

theorem Sys.connOn_congr {σ σ' : Sys} (h : σ'.conns = σ.conns) : σ'.connOn = σ.connOn := by
  funext fd
  rw [connOn, connOn, h]

end Chirc
