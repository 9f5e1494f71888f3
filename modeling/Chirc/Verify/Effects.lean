import Chirc.Verify.Registry

/-! # Replies, counters and buffers

What `Handled` says about the parts of the state that the board leaves out: the counter of
connections, the nodes of `sockfd_nick_hash`, whom the replies are addressed to, and when a
handler overwrites the buffer of its thread. -/

namespace Chirc

open Rendezvous

/-! ## Closing -/

theorem Handled.closed_iff (H : Handled ctx fd msg w w') (hopen : w.closed = false) :
    w'.closed = true ↔ command msg.cmd = .quit := by
  cases H <;> simp [*, Work.complain, Work.registered]

theorem Handled.connectionCount (H : Handled ctx fd msg w w') :
    w'.srv.connectionCount =
      w.srv.connectionCount - (if command msg.cmd = .quit then 1 else 0) := by
  cases H <;> simp [*, Work.complain, Work.registered, Server.uncount, Server.mask, Server.bind,
    Server.addNick, Server.addUser, Server.freeMsg]

/-! ## Addressees -/

/-- All bytes are decimal digits. -/
def Digits (s : CStr) : Prop := ∀ b ∈ s, 48 ≤ b ∧ b ≤ 57

instance : Decidable (Digits s) := List.decidableBAll _ s

/-- The command of the message is a number. -/
def Message.Numeric (m : Message) : Prop := Digits m.cmd

instance : Decidable (Message.Numeric m) := inferInstanceAs (Decidable (Digits m.cmd))

/-- A reply other than the welcome, addressed to `nick` if it is numeric. -/
structure Addressed (nick : CStr) (m : Message) : Prop where
  cmd_ne : m.cmd ≠ rplWelcome
  head : m.Numeric → m.params.head? = some nick

theorem reply_addressed (hcode : code ≠ rplWelcome) : Addressed nick (reply ctx nick code ps) :=
  ⟨hcode, fun _ => rfl⟩

theorem forall_mem_reply (hcode : code ≠ rplWelcome) :
    ∀ m ∈ [reply ctx nick code ps], Addressed nick m := by
  simpa using reply_addressed hcode

theorem plain_addressed (hcmd : cmd ≠ rplWelcome) (hnum : ¬ Digits cmd) :
    Addressed nick (plain cmd ps) :=
  ⟨hcmd, fun h => absurd h hnum⟩

theorem lusers_addressed (h : m ∈ Server.lusers ctx nick srv) : Addressed nick m := by
  simp only [Server.lusers, lusersReplies, List.mem_cons, List.not_mem_nil, or_false] at h
  rcases h with rfl | rfl | rfl | rfl | rfl <;> exact reply_addressed (by decide)

theorem motdReplies_addressed (h : m ∈ motdReplies ctx nick expectMotd) : Addressed nick m := by
  rw [motdReplies] at h
  split at h
  · rw [List.mem_singleton.mp h]
    exact reply_addressed (by decide)
  · simp only [List.mem_append, List.mem_cons, motdLines, List.mem_map, List.not_mem_nil,
      or_false] at h
    rcases h with (rfl | ⟨_, -, rfl⟩) | rfl <;> exact reply_addressed (by decide)

theorem whoisReplies_addressed (h : m ∈ whoisReplies ctx asker nick userMsg) :
    Addressed asker m := by
  simp only [whoisReplies, List.mem_cons, List.not_mem_nil, or_false] at h
  rcases h with rfl | rfl | rfl <;> exact reply_addressed (by decide)

theorem briefing_addressed (h : m ∈ briefing ctx srv nick) : Addressed nick m := by
  simp only [briefing, List.mem_append, List.mem_cons, List.not_mem_nil, or_false] at h
  rcases h with ((rfl | rfl | rfl) | h) | h
  · exact reply_addressed (by decide)
  · exact reply_addressed (by decide)
  · exact reply_addressed (by decide)
  · exact lusers_addressed h
  · exact motdReplies_addressed h

/-- The nick to which the replies to a message are addressed, unless it registers its
connection. -/
def addressee (srv : Server) (fd : Nat) (msg : Message) : CStr :=
  match command msg.cmd with
  | .privmsg => leastNick srv
  | .nick => if msg.params = [] then leastNick srv else lit "*"
  | .user => leastNick srv
  | _ => sockfdNick srv fd

/-! ## Registrations -/

theorem registers_of_idle (h : request msg = .idle) : registers srv msg = none := by
  rw [registers, h]

theorem registers_of_command {c : Command} (hcmd : command msg.cmd = c)
    (h : c ≠ .nick ∧ c ≠ .user) : registers srv msg = none :=
  registers_of_idle (request_of_command hcmd h)

/-- A message either registers its connection, with all that this brings with it, or leaves
`sockfd_nick_hash` alone and sends no welcome. -/
inductive Registration (ctx : Ctx) (fd : Nat) (msg : Message) (w w' : Work) : Prop
  | silent : registers w.srv msg = none → w'.srv.sockfdNickHash = w.srv.sockfdNickHash →
    (∀ m ∈ w'.out, m ∈ w.out ∨ Addressed (addressee w.srv fd msg) m) →
    Registration ctx fd msg w w'
  | welcomed (nick : CStr) (w₁ : Work) (stored : Message) : registers w.srv msg = some nick →
    w₁.srv.sockfdNickHash = w.srv.sockfdNickHash → w₁.out = w.out →
    w' = w₁.registered ctx fd nick nick stored → Registration ctx fd msg w w'

namespace Registration
variable {w w' : Work} (hreg : registers w.srv msg = none)
include hreg

theorem of_silent (htags : w'.srv.sockfdNickHash = w.srv.sockfdNickHash) (hout : w'.out = w.out) :
    Registration ctx fd msg w w' :=
  .silent hreg htags fun _ hm => .inl (hout ▸ hm)

theorem of_sent (haddr : addressee w.srv fd msg = nick)
    (htags : w'.srv.sockfdNickHash = w.srv.sockfdNickHash) (hout : w'.out = w.out ++ ms)
    (hms : ∀ m ∈ ms, Addressed nick m) : Registration ctx fd msg w w' := by
  refine .silent hreg htags fun m hm => ?_
  rw [hout] at hm
  exact (List.mem_append.mp hm).imp_right fun hm => haddr ▸ hms m hm

end Registration

theorem registers_of_known (hreq : request msg = .left nick)
    (hnick : findUserNode srv.nickHead nick ≠ none) : registers srv msg = none := by
  simp [registers, hreq, hnick]

theorem Handled.registration {b : Board CStr Nat} (H : Handled ctx fd msg w w')
    (hb : Represents w.srv b) : Registration ctx fd msg w w' := by
  cases H with
  | ping hcmd =>
    refine .of_sent (registers_of_command hcmd (by decide)) rfl rfl rfl ?_
    simpa using plain_addressed (by decide) (by decide)
  | quit text hcmd =>
    refine .of_sent (registers_of_command hcmd (by decide)) rfl rfl rfl ?_
    simpa using plain_addressed (by decide) (by decide)
  | lusers hcmd =>
    exact .of_sent (registers_of_command hcmd (by decide)) (by simp [addressee, hcmd]) rfl rfl
      fun _ => lusers_addressed
  | motd hcmd =>
    exact .of_sent (registers_of_command hcmd (by decide)) (by simp [addressee, hcmd]) rfl rfl
      fun _ => motdReplies_addressed
  | whoisAbsent nick asker hcmd hparams hasker =>
    exact .of_sent (registers_of_command hcmd (by decide))
      (by simp [addressee, hcmd, sockfdNick, hasker]) rfl rfl
      (forall_mem_reply (by decide))
  | whoisFound nick asker node userMsg hcmd hparams hasker =>
    exact .of_sent (registers_of_command hcmd (by decide))
      (by simp [addressee, hcmd, sockfdNick, hasker]) rfl rfl
      fun _ => whoisReplies_addressed
  | privmsgAbsent name hcmd =>
    exact .of_sent (registers_of_command hcmd (by decide)) (by simp [addressee, hcmd]) rfl rfl
      (forall_mem_reply (by decide))
  | nickMissing hcmd hparams =>
    exact .of_sent (registers_of_idle (request_eq_idle (by simp [hparams]) (by simp [hcmd])))
      (by simp [addressee, hcmd, hparams]) rfl rfl (forall_mem_reply (by decide))
  | nickInUse nick node hcmd hparams hnode =>
    have hfound : findConnectionMapNode w.srv.connectionHash nick ≠ none := by simp [hnode]
    have hnick := hb.nick_mem_iff.mp (hb.mem_left_of_found hfound)
    exact .of_sent (registers_of_known (request_nick hcmd hparams) hnick)
      (by simp [addressee, hcmd, hparams]) rfl rfl (forall_mem_reply (by decide))
  | nickKnown nick node hcmd hparams hnode hnick =>
    exact .of_silent (registers_of_known (request_nick hcmd hparams) (by simp [hnick])) rfl rfl
  | nickPosted nick hcmd hparams hnode hnick huser =>
    exact .of_silent (by simp [registers, request_nick hcmd hparams, huser]) rfl rfl
  | nickRegisters nick node user hcmd hparams hnode hnick huser =>
    refine .welcomed nick (w.update (w.srv.mask.addNick nick)) (storedMessage user.cmd user.params)
      ?_ rfl rfl rfl
    simp [registers, request_nick hcmd hparams, hnick, huser]
  | nickIgnored hcmd hlen =>
    exact .of_silent (registers_of_idle (request_eq_idle (fun _ => by omega) (by simp [hcmd]))) rfl
      rfl
  | userMissing name hcmd hname hlen =>
    exact .of_sent (registers_of_idle (request_eq_idle (by simp [hcmd]) fun _ => hlen))
      (by simp [addressee, hcmd]) rfl rfl (forall_mem_reply (by decide))
  | userKnown name node hcmd hname hlen huser =>
    exact .of_silent (by simp [registers, request_user hcmd hname hlen, huser]) rfl rfl
  | userPosted name hcmd hname hlen hstored huser hnick =>
    refine .of_silent ?_ rfl rfl
    rcases hnick with hnick | hfour
    · simp [registers, request_user hcmd hname hlen, hnick]
    · simp [registers, request_user hcmd hname hlen, hfour]
  | userRegisters name node hcmd hname hlen hstored huser hnick =>
    refine .welcomed name (w.update (w.srv.addUser name (storedMessage msg.cmd msg.params))) _ ?_
      rfl rfl rfl
    simp [registers, request_user hcmd hname (by omega), hlen, hnick, huser]
  | unknown node hcmd hnode =>
    exact .of_sent (registers_of_command hcmd (by decide))
      (by simp [addressee, hcmd, sockfdNick, hnode]) rfl rfl
      (forall_mem_reply (by decide))
  | _ =>
    -- neither a NICK nor a USER, and no reply
    exact .of_silent (registers_of_idle (request_eq_idle (by simp [*]) (by simp [*]))) rfl rfl

/-! ## The buffer of the thread -/

/-- The message is for a branch, other than that of QUIT, whose handler prints into `buf`. -/
def scribbles (srv : Server) (msg : Message) : Bool :=
  match command msg.cmd with
  | .privmsg =>
    msg.params.head?.any fun name => findConnectionMapNode srv.connectionHash name = none
  | .nick => msg.params = [] ∨ (registers srv msg).isSome ∨
    (nickParam msg).any fun nick => findConnectionMapNode srv.connectionHash nick ≠ none
  | .user => msg.params.length < 4 ∨ (registers srv msg).isSome
  | _ => false

/-- What the handlers other than QUIT leave in `buf`: a short text without a newline. -/
def Scribble (text : CStr) : Prop := LF ∉ text ∧ NUL ∉ text ∧ text.length ≤ 33

instance : Decidable (Scribble text) := inferInstanceAs (Decidable (_ ∧ _))

@[simp] theorem Work.complain_buf (w : Work) : (w.complain ctx nick code ps text).buf = text := rfl

theorem Work.registered_scribble (w : Work) :
    Scribble (w.registered ctx fd nick user stored).buf := by
  change Scribble (lit "This server was created 20240701")
  decide

/-- After a message other than QUIT the buffer is as it was, or a handler printed into it. -/
theorem Handled.buf (H : Handled ctx fd msg w w') (hquit : command msg.cmd ≠ .quit) :
    w'.buf = w.buf ∨ scribbles w.srv msg = true ∧ Scribble w'.buf := by
  cases H with
  | quit text hcmd => exact absurd hcmd hquit
  | privmsgAbsent name hcmd hname hnode =>
    rw [Work.complain_buf]
    exact .inr ⟨by simp [scribbles, hcmd, hname, hnode], by decide⟩
  | nickMissing hcmd hparams =>
    rw [Work.complain_buf]
    exact .inr ⟨by simp [scribbles, hcmd, hparams], by decide⟩
  | nickInUse nick node hcmd hparams hnode =>
    rw [Work.complain_buf]
    exact .inr ⟨by simp [scribbles, nickParam, hcmd, hparams, hnode], by decide⟩
  | nickRegisters nick node user hcmd hparams hnode hnick huser =>
    refine .inr ⟨?_, Work.registered_scribble _⟩
    simp [scribbles, hcmd, registers, request_nick hcmd hparams, hnick, huser]
  | userMissing name hcmd hname hlen =>
    rw [Work.complain_buf]
    exact .inr ⟨by simp [scribbles, hcmd, hlen], by decide⟩
  | userRegisters name node hcmd hname hlen hstored huser hnick =>
    refine .inr ⟨?_, Work.registered_scribble _⟩
    simp [scribbles, hcmd, registers, request_user hcmd hname (by omega), hlen, hnick, huser]
  | _ => exact .inl rfl

end Chirc
