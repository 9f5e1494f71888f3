import Chirc.Verify.Addressing
import Chirc.Verify.Room

/-! # Commands that are not known

The last two tests of the chain compare the first four bytes, so that the words which begin with
NICK or USER do not reach the branch for unknown commands. That branch takes a descriptor with an
entry in `sockfd_nick_hash` for a registered client, and the entries of closed connections stay. -/

namespace Chirc

/-- The words that `subthread_work` compares with, whole or as a prefix. -/
def keywords : List CStr :=
  [lit "PING", lit "PONG", lit "QUIT", lit "LUSERS", lit "MOTD", lit "WHOIS", lit "PRIVMSG",
    lit "NICK", lit "USER"]

/-- Only the tests for NICK and USER take a word that is not on the list. -/
theorem command_of_not_keyword (h : cmd ∉ keywords) : command cmd =
    if lit "NICK" <+: cmd then .nick else if lit "USER" <+: cmd then .user else .unknown := by
  simp only [keywords, List.mem_cons, List.not_mem_nil, or_false, not_or] at h
  obtain ⟨hping, hpong, hquit, hlusers, hmotd, hwhois, hprivmsg, -⟩ := h
  rw [command, if_neg hping, if_neg hpong, if_neg hquit, if_neg hlusers, if_neg hmotd,
    if_neg hwhois, if_neg hprivmsg]

theorem command_cases (h : cmd ∉ keywords) :
    command cmd = .nick ∨ command cmd = .user ∨ command cmd = .unknown := by
  rw [command_of_not_keyword h]
  split
  · exact .inl rfl
  · split
    · exact .inr (.inl rfl)
    · exact .inr (.inr rfl)

/-- The nick of the connection that sent the next line of thread `t`, if it is registered. -/
def senderNick (tr : History) (σ : Sys) (t : Nat) : Option CStr :=
  (senderOf tr σ t).bind (registered tr)

/-- The four tables are the same. -/
structure SameTables (srv srv' : Server) : Prop where
  nickHead : srv'.nickHead = srv.nickHead
  userHead : srv'.userHead = srv.userHead
  connectionHash : srv'.connectionHash = srv.connectionHash
  sockfdNickHash : srv'.sockfdNickHash = srv.sockfdNickHash

theorem SameTables.refl (srv : Server) : SameTables srv srv := ⟨rfl, rfl, rfl, rfl⟩

/-- The answer to a registered sender is one ERR_UNKNOWNCOMMAND that names the word, and that to
others is nothing. -/
def UnknownAnswer (sender : Option CStr) (word : CStr) (out : List Message) : Prop :=
  match sender with
  | none => out = []
  | some _ => ∃ m, out = [m] ∧ m.cmd = errUnknowncommand ∧ m.params[1]? = some word

theorem UnknownAnswer.nil_iff : UnknownAnswer sender word [] ↔ sender = none := by
  cases sender with
  | none => exact iff_of_true rfl rfl
  | some nick =>
    refine iff_of_false ?_ (by simp)
    intro h
    obtain ⟨m, hm, -⟩ := h
    cases hm

theorem UnknownAnswer.reply_iff {text : CStr} :
    UnknownAnswer sender word [reply ctx nick errUnknowncommand [(word, true), (text, true)]] ↔
      sender ≠ none := by
  cases sender with
  | none => exact iff_of_false (by simp [UnknownAnswer]) (by simp)
  | some nick => exact iff_of_true ⟨_, rfl, rfl, by simp⟩ (by simp)

theorem not_unknownAnswer (hcode : code ≠ errUnknowncommand) :
    ¬ UnknownAnswer sender word [reply ctx nick code ps] := by
  cases sender with
  | none =>
    intro h
    cases h
  | some nick =>
    intro h
    obtain ⟨m, hm, hcmd, -⟩ := h
    cases hm
    exact hcode hcmd

/-- The descriptor is open to a registered sender. -/
def ReachesSender (tr : History) (σ : Sys) (t fd : Nat) : Prop :=
  senderNick tr σ t ≠ none → senderOf tr σ t = σ.connOn fd

instance : Decidable (ReachesSender tr σ t fd) := inferInstanceAs (Decidable (_ → _))

/-- The step of thread `t`, on the line with the message, changes none of the tables and answers
the sender. -/
def AnswersUnknown (ctx : Ctx) (tr : History) (σ : Sys) (t : Nat) (th : Thread) (line : CStr)
    (msg : Message) : Prop :=
  ∃ σ' out,
    step ctx σ (.line t) = .ok (σ', .command t th.sockfd (σ.connOn th.sockfd) line msg out) ∧
    SameTables σ.server σ'.server ∧ UnknownAnswer (senderNick tr σ t) msg.cmd out ∧
    ReachesSender tr σ t th.sockfd

/-- Which words are handled as unknown commands, the last argument being the nick of the sender if
it is registered. Words that begin with NICK or USER are, if the sender is not registered, when the
branches for these commands do nothing. -/
inductive TakenAsUnknown (ctx : Ctx) (srv : Server) (fd : Nat) (msg : Message) :
    Option CStr → Prop
  | registered (nick node) : command msg.cmd = .unknown →
    findSockfdNickMapNode srv.sockfdNickHash fd = some node →
    ctx.servername.length + node.name.length + msg.cmd.length ≤ 997 →
    TakenAsUnknown ctx srv fd msg (some nick)
  | unregistered : command msg.cmd = .unknown →
    findSockfdNickMapNode srv.sockfdNickHash fd = none → TakenAsUnknown ctx srv fd msg none
  | nickIgnored : command msg.cmd = .nick → 2 ≤ msg.params.length →
    TakenAsUnknown ctx srv fd msg none
  | nickKnown (nick node) : command msg.cmd = .nick → msg.params = [nick] →
    findConnectionMapNode srv.connectionHash nick = none →
    findUserNode srv.nickHead nick = some node → TakenAsUnknown ctx srv fd msg none
  | userKnown (user node) : command msg.cmd = .user → msg.params.head? = some user →
    4 ≤ msg.params.length → findUserNode srv.userHead user = some node →
    TakenAsUnknown ctx srv fd msg none

theorem answersUnknown_eq {σ : Sys} (h : σ.Handling t th p line msg) :
    AnswersUnknown ctx tr σ t th line msg ↔
      ∃ w, dispatch ctx th.sockfd msg (th.work σ.server p) = .ok w ∧
        SameTables σ.server w.srv ∧ UnknownAnswer (senderNick tr σ t) msg.cmd w.out ∧
        ReachesSender tr σ t th.sockfd := by
  constructor
  · intro hanswers
    obtain ⟨σ', out, hstep, htables, hanswer⟩ := hanswers
    obtain ⟨w, hw, rfl, hl⟩ := h.step_eq_ok.mp hstep
    cases hl
    rw [Sys.handled_server] at htables
    exact ⟨w, hw, htables, hanswer⟩
  · intro hanswers
    obtain ⟨w, hw, htables, hanswer⟩ := hanswers
    refine ⟨_, _, h.step_eq_ok.mpr ⟨w, hw, rfl, rfl⟩, ?_, hanswer⟩
    rw [Sys.handled_server]
    exact htables

/-- The lists of names do not lose the node that they get. -/
theorem addUserNode_ne {nodes : List UserNode} : addUserNode nodes node ≠ nodes := by
  intro h
  have := congrArg List.length h
  simp [addUserNode] at this

/-- What a handler does that leaves the tables alone and answers as to an unknown command. -/
theorem Handled.takenAsUnknown {w w' : Work} {sender : Option CStr}
    (H : Handled ctx fd msg w w') (hw : dispatch ctx fd msg w = .ok w') (hout : w.out = [])
    (hword : msg.cmd ∉ keywords) (htables : SameTables w.srv w'.srv)
    (hanswer : UnknownAnswer sender msg.cmd w'.out) : TakenAsUnknown ctx w.srv fd msg sender := by
  have hother {c : Command} (hcmd : command msg.cmd = c)
      (hc : c ≠ .nick ∧ c ≠ .user ∧ c ≠ .unknown) : False := by
    rcases command_cases hword with h | h | h
    · exact hc.1 (hcmd.symm.trans h)
    · exact hc.2.1 (hcmd.symm.trans h)
    · exact hc.2.2 (hcmd.symm.trans h)
  have hsilent (h : w'.out = []) : sender = none := by
    rw [h] at hanswer
    exact UnknownAnswer.nil_iff.mp hanswer
  have hcomplains {nick code ps} (h : w'.out = w.out ++ [reply ctx nick code ps])
      (hcode : code ≠ errUnknowncommand) : False := by
    rw [h, hout] at hanswer
    exact not_unknownAnswer hcode hanswer
  cases H with
  | nickMissing => exact (hcomplains rfl (by decide)).elim
  | nickInUse => exact (hcomplains rfl (by decide)).elim
  | nickKnown nick node hcmd hparams hnode hnick =>
    rw [hsilent hout]
    exact .nickKnown nick node hcmd hparams hnode hnick
  | nickPosted => exact absurd htables.nickHead addUserNode_ne
  | nickRegisters => exact absurd htables.nickHead addUserNode_ne
  | nickIgnored hcmd hlen =>
    rw [hsilent hout]
    exact .nickIgnored hcmd hlen
  | userMissing => exact (hcomplains rfl (by decide)).elim
  | userKnown user node hcmd hname hlen huser =>
    rw [hsilent hout]
    exact .userKnown user node hcmd hname hlen huser
  | userPosted => exact absurd htables.userHead addUserNode_ne
  | userRegisters => exact absurd htables.userHead addUserNode_ne
  | unknownIgnored hcmd hnode =>
    rw [hsilent hout]
    exact .unregistered hcmd hnode
  | unknown node hcmd hnode =>
    obtain ⟨hfits, -⟩ := (dispatch_unknown hcmd hnode).mp hw
    cases sender with
    | none =>
      rw [Work.send_out, hout] at hanswer
      cases hanswer
    | some nick => exact .registered nick node hcmd hnode hfits
  | ping hcmd => exact (hother hcmd (by decide)).elim
  | pong hcmd => exact (hother hcmd (by decide)).elim
  | quit text hcmd => exact (hother hcmd (by decide)).elim
  | lusers hcmd => exact (hother hcmd (by decide)).elim
  | motd hcmd => exact (hother hcmd (by decide)).elim
  | whoisIgnored hcmd => exact (hother hcmd (by decide)).elim
  | whoisAbsent nick asker hcmd => exact (hother hcmd (by decide)).elim
  | whoisFound nick asker node userMsg hcmd => exact (hother hcmd (by decide)).elim
  | privmsgFound name node hcmd => exact (hother hcmd (by decide)).elim
  | privmsgAbsent name hcmd => exact (hother hcmd (by decide)).elim

/-- Each of these words is handled as an unknown command. -/
theorem TakenAsUnknown.answers {w : Work} {sender : Option CStr} (hout : w.out = [])
    (H : TakenAsUnknown ctx w.srv fd msg sender) : ∃ w', dispatch ctx fd msg w = .ok w' ∧
      SameTables w.srv w'.srv ∧ UnknownAnswer sender msg.cmd w'.out := by
  have hnothing : UnknownAnswer none msg.cmd w.out := hout
  cases H with
  | registered nick node hcmd hnode hfits =>
    refine ⟨_, (dispatch_unknown hcmd hnode).mpr ⟨hfits, rfl⟩, .refl _, ?_⟩
    rw [Work.send_out, hout]
    exact UnknownAnswer.reply_iff.mpr (by simp)
  | unregistered hcmd hnode =>
    exact ⟨w, dispatch_unknown_ignored hcmd hnode, .refl _, hnothing⟩
  | nickIgnored hcmd hlen =>
    exact ⟨_, dispatch_nick_ignored hcmd hlen, ⟨rfl, rfl, rfl, rfl⟩, hnothing⟩
  | nickKnown nick node hcmd hparams hnode hnick =>
    exact ⟨_, dispatch_nick_known hcmd hparams hnode hnick, ⟨rfl, rfl, rfl, rfl⟩, hnothing⟩
  | userKnown user node hcmd hname hlen huser =>
    exact ⟨w, dispatch_user_known hcmd hname hlen huser, .refl _, hnothing⟩

/-- **Unknown commands change nothing and are answered if the sender is registered** exactly for
the words that are taken as such, as long as the descriptor is still that of the sender. -/
theorem answersUnknown_iff {σ : Sys} (h : σ.Handling t th p line msg) (hword : msg.cmd ∉ keywords) :
    AnswersUnknown ctx tr σ t th line msg ↔
      TakenAsUnknown ctx σ.server th.sockfd msg (senderNick tr σ t) ∧
        ReachesSender tr σ t th.sockfd := by
  rw [answersUnknown_eq h]
  constructor
  · intro hanswers
    obtain ⟨w, hw, htables, hanswer, hreaches⟩ := hanswers
    exact ⟨(dispatch_handled hw).takenAsUnknown hw rfl hword htables hanswer, hreaches⟩
  · intro H
    obtain ⟨w, hw, htables, hanswer⟩ := TakenAsUnknown.answers (w := th.work σ.server p) rfl H.1
    exact ⟨w, hw, htables, hanswer, H.2⟩

/-- A registered client and its command. -/
def amySends (line : String) : List Event := registerAmy ++ [.recv 0 (lit line)]

theorem answersUnknown_foo : ∃ tr σ th p line msg, Run plainServer tr σ ∧
    σ.Handling 0 th p line msg ∧ msg.cmd ∉ keywords ∧
    senderNick tr σ 0 = some (lit "amy") ∧
    AnswersUnknown plainServer tr σ 0 th line msg := by
  obtain ⟨tr, σ, th, p, line, msg, hrun, h, hf⟩ := handling_of_playsToLine plainServer
    (amySends "FOO\r\n") 0 (fun tr σ th _ msg => senderNick tr σ 0 = some (lit "amy") ∧
      ReachesSender tr σ 0 th.sockfd ∧
      findSockfdNickMapNode σ.server.sockfdNickHash th.sockfd = some ⟨4, lit "amy"⟩ ∧
      command msg.cmd = .unknown ∧ msg.cmd = lit "FOO") (by decide +kernel)
  obtain ⟨hsender, hreaches, hnode, hcmd, hfoo⟩ := of_decide_eq_true hf
  have hword : msg.cmd ∉ keywords := by
    rw [hfoo]
    decide
  refine ⟨tr, σ, th, p, line, msg, hrun, h, hword, hsender,
    (answersUnknown_iff h hword).mpr ⟨?_, hreaches⟩⟩
  rw [hsender]
  refine .registered (lit "amy") _ hcmd hnode ?_
  rw [hfoo]
  decide

/-- A registered client sends a longer word, which is taken for a NICK. -/
theorem answersUnknown_nickname : ∃ tr σ th p line msg, Run plainServer tr σ ∧
    σ.Handling 0 th p line msg ∧ msg.cmd = lit "NICKNAME" ∧ msg.cmd ∉ keywords ∧
    senderNick tr σ 0 = some (lit "amy") ∧
    ¬ AnswersUnknown plainServer tr σ 0 th line msg := by
  obtain ⟨tr, σ, th, p, line, msg, hrun, h, hf⟩ := handling_of_playsToLine plainServer
    (amySends "NICKNAME bob\r\n") 0 (fun tr σ th p msg => msg.cmd = lit "NICKNAME" ∧
      senderNick tr σ 0 = some (lit "amy") ∧
      ∀ w ∈ (dispatch plainServer th.sockfd msg (th.work σ.server p)).toOption, w.out = [])
    (by decide +kernel)
  obtain ⟨hcmd, hsender, hsilent⟩ := of_decide_eq_true hf
  have hword : msg.cmd ∉ keywords := by
    rw [hcmd]
    decide
  refine ⟨tr, σ, th, p, line, msg, hrun, h, hcmd, hword, hsender, ?_⟩
  rw [answersUnknown_eq h, hsender]
  intro hanswers
  obtain ⟨w, hw, -, hanswer, -⟩ := hanswers
  rw [hsilent w (by rw [hw]; rfl)] at hanswer
  cases UnknownAnswer.nil_iff.mp hanswer

end Chirc
