import Chirc.Verify.Faults
import Chirc.Verify.Lengths
import Chirc.Verify.Spelling

/-! # When there is room for the replies

The handlers print into buffers of 1024 bytes and do not look at the lengths of what they quote.
For each of them the inputs for which it succeeds, and from this the commands whose replies
overflow a buffer. -/

namespace Chirc

/-! ## Each command -/

section
variable {ctx : Ctx} {fd : Nat} {msg : Message} {w w' : Work}

theorem dispatch_privmsg_found (hcmd : command msg.cmd = .privmsg)
    (hname : msg.params.head? = some name)
    (hnode : findConnectionMapNode w.srv.connectionHash name = some node) :
    dispatch ctx fd msg w = .ok w := by
  rw [dispatch, hcmd]
  simp only [onPrivmsg, firstParam_eq_ok.mpr hname, Res.ok_bind, hnode, Res.pure_eq]

theorem dispatch_privmsg_absent (hcmd : command msg.cmd = .privmsg)
    (hname : msg.params.head? = some name)
    (hnode : findConnectionMapNode w.srv.connectionHash name = none) :
    dispatch ctx fd msg w = .ok w' ↔
      ctx.servername.length + (leastNick w.srv).length ≤ 990 ∧
        w' = w.complain ctx (leastNick w.srv) errNotregistered []
          (lit "You have not registered") := by
  rw [dispatch, hcmd]
  simp only [onPrivmsg, firstParam_eq_ok.mpr hname, Res.ok_bind, hnode]
  rw [complain_eq_ok leastNick, ← notregistered_fits_iff]
  rfl

theorem dispatch_nick_missing (hcmd : command msg.cmd = .nick) (hparams : msg.params = []) :
    dispatch ctx fd msg w = .ok w' ↔ (reply ctx (leastNick w.srv) errNonicknamegiven
        [(lit "No nickname given", true)]).Fits ∧
      w' = (w.update w.srv.mask).complain ctx (leastNick w.srv) errNonicknamegiven []
        (lit "No nickname given") := by
  rw [dispatch, hcmd]
  simp only [onNick, hparams]
  exact complain_eq_ok leastNick

theorem dispatch_nick_used (hcmd : command msg.cmd = .nick) (hparams : msg.params = [nick])
    (hnode : findConnectionMapNode w.srv.connectionHash nick = some node) :
    dispatch ctx fd msg w = .ok w' ↔ ctx.servername.length + nick.length ≤ 985 ∧
      w' = (w.update w.srv.mask).complain ctx (lit "*") errNicknameinuse [(nick, false)]
        (lit "Nickname is already in use") := by
  rw [dispatch, hcmd, ← nicknameinuse_fits_iff]
  simp only [onNick, hparams, hnode]
  exact complain_eq_ok fun _ => lit "*"

theorem dispatch_nick_known (hcmd : command msg.cmd = .nick) (hparams : msg.params = [nick])
    (hnode : findConnectionMapNode w.srv.connectionHash nick = none)
    (hnick : findUserNode w.srv.nickHead nick = some node) :
    dispatch ctx fd msg w = .ok (w.update w.srv.mask) := by
  rw [dispatch, hcmd]
  simp only [onNick, hparams, hnode, hnick]
  rfl

/-- A nick that is free is stored if it fits into its node, and if there is room for the welcome
of the client when the nick is also a user name. -/
theorem dispatch_nick_free (hcmd : command msg.cmd = .nick) (hparams : msg.params = [nick])
    (hnode : findConnectionMapNode w.srv.connectionHash nick = none)
    (hnick : findUserNode w.srv.nickHead nick = none) (H : w.srv.UsersStored) :
    (∃ w', dispatch ctx fd msg w = .ok w') ↔ nick.length < 128 ∧
      (findUserNode w.srv.userHead nick ≠ none →
        2 * ctx.servername.length + 3 * nick.length ≤ 973) := by
  rw [dispatch, hcmd]
  cases huser : findUserNode w.srv.userHead nick with
  | none =>
    simp only [onNick, hparams, hnode, hnick, Except.bind_eq_ok, copyName_eq_ok, and_assoc,
      exists_and_left, exists_eq_left, huser, ne_eq, not_true_eq_false, IsEmpty.forall_iff,
      and_true, Res.pure_eq, Except.ok.injEq, exists_eq']
  | some node =>
    obtain ⟨user, hmsg, hle⟩ := H node (List.mem_of_find?_eq_some huser)
    simp only
    rw [onNick_registers hparams hnode hnick huser hmsg hle, registrationFits_iff,
      registrationReplies_fits_iff]
    simp only [hparams, List.length_singleton, ne_eq, reduceCtorEq, not_false_eq_true,
      forall_const]
    omega

theorem dispatch_nick_ignored (hcmd : command msg.cmd = .nick) (hlen : 2 ≤ msg.params.length) :
    dispatch ctx fd msg w = .ok (w.update w.srv.mask) := by
  rw [dispatch, hcmd]
  rcases hparams : msg.params with _ | ⟨p, _ | ⟨q, ps⟩⟩
  · rw [hparams] at hlen
    exact absurd hlen (by decide)
  · rw [hparams] at hlen
    exact absurd hlen (Nat.not_succ_le_self 1)
  · simp only [onNick, hparams]
    rfl

theorem dispatch_user_known (hcmd : command msg.cmd = .user) (hname : msg.params.head? = some user)
    (hlen : 4 ≤ msg.params.length) (huser : findUserNode w.srv.userHead user = some node) :
    dispatch ctx fd msg w = .ok w := by
  rw [dispatch, hcmd]
  simp only [onUser, firstParam_eq_ok.mpr hname, Res.ok_bind, Nat.not_lt.mpr hlen, if_false, huser,
    Res.pure_eq]

theorem dispatch_unknown_ignored (hcmd : command msg.cmd = .unknown)
    (hnode : findSockfdNickMapNode w.srv.sockfdNickHash fd = none) :
    dispatch ctx fd msg w = .ok w := by
  rw [dispatch, hcmd]
  simp only [onUnknown, hnode]

theorem dispatch_unknown (hcmd : command msg.cmd = .unknown)
    (hnode : findSockfdNickMapNode w.srv.sockfdNickHash fd = some node) :
    dispatch ctx fd msg w = .ok w' ↔
      ctx.servername.length + node.name.length + msg.cmd.length ≤ 997 ∧
      w' = w.send [reply ctx node.name errUnknowncommand
        [(msg.cmd, true), (lit "Unknown command", true)]] := by
  rw [dispatch, hcmd, ← unknown_fits_iff]
  simp only [onUnknown, hnode]
  exact writeReply_user_eq_ok

theorem dispatch_user_missing (hcmd : command msg.cmd = .user)
    (hname : msg.params.head? = some user) (hlen : msg.params.length < 4) :
    dispatch ctx fd msg w = .ok w' ↔ (reply ctx (leastNick w.srv) errNeedmoreparams
        [(lit "USER", false), (lit "Not enough parameters", true)]).Fits ∧
      w' = w.complain ctx (leastNick w.srv) errNeedmoreparams [(lit "USER", false)]
        (lit "Not enough parameters") := by
  rw [dispatch, hcmd]
  simp only [onUser, firstParam_eq_ok.mpr hname, Res.ok_bind, hlen, if_true]
  exact complain_eq_ok leastNick

/-- A user name that is free is stored under the same conditions as a nick, but the client is
registered only by a USER with four parameters. -/
theorem dispatch_user_free (hcmd : command msg.cmd = .user) (hname : msg.params.head? = some user)
    (hlen : 4 ≤ msg.params.length) (hle : msg.params.length ≤ 15)
    (huser : findUserNode w.srv.userHead user = none) :
    (∃ w', dispatch ctx fd msg w = .ok w') ↔ user.length < 128 ∧
      (findUserNode w.srv.nickHead user ≠ none → msg.params.length = 4 →
        2 * ctx.servername.length + 3 * user.length ≤ 973) := by
  rw [dispatch, hcmd]
  simp only
  by_cases hreg : findUserNode w.srv.nickHead user ≠ none ∧ msg.params.length = 4
  · obtain ⟨hnick, hfour⟩ := hreg
    obtain ⟨node, hnick⟩ := Option.ne_none_iff_exists'.mp hnick
    rw [onUser_registers hname hfour huser hnick, registrationFits_iff,
      registrationReplies_fits_iff]
    simp only [hfour, hnick, ne_eq, reduceCtorEq, not_false_eq_true, forall_const]
    omega
  · simp only [onUser, firstParam_eq_ok.mpr hname, Res.ok_bind, Nat.not_lt.mpr hlen, if_false,
      huser, Except.bind_eq_ok, copyName_eq_ok, addParameters_stored msg.cmd hle, and_assoc,
      exists_and_left, exists_eq_left]
    constructor
    · rintro ⟨hlt, -⟩
      refine ⟨hlt, ?_⟩
      intro hnick hfour
      exact absurd ⟨hnick, hfour⟩ hreg
    · rintro ⟨hlt, -⟩
      refine ⟨hlt, ?_⟩
      cases hnick : findUserNode w.srv.nickHead user with
      | none => exact ⟨_, rfl⟩
      | some node =>
        have hfour : msg.params.length ≠ 4 := by
          intro hfour
          exact hreg ⟨by rw [hnick]; exact Option.some_ne_none node, hfour⟩
        simp only [hfour, if_false]
        exact ⟨_, rfl⟩

theorem dispatch_quit (hcmd : command msg.cmd = .quit) :
    (∃ w', dispatch ctx fd msg w = .ok w') ↔
      (leastNick w.srv).length + (quitReason msg).length ≤ 997 := by
  have hfits : (plain (lit "ERROR") [(quitText w.srv msg, true)]).Fits ↔
      (leastNick w.srv).length + (quitReason msg).length ≤ 997 := error_fits_iff
  rw [← hfits, dispatch, hcmd]
  simp only [onQuit, responseQuit, myConstructUserQuitReply, Except.bind_eq_ok, sprintfBuf_eq_ok,
    writeReply_quit_eq_ok, Res.pure_eq]
  constructor
  · intro h
    obtain ⟨w', _, ⟨-, rfl⟩, _, ⟨hfits, rfl⟩, -⟩ := h
    exact hfits
  · intro h
    have htext : (quitText w.srv msg).length < 1024 :=
      h.length_lt (by simp [plain, Message.withParams])
    exact ⟨_, _, ⟨htext, rfl⟩, _, ⟨h, rfl⟩, rfl⟩

end

/-! ## Replies that always fit -/

namespace Server.Sized
variable {srv : Server} (H : srv.Sized)
include H

theorem leastNick_lt : (leastNick srv).length < 128 := by
  rw [leastNick, getLeastUserNode]
  cases hlast : srv.nickHead.getLast? with
  | none => decide
  | some node => exact H.nicks _ (List.mem_map_of_mem (List.mem_of_getLast? hlast))

theorem sockfdNick_lt (fd : Nat) : (sockfdNick srv fd).length < 128 := by
  rw [sockfdNick]
  cases hfind : findSockfdNickMapNode srv.sockfdNickHash fd with
  | none => decide
  | some node => exact H.tags _ (List.mem_of_find?_eq_some hfind)

theorem found_lt (hnode : findConnectionMapNode srv.connectionHash nick = some node) :
    nick.length < 128 := by
  have hmem : (node.name, node.fd) ∈ bindings srv.connectionHash :=
    List.mem_map_of_mem (List.mem_of_find?_eq_some hnode)
  exact findConnectionMapNode_name hnode ▸ H.keys _ hmem

end Server.Sized

/-- What the handler of the message quotes leaves room for the rest of its replies. -/
def QuotesFit (ctx : Ctx) (srv : Server) (fd : Nat) (msg : Message) : Prop :=
  match command msg.cmd with
  | .quit => (leastNick srv).length + (quitReason msg).length ≤ 997
  | .whois =>
    match msg.params, findSockfdNickMapNode srv.sockfdNickHash fd with
    | [nick], some asker =>
      match findConnectionMapNode srv.connectionHash nick with
      | none => ctx.servername.length + asker.name.length + nick.length ≤ 992
      | some node =>
        match node.msg with
        | .live userMsg =>
          userMsg.params.length ≤ 13 → ctx.servername.length + asker.name.length +
            userMsg.cmd.length + paramsLength userMsg.params ≤ 1013
        | .freed => True
    | _, _ => True
  | .unknown =>
    match findSockfdNickMapNode srv.sockfdNickHash fd with
    | none => True
    | some asker => ctx.servername.length + asker.name.length + msg.cmd.length ≤ 997
  | _ => True

/-- A command that faults before it replies overflows no buffer. -/
theorem Culprit.quotesFit (h : Culprit srv fd msg f) : QuotesFit ctx srv fd msg := by
  rw [QuotesFit]
  cases h with
  | longNick nick hcmd => simp only [hcmd]
  | longUser user hcmd => simp only [hcmd]
  | noName hcmd => rcases hcmd with hcmd | hcmd <;> simp only [hcmd]
  | noAsker nick hcmd hparams hasker => simp only [hcmd, hparams, hasker]
  | freed nick asker node hcmd hparams hasker hnode hfreed =>
    simp only [hcmd, hparams, hasker, hnode, hfreed]
  | longRecord nick asker node userMsg hcmd hparams hasker hnode hlive hlong =>
    simp only [hcmd, hparams, hasker, hnode, hlive]
    intro hle
    exact absurd hle (Nat.not_le.mpr hlong)

theorem responseWhois_live (hasker : findSockfdNickMapNode w.srv.sockfdNickHash fd = some asker)
    (hnode : findConnectionMapNode w.srv.connectionHash nick = some node)
    (hlive : node.msg = .live userMsg) : (∃ w', responseWhois ctx nick fd w = .ok w') ↔
      ∀ m ∈ whoisReplies ctx asker.name nick userMsg, m.Fits := by
  constructor
  · rintro ⟨w', h⟩
    obtain ⟨userMsg', hlive', hfits, -⟩ := responseWhois_found hasker hnode h
    cases hlive.symm.trans hlive'
    exact hfits
  · intro hfits
    simp only [whoisReplies, List.forall_mem_cons] at hfits
    obtain ⟨hrecord, hserver, hend, -⟩ := hfits
    simp only [responseWhois, hnode, hasker, myConstructUserWhoisReply, hlive, Cell.read,
      Res.ok_bind, myConstructUserWhoisWhoisserverReply, myConstructUserWhoisEndofwhoisReply,
      Except.bind_eq_ok, writeReply_user_eq_ok, Res.pure_eq]
    exact ⟨_, _, ⟨_, ⟨hrecord, rfl⟩, rfl⟩, _, ⟨hserver, rfl⟩, hend, rfl⟩

section
variable {ctx : Ctx} {fd : Nat} {msg : Message} {w : Work}
  (hserver : ctx.servername.length ≤ 64)
include hserver

theorem whoisReplies_fits_iff {userMsg : Message} (hasker : asker.length < 128)
    (hnick : nick.length < 128) (hne : userMsg.params ≠ []) (hlen : userMsg.params.length ≤ 13) :
    (∀ m ∈ whoisReplies ctx asker nick userMsg, m.Fits) ↔ ctx.servername.length + asker.length +
      userMsg.cmd.length + paramsLength userMsg.params ≤ 1013 := by
  rw [forall_whoisReplies_fits_iff hne hlen]
  constructor
  · intro h
    exact h.1
  · intro h
    exact ⟨h, by omega, by omega⟩

/-- A WHOIS without a culprit succeeds exactly if what it quotes fits. -/
theorem dispatch_whois (H : w.srv.Sized) (hclean : w.srv.Clean)
    (hno : ∀ f, ¬ Culprit w.srv fd msg f) (hcmd : command msg.cmd = .whois) :
    (∃ w', dispatch ctx fd msg w = .ok w') ↔ QuotesFit ctx w.srv fd msg := by
  rw [QuotesFit, dispatch, hcmd]
  simp only [onWhois]
  rcases hparams : msg.params with _ | ⟨nick, _ | ⟨q, ps⟩⟩
  · simp only [Except.ok.injEq, exists_eq']
  · cases hasker : findSockfdNickMapNode w.srv.sockfdNickHash fd with
    | none => exact absurd (.noAsker nick hcmd hparams hasker) (hno _)
    | some asker =>
      have haskerLt := H.tags asker (List.mem_of_find?_eq_some hasker)
      cases hnode : findConnectionMapNode w.srv.connectionHash nick with
      | none =>
        simp only [responseWhois_absent hasker hnode, exists_and_left, exists_eq, and_true,
          nosuchnick_fits_iff, hnode]
      | some node =>
        cases hmsg : node.msg with
        | freed => exact absurd (.freed nick asker node hcmd hparams hasker hnode hmsg) (hno _)
        | live userMsg =>
          have hle : userMsg.params.length ≤ 13 := by
            by_contra hlong
            exact hno _ (.longRecord nick asker node userMsg hcmd hparams hasker hnode hmsg
              (Nat.lt_of_not_le hlong))
          have hne := (hclean.live node (List.mem_of_find?_eq_some hnode) userMsg hmsg).ne
          simp only [responseWhois_live hasker hnode hmsg,
            whoisReplies_fits_iff hserver haskerLt (H.found_lt hnode) hne hle, hnode, hmsg, hle,
            forall_const]
  · simp only [Except.ok.injEq, exists_eq']

theorem dispatch_nick_ok (H : w.srv.Sized) (hno : ∀ f, ¬ Culprit w.srv fd msg f)
    (hcmd : command msg.cmd = .nick) : ∃ w', dispatch ctx fd msg w = .ok w' := by
  rcases hparams : msg.params with _ | ⟨nick, _ | ⟨q, ps⟩⟩
  · have hleast := H.leastNick_lt
    refine ⟨_, (dispatch_nick_missing hcmd hparams).mpr ⟨?_, rfl⟩⟩
    apply reply_fits (by simp) (by decide)
    simp [lit]
    omega
  · cases hnode : findConnectionMapNode w.srv.connectionHash nick with
    | some node =>
      have hlt := H.found_lt hnode
      exact ⟨_, (dispatch_nick_used hcmd hparams hnode).mpr ⟨by omega, rfl⟩⟩
    | none =>
      cases hnick : findUserNode w.srv.nickHead nick with
      | some node => exact ⟨_, dispatch_nick_known hcmd hparams hnode hnick⟩
      | none =>
        have hlt := nick_lt_of_not_culprit hno hcmd hparams hnode hnick
        apply (dispatch_nick_free hcmd hparams hnode hnick H.stored).mpr
        exact ⟨hlt, fun _ => by omega⟩
  · exact ⟨_, dispatch_nick_ignored hcmd (by simp [hparams])⟩

theorem dispatch_user_ok (H : w.srv.Sized) (hno : ∀ f, ¬ Culprit w.srv fd msg f)
    (hlen : msg.params.length ≤ 15) (hcmd : command msg.cmd = .user) :
    ∃ w', dispatch ctx fd msg w = .ok w' := by
  cases hparams : msg.params with
  | nil => exact absurd (.noName (.inr hcmd) hparams) (hno _)
  | cons user ps =>
    have hname : msg.params.head? = some user := by rw [hparams]; rfl
    by_cases hfour : msg.params.length < 4
    · have hleast := H.leastNick_lt
      refine ⟨_, (dispatch_user_missing hcmd hname hfour).mpr ⟨?_, rfl⟩⟩
      apply reply_fits (by simp) (by decide)
      simp [lit]
      omega
    · have hfour := Nat.le_of_not_lt hfour
      cases huser : findUserNode w.srv.userHead user with
      | some node => exact ⟨_, dispatch_user_known hcmd hname hfour huser⟩
      | none =>
        have hlt := user_lt_of_not_culprit hno hcmd hname hfour huser
        apply (dispatch_user_free hcmd hname hfour hlen huser).mpr
        exact ⟨hlt, fun _ _ => by omega⟩

/-- Without a culprit, a message is handled exactly if what its handler quotes fits. -/
theorem dispatch_ok_iff (H : w.srv.Sized) (hclean : w.srv.Clean)
    (hno : ∀ f, ¬ Culprit w.srv fd msg f) (hlen : msg.params.length ≤ 15) :
    (∃ w', dispatch ctx fd msg w = .ok w') ↔ QuotesFit ctx w.srv fd msg := by
  have hquotes {c : Command} (hcmd : command msg.cmd = c)
      (h : c ≠ .quit ∧ c ≠ .whois ∧ c ≠ .unknown) : QuotesFit ctx w.srv fd msg := by
    rw [QuotesFit, hcmd]
    cases c <;> simp_all
  have hnick := H.sockfdNick_lt fd
  cases hcmd : command msg.cmd with
  | ping =>
    refine iff_of_true ?_ (hquotes hcmd (by decide))
    rw [dispatch, hcmd]
    exact ⟨_, writeReply_quit_eq_ok.mpr ⟨by decide, rfl⟩⟩
  | pong =>
    refine iff_of_true ⟨w, ?_⟩ (hquotes hcmd (by decide))
    rw [dispatch, hcmd]
  | quit => rw [dispatch_quit hcmd, QuotesFit, hcmd]
  | lusers =>
    refine iff_of_true ?_ (hquotes hcmd (by decide))
    rw [dispatch, hcmd]
    exact ⟨_, responseLusers_eq_ok.mpr ⟨lusers_fits _ _ _ (by omega), rfl⟩⟩
  | motd =>
    refine iff_of_true ?_ (hquotes hcmd (by decide))
    rw [dispatch, hcmd]
    exact ⟨_, responseMotd_eq_ok.mpr ⟨motdReplies_fits _ (by omega), rfl⟩⟩
  | whois => exact dispatch_whois hserver H hclean hno hcmd
  | privmsg =>
    refine iff_of_true ?_ (hquotes hcmd (by decide))
    cases hparams : msg.params with
    | nil => exact absurd (.noName (.inl hcmd) hparams) (hno _)
    | cons name ps =>
      have hname : msg.params.head? = some name := by rw [hparams]; rfl
      have hleast := H.leastNick_lt
      cases hnode : findConnectionMapNode w.srv.connectionHash name with
      | some node => exact ⟨_, dispatch_privmsg_found hcmd hname hnode⟩
      | none => exact ⟨_, (dispatch_privmsg_absent hcmd hname hnode).mpr ⟨by omega, rfl⟩⟩
  | nick => exact iff_of_true (dispatch_nick_ok hserver H hno hcmd) (hquotes hcmd (by decide))
  | user => exact iff_of_true (dispatch_user_ok hserver H hno hlen hcmd) (hquotes hcmd (by decide))
  | unknown =>
    cases hnode : findSockfdNickMapNode w.srv.sockfdNickHash fd with
    | none =>
      refine iff_of_true ⟨_, dispatch_unknown_ignored hcmd hnode⟩ ?_
      simp only [QuotesFit, hcmd, hnode]
    | some node =>
      simp only [QuotesFit, hcmd, hnode, dispatch_unknown hcmd hnode, exists_and_left, exists_eq,
        and_true]

/-- **No reply overflows its buffer** exactly if what the handler quotes of the command, or of a
stored message, leaves room for the rest of the reply. -/
theorem repliesFit_iff {σ : Sys} (hrun : Run ctx tr σ) (h : σ.Handling t th p line msg) :
    step ctx σ (.line t) ≠ .error (.fault .bufOverflow) ↔
      QuotesFit ctx σ.server th.sockfd msg := by
  have H : (th.work σ.server p).srv.Sized := hrun.sized
  have hclean : (th.work σ.server p).srv.Clean := hrun.clean
  change _ ↔ QuotesFit ctx (th.work σ.server p).srv th.sockfd msg
  rw [ne_eq, h.step_eq_fault]
  by_cases hno : ∀ f, ¬ Culprit (th.work σ.server p).srv th.sockfd msg f
  · rw [← dispatch_ok_iff hserver H hclean hno h.params_le,
      (dispatch_overflows hno H h.params_le).eq_error_iff, not_not]
  · obtain ⟨f, hf⟩ := not_forall.mp hno
    have hf := not_not.mp hf
    refine iff_of_true ?_ hf.quotesFit
    rw [hf.dispatch_eq ctx]
    cases hf <;> decide

end

theorem repliesFit_ping : ∃ tr σ th p line msg, plainServer.servername.length ≤ 64 ∧
    Run plainServer tr σ ∧ σ.Handling 0 th p line msg ∧
    QuotesFit plainServer σ.server th.sockfd msg ∧
    step plainServer σ (.line 0) ≠ .error (.fault .bufOverflow) := by
  obtain ⟨tr, σ, th, p, line, msg, hrun, h, hf⟩ := handling_of_playsToLine plainServer
    (firstLine "PING\r\n") 0 (fun _ _ _ _ msg => command msg.cmd = .ping) (by decide +kernel)
  have hcmd : command msg.cmd = .ping := of_decide_eq_true hf
  have hserver : plainServer.servername.length ≤ 64 := by decide
  have hquotes : QuotesFit plainServer σ.server th.sockfd msg := by
    rw [QuotesFit, hcmd]
    trivial
  exact ⟨tr, σ, th, p, line, msg, hserver, hrun, h, hquotes,
    (repliesFit_iff hserver hrun h).mpr hquotes⟩

/-- A QUIT whose reason has a thousand bytes. -/
def longQuitLine : CStr := lit "QUIT :" ++ List.replicate 1000 97 ++ [CR, LF]

theorem repliesFit_longQuit : ∃ tr σ th p line msg, plainServer.servername.length ≤ 64 ∧
    Run plainServer tr σ ∧ σ.Handling 0 th p line msg ∧
    step plainServer σ (.line 0) = .error (.fault .bufOverflow) := by
  obtain ⟨tr, σ, th, p, line, msg, hrun, h, hf⟩ := handling_of_playsToLine plainServer
    [.accept 4, .recv 0 longQuitLine] 0 (fun _ σ th p msg =>
      dispatch plainServer th.sockfd msg (th.work σ.server p) = .error .bufOverflow)
    (by decide +kernel)
  exact ⟨tr, σ, th, p, line, msg, by decide, hrun, h, h.step_eq_fault.mpr (of_decide_eq_true hf)⟩

end Chirc
