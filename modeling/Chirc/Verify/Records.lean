import Chirc.Verify.Tables
import Chirc.Verify.Frame

/-! # The records of users

What `connection_hash` keeps of a user is a copy of the USER message, which the first WHOIS for the
user writes into RPL_WHOISUSER and frees. The copy begins with the word USER where the reply should
have the nick. -/

namespace Chirc

/-! ## Where the records come from -/

/-- The message of a USER command that puts the name on `user_head`. -/
def Label.userSent (srv : Server) (name : CStr) : Label → Option Message
  | .command _ _ _ _ msg _ => if acceptedUser srv msg = some name then some msg else none
  | _ => none

/-- The message of the USER command that put the name on `user_head`. -/
def userSent (tr : History) (name : CStr) : Option Message :=
  tr.findSome? fun e => e.2.userSent e.1.server name

/-- The nick that a WHOIS command with one parameter asks for. -/
def whoisParam (msg : Message) : Option CStr :=
  match command msg.cmd, msg.params with
  | .whois, [nick] => some nick
  | _, _ => none

/-- The nick that the step is asked for. -/
def Label.asked : Label → Option CStr
  | .command _ _ _ _ msg _ => whoisParam msg
  | _ => none

/-- The nicks that WHOIS commands have asked for, latest first. -/
def asked (tr : History) : List CStr := tr.filterMap fun e => e.2.asked

/-- The tables of users hold copies of the USER messages, of which those that WHOIS asked for may
be freed. -/
structure Recorded (tr : History) (srv : Server) : Prop where
  users : ∀ node ∈ srv.userHead, ∃ msg, userSent tr node.name = some msg ∧
    node.msg = some (storedMessage msg.cmd msg.params)
  records : ∀ node ∈ srv.connectionHash, node.name ∉ asked tr → ∃ msg,
    userSent tr node.name = some msg ∧ node.msg = .live (storedMessage msg.cmd msg.params)

theorem userSent_cons : userSent ((σ, l) :: tr) name =
    (l.userSent σ.server name).or (userSent tr name) := by
  rw [userSent, List.findSome?_cons]
  cases l.userSent σ.server name <;> rfl

theorem asked_cons : asked ((σ, l) :: tr) = l.asked.toList ++ asked tr := by
  rw [asked, List.filterMap_cons]
  cases l.asked <;> rfl

/-- A name is put on `user_head` once. -/
theorem userSent_of_mem (h : name ∈ names σ.server.userHead) :
    userSent ((σ, l) :: tr) name = userSent tr name := by
  have hnone : l.userSent σ.server name = none := by
    cases l with
    | command t fd c line msg out =>
      refine if_neg fun haccepted => ?_
      obtain ⟨-, hfree⟩ := Option.filter_eq_some_iff.mp haccepted
      exact findUserNode_eq_none.mp (of_decide_eq_true hfree) h
    | _ => rfl
  rw [userSent_cons, hnone, Option.none_or]

/-- A copy of a copy of a message is a copy of it. -/
theorem storedMessage_storedMessage (cmd : CStr) (params : List CStr) :
    storedMessage (storedMessage cmd params).cmd (storedMessage cmd params).params =
      storedMessage cmd params := by
  rw [storedMessage_params]
  rfl

theorem acceptedUser_of_user (hcmd : command msg.cmd = .user)
    (hname : msg.params.head? = some name) (hlen : 4 ≤ msg.params.length)
    (huser : findUserNode srv.userHead name = none) : acceptedUser srv msg = some name := by
  have hparam : userParam msg = some name :=
    userParam_eq_some.mpr ⟨_, request_user hcmd hname hlen⟩
  rw [acceptedUser, hparam]
  simp [huser]

/-- What a handler adds to `user_head`. -/
theorem Handled.mem_userHead {w w' : Work} (H : Handled ctx fd msg w w')
    (hnode : node ∈ w'.srv.userHead) : node ∈ w.srv.userHead ∨
      acceptedUser w.srv msg = some node.name ∧
        node.msg = some (storedMessage msg.cmd msg.params) := by
  cases H with
  | userPosted name hcmd hname hlen hstored huser =>
    refine (List.mem_append.mp hnode).imp_right fun hnode => ?_
    rw [List.mem_singleton.mp hnode]
    exact ⟨acceptedUser_of_user hcmd hname hlen huser, rfl⟩
  | userRegisters name node' hcmd hname hlen hstored huser =>
    refine (List.mem_append.mp hnode).imp_right fun hnode => ?_
    rw [List.mem_singleton.mp hnode]
    exact ⟨acceptedUser_of_user hcmd hname (by omega) huser, rfl⟩
  | _ => exact .inl hnode

/-- What a handler does to the nodes of `connection_hash`: it adds one with a copy of the message of
the user, or frees the message of the one that is asked for. -/
theorem Handled.mem_connectionHash {w w' : Work} (H : Handled ctx fd msg w w')
    (hnode : node ∈ w'.srv.connectionHash) (hasked : whoisParam msg ≠ some node.name) :
    node ∈ w.srv.connectionHash ∨ ∃ user ∈ w'.srv.userHead, user.name = node.name ∧
      ∃ m, user.msg = some m ∧ node.msg = .live (storedMessage m.cmd m.params) := by
  cases H with
  | whoisFound nick asker node' userMsg hcmd hparams =>
    refine .inl ((mem_freeConnectionMapMsg hnode).resolve_right fun hfreed => hasked ?_)
    rw [whoisParam, hcmd, hparams, hfreed.2]
  | nickRegisters nick user m hcmd hparams hnode' hnick huser hmsg =>
    refine (List.mem_cons.mp hnode).symm.imp_right fun hnode => ?_
    subst hnode
    exact ⟨user, List.mem_of_find?_eq_some huser, findUserNode_name huser, m, hmsg, rfl⟩
  | userRegisters name node' hcmd hname hlen hstored huser hnick =>
    refine (List.mem_cons.mp hnode).symm.imp_right fun hnode => ?_
    subst hnode
    exact ⟨_, List.mem_append_right _ List.mem_cons_self, rfl, _, rfl,
      congrArg _ (storedMessage_storedMessage _ _).symm⟩
  | _ => exact .inl hnode

theorem Recorded.command {σ : Sys} {th : Thread} {w : Work} (hrun : Run ctx tr σ)
    (H : Recorded tr σ.server) (hw : Handled ctx th.sockfd msg (th.work σ.server p) w) :
    Recorded ((σ, .command t th.sockfd c line msg out) :: tr) w.srv := by
  obtain ⟨b, hb⟩ := hrun.represents
  have husers : ∀ node ∈ w.srv.userHead, ∃ m,
      userSent ((σ, .command t th.sockfd c line msg out) :: tr) node.name = some m ∧
      node.msg = some (storedMessage m.cmd m.params) := by
    intro node hnode
    rcases hw.mem_userHead hnode with hnode | ⟨haccepted, hmsg⟩
    · rw [userSent_of_mem (List.mem_map_of_mem hnode)]
      exact H.users node hnode
    · have haccepted : acceptedUser σ.server msg = some node.name := haccepted
      refine ⟨msg, ?_, hmsg⟩
      rw [userSent_cons, Label.userSent, if_pos haccepted, Option.some_or]
  refine ⟨husers, ?_⟩
  intro node hnode hasked
  rw [asked_cons, List.mem_append, not_or] at hasked
  have hother : whoisParam msg ≠ some node.name := by
    intro hparam
    exact hasked.1 (by simp [Label.asked, hparam])
  rcases hw.mem_connectionHash hnode hother with hnode | ⟨user, huser, hname, m, hm, hlive⟩
  · rw [userSent_of_mem (hb.tablesSound.posted node hnode).2]
    exact H.records node hnode hasked.2
  · obtain ⟨msg', hsent, hmsg'⟩ := husers user huser
    cases hm.symm.trans hmsg'
    rw [← hname]
    exact ⟨msg', hsent, by rw [hlive, storedMessage_storedMessage]⟩

theorem Run.recorded {σ : Sys} (hrun : Run ctx tr σ) : Recorded tr σ.server := by
  refine TransitionSystem.Run.invariant (P := fun tr σ => Recorded tr σ.server) ?_ ?_ hrun
  · intro σ hσ
    subst hσ
    exact ⟨nofun, nofun⟩
  · intro tr σ l σ' hrun H hstep
    cases step_cases hstep with
    | command t th p line msg w hth hp hparses hw =>
      rw [Sys.handled_server]
      exact H.command hrun (dispatch_handled hw)
    | _ => exact ⟨H.users, H.records⟩

/-! ## What WHOIS says -/

/-- The replies describe to `asker` the user with the nick and with this user name and real name. -/
structure Describes (ctx : Ctx) (asker nick user realname : CStr) (m₁ m₂ m₃ : Message) : Prop where
  user : m₁.cmd = rplWhoisuser ∧ m₁.longlast = true ∧
    ∃ rest, m₁.params = asker :: nick :: user :: (rest ++ [realname])
  server : m₂.cmd = rplWhoisserver ∧ ∃ info, m₂.params = [asker, nick, ctx.servername, info]
  done : m₃.cmd = rplEndofwhois ∧ m₃.params = [asker, nick, lit "End of WHOIS list"]

/-- A client whose nick is the word with which its USER command began asks for itself, its
descriptor is still open and has that nick in `sockfd_nick_hash`, and there is room for the replies.
-/
structure DescribesItself (ctx : Ctx) (σ : Sys) (fd c : Nat) (asker nick : CStr)
    (userMsg : Message) : Prop where
  asker : asker = nick
  isOpen : σ.connOn fd = some c
  node : ∃ node, findSockfdNickMapNode σ.server.sockfdNickHash fd = some node ∧ node.name = nick
  word : userMsg.cmd = nick
  record : ctx.servername.length + 2 * nick.length + paramsLength userMsg.params ≤ 1013
  server : ctx.servername.length + nick.length ≤ 502

/-- The replies to the client that the lookup takes for `seen`: the first one has the word where the
nick should be, and the third one has the asker. -/
theorem describes_whoisReplies_iff {userMsg : Message} (hparams : userMsg.params = [u, x, y, z]) :
    (∃ m₁ m₂ m₃, whoisReplies ctx seen nick userMsg = [m₁, m₂, m₃] ∧
      Describes ctx asker nick u z m₁ m₂ m₃) ↔
        asker = nick ∧ seen = nick ∧ userMsg.cmd = nick := by
  constructor
  · intro h
    obtain ⟨m₁, m₂, m₃, hreplies, H⟩ := h
    cases hreplies
    obtain ⟨-, -, rest, huser⟩ := H.user
    have hdone := H.done.2
    rw [reply_params, List.map_cons, map_fst_copiedParams, hparams] at huser
    simp only [List.cons.injEq] at huser
    simp only [reply_params, List.map_cons, List.cons.injEq] at hdone
    exact ⟨huser.1.symm.trans hdone.2.1, hdone.2.1, huser.2.1⟩
  · intro h
    obtain ⟨rfl, rfl, rfl⟩ := h
    refine ⟨_, _, _, rfl, ⟨rfl, ?_, [x, y], ?_⟩, ⟨rfl, lit "Ubuntu", rfl⟩, rfl, rfl⟩
    · rw [hparams]
      rfl
    · rw [reply_params, List.map_cons, map_fst_copiedParams, hparams]
      rfl

/-- A WHOIS of a user whose record was not read yet. -/
theorem dispatch_whois_live (hcmd : command msg.cmd = .whois) (hparams : msg.params = [nick])
    (hasker : findSockfdNickMapNode w.srv.sockfdNickHash fd = some asker)
    (hnode : findConnectionMapNode w.srv.connectionHash nick = some node)
    (hlive : node.msg = .live userMsg) : dispatch ctx fd msg w = .ok w' ↔
      (∀ m ∈ whoisReplies ctx asker.name nick userMsg, m.Fits) ∧
      w' = (w.update (w.srv.freeMsg nick)).send (whoisReplies ctx asker.name nick userMsg) := by
  have hdispatch : dispatch ctx fd msg w = responseWhois ctx nick fd w := by
    rw [dispatch, hcmd]
    simp only [onWhois, hparams]
  rw [hdispatch]
  constructor
  · intro h
    obtain ⟨userMsg', hlive', hfits, hw'⟩ := responseWhois_found hasker hnode h
    cases hlive.symm.trans hlive'
    exact ⟨hfits, hw'⟩
  · intro h
    obtain ⟨w₁, hw₁⟩ := (responseWhois_live hasker hnode hlive).mpr h.1
    obtain ⟨userMsg', hlive', -, hw'⟩ := responseWhois_found hasker hnode hw₁
    cases hlive.symm.trans hlive'
    rw [hw₁, hw', h.2]

/-- The step of thread `t` sends connection `c`, which asks, three replies that describe the user to
it. -/
def DescribesUser (ctx : Ctx) (σ : Sys) (t c : Nat) (asker nick user realname : CStr) : Prop :=
  ∃ σ' l, step ctx σ (.line t) = .ok (σ', l) ∧ ∃ m₁ m₂ m₃, l.sentTo c = [m₁, m₂, m₃] ∧
    Describes ctx asker nick user realname m₁ m₂ m₃

/-- **WHOIS describes the user that was asked for** exactly if a client asks for itself whose nick
is the word with which its USER command began, its descriptor is still open and the lookup finds
this nick for it, and there is room for the replies. -/
theorem describesUser_iff {σ : Sys} (hrun : Run ctx tr σ) (h : σ.Handling t th p line msg)
    (hcmd : command msg.cmd = .whois) (hparams : msg.params = [nick])
    (hreg : nick ∈ registrations tr) (hsent : userSent tr nick = some userMsg)
    (huser : userMsg.params = [user, mode, unused, realname]) (hasked : nick ∉ asked tr) :
    ∀ c ∈ senderOf tr σ t, ∀ asker ∈ registered tr c,
      DescribesUser ctx σ t c asker nick user realname ↔
        DescribesItself ctx σ th.sockfd c asker nick userMsg := by
  intro c _ asker _
  obtain ⟨node, hnode⟩ := Option.ne_none_iff_exists'.mp (hrun.found_iff.mpr hreg)
  have hname := findConnectionMapNode_name hnode
  have hlive : node.msg = .live (storedMessage userMsg.cmd userMsg.params) := by
    obtain ⟨userMsg', hsent', hlive⟩ :=
      hrun.recorded.records node (List.mem_of_find?_eq_some hnode) (hname ▸ hasked)
    rw [hname, hsent] at hsent'
    cases hsent'
    exact hlive
  have hstored : (storedMessage userMsg.cmd userMsg.params).params =
      [user, mode, unused, realname] := by rw [storedMessage_params, huser]
  cases hfind : findSockfdNickMapNode σ.server.sockfdNickHash th.sockfd with
  | none =>
    refine iff_of_false ?_ ?_
    · intro H
      obtain ⟨w, hw, -⟩ := h.exists_step_iff.mp H
      have hfault : Culprit (th.work σ.server p).srv th.sockfd msg .nullDeref :=
        .noAsker nick hcmd hparams hfind
      rw [hfault.dispatch_eq] at hw
      cases hw
    · intro H
      obtain ⟨seen, hseen, -⟩ := H.node
      cases hfind.symm.trans hseen
  | some seen =>
    have hdispatch (w : Work) : dispatch ctx th.sockfd msg (th.work σ.server p) = .ok w ↔ _ :=
      dispatch_whois_live hcmd hparams hfind hnode hlive
    have hsplit : DescribesUser ctx σ t c asker nick user realname ↔
        (∀ m ∈ whoisReplies ctx seen.name nick (storedMessage userMsg.cmd userMsg.params), m.Fits) ∧
          σ.connOn th.sockfd = some c ∧ asker = nick ∧ seen.name = nick ∧ userMsg.cmd = nick := by
      rw [DescribesUser, h.exists_step_iff]
      simp only [hdispatch, and_assoc, exists_and_left, exists_eq_left, sentTo_command_eq_cons]
      exact and_congr_right fun _ => and_congr_right fun _ => describes_whoisReplies_iff hstored
    have hlt : nick.length < 128 := hrun.sized.found_lt hnode
    rw [hsplit, forall_whoisReplies_fits_iff (by simp [hstored]) (by simp [hstored]),
      storedMessage_params]
    constructor
    · intro H
      obtain ⟨⟨hrecord, hserver, -⟩, hc, hasker, hseen, hword⟩ := H
      have hlen : userMsg.cmd.length = nick.length := congrArg _ hword
      have hlen' : seen.name.length = nick.length := congrArg _ hseen
      change _ + userMsg.cmd.length + _ ≤ _ at hrecord
      exact ⟨hasker, hc, ⟨seen, hfind, hseen⟩, hword, by omega, by omega⟩
    · intro H
      obtain ⟨hasker, hc, ⟨seen', hfind', hseen⟩, hword, hrecord, hserver⟩ := H
      cases hfind.symm.trans hfind'
      have hlen : userMsg.cmd.length = nick.length := congrArg _ hword
      have hlen' : seen.name.length = nick.length := congrArg _ hseen
      refine ⟨⟨?_, by omega, by omega⟩, hc, hasker, hseen, hword⟩
      change _ + userMsg.cmd.length + _ ≤ _
      omega

/-- A client whose nick is the word USER asks for itself. -/
def askForUser : List Event :=
  [.accept 4, .recv 0 (lit "NICK USER\r\nUSER USER * * :Amy\r\n"), .line 0, .line 0,
    .recv 0 (lit "WHOIS USER\r\n")]

theorem describesUser_user : ∃ tr σ, Run plainServer tr σ ∧
    senderOf tr σ 0 = some 0 ∧ registered tr 0 = some (lit "USER") ∧ lit "USER" ∈ registrations tr ∧
    (userSent tr (lit "USER")).map (·.params) = some [lit "USER", lit "*", lit "*", lit "Amy"] ∧
    lit "USER" ∉ asked tr ∧
    DescribesUser plainServer σ 0 0 (lit "USER") (lit "USER") (lit "USER") (lit "Amy") := by
  obtain ⟨tr, σ, th, p, line, msg, hrun, h, hf⟩ := handling_of_playsToLine plainServer askForUser 0
    (fun tr σ th _ msg => command msg.cmd = .whois ∧ msg.params = [lit "USER"] ∧ th.sockfd = 4 ∧
      σ.connOn 4 = some 0 ∧ senderOf tr σ 0 = some 0 ∧ registered tr 0 = some (lit "USER") ∧
      lit "USER" ∈ registrations tr ∧
      findSockfdNickMapNode σ.server.sockfdNickHash 4 = some ⟨4, lit "USER"⟩ ∧
      ((userSent tr (lit "USER")).any fun m => m.cmd = lit "USER" ∧
        m.params = [lit "USER", lit "*", lit "*", lit "Amy"]) ∧
      lit "USER" ∉ asked tr) (by decide +kernel)
  obtain ⟨hcmd, hparams, hfd, hc, hsender, hnick, hreg, hnode, hany, hasked⟩ :=
    of_decide_eq_true hf
  obtain ⟨m, hsent, hm⟩ := (Option.any_eq_true _ _).mp hany
  obtain ⟨hword, huser⟩ := of_decide_eq_true hm
  refine ⟨tr, σ, hrun, hsender, hnick, hreg, by simp [hsent, huser], hasked,
    (describesUser_iff hrun h hcmd hparams hreg hsent huser hasked 0 hsender _ hnick).mpr ?_⟩
  refine ⟨rfl, hfd ▸ hc, ⟨_, hfd ▸ hnode, rfl⟩, hword, ?_, by decide⟩
  rw [huser]
  decide

/-- A second client registers and asks for the first one. -/
def bobAsks : List Event :=
  registerAmy ++ [.accept 5, .recv 1 (lit "NICK bob\r\nUSER bob * * :Bob\r\n"), .line 1, .line 1,
    .recv 1 (lit "WHOIS amy\r\n")]

/-- The first reply has USER where the nick should be. -/
theorem describesUser_bob : ∃ tr σ th p line msg, Run plainServer tr σ ∧
    σ.Handling 1 th p line msg ∧ command msg.cmd = .whois ∧ msg.params = [lit "amy"] ∧
    senderOf tr σ 1 = some 1 ∧ registered tr 1 = some (lit "bob") ∧ lit "amy" ∈ registrations tr ∧
    (userSent tr (lit "amy")).map (·.params) = some [lit "amy", lit "*", lit "*", lit "Amy"] ∧
    lit "amy" ∉ asked tr ∧
    ¬ DescribesUser plainServer σ 1 1 (lit "bob") (lit "amy") (lit "amy") (lit "Amy") := by
  obtain ⟨tr, σ, th, p, line, msg, hrun, h, hf⟩ := handling_of_playsToLine plainServer bobAsks 1
    (fun tr σ th p msg => command msg.cmd = .whois ∧ msg.params = [lit "amy"] ∧
      senderOf tr σ 1 = some 1 ∧ registered tr 1 = some (lit "bob") ∧ lit "amy" ∈ registrations tr ∧
      (userSent tr (lit "amy")).map (·.params) = some [lit "amy", lit "*", lit "*", lit "Amy"] ∧
      lit "amy" ∉ asked tr ∧
      ∀ w ∈ (dispatch plainServer th.sockfd msg (th.work σ.server p)).toOption,
        ∀ m ∈ w.out.head?, m.params[1]? = some (lit "USER")) (by decide +kernel)
  obtain ⟨hcmd, hparams, hsender, hnick, hreg, hsent, hasked, hreply⟩ := of_decide_eq_true hf
  refine ⟨tr, σ, th, p, line, msg, hrun, h, hcmd, hparams, hsender, hnick, hreg, hsent, hasked, ?_⟩
  intro H
  obtain ⟨w, hw, m₁, m₂, m₃, hout, hdescribes⟩ := h.exists_step_iff.mp H
  obtain ⟨-, -, rest, hm₁⟩ := hdescribes.user
  obtain ⟨-, hout⟩ := sentTo_command_eq_cons.mp hout
  have hword := hreply w (by rw [hw]; rfl) m₁ (by rw [hout]; rfl)
  rw [hm₁] at hword
  cases hword

end Chirc
