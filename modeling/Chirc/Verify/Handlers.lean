import Chirc.Verify.Replies

/-! # What each command does

One specification for each handler, and `Handled`, which puts them together: everything that the
handling of a message can do, one case for each outcome. All later facts about commands are read
off `Handled`. -/

namespace Chirc

theorem copyName_eq_ok : copyName name = .ok key ↔ name.length < 128 ∧ key = name := by
  rw [copyName]
  split <;> simp [*, eq_comm]

/-! ## Registration -/

/-- The server with a connection registered: the nodes added to the two tables. -/
def Server.bind (srv : Server) (fd : Nat) (nick : CStr) (msg : Message) : Server :=
  { srv with
    connectionHash := addConnectionMapNode srv.connectionHash ⟨nick, fd, .live msg⟩
    sockfdNickHash := addSockfdNickMapNode srv.sockfdNickHash ⟨fd, nick⟩ }

theorem findConnectionMapNode_bind (srv : Server) :
    findConnectionMapNode (srv.bind fd nick msg).connectionHash nick = some ⟨nick, fd, .live msg⟩ :=
  List.find?_cons_of_pos (beq_self_eq_true nick)

/-- A lookup for the descriptor finds the node that was added, unless an older one is found after
the buckets have been expanded. -/
def FindsNewest (srv : Server) (fd : Nat) (nick : CStr) : Prop :=
  ¬ srv.sockfdNickHash.Expands SockfdNickMap.hashv ⟨fd, nick⟩ ∨
    findSockfdNickMapNode srv.sockfdNickHash fd = none

instance : Decidable (FindsNewest srv fd nick) := inferInstanceAs (Decidable (_ ∨ _))

def welcome (ctx : Ctx) (nick user : CStr) : Message :=
  reply ctx nick rplWelcome [(welcomeText ctx nick user, true)]

/-- The replies that follow the welcome; `srv` is the state after the registration. -/
def briefing (ctx : Ctx) (srv : Server) (nick : CStr) : List Message :=
  [reply ctx nick rplYourhost
      [(lit "Your host is " ++ ctx.servername ++ lit ", running version 1.0", true)],
    reply ctx nick rplCreated [(lit "This server was created 20240701", true)],
    reply ctx nick rplMyinfo
      [(ctx.servername, false), (lit "1.0", false), (lit "ao", false), (lit "mtov", false)]] ++
  srv.lusers ctx nick ++ motdReplies ctx nick false

/-- The replies to the command that completes a registration. -/
def registrationReplies (ctx : Ctx) (srv : Server) (nick user : CStr) : List Message :=
  welcome ctx nick user :: briefing ctx srv nick

/-- The nick, the message that is stored and the replies have room in the buffers. -/
structure RegistrationFits (ctx : Ctx) (srv : Server) (nick user : CStr) (msg : Message) :
    Prop where
  nick_lt : nick.length < 128
  stored_le : msg.params.length ≤ 15
  fits : ∀ m ∈ registrationReplies ctx srv nick user, m.Fits

theorem registrationFits_iff : RegistrationFits ctx srv nick user msg ↔
    nick.length < 128 ∧ msg.params.length ≤ 15 ∧
      ∀ m ∈ registrationReplies ctx srv nick user, m.Fits :=
  ⟨fun H => ⟨H.nick_lt, H.stored_le, H.fits⟩, fun ⟨h₁, h₂, h₃⟩ => ⟨h₁, h₂, h₃⟩⟩

instance : Decidable (RegistrationFits ctx srv nick user msg) :=
  decidable_of_iff _ registrationFits_iff.symm

theorem length_le_renderParams_of_mem (longlast : Bool) :
    ∀ {ps : List CStr}, p ∈ ps → p.length ≤ (renderParams longlast ps).length
  | [p'], h => by
    obtain rfl : p = p' := by simpa using h
    cases longlast
    · simp [renderParams]
    · simp [renderParams]
      omega
  | p' :: q :: ps, h => by
    simp only [renderParams, List.length_append, List.length_cons]
    rcases List.mem_cons.mp h with rfl | h
    · omega
    · have := length_le_renderParams_of_mem longlast h
      omega

/-- A text that was written in a reply has room in the buffer of the thread. -/
theorem Message.Fits.length_lt {m : Message} (h : m.Fits) (hp : p ∈ m.params) :
    p.length < 1024 := by
  refine Nat.lt_of_le_of_lt ?_ h.2
  have := length_le_renderParams_of_mem m.longlast hp
  simp only [render, List.length_append]
  omega

/-- The message stored with a registration. -/
abbrev storedMessage (cmd : CStr) (params : List CStr) : Message := plain cmd (copiedParams params)

/-- The state after a registration. -/
def Work.registered (ctx : Ctx) (fd : Nat) (nick user : CStr) (msg : Message) (w : Work) : Work :=
  { (w.send (registrationReplies ctx (w.srv.bind fd nick msg) nick user)).scribble
      (lit "This server was created 20240701") with
    srv := w.srv.bind fd nick msg }

theorem Work.registered_out (w : Work) : (w.registered ctx fd nick user msg).out =
    w.out ++ registrationReplies ctx (w.srv.bind fd nick msg) nick user := rfl

theorem completeRegistration_eq_ok :
    completeRegistration ctx fd nick user cmd params nick nick w = .ok w' ↔
      RegistrationFits ctx (w.srv.bind fd nick (storedMessage cmd params)) nick user
        (storedMessage cmd params) ∧
      w' = w.registered ctx fd nick user (storedMessage cmd params) := by
  -- the nick of the descriptor, which is added last, is not counted
  have hsrv : ({ w.srv with
      connectionHash := addConnectionMapNode w.srv.connectionHash
        ⟨nick, fd, .live (storedMessage cmd params)⟩ } : Server).lusers ctx nick =
      (w.srv.bind fd nick (storedMessage cmd params)).lusers ctx nick := Server.lusers_congr rfl rfl
  have hadd (m : Message) : addParameters (chircMessageConstruct none cmd) (copiedParams params) =
      .ok m ↔ (storedMessage cmd params).params.length ≤ 15 ∧ m = storedMessage cmd params :=
    addParameters_eq_ok (by simp [chircMessageConstruct])
  simp only [completeRegistration, Except.bind_eq_ok, sprintfBuf_eq_ok, copyName_eq_ok,
    hadd, myConstructUserReply, myConstructUserRplMyinfoReply, writeReply_user_eq_ok,
    responseLusers_eq_ok, responseMotd_eq_ok,
    and_assoc, exists_and_left, exists_eq_left, Work.scribble_buf, Work.send_buf, Work.send_srv,
    Work.scribble_srv, Res.pure_eq, optParam, Option.map_none, Option.toList_none, List.nil_append,
    hsrv]
  constructor
  · rintro ⟨-, hnick, hstored, h1, -, h2, -, h3, h4, h5, h6, -, h⟩
    refine ⟨⟨hnick, hstored, ?_⟩, ?_⟩
    · simp only [registrationReplies, briefing, List.forall_mem_append, List.forall_mem_cons]
      exact ⟨h1, ⟨⟨h2, h3, h4, List.forall_mem_nil _⟩, h5⟩, h6⟩
    · rw [← Except.ok.inj h]
      simp only [Work.registered, Work.send, Work.scribble, registrationReplies, welcome, briefing,
        List.append_assoc, List.cons_append, List.nil_append]
      rfl
  · rintro ⟨⟨hnick, hstored, hfits⟩, rfl⟩
    simp only [registrationReplies, briefing, List.forall_mem_append, List.forall_mem_cons] at hfits
    obtain ⟨h1, ⟨⟨h2, h3, h4, -⟩, h5⟩, h6⟩ := hfits
    refine ⟨h1.length_lt (by simp [welcome]), hnick, hstored, h1, h2.length_lt (by simp), h2,
      h3.length_lt (by simp), h3, h4, h5, h6, hnick, ?_⟩
    simp only [Work.registered, Work.send, Work.scribble, registrationReplies, welcome, briefing,
      List.append_assoc, List.cons_append, List.nil_append]
    rfl

/-! ## The outcomes -/

/-- `connection_count` and `registered_connection_count` after a QUIT -/
def Server.uncount (srv : Server) : Server :=
  { srv with
    connectionCount := srv.connectionCount - 1
    registeredConnectionCount := srv.registeredConnectionCount - 1 }

/-- `registered_connection_count` after a NICK -/
def Server.mask (srv : Server) : Server :=
  { srv with registeredConnectionCount := srv.registeredConnectionCount % 2 }

def Server.addNick (srv : Server) (nick : CStr) : Server :=
  { srv with nickHead := addUserNode srv.nickHead ⟨nick, none⟩ }

def Server.addUser (srv : Server) (user : CStr) (msg : Message) : Server :=
  { srv with userHead := addUserNode srv.userHead ⟨user, some msg⟩ }

def Server.freeMsg (srv : Server) (nick : CStr) : Server :=
  { srv with connectionHash := freeConnectionMapMsg srv.connectionHash nick }

def Work.update (w : Work) (srv : Server) : Work := { w with srv := srv }

@[simp] theorem Work.update_srv (w : Work) (srv' : Server) : (w.update srv').srv = srv' := rfl
@[simp] theorem Work.update_buf (w : Work) (srv' : Server) : (w.update srv').buf = w.buf := rfl
@[simp] theorem Work.update_out (w : Work) (srv' : Server) : (w.update srv').out = w.out := rfl
@[simp] theorem Work.update_closed (w : Work) (srv' : Server) :
    (w.update srv').closed = w.closed := rfl

/-- The replies to a WHOIS of `nick`, who registered with the message `userMsg`. -/
def whoisReplies (ctx : Ctx) (asker nick : CStr) (userMsg : Message) : List Message :=
  [reply ctx asker rplWhoisuser ((userMsg.cmd, false) :: copiedParams userMsg.params),
    reply ctx asker rplWhoisserver
      [(nick, false), (ctx.servername, false), (lit "Ubuntu", true)],
    reply ctx asker rplEndofwhois [(asker, true), (lit "End of WHOIS list", true)]]

/-- An error reply whose text the handler first prints into `buf`. -/
def Work.complain (ctx : Ctx) (nick code : CStr) (ps : List (CStr × Bool)) (text : CStr)
    (w : Work) : Work :=
  (w.scribble text).send [reply ctx nick code (ps ++ [(text, true)])]

/-- Everything that the handling of a message can do, one case for each outcome. -/
inductive Handled (ctx : Ctx) (fd : Nat) (msg : Message) (w : Work) : Work → Prop
  | ping : command msg.cmd = .ping →
    Handled ctx fd msg w (w.send [plain (lit "PONG") [(lit "xixi", false)]])
  | pong : command msg.cmd = .pong → Handled ctx fd msg w w
  | quit (text : CStr) : command msg.cmd = .quit →
    Handled ctx fd msg w
      { (w.update w.srv.uncount |>.scribble text).send [plain (lit "ERROR") [(text, true)]] with
        closed := true }
  | lusers : command msg.cmd = .lusers →
    Handled ctx fd msg w (w.send (w.srv.lusers ctx (sockfdNick w.srv fd)))
  | motd : command msg.cmd = .motd →
    Handled ctx fd msg w (w.send (motdReplies ctx (sockfdNick w.srv fd) true))
  | whoisIgnored : command msg.cmd = .whois → msg.params.length ≠ 1 → Handled ctx fd msg w w
  | whoisAbsent (nick asker) : command msg.cmd = .whois → msg.params = [nick] →
    findSockfdNickMapNode w.srv.sockfdNickHash fd = some asker →
    findConnectionMapNode w.srv.connectionHash nick = none →
    Handled ctx fd msg w (w.send [reply ctx asker.name errNosuchnick
      [(nick, false), (lit "No such nick/channel", true)]])
  | whoisFound (nick asker node userMsg) : command msg.cmd = .whois → msg.params = [nick] →
    findSockfdNickMapNode w.srv.sockfdNickHash fd = some asker →
    findConnectionMapNode w.srv.connectionHash nick = some node → node.msg = .live userMsg →
    Handled ctx fd msg w
      ((w.update (w.srv.freeMsg nick)).send (whoisReplies ctx asker.name nick userMsg))
  | privmsgFound (name node) : command msg.cmd = .privmsg → msg.params.head? = some name →
    findConnectionMapNode w.srv.connectionHash name = some node → Handled ctx fd msg w w
  | privmsgAbsent (name) : command msg.cmd = .privmsg → msg.params.head? = some name →
    findConnectionMapNode w.srv.connectionHash name = none →
    Handled ctx fd msg w (w.complain ctx (leastNick w.srv) errNotregistered []
      (lit "You have not registered"))
  | nickMissing : command msg.cmd = .nick → msg.params = [] →
    Handled ctx fd msg w ((w.update w.srv.mask).complain ctx (leastNick w.srv) errNonicknamegiven []
      (lit "No nickname given"))
  | nickInUse (nick node) : command msg.cmd = .nick → msg.params = [nick] →
    findConnectionMapNode w.srv.connectionHash nick = some node →
    Handled ctx fd msg w ((w.update w.srv.mask).complain ctx (lit "*") errNicknameinuse
      [(nick, false)] (lit "Nickname is already in use"))
  | nickKnown (nick node) : command msg.cmd = .nick → msg.params = [nick] →
    findConnectionMapNode w.srv.connectionHash nick = none →
    findUserNode w.srv.nickHead nick = some node → Handled ctx fd msg w (w.update w.srv.mask)
  | nickPosted (nick) : command msg.cmd = .nick → msg.params = [nick] →
    findConnectionMapNode w.srv.connectionHash nick = none →
    findUserNode w.srv.nickHead nick = none → findUserNode w.srv.userHead nick = none →
    Handled ctx fd msg w (w.update (w.srv.mask.addNick nick))
  | nickRegisters (nick node user) : command msg.cmd = .nick → msg.params = [nick] →
    findConnectionMapNode w.srv.connectionHash nick = none →
    findUserNode w.srv.nickHead nick = none → findUserNode w.srv.userHead nick = some node →
    node.msg = some user →
    Handled ctx fd msg w ((w.update (w.srv.mask.addNick nick)).registered ctx fd nick nick
      (storedMessage user.cmd user.params))
  | nickIgnored : command msg.cmd = .nick → 2 ≤ msg.params.length →
    Handled ctx fd msg w (w.update w.srv.mask)
  | userMissing (name) : command msg.cmd = .user → msg.params.head? = some name →
    msg.params.length < 4 →
    Handled ctx fd msg w (w.complain ctx (leastNick w.srv) errNeedmoreparams [(lit "USER", false)]
      (lit "Not enough parameters"))
  | userKnown (name node) : command msg.cmd = .user → msg.params.head? = some name →
    4 ≤ msg.params.length → findUserNode w.srv.userHead name = some node → Handled ctx fd msg w w
  | userPosted (name) : command msg.cmd = .user → msg.params.head? = some name →
    4 ≤ msg.params.length → (storedMessage msg.cmd msg.params).params.length ≤ 15 →
    findUserNode w.srv.userHead name = none →
    (findUserNode w.srv.nickHead name = none ∨ msg.params.length ≠ 4) →
    Handled ctx fd msg w (w.update (w.srv.addUser name (storedMessage msg.cmd msg.params)))
  | userRegisters (name node) : command msg.cmd = .user → msg.params.head? = some name →
    msg.params.length = 4 → (storedMessage msg.cmd msg.params).params.length ≤ 15 →
    findUserNode w.srv.userHead name = none → findUserNode w.srv.nickHead name = some node →
    Handled ctx fd msg w
      ((w.update (w.srv.addUser name (storedMessage msg.cmd msg.params))).registered
        ctx fd name name (storedMessage msg.cmd msg.params))
  | unknownIgnored : command msg.cmd = .unknown →
    findSockfdNickMapNode w.srv.sockfdNickHash fd = none → Handled ctx fd msg w w
  | unknown (node) : command msg.cmd = .unknown →
    findSockfdNickMapNode w.srv.sockfdNickHash fd = some node →
    Handled ctx fd msg w (w.send [reply ctx node.name errUnknowncommand
      [(msg.cmd, true), (lit "Unknown command", true)]])

theorem onQuit_handled (hcmd : command msg.cmd = .quit) (h : onQuit ctx msg w = .ok w') :
    Handled ctx fd msg w w' := by
  simp only [onQuit, responseQuit, myConstructUserQuitReply, Except.bind_eq_ok, sprintfBuf_eq_ok,
    writeReply_quit_eq_ok, Res.pure_eq] at h
  obtain ⟨_, ⟨-, rfl⟩, _, ⟨-, rfl⟩, h⟩ := h
  cases h
  exact .quit _ hcmd

theorem findUserNode_name (h : findUserNode head name = some node) : node.name = name := by
  simpa using List.find?_some h

theorem findConnectionMapNode_name (h : findConnectionMapNode nodes name = some node) :
    node.name = name := by
  simpa using List.find?_some h

theorem Cell.read_eq_ok {cell : Cell α} : cell.read = .ok a ↔ cell = .live a := by
  cases cell with
  | live b => simp [read]
  | freed => simp [read]

theorem responseWhois_absent (hasker : findSockfdNickMapNode w.srv.sockfdNickHash fd = some asker)
    (hnode : findConnectionMapNode w.srv.connectionHash nick = none) :
    responseWhois ctx nick fd w = .ok w' ↔
      (reply ctx asker.name errNosuchnick
        [(nick, false), (lit "No such nick/channel", true)]).Fits ∧
      w' = w.send [reply ctx asker.name errNosuchnick
        [(nick, false), (lit "No such nick/channel", true)]] := by
  simp only [responseWhois, hnode, hasker]
  exact writeReply_user_eq_ok

/-- A query that finds a record frees its message. -/
theorem responseWhois_found (hasker : findSockfdNickMapNode w.srv.sockfdNickHash fd = some asker)
    (hnode : findConnectionMapNode w.srv.connectionHash nick = some node)
    (h : responseWhois ctx nick fd w = .ok w') : ∃ userMsg, node.msg = .live userMsg ∧
      (∀ m ∈ whoisReplies ctx asker.name nick userMsg, m.Fits) ∧
      w' = (w.update (w.srv.freeMsg nick)).send (whoisReplies ctx asker.name nick userMsg) := by
  simp only [responseWhois, hnode, hasker, myConstructUserWhoisReply, Cell.read_eq_ok,
    myConstructUserWhoisWhoisserverReply, myConstructUserWhoisEndofwhoisReply, Except.bind_eq_ok,
    writeReply_user_eq_ok, Res.pure_eq] at h
  obtain ⟨_, ⟨userMsg, hmsg, _, ⟨hfits₁, rfl⟩, h₁⟩, _, ⟨hfits₂, rfl⟩, hfits₃, rfl⟩ := h
  cases h₁
  refine ⟨userMsg, hmsg, ?_, ?_⟩
  · simp only [whoisReplies, List.forall_mem_cons]
    exact ⟨hfits₁, hfits₂, hfits₃, List.forall_mem_nil _⟩
  · rw [findConnectionMapNode_name hnode]
    simp only [whoisReplies, Work.send, Work.update, Server.freeMsg, List.append_assoc,
      List.cons_append, List.nil_append]

theorem onWhois_handled (hcmd : command msg.cmd = .whois) (h : onWhois ctx fd msg w = .ok w') :
    Handled ctx fd msg w w' := by
  rw [onWhois] at h
  split at h
  · next nick hparams =>
    cases hasker : findSockfdNickMapNode w.srv.sockfdNickHash fd with
    | none =>
      simp only [responseWhois, hasker] at h
      cases h
    | some asker =>
      cases hnode : findConnectionMapNode w.srv.connectionHash nick with
      | none =>
        obtain ⟨-, rfl⟩ := (responseWhois_absent hasker hnode).mp h
        exact .whoisAbsent nick asker hcmd hparams hasker hnode
      | some node =>
        obtain ⟨userMsg, hmsg, -, rfl⟩ := responseWhois_found hasker hnode h
        exact .whoisFound nick asker node userMsg hcmd hparams hasker hnode hmsg
  · next hone =>
    cases h
    refine .whoisIgnored hcmd fun hlen => ?_
    obtain ⟨nick, hparams⟩ := List.length_eq_one_iff.mp hlen
    exact hone nick hparams

/-- An error reply whose text is printed into `buf` first. -/
theorem complain_eq_ok {text : CStr} (nick : Server → CStr) : (do
      let w ← sprintfBuf text w
      myConstructUserReply ctx code w.buf extra (nick w.srv) w) = .ok w' ↔
    (reply ctx (nick w.srv) code (optParam false extra ++ [(text, true)])).Fits ∧
      w' = w.complain ctx (nick w.srv) code (optParam false extra) text := by
  simp only [myConstructUserReply, Except.bind_eq_ok, sprintfBuf_eq_ok, writeReply_user_eq_ok,
    and_assoc, exists_and_left, exists_eq_left]
  constructor
  · rintro ⟨-, hfits, h⟩
    exact ⟨hfits, h⟩
  · rintro ⟨hfits, h⟩
    exact ⟨hfits.length_lt (by simp), hfits, h⟩

theorem firstParam_eq_ok : firstParam msg = .ok name ↔ msg.params.head? = some name := by
  rw [firstParam]
  split <;> simp [*]

theorem onPrivmsg_handled (hcmd : command msg.cmd = .privmsg) (h : onPrivmsg ctx msg w = .ok w') :
    Handled ctx fd msg w w' := by
  obtain ⟨name, hname, h⟩ := Except.bind_eq_ok.mp h
  rw [firstParam_eq_ok] at hname
  split at h
  · next node hnode =>
    cases h
    exact .privmsgFound name node hcmd hname hnode
  · next hnode =>
    obtain ⟨-, rfl⟩ := (complain_eq_ok leastNick).mp h
    exact .privmsgAbsent name hcmd hname hnode

theorem onNick_handled (hcmd : command msg.cmd = .nick) (h : onNick ctx fd msg w = .ok w') :
    Handled ctx fd msg w w' := by
  simp only [onNick] at h
  split at h
  · next hparams =>
    obtain ⟨-, rfl⟩ := (complain_eq_ok leastNick).mp h
    exact .nickMissing hcmd hparams
  · next nick hparams =>
    split at h
    · next node hnode =>
      obtain ⟨-, rfl⟩ := (complain_eq_ok fun _ => lit "*").mp h
      exact .nickInUse nick node hcmd hparams hnode
    · next hnode =>
      split at h
      · next node hnick =>
        cases h
        exact .nickKnown nick node hcmd hparams hnode hnick
      · next hnick =>
        simp only [Except.bind_eq_ok, copyName_eq_ok] at h
        obtain ⟨_, ⟨-, rfl⟩, h⟩ := h
        split at h
        · next huser =>
          cases h
          exact .nickPosted _ hcmd hparams hnode hnick huser
        · next node huser =>
          split at h
          · cases h
          · next user hmsg =>
            rw [findUserNode_name huser] at h
            obtain ⟨-, rfl⟩ := completeRegistration_eq_ok.mp h
            exact .nickRegisters _ node user hcmd hparams hnode hnick huser hmsg
  · next hnil hone =>
    cases h
    refine .nickIgnored hcmd ?_
    rcases hp : msg.params with _ | ⟨p, _ | ⟨q, ps⟩⟩
    · exact absurd hp hnil
    · exact absurd hp (hone p)
    · simp

theorem onUser_handled (hcmd : command msg.cmd = .user) (h : onUser ctx fd msg w = .ok w') :
    Handled ctx fd msg w w' := by
  simp only [onUser] at h
  obtain ⟨name, hname, h⟩ := Except.bind_eq_ok.mp h
  rw [firstParam_eq_ok] at hname
  split at h
  · next hlen =>
    obtain ⟨-, rfl⟩ := (complain_eq_ok leastNick).mp h
    exact .userMissing name hcmd hname hlen
  · next hlen =>
    have hlen : 4 ≤ msg.params.length := Nat.le_of_not_lt hlen
    split at h
    · next node huser =>
      cases h
      exact .userKnown name node hcmd hname hlen huser
    · next huser =>
      simp only [Except.bind_eq_ok, copyName_eq_ok] at h
      obtain ⟨_, ⟨-, rfl⟩, copy, hcopy, h⟩ := h
      obtain ⟨hstored, rfl⟩ := (addParameters_eq_ok (by simp [chircMessageConstruct])).mp hcopy
      split at h
      · next hnick =>
        cases h
        exact .userPosted _ hcmd hname hlen hstored huser (.inl hnick)
      · next node hnick =>
        split at h
        · next hfour =>
          rw [findUserNode_name hnick] at h
          obtain ⟨-, rfl⟩ := completeRegistration_eq_ok.mp h
          exact .userRegisters _ node hcmd hname hfour hstored huser hnick
        · next hfour =>
          cases h
          exact .userPosted _ hcmd hname hlen hstored huser (.inr hfour)

/-- A message that is handled without a fault has one of these outcomes. -/
theorem dispatch_handled (h : dispatch ctx fd msg w = .ok w') : Handled ctx fd msg w w' := by
  rw [dispatch] at h
  split at h
  · next hcmd =>
    obtain ⟨-, rfl⟩ := writeReply_quit_eq_ok.mp h
    exact .ping hcmd
  · next hcmd =>
    cases h
    exact .pong hcmd
  · next hcmd => exact onQuit_handled hcmd h
  · next hcmd =>
    obtain ⟨-, rfl⟩ := responseLusers_eq_ok.mp h
    exact .lusers hcmd
  · next hcmd =>
    obtain ⟨-, rfl⟩ := responseMotd_eq_ok.mp h
    exact .motd hcmd
  · next hcmd => exact onWhois_handled hcmd h
  · next hcmd => exact onPrivmsg_handled hcmd h
  · next hcmd => exact onNick_handled hcmd h
  · next hcmd => exact onUser_handled hcmd h
  · next hcmd =>
    rw [onUnknown] at h
    split at h
    · next hnode =>
      cases h
      exact .unknownIgnored hcmd hnode
    · next node hnode =>
      obtain ⟨-, rfl⟩ := writeReply_user_eq_ok.mp h
      exact .unknown node hcmd hnode

/-! ## What is sent

A handler that ends has written its replies, so that each of them had room in the buffers. -/

/-- What has been written in addition had room. -/
def Sends (w w' : Work) : Prop := ∃ ms, w'.out = w.out ++ ms ∧ ∀ m ∈ ms, m.Fits

theorem Sends.silent (h : w'.out = w.out) : Sends w w' :=
  ⟨[], by rw [h, List.append_nil], List.forall_mem_nil _⟩

theorem Sends.single (hfits : m.Fits) (h : w'.out = w.out ++ [m]) : Sends w w' :=
  ⟨[m], h, List.forall_mem_singleton.mpr hfits⟩

theorem Work.registered_sends {w₁ : Work}
    (hfits : RegistrationFits ctx (w₁.srv.bind fd nick stored) nick user stored)
    (hout : w₁.out = w.out) : Sends w (w₁.registered ctx fd nick user stored) :=
  ⟨_, by rw [Work.registered_out, hout], hfits.fits⟩

theorem onQuit_sends (h : onQuit ctx msg w = .ok w') : Sends w w' := by
  simp only [onQuit, responseQuit, myConstructUserQuitReply, Except.bind_eq_ok, sprintfBuf_eq_ok,
    writeReply_quit_eq_ok, Res.pure_eq] at h
  obtain ⟨_, ⟨-, rfl⟩, _, ⟨hfits, rfl⟩, h⟩ := h
  cases h
  exact .single hfits rfl

theorem onWhois_sends (h : onWhois ctx fd msg w = .ok w') : Sends w w' := by
  rw [onWhois] at h
  split at h
  · next nick hparams =>
    cases hasker : findSockfdNickMapNode w.srv.sockfdNickHash fd with
    | none =>
      simp only [responseWhois, hasker] at h
      cases h
    | some asker =>
      cases hnode : findConnectionMapNode w.srv.connectionHash nick with
      | none =>
        obtain ⟨hfits, rfl⟩ := (responseWhois_absent hasker hnode).mp h
        exact .single hfits rfl
      | some node =>
        obtain ⟨userMsg, -, hfits, rfl⟩ := responseWhois_found hasker hnode h
        exact ⟨_, rfl, hfits⟩
  · cases h
    exact .silent rfl

theorem onPrivmsg_sends (h : onPrivmsg ctx msg w = .ok w') : Sends w w' := by
  obtain ⟨name, -, h⟩ := Except.bind_eq_ok.mp h
  split at h
  · cases h
    exact .silent rfl
  · obtain ⟨hfits, rfl⟩ := (complain_eq_ok leastNick).mp h
    exact .single hfits rfl

theorem onNick_sends (h : onNick ctx fd msg w = .ok w') : Sends w w' := by
  simp only [onNick] at h
  split at h
  · obtain ⟨hfits, rfl⟩ := (complain_eq_ok leastNick).mp h
    exact .single hfits rfl
  · split at h
    · obtain ⟨hfits, rfl⟩ := (complain_eq_ok fun _ => lit "*").mp h
      exact .single hfits rfl
    · split at h
      · cases h
        exact .silent rfl
      · simp only [Except.bind_eq_ok, copyName_eq_ok] at h
        obtain ⟨_, ⟨-, rfl⟩, h⟩ := h
        split at h
        · cases h
          exact .silent rfl
        · next node huser =>
          split at h
          · cases h
          · rw [findUserNode_name huser] at h
            obtain ⟨hfits, rfl⟩ := completeRegistration_eq_ok.mp h
            exact Work.registered_sends hfits rfl
  · cases h
    exact .silent rfl

theorem onUser_sends (h : onUser ctx fd msg w = .ok w') : Sends w w' := by
  simp only [onUser] at h
  obtain ⟨name, -, h⟩ := Except.bind_eq_ok.mp h
  split at h
  · obtain ⟨hfits, rfl⟩ := (complain_eq_ok leastNick).mp h
    exact .single hfits rfl
  · split at h
    · cases h
      exact .silent rfl
    · simp only [Except.bind_eq_ok, copyName_eq_ok] at h
      obtain ⟨_, ⟨-, rfl⟩, copy, -, h⟩ := h
      split at h
      · cases h
        exact .silent rfl
      · next node hnick =>
        split at h
        · rw [findUserNode_name hnick] at h
          obtain ⟨hfits, rfl⟩ := completeRegistration_eq_ok.mp h
          exact Work.registered_sends hfits rfl
        · cases h
          exact .silent rfl

theorem dispatch_sends (h : dispatch ctx fd msg w = .ok w') : Sends w w' := by
  rw [dispatch] at h
  split at h
  · obtain ⟨hfits, rfl⟩ := writeReply_quit_eq_ok.mp h
    exact .single hfits rfl
  · cases h
    exact .silent rfl
  · exact onQuit_sends h
  · obtain ⟨hfits, rfl⟩ := responseLusers_eq_ok.mp h
    exact ⟨_, rfl, hfits⟩
  · obtain ⟨hfits, rfl⟩ := responseMotd_eq_ok.mp h
    exact ⟨_, rfl, hfits⟩
  · exact onWhois_sends h
  · exact onPrivmsg_sends h
  · exact onNick_sends h
  · exact onUser_sends h
  · rw [onUnknown] at h
    split at h
    · cases h
      exact .silent rfl
    · obtain ⟨hfits, rfl⟩ := writeReply_user_eq_ok.mp h
      exact .single hfits rfl

end Chirc
