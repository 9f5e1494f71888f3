import Chirc.Verify.Ownership
import Chirc.Verify.TagOrder

/-! # The completion of a registration

At the command with which a connection has sent both a NICK and a USER, the code looks for a record
on the other list that has the same name: the nick is compared with the user name. A client whose
two names differ is therefore not registered. -/

namespace Chirc

open Rendezvous

/-! ## The stored USER messages -/

/-- Every node of `user_head` has a message, with no more parameters than a parsed one. -/
def Server.UsersStored (srv : Server) : Prop :=
  ∀ node ∈ srv.userHead, ∃ msg, node.msg = some msg ∧ msg.params.length ≤ 15

theorem Server.UsersStored.addUser {srv : Server} {stored : Message} (H : srv.UsersStored)
    (hle : stored.params.length ≤ 15) : (srv.addUser user stored).UsersStored := by
  intro node hnode
  rcases List.mem_append.mp hnode with hnode | hnode
  · exact H node hnode
  · rw [List.mem_singleton.mp hnode]
    exact ⟨stored, rfl, hle⟩

theorem Handled.usersStored {w w' : Work} (H : Handled ctx fd msg w w')
    (hstored : w.srv.UsersStored) : w'.srv.UsersStored := by
  cases H with
  | userPosted name hcmd hname hlen hle => exact hstored.addUser hle
  | userRegisters name node hcmd hname hlen hle => exact hstored.addUser hle
  | _ => exact hstored

theorem Run.usersStored {σ : Sys} (hrun : Run ctx tr σ) : σ.server.UsersStored := by
  refine TransitionSystem.Run.invariant (P := fun _ σ => σ.server.UsersStored) ?_ ?_ hrun
  · rintro _ rfl
    exact nofun
  · intro tr σ l σ' _ hstored hstep
    cases step_cases hstep with
    | command t th p line msg w hth hp hparses hw =>
      rw [Sys.handled_server]
      exact (dispatch_handled hw).usersStored hstored
    | _ => exact hstored

/-! ## The command that registers -/

theorem registrationReplies_congr {srv srv' : Server}
    (hsize : srv.connectionHash.length = srv'.connectionHash.length)
    (hcount : srv.connectionCount = srv'.connectionCount) :
    registrationReplies ctx srv nick user = registrationReplies ctx srv' nick user := by
  rw [registrationReplies, registrationReplies, briefing, briefing,
    Server.lusers_congr hsize hcount]

theorem RegistrationFits.congr {srv srv' : Server} {stored stored' : Message}
    (H : RegistrationFits ctx srv nick user stored) (hle : stored'.params.length ≤ 15)
    (hsize : srv.connectionHash.length = srv'.connectionHash.length)
    (hcount : srv.connectionCount = srv'.connectionCount) :
    RegistrationFits ctx srv' nick user stored' :=
  ⟨H.nick_lt, hle, registrationReplies_congr hsize hcount ▸ H.fits⟩

@[simp] theorem storedMessage_params : (storedMessage cmd params).params = params :=
  map_fst_copiedParams params

theorem onNick_registers (hparams : msg.params = [nick])
    (hconn : findConnectionMapNode w.srv.connectionHash nick = none)
    (hnick : findUserNode w.srv.nickHead nick = none)
    (huser : findUserNode w.srv.userHead nick = some node) (hmsg : node.msg = some user)
    (hle : user.params.length ≤ 15) :
    (∃ w', onNick ctx fd msg w = .ok w') ↔
      RegistrationFits ctx (w.srv.bind fd nick msg) nick nick msg := by
  simp only [onNick, hparams, hconn, hnick, Except.bind_eq_ok, copyName_eq_ok, and_assoc,
    exists_and_left, exists_eq_left, huser, hmsg, findUserNode_name huser,
    completeRegistration_eq_ok, exists_eq, and_true]
  constructor
  · rintro ⟨-, H⟩
    exact H.congr (by simp [hparams]) rfl rfl
  · intro H
    exact ⟨H.nick_lt, H.congr (by rwa [storedMessage_params]) rfl rfl⟩

theorem onUser_registers (hname : msg.params.head? = some user) (hlen : msg.params.length = 4)
    (huser : findUserNode w.srv.userHead user = none)
    (hnick : findUserNode w.srv.nickHead user = some node) :
    (∃ w', onUser ctx fd msg w = .ok w') ↔
      RegistrationFits ctx (w.srv.bind fd user msg) user user msg := by
  have hadd (copy : Message) : addParameters (chircMessageConstruct none msg.cmd)
      (copiedParams msg.params) = .ok copy ↔
      (storedMessage msg.cmd msg.params).params.length ≤ 15 ∧
        copy = storedMessage msg.cmd msg.params :=
    addParameters_eq_ok (by simp [chircMessageConstruct])
  have hstored : (storedMessage msg.cmd msg.params).params.length ≤ 15 := by
    rw [storedMessage_params]
    omega
  simp only [onUser, Except.bind_eq_ok, firstParam_eq_ok, hname, Option.some.injEq, exists_eq_left',
    hlen, Nat.lt_irrefl, if_false, huser, hnick, if_true, copyName_eq_ok, hadd, and_assoc,
    exists_and_left, exists_eq_left, findUserNode_name hnick, completeRegistration_eq_ok,
    exists_eq, and_true]
  constructor
  · rintro ⟨-, -, H⟩
    exact H.congr (by omega) rfl rfl
  · intro H
    exact ⟨H.nick_lt, hstored, H.congr hstored rfl rfl⟩

/-- A command that registers succeeds exactly if there is room for all that it writes. -/
theorem dispatch_registers {b : Board CStr Nat} (hb : Represents w.srv b)
    (hstored : w.srv.UsersStored) (hreg : registers w.srv msg = some nick) :
    (∃ w', dispatch ctx fd msg w = .ok w') ↔
      RegistrationFits ctx (w.srv.bind fd nick msg) nick nick msg := by
  rcases registers_eq_some.mp hreg with ⟨hreq, hnick, huser⟩ | ⟨hreq, huser, hnick⟩
  · obtain ⟨hcmd, hparams⟩ := request_eq_left hreq
    have hconn : findConnectionMapNode w.srv.connectionHash nick = none := by
      by_contra hfound
      exact hb.nick_mem_iff.mp (hb.mem_left_of_found hfound) hnick
    obtain ⟨node, huser⟩ := Option.ne_none_iff_exists'.mp huser
    obtain ⟨user, hmsg, hle⟩ := hstored node (List.mem_of_find?_eq_some huser)
    rw [dispatch, hcmd]
    exact onNick_registers hparams hconn hnick huser hmsg hle
  · obtain ⟨hcmd, hname, -, hlook⟩ := request_eq_right hreq
    obtain ⟨node, hnick⟩ := Option.ne_none_iff_exists'.mp hnick
    rw [dispatch, hcmd]
    exact onUser_registers hname (hlook.mp rfl) huser hnick

/-! ## Names that were sent -/

/-- A name that was posted on a side of the board is still there. -/
theorem Run.mem_sides {σ : Sys} (hrun : Run ctx tr σ) (he : e ∈ tr) :
    (∀ nick, e.2.request = .left nick → nick ∈ names σ.server.nickHead) ∧
    (∀ user look, e.2.request = .right user look → user ∈ names σ.server.userHead) := by
  induction hrun with
  | nil => cases he
  | @cons tr σ l σ' hrun hstep ih =>
    obtain ⟨b, hb⟩ := Run.represents hrun
    obtain ⟨fd, hb'⟩ := (step_cases hstep).represents hb
    rw [hb'.left, hb'.right]
    rcases List.mem_cons.mp he with rfl | he
    · constructor
      · intro nick hreq
        rw [hreq]
        exact Board.mem_pin.mpr (.inr rfl)
      · intro user look hreq
        rw [hreq]
        exact Board.mem_pin.mpr (.inr rfl)
    · constructor
      · intro nick hreq
        exact Board.subset_leftAfter (hb.left ▸ (ih he).1 nick hreq)
      · intro user look hreq
        exact Board.subset_rightAfter (hb.right ▸ (ih he).2 user look hreq)

/-- A command that was handled is the one of a step. -/
theorem exists_sent_of_mem_commands (he : e ∈ commands tr) :
    ∃ σ l tr', (σ, l) ∈ tr ∧ l.sent tr' σ = some e := by
  induction tr with
  | nil => cases he
  | cons e' tr ih =>
    obtain ⟨σ, l⟩ := e'
    rw [commands, List.mem_append, Option.mem_toList] at he
    rcases he with hsent | he
    · exact ⟨σ, l, tr, List.mem_cons_self, hsent⟩
    · obtain ⟨σ', l', tr', hmem, hsent⟩ := ih he
      exact ⟨σ', l', tr', List.mem_cons_of_mem _ hmem, hsent⟩

theorem exists_request_of_message (he : e ∈ commands tr) (hmsg : e.message c = some msg) :
    ∃ e' ∈ tr, e'.2.request = Chirc.request msg := by
  obtain ⟨σ, l, tr', hmem, hsent⟩ := exists_sent_of_mem_commands he
  refine ⟨_, hmem, ?_⟩
  cases l with
  | command t fd d line msg' out =>
    cases hsent
    rw [SentCommand.message] at hmsg
    split at hmsg
    · cases hmsg
      rfl
    · cases hmsg
  | _ => cases hsent

theorem Run.mem_of_lastNick {σ : Sys} (hrun : Run ctx tr σ) (h : lastNick tr c = some nick) :
    nick ∈ names σ.server.nickHead := by
  obtain ⟨e, he, hmsg⟩ := List.exists_of_findSome?_eq_some h
  obtain ⟨msg, hmsg, hnick⟩ := Option.bind_eq_some_iff.mp hmsg
  obtain ⟨e', he', hreq⟩ := exists_request_of_message he hmsg
  exact (hrun.mem_sides he').1 nick (hreq.trans (nickParam_eq_some.mp hnick))

theorem Run.mem_of_lastUser {σ : Sys} (hrun : Run ctx tr σ) (h : lastUser tr c = some user) :
    user ∈ names σ.server.userHead := by
  obtain ⟨e, he, hmsg⟩ := List.exists_of_findSome?_eq_some h
  obtain ⟨msg, hmsg, huser⟩ := Option.bind_eq_some_iff.mp hmsg
  obtain ⟨look, hreq⟩ := userParam_eq_some.mp huser
  obtain ⟨e', he', hreq'⟩ := exists_request_of_message he hmsg
  exact (hrun.mem_sides he').2 user look (hreq'.trans hreq)

/-! ## The completing command -/

/-- Connection `c` sent the next line of thread `t`, and with its message `msg` it has for the first
time sent both a NICK and a USER, the last ones being for `nick` and for `user`. -/
def FirstComplete (tr : History) (σ : Sys) (t c : Nat) (msg : Message) (nick user : CStr) : Prop :=
  senderOf tr σ t = some c ∧
    ((nickParam msg = some nick ∧ lastNick tr c = none ∧ lastUser tr c = some user) ∨
      (userParam msg = some user ∧ lastUser tr c = none ∧ lastNick tr c = some nick))

instance : Decidable (FirstComplete tr σ t c msg nick user) := inferInstanceAs (Decidable (_ ∧ _))

/-- The next line of thread `t` registers connection `c` on `fd` under `nick`, and the connection
gets its only welcome, for these names. -/
def CompletesRegistration (ctx : Ctx) (tr : History) (σ : Sys) (t fd c : Nat) (nick user : CStr) :
    Prop :=
  ∃ σ' l, step ctx σ (.line t) = .ok (σ', l) ∧
    (∃ node, findConnectionMapNode σ'.server.connectionHash nick = some node ∧ node.fd = fd) ∧
    (∃ node, findSockfdNickMapNode σ'.server.sockfdNickHash fd = some node ∧ node.name = nick) ∧
    ∃ m ∈ l.sentTo c, welcomes ((σ, l) :: tr) c = [m] ∧
      m.params.getLast? = some (welcomeText ctx nick user)

/-- The two names are the same; the connection is still open on the descriptor, and has not been
welcomed; the command is the first to send the name and, if it is a USER, has four parameters; there
is room for the names and the replies; and no older node of the descriptor comes to stand before the
new one. -/
structure CanComplete (ctx : Ctx) (tr : History) (σ : Sys) (fd c : Nat) (msg : Message)
    (nick user : CStr) : Prop where
  same : nick = user
  isOpen : σ.connOn fd = some c
  unwelcomed : welcomes tr c = []
  nick_free : nickParam msg = some nick → findUserNode σ.server.nickHead nick = none
  user_free : userParam msg = some user →
    findUserNode σ.server.userHead user = none ∧ msg.params.length = 4
  fits : RegistrationFits ctx (σ.server.bind fd nick msg) nick nick msg
  newest : FindsNewest σ.server fd nick

theorem CanComplete.registers {σ : Sys} (H : CanComplete ctx tr σ fd c msg nick user)
    (hrun : Run ctx tr σ) (hfirst : FirstComplete tr σ t c msg nick user) :
    registers σ.server msg = some nick := by
  obtain ⟨rfl, -, -, hnick, huser, -, -⟩ := H
  rw [registers_eq_some]
  rcases hfirst.2 with ⟨hparam, -, hlast⟩ | ⟨hparam, -, hlast⟩
  · refine .inl ⟨nickParam_eq_some.mp hparam, hnick hparam, ?_⟩
    rw [ne_eq, findUserNode_eq_none, not_not]
    exact hrun.mem_of_lastUser hlast
  · obtain ⟨look, hreq⟩ := userParam_eq_some.mp hparam
    obtain ⟨hnone, hlen⟩ := huser hparam
    obtain rfl : look = true := (request_eq_right hreq).2.2.2.mpr hlen
    refine .inr ⟨hreq, hnone, ?_⟩
    rw [ne_eq, findUserNode_eq_none, not_not]
    exact hrun.mem_of_lastNick hlast

theorem findUserNode_of_nickParam (hreg : registers srv msg = some name)
    (hparam : nickParam msg = some nick) : findUserNode srv.nickHead nick = none := by
  rcases registers_eq_some.mp hreg with ⟨hreq, hnick, -⟩ | ⟨hreq, -⟩
  · cases hreq.symm.trans (nickParam_eq_some.mp hparam)
    exact hnick
  · cases hreq.symm.trans (nickParam_eq_some.mp hparam)

theorem findUserNode_of_userParam (hreg : registers srv msg = some name)
    (hparam : userParam msg = some user) :
    findUserNode srv.userHead user = none ∧ msg.params.length = 4 := by
  obtain ⟨look, h⟩ := userParam_eq_some.mp hparam
  rcases registers_eq_some.mp hreg with ⟨hreq, -⟩ | ⟨hreq, huser, -⟩
  · cases hreq.symm.trans h
  · cases hreq.symm.trans h
    exact ⟨huser, (request_eq_right hreq).2.2.2.mp rfl⟩

/-- The nick of a command that registers is the name that the command sends. -/
theorem FirstComplete.names_eq (hfirst : FirstComplete tr σ t c msg nick user)
    (hreg : Chirc.registers srv msg = some name) : name = nick ∨ name = user := by
  rcases registers_eq_some.mp hreg with ⟨hreq, -⟩ | ⟨hreq, -⟩
  · rcases hfirst.2 with ⟨hparam, -⟩ | ⟨hparam, -⟩
    · cases hreq.symm.trans (nickParam_eq_some.mp hparam)
      exact .inl rfl
    · obtain ⟨look, h⟩ := userParam_eq_some.mp hparam
      cases hreq.symm.trans h
  · rcases hfirst.2 with ⟨hparam, -⟩ | ⟨hparam, -⟩
    · cases hreq.symm.trans (nickParam_eq_some.mp hparam)
    · obtain ⟨look, h⟩ := userParam_eq_some.mp hparam
      cases hreq.symm.trans h
      exact .inr rfl

/-- A welcome that names the same name twice is right for `nick` and `user` only if they are the
same. -/
theorem eq_of_welcomeText (hname : name = nick ∨ name = user)
    (h : welcomeText ctx name name = welcomeText ctx nick user) : nick = user := by
  simp only [welcomeText, List.append_assoc, List.append_cancel_left_eq] at h
  rcases hname with rfl | rfl
  · simpa using h
  · exact (List.append_cancel_right h).symm

theorem welcomes_registered {w₁ : Work} (hout : w₁.out = []) :
    welcomes
        ((σ, .command t fd (some c) line msg (w₁.registered ctx fd name name stored).out) :: tr) c =
      welcome ctx name name :: welcomes tr c := by
  rw [welcomes, List.flatMap_cons, Label.sentTo, if_pos rfl, Work.registered_out, hout,
    List.nil_append, filter_registrationReplies]
  rfl

/-- The node of a descriptor that a registration adds is found, as long as it is the newest that is
found. -/
theorem Registration.found_iff {σ : Sys} {srv : Server} (hrun : Run ctx tr σ)
    (hreg : registers σ.server msg = some nick)
    (htags : srv.sockfdNickHash = σ.server.sockfdNickHash) :
    (∃ node, findSockfdNickMapNode (srv.bind fd nick stored).sockfdNickHash fd = some node ∧
      node.name = nick) ↔ FindsNewest σ.server fd nick := by
  obtain ⟨b, hb⟩ := hrun.represents
  have hfresh : nick ∉ (bindings σ.server.connectionHash).map Prod.fst :=
    hb.bound ▸ Board.not_mem_bound_of_meets (hb.registers_eq.symm.trans hreg)
  rw [← hrun.tagNames.findsNewest_iff hfresh, Server.bind, htags]
  constructor
  · intro hfound
    obtain ⟨⟨fd', _⟩, hnode, rfl⟩ := hfound
    have hfd : fd' = fd := by simpa using List.find?_some hnode
    rwa [hfd] at hnode
  · intro hnode
    exact ⟨_, hnode, rfl⟩

/-- **A first NICK and USER complete a registration** exactly if the names in them are the same, and
what else the code needs is given. -/
theorem completesRegistration_iff {σ : Sys} (hrun : Run ctx tr σ) (hth : σ.threads t = some th)
    (hp : strstrCrlf th.buf = .ok (some p)) (hparses : Parses th p line msg)
    (hfirst : FirstComplete tr σ t c msg nick user) :
    CompletesRegistration ctx tr σ t th.sockfd c nick user ↔
      CanComplete ctx tr σ th.sockfd c msg nick user := by
  obtain ⟨b, hb⟩ := hrun.represents
  have hfits {name} (hreg : registers σ.server msg = some name) :
      (∃ w, dispatch ctx th.sockfd msg (th.work σ.server p) = .ok w) ↔
        RegistrationFits ctx (σ.server.bind th.sockfd name msg) name name msg :=
    dispatch_registers hb hrun.usersStored hreg
  constructor
  · rintro ⟨σ', l, hstep, -, hfound, m, hm, hwelcomes, htext⟩
    obtain ⟨w, hw, rfl, rfl⟩ := (step_line hth hp hparses).mp hstep
    have hc : σ.connOn th.sockfd = some c := by
      rw [Label.sentTo] at hm
      split at hm
      · assumption
      · cases hm
    rw [hc] at hm hwelcomes
    cases (dispatch_handled hw).registration hb with
    | silent hreg htags hms =>
      -- `m` is a welcome, and no reply of the step is
      have hmem : m ∈ welcomes _ c := hwelcomes ▸ List.mem_singleton_self m
      obtain ⟨e, -, hmem⟩ := List.mem_flatMap.mp hmem
      have hcmd : m.cmd = rplWelcome := by simpa using (List.mem_filter.mp hmem).2
      rw [Label.sentTo, if_pos rfl] at hm
      exact absurd hcmd ((hms m hm).resolve_left List.not_mem_nil).cmd_ne
    | welcomed name w₁ stored hreg htags hout h =>
      subst h
      rw [welcomes_registered hout] at hwelcomes
      obtain ⟨rfl, hnone⟩ := List.cons.inj hwelcomes
      have hname := hfirst.names_eq hreg
      obtain rfl := eq_of_welcomeText hname (Option.some.inj htext)
      obtain rfl : name = nick := hname.elim id id
      rw [Sys.handled_server] at hfound
      refine ⟨rfl, hc, hnone, fun hparam => ?_, fun hparam => ?_, (hfits hreg).mp ⟨_, hw⟩, ?_⟩
      · exact findUserNode_of_nickParam hreg hparam
      · exact findUserNode_of_userParam hreg hparam
      · exact (Registration.found_iff hrun hreg htags).mp hfound
  · intro H
    have hreg := H.registers hrun hfirst
    obtain ⟨w, hw⟩ := (hfits hreg).mpr H.fits
    refine ⟨_, _, (step_line hth hp hparses).mpr ⟨w, hw, rfl, rfl⟩, ?_⟩
    rw [Sys.handled_server, H.isOpen]
    cases (dispatch_handled hw).registration hb with
    | silent hnone => cases hreg.symm.trans hnone
    | welcomed name w₁ stored hreg' htags hout h =>
      cases hreg.symm.trans hreg'
      subst h
      refine ⟨⟨_, findConnectionMapNode_bind w₁.srv, rfl⟩,
        (Registration.found_iff hrun hreg htags).mpr H.newest, welcome ctx nick nick, ?_, ?_, ?_⟩
      · rw [Label.sentTo, if_pos rfl]
        exact List.mem_append_right _ List.mem_cons_self
      · rw [welcomes_registered hout, H.unwelcomed]
      · rw [← H.same]
        rfl

/-- A client has sent its NICK, and its USER waits in the buffer. -/
def beforeUser (nick user : String) : List Event :=
  [.accept 4, .recv 0 (lit "NICK " ++ lit nick ++ lit "\r\nUSER " ++ lit user ++ lit " * * :x\r\n"),
    .line 0]

/-- The message of its USER. -/
def userMessage (user : String) : Message where
  pfx := none
  cmd := lit "USER"
  params := [lit user, lit "*", lit "*", lit "x"]
  longlast := true
  raw := some (lit "USER\x00" ++ lit user ++ lit "\x00*\x00*\x00:x\x00\x00")

theorem parses_userAmy : Parses ⟨4, lit "USER amy * * :x\r\n", 17⟩ 15 (lit "USER amy * * :x\r\n")
    (userMessage "amy") :=
  ⟨by decide +kernel, ⟨15, by decide +kernel, by decide⟩, by decide +kernel, by decide +kernel⟩

theorem completesRegistration_amy :
    ∃ tr σ, play plainServer (beforeUser "amy" "amy") = .ok (tr, σ) ∧
      CompletesRegistration plainServer tr σ 0 4 0 (lit "amy") (lit "amy") := by
  obtain ⟨tr, σ, hplay, hrun, h⟩ := run_of_playsTo plainServer (beforeUser "amy" "amy")
    (fun tr σ => σ.threads 0 = some ⟨4, lit "USER amy * * :x\r\n", 17⟩ ∧ σ.connOn 4 = some 0 ∧
      FirstComplete tr σ 0 0 (userMessage "amy") (lit "amy") (lit "amy") ∧ welcomes tr 0 = [] ∧
      findUserNode σ.server.userHead (lit "amy") = none ∧
      RegistrationFits plainServer (σ.server.bind 4 (lit "amy") (userMessage "amy")) (lit "amy")
        (lit "amy") (userMessage "amy") ∧
      FindsNewest σ.server 4 (lit "amy")) (by decide +kernel)
  obtain ⟨hth, hc, hfirst, hwelcomes, huser, hfits, hnewest⟩ := of_decide_eq_true h
  refine ⟨tr, σ, hplay, ?_⟩
  exact (completesRegistration_iff hrun hth (by decide +kernel) parses_userAmy hfirst).mpr
    ⟨rfl, hc, hwelcomes, nofun, fun h => ⟨Option.some.inj h ▸ huser, rfl⟩, hfits, hnewest⟩

/-- Nothing is sent to a client whose user name is not its nick. -/
theorem completesRegistration_nick42 :
    ∃ tr σ, play plainServer (beforeUser "nick42" "user42") = .ok (tr, σ) ∧
      FirstComplete tr σ 0 0 (userMessage "user42") (lit "nick42") (lit "user42") ∧
      ¬ CompletesRegistration plainServer tr σ 0 4 0 (lit "nick42") (lit "user42") := by
  obtain ⟨tr, σ, hplay, -, h⟩ := run_of_playsTo plainServer (beforeUser "nick42" "user42")
    (fun tr σ => FirstComplete tr σ 0 0 (userMessage "user42") (lit "nick42") (lit "user42") ∧
      ∀ r ∈ (step plainServer σ (.line 0)).toOption, r.2.sentTo 0 = []) (by decide +kernel)
  obtain ⟨hfirst, hsent⟩ := of_decide_eq_true h
  refine ⟨tr, σ, hplay, hfirst, ?_⟩
  rintro ⟨σ', l, hstep, -, -, m, hm, -⟩
  rw [hstep] at hsent
  rw [hsent _ rfl] at hm
  cases hm

end Chirc
