import Chirc.Verify.Faults
import Chirc.Verify.Spelling

/-! # Names, lookups and parameters

What a command needs so that its handler copies no name past its field, dereferences no failed
lookup and adds no sixteenth parameter. Each condition is exact. None of the handlers tests it: the
length of a name and the number of parameters of a stored message are what the clients chose, and a
WHOIS may come from a client that is not registered. -/

namespace Chirc

/-! ## Names -/

/-- The four tables of the server. -/
inductive Table
  | nickHead
  | userHead
  | connectionHash
  | sockfdNickHash

/-- The names in the nodes of a table. -/
def Server.namesIn (srv : Server) : Table → List CStr
  | .nickHead => names srv.nickHead
  | .userHead => names srv.userHead
  | .connectionHash => srv.connectionHash.map (·.name)
  | .sockfdNickHash => srv.sockfdNickHash.items.map (·.name)

/-- The names are those before and some more at one end, or the opposite order of these. Each of the
new ones is the first parameter of the message and leaves room for a NUL in a field of 128 bytes. -/
def WritesNames (msg : Message) (before after : List CStr) : Prop :=
  ∃ new, (after = before ++ new ∨ after = new ++ before ∨ after = (new ++ before).reverse) ∧
    ∀ name ∈ new, msg.params.head? = some name ∧ name.length < 128

theorem WritesNames.refl (msg : Message) (before : List CStr) : WritesNames msg before before :=
  ⟨[], .inl (List.append_nil before).symm, List.forall_mem_nil _⟩

theorem WritesNames.append (hname : msg.params.head? = some name) (hlt : name.length < 128)
    (before : List CStr) : WritesNames msg before (before ++ [name]) :=
  ⟨[name], .inl rfl, List.forall_mem_singleton.mpr ⟨hname, hlt⟩⟩

theorem WritesNames.cons (hname : msg.params.head? = some name) (hlt : name.length < 128)
    (before : List CStr) : WritesNames msg before (name :: before) :=
  ⟨[name], .inr (.inl rfl), List.forall_mem_singleton.mpr ⟨hname, hlt⟩⟩

/-- The names of the nodes of `sockfd_nick_hash`, whose order an addition may turn around. -/
theorem WritesNames.add (hname : msg.params.head? = some name) (hlt : name.length < 128)
    (h : SockfdNickHash) (fd : Nat) : WritesNames msg (h.items.map (·.name))
      ((addSockfdNickMapNode h ⟨fd, name⟩).items.map (·.name)) := by
  by_cases hexpands : h.Expands SockfdNickMap.hashv ⟨fd, name⟩
  · refine ⟨[name], .inr (.inr ?_), List.forall_mem_singleton.mpr ⟨hname, hlt⟩⟩
    rw [addSockfdNickMapNode, Uthash.Chained.items_add_of_expands hexpands, List.map_reverse]
    rfl
  · rw [addSockfdNickMapNode, Uthash.Chained.items_add_of_not hexpands]
    exact .cons hname hlt _

/-- The step of thread `t` copies no name past the end of a field, and the names that it stores are
the one that the message gives. -/
structure NamesExact (ctx : Ctx) (σ : Sys) (t : Nat) (msg : Message) : Prop where
  fits : step ctx σ (.line t) ≠ .error (.fault .nameOverflow)
  stored : ∀ σ' l, step ctx σ (.line t) = .ok (σ', l) →
    ∀ table, WritesNames msg (σ.server.namesIn table) (σ'.server.namesIn table)

theorem Handled.writesNames {w w' : Work} (h : Handled ctx fd msg w w')
    (hno : ∀ f, ¬ Culprit w.srv fd msg f) (table : Table) :
    WritesNames msg (w.srv.namesIn table) (w'.srv.namesIn table) := by
  cases h with
  | whoisFound nick =>
    cases table with
    | connectionHash =>
      have hsame : (w.srv.freeMsg nick).namesIn .connectionHash =
          w.srv.namesIn .connectionHash := by
        simp only [Server.namesIn, Server.freeMsg, ← map_fst_bindings,
          bindings_freeConnectionMapMsg]
      exact hsame ▸ .refl msg _
    | _ => exact .refl msg _
  | nickPosted nick hcmd hparams hnode hnick =>
    have hlt := nick_lt_of_not_culprit hno hcmd hparams hnode hnick
    have hname : msg.params.head? = some nick := by rw [hparams]; rfl
    cases table with
    | nickHead =>
      have hadd : (w.srv.mask.addNick nick).namesIn .nickHead = w.srv.namesIn .nickHead ++ [nick] :=
        names_addUserNode
      exact hadd ▸ .append hname hlt _
    | _ => exact .refl msg _
  | nickRegisters nick node user hcmd hparams hnode hnick huser hmsg =>
    have hlt := nick_lt_of_not_culprit hno hcmd hparams hnode hnick
    have hname : msg.params.head? = some nick := by rw [hparams]; rfl
    cases table with
    | nickHead =>
      have hadd : (w.srv.mask.addNick nick).namesIn .nickHead = w.srv.namesIn .nickHead ++ [nick] :=
        names_addUserNode
      exact hadd ▸ .append hname hlt _
    | userHead => exact .refl msg _
    | connectionHash => exact .cons hname hlt _
    | sockfdNickHash => exact .add hname hlt _ fd
  | userPosted user hcmd hname hlen hstored huser =>
    have hlt := user_lt_of_not_culprit hno hcmd hname hlen huser
    cases table with
    | userHead =>
      have hadd (m : Message) : (w.srv.addUser user m).namesIn .userHead =
        w.srv.namesIn .userHead ++ [user] := names_addUserNode
      exact hadd _ ▸ .append hname hlt _
    | _ => exact .refl msg _
  | userRegisters user node hcmd hname hlen hstored huser =>
    have hlt := user_lt_of_not_culprit hno hcmd hname (by omega) huser
    cases table with
    | nickHead => exact .refl msg _
    | userHead =>
      have hadd (m : Message) : (w.srv.addUser user m).namesIn .userHead =
        w.srv.namesIn .userHead ++ [user] := names_addUserNode
      exact hadd _ ▸ .append hname hlt _
    | connectionHash => exact .cons hname hlt _
    | sockfdNickHash => exact .add hname hlt _ fd
  | _ => cases table <;> exact .refl msg _

/-- No table of names finds a name that is too long for it. -/
theorem Server.Sized.not_found {srv : Server} (H : srv.Sized) (hlong : 128 ≤ name.length) :
    findConnectionMapNode srv.connectionHash name = none ∧
      findUserNode srv.nickHead name = none ∧ findUserNode srv.userHead name = none := by
  refine ⟨?_, ?_, ?_⟩
  · rw [findConnectionMapNode_eq_none]
    intro hmem
    obtain ⟨b, hb, rfl⟩ := List.mem_map.mp hmem
    exact Nat.not_lt.mpr hlong (H.keys b hb)
  · rw [findUserNode_eq_none]
    intro hmem
    exact Nat.not_lt.mpr hlong (H.nicks name hmem)
  · rw [findUserNode_eq_none]
    intro hmem
    exact Nat.not_lt.mpr hlong (H.users name hmem)

/-- **Stored names are exact and fit** exactly if the name that the command would store, the only
parameter of a NICK or the first of four or more of a USER, is shorter than 128 bytes. -/
theorem namesExact_iff {σ : Sys} (hrun : Run ctx tr σ) (h : σ.Handling t th p line msg) :
    NamesExact ctx σ t msg ↔
      ∀ name, nickParam msg = some name ∨ userParam msg = some name → name.length < 128 := by
  have H := hrun.sized
  constructor
  · intro hexact name hname
    by_contra hlong
    obtain ⟨hconn, hnick, huser⟩ := H.not_found (Nat.le_of_not_lt hlong)
    apply hexact.fits
    rw [h.step_eq_fault_iff hrun (by decide)]
    rcases hname with hname | hname
    · obtain ⟨hcmd, hparams⟩ := request_eq_left (nickParam_eq_some.mp hname)
      exact .longNick name hcmd hparams hconn hnick (Nat.le_of_not_lt hlong)
    · obtain ⟨look, hreq⟩ := userParam_eq_some.mp hname
      obtain ⟨hcmd, hhead, hlen, -⟩ := request_eq_right hreq
      exact .longUser name hcmd hhead hlen huser (Nat.le_of_not_lt hlong)
  · intro hshort
    constructor
    · intro hfault
      rw [h.step_eq_fault_iff hrun (by decide)] at hfault
      cases hfault with
      | longNick nick hcmd hparams hconn hnick hlong =>
        have hname := nickParam_eq_some.mpr (request_nick hcmd hparams)
        exact Nat.not_lt.mpr hlong (hshort nick (.inl hname))
      | longUser user hcmd hhead hlen huser hlong =>
        have hname := userParam_eq_some.mpr ⟨_, request_user hcmd hhead hlen⟩
        exact Nat.not_lt.mpr hlong (hshort user (.inr hname))
    · intro σ' l hstep table
      obtain ⟨w, hw, rfl, -⟩ := h.step_eq_ok.mp hstep
      rw [Sys.handled_server]
      exact (dispatch_handled hw).writesNames (not_culprit_of_ok hw) table

theorem namesExact_nickAmy : ∃ tr σ th p line msg, Run plainServer tr σ ∧
    σ.Handling 0 th p line msg ∧ nickParam msg = some (lit "amy") ∧
    NamesExact plainServer σ 0 msg := by
  obtain ⟨tr, σ, th, p, line, msg, hrun, h, hf⟩ := handling_of_playsToLine plainServer
    (firstLine "NICK amy\r\n") 0 (fun _ _ _ _ msg => nickParam msg = some (lit "amy") ∧
      userParam msg = none) (by decide +kernel)
  obtain ⟨hnick, huser⟩ := of_decide_eq_true hf
  refine ⟨tr, σ, th, p, line, msg, hrun, h, hnick, (namesExact_iff hrun h).mpr ?_⟩
  intro name hname
  rw [hnick, huser] at hname
  rcases hname with hname | hname
  · cases hname
    decide
  · cases hname

/-- A NICK with a nick of 128 bytes. -/
def longNickLine : CStr := lit "NICK " ++ List.replicate 128 97 ++ [CR, LF]

theorem namesExact_longNick : ∃ tr σ th p line msg, Run plainServer tr σ ∧
    σ.Handling 0 th p line msg ∧ ¬ NamesExact plainServer σ 0 msg := by
  obtain ⟨tr, σ, th, p, line, msg, hrun, h, hf⟩ := handling_of_playsToLine plainServer
    [.accept 4, .recv 0 longNickLine] 0 (fun _ σ th p msg =>
      dispatch plainServer th.sockfd msg (th.work σ.server p) = .error .nameOverflow)
    (by decide +kernel)
  refine ⟨tr, σ, th, p, line, msg, hrun, h, ?_⟩
  intro hexact
  exact hexact.fits (h.step_eq_fault.mpr (of_decide_eq_true hf))

/-! ## Lookups -/

/-- The step of thread `t` dereferences no lookup that failed. -/
def LookupsFound (ctx : Ctx) (σ : Sys) (t : Nat) : Prop :=
  step ctx σ (.line t) ≠ .error (.fault .nullDeref)

/-- **No handler dereferences a failed lookup** exactly if the command is not a WHOIS with one
parameter from a descriptor that has no node in `sockfd_nick_hash`. -/
theorem lookupsFound_iff {σ : Sys} (hrun : Run ctx tr σ) (h : σ.Handling t th p line msg) :
    LookupsFound ctx σ t ↔ (command msg.cmd = .whois → msg.params.length = 1 →
      findSockfdNickMapNode σ.server.sockfdNickHash th.sockfd ≠ none) := by
  rw [LookupsFound, ne_eq, h.step_eq_fault_iff hrun (by decide)]
  constructor
  · intro hno hcmd hlen hasker
    obtain ⟨nick, hparams⟩ := List.length_eq_one_iff.mp hlen
    exact hno (.noAsker nick hcmd hparams hasker)
  · intro hfound hculprit
    cases hculprit with
    | noAsker nick hcmd hparams hasker => exact hfound hcmd (by rw [hparams]; rfl) hasker

theorem lookupsFound_motd : ∃ tr σ th p line msg, Run plainServer tr σ ∧
    σ.Handling 0 th p line msg ∧ command msg.cmd = .motd ∧ LookupsFound plainServer σ 0 := by
  obtain ⟨tr, σ, th, p, line, msg, hrun, h, hf⟩ := handling_of_playsToLine plainServer
    (firstLine "MOTD\r\n") 0 (fun _ _ _ _ msg => command msg.cmd = .motd) (by decide +kernel)
  have hcmd := of_decide_eq_true hf
  refine ⟨tr, σ, th, p, line, msg, hrun, h, hcmd, (lookupsFound_iff hrun h).mpr ?_⟩
  intro hwhois
  cases hcmd.symm.trans hwhois

/-- A client that is not registered asks for a nick. -/
theorem lookupsFound_whois : ∃ tr σ th p line msg, Run plainServer tr σ ∧
    σ.Handling 0 th p line msg ∧ ¬ LookupsFound plainServer σ 0 := by
  obtain ⟨tr, σ, th, p, line, msg, hrun, h, hf⟩ := handling_of_playsToLine plainServer
    (firstLine "WHOIS amy\r\n") 0 (fun _ σ th p msg =>
      dispatch plainServer th.sockfd msg (th.work σ.server p) = .error .nullDeref)
    (by decide +kernel)
  refine ⟨tr, σ, th, p, line, msg, hrun, h, ?_⟩
  intro hfound
  exact hfound (h.step_eq_fault.mpr (of_decide_eq_true hf))

/-! ## Parameters -/

theorem lusers_params_le (h : m ∈ Server.lusers ctx nick srv) : m.params.length ≤ 15 := by
  simp only [Server.lusers, lusersReplies, List.mem_cons, List.not_mem_nil, or_false] at h
  rcases h with rfl | rfl | rfl | rfl | rfl <;> simp

theorem motdReplies_params_le (h : m ∈ motdReplies ctx nick expectMotd) :
    m.params.length ≤ 15 := by
  rw [motdReplies] at h
  split at h
  · rw [List.mem_singleton.mp h]
    simp
  · simp only [List.mem_append, List.mem_cons, motdLines, List.mem_map, List.not_mem_nil,
      or_false] at h
    rcases h with (rfl | ⟨_, -, rfl⟩) | rfl <;> simp

theorem registrationReplies_params_le (h : m ∈ registrationReplies ctx srv nick user) :
    m.params.length ≤ 15 := by
  simp only [registrationReplies, briefing, List.mem_append, List.mem_cons, List.not_mem_nil,
    or_false] at h
  rcases h with rfl | ((rfl | rfl | rfl) | h) | h
  · simp [welcome]
  · simp
  · simp
  · simp
  · exact lusers_params_le h
  · exact motdReplies_params_le h

theorem Handled.params_le {w w' : Work} (h : Handled ctx fd msg w w')
    (hno : ∀ f, ¬ Culprit w.srv fd msg f) (hout : w.out = []) :
    ∀ m ∈ w'.out, m.params.length ≤ 15 := by
  have hone {ps : List (CStr × Bool)} (hlen : ps.length ≤ 14) {nick code : CStr} :
      ∀ m ∈ w.out ++ [reply ctx nick code ps], m.params.length ≤ 15 := by
    rw [hout, List.nil_append, List.forall_mem_singleton, reply_params, List.length_cons,
      List.length_map]
    omega
  cases h with
  | ping | quit =>
    simp only [Work.send_out, Work.scribble_out, Work.update_out, hout, List.nil_append,
      List.forall_mem_singleton]
    simp [plain, Message.withParams]
  | lusers =>
    rw [Work.send_out, hout, List.nil_append]
    intro m hm
    exact lusers_params_le hm
  | motd =>
    rw [Work.send_out, hout, List.nil_append]
    intro m hm
    exact motdReplies_params_le hm
  | whoisAbsent => exact hone (by simp)
  | whoisFound nick asker node userMsg hcmd hparams hasker hnode hlive =>
    have hle : userMsg.params.length ≤ 13 := by
      by_contra hlong
      exact hno _ (.longRecord nick asker node userMsg hcmd hparams hasker hnode hlive
        (Nat.lt_of_not_le hlong))
    simp only [Work.send_out, Work.update_out, hout, List.nil_append, whoisReplies,
      List.forall_mem_cons, reply_params, List.map_cons, map_fst_copiedParams, List.length_cons]
    exact ⟨by omega, by simp, by simp, List.forall_mem_nil _⟩
  | privmsgAbsent => exact hone (by simp)
  | nickMissing => exact hone (by simp)
  | nickInUse => exact hone (by simp)
  | nickRegisters | userRegisters =>
    rw [Work.registered_out, Work.update_out, hout, List.nil_append]
    intro m hm
    exact registrationReplies_params_le hm
  | userMissing => exact hone (by simp)
  | unknown => exact hone (by simp)
  | _ =>
    simp only [Work.update_out, hout]
    exact List.forall_mem_nil _

/-- The step of thread `t` writes no parameter past `params[14]`, and the messages that it sends or
keeps have at most fifteen. -/
structure BuiltWithin (ctx : Ctx) (σ : Sys) (t : Nat) : Prop where
  fits : step ctx σ (.line t) ≠ .error (.fault .paramsOverflow)
  sent : ∀ σ' l, step ctx σ (.line t) = .ok (σ', l) → ∀ c, ∀ m ∈ l.sentTo c, m.params.length ≤ 15
  users : ∀ σ' l, step ctx σ (.line t) = .ok (σ', l) →
    ∀ node ∈ σ'.server.userHead, ∀ m, node.msg = some m → m.params.length ≤ 15
  live : ∀ σ' l, step ctx σ (.line t) = .ok (σ', l) →
    ∀ node ∈ σ'.server.connectionHash, ∀ m, node.msg = .live m → m.params.length ≤ 15

/-- **Built messages stay within fifteen parameters** exactly if the command does not make the
server quote, behind a nick and a command, a stored message that has more than thirteen. -/
theorem builtWithin_iff {σ : Sys} (hrun : Run ctx tr σ) (h : σ.Handling t th p line msg) :
    BuiltWithin ctx σ t ↔ ∀ nick node userMsg, command msg.cmd = .whois → msg.params = [nick] →
      findSockfdNickMapNode σ.server.sockfdNickHash th.sockfd ≠ none →
      findConnectionMapNode σ.server.connectionHash nick = some node →
      node.msg = .live userMsg → userMsg.params.length ≤ 13 := by
  have H := hrun.sized
  constructor
  · intro hbuilt nick node userMsg hcmd hparams hasker hnode hlive
    obtain ⟨asker, hasker⟩ := Option.ne_none_iff_exists'.mp hasker
    by_contra hlong
    apply hbuilt.fits
    rw [h.step_eq_fault_iff hrun (by decide)]
    exact .longRecord nick asker node userMsg hcmd hparams hasker hnode hlive
      (Nat.lt_of_not_le hlong)
  · intro hshort
    have hsized {σ' l} (hstep : step ctx σ (.line t) = .ok (σ', l)) : σ'.server.Sized := by
      obtain ⟨w, hw, rfl, -⟩ := h.step_eq_ok.mp hstep
      rw [Sys.handled_server]
      exact (dispatch_handled hw).sized (not_culprit_of_ok hw) H
    constructor
    · intro hfault
      rw [h.step_eq_fault_iff hrun (by decide)] at hfault
      cases hfault with
      | longRecord nick asker node userMsg hcmd hparams hasker hnode hlive hlong =>
        have hasker : findSockfdNickMapNode σ.server.sockfdNickHash th.sockfd ≠ none := by
          rw [hasker]
          exact Option.some_ne_none asker
        exact Nat.not_le.mpr hlong (hshort nick node userMsg hcmd hparams hasker hnode hlive)
    · intro σ' l hstep c m hm
      obtain ⟨w, hw, -, rfl⟩ := h.step_eq_ok.mp hstep
      rw [Label.sentTo] at hm
      split at hm
      · exact (dispatch_handled hw).params_le (not_culprit_of_ok hw) rfl m hm
      · cases hm
    · intro σ' l hstep node hnode m hm
      obtain ⟨m', hm', hle⟩ := (hsized hstep).stored node hnode
      cases hm'.symm.trans hm
      exact hle
    · intro σ' l hstep
      exact (hsized hstep).live

/-- A client registers with the USER message `user`, and asks for its own record. -/
def askForOwn (user : CStr) : List Event :=
  [.accept 4, .recv 0 (user ++ lit "\r\nNICK amy\r\n"), .line 0, .line 0,
    .recv 0 (lit "WHOIS amy\r\n")]

theorem builtWithin_amy : ∃ tr σ th p line msg, Run plainServer tr σ ∧
    σ.Handling 0 th p line msg ∧ command msg.cmd = .whois ∧ BuiltWithin plainServer σ 0 := by
  obtain ⟨tr, σ, th, p, line, msg, hrun, h, hf⟩ := handling_of_playsToLine plainServer
    (askForOwn (lit "USER amy * * :Amy")) 0 (fun _ σ _ _ msg => command msg.cmd = .whois ∧
      msg.params = [lit "amy"] ∧
      (findConnectionMapNode σ.server.connectionHash (lit "amy")).map (·.msg) =
        some (.live (storedMessage (lit "USER") [lit "amy", lit "*", lit "*", lit "Amy"])))
    (by decide +kernel)
  obtain ⟨hcmd, hparams, hfind⟩ := of_decide_eq_true hf
  refine ⟨tr, σ, th, p, line, msg, hrun, h, hcmd, (builtWithin_iff hrun h).mpr ?_⟩
  intro nick node userMsg _ hparams' _ hnode hlive
  cases hparams.symm.trans hparams'
  rw [hnode, Option.map_some, hlive] at hfind
  cases hfind
  decide

/-- The record has fourteen parameters, and the reply sixteen. -/
theorem builtWithin_longUser : ∃ tr σ th p line msg, Run plainServer tr σ ∧
    σ.Handling 0 th p line msg ∧ ¬ BuiltWithin plainServer σ 0 := by
  obtain ⟨tr, σ, th, p, line, msg, hrun, h, hf⟩ := handling_of_playsToLine plainServer
    (askForOwn (lit "USER amy 2 3 4 5 6 7 8 9 10 11 12 13 14")) 0 (fun _ σ th p msg =>
      dispatch plainServer th.sockfd msg (th.work σ.server p) = .error .paramsOverflow)
    (by decide +kernel)
  refine ⟨tr, σ, th, p, line, msg, hrun, h, ?_⟩
  intro hbuilt
  exact hbuilt.fits (h.step_eq_fault.mpr (of_decide_eq_true hf))

end Chirc
