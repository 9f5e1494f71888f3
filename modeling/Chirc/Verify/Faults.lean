import Chirc.Theory.Raises
import Chirc.Verify.Received
import Chirc.Verify.Registration

/-! # When a command ends in undefined behaviour

`Culprit` lists the messages whose handling runs into a fault, each with its fault, but for
replies that are too long for their buffers. It is complete in the states that can be reached
(`dispatch_error_iff`): there every name in a table has room for its NUL, and no message has more
parameters than one that was parsed (`Run.sized`). -/

namespace Chirc

/-! ## The parts of a handler -/

/-- A computation that can only fail by printing too much. -/
abbrev Overflows (x : Res α) : Prop := x.Raises (· = Fault.bufOverflow)

theorem sprintfBuf_overflows {text : CStr} : Overflows (sprintfBuf text w) := by
  rw [sprintfBuf]
  split
  · exact .ok _
  · exact .error rfl

theorem chircMessageToString_overflows : Overflows (chircMessageToString msg) := by
  rw [chircMessageToString]
  split
  · exact .ok _
  · exact .error rfl

theorem pushParam_eq_error {params : List α} (h : 15 ≤ params.length) :
    pushParam params p = .error .paramsOverflow :=
  if_neg (Nat.not_lt.mpr h)

/-- The sixteenth parameter does not fit. -/
theorem addParameters_eq_error {ps : List (CStr × Bool)} {msg : Message}
    (h : 15 < msg.params.length + ps.length) (hlen : msg.params.length ≤ 15) :
    addParameters msg ps = .error .paramsOverflow := by
  induction ps generalizing msg with
  | nil => exact absurd h (by simpa using hlen)
  | cons p ps ih =>
    rw [addParameters, List.foldlM_cons, chircMessageAddParameter]
    by_cases hroom : msg.params.length < 15
    · simp only [pushParam, hroom, if_true, Res.ok_bind, Res.pure_eq]
      apply ih
      · simp only [List.length_append, List.length_cons, List.length_nil] at h ⊢
        omega
      · simp only [List.length_append, List.length_cons, List.length_nil]
        omega
    · rw [pushParam_eq_error (Nat.le_of_not_lt hroom)]
      rfl

theorem addParameters_stored (cmd : CStr) (hlen : params.length ≤ 15) :
    addParameters (chircMessageConstruct none cmd) (copiedParams params) =
      .ok (storedMessage cmd params) := by
  have hstored : (storedMessage cmd params).params.length ≤ 15 := by
    rwa [storedMessage_params]
  have hnil : (chircMessageConstruct none cmd).params.length ≤ 15 := Nat.zero_le 15
  exact (addParameters_eq_ok hnil).mpr ⟨hstored, rfl⟩

theorem writeReply_overflows {msg : Message}
    (hmsg : chircMessageConstructReply ctx conn code = .ok msg)
    (hlen : msg.params.length + ps.length ≤ 15) : Overflows (writeReply ctx conn code ps w) := by
  have hadd : addParameters msg ps = .ok (msg.withParams ps) :=
    (addParameters_eq_ok (by omega)).mpr ⟨by simpa [Message.withParams] using hlen, rfl⟩
  simp only [writeReply, hmsg, Res.ok_bind, hadd]
  apply chircMessageToString_overflows.bind
  intro _ _
  exact .ok _

theorem writeReply_user_overflows (hlen : ps.length ≤ 14) :
    Overflows (writeReply ctx (.user (some nick)) code ps w) := by
  apply writeReply_overflows rfl
  simp only [chircMessageConstruct, List.nil_append, List.length_singleton]
  omega

theorem writeReply_quit_overflows (hlen : ps.length ≤ 15) :
    Overflows (writeReply ctx .quit code ps w) :=
  writeReply_overflows rfl (by simpa [chircMessageConstruct] using hlen)

theorem responseLusers_overflows : Overflows (responseLusers ctx nick w) := by
  apply (writeReply_user_overflows (by simp [optParam])).bind
  intro w₁ _
  apply (writeReply_user_overflows (by simp [optParam])).bind
  intro w₂ _
  apply (writeReply_user_overflows (by simp [optParam])).bind
  intro w₃ _
  apply (writeReply_user_overflows (by simp [optParam])).bind
  intro w₄ _
  exact writeReply_user_overflows (by simp [optParam])

theorem motdLoop_overflows : Overflows (motdLoop ctx nick lines w) := by
  induction lines generalizing w with
  | nil => exact .ok w
  | cons line lines ih =>
    apply (writeReply_user_overflows (by simp [optParam])).bind
    intro w₁ _
    exact ih

theorem responseMotd_overflows : Overflows (responseMotd ctx nick expectMotd w) := by
  rw [responseMotd]
  split
  · exact writeReply_user_overflows (by simp [optParam])
  · apply (writeReply_user_overflows (by simp [optParam])).bind
    intro w₁ _
    apply motdLoop_overflows.bind
    intro w₂ _
    exact writeReply_user_overflows (by simp [optParam])

/-- An error reply whose text is printed into `buf` first. -/
theorem complain_overflows {text : CStr} (nick : Server → CStr) : Overflows (do
    let w ← sprintfBuf text w
    myConstructUserReply ctx code w.buf extra (nick w.srv) w) := by
  apply sprintfBuf_overflows.bind
  intro w₁ _
  apply writeReply_user_overflows
  cases extra <;> simp [optParam]

theorem completeRegistration_overflows (hnick : nick.length < 128) (hlen : params.length ≤ 15) :
    Overflows (completeRegistration ctx fd nick user cmd params welcomed name w) := by
  have hkey : copyName nick = .ok nick := copyName_eq_ok.mpr ⟨hnick, rfl⟩
  have hadd := addParameters_stored cmd hlen
  apply sprintfBuf_overflows.bind
  intro w₁ _
  simp only [hkey, hadd, Res.ok_bind]
  apply (writeReply_user_overflows (by simp [optParam])).bind
  intro w₂ _
  apply sprintfBuf_overflows.bind
  intro w₃ _
  apply (writeReply_user_overflows (by simp [optParam])).bind
  intro w₄ _
  apply sprintfBuf_overflows.bind
  intro w₅ _
  apply (writeReply_user_overflows (by simp [optParam])).bind
  intro w₆ _
  apply (writeReply_user_overflows (by simp [optParam])).bind
  intro w₇ _
  apply responseLusers_overflows.bind
  intro w₈ _
  apply responseMotd_overflows.bind
  intro w₉ _
  exact .ok _

/-! ## The culprits -/

/-- Why the handling of a message ends in a fault other than a reply that is too long. -/
inductive Culprit (srv : Server) (fd : Nat) (msg : Message) : Fault → Prop
  | longNick (nick) : command msg.cmd = .nick → msg.params = [nick] →
    findConnectionMapNode srv.connectionHash nick = none →
    findUserNode srv.nickHead nick = none → 128 ≤ nick.length → Culprit srv fd msg .nameOverflow
  | longUser (user) : command msg.cmd = .user → msg.params.head? = some user →
    4 ≤ msg.params.length → findUserNode srv.userHead user = none → 128 ≤ user.length →
    Culprit srv fd msg .nameOverflow
  | noName : command msg.cmd = .privmsg ∨ command msg.cmd = .user → msg.params = [] →
    Culprit srv fd msg .uninitRead
  | noAsker (nick) : command msg.cmd = .whois → msg.params = [nick] →
    findSockfdNickMapNode srv.sockfdNickHash fd = none → Culprit srv fd msg .nullDeref
  | freed (nick asker node) : command msg.cmd = .whois → msg.params = [nick] →
    findSockfdNickMapNode srv.sockfdNickHash fd = some asker →
    findConnectionMapNode srv.connectionHash nick = some node → node.msg = .freed →
    Culprit srv fd msg .useAfterFree
  | longRecord (nick asker node userMsg) : command msg.cmd = .whois → msg.params = [nick] →
    findSockfdNickMapNode srv.sockfdNickHash fd = some asker →
    findConnectionMapNode srv.connectionHash nick = some node → node.msg = .live userMsg →
    13 < userMsg.params.length → Culprit srv fd msg .paramsOverflow

/-- A culprit is followed by its fault, in every state. -/
theorem Culprit.dispatch_eq (ctx : Ctx) (h : Culprit w.srv fd msg f) :
    dispatch ctx fd msg w = .error f := by
  cases h with
  | longNick nick hcmd hparams hconn hnick hlong =>
    have hcopy : copyName nick = .error .nameOverflow := if_neg (Nat.not_lt.mpr hlong)
    rw [dispatch, hcmd]
    simp only [onNick, hparams, hconn, hnick, hcopy, Res.error_bind]
  | longUser user hcmd hname hlen huser hlong =>
    have hcopy : copyName user = .error .nameOverflow := if_neg (Nat.not_lt.mpr hlong)
    rw [dispatch, hcmd]
    simp only [onUser, firstParam_eq_ok.mpr hname, Res.ok_bind, Nat.not_lt.mpr hlen, if_false,
      huser, hcopy, Res.error_bind]
  | noName hcmd hnil =>
    have hfirst : firstParam msg = .error .uninitRead := by rw [firstParam, hnil]
    rcases hcmd with hcmd | hcmd
    · rw [dispatch, hcmd]
      simp only [onPrivmsg, hfirst, Res.error_bind]
    · rw [dispatch, hcmd]
      simp only [onUser, hfirst, Res.error_bind]
  | noAsker nick hcmd hparams hasker =>
    rw [dispatch, hcmd]
    simp only [onWhois, hparams, responseWhois, hasker]
  | freed nick asker node hcmd hparams hasker hnode hfreed =>
    rw [dispatch, hcmd]
    simp only [onWhois, hparams, responseWhois, hasker, hnode, myConstructUserWhoisReply, hfreed,
      Cell.read, Res.error_bind]
  | longRecord nick asker node userMsg hcmd hparams hasker hnode hlive hlong =>
    have hwrite (code : CStr) (w : Work) : writeReply ctx (.user (some asker.name)) code
        ((userMsg.cmd, false) :: copiedParams userMsg.params) w = .error .paramsOverflow := by
      have hadd (m : Message) (hm : m.params.length = 1) : addParameters m
          ((userMsg.cmd, false) :: copiedParams userMsg.params) = .error .paramsOverflow := by
        apply addParameters_eq_error
        · rw [List.length_cons, length_copiedParams]
          omega
        · omega
      have hreply : chircMessageConstructReply ctx (.user (some asker.name)) code =
        .ok ⟨some ctx.servername, code, [asker.name], false, none⟩ := rfl
      rw [writeReply, hreply, Res.ok_bind, hadd _ rfl]
      rfl
    rw [dispatch, hcmd]
    simp only [onWhois, hparams, responseWhois, hasker, hnode, myConstructUserWhoisReply, hlive,
      Cell.read, Res.ok_bind, hwrite, Res.error_bind]

section
variable {srv : Server} {fd : Nat} {msg : Message} (hno : ∀ f, ¬ Culprit srv fd msg f)
include hno

theorem nick_lt_of_not_culprit (hcmd : command msg.cmd = .nick) (hparams : msg.params = [nick])
    (hconn : findConnectionMapNode srv.connectionHash nick = none)
    (hnick : findUserNode srv.nickHead nick = none) : nick.length < 128 := by
  by_contra hlong
  exact hno _ (.longNick nick hcmd hparams hconn hnick (Nat.le_of_not_lt hlong))

theorem user_lt_of_not_culprit (hcmd : command msg.cmd = .user)
    (hname : msg.params.head? = some user) (hlen : 4 ≤ msg.params.length)
    (huser : findUserNode srv.userHead user = none) : user.length < 128 := by
  by_contra hlong
  exact hno _ (.longUser user hcmd hname hlen huser (Nat.le_of_not_lt hlong))

end

/-! ## The sizes of what is stored -/

/-- The names in the tables have room for their NUL, and no message has more parameters than a
parsed one. -/
structure Server.Sized (srv : Server) : Prop where
  nicks : ∀ nick ∈ names srv.nickHead, nick.length < 128
  users : ∀ user ∈ names srv.userHead, user.length < 128
  keys : ∀ b ∈ bindings srv.connectionHash, b.1.length < 128
  tags : ∀ node ∈ srv.sockfdNickHash.items, node.name.length < 128
  stored : srv.UsersStored
  live : ∀ node ∈ srv.connectionHash, ∀ m, node.msg = .live m → m.params.length ≤ 15

namespace Server.Sized
variable {srv : Server} (H : srv.Sized)
include H

theorem mask : srv.mask.Sized := ⟨H.nicks, H.users, H.keys, H.tags, H.stored, H.live⟩

theorem uncount : srv.uncount.Sized := ⟨H.nicks, H.users, H.keys, H.tags, H.stored, H.live⟩

theorem addNick (hnick : nick.length < 128) : (srv.addNick nick).Sized where
  nicks n hn := by
    rw [Server.addNick, names_addUserNode, List.mem_append, List.mem_singleton] at hn
    rcases hn with hn | rfl
    · exact H.nicks n hn
    · exact hnick
  users := H.users
  keys := H.keys
  tags := H.tags
  stored := H.stored
  live := H.live

theorem addUser (huser : user.length < 128) (hm : m.params.length ≤ 15) :
    (srv.addUser user m).Sized where
  nicks := H.nicks
  users u hu := by
    rw [Server.addUser, names_addUserNode, List.mem_append, List.mem_singleton] at hu
    rcases hu with hu | rfl
    · exact H.users u hu
    · exact huser
  keys := H.keys
  tags := H.tags
  stored := H.stored.addUser hm
  live := H.live

theorem bind (hnick : nick.length < 128) (hm : m.params.length ≤ 15) :
    (srv.bind fd nick m).Sized where
  nicks := H.nicks
  users := H.users
  keys b hb := by
    rcases List.mem_cons.mp hb with rfl | hb
    · exact hnick
    · exact H.keys b hb
  tags node hnode := by
    rcases Uthash.Chained.mem_add.mp hnode with rfl | hnode
    · exact hnick
    · exact H.tags node hnode
  stored := H.stored
  live node hnode m' hm' := by
    rcases List.mem_cons.mp hnode with rfl | hnode
    · cases hm'
      exact hm
    · exact H.live node hnode m' hm'

theorem freeMsg : (srv.freeMsg nick).Sized where
  nicks := H.nicks
  users := H.users
  keys := by
    rw [Server.freeMsg, bindings_freeConnectionMapMsg]
    exact H.keys
  tags := H.tags
  stored := H.stored
  live node hnode m hm := by
    refine H.live node (mem_of_mem_free ?_ hnode) m hm
    rw [hm]
    intro hfreed
    cases hfreed

end Server.Sized

theorem Handled.sized {w w' : Work} (h : Handled ctx fd msg w w')
    (hno : ∀ f, ¬ Culprit w.srv fd msg f) (H : w.srv.Sized) : w'.srv.Sized := by
  cases h with
  | quit => exact H.uncount
  | whoisFound => exact H.freeMsg
  | nickMissing => exact H.mask
  | nickInUse => exact H.mask
  | nickKnown => exact H.mask
  | nickIgnored => exact H.mask
  | nickPosted nick hcmd hparams hnode hnick =>
    have hlt := nick_lt_of_not_culprit hno hcmd hparams hnode hnick
    exact H.mask.addNick hlt
  | nickRegisters nick node user hcmd hparams hnode hnick huser hmsg =>
    have hlt := nick_lt_of_not_culprit hno hcmd hparams hnode hnick
    obtain ⟨m, hm, hle⟩ := H.stored node (List.mem_of_find?_eq_some huser)
    obtain rfl : m = user := Option.some.inj (hm.symm.trans hmsg)
    exact (H.mask.addNick hlt).bind hlt (by rwa [storedMessage_params])
  | userPosted name hcmd hname hlen hstored huser =>
    have hlt := user_lt_of_not_culprit hno hcmd hname hlen huser
    exact H.addUser hlt hstored
  | userRegisters name node hcmd hname hlen hstored huser =>
    have hlt := user_lt_of_not_culprit hno hcmd hname (by omega) huser
    exact (H.addUser hlt hstored).bind hlt hstored
  | _ => exact H

theorem not_culprit_of_ok (h : dispatch ctx fd msg w = .ok w') (f : Fault) :
    ¬ Culprit w.srv fd msg f := by
  intro hf
  cases (hf.dispatch_eq ctx).symm.trans h

/-- **The tables hold nothing that is too long**, in every state reached. -/
theorem Run.sized {σ : Sys} (hrun : Run ctx tr σ) : σ.server.Sized := by
  refine TransitionSystem.Run.invariant (P := fun _ σ => σ.server.Sized) ?_ ?_ hrun
  · intro σ hσ
    subst hσ
    exact ⟨nofun, nofun, nofun, nofun, nofun, nofun⟩
  · intro tr σ l σ' _ H hstep
    cases step_cases hstep with
    | command t th p line msg w hth hp hparses hw =>
      rw [Sys.handled_server]
      exact (dispatch_handled hw).sized (not_culprit_of_ok hw) H
    | hangup t th =>
      exact ⟨H.nicks, H.users, H.keys,
        fun node hnode => H.tags node (delSockfdNickMapNode_sublist.subset hnode), H.stored, H.live⟩
    | accept => exact ⟨H.nicks, H.users, H.keys, H.tags, H.stored, H.live⟩
    | _ => exact H

/-! ## Nothing else fails -/

theorem onQuit_overflows : Overflows (onQuit ctx msg w) := by
  apply sprintfBuf_overflows.bind
  intro w₁ _
  apply (writeReply_quit_overflows (by simp [optParam])).bind
  intro w₂ _
  exact .ok _

section
variable {ctx : Ctx} {fd : Nat} {msg : Message} {w : Work}
  (hno : ∀ f, ¬ Culprit w.srv fd msg f)
include hno

theorem onWhois_overflows (hcmd : command msg.cmd = .whois) : Overflows (onWhois ctx fd msg w) := by
  rw [onWhois]
  split
  · next nick hparams =>
    cases hasker : findSockfdNickMapNode w.srv.sockfdNickHash fd with
    | none => exact absurd (.noAsker nick hcmd hparams hasker) (hno _)
    | some asker =>
      cases hnode : findConnectionMapNode w.srv.connectionHash nick with
      | none =>
        simp only [responseWhois, hnode, hasker]
        exact writeReply_user_overflows (by simp [optParam])
      | some node =>
        cases hmsg : node.msg with
        | freed => exact absurd (.freed nick asker node hcmd hparams hasker hnode hmsg) (hno _)
        | live userMsg =>
          have hle : userMsg.params.length ≤ 13 := by
            by_contra hlong
            exact hno _ (.longRecord nick asker node userMsg hcmd hparams hasker hnode hmsg
              (Nat.lt_of_not_le hlong))
          have hlen : ((userMsg.cmd, false) :: copiedParams userMsg.params).length ≤ 14 := by
            rw [List.length_cons, length_copiedParams]
            omega
          have hrecord :
              Overflows (myConstructUserWhoisReply ctx rplWhoisuser node asker.name w) := by
            rw [myConstructUserWhoisReply, hmsg]
            apply (writeReply_user_overflows hlen).bind
            intro w₁ _
            exact .ok _
          simp only [responseWhois, hnode, hasker]
          apply hrecord.bind
          intro w₁ _
          apply (writeReply_user_overflows (by simp)).bind
          intro w₂ _
          exact writeReply_user_overflows (by simp)
  · exact .ok w

theorem onPrivmsg_overflows (hcmd : command msg.cmd = .privmsg) :
    Overflows (onPrivmsg ctx msg w) := by
  rw [onPrivmsg]
  cases hparams : msg.params with
  | nil => exact absurd (.noName (.inl hcmd) hparams) (hno _)
  | cons name ps =>
    have hfirst : firstParam msg = .ok name := by rw [firstParam, hparams]
    rw [hfirst, Res.ok_bind]
    split
    · exact .ok w
    · exact complain_overflows leastNick

theorem onNick_overflows (H : w.srv.Sized) (hcmd : command msg.cmd = .nick) :
    Overflows (onNick ctx fd msg w) := by
  simp only [onNick]
  split
  · exact complain_overflows leastNick
  · next nick hparams =>
    split
    · exact complain_overflows fun _ => lit "*"
    · next hnode =>
      split
      · exact .ok _
      · next hnick =>
        have hlt := nick_lt_of_not_culprit hno hcmd hparams hnode hnick
        rw [copyName_eq_ok.mpr ⟨hlt, rfl⟩, Res.ok_bind]
        split
        · exact .ok _
        · next node huser =>
          obtain ⟨user, huserMsg, hle⟩ := H.stored node (List.mem_of_find?_eq_some huser)
          simp only [huserMsg]
          exact completeRegistration_overflows hlt hle
  · exact .ok _

theorem onUser_overflows (H : w.srv.Sized) (hcmd : command msg.cmd = .user)
    (hlen : msg.params.length ≤ 15) : Overflows (onUser ctx fd msg w) := by
  rw [onUser]
  cases hparams : msg.params with
  | nil => exact absurd (.noName (.inr hcmd) hparams) (hno _)
  | cons name ps =>
    have hfirst : firstParam msg = .ok name := by rw [firstParam, hparams]
    have hname : msg.params.head? = some name := by rw [hparams]; rfl
    simp only [hfirst, Res.ok_bind, ← hparams]
    split
    · exact complain_overflows leastNick
    · next hfour =>
      have hfour : 4 ≤ msg.params.length := Nat.le_of_not_lt hfour
      split
      · exact .ok w
      · next huser =>
        have hlt := user_lt_of_not_culprit hno hcmd hname hfour huser
        have hadd := addParameters_stored msg.cmd hlen
        simp only [copyName_eq_ok.mpr ⟨hlt, rfl⟩, hadd, Res.ok_bind]
        split
        · exact .ok _
        · next node hnick =>
          split
          · have hnode : node.name.length < 128 :=
              H.nicks _ (List.mem_map_of_mem (List.mem_of_find?_eq_some hnick))
            exact completeRegistration_overflows hnode hlen
          · exact .ok _

/-- Without a culprit, handling a message fails only through a reply that is too long. -/
theorem dispatch_overflows (H : w.srv.Sized) (hlen : msg.params.length ≤ 15) :
    Overflows (dispatch ctx fd msg w) := by
  rw [dispatch]
  split
  · exact writeReply_quit_overflows (by simp)
  · exact .ok w
  · exact onQuit_overflows
  · exact responseLusers_overflows
  · exact responseMotd_overflows
  · next hcmd => exact onWhois_overflows hno hcmd
  · next hcmd => exact onPrivmsg_overflows hno hcmd
  · next hcmd => exact onNick_overflows hno H hcmd
  · next hcmd => exact onUser_overflows hno H hcmd hlen
  · rw [onUnknown]
    split
    · exact .ok w
    · exact writeReply_user_overflows (by simp [optParam])

end

/-- **The culprits are complete**: a message ends in a fault other than an overlong reply exactly
if the fault has its culprit. -/
theorem dispatch_error_iff (H : w.srv.Sized) (hlen : msg.params.length ≤ 15)
    (hf : f ≠ .bufOverflow) : dispatch ctx fd msg w = .error f ↔ Culprit w.srv fd msg f := by
  constructor
  · intro h
    by_cases hculprit : ∃ g, Culprit w.srv fd msg g
    · obtain ⟨g, hg⟩ := hculprit
      cases (hg.dispatch_eq ctx).symm.trans h
      exact hg
    · exact absurd (dispatch_overflows (not_exists.mp hculprit) H hlen f h) hf
  · exact Culprit.dispatch_eq ctx

/-! ## Steps -/

theorem Parses.params_le {th : Thread} (h : Parses th p line msg)
    (hp : strstrCrlf th.buf = .ok (some p)) : msg.params.length ≤ 15 := by
  obtain ⟨s, rfl, hclean, -⟩ := h.exists_clean hp
  exact (h.lineIn_eq hclean.nul).2

/-- Thread `t` has the line with its CRLF at `p` in its buffer, which is parsed as `msg`. -/
structure Sys.Handling (σ : Sys) (t : Nat) (th : Thread) (p : Nat) (line : CStr) (msg : Message) :
    Prop where
  thread : σ.threads t = some th
  found : strstrCrlf th.buf = .ok (some p)
  parses : Parses th p line msg

namespace Sys.Handling
variable {σ σ' : Sys} (h : σ.Handling t th p line msg)
include h

theorem params_le : msg.params.length ≤ 15 := h.parses.params_le h.found

theorem step_eq_ok : step ctx σ (.line t) = .ok (σ', l) ↔
    ∃ w, dispatch ctx th.sockfd msg (th.work σ.server p) = .ok w ∧ σ' = σ.handled t th p w ∧
      l = .command t th.sockfd (σ.connOn th.sockfd) line msg w.out :=
  step_line h.thread h.found h.parses

/-- What can be said of the step is said of the handling of the message. -/
theorem exists_step_iff {P : Sys → Label → Prop} :
    (∃ σ' l, step ctx σ (.line t) = .ok (σ', l) ∧ P σ' l) ↔
      ∃ w, dispatch ctx th.sockfd msg (th.work σ.server p) = .ok w ∧
        P (σ.handled t th p w) (.command t th.sockfd (σ.connOn th.sockfd) line msg w.out) := by
  constructor
  · intro hstep
    obtain ⟨σ', l, hstep, hP⟩ := hstep
    obtain ⟨w, hw, rfl, rfl⟩ := h.step_eq_ok.mp hstep
    exact ⟨w, hw, hP⟩
  · intro hw
    obtain ⟨w, hw, hP⟩ := hw
    exact ⟨_, _, h.step_eq_ok.mpr ⟨w, hw, rfl, rfl⟩, hP⟩

theorem step_eq_fault : step ctx σ (.line t) = .error (.fault f) ↔
    dispatch ctx th.sockfd msg (th.work σ.server p) = .error f := by
  have hnext : nextLine σ t = .ok (th, some p) := nextLine_eq_ok.mpr ⟨h.thread, h.found⟩
  have hstep : step ctx σ (.line t) = ((innerRound ctx σ.server th p).orHalt >>= fun r =>
      pure (afterRound σ t th.sockfd r)) := by
    rw [step, hnext]
    rfl
  rw [hstep, innerRound_parses h.parses]
  cases dispatch ctx th.sockfd msg (th.work σ.server p) with
  | ok w =>
    constructor
    · intro h'
      cases h'
    · intro h'
      cases h'
  | error g =>
    constructor
    · intro h'
      cases h'
      rfl
    · intro h'
      cases h'
      rfl

/-- In the states reached, a command ends in a fault other than an overlong reply exactly if the
fault has its culprit. -/
theorem step_eq_fault_iff (hrun : Run ctx tr σ) (hf : f ≠ .bufOverflow) :
    step ctx σ (.line t) = .error (.fault f) ↔ Culprit σ.server th.sockfd msg f := by
  have H : (th.work σ.server p).srv.Sized := hrun.sized
  rw [h.step_eq_fault, dispatch_error_iff H h.params_le hf]
  rfl

end Sys.Handling

/-! ## Played to a line -/

/-- The line that thread `t` has in its buffer, and what it is parsed as. -/
def Sys.lineOf (σ : Sys) (t : Nat) : Option (Thread × Nat × CStr × Message) := do
  let th ← σ.threads t
  let p ← (strstrCrlf th.buf).toOption.join
  let line ← (trimSpace (th.buf.take (p + 2))).toOption
  let q ← (strstrCrlf line).toOption.join
  if q ≠ 0 ∧ line.length < 1024 then
    let msg ← (chircMessageFromString line).toOption.join
    return (th, p, line, msg)
  else
    none

theorem toOption_join_eq_some {x : Res (Option α)} :
    x.toOption.join = some a ↔ x = .ok (some a) := by
  cases x with
  | error f =>
    constructor
    · intro h
      cases h
    · intro h
      cases h
  | ok o =>
    constructor
    · intro h
      exact congrArg Except.ok h
    · intro h
      exact Except.ok.inj h

theorem Sys.handling_of_lineOf {σ : Sys} (h : σ.lineOf t = some (th, p, line, msg)) :
    σ.Handling t th p line msg := by
  simp only [lineOf, Option.bind_eq_bind, Option.bind_eq_some_iff] at h
  obtain ⟨th', hth, p', hp, line', hline, q, hq, h⟩ := h
  split at h
  · next hcond =>
    obtain ⟨msg', hmsg, h⟩ := Option.bind_eq_some_iff.mp h
    cases h
    rw [toOption_join_eq_some] at hp hq hmsg
    refine ⟨hth, hp, ⟨?_, ⟨q, hq, hcond.1⟩, hcond.2, hmsg⟩⟩
    cases htrim : trimSpace (th.buf.take (p + 2)) with
    | error f =>
      rw [htrim] at hline
      cases hline
    | ok line' =>
      rw [htrim] at hline
      exact congrArg Except.ok (Option.some.inj hline)
  · cases h

/-- The events can be played, thread `t` then has a line in its buffer, and the check `f` accepts
the run and what the line is parsed as. -/
def playsToLine (ctx : Ctx) (es : List Event) (t : Nat)
    (f : History → Sys → Thread → Nat → Message → Bool) : Bool :=
  playsTo ctx es fun tr σ => (σ.lineOf t).any fun l => f tr σ l.1 l.2.1 l.2.2.2

theorem handling_of_playsToLine (ctx : Ctx) (es : List Event) (t : Nat)
    (f : History → Sys → Thread → Nat → Message → Bool) (h : playsToLine ctx es t f = true) :
    ∃ tr σ th p line msg, Run ctx tr σ ∧ σ.Handling t th p line msg ∧ f tr σ th p msg = true := by
  obtain ⟨tr, σ, -, hrun, h⟩ := run_of_playsTo ctx es _ h
  obtain ⟨⟨th, p, line, msg⟩, hline, hf⟩ := (Option.any_eq_true _ _).mp h
  exact ⟨tr, σ, th, p, line, msg, hrun, Sys.handling_of_lineOf hline, hf⟩

end Chirc
