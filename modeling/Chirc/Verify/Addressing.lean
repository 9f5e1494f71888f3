import Chirc.Verify.Ownership
import Chirc.Verify.TagOrder

/-! # Whom the replies are addressed to

A numeric reply names its recipient. Some handlers look the nick up in `sockfd_nick_hash`, which is
right for a registered connection unless an older node of its descriptor comes first. Others take
the last node of `nick_head`, whoever sent it, or the text `*`. -/

namespace Chirc

open TransitionSystem Rendezvous

/-! ## Commands that are answered -/

/-- The command gets a numeric reply, other than those of a registration. -/
def answered (srv : Server) (fd : Nat) (msg : Message) : Bool :=
  match command msg.cmd with
  | .lusers => true
  | .motd => true
  | .whois => msg.params.length = 1
  | .privmsg =>
    msg.params.head?.any fun name => findConnectionMapNode srv.connectionHash name = none
  | .nick => msg.params = [] ∨
    (nickParam msg).any fun nick => findConnectionMapNode srv.connectionHash nick ≠ none
  | .user => msg.params.length < 4
  | .unknown => findSockfdNickMapNode srv.sockfdNickHash fd ≠ none
  | _ => false

/-- A command is answered, and then neither sets a nick nor registers; or it is not, and gets
numeric replies only if it registers. -/
inductive Answer (srv : Server) (fd : Nat) (msg : Message) (out out' : List Message) : Prop
  | answered : answered srv fd msg = true → acceptedNick srv msg = none →
    registers srv msg = none → (∃ m ∈ out', m.Numeric) → Answer srv fd msg out out'
  | unanswered : answered srv fd msg = false →
    (registers srv msg = none → ∀ m ∈ out', m ∈ out ∨ ¬ m.Numeric) → Answer srv fd msg out out'

theorem nickParam_of_command (h : command msg.cmd ≠ .nick) : nickParam msg = none := by
  rw [nickParam]
  split
  · next hcmd _ => exact absurd hcmd h
  · rfl

theorem acceptedNick_of_command (h : command msg.cmd ≠ .nick) : acceptedNick srv msg = none := by
  rw [acceptedNick, nickParam_of_command h]
  rfl

theorem nickParam_of_idle (h : request msg = .idle) : nickParam msg = none := by
  refine Option.eq_none_iff_forall_ne_some.mpr fun nick hnick => ?_
  cases h.symm.trans (nickParam_eq_some.mp hnick)

theorem mem_motdReplies (ctx : Ctx) (nick : CStr) (expectMotd : Bool) :
    ∃ code ps, reply ctx nick code ps ∈ motdReplies ctx nick expectMotd ∧ Digits code := by
  rw [motdReplies]
  split
  · exact ⟨_, _, List.mem_cons_self, by decide⟩
  · exact ⟨_, _, List.mem_cons_self, by decide⟩

namespace Answer
variable {srv : Server} {out out' : List Message}

theorem of_silent (h : Chirc.answered srv fd msg = false) (hout : out' = out) :
    Answer srv fd msg out out' :=
  .unanswered h fun _ _ hm => .inl (hout ▸ hm)

theorem of_plain (h : Chirc.answered srv fd msg = false) (hcmd : ¬ Digits cmd)
    (hout : out' = out ++ [plain cmd ps]) : Answer srv fd msg out out' := by
  refine .unanswered h fun _ m hm => ?_
  rw [hout] at hm
  refine (List.mem_append.mp hm).imp_right fun hm hnum => ?_
  rw [List.mem_singleton.mp hm] at hnum
  exact hcmd hnum

theorem of_registers (h : Chirc.answered srv fd msg = false)
    (hreg : registers srv msg = some nick) : Answer srv fd msg out out' :=
  .unanswered h fun hnone => by cases hreg.symm.trans hnone

theorem of_reply (h : Chirc.answered srv fd msg = true) (hnick : acceptedNick srv msg = none)
    (hreg : registers srv msg = none) (hmem : reply ctx nick code ps ∈ out')
    (hcode : Digits code) : Answer srv fd msg out out' :=
  .answered h hnick hreg ⟨_, hmem, hcode⟩

end Answer

theorem Handled.answer {w w' : Work} {b : Board CStr Nat} (H : Handled ctx fd msg w w')
    (hb : Represents w.srv b) : Answer w.srv fd msg w.out w'.out := by
  have hidle {c} (hcmd : command msg.cmd = c) (h : c ≠ .nick ∧ c ≠ .user) :
      acceptedNick w.srv msg = none ∧ registers w.srv msg = none :=
    ⟨acceptedNick_of_command (hcmd ▸ h.1), registers_of_command hcmd h⟩
  cases H with
  | ping hcmd => exact .of_plain (by simp [answered, hcmd]) (by decide) rfl
  | quit text hcmd => exact .of_plain (by simp [answered, hcmd]) (by decide) rfl
  | lusers hcmd =>
    obtain ⟨hnick, hreg⟩ := hidle hcmd (by decide)
    exact .of_reply (by simp [answered, hcmd]) hnick hreg
      (List.mem_append_right _ List.mem_cons_self) (by decide)
  | motd hcmd =>
    obtain ⟨hnick, hreg⟩ := hidle hcmd (by decide)
    obtain ⟨code, ps, hmem, hcode⟩ := mem_motdReplies ctx (sockfdNick w.srv fd) true
    exact .of_reply (by simp [answered, hcmd]) hnick hreg (List.mem_append_right _ hmem) hcode
  | whoisAbsent nick asker hcmd hparams hasker =>
    obtain ⟨hnick, hreg⟩ := hidle hcmd (by decide)
    exact .of_reply (by simp [answered, hcmd, hparams]) hnick hreg
      (List.mem_append_right _ List.mem_cons_self) (by decide)
  | whoisFound nick asker node userMsg hcmd hparams hasker =>
    obtain ⟨hnick, hreg⟩ := hidle hcmd (by decide)
    exact .of_reply (by simp [answered, hcmd, hparams]) hnick hreg
      (List.mem_append_right _ List.mem_cons_self) (by decide)
  | privmsgAbsent name hcmd hname hnode =>
    obtain ⟨hnick, hreg⟩ := hidle hcmd (by decide)
    exact .of_reply (by simp [answered, hcmd, hname, hnode]) hnick hreg
      (List.mem_append_right _ List.mem_cons_self) (by decide)
  | nickMissing hcmd hparams =>
    have hreq : request msg = .idle := request_eq_idle (by simp [hparams]) (by simp [hcmd])
    refine .of_reply (by simp [answered, hcmd, hparams]) ?_ (registers_of_idle hreq)
      (List.mem_append_right _ List.mem_cons_self) (by decide)
    simp [acceptedNick, nickParam_of_idle hreq]
  | nickInUse nick node hcmd hparams hnode =>
    have hfound : findConnectionMapNode w.srv.connectionHash nick ≠ none := by simp [hnode]
    have hnick := hb.nick_mem_iff.mp (hb.mem_left_of_found hfound)
    refine .of_reply ?_ ?_ (registers_of_known (request_nick hcmd hparams) hnick)
      (List.mem_append_right _ List.mem_cons_self) (by decide)
    · simp [answered, nickParam, hcmd, hparams, hnode]
    · simp [acceptedNick, nickParam, hcmd, hparams, hnick]
  | nickRegisters nick node user hcmd hparams hnode hnick huser =>
    have hreg : registers w.srv msg = some nick := by
      simp [registers, request_nick hcmd hparams, hnick, huser]
    exact .of_registers (by simp [answered, nickParam, hcmd, hparams, hnode]) hreg
  | nickIgnored hcmd hlen =>
    have hreq : request msg = .idle := request_eq_idle (fun _ => by omega) (by simp [hcmd])
    have hnil : msg.params ≠ [] := fun h => by simp [h] at hlen
    exact .of_silent (by simp [answered, hcmd, hnil, nickParam_of_idle hreq]) rfl
  | userMissing name hcmd hname hlen =>
    exact .of_reply (by simp [answered, hcmd, hlen]) (acceptedNick_of_command (by simp [hcmd]))
      (registers_of_idle (request_eq_idle (by simp [hcmd]) fun _ => hlen))
      (List.mem_append_right _ List.mem_cons_self) (by decide)
  | userRegisters name node hcmd hname hlen hstored huser hnick =>
    have hreg : registers w.srv msg = some name := by
      simp [registers, request_user hcmd hname (by omega), hlen, hnick, huser]
    exact .of_registers (by simp [answered, hcmd, hlen]) hreg
  | unknown node hcmd hnode =>
    obtain ⟨hnick, hreg⟩ := hidle hcmd (by decide)
    exact .of_reply (by simp [answered, hcmd, hnode]) hnick hreg
      (List.mem_append_right _ List.mem_cons_self) (by decide)
  | _ =>
    -- no reply
    exact .of_silent (by simp [answered, nickParam, *]) rfl

/-! ## Replies and nicks -/

/-- The nick of connection `c`: the one it is registered under, else that of its last NICK that was
accepted, else `*`. -/
def ownNick (tr : History) (c : Nat) : CStr :=
  ((registered tr c).or (lastAccepted tr c)).getD (lit "*")

/-- The numeric replies of the last step are addressed to the nick of the connection that they are
written to. -/
def RepliesAddressed : History → Sys → Prop
  | [], _ => True
  | (σ₀, l) :: tr, _ => ∀ c, ∀ m ∈ l.sentTo c, m.Numeric →
    m.params.head? = some (ownNick ((σ₀, l) :: tr) c)

/-- The lookup that the handler of an answered command makes leads to the nick of connection `d`.
LUSERS, MOTD, WHOIS and unknown commands look into `sockfd_nick_hash`, where the node of a
registered connection must stand in front; PRIVMSG, USER and NICK look at the last node of
`nick_head`; a NICK for a nick in use does not look. -/
def findsNick (tr : History) (srv : Server) (fd : Nat) (msg : Message) (d : Nat) : Bool :=
  match command msg.cmd with
  | .privmsg => (getLeastUserNode srv.nickHead).all (·.name = ownNick tr d)
  | .user => (getLeastUserNode srv.nickHead).all (·.name = ownNick tr d)
  | .nick =>
    if msg.params = [] then (getLeastUserNode srv.nickHead).all (·.name = ownNick tr d)
    else ownNick tr d = lit "*"
  | _ =>
    if registered tr d ≠ none then newestFirst tr d || (nodesOf srv.sockfdNickHash fd).length ≤ 1
    else match findSockfdNickMapNode srv.sockfdNickHash fd with
      | none => ownNick tr d = []
      | some node => node.name = ownNick tr d

/-- If the command is answered, then its handler finds the nick of the connection. -/
def LooksUpOwn (tr : History) (σ : Sys) : Label → Prop
  | .command _ fd c _ msg _ => answered σ.server fd msg = true →
    ∀ d ∈ c, findsNick tr σ.server fd msg d = true
  | _ => True

instance : ∀ l, Decidable (LooksUpOwn tr σ l)
  | .command _ fd c _ msg _ => inferInstanceAs (Decidable (answered σ.server fd msg = true →
    ∀ d ∈ c, findsNick tr σ.server fd msg d = true))
  | .accept .. => inferInstanceAs (Decidable True)
  | .recv .. => inferInstanceAs (Decidable True)
  | .blank .. => inferInstanceAs (Decidable True)
  | .hangup .. => inferInstanceAs (Decidable True)

/-! ## Where the handlers look -/

theorem Run.mem_of_registered {σ : Sys} (hrun : Run ctx tr σ) (h : registered tr c = some nick) :
    nick ∈ names σ.server.nickHead := by
  refine TransitionSystem.Run.invariant (P := fun tr σ => ∀ c nick, registered tr c = some nick →
    nick ∈ names σ.server.nickHead) ?_ ?_ hrun c nick h
  · intro _ _ c nick h
    cases h
  · intro tr σ l σ' hrun H hstep c nick hnick
    obtain ⟨b, hb⟩ := Run.represents hrun
    obtain ⟨fd, hb'⟩ := (step_cases hstep).represents hb
    have hmono (h : registered tr c = some nick) : nick ∈ names σ'.server.nickHead := by
      rw [hb'.left]
      exact Board.subset_leftAfter (hb.left ▸ H c nick h)
    cases (step_cases hstep).move hb tr with
    | quiet hcloses hreg hconns hbound htags hcount hregd => exact hmono (hregd c ▸ hnick)
    | accept fd' hcloses hreg hfree hconns hbound htags hcount hregd =>
      exact hmono (hregd c ▸ hnick)
    | register fd' nick' hcloses hreg hname hconns hfresh hbound htags hcount hregd hothers =>
      by_cases hc : σ.connOn fd' = some c
      · cases (hregd c hc).symm.trans hnick
        rw [hb'.left]
        exact (b.post fd l.request).bound_left (hb'.bound ▸ hbound ▸ List.mem_cons_self)
      · exact hmono (hothers c hc ▸ hnick)
    | close fd' hcloses hreg hconns hbound htags hcount hregd => exact hmono (hregd c ▸ hnick)

theorem mem_nickPosts_of_lastAccepted (h : lastAccepted tr c = some nick) :
    (nick, some c) ∈ nickPosts tr := by
  obtain ⟨e, he, haccepted⟩ := List.exists_of_findSome?_eq_some h
  obtain ⟨msg, hmsg, hnick⟩ := Option.bind_eq_some_iff.mp haccepted
  refine List.mem_filterMap.mpr ⟨e, he, ?_⟩
  rw [SentCommand.message] at hmsg
  split at hmsg
  · next hsender =>
    cases hmsg
    rw [SentCommand.nickPost, hnick, hsender]
    rfl
  · cases hmsg

/-- While `nick_head` is empty, no connection has a nick. -/
theorem Run.ownNick_of_nil {σ : Sys} (hrun : Run ctx tr σ) (h : σ.server.nickHead = []) (c : Nat) :
    ownNick tr c = lit "*" := by
  have hempty (nick : CStr) : nick ∉ names σ.server.nickHead := by simp [h, names]
  have hreg : registered tr c = none :=
    Option.eq_none_iff_forall_ne_some.mpr fun nick hnick =>
      hempty nick (hrun.mem_of_registered hnick)
  have hlast : lastAccepted tr c = none :=
    Option.eq_none_iff_forall_ne_some.mpr fun nick hnick =>
      hempty nick (hrun.logged.mem_nick_iff.mpr ⟨_, mem_nickPosts_of_lastAccepted hnick⟩)
  rw [ownNick, hreg, hlast]
  rfl

theorem Run.leastNick_eq_iff {σ : Sys} (hrun : Run ctx tr σ) :
    (getLeastUserNode σ.server.nickHead).all (·.name = ownNick tr c) = true ↔
      leastNick σ.server = ownNick tr c := by
  rw [leastNick]
  cases h : getLeastUserNode σ.server.nickHead with
  | none => simp [hrun.ownNick_of_nil (List.getLast?_eq_none_iff.mp h)]
  | some node => simp

/-- The nick of a registered connection is found exactly if its newest node stands in front, or is
the only one of its descriptor. -/
theorem Run.sockfdNick_of_registered {σ : Sys} (hrun : Run ctx tr σ) (hc : σ.connOn fd = some c)
    (h : registered tr c = some nick) : sockfdNick σ.server fd = ownNick tr c ↔
      newestFirst tr c = true ∨ (nodesOf σ.server.sockfdNickHash fd).length ≤ 1 := by
  have hown : ownNick tr c = nick := by rw [ownNick, h]; rfl
  rw [hown, ← hrun.findSockfdNickMapNode_iff hc h, sockfdNick]
  have hordered := hrun.tagsOrdered fd c nick hc h
  cases hfind : findSockfdNickMapNode σ.server.sockfdNickHash fd with
  | none =>
    -- the descriptor of a registered connection has a node
    rw [findSockfdNickMapNode_eq, List.head?_eq_none_iff] at hfind
    simp [hfind] at hordered
  | some node => simp

theorem Run.sockfdNick_eq_iff {σ : Sys} (hrun : Run ctx tr σ) (hc : σ.connOn fd = some c) :
    (if registered tr c ≠ none then
      newestFirst tr c || decide ((nodesOf σ.server.sockfdNickHash fd).length ≤ 1)
    else match findSockfdNickMapNode σ.server.sockfdNickHash fd with
      | none => decide (ownNick tr c = [])
      | some node => decide (node.name = ownNick tr c)) = true ↔
      sockfdNick σ.server fd = ownNick tr c := by
  split
  · next h =>
    obtain ⟨nick, hnick⟩ := Option.ne_none_iff_exists'.mp h
    rw [hrun.sockfdNick_of_registered hc hnick, Bool.or_eq_true, decide_eq_true_iff]
  · rw [sockfdNick]
    cases findSockfdNickMapNode σ.server.sockfdNickHash fd with
    | none => simp [eq_comm]
    | some node => simp

/-- The handler finds the nick of the connection exactly if it addresses its replies to it. -/
theorem Run.findsNick_iff {σ : Sys} (hrun : Run ctx tr σ) (hc : σ.connOn fd = some c) :
    findsNick tr σ.server fd msg c = true ↔ addressee σ.server fd msg = ownNick tr c := by
  rw [findsNick, addressee]
  cases command msg.cmd with
  | privmsg => exact hrun.leastNick_eq_iff
  | user => exact hrun.leastNick_eq_iff
  | nick =>
    dsimp only
    split
    · exact hrun.leastNick_eq_iff
    · rw [decide_eq_true_iff, eq_comm]
  | _ => exact hrun.sockfdNick_eq_iff hc

/-! ## Replies in a run -/

theorem registrationReplies_head (h : m ∈ registrationReplies ctx srv nick user)
    (hnum : m.Numeric) : m.params.head? = some nick := by
  rcases List.mem_cons.mp h with rfl | h
  · rfl
  · exact (briefing_addressed h).head hnum

theorem lastAccepted_cons_of_none (h : acceptedNick σ.server msg = none) :
    lastAccepted ((σ, .command t fd c' line msg out) :: tr) c = lastAccepted tr c := by
  rw [lastAccepted, commands, Label.sent, Option.toList_some, List.singleton_append,
    List.findSome?_cons, SentCommand.message]
  split
  · next hsome =>
    split at hsome
    · cases h.symm.trans hsome
    · cases hsome
  · rfl

theorem ownNick_cons_of_none (hout : welcomedAs out = registers σ.server msg)
    (hnick : acceptedNick σ.server msg = none) (hreg : registers σ.server msg = none) :
    ownNick ((σ, .command t fd c' line msg out) :: tr) c = ownNick tr c := by
  rw [ownNick, ownNick, lastAccepted_cons_of_none hnick, registered_command hout, hreg]
  split <;> rfl

/-- The replies of a command that does not register are addressed to the nick that it looks up. -/
theorem Registration.addressed {w w' : Work} (H : Registration ctx fd msg w w')
    (hreg : registers w.srv msg = none) (hw : w.out = []) (hm : m ∈ w'.out) :
    Addressed (addressee w.srv fd msg) m := by
  cases H with
  | silent _ htags hms => exact (hms m hm).resolve_left (by simp [hw])
  | welcomed nick w₁ stored hnick => cases hnick.symm.trans hreg

theorem repliesAddressed_step {σ σ' : Sys} (hrun : Run ctx tr σ)
    (hstep : (chirc ctx).step σ l σ') : RepliesAddressed ((σ, l) :: tr) σ' ↔ LooksUpOwn tr σ l := by
  have hidle {l} (hsent : ∀ c, l.sentTo c = []) : RepliesAddressed ((σ, l) :: tr) σ' := by
    intro c m hm
    rw [hsent c] at hm
    cases hm
  cases step_cases hstep with
  | accept fd => exact iff_of_true (hidle fun _ => rfl) trivial
  | recv t th c chunk th' => exact iff_of_true (hidle fun _ => rfl) trivial
  | blank t th p line => exact iff_of_true (hidle fun _ => rfl) trivial
  | hangup t th => exact iff_of_true (hidle fun _ => rfl) trivial
  | command t th p line msg w hth hp hparses hw =>
    obtain ⟨b, hb⟩ := hrun.represents
    have hout := welcomedAs_out hb hw
    have hregistration := (dispatch_handled hw).registration hb
    cases (dispatch_handled hw).answer (b := b) hb with
    | answered hans hnick hnone hnumeric =>
      have hhead {m} (hm : m ∈ w.out) := (hregistration.addressed hnone rfl hm).head
      constructor
      · intro H _ d hd
        obtain ⟨m, hm, hnum⟩ := hnumeric
        have := H d m (mem_sentTo_command.mpr ⟨hd, hm⟩) hnum
        rw [hhead hm hnum, ownNick_cons_of_none hout hnick hnone] at this
        exact (hrun.findsNick_iff hd).mpr (Option.some.inj this)
      · intro H c m hm hnum
        obtain ⟨hc, hm⟩ := mem_sentTo_command.mp hm
        rw [hhead hm hnum, ownNick_cons_of_none hout hnick hnone]
        exact congrArg some ((hrun.findsNick_iff hc).mp (H hans c hc))
    | unanswered hans hms =>
      refine iff_of_true (fun c m hm hnum => ?_) fun h => by cases hans.symm.trans h
      obtain ⟨hc, hm⟩ := mem_sentTo_command.mp hm
      cases hregistration with
      | silent hreg => exact absurd hnum ((hms hreg m hm).resolve_left List.not_mem_nil)
      | welcomed nick w₁ stored hreg htags hout₁ h =>
        have hreg : registers σ.server msg = some nick := hreg
        rw [ownNick, registered_command hout, if_pos hc, hreg]
        rw [h, Work.registered_out, hout₁] at hm
        exact registrationReplies_head hm hnum

/-- One client takes a nick, and another one, which has none, sends a message. -/
def privmsgOfOther : List Event :=
  [.accept 4, .accept 5, .recv 0 (lit "NICK alice\r\n"), .line 0,
    .recv 1 (lit "PRIVMSG bob :hi\r\n"), .line 1]

end Chirc
