import Chirc.Verify.Room
import Chirc.Verify.Tables

/-! # Who has a nick

A NICK for a nick that is free reserves it, and one for a nick in `connection_hash` is answered
with ERR_NICKNAMEINUSE. A nick that is only on `nick_head` is another matter: the branch finds the
node, and does nothing. Who put the node there is known from the history alone, as is who was
registered under the nick, which need not be the same connection. -/

namespace Chirc

/-! ## Reserved and registered -/

/-- The nick that the step welcomes, with the connection that gets the welcome. -/
def Label.welcomePost : Label → Option (CStr × Option Nat)
  | .command _ _ c _ _ out => (welcomedAs out).map (·, c)
  | _ => none

/-- The nicks registered so far with their connections, latest first. -/
def welcomePosts (tr : History) : List (CStr × Option Nat) := tr.filterMap fun e => e.2.welcomePost

theorem map_fst_welcomePosts : (welcomePosts tr).map Prod.fst = registrations tr := by
  rw [welcomePosts, registrations, List.map_filterMap]
  apply congrArg (List.filterMap · tr)
  funext e
  cases e.2 with
  | command t fd c line msg out =>
    rw [Label.welcomePost, Label.welcomed, Option.map_map]
    exact Option.map_id'
  | _ => rfl

/-- A nick is in `connection_hash` exactly if some connection, perhaps one that is closed, was
registered under it. -/
theorem Run.found_welcomed {σ : Sys} (hrun : Run ctx tr σ) :
    findConnectionMapNode σ.server.connectionHash nick ≠ none ↔
      ∃ d, (nick, d) ∈ welcomePosts tr := by
  rw [hrun.found_iff, ← map_fst_welcomePosts, List.mem_map, Prod.exists]
  simp

/-- A nick is registered once. -/
theorem Run.welcomePosts_unique {σ : Sys} (hrun : Run ctx tr σ)
    (h : (nick, c) ∈ welcomePosts tr) (h' : (nick, d) ∈ welcomePosts tr) : c = d := by
  have hnodup : ((welcomePosts tr).map Prod.fst).Nodup := by
    obtain ⟨b, hb⟩ := Run.represents hrun
    rw [map_fst_welcomePosts, hrun.registrations_eq]
    exact hb.tablesSound.keys
  exact congrArg Prod.snd (List.inj_on_of_nodup_map hnodup h h' rfl)

/-- The nick was reserved by connection `d`, which sent the NICK, or `d` was registered under it;
`none` stands for a line that no connection sent and for a connection that had been closed by then.
-/
def HasNick (tr : History) (d : Option Nat) (nick : CStr) : Prop :=
  (nick, d) ∈ nickPosts tr ∨ (nick, d) ∈ welcomePosts tr

/-! ## The answer to a NICK -/

/-- One of the three holds and the others do not. -/
def ExactlyOne (p q r : Prop) : Prop := p ∧ ¬ q ∧ ¬ r ∨ q ∧ ¬ p ∧ ¬ r ∨ r ∧ ¬ p ∧ ¬ q

/-- What the NICK of connection `c` in the step `l` leads to: the nick was free and is reserved by
`c`; or it was had by `c`; or it was had by another connection and `c` is told that it is in use. -/
def NickAnswer (tr : History) (σ : Sys) (l : Label) (c : Nat) (nick : CStr) : Prop :=
  ExactlyOne ((∀ d, ¬ HasNick tr d nick) ∧ (nick, some c) ∈ nickPosts ((σ, l) :: tr))
    (HasNick tr (some c) nick)
    ((∃ d, d ≠ some c ∧ HasNick tr d nick) ∧
      ∃ m ∈ l.sentTo c, m.cmd = errNicknameinuse ∧ m.params[1]? = some nick)

/-- The step of thread `t` on the NICK of connection `c` is answered. -/
def AnswersNick (ctx : Ctx) (tr : History) (σ : Sys) (t c : Nat) (nick : CStr) : Prop :=
  ∃ σ' l, step ctx σ (.line t) = .ok (σ', l) ∧ NickAnswer tr σ l c nick

/-- Which NICKs are answered: those for a nick that is free and has room; those for a nick that `c`
has reserved and nobody was registered under; and those for a nick in use, if it was reserved by `c`
and registered by `c`, or neither while the descriptor is that of `c`, who is told. -/
inductive Answerable (ctx : Ctx) (tr : History) (σ : Sys) (fd c : Nat) (nick : CStr) : Prop
  | free : findUserNode σ.server.nickHead nick = none → nick.length < 128 →
    (findUserNode σ.server.userHead nick ≠ none →
      2 * ctx.servername.length + 3 * nick.length ≤ 973) → Answerable ctx tr σ fd c nick
  | own : findConnectionMapNode σ.server.connectionHash nick = none →
    (nick, some c) ∈ nickPosts tr → Answerable ctx tr σ fd c nick
  | inUse : findConnectionMapNode σ.server.connectionHash nick ≠ none →
    ctx.servername.length + nick.length ≤ 985 → σ.connOn fd = some c →
    ((nick, some c) ∈ nickPosts tr ↔ (nick, some c) ∈ welcomePosts tr) →
    Answerable ctx tr σ fd c nick
  | untold : findConnectionMapNode σ.server.connectionHash nick ≠ none →
    ctx.servername.length + nick.length ≤ 985 → σ.connOn fd ≠ some c →
    HasNick tr (some c) nick → Answerable ctx tr σ fd c nick

section
variable {ctx : Ctx} {tr : History} {σ : Sys} (hrun : Run ctx tr σ)
include hrun

theorem Run.nickPosts_of_found (hnode : findConnectionMapNode σ.server.connectionHash nick ≠ none) :
    ∃ d, (nick, d) ∈ nickPosts tr := by
  obtain ⟨b, hb⟩ := hrun.represents
  rw [← hrun.logged.mem_nick_iff, hb.left]
  exact hb.mem_left_of_found hnode

/-- A nick that is free is had by nobody. -/
theorem Run.not_hasNick (hnick : findUserNode σ.server.nickHead nick = none) (d : Option Nat) :
    ¬ HasNick tr d nick := by
  rw [findUserNode_eq_none] at hnick
  intro h
  rcases h with h | h
  · exact hnick (hrun.logged.mem_nick_iff.mpr ⟨d, h⟩)
  · have hnode := hrun.found_welcomed.mpr ⟨d, h⟩
    exact hnick (hrun.logged.mem_nick_iff.mpr (hrun.nickPosts_of_found hnode))

/-- Somebody has a nick that is on `nick_head`. -/
theorem Run.exists_hasNick (hnick : findUserNode σ.server.nickHead nick ≠ none) :
    ∃ d, HasNick tr d nick := by
  rw [ne_eq, findUserNode_eq_none, not_not] at hnick
  obtain ⟨d, hd⟩ := hrun.logged.mem_nick_iff.mp hnick
  exact ⟨d, .inl hd⟩

end

namespace ExactlyOne

theorem iff_left (hq : ¬ q) (hr : ¬ r) : ExactlyOne p q r ↔ p := by
  simp only [ExactlyOne, hq, hr, false_and, or_false, not_false_eq_true, and_true]

theorem iff_middle (hp : ¬ p) (hr : ¬ r) : ExactlyOne p q r ↔ q := by
  simp only [ExactlyOne, hp, hr, false_and, or_false, false_or, not_false_eq_true, and_true]

theorem iff_last_two (hp : ¬ p) : ExactlyOne p q r ↔ (r ↔ ¬ q) := by
  by_cases hq : q
  · simp only [ExactlyOne, hp, hq, false_and, not_true_eq_false, and_false, or_false, false_or,
      not_false_eq_true, true_and, iff_false]
  · simp only [ExactlyOne, hp, hq, false_and, false_or, not_false_eq_true, and_true, iff_true]

end ExactlyOne

theorem answersNick_eq {σ : Sys} (h : σ.Handling t th p line msg) :
    AnswersNick ctx tr σ t c nick ↔
      ∃ w, dispatch ctx th.sockfd msg (th.work σ.server p) = .ok w ∧
        NickAnswer tr σ (.command t th.sockfd (σ.connOn th.sockfd) line msg w.out) c nick := by
  rw [AnswersNick, h.exists_step_iff]

/-- The reply to a NICK for a nick in use. -/
def inUseReply (ctx : Ctx) (nick : CStr) : Message :=
  reply ctx (lit "*") errNicknameinuse [(nick, false), (lit "Nickname is already in use", true)]

theorem inUse_sent_iff :
    (∃ m ∈ (Label.command t fd d line msg [inUseReply ctx nick]).sentTo c,
      m.cmd = errNicknameinuse ∧ m.params[1]? = some nick) ↔ d = some c := by
  constructor
  · intro h
    obtain ⟨m, hm, -⟩ := h
    exact (mem_sentTo_command.mp hm).1
  · intro hd
    exact ⟨_, mem_sentTo_command.mpr ⟨hd, List.mem_singleton_self _⟩, rfl, by simp [inUseReply]⟩

section
variable {ctx : Ctx} {tr : History} {σ : Sys} (hrun : Run ctx tr σ)
include hrun

/-- A NICK for a nick that is free reserves it. -/
theorem Run.nickAnswer_free (hparam : nickParam msg = some nick) (hc : c ∈ senderOf tr σ t)
    (hnick : findUserNode σ.server.nickHead nick = none) :
    NickAnswer tr σ (.command t fd d line msg out) c nick := by
  have hnobody := hrun.not_hasNick hnick
  have hposted : (nick, some c) ∈ nickPosts ((σ, .command t fd d line msg out) :: tr) := by
    have haccepted : acceptedNick σ.server msg = some nick := by
      rw [acceptedNick, hparam, Option.filter_some, if_pos (decide_eq_true hnick)]
    rw [nickPosts_cons, Label.sent, Option.bind_some, SentCommand.nickPost, haccepted, hc]
    exact List.mem_cons_self
  refine (ExactlyOne.iff_left (hnobody _) ?_).mpr ⟨hnobody, hposted⟩
  intro h
  obtain ⟨⟨d, -, hd⟩, -⟩ := h
  exact hnobody d hd

/-- A NICK that gets no reply is answered exactly if the connection has reserved the nick. -/
theorem Run.nickAnswer_known (hnick : findUserNode σ.server.nickHead nick ≠ none)
    (hnode : findConnectionMapNode σ.server.connectionHash nick = none) :
    NickAnswer tr σ (.command t fd d line msg []) c nick ↔ (nick, some c) ∈ nickPosts tr := by
  obtain ⟨e, he⟩ := hrun.exists_hasNick hnick
  have hunregistered : (nick, some c) ∉ welcomePosts tr := by
    intro h
    exact hrun.found_welcomed.mpr ⟨_, h⟩ hnode
  rw [NickAnswer, ExactlyOne.iff_middle, HasNick, or_iff_left hunregistered]
  · intro h
    exact h.1 e he
  · intro h
    obtain ⟨-, m, hm, -⟩ := h
    cases (mem_sentTo_command.mp hm).2

/-- A NICK for a nick in use is answered exactly if the connection has reserved the nick and is
registered under it, or neither and it is told; or if it has the nick and is not told. -/
theorem Run.nickAnswer_inUse (hnode : findConnectionMapNode σ.server.connectionHash nick ≠ none)
    (x : Option Nat) :
    NickAnswer tr σ (.command t fd x line msg [inUseReply ctx nick]) c nick ↔
      if x = some c then ((nick, some c) ∈ nickPosts tr ↔ (nick, some c) ∈ welcomePosts tr)
      else HasNick tr (some c) nick := by
  obtain ⟨d, hd⟩ := hrun.nickPosts_of_found hnode
  obtain ⟨e, he⟩ := hrun.found_welcomed.mp hnode
  have hposted {x : Option Nat} : (nick, x) ∈ nickPosts tr ↔ x = d := by
    constructor
    · intro h
      exact hrun.nickPosts_unique h hd
    · rintro rfl
      exact hd
  have hwelcomed {x : Option Nat} : (nick, x) ∈ welcomePosts tr ↔ x = e := by
    constructor
    · intro h
      exact hrun.welcomePosts_unique h he
    · rintro rfl
      exact he
  have hother : (∃ x, x ≠ some c ∧ HasNick tr x nick) ↔ ¬ (some c = d ∧ some c = e) := by
    simp only [HasNick, hposted, hwelcomed]
    constructor
    · intro h hboth
      obtain ⟨x, hne, hx⟩ := h
      exact hx.elim (fun hx => hne (hx.trans hboth.1.symm)) fun hx => hne (hx.trans hboth.2.symm)
    · intro h
      by_cases hcd : some c = d
      · exact ⟨e, fun hec => h ⟨hcd, hec.symm⟩, .inr rfl⟩
      · exact ⟨d, Ne.symm hcd, .inl rfl⟩
  have hp : ¬ ((∀ d, ¬ HasNick tr d nick) ∧
      (nick, some c) ∈ nickPosts ((σ, .command t fd x line msg [inUseReply ctx nick]) :: tr)) :=
    fun h => h.1 d (.inl hd)
  rw [NickAnswer, inUse_sent_iff]
  split
  · next hx =>
    rw [ExactlyOne.iff_last_two hp, hother, and_iff_left hx, HasNick, hposted, hwelcomed]
    tauto
  · next hx => exact ExactlyOne.iff_middle hp fun h => hx h.2

end

section
variable {ctx : Ctx} {tr : History} {σ : Sys} {msg : Message} {nick : CStr} (hrun : Run ctx tr σ)
  (h : σ.Handling t th p line msg) (hc : c ∈ senderOf tr σ t)
  (hcmd : command msg.cmd = .nick) (hparams : msg.params = [nick])
include hrun h hcmd hparams

theorem answersNick_of_inUse
    (hnode : findConnectionMapNode σ.server.connectionHash nick = some node) :
    AnswersNick ctx tr σ t c nick ↔ Answerable ctx tr σ th.sockfd c nick := by
  have hfound : findConnectionMapNode σ.server.connectionHash nick ≠ none := by
    rw [hnode]
    exact Option.some_ne_none node
  have hw {w} : dispatch ctx th.sockfd msg (th.work σ.server p) = .ok w ↔ _ :=
    dispatch_nick_used hcmd hparams hnode
  rw [answersNick_eq h]
  constructor
  · intro hanswers
    obtain ⟨w, hok, hanswer⟩ := hanswers
    obtain ⟨hfits, rfl⟩ := hw.mp hok
    have hanswer := (hrun.nickAnswer_inUse hfound _).mp hanswer
    split at hanswer
    · next hopen => exact .inUse hfound hfits hopen hanswer
    · next hopen => exact .untold hfound hfits hopen hanswer
  · intro H
    cases H with
    | free hnick =>
      obtain ⟨d, hd⟩ := hrun.nickPosts_of_found hfound
      exact absurd (.inl hd) (hrun.not_hasNick hnick d)
    | own hnone => exact absurd hnone hfound
    | inUse _ hfits hopen hsame =>
      refine ⟨_, hw.mpr ⟨hfits, rfl⟩, (hrun.nickAnswer_inUse hfound _).mpr ?_⟩
      rwa [if_pos hopen]
    | untold _ hfits hopen hhas =>
      refine ⟨_, hw.mpr ⟨hfits, rfl⟩, (hrun.nickAnswer_inUse hfound _).mpr ?_⟩
      rwa [if_neg hopen]

theorem answersNick_of_known
    (hnode : findConnectionMapNode σ.server.connectionHash nick = none)
    (hnick : findUserNode σ.server.nickHead nick = some node) :
    AnswersNick ctx tr σ t c nick ↔ Answerable ctx tr σ th.sockfd c nick := by
  have hknown : findUserNode σ.server.nickHead nick ≠ none := by
    rw [hnick]
    exact Option.some_ne_none node
  have hw : dispatch ctx th.sockfd msg (th.work σ.server p) = .ok _ :=
    dispatch_nick_known hcmd hparams hnode hnick
  rw [answersNick_eq h]
  constructor
  · intro hanswers
    obtain ⟨w, hok, hanswer⟩ := hanswers
    cases hw.symm.trans hok
    exact .own hnode ((hrun.nickAnswer_known hknown hnode).mp hanswer)
  · intro H
    cases H with
    | free hfree => exact absurd hfree hknown
    | own _ hown => exact ⟨_, hw, (hrun.nickAnswer_known hknown hnode).mpr hown⟩
    | inUse hfound => exact absurd hnode hfound
    | untold hfound => exact absurd hnode hfound

include hc

theorem answersNick_of_free
    (hnode : findConnectionMapNode σ.server.connectionHash nick = none)
    (hnick : findUserNode σ.server.nickHead nick = none) :
    AnswersNick ctx tr σ t c nick ↔ Answerable ctx tr σ th.sockfd c nick := by
  have hstored : (th.work σ.server p).srv.UsersStored := hrun.usersStored
  have hparam := nickParam_eq_some.mpr (request_nick hcmd hparams)
  have hw : (∃ w, dispatch ctx th.sockfd msg (th.work σ.server p) = .ok w) ↔ _ :=
    dispatch_nick_free hcmd hparams hnode hnick hstored
  rw [answersNick_eq h]
  constructor
  · intro hanswers
    obtain ⟨w, hok, -⟩ := hanswers
    obtain ⟨hlt, hfits⟩ := hw.mp ⟨w, hok⟩
    exact .free hnick hlt hfits
  · intro H
    cases H with
    | free _ hlt hfits =>
      obtain ⟨w, hok⟩ := hw.mpr ⟨hlt, hfits⟩
      exact ⟨w, hok, hrun.nickAnswer_free hparam hc hnick⟩
    | own _ hown => exact absurd (.inl hown) (hrun.not_hasNick hnick (some c))
    | inUse hfound => exact absurd hnode hfound
    | untold hfound => exact absurd hnode hfound

end

/-- **No NICK is dropped** exactly among those that are answerable. -/
theorem answersNick_iff {σ : Sys} (hrun : Run ctx tr σ) (h : σ.Handling t th p line msg)
    (hparam : nickParam msg = some nick) (hc : senderOf tr σ t = some c) :
    AnswersNick ctx tr σ t c nick ↔ Answerable ctx tr σ th.sockfd c nick := by
  obtain ⟨hcmd, hparams⟩ := request_eq_left (nickParam_eq_some.mp hparam)
  cases hnode : findConnectionMapNode σ.server.connectionHash nick with
  | some node => exact answersNick_of_inUse hrun h hcmd hparams hnode
  | none =>
    cases hnick : findUserNode σ.server.nickHead nick with
    | some node => exact answersNick_of_known hrun h hcmd hparams hnode hnick
    | none => exact answersNick_of_free hrun h hc hcmd hparams hnode hnick

theorem answersNick_amy : ∃ tr σ th p line msg, Run plainServer tr σ ∧
    σ.Handling 0 th p line msg ∧ nickParam msg = some (lit "amy") ∧
    senderOf tr σ 0 = some 0 ∧ AnswersNick plainServer tr σ 0 0 (lit "amy") := by
  obtain ⟨tr, σ, th, p, line, msg, hrun, h, hf⟩ := handling_of_playsToLine plainServer
    (firstLine "NICK amy\r\n") 0 (fun tr σ _ _ msg => nickParam msg = some (lit "amy") ∧
      senderOf tr σ 0 = some 0 ∧ findUserNode σ.server.nickHead (lit "amy") = none ∧
      findUserNode σ.server.userHead (lit "amy") = none) (by decide +kernel)
  obtain ⟨hparam, hc, hnick, huser⟩ := of_decide_eq_true hf
  refine ⟨tr, σ, th, p, line, msg, hrun, h, hparam, hc, (answersNick_iff hrun h hparam hc).mpr ?_⟩
  apply Answerable.free hnick (by decide)
  intro hne
  exact absurd huser hne

/-- Two clients send the same nick, and neither is registered. -/
def bothSendAmy : List Event :=
  [.accept 4, .accept 5, .recv 0 (lit "NICK amy\r\n"), .line 0, .recv 1 (lit "NICK amy\r\n")]

/-- The second one is not told that the nick is reserved. -/
theorem answersNick_bothAmy : ∃ tr σ th p line msg, Run plainServer tr σ ∧
    σ.Handling 1 th p line msg ∧ nickParam msg = some (lit "amy") ∧
    senderOf tr σ 1 = some 1 ∧ (lit "amy", some 0) ∈ nickPosts tr ∧
    ¬ AnswersNick plainServer tr σ 1 1 (lit "amy") := by
  obtain ⟨tr, σ, th, p, line, msg, hrun, h, hf⟩ := handling_of_playsToLine plainServer
    bothSendAmy 1 (fun tr σ _ _ msg => nickParam msg = some (lit "amy") ∧
      senderOf tr σ 1 = some 1 ∧ nickPosts tr = [(lit "amy", some 0)] ∧
      findConnectionMapNode σ.server.connectionHash (lit "amy") = none ∧
      findUserNode σ.server.nickHead (lit "amy") ≠ none) (by decide +kernel)
  obtain ⟨hparam, hc, hposts, hnode, hknown⟩ := of_decide_eq_true hf
  obtain ⟨hcmd, hparams⟩ := request_eq_left (nickParam_eq_some.mp hparam)
  obtain ⟨node, hnick⟩ := Option.ne_none_iff_exists'.mp hknown
  refine ⟨tr, σ, th, p, line, msg, hrun, h, hparam, hc, by rw [hposts]; decide, ?_⟩
  rw [answersNick_eq h]
  intro hanswers
  obtain ⟨w, hw, hanswer⟩ := hanswers
  rw [dispatch_nick_known hcmd hparams hnode hnick] at hw
  cases hw
  have hown := (hrun.nickAnswer_known hknown hnode).mp hanswer
  rw [hposts] at hown
  revert hown
  decide

end Chirc
