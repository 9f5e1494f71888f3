import Chirc.Verify.Mirror

/-! # Whose names meet

The two lists of names say nothing of the connections that sent them. The history does: it gives
for each name on a list the connection whose command put it there. A registration belongs to its
connection exactly if the connection sent the command, and the name that the command found waiting
was put there by the same connection. -/

namespace Chirc

open TransitionSystem Rendezvous

/-! ## The logs of the names -/

/-- The name that the command puts on `nick_head`, with the connection that sent it. -/
def SentCommand.nickPost (e : SentCommand) : Option (CStr × Option Nat) :=
  (acceptedNick e.server e.msg).map (·, e.sender)

/-- The name that the command puts on `user_head`, with the connection that sent it. -/
def SentCommand.userPost (e : SentCommand) : Option (CStr × Option Nat) :=
  (acceptedUser e.server e.msg).map (·, e.sender)

def nickPosts (tr : History) : List (CStr × Option Nat) :=
  (commands tr).filterMap SentCommand.nickPost

def userPosts (tr : History) : List (CStr × Option Nat) :=
  (commands tr).filterMap SentCommand.userPost

theorem nickPosts_cons :
    nickPosts ((σ, l) :: tr) =
      ((l.sent tr σ).bind SentCommand.nickPost).toList ++ nickPosts tr := by
  rw [nickPosts, commands, List.filterMap_append, nickPosts]
  cases l.sent tr σ with
  | none => rfl
  | some e =>
    rw [Option.toList_some, List.filterMap_cons, Option.bind_some]
    cases e.nickPost <;> rfl

theorem userPosts_cons :
    userPosts ((σ, l) :: tr) =
      ((l.sent tr σ).bind SentCommand.userPost).toList ++ userPosts tr := by
  rw [userPosts, commands, List.filterMap_append, userPosts]
  cases l.sent tr σ with
  | none => rfl
  | some e =>
    rw [Option.toList_some, List.filterMap_cons, Option.bind_some]
    cases e.userPost <;> rfl

theorem Represents.acceptedNick_eq (hb : Represents srv b) :
    acceptedNick srv msg = b.pinsLeft (request msg) := by
  ext nick
  rw [acceptedNick, Option.filter_eq_some_iff, nickParam_eq_some, Board.pinsLeft_eq_some,
    hb.nick_mem_iff, not_not, decide_eq_true_iff]

theorem Represents.acceptedUser_eq (hb : Represents srv b) :
    acceptedUser srv msg = b.pinsRight (request msg) := by
  ext user
  rw [acceptedUser, Option.filter_eq_some_iff, userParam_eq_some, Board.pinsRight_eq_some,
    hb.user_mem_iff, not_not, decide_eq_true_iff]

/-- The logs are the lists, each name with its connection. -/
structure Logged (tr : History) (σ : Sys) : Prop where
  nicks : (nickPosts tr).map Prod.fst = (names σ.server.nickHead).reverse
  users : (userPosts tr).map Prod.fst = (names σ.server.userHead).reverse

theorem logged_step {σ σ' : Sys} (hrun : Run ctx tr σ) (H : Logged tr σ)
    (hstep : (chirc ctx).step σ l σ') : Logged ((σ, l) :: tr) σ' := by
  obtain ⟨b, hb⟩ := hrun.represents
  obtain ⟨fd, hb'⟩ := (step_cases hstep).represents hb
  have hnick : ((l.sent tr σ).bind SentCommand.nickPost).map Prod.fst = b.pinsLeft l.request := by
    cases l with
    | command =>
      simp [Label.sent, SentCommand.nickPost, Label.request, ← hb.acceptedNick_eq,
        Function.comp_def]
    | _ => rfl
  have huser : ((l.sent tr σ).bind SentCommand.userPost).map Prod.fst = b.pinsRight l.request := by
    cases l with
    | command =>
      simp [Label.sent, SentCommand.userPost, Label.request, ← hb.acceptedUser_eq,
        Function.comp_def]
    | _ => rfl
  have hreverse (o : Option CStr) : o.toList.reverse = o.toList := by cases o <;> rfl
  constructor
  · rw [nickPosts_cons, List.map_append, H.nicks, hb.left, ← Option.toList_map, hnick,
      hb'.left.trans Board.leftAfter_eq, List.reverse_append, hreverse]
  · rw [userPosts_cons, List.map_append, H.users, hb.right, ← Option.toList_map, huser,
      hb'.right.trans Board.rightAfter_eq, List.reverse_append, hreverse]

theorem Run.logged {σ : Sys} (hrun : Run ctx tr σ) : Logged tr σ := by
  refine TransitionSystem.Run.invariant ?_ logged_step hrun
  rintro _ rfl
  exact ⟨rfl, rfl⟩

/-- A name is on a list exactly if some connection, perhaps one that is closed, put it there. -/
theorem Logged.mem_nick_iff {σ : Sys} (H : Logged tr σ) :
    nick ∈ names σ.server.nickHead ↔ ∃ c, (nick, c) ∈ nickPosts tr := by
  rw [← List.mem_reverse, ← H.nicks, List.mem_map, Prod.exists]
  simp

theorem Logged.mem_user_iff {σ : Sys} (H : Logged tr σ) :
    user ∈ names σ.server.userHead ↔ ∃ c, (user, c) ∈ userPosts tr := by
  rw [← List.mem_reverse, ← H.users, List.mem_map, Prod.exists]
  simp

/-- A name is put on a list once. -/
theorem Run.nickPosts_unique {σ : Sys} (hrun : Run ctx tr σ) (h : (nick, c) ∈ nickPosts tr)
    (h' : (nick, d) ∈ nickPosts tr) : c = d := by
  obtain ⟨b, hb⟩ := hrun.represents
  have hnodup : ((nickPosts tr).map Prod.fst).Nodup := by
    rw [hrun.logged.nicks, hb.left, List.nodup_reverse]
    exact b.left_nodup
  exact congrArg Prod.snd (List.inj_on_of_nodup_map hnodup h h' rfl)

theorem Run.userPosts_unique {σ : Sys} (hrun : Run ctx tr σ) (h : (user, c) ∈ userPosts tr)
    (h' : (user, d) ∈ userPosts tr) : c = d := by
  obtain ⟨b, hb⟩ := hrun.represents
  have hnodup : ((userPosts tr).map Prod.fst).Nodup := by
    rw [hrun.logged.users, hb.right, List.nodup_reverse]
    exact b.right_nodup
  exact congrArg Prod.snd (List.inj_on_of_nodup_map hnodup h h' rfl)

/-- Who puts a name on `nick_head` has sent it with a NICK. -/
theorem message_of_nickPosts (h : (nick, some c) ∈ nickPosts tr) :
    ∃ e ∈ commands tr, (e.message c).bind nickParam = some nick := by
  obtain ⟨e, he, hpost⟩ := List.mem_filterMap.mp h
  obtain ⟨nick', hnick, heq⟩ := Option.map_eq_some_iff.mp hpost
  obtain ⟨rfl, hsender⟩ := Prod.mk.inj heq
  refine ⟨e, he, ?_⟩
  rw [SentCommand.message, if_pos hsender]
  exact (Option.filter_eq_some_iff.mp hnick).1

theorem message_of_userPosts (h : (user, some c) ∈ userPosts tr) :
    ∃ e ∈ commands tr, (e.message c).bind userParam = some user := by
  obtain ⟨e, he, hpost⟩ := List.mem_filterMap.mp h
  obtain ⟨user', huser, heq⟩ := Option.map_eq_some_iff.mp hpost
  obtain ⟨rfl, hsender⟩ := Prod.mk.inj heq
  refine ⟨e, he, ?_⟩
  rw [SentCommand.message, if_pos hsender]
  exact (Option.filter_eq_some_iff.mp huser).1

/-! ## Registrations -/

/-- One of the tables gets an entry that binds `nick` to `fd`. -/
def Entered (srv srv' : Server) (nick : CStr) (fd : Nat) : Prop :=
  ((nick, fd) ∈ bindings srv'.connectionHash ∧ (nick, fd) ∉ bindings srv.connectionHash) ∨
  ((nick, fd) ∈ tags srv'.sockfdNickHash.items ∧ (nick, fd) ∉ tags srv.sockfdNickHash.items)

/-- Connection `c` has itself sent the nick with a NICK, and a USER with four parameters or more;
and no other connection has put the name on `nick_head` or on `user_head`. -/
structure OwnNames (tr : History) (c : Nat) (nick : CStr) : Prop where
  sentNick : ∃ e ∈ commands tr, (e.message c).bind nickParam = some nick
  sentUser : ∃ e ∈ commands tr, (e.message c).bind userParam ≠ none
  only : ∀ d, (nick, d) ∈ nickPosts tr ∨ (nick, d) ∈ userPosts tr → d = some c

/-- The entries that the last step made are for the connection open on their descriptor, and owe
nothing to others. -/
def RegistrationsOwned : History → Sys → Prop
  | [], _ => True
  | (σ₀, l) :: tr, σ => ∀ nick fd, Entered σ₀.server σ.server nick fd →
    ∃ c, σ₀.connOn fd = some c ∧ OwnNames ((σ₀, l) :: tr) c nick

/-- If the step registers a descriptor under a nick, then the connection open on it sent the
command, and it put the name that waits on one of the lists there. -/
def MeetsOwn (tr : History) (σ : Sys) (l : Label) : Prop :=
  ∀ nick ∈ l.registersAs σ, ∀ fd ∈ l.registersOn σ, σ.connOn fd ≠ none ∧
    l.sender tr σ = σ.connOn fd ∧
    ((nick, σ.connOn fd) ∈ nickPosts tr ∨ (nick, σ.connOn fd) ∈ userPosts tr)

instance : Decidable (MeetsOwn tr σ l) :=
  inferInstanceAs (Decidable (∀ nick ∈ l.registersAs σ, ∀ fd ∈ l.registersOn σ, _))

/-- A command that registers puts the name on one list and finds it on the other. -/
theorem Step.posts {σ σ' : Sys} {b : Board CStr Nat} (H : Step ctx σ l σ')
    (hb : Represents σ.server b) (hname : l.registersAs σ = some nick) (tr : History) :
    ((l.sent tr σ).bind SentCommand.nickPost = some (nick, l.sender tr σ) ∧
      nick ∉ names σ.server.nickHead ∧ nick ∈ names σ.server.userHead) ∨
    ((l.sent tr σ).bind SentCommand.userPost = some (nick, l.sender tr σ) ∧
      nick ∉ names σ.server.userHead ∧ nick ∈ names σ.server.nickHead) := by
  cases H with
  | command t th p line msg w =>
    have hname : registers σ.server msg = some nick := hname
    rw [hb.registers_eq] at hname
    rw [hb.left, hb.right]
    rcases Board.pins_of_meets hname with ⟨hpin, hmem⟩ | ⟨hpin, hmem⟩
    · refine .inl ⟨?_, (Board.pinsLeft_eq_some.mp hpin).2, hmem⟩
      simp [Label.sent, Label.sender, SentCommand.nickPost, hb.acceptedNick_eq, hpin]
    · refine .inr ⟨?_, (Board.pinsRight_eq_some.mp hpin).2, hmem⟩
      simp [Label.sent, Label.sender, SentCommand.userPost, hb.acceptedUser_eq, hpin]
  | _ => cases hname

/-- Only a registration makes entries, for its nick and its descriptor. -/
theorem Move.entered_iff {σ σ' : Sys} (H : Move tr σ σ' l) : Entered σ.server σ'.server nick fd ↔
    l.registersAs σ = some nick ∧ l.registersOn σ = some fd := by
  have hnone (hreg : l.registersOn σ = none)
      (hbound : bindings σ'.server.connectionHash = bindings σ.server.connectionHash)
      (htags : σ'.server.sockfdNickHash.items ⊆ σ.server.sockfdNickHash.items) :
      Entered σ.server σ'.server nick fd ↔
        l.registersAs σ = some nick ∧ l.registersOn σ = some fd := by
    refine iff_of_false ?_ (by simp [hreg])
    rintro (⟨hnew, hold⟩ | ⟨hnew, hold⟩)
    · exact hold (hbound ▸ hnew)
    · exact hold (List.map_subset _ htags hnew)
  cases H with
  | quiet hcloses hreg hconns hbound htags => exact hnone hreg hbound (htags ▸ List.Subset.refl _)
  | accept fd' hcloses hreg hfree hconns hbound htags =>
    exact hnone hreg hbound (htags ▸ List.Subset.refl _)
  | close fd' hcloses hreg hconns hbound htags =>
    refine hnone hreg hbound ?_
    rcases htags with ⟨-, htags⟩ | ⟨-, htags⟩
    · exact htags ▸ List.Subset.refl _
    · exact htags ▸ delSockfdNickMapNode_sublist.subset
  | register fd' nick' hcloses hreg hname hconns hfresh hbound htags =>
    have hcons : (tags σ'.server.sockfdNickHash.items).Perm
        ((nick', fd') :: tags σ.server.sockfdNickHash.items) := htags ▸ tags_add
    rw [Entered, hbound, hcons.mem_iff, hname, hreg]
    constructor
    · have hnew {t : List (CStr × Nat)} (h : (nick, fd) ∈ (nick', fd') :: t ∧ (nick, fd) ∉ t) :
          some nick' = some nick ∧ some fd' = some fd := by
        cases (List.mem_cons.mp h.1).resolve_right h.2
        exact ⟨rfl, rfl⟩
      exact fun h => h.elim hnew hnew
    · rintro ⟨⟨⟩, ⟨⟩⟩
      exact .inl ⟨List.mem_cons_self, fun h => hfresh (List.mem_map_of_mem h)⟩

theorem registrationsOwned_step {σ σ' : Sys} (hrun : Run ctx tr σ)
    (hstep : (chirc ctx).step σ l σ') :
    RegistrationsOwned ((σ, l) :: tr) σ' ↔ MeetsOwn tr σ l := by
  obtain ⟨b, hb⟩ := hrun.represents
  have hrun' : Run ctx ((σ, l) :: tr) σ' := hrun.cons hstep
  have hentered {nick fd} := @Move.entered_iff tr l nick fd σ σ' ((step_cases hstep).move hb tr)
  simp only [RegistrationsOwned, hentered, MeetsOwn, Option.mem_def]
  constructor
  · intro H nick hname fd hreg
    obtain ⟨c, hc, hown⟩ := H nick fd ⟨hname, hreg⟩
    refine ⟨by simp [hc], ?_⟩
    rw [hc]
    rcases (step_cases hstep).posts hb hname tr with ⟨hpost, -, hmem⟩ | ⟨hpost, -, hmem⟩
    · have hsent : (nick, l.sender tr σ) ∈ nickPosts ((σ, l) :: tr) := by
        simp [nickPosts_cons, hpost]
      obtain ⟨d, hd⟩ := hrun.logged.mem_user_iff.mp hmem
      obtain rfl := hown.only d (.inr (userPosts_cons ▸ List.mem_append_right _ hd))
      exact ⟨hown.only _ (.inl hsent), .inr hd⟩
    · have hsent : (nick, l.sender tr σ) ∈ userPosts ((σ, l) :: tr) := by
        simp [userPosts_cons, hpost]
      obtain ⟨d, hd⟩ := hrun.logged.mem_nick_iff.mp hmem
      obtain rfl := hown.only d (.inl (nickPosts_cons ▸ List.mem_append_right _ hd))
      exact ⟨hown.only _ (.inr hsent), .inl hd⟩
  · rintro H nick fd ⟨hname, hreg⟩
    obtain ⟨hopen, hsender, hposted⟩ := H nick hname fd hreg
    obtain ⟨c, hc⟩ := Option.ne_none_iff_exists'.mp hopen
    rw [hc] at hposted hsender
    -- after the step the name is on both lists, and both times it comes from `c`
    have hboth : (nick, some c) ∈ nickPosts ((σ, l) :: tr) ∧
        (nick, some c) ∈ userPosts ((σ, l) :: tr) := by
      rw [nickPosts_cons, userPosts_cons, List.mem_append, List.mem_append]
      rcases (step_cases hstep).posts hb hname tr with ⟨hpost, hnot, -⟩ | ⟨hpost, hnot, -⟩
      · have := hposted.resolve_left fun h => hnot (hrun.logged.mem_nick_iff.mpr ⟨_, h⟩)
        exact ⟨.inl (by simp [hpost, hsender]), .inr this⟩
      · have := hposted.resolve_right fun h => hnot (hrun.logged.mem_user_iff.mpr ⟨_, h⟩)
        exact ⟨.inr this, .inl (by simp [hpost, hsender])⟩
    refine ⟨c, hc, message_of_nickPosts hboth.1, ?_, fun d hd => ?_⟩
    · obtain ⟨e, he, hmsg⟩ := message_of_userPosts hboth.2
      exact ⟨e, he, by simp [hmsg]⟩
    · rcases hd with hd | hd
      · exact hrun'.nickPosts_unique hd hboth.1
      · exact hrun'.userPosts_unique hd hboth.2

/-- **Registrations owe nothing to other connections in every state of a run** exactly if, in each
of its steps that registers, the connection open on the descriptor sent the command, and put the
name found waiting there. -/
theorem registrationsOwned_iff {σ : Sys} (hrun : Run ctx tr σ) :
    AllStates RegistrationsOwned tr σ ↔ AllSteps MeetsOwn tr :=
  Run.allStates_iff_allSteps (fun _ _ => trivial)
    (fun hrun _ _ => registrationsOwned_step hrun) hrun

theorem registrationsOwned_registerAmy : ∃ tr σ, play plainServer registerAmy = .ok (tr, σ) ∧
    AllStates RegistrationsOwned tr σ := by
  obtain ⟨tr, σ, hplay, hrun, h⟩ := run_of_playsTo plainServer registerAmy
    (fun tr _ => AllSteps MeetsOwn tr) (by decide +kernel)
  exact ⟨tr, σ, hplay, (registrationsOwned_iff hrun).mpr (of_decide_eq_true h)⟩

/-- One client sends the nick of another as its user name, and no NICK. -/
def userOfBob : List Event :=
  [.accept 4, .accept 5, .recv 0 (lit "NICK bob\r\n"), .line 0,
    .recv 1 (lit "USER bob * * :x\r\n"), .line 1]

/-- It is registered under the nick, although it has not sent one. -/
theorem registrationsOwned_userOfBob : ∃ tr σ, play plainServer userOfBob = .ok (tr, σ) ∧
    bindings σ.server.connectionHash = [(lit "bob", 5)] ∧ σ.connOn 5 = some 1 ∧
    (∀ e ∈ commands tr, (e.message 1).bind nickParam = none) ∧ ¬ RegistrationsOwned tr σ := by
  obtain ⟨tr, σ, hplay, hrun, h⟩ := run_of_playsTo plainServer userOfBob
    (fun tr σ => bindings σ.server.connectionHash = [(lit "bob", 5)] ∧ σ.connOn 5 = some 1 ∧
      (∀ e ∈ commands tr, (e.message 1).bind nickParam = none) ∧
      ∃ e ∈ tr.head?, ¬ MeetsOwn tr.tail e.1 e.2) (by decide +kernel)
  obtain ⟨hbound, hopen, hnicks, e, he, hmeets⟩ := of_decide_eq_true h
  refine ⟨tr, σ, hplay, hbound, hopen, hnicks, ?_⟩
  cases hrun with
  | nil => cases he
  | cons hrun hstep =>
    cases he
    exact fun H => hmeets ((registrationsOwned_step hrun hstep).mp H)

end Chirc
