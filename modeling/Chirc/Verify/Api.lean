import Chirc.Context.Api
import Chirc.Theory.Keyed
import Chirc.Verify.Modes
import Chirc.Verify.Teardown

/-! # Contexts whose tables change

Users and channels are put into the tables of a context and taken out again, also by callers that
keep the struct, as for a change of the nick. `chirc_ctx_remove_user` and `chirc_ctx_remove_channel`
do not look at the members; so the members of channels stay users of the server exactly if nobody
removes a user who is in a channel, or a channel with users. -/

namespace Chirc

open TransitionSystem

/-! ## Calls -/

/-- A context with the types of the connections, by the addresses of their structs -/
structure Api where
  ctx : Context
  type : Nat → ConnType

/-- A call, or a change of a struct by the caller -/
inductive ApiCall
  | getOrCreateChannel (channelname : CStr) (modes : List Byte)
  | addChannel (c : Nat)
  | removeChannel (c : Nat)
  | getOrCreateUser (nick : CStr) (modes : List Byte)
  | addUser (u : Nat)
  | removeUser (u : Nat)
  /-- `chirc_channeluser_get_or_create` -/
  | join (c u : Nat) (modes : List Byte)
  /-- `chirc_channeluser_remove` -/
  | leave (x : Nat)
  | addConnection (conn : CtxConnection)
  | removeConnection (addr : Nat)
  /-- `user->nick = nick` -/
  | setNick (u : Nat) (nick : CStr)
  /-- `user->registered = true` -/
  | register (u : Nat)
  /-- `chirc_user_set_mode` or `chirc_user_remove_mode`, and what it returns -/
  | userMode (u : Nat) (call : ModeCall) (rc : Int)
  /-- `conn->type = type` -/
  | setType (addr : Nat) (type : ConnType)

def Api.setUser (s : Api) (u : Nat) (user : User) : Api :=
  { s with ctx.mem.users := Function.update s.ctx.mem.users u user }

/-- What the callers do, with structs that have been created. As `uthash` demands, a struct is added
to a table in which neither it nor another one with its key is, and the nick of a user in the table,
which is the key, is not changed. -/
inductive ApiStep (s : Api) : ApiCall → Api → Prop
  | getOrCreateChannel (channelname modes) : ApiStep s (.getOrCreateChannel channelname modes)
      { s with ctx := (chircCtxGetOrCreateChannel s.ctx channelname modes).1 }
  | addChannel (c name) : c < s.ctx.nextChannel → (s.ctx.mem.channels c).name = some name →
    chircCtxGetChannel s.ctx name = none →
    ApiStep s (.addChannel c) { s with ctx := chircCtxAddChannel s.ctx c }
  | removeChannel (c ctx) : chircCtxRemoveChannel s.ctx c = some ctx →
    ApiStep s (.removeChannel c) { s with ctx := ctx }
  | getOrCreateUser (nick modes) : modes.length = 10 → ApiStep s (.getOrCreateUser nick modes)
      { s with ctx := (chircCtxGetOrCreateUser s.ctx nick modes).1 }
  | addUser (u nick) : u < s.ctx.nextUser → (s.ctx.mem.users u).nick = some nick →
    chircCtxGetUser s.ctx nick = none →
    ApiStep s (.addUser u) { s with ctx := chircCtxAddUser s.ctx u }
  | removeUser (u ctx) : chircCtxRemoveUser s.ctx u = some ctx →
    ApiStep s (.removeUser u) { s with ctx := ctx }
  | join (c u modes) : c < s.ctx.nextChannel → u < s.ctx.nextUser → ApiStep s (.join c u modes)
      { s with ctx.mem := (chircChanneluserGetOrCreate s.ctx.mem c u modes).1 }
  | leave (x mem) : chircChanneluserRemove s.ctx.mem x = some mem →
    ApiStep s (.leave x) { s with ctx.mem := mem }
  | addConnection (conn) : (∀ conn' ∈ s.ctx.connections, conn'.addr ≠ conn.addr) →
    ApiStep s (.addConnection conn) { s with ctx := chircCtxAddConnection s.ctx conn }
  | removeConnection (addr ctx) : chircCtxRemoveConnection s.ctx addr = some ctx →
    ApiStep s (.removeConnection addr) { s with ctx := ctx }
  | setNick (u nick) : u < s.ctx.nextUser → u ∉ s.ctx.users →
    ApiStep s (.setNick u nick) (s.setUser u { s.ctx.mem.users u with nick := some nick })
  | register (u) : u < s.ctx.nextUser →
    ApiStep s (.register u) (s.setUser u { s.ctx.mem.users u with registered := true })
  | userMode (u call rc user) : u < s.ctx.nextUser →
    ModesOf.user.run (s.ctx.mem.users u) call = .ok (user, rc) →
    ApiStep s (.userMode u call rc) (s.setUser u user)
  | setType (addr type) :
    ApiStep s (.setType addr type) { s with type := Function.update s.type addr type }

/-- A new context, and what its callers do -/
def ctxApi : TransitionSystem Api ApiCall where
  init s := ∃ this, s.ctx = { chircCtxInit with network := ⟨[], this, 0⟩ } ∧
    ∀ addr, s.type addr = chircConnectionInit
  step := ApiStep

abbrev ApiHistory := List (Api × ApiCall)

/-! ## The tables -/

section

variable {C C' U U' : Finset Nat} {m m' : Members} {L : List Nat}

theorem Edges.congr (H : Edges C U m L) (hC : C ⊆ C') (hU : U ⊆ U')
    (hchannels : ∀ c, (m'.channels c).users = (m.channels c).users)
    (husers : ∀ u, (m'.users u).channels = (m.users u).channels)
    (hstructs : m'.channelUsers = m.channelUsers) (hnext : m'.next = m.next) :
    Edges C' U' m' L where
  channels := by
    intro c
    rw [hstructs]
    exact (hchannels c).trans (H.channels c)
  users := by
    intro u
    rw [hstructs]
    exact (husers u).trans (H.users u)
  ends x hx := by
    obtain ⟨c, hc, u, hu, hends⟩ := H.ends x hx
    rw [hstructs]
    exact ⟨c, hC hc, u, hU hu, hends⟩
  simple := by
    rw [hstructs]
    exact H.simple
  nodup := H.nodup
  lt := by
    rw [hnext]
    exact H.lt

/-- The table of a vertex without edges is empty. -/
theorem Edges.channel_nil (H : Edges C U m L) (hc : c ∉ C) : (m.channels c).users = [] := by
  rw [List.eq_nil_iff_forall_not_mem]
  intro x hx
  obtain ⟨hxL, hchannel⟩ := H.channels.mem_iff.mp hx
  obtain ⟨c', hc', -, -, hends, -⟩ := H.ends x hxL
  exact hc (Option.some.inj (hends.symm.trans hchannel) ▸ hc')

theorem Edges.user_nil (H : Edges C U m L) (hu : u ∉ U) : (m.users u).channels = [] := by
  rw [List.eq_nil_iff_forall_not_mem]
  intro x hx
  obtain ⟨hxL, huser⟩ := H.users.mem_iff.mp hx
  obtain ⟨-, -, u', hu', -, hends⟩ := H.ends x hxL
  exact hu (Option.some.inj (hends.symm.trans huser) ▸ hu')

end

/-- What the calls keep: the tables hold structs that are allocated, with distinct names, and the
members are edges between allocated structs. -/
structure Api.Sound (s : Api) : Prop where
  edges : ∃ L, Edges (Finset.range s.ctx.nextChannel) (Finset.range s.ctx.nextUser) s.ctx.mem L
  channels : Keyed (fun c => (s.ctx.mem.channels c).name) s.ctx.channels
  users : Keyed (fun u => (s.ctx.mem.users u).nick) s.ctx.users
  channels_lt : ∀ c ∈ s.ctx.channels, c < s.ctx.nextChannel
  users_lt : ∀ u ∈ s.ctx.users, u < s.ctx.nextUser

theorem hashDelete_eq_some {table table' : List Nat} :
    hashDelete table x = some table' ↔ x ∈ table ∧ table' = table.erase x := by
  rw [hashDelete]
  split
  · next h =>
    rw [Option.some.injEq, and_iff_right h]
    exact eq_comm
  · next h => exact iff_of_false (Option.some_ne_none _).symm fun heq => h heq.1

theorem chircCtxRemoveUser_eq_some {ctx ctx' : Context} : chircCtxRemoveUser ctx u = some ctx' ↔
    u ∈ ctx.users ∧ { ctx with users := ctx.users.erase u } = ctx' := by
  simp [chircCtxRemoveUser, Option.bind_eq_some_iff, hashDelete_eq_some]

theorem chircCtxRemoveChannel_eq_some {ctx ctx' : Context} :
    chircCtxRemoveChannel ctx c = some ctx' ↔
      c ∈ ctx.channels ∧ { ctx with channels := ctx.channels.erase c } = ctx' := by
  simp [chircCtxRemoveChannel, Option.bind_eq_some_iff, hashDelete_eq_some]

namespace Api.Sound
variable {s : Api} (H : s.Sound)
include H

/-- A lookup finds the user in the table with the nick. -/
theorem getUser_iff : chircCtxGetUser s.ctx nick = some u ↔
    u ∈ s.ctx.users ∧ (s.ctx.mem.users u).nick = some nick := H.users.find_iff

theorem getOrCreateChannel (channelname : CStr) (modes : List Byte) :
    Sound { s with ctx := (chircCtxGetOrCreateChannel s.ctx channelname modes).1 } := by
  rw [chircCtxGetOrCreateChannel]
  cases hget : chircCtxGetChannel s.ctx channelname with
  | some c => exact H
  | none =>
    obtain ⟨L, hedges⟩ := H.edges
    have hnil : (s.ctx.mem.channels s.ctx.nextChannel).users = [] :=
      hedges.channel_nil Finset.notMem_range_self
    have hname : ∀ c ∈ s.ctx.channels, c ≠ s.ctx.nextChannel :=
      fun c hc => Nat.ne_of_lt (H.channels_lt c hc)
    refine ⟨⟨L, hedges.congr (Finset.range_mono (Nat.le_succ _)) subset_rfl ?_ (fun _ => rfl) rfl
      rfl⟩, ?_, H.users, ?_, H.users_lt⟩
    · intro c
      by_cases hc : c = s.ctx.nextChannel
      · subst hc
        dsimp only
        rw [hnil, Function.update_self]
        rfl
      · dsimp only
        rw [Function.update_of_ne hc]
    · refine (H.channels.congr fun c hc => ?_).cons (k := channelname) ?_ fun c hc => ?_
      · dsimp only
        rw [Function.update_of_ne (hname c hc)]
      · dsimp only
        rw [Function.update_self]
      · dsimp only
        rw [Function.update_of_ne (hname c hc)]
        exact Keyed.find_eq_none.mp hget c hc
    · intro c hc
      cases List.mem_cons.mp hc with
      | inl hc => exact hc ▸ Nat.lt_succ_self _
      | inr hc => exact Nat.lt_succ_of_lt (H.channels_lt c hc)

theorem getOrCreateUser (nick : CStr) (modes : List Byte) :
    Sound { s with ctx := (chircCtxGetOrCreateUser s.ctx nick modes).1 } := by
  rw [chircCtxGetOrCreateUser]
  cases hget : chircCtxGetUser s.ctx nick with
  | some u => exact H
  | none =>
    obtain ⟨L, hedges⟩ := H.edges
    have hnil : (s.ctx.mem.users s.ctx.nextUser).channels = [] :=
      hedges.user_nil Finset.notMem_range_self
    have hnick : ∀ u ∈ s.ctx.users, u ≠ s.ctx.nextUser :=
      fun u hu => Nat.ne_of_lt (H.users_lt u hu)
    refine ⟨⟨L, hedges.congr subset_rfl (Finset.range_mono (Nat.le_succ _)) (fun _ => rfl) ?_ rfl
      rfl⟩, H.channels, ?_, H.channels_lt, ?_⟩
    · intro u
      by_cases hu : u = s.ctx.nextUser
      · subst hu
        dsimp only
        rw [hnil, Function.update_self]
        rfl
      · dsimp only
        rw [Function.update_of_ne hu]
    · refine (H.users.congr fun u hu => ?_).cons (k := nick) ?_ fun u hu => ?_
      · dsimp only
        rw [Function.update_of_ne (hnick u hu)]
      · dsimp only
        rw [Function.update_self]
      · dsimp only
        rw [Function.update_of_ne (hnick u hu)]
        exact Keyed.find_eq_none.mp hget u hu
    · intro u hu
      cases List.mem_cons.mp hu with
      | inl hu => exact hu ▸ Nat.lt_succ_self _
      | inr hu => exact Nat.lt_succ_of_lt (H.users_lt u hu)

theorem addChannel (hc : c < s.ctx.nextChannel) (hname : (s.ctx.mem.channels c).name = some name)
    (hget : chircCtxGetChannel s.ctx name = none) :
    Sound { s with ctx := chircCtxAddChannel s.ctx c } where
  edges := H.edges
  channels := H.channels.cons hname (Keyed.find_eq_none.mp hget)
  users := H.users
  channels_lt := List.forall_mem_cons.mpr ⟨hc, H.channels_lt⟩
  users_lt := H.users_lt

theorem addUser (hu : u < s.ctx.nextUser) (hnick : (s.ctx.mem.users u).nick = some nick)
    (hget : chircCtxGetUser s.ctx nick = none) :
    Sound { s with ctx := chircCtxAddUser s.ctx u } where
  edges := H.edges
  channels := H.channels
  users := H.users.cons hnick (Keyed.find_eq_none.mp hget)
  channels_lt := H.channels_lt
  users_lt := List.forall_mem_cons.mpr ⟨hu, H.users_lt⟩

theorem removeChannel (c : Nat) :
    Sound { s with ctx := { s.ctx with channels := s.ctx.channels.erase c } } where
  edges := H.edges
  channels := H.channels.erase c
  users := H.users
  channels_lt c' hc' := H.channels_lt c' (List.mem_of_mem_erase hc')
  users_lt := H.users_lt

theorem removeUser (u : Nat) :
    Sound { s with ctx := { s.ctx with users := s.ctx.users.erase u } } where
  edges := H.edges
  channels := H.channels
  users := H.users.erase u
  channels_lt := H.channels_lt
  users_lt u' hu' := H.users_lt u' (List.mem_of_mem_erase hu')

/-- A change of the members, which leaves the names alone -/
theorem members {mem : Members}
    (hedges : Edges (Finset.range s.ctx.nextChannel) (Finset.range s.ctx.nextUser) mem L)
    (hnames : ∀ c, (mem.channels c).name = (s.ctx.mem.channels c).name)
    (hnicks : ∀ u, (mem.users u).nick = (s.ctx.mem.users u).nick) :
    Sound { s with ctx.mem := mem } where
  edges := ⟨L, hedges⟩
  channels := H.channels.congr fun c _ => hnames c
  users := H.users.congr fun u _ => hnicks u
  channels_lt := H.channels_lt
  users_lt := H.users_lt

theorem join (hc : c < s.ctx.nextChannel) (hu : u < s.ctx.nextUser) (modes : List Byte) :
    Sound { s with ctx.mem := (chircChanneluserGetOrCreate s.ctx.mem c u modes).1 } := by
  obtain ⟨L, hedges⟩ := H.edges
  cases hfind : s.ctx.mem.findInChannel c u with
  | some x =>
    rw [getOrCreate_some hfind]
    exact H
  | none =>
    rw [getOrCreate_none hfind]
    refine H.members (hedges.link (Finset.mem_range.mpr hc) (Finset.mem_range.mpr hu) hfind modes)
      (fun c' => ?_) fun u' => ?_
    · rw [Members.link, Function.apply_update (fun _ => Channel.name)]
      exact congrFun (Function.update_eq_self c _) c'
    · rw [Members.link, Function.apply_update (fun _ => User.nick)]
      exact congrFun (Function.update_eq_self u _) u'

theorem leave {mem : Members} (hremove : chircChanneluserRemove s.ctx.mem x = some mem) :
    Sound { s with ctx.mem := mem } := by
  obtain ⟨L, hedges⟩ := H.edges
  obtain ⟨c, u, heq, hedges'⟩ := hedges.unlink (hedges.mem_of_remove hremove)
  cases hremove.symm.trans heq
  refine H.members hedges' (fun c' => ?_) fun u' => ?_
  · rw [Members.unlink, Function.apply_update (fun _ => Channel.name)]
    exact congrFun (Function.update_eq_self c _) c'
  · rw [Members.unlink, Function.apply_update (fun _ => User.nick)]
    exact congrFun (Function.update_eq_self u _) u'

/-- A change of a user, which leaves its channels alone, and its nick if it is in the table -/
theorem setUser {user : User} (hchannels : user.channels = (s.ctx.mem.users u).channels)
    (hnick : u ∈ s.ctx.users → user.nick = (s.ctx.mem.users u).nick) : (s.setUser u user).Sound := by
  obtain ⟨L, hedges⟩ := H.edges
  refine ⟨⟨L, hedges.congr subset_rfl subset_rfl (fun _ => rfl) ?_ rfl rfl⟩, H.channels,
    H.users.congr ?_, H.channels_lt, H.users_lt⟩
  · intro u'
    by_cases hu : u' = u
    · subst hu
      exact (congrArg User.channels (Function.update_self _ _ _)).trans hchannels
    · exact congrArg User.channels (Function.update_of_ne hu _ _)
  · intro u' hu'
    by_cases hu : u' = u
    · subst hu
      exact (congrArg User.nick (Function.update_self _ _ _)).trans (hnick hu')
    · exact congrArg User.nick (Function.update_of_ne hu _ _)

end Api.Sound

theorem ApiStep.sound {s s' : Api} (h : ApiStep s call s') (H : s.Sound) : s'.Sound := by
  cases h with
  | getOrCreateChannel channelname modes => exact H.getOrCreateChannel channelname modes
  | addChannel c name hc hname hget => exact H.addChannel hc hname hget
  | removeChannel c ctx hremove =>
    obtain ⟨-, rfl⟩ := chircCtxRemoveChannel_eq_some.mp hremove
    exact H.removeChannel c
  | getOrCreateUser nick modes => exact H.getOrCreateUser nick modes
  | addUser u nick hu hnick hget => exact H.addUser hu hnick hget
  | removeUser u ctx hremove =>
    obtain ⟨-, rfl⟩ := chircCtxRemoveUser_eq_some.mp hremove
    exact H.removeUser u
  | join c u modes hc hu => exact H.join hc hu modes
  | leave x mem hremove => exact H.leave hremove
  | addConnection conn => exact ⟨H.edges, H.channels, H.users, H.channels_lt, H.users_lt⟩
  | removeConnection addr ctx hremove =>
    rw [chircCtxRemoveConnection] at hremove
    split at hremove
    · cases hremove
      exact ⟨H.edges, H.channels, H.users, H.channels_lt, H.users_lt⟩
    · cases hremove
  | setNick u nick hu hnot => exact H.setUser rfl fun hmem => absurd hmem hnot
  | register u => exact H.setUser rfl fun _ => rfl
  | userMode u call rc user hu hmode =>
    rw [ModesOf.user_delegates.run_eq] at hmode
    obtain ⟨r, -, heq⟩ := Res.map_eq_ok.mp hmode
    obtain ⟨rfl, -⟩ := Prod.mk.inj heq
    exact H.setUser rfl fun _ => rfl
  | setType addr type => exact ⟨H.edges, H.channels, H.users, H.channels_lt, H.users_lt⟩

theorem Run.apiSound {s : Api} (hrun : ctxApi.Run tr s) : s.Sound := by
  refine TransitionSystem.Run.invariant (P := fun _ s => s.Sound) ?_ ?_ hrun
  · intro s hinit
    obtain ⟨this, hctx, -⟩ := hinit
    refine ⟨⟨[], ?_⟩, ?_, ?_, ?_, ?_⟩ <;> rw [hctx]
    · exact ⟨.nil, .nil, nofun, nofun, List.nodup_nil, nofun⟩
    · exact .nil
    · exact .nil
    · exact nofun
    · exact nofun
  · intro tr s call s' _ H hstep
    exact ApiStep.sound hstep H

/-! ## Members of the server -/

/-- The members of a channel are users that a lookup by their nick finds, and so is the channel by
its name; structs that are in no table can be freed without violating an assertion. -/
structure Api.Attached (s : Api) : Prop where
  found : ∀ c, ∀ x ∈ (s.ctx.mem.channels c).users, ∃ u nick name,
    (s.ctx.mem.channelUsers x).user = some u ∧ (s.ctx.mem.users u).nick = some nick ∧
    chircCtxGetUser s.ctx nick = some u ∧ (s.ctx.mem.channels c).name = some name ∧
    chircCtxGetChannel s.ctx name = some c
  users : ∀ u, u ∉ s.ctx.users → chircUserFree (s.ctx.mem.users u) = .ok ()
  channels : ∀ c, c ∉ s.ctx.channels → chircChannelFree (s.ctx.mem.channels c) = .ok ()

/-- Users who are in channels, and channels with users, are in the tables. -/
structure Api.InTables (s : Api) : Prop where
  users : ∀ u, u ∉ s.ctx.users → (s.ctx.mem.users u).channels = []
  channels : ∀ c, c ∉ s.ctx.channels → (s.ctx.mem.channels c).users = []

theorem chircChannelFree_eq_ok {channel : Channel} :
    chircChannelFree channel = .ok () ↔ channel.users = [] := by
  rw [chircChannelFree]
  split
  · next h => exact iff_of_true rfl h
  · next h => exact iff_of_false nofun h

theorem Api.Sound.attached_iff_inTables {s : Api} (H : s.Sound) : s.Attached ↔ s.InTables := by
  constructor
  · intro h
    exact ⟨fun u hu => chircUserFree_eq_ok.mp (h.users u hu),
      fun c hc => chircChannelFree_eq_ok.mp (h.channels c hc)⟩
  · intro h
    refine ⟨fun c x hx => ?_, fun u hu => chircUserFree_eq_ok.mpr (h.users u hu),
      fun c hc => chircChannelFree_eq_ok.mpr (h.channels c hc)⟩
    obtain ⟨L, hedges⟩ := H.edges
    obtain ⟨hxL, hchannel⟩ := hedges.channels.mem_iff.mp hx
    obtain ⟨-, -, u, -, -, huser⟩ := hedges.ends x hxL
    have hc : c ∈ s.ctx.channels := by
      by_contra hc
      rw [h.channels c hc] at hx
      cases hx
    have hu : u ∈ s.ctx.users := by
      by_contra hu
      have hmem : x ∈ (s.ctx.mem.users u).channels := hedges.users.mem_iff.mpr ⟨hxL, huser⟩
      rw [h.users u hu] at hmem
      cases hmem
    obtain ⟨nick, hnick, hgetUser⟩ := H.users.mem_iff.mp hu
    obtain ⟨name, hname, hgetChannel⟩ := H.channels.mem_iff.mp hc
    exact ⟨u, nick, name, huser, hnick, hgetUser, hname, hgetChannel⟩

/-- A user that is removed is in no channel, and a channel that is removed has no users; only users
and channels in the tables become members. -/
def KeepsAttached (_ : ApiHistory) (s : Api) : ApiCall → Prop
  | .removeUser u => (s.ctx.mem.users u).channels = []
  | .removeChannel c => (s.ctx.mem.channels c).users = []
  | .join c u _ => c ∈ s.ctx.channels ∧ u ∈ s.ctx.users
  | _ => True

namespace Api.InTables
variable {s : Api} (H : s.InTables)
include H

theorem removeUser (hs : s.Sound) (u : Nat) :
    InTables { s with ctx := { s.ctx with users := s.ctx.users.erase u } } ↔
      (s.ctx.mem.users u).channels = [] := by
  constructor
  · intro h
    exact h.users u hs.users.nodup_table.not_mem_erase
  · intro hnil
    refine ⟨fun u' hu' => ?_, H.channels⟩
    by_cases heq : u' = u
    · exact heq ▸ hnil
    · exact H.users u' fun hmem => hu' ((List.mem_erase_of_ne heq).mpr hmem)

theorem removeChannel (hs : s.Sound) (c : Nat) :
    InTables { s with ctx := { s.ctx with channels := s.ctx.channels.erase c } } ↔
      (s.ctx.mem.channels c).users = [] := by
  constructor
  · intro h
    exact h.channels c hs.channels.nodup_table.not_mem_erase
  · intro hnil
    refine ⟨H.users, fun c' hc' => ?_⟩
    by_cases heq : c' = c
    · exact heq ▸ hnil
    · exact H.channels c' fun hmem => hc' ((List.mem_erase_of_ne heq).mpr hmem)

theorem getOrCreateChannel (channelname : CStr) (modes : List Byte) :
    InTables { s with ctx := (chircCtxGetOrCreateChannel s.ctx channelname modes).1 } := by
  rw [chircCtxGetOrCreateChannel]
  cases chircCtxGetChannel s.ctx channelname with
  | some c => exact H
  | none =>
    refine ⟨H.users, fun c hc => ?_⟩
    obtain ⟨hne, hold⟩ := List.ne_and_not_mem_of_not_mem_cons hc
    dsimp only
    rw [Function.update_of_ne hne]
    exact H.channels c hold

theorem getOrCreateUser (nick : CStr) (modes : List Byte) :
    InTables { s with ctx := (chircCtxGetOrCreateUser s.ctx nick modes).1 } := by
  rw [chircCtxGetOrCreateUser]
  cases chircCtxGetUser s.ctx nick with
  | some u => exact H
  | none =>
    refine ⟨fun u hu => ?_, H.channels⟩
    obtain ⟨hne, hold⟩ := List.ne_and_not_mem_of_not_mem_cons hu
    dsimp only
    rw [Function.update_of_ne hne]
    exact H.users u hold

/-- The ends of a member are in the tables. -/
theorem ends_mem (hs : s.Sound) (hget : s.ctx.mem.findInChannel c u = some x) :
    c ∈ s.ctx.channels ∧ u ∈ s.ctx.users := by
  obtain ⟨L, hedges⟩ := hs.edges
  obtain ⟨hx, hchannel, huser⟩ := hedges.get_eq_some.mp hget
  refine ⟨Classical.not_not.mp fun hc => ?_, Classical.not_not.mp fun hu => ?_⟩
  · exact List.ne_nil_of_mem (hedges.channels.mem_iff.mpr ⟨hx, hchannel⟩) (H.channels c hc)
  · exact List.ne_nil_of_mem (hedges.users.mem_iff.mpr ⟨hx, huser⟩) (H.users u hu)

theorem join (hs : s.Sound) (c u : Nat) (modes : List Byte) :
    InTables { s with ctx.mem := (chircChanneluserGetOrCreate s.ctx.mem c u modes).1 } ↔
      c ∈ s.ctx.channels ∧ u ∈ s.ctx.users := by
  cases hfind : s.ctx.mem.findInChannel c u with
  | some x =>
    rw [getOrCreate_some hfind]
    exact iff_of_true H (H.ends_mem hs hfind)
  | none =>
    rw [getOrCreate_none hfind]
    have husers := congrFun (link_users s.ctx.mem c u modes) u
    have hchannels := congrFun (link_channels s.ctx.mem c u modes) c
    rw [Function.update_self] at husers hchannels
    refine ⟨fun h => ⟨Classical.not_not.mp fun hc => ?_, Classical.not_not.mp fun hu => ?_⟩, ?_⟩
    · exact List.cons_ne_nil _ _ (hchannels.symm.trans (h.channels c hc))
    · exact List.cons_ne_nil _ _ (husers.symm.trans (h.users u hu))
    intro ⟨hc, hu⟩
    refine ⟨fun u' hu' => ?_, fun c' hc' => ?_⟩
    · have hne : u' ≠ u := fun heq => hu' (heq ▸ hu)
      exact (congrFun (link_users s.ctx.mem c u modes) u').trans
        ((Function.update_of_ne hne _ _).trans (H.users u' hu'))
    · have hne : c' ≠ c := fun heq => hc' (heq ▸ hc)
      exact (congrFun (link_channels s.ctx.mem c u modes) c').trans
        ((Function.update_of_ne hne _ _).trans (H.channels c' hc'))

theorem leave (hs : s.Sound) {mem : Members}
    (hremove : chircChanneluserRemove s.ctx.mem x = some mem) :
    InTables { s with ctx.mem := mem } := by
  obtain ⟨L, hedges⟩ := hs.edges
  obtain ⟨c, u, heq, -⟩ := hedges.unlink (hedges.mem_of_remove hremove)
  cases hremove.symm.trans heq
  refine ⟨fun u' hu' => ?_, fun c' hc' => ?_⟩
  · have htable := congrFun (unlink_users s.ctx.mem c u x) u'
    have hnil := H.users u' hu'
    by_cases hne : u' = u
    · subst hne
      rw [Function.update_self, hnil] at htable
      exact htable
    · exact htable.trans ((Function.update_of_ne hne _ _).trans hnil)
  · have htable := congrFun (unlink_channels s.ctx.mem c u x) c'
    have hnil := H.channels c' hc'
    by_cases hne : c' = c
    · subst hne
      rw [Function.update_self, hnil] at htable
      exact htable
    · exact htable.trans ((Function.update_of_ne hne _ _).trans hnil)

theorem setUser {user : User} (hchannels : user.channels = (s.ctx.mem.users u).channels) :
    (s.setUser u user).InTables := by
  refine ⟨fun u' hu' => ?_, H.channels⟩
  have hnil := H.users u' hu'
  by_cases hne : u' = u
  · subst hne
    exact (congrArg User.channels (Function.update_self _ _ _)).trans (hchannels.trans hnil)
  · exact (congrArg User.channels (Function.update_of_ne hne _ _)).trans hnil

end Api.InTables

theorem ApiStep.inTables_iff {s s' : Api} (h : ApiStep s call s') (hs : s.Sound) (H : s.InTables) :
    s'.InTables ↔ KeepsAttached tr s call := by
  cases h with
  | removeChannel c ctx hremove =>
    obtain ⟨-, rfl⟩ := chircCtxRemoveChannel_eq_some.mp hremove
    exact H.removeChannel hs c
  | removeUser u ctx hremove =>
    obtain ⟨-, rfl⟩ := chircCtxRemoveUser_eq_some.mp hremove
    exact H.removeUser hs u
  | getOrCreateChannel channelname modes =>
    exact iff_of_true (H.getOrCreateChannel channelname modes) trivial
  | getOrCreateUser nick modes => exact iff_of_true (H.getOrCreateUser nick modes) trivial
  | addChannel c name =>
    have hchannels (c' : Nat) := fun hc' => H.channels c' (mt (List.mem_cons_of_mem c) hc')
    exact iff_of_true ⟨H.users, hchannels⟩ trivial
  | addUser u nick =>
    have husers (u' : Nat) := fun hu' => H.users u' (mt (List.mem_cons_of_mem u) hu')
    exact iff_of_true ⟨husers, H.channels⟩ trivial
  | join c u modes => exact H.join hs c u modes
  | leave x mem hremove => exact iff_of_true (H.leave hs hremove) trivial
  | addConnection conn => exact iff_of_true ⟨H.users, H.channels⟩ trivial
  | removeConnection addr ctx hremove =>
    rw [chircCtxRemoveConnection] at hremove
    split at hremove
    · cases hremove
      exact iff_of_true ⟨H.users, H.channels⟩ trivial
    · cases hremove
  | setNick u nick => exact iff_of_true (H.setUser rfl) trivial
  | register u => exact iff_of_true (H.setUser rfl) trivial
  | userMode u call rc user hu hmode =>
    rw [ModesOf.user_delegates.run_eq] at hmode
    obtain ⟨r, -, heq⟩ := Res.map_eq_ok.mp hmode
    obtain ⟨rfl, -⟩ := Prod.mk.inj heq
    exact iff_of_true (H.setUser rfl) trivial
  | setType addr type => exact iff_of_true ⟨H.users, H.channels⟩ trivial

/-- **The members of channels stay users of the server** along a run exactly if no user is removed
who is in a channel and no channel that has users, and no user or channel that is not in its table
gets a member. -/
theorem attached_iff {s : Api} (hrun : ctxApi.Run tr s) :
    AllStates (fun _ s => s.Attached) tr s ↔ AllSteps KeepsAttached tr := by
  refine TransitionSystem.Run.allStates_iff_allSteps ?_ ?_ hrun
  · intro s hinit
    refine (Run.apiSound (.nil hinit)).attached_iff_inTables.mpr ?_
    obtain ⟨this, hctx, -⟩ := hinit
    refine ⟨fun u _ => ?_, fun c _ => ?_⟩ <;> rw [hctx] <;> rfl
  · intro tr s call s' hrun _ H hstep
    have hs := Run.apiSound hrun
    rw [(Run.apiSound (hrun.cons hstep)).attached_iff_inTables]
    exact ApiStep.inTables_iff hstep hs (hs.attached_iff_inTables.mp H)

/-- A new context -/
def newApi : Api := ⟨{ chircCtxInit with network := ⟨[], none, 0⟩ }, fun _ => chircConnectionInit⟩

/-- A user who is in a channel is removed from the users only. -/
theorem attached_iff_removed : ∃ tr s, ctxApi.Run tr s ∧
    tr.map (·.2) = [.removeUser 0, .join 0 0 noModes, .getOrCreateChannel (lit "#c") noModes,
      .getOrCreateUser (lit "amy") noModes] ∧ ¬AllStates (fun _ s => s.Attached) tr s := by
  have hnew : ctxApi.Run [] newApi := .nil ⟨none, rfl, fun _ => rfl⟩
  have huser := hnew.cons (ApiStep.getOrCreateUser (lit "amy") noModes rfl)
  have hchannel := huser.cons (ApiStep.getOrCreateChannel (lit "#c") noModes)
  have hjoin := hchannel.cons (ApiStep.join 0 0 noModes (by decide) (by decide))
  have hremove := hjoin.cons (ApiStep.removeUser 0 _ rfl)
  refine ⟨_, _, hremove, rfl, ?_⟩
  rw [attached_iff hremove]
  intro h
  obtain ⟨hnil, -⟩ := h
  cases hnil

end Chirc
