import Chirc.Context.Ctx
import Chirc.Verify.Membership

/-! # When a context can be torn down

`chirc_ctx_free` asserts of each user that it is in no channel, and does nothing to make this true;
and after the loop over the servers it clears the table of the connections once more. So it leaves
no table behind exactly if all users have left their channels and there are no servers. -/

namespace Chirc

open TransitionSystem

/-! ## Contexts -/

/-- A call that builds a context. -/
inductive CtxCall
  | getOrCreateChannel (channelname : CStr) (modes : List Byte)
  | getOrCreateUser (nick : CStr) (modes : List Byte)
  | addConnection (conn : CtxConnection)
  | addServer (server : NetServer)
  /-- `chirc_channeluser_get_or_create` -/
  | join (channel user : Nat) (modes : List Byte)
  /-- `chirc_channeluser_remove` -/
  | leave (x : Nat)

/-- How contexts are built. In standalone mode `main` sets `network.this_server`; none of the calls
looks at it. Users and channels are taken from the tables of the context. -/
def contexts : TransitionSystem Context CtxCall where
  init ctx := ∃ this, ctx = { chircCtxInit with network := ⟨[], this, 0⟩ }
  step ctx call ctx' := match call with
    | .getOrCreateChannel channelname modes =>
      (chircCtxGetOrCreateChannel ctx channelname modes).1 = ctx'
    | .getOrCreateUser nick modes => (chircCtxGetOrCreateUser ctx nick modes).1 = ctx'
    | .addConnection conn => chircCtxAddConnection ctx conn = ctx'
    | .addServer server => { ctx with network := chircCtxAddServer ctx.network server } = ctx'
    | .join c u modes => c ∈ ctx.channels ∧ u ∈ ctx.users ∧
      { ctx with mem := (chircChanneluserGetOrCreate ctx.mem c u modes).1 } = ctx'
    | .leave x => ∃ mem, chircChanneluserRemove ctx.mem x = some mem ∧
      { ctx with mem := mem } = ctx'

abbrev CtxHistory := List (Context × CtxCall)

/-- The calls that are about members of channels. -/
def memberCalls : CtxHistory → MemberHistory
  | [] => []
  | (ctx, .join c u modes) :: tr => (ctx.mem, .getOrCreate c u modes) :: memberCalls tr
  | (ctx, .leave x) :: tr => (ctx.mem, .remove x) :: memberCalls tr
  | _ :: tr => memberCalls tr

/-- The servers that were added, the latest first. -/
def addedServers : CtxHistory → List NetServer
  | [] => []
  | (_, .addServer server) :: tr => server :: addedServers tr
  | _ :: tr => addedServers tr

/-- The teardown returns and leaves no entry in the four tables. -/
def TornDown (ctx : Context) : Prop :=
  ∃ ctx', chircCtxFree ctx = .ok ctx' ∧ ctx'.channels = [] ∧ ctx'.users = [] ∧
    ctx'.connections = [] ∧ ctx'.network.servers = []

/-! ## What is built -/

/-- What the calls keep: the structs of users and channels in the tables are allocated, and the
members are the edges between them. -/
structure Built (tr : CtxHistory) (ctx : Context) : Prop where
  edges : Edges ctx.channels.toFinset ctx.users.toFinset ctx.mem (liveMembers (memberCalls tr))
  channels_lt : ∀ c ∈ ctx.channels, c < ctx.nextChannel
  users_lt : ∀ u ∈ ctx.users, u < ctx.nextUser
  servers : ctx.network.servers = addedServers tr

namespace Built
variable {tr : CtxHistory} {ctx : Context} (H : Built tr ctx)
include H

theorem getOrCreateChannel (channelname : CStr) (modes : List Byte) :
    Built ((ctx, .getOrCreateChannel channelname modes) :: tr)
      (chircCtxGetOrCreateChannel ctx channelname modes).1 := by
  rw [chircCtxGetOrCreateChannel]
  cases chircCtxGetChannel ctx channelname with
  | some c => exact ⟨H.edges, H.channels_lt, H.users_lt, H.servers⟩
  | none =>
    have hnew : ∀ x ∈ liveMembers (memberCalls tr),
        (ctx.mem.channelUsers x).channel ≠ some ctx.nextChannel := by
      intro x hx hchannel
      obtain ⟨c, hc, u, -, hends, -⟩ := H.edges.ends x hx
      have hlt := H.channels_lt c (List.mem_toFinset.mp hc)
      rw [hends] at hchannel
      exact Nat.ne_of_lt hlt (Option.some.inj hchannel)
    refine ⟨⟨?_, H.edges.users, ?_, H.edges.simple, H.edges.nodup, H.edges.lt⟩, ?_, H.users_lt,
      H.servers⟩
    · intro c
      exact (congrFun (Function.comp_update Channel.users _ _ _) c).trans
        (H.edges.channels.clear hnew c)
    · intro x hx
      obtain ⟨c, hc, hends⟩ := H.edges.ends x hx
      refine ⟨c, ?_, hends⟩
      rw [List.toFinset_cons]
      exact Finset.mem_insert_of_mem hc
    · intro c hc
      rcases List.mem_cons.mp hc with rfl | hc
      · exact Nat.lt_succ_self _
      · exact Nat.lt_succ_of_lt (H.channels_lt c hc)

theorem getOrCreateUser (nick : CStr) (modes : List Byte) :
    Built ((ctx, .getOrCreateUser nick modes) :: tr)
      (chircCtxGetOrCreateUser ctx nick modes).1 := by
  rw [chircCtxGetOrCreateUser]
  cases chircCtxGetUser ctx nick with
  | some u => exact ⟨H.edges, H.channels_lt, H.users_lt, H.servers⟩
  | none =>
    have hnew : ∀ x ∈ liveMembers (memberCalls tr),
        (ctx.mem.channelUsers x).user ≠ some ctx.nextUser := by
      intro x hx huser
      obtain ⟨c, -, u, hu, -, hends⟩ := H.edges.ends x hx
      have hlt := H.users_lt u (List.mem_toFinset.mp hu)
      rw [hends] at huser
      exact Nat.ne_of_lt hlt (Option.some.inj huser)
    refine ⟨⟨H.edges.channels, ?_, ?_, H.edges.simple, H.edges.nodup, H.edges.lt⟩, H.channels_lt,
      ?_, H.servers⟩
    · intro u
      exact (congrFun (Function.comp_update User.channels _ _ _) u).trans
        (H.edges.users.clear hnew u)
    · intro x hx
      obtain ⟨c, hc, u, hu, hends⟩ := H.edges.ends x hx
      refine ⟨c, hc, u, ?_, hends⟩
      rw [List.toFinset_cons]
      exact Finset.mem_insert_of_mem hu
    · intro u hu
      rcases List.mem_cons.mp hu with rfl | hu
      · exact Nat.lt_succ_self _
      · exact Nat.lt_succ_of_lt (H.users_lt u hu)

theorem join (hc : c ∈ ctx.channels) (hu : u ∈ ctx.users) (modes : List Byte) :
    Built ((ctx, .join c u modes) :: tr)
      { ctx with mem := (chircChanneluserGetOrCreate ctx.mem c u modes).1 } where
  edges := by
    have hstep : membership.step ctx.mem (.getOrCreate c u modes) _ := rfl
    exact H.edges.step ⟨List.mem_toFinset.mpr hc, List.mem_toFinset.mpr hu⟩ hstep
  channels_lt := H.channels_lt
  users_lt := H.users_lt
  servers := H.servers

theorem leave (hremove : chircChanneluserRemove ctx.mem x = some mem) :
    Built ((ctx, .leave x) :: tr) { ctx with mem := mem } where
  edges := H.edges.step (H.edges.mem_of_remove hremove) hremove
  channels_lt := H.channels_lt
  users_lt := H.users_lt
  servers := H.servers

theorem addServer (server : NetServer) :
    Built ((ctx, .addServer server) :: tr)
      { ctx with network := chircCtxAddServer ctx.network server } where
  edges := H.edges
  channels_lt := H.channels_lt
  users_lt := H.users_lt
  servers := congrArg (server :: ·) H.servers

/-- No user of the context is in a channel if no membership is left. -/
theorem channels_eq_nil_iff :
    (∀ u ∈ ctx.users, (ctx.mem.users u).channels = []) ↔ liveMembers (memberCalls tr) = [] := by
  constructor
  · intro h
    rw [List.eq_nil_iff_forall_not_mem]
    intro x hx
    obtain ⟨c, -, u, hu, -, hends⟩ := H.edges.ends x hx
    have hmem : x ∈ (ctx.mem.users u).channels := H.edges.users.mem_iff.mpr ⟨hx, hends⟩
    rw [h u (List.mem_toFinset.mp hu)] at hmem
    cases hmem
  · intro h u _
    have htable : (ctx.mem.users u).channels = _ := H.edges.users u
    rw [htable, h]
    rfl

end Built

theorem Run.built {ctx : Context} (hrun : contexts.Run tr ctx) : Built tr ctx := by
  refine TransitionSystem.Run.invariant (P := Built) ?_ ?_ hrun
  · intro ctx hinit
    obtain ⟨this, rfl⟩ := hinit
    exact ⟨⟨.nil, .nil, nofun, nofun, List.nodup_nil, nofun⟩, nofun, nofun, rfl⟩
  · intro tr ctx call ctx' _ H hstep
    cases call with
    | getOrCreateChannel channelname modes =>
      cases hstep
      exact H.getOrCreateChannel channelname modes
    | getOrCreateUser nick modes =>
      cases hstep
      exact H.getOrCreateUser nick modes
    | addConnection conn =>
      cases hstep
      exact ⟨H.edges, H.channels_lt, H.users_lt, H.servers⟩
    | addServer server =>
      cases hstep
      exact H.addServer server
    | join c u modes =>
      obtain ⟨hc, hu, rfl⟩ := hstep
      exact H.join hc hu modes
    | leave x =>
      obtain ⟨mem, hremove, rfl⟩ := hstep
      exact H.leave hremove

/-! ## The teardown -/

theorem bind_unit_eq_ok {x : Except ε Unit} {f : Unit → Except ε β} :
    (x >>= f) = .ok b ↔ x = .ok () ∧ f () = .ok b := by
  rw [Except.bind_eq_ok]
  exact ⟨fun ⟨_, h⟩ => h, fun h => ⟨(), h⟩⟩

theorem forM_eq_ok {f : α → Except ε Unit} :
    ∀ {l : List α}, l.forM f = .ok () ↔ ∀ a ∈ l, f a = .ok ()
  | [] => iff_of_true rfl nofun
  | a :: l => by
    have hcons : (a :: l).forM f = f a >>= fun _ => l.forM f := rfl
    rw [hcons, bind_unit_eq_ok, List.forall_mem_cons, forM_eq_ok]

theorem chircUserFree_eq_ok {user : User} : chircUserFree user = .ok () ↔ user.channels = [] := by
  rw [chircUserFree]
  split
  · next h => exact iff_of_true rfl h
  · next h => exact iff_of_false nofun h

theorem chircServerFree_eq_ok {server : Option NetServer} :
    chircServerFree server = .ok () ↔ server ≠ none := by
  cases server with
  | none => exact iff_of_false nofun fun h => h rfl
  | some server => exact iff_of_true rfl nofun

/-- What the teardown needs to return, and what it leaves. -/
theorem chircCtxFree_eq_ok {ctx ctx' : Context} : chircCtxFree ctx = .ok ctx' ↔
    (∀ u ∈ ctx.users, (ctx.mem.users u).channels = []) ∧
    (ctx.network.servers = [] → ctx.network.thisServer ≠ none) ∧
    { ctx with channels := [], users := [], connections := [] } = ctx' := by
  have hconns : ∀ conn ∈ ctx.connections, chircConnectionFree conn = .ok () := fun _ _ => rfl
  have hservers : (ctx.network.servers.forM fun server => chircServerFree (some server)) = .ok () :=
    forM_eq_ok.mpr fun _ _ => rfl
  simp only [chircCtxFree, bind_unit_eq_ok, forM_eq_ok, chircUserFree_eq_ok]
  refine and_congr_right fun _ => ?_
  rw [and_iff_right hconns]
  by_cases h : ctx.network.servers = []
  · rw [if_neg (not_not.mpr h), bind_unit_eq_ok, chircServerFree_eq_ok]
    exact and_congr (by simp [h]) (iff_of_eq (Except.ok.injEq _ _))
  · rw [if_pos h, bind_unit_eq_ok, and_iff_right hservers,
      and_iff_right fun hnil => absurd hnil h]
    exact iff_of_eq (Except.ok.injEq _ _)

theorem tornDown_iff (ctx : Context) : TornDown ctx ↔
    (∀ u ∈ ctx.users, (ctx.mem.users u).channels = []) ∧ ctx.network.servers = [] ∧
      ctx.network.thisServer ≠ none := by
  constructor
  · intro h
    obtain ⟨ctx', hfree, -, -, -, hservers⟩ := h
    obtain ⟨husers, hthis, rfl⟩ := chircCtxFree_eq_ok.mp hfree
    exact ⟨husers, hservers, hthis hservers⟩
  · intro h
    obtain ⟨husers, hservers, hthis⟩ := h
    exact ⟨_, chircCtxFree_eq_ok.mpr ⟨husers, fun _ => hthis, rfl⟩, rfl, rfl, rfl, hservers⟩

/-- The server of a standalone context -/
def standaloneServer : NetServer := ⟨0, lit "irc.example", lit "irc.example", lit "6667", []⟩

/-- A standalone context as `main` sets it up -/
def standaloneCtx : Context := { chircCtxInit with network := ⟨[], some standaloneServer, 0⟩ }

/-- A standalone context with the user `amy` and the channel `#a` -/
def ctxOfAmy : Context :=
  let ctx := (chircCtxGetOrCreateChannel standaloneCtx (lit "#a") noModesYet).1
  (chircCtxGetOrCreateUser ctx (lit "amy") noModesYet).1

/-- `amy` has joined `#a`. -/
def ctxOfMember : Context :=
  { ctxOfAmy with mem := (chircChanneluserGetOrCreate ctxOfAmy.mem 0 0 noModesYet).1 }

theorem run_ctxOfAmy : ∃ tr, contexts.Run tr ctxOfAmy ∧ memberCalls tr = [] ∧
    addedServers tr = [] := by
  let ctx := (chircCtxGetOrCreateChannel standaloneCtx (lit "#a") noModesYet).1
  have hrun : contexts.Run [(ctx, .getOrCreateUser (lit "amy") noModesYet),
      (standaloneCtx, .getOrCreateChannel (lit "#a") noModesYet)] ctxOfAmy :=
    .cons (.cons (.nil ⟨some standaloneServer, rfl⟩) rfl) rfl
  exact ⟨_, hrun, rfl, rfl⟩

end Chirc
