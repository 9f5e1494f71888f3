import Chirc.Theory.Counting
import Chirc.Verify.Api

/-! # The counts of a context

The loops of `ctx.c` count structs by a field. What the field of a struct holds is known from the
calls about it. -/

namespace Chirc

open TransitionSystem

/-! ## What has been done to a struct -/

/-- What happened to the array of modes of a user -/
def userModes : ApiHistory → Nat → ModesHistory
  | [], _ => []
  | (s, .userMode v call rc) :: tr, u =>
    if v = u then ((s.ctx.mem.users u).modes, call, rc) :: userModes tr u else userModes tr u
  | _ :: tr, u => userModes tr u

/-- The user has completed its registration. -/
def hasRegistered : ApiHistory → Nat → Bool
  | [], _ => false
  | (_, .register v) :: tr, u => v = u || hasRegistered tr u
  | _ :: tr, u => hasRegistered tr u

/-- The user is an operator: the mode `o` was set last. -/
def IsOperator (tr : ApiHistory) (u : Nat) : Prop :=
  lastSuccess (userModes tr u) 111 = some (.set 111)

instance : Decidable (IsOperator tr u) := inferInstanceAs (Decidable (_ = _))

/-- The type that a connection has been given -/
def typeGiven : ApiHistory → Nat → ConnType
  | [], _ => .unknown
  | (_, .setType a type) :: tr, addr => if a = addr then type else typeGiven tr addr
  | _ :: tr, addr => typeGiven tr addr

/-- The fields of the structs are what the calls say. -/
structure Noted (tr : ApiHistory) (s : Api) : Prop where
  modes : ∀ u < s.ctx.nextUser, modesArray.Run (userModes tr u) (s.ctx.mem.users u).modes
  registered : ∀ u < s.ctx.nextUser, (s.ctx.mem.users u).registered = hasRegistered tr u
  types : ∀ addr, s.type addr = typeGiven tr addr
  noModes : ∀ u, s.ctx.nextUser ≤ u → userModes tr u = []
  unregistered : ∀ u, s.ctx.nextUser ≤ u → hasRegistered tr u = false
  conns : Keyed (fun conn => some conn.addr) s.ctx.connections

theorem Api.setUser_users (s : Api) (u : Nat) (user : User) :
    (s.setUser u user).ctx.mem.users = Function.update s.ctx.mem.users u user := rfl

/-- An update that leaves a field of the struct alone -/
theorem update_same {f f' : Nat → α} (get : α → β) (h : f' = Function.update f i a)
    (hget : get a = get (f i)) (j : Nat) : get (f' j) = get (f j) := by
  rw [h]
  by_cases hne : j = i
  · subst hne
    rw [Function.update_self, hget]
  · rw [Function.update_of_ne hne]

namespace Noted
variable {tr : ApiHistory} {s : Api} (H : Noted tr s)
include H

/-- A call that changes other fields of a user -/
theorem user {s' : Api} (hmodes : ∀ v, userModes tr' v = userModes tr v)
    (hregistered : ∀ v, hasRegistered tr' v = hasRegistered tr v)
    (htypes : ∀ addr, typeGiven tr' addr = typeGiven tr addr)
    (hnext : s'.ctx.nextUser = s.ctx.nextUser) (htype : s'.type = s.type)
    (hconns : s'.ctx.connections = s.ctx.connections) {user : User}
    (husers : s'.ctx.mem.users = Function.update s.ctx.mem.users u user)
    (hsame : user.modes = (s.ctx.mem.users u).modes ∧
      user.registered = (s.ctx.mem.users u).registered) : Noted tr' s' where
  modes v hv := by
    rw [hmodes, update_same User.modes husers hsame.1]
    exact H.modes v (hnext ▸ hv)
  registered v hv := by
    rw [hregistered, update_same User.registered husers hsame.2]
    exact H.registered v (hnext ▸ hv)
  types addr := by
    rw [htypes, htype]
    exact H.types addr
  noModes v hv := by
    rw [hmodes]
    exact H.noModes v (hnext ▸ hv)
  unregistered v hv := by
    rw [hregistered]
    exact H.unregistered v (hnext ▸ hv)
  conns := hconns ▸ H.conns

theorem getOrCreateUser (nick : CStr) {modes : List Byte} (hlen : modes.length = 10) :
    Noted ((s, .getOrCreateUser nick modes) :: tr)
      { s with ctx := (chircCtxGetOrCreateUser s.ctx nick modes).1 } := by
  rw [chircCtxGetOrCreateUser]
  cases chircCtxGetUser s.ctx nick with
  | some u => exact ⟨H.modes, H.registered, H.types, H.noModes, H.unregistered, H.conns⟩
  | none =>
    refine ⟨fun u hu => ?_, fun u hu => ?_, H.types, fun u hu => H.noModes u (Nat.le_of_succ_le hu),
      fun u hu => H.unregistered u (Nat.le_of_succ_le hu), H.conns⟩
    · dsimp only
      cases Nat.lt_succ_iff_lt_or_eq.mp hu with
      | inl hu =>
        rw [Function.update_of_ne (Nat.ne_of_lt hu)]
        exact H.modes u hu
      | inr hu =>
        subst hu
        rw [Function.update_self]
        change modesArray.Run (userModes tr _) _
        rw [H.noModes _ (Nat.le_refl _)]
        refine .nil ⟨(List.length_set ..).trans hlen, ?_⟩
        cases modes with
        | nil => cases hlen
        | cons b modes => rfl
    · dsimp only
      cases Nat.lt_succ_iff_lt_or_eq.mp hu with
      | inl hu =>
        rw [Function.update_of_ne (Nat.ne_of_lt hu)]
        exact H.registered u hu
      | inr hu =>
        subst hu
        rw [Function.update_self]
        exact (H.unregistered _ (Nat.le_refl _)).symm

theorem register (hu : u < s.ctx.nextUser) : Noted ((s, .register u) :: tr)
    (s.setUser u { s.ctx.mem.users u with registered := true }) where
  modes v hv := by
    have hmodes : ((s.setUser u { s.ctx.mem.users u with registered := true }).ctx.mem.users v).modes
        = (s.ctx.mem.users v).modes := by
      apply update_same User.modes (s.setUser_users u _)
      rfl
    exact hmodes ▸ H.modes v hv
  registered v hv := by
    rw [Api.setUser_users, hasRegistered]
    by_cases hne : v = u
    · subst hne
      rw [Function.update_self, decide_eq_true rfl]
      rfl
    · rw [Function.update_of_ne hne, decide_eq_false (Ne.symm hne)]
      exact H.registered v hv
  types := H.types
  noModes := H.noModes
  unregistered v hv := by
    have hne : u ≠ v := Nat.ne_of_lt (Nat.lt_of_lt_of_le hu hv)
    rw [hasRegistered, decide_eq_false hne]
    exact H.unregistered v hv
  conns := H.conns

theorem userMode {user : User} (hu : u < s.ctx.nextUser)
    (hmode : ModesOf.user.run (s.ctx.mem.users u) call = .ok (user, rc)) :
    Noted ((s, .userMode u call rc) :: tr) (s.setUser u user) := by
  rw [ModesOf.user_delegates.run_eq] at hmode
  obtain ⟨⟨modes, rc'⟩, hcall, heq⟩ := Res.map_eq_ok.mp hmode
  obtain ⟨rfl, rfl⟩ := Prod.mk.inj heq
  refine ⟨fun v hv => ?_, fun v hv => ?_, H.types, fun v hv => ?_, H.unregistered, H.conns⟩
  · rw [Api.setUser_users, userModes]
    by_cases hne : v = u
    · subst hne
      rw [Function.update_self, if_pos rfl]
      exact (H.modes v hv).cons hcall
    · rw [Function.update_of_ne hne, if_neg (Ne.symm hne)]
      exact H.modes v hv
  · refine Eq.trans ?_ (H.registered v hv)
    apply update_same User.registered (s.setUser_users u _)
    rfl
  · have hne : u ≠ v := Nat.ne_of_lt (Nat.lt_of_lt_of_le hu hv)
    rw [userModes, if_neg hne]
    exact H.noModes v hv

theorem setType (addr : Nat) (type : ConnType) : Noted ((s, .setType addr type) :: tr)
    { s with type := Function.update s.type addr type } where
  modes := H.modes
  registered := H.registered
  types a := by
    rw [typeGiven]
    dsimp only
    by_cases hne : a = addr
    · subst hne
      rw [Function.update_self, if_pos rfl]
    · rw [Function.update_of_ne hne, if_neg (Ne.symm hne)]
      exact H.types a
  noModes := H.noModes
  unregistered := H.unregistered
  conns := H.conns

theorem addConnection {conn : CtxConnection}
    (hnew : ∀ conn' ∈ s.ctx.connections, conn'.addr ≠ conn.addr) :
    Noted ((s, .addConnection conn) :: tr) { s with ctx := chircCtxAddConnection s.ctx conn } where
  modes := H.modes
  registered := H.registered
  types := H.types
  noModes := H.noModes
  unregistered := H.unregistered
  conns := H.conns.cons rfl fun conn' hconn' heq => hnew conn' hconn' (Option.some.inj heq)

theorem removeConnection {ctx : Context} (hremove : chircCtxRemoveConnection s.ctx addr = some ctx) :
    Noted ((s, .removeConnection addr) :: tr) { s with ctx := ctx } := by
  rw [chircCtxRemoveConnection] at hremove
  split at hremove
  · cases hremove
    refine ⟨H.modes, H.registered, H.types, H.noModes, H.unregistered, ?_⟩
    exact H.conns.sublist List.eraseP_sublist
  · cases hremove

end Noted

theorem ApiStep.noted {s s' : Api} (h : ApiStep s call s') (hs : s.Sound) (H : Noted tr s) :
    Noted ((s, call) :: tr) s' := by
  cases h with
  | getOrCreateChannel channelname modes =>
    rw [chircCtxGetOrCreateChannel]
    cases chircCtxGetChannel s.ctx channelname with
    | some c => exact ⟨H.modes, H.registered, H.types, H.noModes, H.unregistered, H.conns⟩
    | none => exact ⟨H.modes, H.registered, H.types, H.noModes, H.unregistered, H.conns⟩
  | addChannel c name => exact ⟨H.modes, H.registered, H.types, H.noModes, H.unregistered, H.conns⟩
  | removeChannel c ctx hremove =>
    obtain ⟨-, rfl⟩ := chircCtxRemoveChannel_eq_some.mp hremove
    exact ⟨H.modes, H.registered, H.types, H.noModes, H.unregistered, H.conns⟩
  | getOrCreateUser nick modes hlen => exact H.getOrCreateUser nick hlen
  | addUser u nick => exact ⟨H.modes, H.registered, H.types, H.noModes, H.unregistered, H.conns⟩
  | removeUser u ctx hremove =>
    obtain ⟨-, rfl⟩ := chircCtxRemoveUser_eq_some.mp hremove
    exact ⟨H.modes, H.registered, H.types, H.noModes, H.unregistered, H.conns⟩
  | join c u modes =>
    cases hfind : s.ctx.mem.findInChannel c u with
    | some x =>
      rw [getOrCreate_some hfind]
      exact ⟨H.modes, H.registered, H.types, H.noModes, H.unregistered, H.conns⟩
    | none =>
      rw [getOrCreate_none hfind]
      exact H.user (fun _ => rfl) (fun _ => rfl) (fun _ => rfl) rfl rfl rfl rfl ⟨rfl, rfl⟩
  | leave x mem hremove =>
    obtain ⟨L, hedges⟩ := hs.edges
    obtain ⟨c, u, heq, -⟩ := hedges.unlink (hedges.mem_of_remove hremove)
    cases hremove.symm.trans heq
    exact H.user (fun _ => rfl) (fun _ => rfl) (fun _ => rfl) rfl rfl rfl rfl ⟨rfl, rfl⟩
  | addConnection conn hnew => exact H.addConnection hnew
  | removeConnection addr ctx hremove => exact H.removeConnection hremove
  | setNick u nick =>
    exact H.user (fun _ => rfl) (fun _ => rfl) (fun _ => rfl) rfl rfl rfl rfl ⟨rfl, rfl⟩
  | register u hu => exact H.register hu
  | userMode u call rc user hu hmode => exact H.userMode hu hmode
  | setType addr type => exact H.setType addr type

theorem Run.noted {s : Api} (hrun : ctxApi.Run tr s) : Noted tr s := by
  induction hrun with
  | nil hinit =>
    obtain ⟨this, hctx, htype⟩ := hinit
    refine ⟨?_, ?_, htype, fun _ _ => rfl, fun _ _ => rfl, ?_⟩ <;> rw [hctx]
    · exact nofun
    · exact nofun
    · exact .nil
  | cons hrun hstep ih => exact ApiStep.noted hstep (Run.apiSound hrun) ih

/-! ## Counts -/

/-- What the functions return for a history -/
structure Api.Counted (tr : ApiHistory) (s : Api) : Prop where
  numchannels : chircCtxNumchannels s.ctx =
    {name | ∃ c, chircCtxGetChannel s.ctx name = some c}.ncard
  numusers : chircCtxNumusers s.ctx =
    {nick | ∃ u, chircCtxGetUser s.ctx nick = some u ∧ hasRegistered tr u = true}.ncard
  numops : chircCtxNumops s.ctx =
    .ok {nick | ∃ u, chircCtxGetUser s.ctx nick = some u ∧ IsOperator tr u}.ncard
  unknownConnections : chircCtxUnknownConnections s.ctx s.type =
    {addr | addr ∈ s.ctx.connections.map (·.addr) ∧ typeGiven tr addr = .unknown}.ncard

theorem Api.Sound.numchannels_eq {s : Api} (H : s.Sound) : chircCtxNumchannels s.ctx =
    {name | ∃ c, chircCtxGetChannel s.ctx name = some c}.ncard := by
  have hcount := H.channels.countP_eq_ncard fun _ => true
  rw [List.countP_true] at hcount
  refine hcount.trans (congrArg Set.ncard ?_)
  ext name
  exact exists_congr fun c => and_iff_left rfl

theorem Noted.numusers_eq {s : Api} (H : Noted tr s) (hs : s.Sound) : chircCtxNumusers s.ctx =
    {nick | ∃ u, chircCtxGetUser s.ctx nick = some u ∧ hasRegistered tr u = true}.ncard := by
  rw [chircCtxNumusers, Counting.foldl_countP, Nat.zero_add, List.countP_reverse,
    hs.users.countP_eq_ncard]
  congr 1
  ext nick
  refine exists_congr fun u => and_congr_right fun hget => ?_
  rw [H.registered u (hs.users_lt u (hs.getUser_iff.mp hget).1)]

theorem Noted.hasMode_eq {s : Api} (H : Noted tr s) (hu : u < s.ctx.nextUser)
    (hfits : AllSteps ModeCall.Fits (userModes tr u)) :
    chircUserHasMode (s.ctx.mem.users u) 111 = .ok (if IsOperator tr u then 1 else 0) := by
  obtain ⟨str, hstr⟩ := Run.modesHeld (H.modes u hu) hfits
  rw [chircUserHasMode, hstr.str.hasMode_eq (by decide)]
  congr 1
  exact if_congr (hstr.last 111).symm rfl rfl

theorem Noted.numops_eq {s : Api} (H : Noted tr s) (hs : s.Sound)
    (hfits : ∀ u ∈ s.ctx.users, AllSteps ModeCall.Fits (userModes tr u)) : chircCtxNumops s.ctx =
    .ok {nick | ∃ u, chircCtxGetUser s.ctx nick = some u ∧ IsOperator tr u}.ncard := by
  rw [chircCtxNumops, Counting.foldlM_countP (p := fun u => decide (IsOperator tr u)),
    Nat.zero_add, List.countP_reverse, hs.users.countP_eq_ncard]
  · congr 3
    ext nick
    exact exists_congr fun u => and_congr_right fun _ => decide_eq_true_iff
  · intro n u hu
    have hu := List.mem_reverse.mp hu
    rw [H.hasMode_eq (hs.users_lt u hu) (hfits u hu)]
    by_cases hop : IsOperator tr u
    · rw [if_pos hop, decide_eq_true hop]
      rfl
    · rw [if_neg hop, decide_eq_false hop]
      rfl

theorem Noted.unknownConnections_eq {s : Api} (H : Noted tr s) :
    chircCtxUnknownConnections s.ctx s.type =
      {addr | addr ∈ s.ctx.connections.map (·.addr) ∧ typeGiven tr addr = .unknown}.ncard := by
  rw [chircCtxUnknownConnections]
  have hcount := Counting.foldl_countP (fun conn : CtxConnection => s.type conn.addr = .unknown)
    s.ctx.connections.reverse 0
  simp only [decide_eq_true_iff] at hcount
  rw [hcount, Nat.zero_add, List.countP_reverse, H.conns.countP_eq_ncard]
  congr 1
  ext addr
  rw [Set.mem_ofPred_eq, Set.mem_ofPred_eq, List.mem_map]
  constructor
  · intro h
    obtain ⟨conn, hfind, htype⟩ := h
    obtain ⟨hconn, heq⟩ := H.conns.find_iff.mp hfind
    cases Option.some.inj heq
    exact ⟨⟨conn, hconn, rfl⟩, (H.types _).symm.trans (of_decide_eq_true htype)⟩
  · intro h
    obtain ⟨⟨conn, hconn, heq⟩, htype⟩ := h
    subst heq
    exact ⟨conn, H.conns.find_iff.mpr ⟨hconn, rfl⟩, decide_eq_true ((H.types _).trans htype)⟩

/-- **What the counting functions return**: the channels that can be found by a name, the users who
can be found and have registered, or are operators, and the connections without a type. -/
theorem counts {s : Api} (hrun : ctxApi.Run tr s)
    (hfits : ∀ u ∈ s.ctx.users, AllSteps ModeCall.Fits (userModes tr u)) : s.Counted tr := by
  have hs := Run.apiSound hrun
  have H := Run.noted hrun
  exact ⟨hs.numchannels_eq, H.numusers_eq hs, H.numops_eq hs hfits, H.unknownConnections_eq⟩

/-- An operator who has not registered yet, and a connection without a type -/
theorem counts_amy : ∃ tr s, ctxApi.Run tr s ∧ s.Counted tr ∧ chircCtxNumusers s.ctx = 0 ∧
    chircCtxNumops s.ctx = .ok 1 ∧ chircCtxUnknownConnections s.ctx s.type = 1 := by
  have hnew : ctxApi.Run [] newApi := .nil ⟨none, rfl, fun _ => rfl⟩
  have huser := hnew.cons (ApiStep.getOrCreateUser (lit "amy") noModes rfl)
  have hmode := huser.cons (ApiStep.userMode 0 (.set 111) 0 _ (by decide) rfl)
  have hconn := hmode.cons (ApiStep.addConnection ⟨0, 4, none⟩ nofun)
  refine ⟨_, _, hconn, counts hconn ?_, rfl, rfl, rfl⟩
  intro u hu
  cases List.mem_singleton.mp hu
  decide +kernel

end Chirc
