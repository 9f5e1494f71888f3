import Chirc.Context.ChannelUser
import Chirc.Theory.Incidence
import Chirc.Theory.Transition

/-! # The two sides of a membership

The members are the edges of a graph between channels and users. The tables of the channels and the
tables of the users are the two indexes of its edges. -/

namespace Chirc

open TransitionSystem

/-! ## Sequences of calls -/

/-- A call of `chirc_channeluser_get_or_create` or `chirc_channeluser_remove`. -/
inductive MemberCall
  | getOrCreate (channel user : Nat) (modes : List Byte)
  | remove (x : Nat)

/-- The uses of the two functions on empty tables. -/
def membership : TransitionSystem Members MemberCall where
  init m := (∀ c, (m.channels c).users = []) ∧ ∀ u, (m.users u).channels = []
  step m l m' := match l with
    | .getOrCreate channel user modes => (chircChanneluserGetOrCreate m channel user modes).1 = m'
    | .remove x => chircChanneluserRemove m x = some m'

abbrev MemberHistory := List (Members × MemberCall)

/-- The structs that were created and not yet removed, the latest first. -/
def liveMembers : MemberHistory → List Nat
  | [] => []
  | (m, .getOrCreate channel user modes) :: tr =>
    let (_, created, x) := chircChanneluserGetOrCreate m channel user modes
    if created then x :: liveMembers tr else liveMembers tr
  | (_, .remove x) :: tr => (liveMembers tr).erase x

/-- Structs are created for a channel in `C` and a user in `U`, and what is removed was created and
not yet removed. -/
def CallsOn (C U : Finset Nat) (tr : MemberHistory) (_ : Members) : MemberCall → Prop
  | .getOrCreate channel user _ => channel ∈ C ∧ user ∈ U
  | .remove x => x ∈ liveMembers tr

instance CallsOn.decidable : ∀ call, Decidable (CallsOn C U tr m call)
  | .getOrCreate .. => inferInstanceAs (Decidable (_ ∧ _))
  | .remove _ => inferInstanceAs (Decidable (_ ∈ _))

/-- The structs of `u` in the table of `c`. -/
def Members.inChannel (m : Members) (c u : Nat) : List Nat :=
  (m.channels c).users.filter fun x => (m.channelUsers x).user = some u

/-- The structs of `c` in the table of `u`. -/
def Members.inUser (m : Members) (u c : Nat) : List Nat :=
  (m.users u).channels.filter fun x => (m.channelUsers x).channel = some c

/-- Both sides record the same memberships. -/
structure Consistent (m : Members) : Prop where
  channel_le : ∀ c u, (m.inChannel c u).length ≤ 1
  user_le : ∀ u c, (m.inUser u c).length ≤ 1
  same : ∀ c u, m.inChannel c u = m.inUser u c
  ends : ∀ c u x, x ∈ m.inChannel c u →
    (m.channelUsers x).user = some u ∧ (m.channelUsers x).channel = some c

/-! ## What the calls do -/

/-- A struct in place `m.next` that is in the tables of `c` and `u`. -/
def Members.link (m : Members) (c u : Nat) (modes : List Byte) : Members where
  users := Function.update m.users u
    { m.users u with channels := m.next :: (m.users u).channels }
  channels := Function.update m.channels c
    { m.channels c with users := m.next :: (m.channels c).users }
  channelUsers := Function.update m.channelUsers m.next ⟨some u, some c, modes.set 0 NUL⟩
  next := m.next + 1

/-- The struct `x` is no longer in the tables of `c` and `u`. -/
def Members.unlink (m : Members) (c u x : Nat) : Members :=
  { m with
    users := Function.update m.users u
      { m.users u with channels := (m.users u).channels.erase x }
    channels := Function.update m.channels c
      { m.channels c with users := (m.channels c).users.erase x } }

theorem link_channels (m : Members) (c u : Nat) (modes : List Byte) :
    (fun c' => ((m.link c u modes).channels c').users) =
      Function.update (fun c' => (m.channels c').users) c (m.next :: (m.channels c).users) :=
  Function.comp_update Channel.users _ _ _

theorem link_users (m : Members) (c u : Nat) (modes : List Byte) :
    (fun u' => ((m.link c u modes).users u').channels) =
      Function.update (fun u' => (m.users u').channels) u (m.next :: (m.users u).channels) :=
  Function.comp_update User.channels _ _ _

theorem unlink_channels (m : Members) (c u x : Nat) :
    (fun c' => ((m.unlink c u x).channels c').users) =
      Function.update (fun c' => (m.channels c').users) c ((m.channels c).users.erase x) :=
  Function.comp_update Channel.users _ _ _

theorem unlink_users (m : Members) (c u x : Nat) :
    (fun u' => ((m.unlink c u x).users u').channels) =
      Function.update (fun u' => (m.users u').channels) u ((m.users u).channels.erase x) :=
  Function.comp_update User.channels _ _ _

theorem getOrCreate_some {m : Members} (h : m.findInChannel c u = some x) (modes : List Byte) :
    chircChanneluserGetOrCreate m c u modes = (m, false, x) := by
  rw [chircChanneluserGetOrCreate, h]

theorem getOrCreate_none {m : Members} (h : m.findInChannel c u = none) (modes : List Byte) :
    chircChanneluserGetOrCreate m c u modes = (m.link c u modes, true, m.next) := by
  rw [chircChanneluserGetOrCreate, h]
  rfl

theorem remove_eq {m : Members} (hc : (m.channelUsers x).channel = some c)
    (hu : (m.channelUsers x).user = some u) (hinc : x ∈ (m.channels c).users)
    (hinu : x ∈ (m.users u).channels) : chircChanneluserRemove m x = some (m.unlink c u x) := by
  simp [chircChanneluserRemove, hc, hu, hashDelete, hinc, hinu, Members.unlink]

/-! ## The edges -/

/-- The structs in `L` are the edges between `C` and `U`, which both kinds of tables index. -/
structure Edges (C U : Finset Nat) (m : Members) (L : List Nat) : Prop where
  channels : Indexed L (fun x => (m.channelUsers x).channel) fun c => (m.channels c).users
  users : Indexed L (fun x => (m.channelUsers x).user) fun u => (m.users u).channels
  ends : ∀ x ∈ L, ∃ c ∈ C, ∃ u ∈ U,
    (m.channelUsers x).channel = some c ∧ (m.channelUsers x).user = some u
  simple : ∀ x ∈ L, ∀ y ∈ L, (m.channelUsers x).channel = (m.channelUsers y).channel →
    (m.channelUsers x).user = (m.channelUsers y).user → x = y
  nodup : L.Nodup
  lt : ∀ x ∈ L, x < m.next

namespace Edges
variable {C U : Finset Nat} {m : Members} {L : List Nat} (H : Edges C U m L)
include H

theorem inChannel_eq (c u : Nat) : m.inChannel c u =
    L.filter fun x => (m.channelUsers x).channel = some c ∧ (m.channelUsers x).user = some u := by
  have htable : (m.channels c).users = _ := H.channels c
  rw [Members.inChannel, htable, List.filter_filter]
  exact List.filter_congr fun x _ => by simp [and_comm]

theorem inUser_eq (c u : Nat) : m.inUser u c =
    L.filter fun x => (m.channelUsers x).channel = some c ∧ (m.channelUsers x).user = some u := by
  have htable : (m.users u).channels = _ := H.users u
  rw [Members.inUser, htable, List.filter_filter]
  exact List.filter_congr fun x _ => by simp

theorem consistent : Consistent m := by
  have hle c u : (m.inChannel c u).length ≤ 1 := by
    rw [H.inChannel_eq]
    apply length_filter_le_one H.nodup
    intro x hx y hy hpx hpy
    simp only [decide_eq_true_iff] at hpx hpy
    exact H.simple x hx y hy (hpx.1.trans hpy.1.symm) (hpx.2.trans hpy.2.symm)
  have hsame c u : m.inChannel c u = m.inUser u c := by rw [H.inChannel_eq, H.inUser_eq]
  refine ⟨hle, fun u c => hsame c u ▸ hle c u, hsame, fun c u x hx => ?_⟩
  rw [H.inChannel_eq, List.mem_filter, decide_eq_true_iff] at hx
  exact hx.2.symm

theorem findInChannel_eq_none {c u : Nat} (h : m.findInChannel c u = none) :
    ∀ x ∈ L, (m.channelUsers x).channel = some c → (m.channelUsers x).user ≠ some u := by
  intro x hx hchannel huser
  rw [Members.findInChannel, List.find?_eq_none] at h
  exact h x (H.channels.mem_iff.mpr ⟨hx, hchannel⟩) (by simpa using huser)

/-- The struct that is found for a channel and a user is their edge. -/
theorem get_eq_some {c u : Nat} : chircChanneluserGet m c u = some x ↔
    x ∈ L ∧ (m.channelUsers x).channel = some c ∧ (m.channelUsers x).user = some u := by
  have hfound {y} (h : m.findInChannel c u = some y) :
      y ∈ L ∧ (m.channelUsers y).channel = some c ∧ (m.channelUsers y).user = some u := by
    obtain ⟨hy, hchannel⟩ := H.channels.mem_iff.mp (List.mem_of_find?_eq_some h)
    exact ⟨hy, hchannel, by simpa using List.find?_some h⟩
  constructor
  · intro h
    exact hfound h
  · rintro ⟨hx, hchannel, huser⟩
    rw [chircChanneluserGet]
    cases hfind : m.findInChannel c u with
    | none => exact absurd huser (H.findInChannel_eq_none hfind x hx hchannel)
    | some y =>
      obtain ⟨hy, hychannel, hyuser⟩ := hfound hfind
      rw [H.simple y hy x hx (hychannel.trans hchannel.symm) (hyuser.trans huser.symm)]

/-- A struct that is created is a further edge. -/
theorem link {c u : Nat} (hc : c ∈ C) (hu : u ∈ U) (hnone : m.findInChannel c u = none)
    (modes : List Byte) : Edges C U (m.link c u modes) (m.next :: L) := by
  have hold : ∀ x ∈ L, (m.link c u modes).channelUsers x = m.channelUsers x := fun x hx =>
    Function.update_of_ne (Nat.ne_of_lt (H.lt x hx)) _ _
  have hnew : (m.link c u modes).channelUsers m.next = ⟨some u, some c, modes.set 0 NUL⟩ :=
    Function.update_self _ _ _
  have hfree := H.findInChannel_eq_none hnone
  refine ⟨?_, ?_, ?_, ?_, ?_, ?_⟩
  · rw [link_channels]
    exact (H.channels.congr fun x hx => congrArg ChannelUser.channel (hold x hx)).cons
      (congrArg ChannelUser.channel hnew)
  · rw [link_users]
    exact (H.users.congr fun x hx => congrArg ChannelUser.user (hold x hx)).cons
      (congrArg ChannelUser.user hnew)
  · intro x hx
    rcases List.mem_cons.mp hx with rfl | hx
    · exact ⟨c, hc, u, hu, by rw [hnew], by rw [hnew]⟩
    · rw [hold x hx]
      exact H.ends x hx
  · intro x hx y hy
    rcases List.mem_cons.mp hx with rfl | hx <;> rcases List.mem_cons.mp hy with rfl | hy
    · exact fun _ _ => rfl
    · rw [hnew, hold y hy]
      exact fun hchannel huser => absurd huser.symm (hfree y hy hchannel.symm)
    · rw [hnew, hold x hx]
      exact fun hchannel huser => absurd huser (hfree x hx hchannel)
    · rw [hold x hx, hold y hy]
      exact H.simple x hx y hy
  · exact List.nodup_cons.mpr ⟨fun h => Nat.lt_irrefl _ (H.lt _ h), H.nodup⟩
  · intro x hx
    rcases List.mem_cons.mp hx with rfl | hx
    · exact Nat.lt_succ_self _
    · exact Nat.lt_succ_of_lt (H.lt x hx)

/-- A struct that is removed was an edge, and is in both tables. -/
theorem unlink (hx : x ∈ L) : ∃ c u, chircChanneluserRemove m x = some (m.unlink c u x) ∧
    Edges C U (m.unlink c u x) (L.erase x) := by
  obtain ⟨c, -, u, -, hc, hu⟩ := H.ends x hx
  have hmem {y : Nat} (hy : y ∈ L.erase x) : y ∈ L := List.mem_of_mem_erase hy
  refine ⟨c, u, remove_eq hc hu (H.channels.mem_iff.mpr ⟨hx, hc⟩) (H.users.mem_iff.mpr ⟨hx, hu⟩),
    ?_, ?_, fun y hy => H.ends y (hmem hy), fun y hy z hz => H.simple y (hmem hy) z (hmem hz),
    H.nodup.erase x, fun y hy => H.lt y (hmem hy)⟩
  · rw [unlink_channels]
    exact H.channels.erase hc
  · rw [unlink_users]
    exact H.users.erase hu

/-- Each struct is counted once by the channels and once by the users. -/
theorem sum_eq : ∑ c ∈ C, chircChannelNumUsers m c = ∑ u ∈ U, chircUserNumChannels m u := by
  have hchannels := H.channels.sum_length fun x hx => by
    obtain ⟨c, hcC, -, -, hc, -⟩ := H.ends x hx
    exact ⟨c, hcC, hc⟩
  have husers := H.users.sum_length fun x hx => by
    obtain ⟨-, -, u, huU, -, hu⟩ := H.ends x hx
    exact ⟨u, huU, hu⟩
  exact hchannels.trans husers.symm

end Edges

/-! ## Runs -/

/-- A call creates and removes edges. -/
theorem Edges.step {m m' : Members} (H : Edges C U m (liveMembers tr))
    (hcall : CallsOn C U tr m call) (hstep : membership.step m call m') :
    Edges C U m' (liveMembers ((m, call) :: tr)) := by
  cases call with
  | getOrCreate c u modes =>
    simp only [membership] at hstep
    cases hfind : m.findInChannel c u with
    | some x =>
      rw [getOrCreate_some hfind] at hstep
      subst hstep
      rw [liveMembers, getOrCreate_some hfind]
      exact H
    | none =>
      rw [getOrCreate_none hfind] at hstep
      subst hstep
      rw [liveMembers, getOrCreate_none hfind]
      exact H.link hcall.1 hcall.2 hfind modes
  | remove x =>
    obtain ⟨c, u, hremove, H'⟩ := H.unlink hcall
    cases hremove.symm.trans hstep
    exact H'

theorem Run.edges {m : Members} (hrun : membership.Run tr m) (hcalls : AllSteps (CallsOn C U) tr) :
    Edges C U m (liveMembers tr) := by
  refine TransitionSystem.Run.invariant_of_allSteps
    (P := fun tr m => Edges C U m (liveMembers tr)) ?_ ?_ hrun hcalls
  · rintro m ⟨hchannels, husers⟩
    exact ⟨hchannels, husers, by simp [liveMembers], by simp [liveMembers], List.nodup_nil,
      by simp [liveMembers]⟩
  · intro tr m call m' _ H hcall hstep
    exact H.step hcall hstep

theorem CallsOn.mono (hC : C ⊆ C') (hU : U ⊆ U') :
    ∀ tr m call, CallsOn C U tr m call → CallsOn C' U' tr m call
  | _, _, .getOrCreate .., h => ⟨hC h.1, hU h.2⟩
  | _, _, .remove _, h => h

/-- `HASH_DELETE` is defined for the structs in the tables only. -/
theorem Edges.mem_of_remove (H : Edges C U m L) (h : chircChanneluserRemove m x = some m') :
    x ∈ L := by
  simp only [chircChanneluserRemove, hashDelete, Option.bind_eq_bind,
    Option.bind_eq_some_iff] at h
  obtain ⟨u, -, c, -, users, husers, -⟩ := h
  split at husers
  · next hx => exact (H.channels.mem_iff.mp hx).1
  · cases husers

/-- In every run, structs are created for finitely many channels and users, and what is removed was
created and not yet removed. -/
theorem Run.exists_callsOn {m : Members} (hrun : membership.Run tr m) :
    ∃ C U, AllSteps (CallsOn C U) tr := by
  induction hrun with
  | nil => exact ⟨∅, ∅, trivial⟩
  | @cons tr m call m' hrun hstep ih =>
    obtain ⟨C, U, hcalls⟩ := ih
    cases call with
    | getOrCreate c u modes =>
      have hold := hcalls.mono (CallsOn.mono (Finset.subset_insert c C) (Finset.subset_insert u U))
      exact ⟨insert c C, insert u U,
        ⟨Finset.mem_insert_self c C, Finset.mem_insert_self u U⟩, hold⟩
    | remove x => exact ⟨C, U, (Run.edges hrun hcalls).mem_of_remove hstep, hcalls⟩

/-- **Both sides record the same memberships** after any sequence of calls, and so count the same
number of them. The structs that can be removed next are in their tables. -/
theorem consistent_sum {m : Members} (hrun : membership.Run tr m)
    (hcalls : AllSteps (CallsOn C U) tr) :
    Consistent m ∧ (∀ x ∈ liveMembers tr, (chircChanneluserRemove m x).isSome) ∧
      ∑ c ∈ C, chircChannelNumUsers m c = ∑ u ∈ U, chircUserNumChannels m u := by
  have H := Run.edges hrun hcalls
  refine ⟨H.consistent, fun x hx => ?_, H.sum_eq⟩
  obtain ⟨c, u, hremove, -⟩ := H.unlink hx
  rw [hremove]
  rfl

/-- An array whose bytes were never written. -/
def noModesYet : List Byte := List.replicate 10 255

/-- Users and channels without members. -/
def noMembers : Members where
  users _ := chircUserInit (List.replicate 10 255)
  channels _ := chircChannelInit (List.replicate 10 255)
  channelUsers _ := ⟨none, none, []⟩
  next := 0

/-- User 7 joins the channels 1 and 2, and leaves channel 1. -/
theorem consistent_joinAndLeave : ∃ tr m, membership.Run tr m ∧ AllSteps (CallsOn {1, 2} {7}) tr ∧
    chircChannelNumUsers m 1 = 0 ∧ chircChannelNumUsers m 2 = 1 ∧ Consistent m ∧
      ∑ c ∈ {1, 2}, chircChannelNumUsers m c = ∑ u ∈ {7}, chircUserNumChannels m u := by
  let joined₁ := noMembers.link 1 7 (List.replicate 10 255)
  let joined₂ := joined₁.link 2 7 (List.replicate 10 255)
  have hrun : membership.Run [(joined₂, .remove 0),
      (joined₁, .getOrCreate 2 7 (List.replicate 10 255)),
      (noMembers, .getOrCreate 1 7 (List.replicate 10 255))] (joined₂.unlink 1 7 0) :=
    .cons (.cons (.cons (.nil ⟨fun _ => rfl, fun _ => rfl⟩) rfl) rfl) rfl
  have hcalls : AllSteps (CallsOn {1, 2} {7}) [(joined₂, .remove 0),
      (joined₁, .getOrCreate 2 7 (List.replicate 10 255)),
      (noMembers, .getOrCreate 1 7 (List.replicate 10 255))] := by decide
  obtain ⟨hconsistent, -, hsum⟩ := consistent_sum hrun hcalls
  exact ⟨_, _, hrun, hcalls, rfl, rfl, hconsistent, hsum⟩

/-! ## Joining and leaving -/

/-- The user is in the channel. -/
def Members.Joined (m : Members) (channel user : Nat) : Prop :=
  ∃ x ∈ (m.channels channel).users, (m.channelUsers x).user = some user

/-- The channels and users with their tables are the same, and so are the structs in the tables. -/
structure SameMembership (m m' : Members) : Prop where
  channels : m'.channels = m.channels
  users : m'.users = m.users
  inChannels : ∀ c, ∀ x ∈ (m.channels c).users, m'.channelUsers x = m.channelUsers x
  inUsers : ∀ u, ∀ x ∈ (m.users u).channels, m'.channelUsers x = m.channelUsers x

theorem findInChannel_eq_none_iff {m : Members} : m.findInChannel c u = none ↔ ¬ m.Joined c u := by
  rw [Members.findInChannel, List.find?_eq_none, Members.Joined]
  simp

/-- What is left of a struct that is created and removed again is the struct itself. -/
theorem unlink_link (m : Members) (c u : Nat) (modes : List Byte) :
    (m.link c u modes).unlink c u m.next =
      { m with
        channelUsers := (m.link c u modes).channelUsers
        next := m.next + 1 } := by
  have hchannels : ((m.link c u modes).unlink c u m.next).channels = m.channels := by
    simp [Members.unlink, Members.link]
  have husers : ((m.link c u modes).unlink c u m.next).users = m.users := by
    simp [Members.unlink, Members.link]
  rw [← hchannels, ← husers]
  rfl

theorem link_remove (m : Members) (c u : Nat) (modes : List Byte) :
    chircChanneluserRemove (m.link c u modes) m.next =
      some ((m.link c u modes).unlink c u m.next) := by
  have hnew : (m.link c u modes).channelUsers m.next = ⟨some u, some c, modes.set 0 NUL⟩ :=
    Function.update_self _ _ _
  apply remove_eq
  · rw [hnew]
  · rw [hnew]
  · simp [Members.link]
  · simp [Members.link]

/-- The structs in the tables are not the one that is created next. -/
theorem Edges.sameMembership (H : Edges C U m L) (c u : Nat) (modes : List Byte) :
    SameMembership m ((m.link c u modes).unlink c u m.next) := by
  have hold : ∀ x ∈ L, (m.link c u modes).channelUsers x = m.channelUsers x := fun x hx =>
    Function.update_of_ne (Nat.ne_of_lt (H.lt x hx)) _ _
  rw [unlink_link]
  exact ⟨rfl, rfl, fun c x hx => hold x (H.channels.mem_iff.mp hx).1,
    fun u x hx => hold x (H.users.mem_iff.mp hx).1⟩

/-- **Leaving undoes joining**: after any sequence of calls, a user who joins a channel and leaves
it leaves all tables as they were, and joining a channel once more changes nothing. -/
theorem getOrCreate_remove {m : Members} (hrun : membership.Run tr m) (c u : Nat)
    (modes : List Byte) :
    (¬ m.Joined c u → ∃ m₁ x m₂, chircChanneluserGetOrCreate m c u modes = (m₁, true, x) ∧
      chircChanneluserGet m₁ c u = some x ∧ chircChanneluserRemove m₁ x = some m₂ ∧
      SameMembership m m₂) ∧
    (m.Joined c u → ∃ x, chircChanneluserGet m c u = some x ∧
      chircChanneluserGetOrCreate m c u modes = (m, false, x)) := by
  obtain ⟨C, U, hcalls⟩ := Run.exists_callsOn hrun
  have H := Run.edges hrun hcalls
  constructor
  · intro hout
    have hnone := findInChannel_eq_none_iff.mpr hout
    have hnew : chircChanneluserGet (m.link c u modes) c u = some m.next := by
      simp [chircChanneluserGet, Members.findInChannel, Members.link]
    exact ⟨_, _, _, getOrCreate_none hnone modes, hnew, link_remove m c u modes,
      H.sameMembership c u modes⟩
  · intro hin
    cases hfind : m.findInChannel c u with
    | none => exact absurd hin (findInChannel_eq_none_iff.mp hfind)
    | some x => exact ⟨x, hfind, getOrCreate_some hfind modes⟩

/-- User 7 is in channel 1 and not in channel 2. -/
theorem getOrCreate_remove_joined : ∃ tr m, membership.Run tr m ∧
    (∃ m₁ x m₂, chircChanneluserGetOrCreate m 2 7 noModesYet = (m₁, true, x) ∧
      chircChanneluserGet m₁ 2 7 = some x ∧ chircChanneluserRemove m₁ x = some m₂ ∧
      SameMembership m m₂) ∧
    ∃ x, chircChanneluserGet m 1 7 = some x ∧
      chircChanneluserGetOrCreate m 1 7 noModesYet = (m, false, x) := by
  have hrun : membership.Run [(noMembers, .getOrCreate 1 7 noModesYet)]
      (noMembers.link 1 7 noModesYet) := .cons (.nil ⟨fun _ => rfl, fun _ => rfl⟩) rfl
  have hin : (noMembers.link 1 7 noModesYet).Joined 1 7 := ⟨0, by simp [Members.link, noMembers]⟩
  have hout : ¬ (noMembers.link 1 7 noModesYet).Joined 2 7 := by
    intro h
    obtain ⟨x, hx, -⟩ := h
    cases hx
  exact ⟨_, _, hrun, (getOrCreate_remove hrun 2 7 noModesYet).1 hout,
    (getOrCreate_remove hrun 1 7 noModesYet).2 hin⟩

end Chirc
