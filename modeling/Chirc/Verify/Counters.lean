import Chirc.Verify.Mirror

/-! # The numbers of connections

`connection_count` goes up with each `accept` and down with each of the three ways to end a
connection, of which QUIT does not end the thread: its next `read` fails and takes the connection
off again. The number of unknown connections that LUSERS announces is what `connection_hash` leaves
of this count, and the number of users is the size of that table. -/

namespace Chirc

open TransitionSystem Holders

/-! ## `connection_count` -/

/-- `connection_count` is the number of connections accepted and not yet closed. -/
def Counted (_ : History) (σ : Sys) : Prop := σ.server.connectionCount = σ.conns.length

/-- The step closes no descriptor that is closed already. -/
def ClosesOpen (_ : History) (σ : Sys) (l : Label) : Prop := ∀ fd ∈ l.closes, σ.connOn fd ≠ none

instance : Decidable (Counted tr σ) := inferInstanceAs (Decidable (_ = _))

instance : Decidable (ClosesOpen tr σ l) := inferInstanceAs (Decidable (∀ fd ∈ l.closes, _))

theorem counted_step {σ σ' : Sys} (hrun : Run ctx tr σ) (H : Counted tr σ)
    (hstep : (chirc ctx).step σ l σ') : Counted ((σ, l) :: tr) σ' ↔ ClosesOpen tr σ l := by
  obtain ⟨b, hb⟩ := hrun.represents
  rw [Counted] at H ⊢
  cases (step_cases hstep).move hb tr with
  | quiet hcloses hreg hconns hbound htags hcount hregd =>
    rw [hconns, hcount, H]
    simp [ClosesOpen, hcloses]
  | accept fd hcloses hreg hfree hconns hbound htags hcount hregd =>
    rw [hconns, hcount, H]
    simp [ClosesOpen, hcloses]
  | register fd nick hcloses hreg hname hconns hfresh hbound htags hcount hregd hothers =>
    rw [hconns, hcount, H]
    simp [ClosesOpen, hcloses]
  | close fd hcloses hreg hconns hbound htags hcount hregd =>
    rw [hconns, hcount, H]
    simp only [ClosesOpen, hcloses, Option.mem_some_iff, forall_eq']
    cases hfd : σ.connOn fd with
    | none =>
      rw [Sys.close_conns_of_none hfd]
      exact iff_of_false (by omega) (by simp)
    | some c =>
      have := (hrun.wf.perm_close hfd).length_eq
      simp only [List.length_cons] at this
      simp [this]

/-- **`connection_count` is right in every state of a run** exactly if no step of the run closes a
descriptor that is closed already. -/
theorem counted_iff {σ : Sys} (hrun : Run ctx tr σ) :
    AllStates Counted tr σ ↔ AllSteps ClosesOpen tr := by
  refine Run.allStates_iff_allSteps ?_ (fun hrun _ => counted_step hrun) hrun
  rintro _ rfl
  rfl

theorem counted_registerAmy : ∃ tr σ, play plainServer (registerAmy ++ [.eof 0]) = .ok (tr, σ) ∧
    AllStates Counted tr σ := by
  obtain ⟨tr, σ, hplay, hrun, h⟩ := run_of_playsTo plainServer (registerAmy ++ [.eof 0])
    (fun tr _ => AllSteps ClosesOpen tr) (by decide +kernel)
  exact ⟨tr, σ, hplay, (counted_iff hrun).mpr (of_decide_eq_true h)⟩

/-- A client quits, and the next `read` on the closed descriptor fails. -/
def quitAndRead : List Event := [.accept 4, .recv 0 (lit "QUIT\r\n"), .line 0, .rerr 0]

/-- One connection was counted once and taken off twice. -/
theorem counted_quitAndRead :
    ∃ tr σ, play plainServer quitAndRead = .ok (tr, σ) ∧ ¬ Counted tr σ := by
  obtain ⟨tr, σ, hplay, -, h⟩ := run_of_playsTo plainServer quitAndRead
    (fun tr σ => ¬ Counted tr σ) (by decide +kernel)
  exact ⟨tr, σ, hplay, of_decide_eq_true h⟩

/-! ## The numbers that LUSERS announces -/

/-- The number of open connections that are registered. -/
def Sys.openRegistered (σ : Sys) (tr : History) : Nat :=
  σ.conns.countP fun c => (registered tr c.id).isSome

/-- The number of open connections that are not registered. -/
def Sys.openUnknown (σ : Sys) (tr : History) : Nat :=
  σ.conns.countP fun c => (registered tr c.id).isNone

/-- The numbers of users and of unknown connections that `response_LUSERS` announces in the state
are those of the open connections that are registered and that are not. -/
structure LusersRight (tr : History) (σ : Sys) : Prop where
  users : σ.server.lusersUsers = σ.openRegistered tr
  unknown : σ.server.lusersUnknown = σ.openUnknown tr

/-- The step keeps `connection_count` and `connection_hash` right. -/
def KeepsLusers (tr : History) (σ : Sys) (l : Label) : Prop :=
  ClosesOpen tr σ l ∧ KeepsConnections tr σ l

instance : Decidable (KeepsLusers tr σ l) := inferInstanceAs (Decidable (_ ∧ _))

theorem Sys.openRegistered_add_openUnknown (σ : Sys) (tr : History) :
    σ.openRegistered tr + σ.openUnknown tr = σ.conns.length := by
  rw [List.length_eq_countP_add_countP fun c => (registered tr c.id).isSome, openRegistered,
    openUnknown]
  congr 2
  funext c
  cases registered tr c.id <;> rfl

theorem lusersRight_iff {σ : Sys} : LusersRight tr σ ↔
    Counted tr σ ∧ σ.server.connectionHash.length = σ.openRegistered tr := by
  have hsum := σ.openRegistered_add_openUnknown tr
  rw [Counted]
  constructor
  · rintro ⟨husers, hunknown⟩
    rw [Server.lusersUsers, getConnectionMapNodeSize] at husers
    rw [Server.lusersUnknown, getConnectionMapNodeSize] at hunknown
    omega
  · rintro ⟨hcount, hsize⟩
    refine ⟨?_, ?_⟩
    · rw [Server.lusersUsers, getConnectionMapNodeSize, hsize]
    · rw [Server.lusersUnknown, getConnectionMapNodeSize, hcount]
      omega

/-- A table that mirrors the connections has one node for each that is registered. -/
theorem ConnectionsMirrored.size_eq {σ : Sys} (hwf : σ.Wf) (hb : Represents σ.server b)
    (H : ConnectionsMirrored tr σ) :
    σ.server.connectionHash.length = σ.openRegistered tr := by
  have hlen := (hb.mirrored_iff.mp H).length_eq (hb.bound ▸ b.bound_nodup) hwf.fds fun fd hfd =>
    not_not.mp fun h => hfd (Sys.connOn_eq_none.mpr h)
  rw [length_bindings] at hlen
  rw [hlen, List.countP_map, Sys.openRegistered]
  refine List.countP_congr fun c hc => ?_
  simp [hwf.connOn_iff.mpr hc]

/-- If the size of the table is right after a step, the table is a mirror still. -/
theorem keepsConnections_of_size_eq {σ σ' : Sys} (hrun : Run ctx tr σ)
    (H : ConnectionsMirrored tr σ) (hstep : (chirc ctx).step σ l σ')
    (hsize : σ'.server.connectionHash.length = σ'.openRegistered ((σ, l) :: tr)) :
    KeepsConnections tr σ l := by
  obtain ⟨b, hb⟩ := hrun.represents
  have hold := H.size_eq hrun.wf hb
  have hbound {fd} (h : σ.server.Bound fd) :
      ∃ c, σ.connOn fd = some c ∧ (registered tr c).isSome := by
    obtain ⟨node, hnode, rfl⟩ := h
    obtain ⟨c, hc, hn⟩ := (hb.mirrored_iff.mp H node.name node.fd).mp (List.mem_map_of_mem hnode)
    exact ⟨c, hc, by simp [hn]⟩
  rw [← length_bindings] at hold hsize
  cases (step_cases hstep).move hb tr with
  | quiet hcloses hreg => simp [KeepsConnections, hcloses, hreg]
  | accept fd hcloses hreg => simp [KeepsConnections, hcloses, hreg]
  | register fd nick hcloses hreg hname hconns hfresh hnew htags hcount hregd hothers =>
    -- otherwise the table has grown, and no further open connection is registered
    have hgrown : σ'.openRegistered ((σ, l) :: tr) ≠ σ.openRegistered tr := by
      rw [← hsize, ← hold, hnew, List.length_cons]
      exact Nat.succ_ne_self _
    simp only [KeepsConnections, hcloses, hreg, Option.mem_some_iff, forall_eq',
      Option.not_mem_none, IsEmpty.forall_iff, implies_true, true_and]
    by_contra hnot
    refine hgrown ?_
    rw [Sys.openRegistered, Sys.openRegistered, hconns]
    refine List.countP_congr fun d hd => ?_
    have hon := hrun.wf.connOn_iff.mpr hd
    by_cases hfd : σ.connOn fd = some d.id
    · rw [hregd _ hfd]
      have hb : σ.server.Bound fd := by
        by_contra h
        exact hnot ⟨by simp [hfd], h⟩
      obtain ⟨c, hc, hsome⟩ := hbound hb
      obtain rfl : d.id = c := Option.some.inj (hfd.symm.trans hc)
      simp [hsome]
    · rw [hothers _ hfd]
  | close fd hcloses hreg hconns hsame htags hcount hregd =>
    simp only [KeepsConnections, hcloses, hreg, Option.mem_some_iff, forall_eq',
      Option.not_mem_none, IsEmpty.forall_iff, implies_true, and_true]
    intro h
    -- the table is as large as before, and one registered connection is gone
    obtain ⟨c, hc, hsome⟩ := hbound h
    have hgone : σ.openRegistered tr = σ'.openRegistered ((σ, l) :: tr) + 1 := by
      rw [Sys.openRegistered, Sys.openRegistered, hconns, funext hregd,
        (hrun.wf.perm_close hc).countP_eq, List.countP_cons_of_pos]
      exact hsome
    rw [hsame, hold, hgone] at hsize
    exact Nat.succ_ne_self _ hsize

theorem Run.mirrored_of_allSteps {σ : Sys} (hrun : Run ctx tr σ)
    (hkeeps : AllSteps KeepsConnections tr) : ConnectionsMirrored tr σ := by
  refine ((Run.allStates_iff_allSteps ?_ (fun hrun _ => connectionsMirrored_step hrun) hrun).mpr
    hkeeps).last
  rintro _ rfl
  exact ⟨by simp [Sys.init, Server.init, findConnectionMapNode, Sys.connOn], .nil, .nil⟩

theorem lusersRight_step {σ σ' : Sys} (hrun : Run ctx tr σ) (hkeeps : AllSteps KeepsLusers tr)
    (H : LusersRight tr σ) (hstep : (chirc ctx).step σ l σ') :
    LusersRight ((σ, l) :: tr) σ' ↔ KeepsLusers tr σ l := by
  have hcounted := counted_step hrun (lusersRight_iff.mp H).1 hstep
  have hmirror := Run.mirrored_of_allSteps hrun (hkeeps.mono fun _ _ _ h => h.2)
  have hrun' : Run ctx ((σ, l) :: tr) σ' := hrun.cons hstep
  obtain ⟨b, hb⟩ := hrun'.represents
  rw [lusersRight_iff, hcounted, KeepsLusers]
  refine and_congr_right fun _ => ⟨keepsConnections_of_size_eq hrun hmirror hstep, fun h => ?_⟩
  exact ((connectionsMirrored_step hrun hmirror hstep).mpr h).size_eq hrun'.wf hb

/-- What `response_LUSERS` writes where its numbers are right. It may run on its own or at the end
of a registration, and reads only the table and the counter. -/
theorem LusersRight.replies {σ : Sys} (H : LusersRight tr σ)
    (hhash : w.srv.connectionHash = σ.server.connectionHash)
    (hcount : w.srv.connectionCount = σ.server.connectionCount)
    (h : responseLusers ctx nick w = .ok w') :
    w'.out = w.out ++ lusersReplies ctx nick (σ.openRegistered tr) (σ.openUnknown tr)
      (getSockfdNickMapNodeSize σ.server.connectionHash) := by
  obtain ⟨-, rfl⟩ := responseLusers_eq_ok.mp h
  rw [Work.send_out, Server.lusers_congr (congrArg _ hhash) hcount, Server.lusers, H.users,
    H.unknown]

/-- **The numbers that LUSERS announces are right in every state of a run** exactly if each of its
steps keeps `connection_count` and `connection_hash` right. -/
theorem lusersRight_iff_allSteps {σ : Sys} (hrun : Run ctx tr σ) :
    (AllStates LusersRight tr σ ↔ AllSteps KeepsLusers tr) ∧
    (AllSteps KeepsLusers tr → ∀ nick w w',
      w.srv.connectionHash = σ.server.connectionHash →
      w.srv.connectionCount = σ.server.connectionCount → responseLusers ctx nick w = .ok w' →
      w'.out = w.out ++ lusersReplies ctx nick (σ.openRegistered tr) (σ.openUnknown tr)
        (getSockfdNickMapNodeSize σ.server.connectionHash)) := by
  have hiff : AllStates LusersRight tr σ ↔ AllSteps KeepsLusers tr := by
    refine Run.allStates_iff_allSteps ?_ lusersRight_step hrun
    rintro _ rfl
    exact ⟨rfl, rfl⟩
  exact ⟨hiff, fun h _ _ _ hhash hcount => (hiff.mpr h).last.replies hhash hcount⟩

theorem lusersRight_registerAmy : ∃ tr σ, play plainServer registerAmy = .ok (tr, σ) ∧
    AllStates LusersRight tr σ := by
  obtain ⟨tr, σ, hplay, hrun, h⟩ := run_of_playsTo plainServer registerAmy
    (fun tr _ => AllSteps KeepsLusers tr) (by decide +kernel)
  exact ⟨tr, σ, hplay, (lusersRight_iff_allSteps hrun).1.mpr (of_decide_eq_true h)⟩

/-- Two clients register and disconnect, and a third one asks. -/
def lusersAfterTwo : List Event :=
  registerAmy ++ [.eof 0, .accept 4, .recv 1 (lit "NICK bob\r\nUSER bob * * :Bob\r\n"), .line 1,
    .line 1, .eof 1, .accept 4, .recv 2 (lit "LUSERS\r\n"), .line 2]

/-- No connection is registered and one is unknown; the reply is that they are 2 and -1. -/
theorem lusersRight_afterTwo :
    ∃ tr σ, play plainServer lusersAfterTwo = .ok (tr, σ) ∧ ¬ LusersRight tr σ ∧
      tr.head?.map (·.2.sentTo 2) = some (lusersReplies plainServer (lit "") 2 (-1) 1) := by
  obtain ⟨tr, σ, hplay, -, h⟩ := run_of_playsTo plainServer lusersAfterTwo
    (fun tr σ => σ.server.lusersUsers = 2 ∧ σ.openRegistered tr = 0 ∧
      tr.head?.map (·.2.sentTo 2) = some (lusersReplies plainServer (lit "") 2 (-1) 1))
    (by decide +kernel)
  obtain ⟨husers, hopen, hreplies⟩ := of_decide_eq_true h
  refine ⟨tr, σ, hplay, fun H => ?_, hreplies⟩
  have := H.users
  omega

end Chirc
