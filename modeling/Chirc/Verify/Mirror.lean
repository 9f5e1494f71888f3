import Chirc.Verify.History
import Chirc.Theory.Holders

/-! # The tables and the connections

`connection_hash` and `sockfd_nick_hash` are meant to say which connections are registered. The
code adds to both when a connection registers, but `connection_hash` never shrinks, and
`sockfd_nick_hash` shrinks when a `read` fails and not when a client quits. Each of the two tables
is right along a run exactly if no step of the run needs a deletion that the code does not make,
and no registration finds its descriptor closed or in use. -/

namespace Chirc

open TransitionSystem Holders

/-- `connection_hash` has a node for the descriptor. -/
def Server.Bound (srv : Server) (fd : Nat) : Prop := ∃ node ∈ srv.connectionHash, node.fd = fd

/-- `sockfd_nick_hash` has a node for the descriptor. -/
def Server.Tagged (srv : Server) (fd : Nat) : Prop :=
  ∃ node ∈ srv.sockfdNickHash.items, node.fd = fd

instance : Decidable (Server.Bound srv fd) := inferInstanceAs (Decidable (∃ node ∈ _, _))

instance : Decidable (Server.Tagged srv fd) := inferInstanceAs (Decidable (∃ node ∈ _, _))

/-! ## `connection_hash` -/

/-- `connection_hash` lists the open registered connections: it maps a nick to a descriptor exactly
if the connection open there is registered under the nick. -/
structure ConnectionsMirrored (tr : History) (σ : Sys) : Prop where
  iff : ∀ nick fd, (∃ node, findConnectionMapNode σ.server.connectionHash nick = some node ∧
    node.fd = fd) ↔ ∃ c, σ.connOn fd = some c ∧ registered tr c = some nick
  names : (σ.server.connectionHash.map (·.name)).Nodup
  fds : (σ.server.connectionHash.map (·.fd)).Nodup

/-- The step closes no descriptor that `connection_hash` has a node for, and registers only an open
one that it has no node for. -/
def KeepsConnections (_ : History) (σ : Sys) (l : Label) : Prop :=
  (∀ fd ∈ l.closes, ¬ σ.server.Bound fd) ∧
  (∀ fd ∈ l.registersOn σ, σ.connOn fd ≠ none ∧ ¬ σ.server.Bound fd)

instance : Decidable (KeepsConnections tr σ l) := inferInstanceAs (Decidable (_ ∧ _))

theorem bound_iff {srv : Server} :
    srv.Bound fd ↔ fd ∈ (bindings srv.connectionHash).map Prod.snd := by
  simp [Server.Bound, bindings]

/-- As no two nodes have the same name, what is said about lookups is said about entries. -/
theorem Represents.mirrored_iff {σ : Sys} (hb : Represents σ.server b) :
    ConnectionsMirrored tr σ ↔
      Mirrors (bindings σ.server.connectionHash) σ.connOn (registered tr) := by
  have hnames : ((bindings σ.server.connectionHash).map Prod.fst).Nodup := hb.bound ▸ b.bound_nodup
  constructor
  · intro H nick fd
    rw [← found_iff_mem_bindings hnames]
    exact H.iff nick fd
  · intro H
    refine ⟨fun nick fd => (found_iff_mem_bindings hnames).trans (H nick fd), ?_, ?_⟩
    · exact map_fst_bindings ▸ hnames
    · exact map_snd_bindings ▸ H.nodup_keys hnames

theorem connectionsMirrored_step {σ σ' : Sys} (hrun : Run ctx tr σ)
    (H : ConnectionsMirrored tr σ) (hstep : (chirc ctx).step σ l σ') :
    ConnectionsMirrored ((σ, l) :: tr) σ' ↔ KeepsConnections tr σ l := by
  obtain ⟨b, hb⟩ := hrun.represents
  obtain ⟨b', hb'⟩ := (step_cases hstep).represents hb
  rw [hb.mirrored_iff] at H
  rw [hb'.mirrored_iff]
  cases (step_cases hstep).move hb tr with
  | quiet hcloses hreg hconns hbound htags hcount hregd =>
    rw [hbound, Sys.connOn_congr hconns, funext hregd]
    simp [KeepsConnections, hcloses, hreg, H]
  | accept fd hcloses hreg hfree hconns hbound htags hcount hregd =>
    rw [hbound, funext hregd]
    have : Mirrors (bindings σ.server.connectionHash) σ'.connOn (registered tr) :=
      H.acquire hfree (Sys.connOn_accept_self hconns) (fun _ => Sys.connOn_accept_ne hconns)
        hrun.registered_next
    simp [KeepsConnections, hcloses, hreg, this]
  | register fd nick hcloses hreg hname hconns hfresh hbound htags hcount hregd hothers =>
    rw [hbound, Sys.connOn_congr hconns, H.enter_iff hrun.wf.unique hregd hothers hfresh]
    simp [KeepsConnections, hcloses, hreg, bound_iff]
  | close fd hcloses hreg hconns hbound htags hcount hregd =>
    rw [hbound, Sys.connOn_congr hconns, funext hregd,
      H.release_iff (Sys.connOn_close_self σ) fun j hj => Sys.connOn_close_ne σ hj]
    simp [KeepsConnections, hcloses, hreg, bound_iff]

/-- **`connection_hash` lists the open registered connections in every state of a run** exactly if
no step of the run closes a descriptor that it has a node for, or registers one that is closed or
has a node already. -/
theorem connectionsMirrored_iff {σ : Sys} (hrun : Run ctx tr σ) :
    AllStates ConnectionsMirrored tr σ ↔ AllSteps KeepsConnections tr := by
  refine Run.allStates_iff_allSteps ?_ (fun hrun _ => connectionsMirrored_step hrun) hrun
  rintro _ rfl
  exact ⟨by simp [Sys.init, Server.init, findConnectionMapNode, Sys.connOn], .nil, .nil⟩

/-- One client registers. -/
def registerAmy : List Event :=
  [.accept 4, .recv 0 (lit "NICK amy\r\nUSER amy * * :Amy\r\n"), .line 0, .line 0]

theorem connectionsMirrored_registerAmy : ∃ tr σ, play plainServer registerAmy = .ok (tr, σ) ∧
    AllStates ConnectionsMirrored tr σ := by
  obtain ⟨tr, σ, hplay, hrun, h⟩ := run_of_playsTo plainServer registerAmy
    (fun tr _ => AllSteps KeepsConnections tr) (by decide +kernel)
  exact ⟨tr, σ, hplay, (connectionsMirrored_iff hrun).mpr (of_decide_eq_true h)⟩

/-- The client disconnects, and its node stays. -/
theorem connectionsMirrored_stale :
    ∃ tr σ, play plainServer (registerAmy ++ [.eof 0]) = .ok (tr, σ) ∧
      ¬ ConnectionsMirrored tr σ := by
  obtain ⟨tr, σ, hplay, -, h⟩ := run_of_playsTo plainServer (registerAmy ++ [.eof 0])
    (fun _ σ => findConnectionMapNode σ.server.connectionHash (lit "amy") ≠ none ∧ σ.conns = [])
    (by decide +kernel)
  obtain ⟨hfound, hconns⟩ := of_decide_eq_true h
  obtain ⟨node, hnode⟩ := Option.ne_none_iff_exists'.mp hfound
  refine ⟨tr, σ, hplay, fun H => ?_⟩
  obtain ⟨c, hc, -⟩ := (H.iff _ _).mp ⟨node, hnode, rfl⟩
  simp [Sys.connOn, hconns] at hc

/-! ## `sockfd_nick_hash` -/

/-- `sockfd_nick_hash` identifies connections: it has one node for a descriptor at most, and what it
finds is the nick under which the connection open there has itself registered. -/
structure TagsSound (tr : History) (σ : Sys) : Prop where
  unique : (σ.server.sockfdNickHash.items.map (·.fd)).Nodup
  sound : ∀ fd node, findSockfdNickMapNode σ.server.sockfdNickHash fd = some node →
    ∃ c, σ.connOn fd = some c ∧ registeredItself tr c = some node.name

/-- The step does not handle a QUIT on a descriptor that `sockfd_nick_hash` has a node for, and
registers only one that it has no node for, with a command of the connection open there. -/
def KeepsTags (tr : History) (σ : Sys) (l : Label) : Prop :=
  (∀ fd ∈ l.quits, ¬ σ.server.Tagged fd) ∧
  (∀ fd ∈ l.registersOn σ, σ.connOn fd ≠ none ∧ l.sender tr σ = σ.connOn fd ∧
    ¬ σ.server.Tagged fd)

instance : Decidable (KeepsTags tr σ l) := inferInstanceAs (Decidable (_ ∧ _))

/-- The nodes of `sockfd_nick_hash` as nicks with descriptors. -/
def tags (nodes : List SockfdNickMap) : List (CStr × Nat) :=
  nodes.map fun node => (node.name, node.fd)

theorem tags_add : (tags (addSockfdNickMapNode h ⟨fd, nick⟩).items).Perm
    ((nick, fd) :: tags h.items) :=
  Uthash.Chained.perm_add.map _

theorem map_snd_tags : (tags nodes).map Prod.snd = nodes.map (·.fd) := by
  rw [tags, List.map_map]
  rfl

theorem tagged_iff {srv : Server} :
    srv.Tagged fd ↔ fd ∈ (tags srv.sockfdNickHash.items).map Prod.snd := by
  simp [Server.Tagged, tags]

theorem tagsSound_iff {σ : Sys} : TagsSound tr σ ↔
    ((tags σ.server.sockfdNickHash.items).map Prod.snd).Nodup ∧
      Sound (tags σ.server.sockfdNickHash.items) σ.connOn (registeredItself tr) := by
  rw [map_snd_tags]
  constructor
  · rintro ⟨hunique, H⟩
    refine ⟨hunique, fun nick fd h => ?_⟩
    obtain ⟨node, hnode, heq⟩ := List.mem_map.mp h
    obtain ⟨rfl, rfl⟩ := Prod.mk.inj heq
    obtain ⟨node', hfind⟩ : ∃ node', findSockfdNickMapNode σ.server.sockfdNickHash node.fd =
        some node' := by
      rw [← Option.isSome_iff_exists, findSockfdNickMapNode, List.find?_isSome]
      exact ⟨node, hnode, by simp⟩
    have hfd : node'.fd = node.fd := by simpa using List.find?_some hfind
    have := List.inj_on_of_nodup_map hunique (List.mem_of_find?_eq_some hfind) hnode hfd
    rw [← hfd] at hfind
    exact this ▸ H _ _ hfind
  · rintro ⟨hunique, H⟩
    refine ⟨hunique, fun fd node hfind => ?_⟩
    have hfd : node.fd = fd := by simpa using List.find?_some hfind
    exact H _ _ (List.mem_map.mpr ⟨node, List.mem_of_find?_eq_some hfind, by rw [hfd]⟩)

/-- Deleting what a lookup found removes the descriptor. -/
theorem not_mem_delSockfdNickMapNode {h : SockfdNickHash} (hunique : (h.items.map (·.fd)).Nodup) :
    fd ∉ (delSockfdNickMapNode h (findSockfdNickMapNode h fd)).items.map (·.fd) := by
  cases hfind : findSockfdNickMapNode h fd with
  | none =>
    rw [findSockfdNickMapNode, List.find?_eq_none] at hfind
    simpa [delSockfdNickMapNode] using hfind
  | some node =>
    have hfd : node.fd = fd := by simpa using List.find?_some hfind
    have hperm := (List.perm_cons_erase (List.mem_of_find?_eq_some hfind)).map (·.fd)
    rw [delSockfdNickMapNode, Uthash.Chained.items_del]
    exact hfd ▸ (List.nodup_cons.mp (hperm.nodup_iff.mp hunique)).1

theorem delSockfdNickMapNode_sublist {h : SockfdNickHash} :
    (delSockfdNickMapNode h found).items.Sublist h.items := by
  cases found with
  | none => exact .refl _
  | some node =>
    rw [delSockfdNickMapNode, Uthash.Chained.items_del]
    exact List.erase_sublist

/-- Who has itself registered is in `connection_hash`. -/
theorem Run.bound_of_registeredItself {σ : Sys} (hrun : Run ctx tr σ)
    (h : registeredItself tr c = some nick) :
    nick ∈ (bindings σ.server.connectionHash).map Prod.fst := by
  refine TransitionSystem.Run.invariant (P := fun tr σ => ∀ c nick,
    registeredItself tr c = some nick → nick ∈ (bindings σ.server.connectionHash).map Prod.fst)
    ?_ ?_ hrun c nick h
  · intro _ _ c nick h
    cases h
  · intro tr σ l σ' hrun H hstep c nick hnick
    obtain ⟨b, hb⟩ := Run.represents hrun
    have hstep := step_cases hstep
    cases hstep.move hb tr with
    | quiet hcloses hreg hconns hbound =>
      rw [hbound]
      exact H c nick (hstep.registeredItself_silent hb hreg tr ▸ hnick)
    | accept fd hcloses hreg hfree hconns hbound =>
      rw [hbound]
      exact H c nick (hstep.registeredItself_silent hb hreg tr ▸ hnick)
    | register fd nick' hcloses hreg hname hconns hfresh hbound =>
      rw [hbound, List.map_cons]
      rw [hstep.registeredItself_registers hb hreg hname] at hnick
      split at hnick
      · cases hnick
        exact List.mem_cons_self
      · exact List.mem_cons_of_mem _ (H c nick hnick)
    | close fd hcloses hreg hconns hbound =>
      rw [hbound]
      exact H c nick (hstep.registeredItself_silent hb hreg tr ▸ hnick)

theorem tagsSound_step {σ σ' : Sys} (hrun : Run ctx tr σ) (H : TagsSound tr σ)
    (hstep : (chirc ctx).step σ l σ') : TagsSound ((σ, l) :: tr) σ' ↔ KeepsTags tr σ l := by
  obtain ⟨b, hb⟩ := hrun.represents
  obtain ⟨hunique, H⟩ := tagsSound_iff.mp H
  rw [tagsSound_iff]
  have hstep := step_cases hstep
  cases hstep.move hb tr with
  | quiet hcloses hreg hconns hbound htags hcount hregd =>
    rw [htags, Sys.connOn_congr hconns, hstep.registeredItself_silent hb hreg]
    simp [KeepsTags, Label.quits_of_closes hcloses, hreg, H, hunique]
  | accept fd hcloses hreg hfree hconns hbound htags hcount hregd =>
    rw [htags, hstep.registeredItself_silent hb hreg]
    have := H.acquire hfree fun _ => Sys.connOn_accept_ne hconns
    simp [KeepsTags, Label.quits_of_closes hcloses, hreg, this, hunique]
  | register fd nick hcloses hreg hname hconns hfresh hbound htags hcount hregd hothers =>
    have hcons : (tags σ'.server.sockfdNickHash.items).Perm
        ((nick, fd) :: tags σ.server.sockfdNickHash.items) := htags ▸ tags_add
    rw [(hcons.map Prod.snd).nodup_iff, sound_congr hcons, Sys.connOn_congr hconns]
    simp only [KeepsTags, Label.quits_of_closes hcloses, hreg, tagged_iff, List.map_cons,
      List.nodup_cons, Option.mem_some_iff, forall_eq', Option.not_mem_none,
      IsEmpty.forall_iff, implies_true, true_and]
    have hitself := hstep.registeredItself_registers hb hreg hname tr
    constructor
    · rintro ⟨⟨hnot, -⟩, H'⟩
      obtain ⟨c, hc, hnick⟩ := H' nick fd List.mem_cons_self
      rw [hitself] at hnick
      split at hnick
      · next hself => exact ⟨by simp [hc], hself.1.trans hc.symm, hnot⟩
      · exact absurd (hrun.bound_of_registeredItself hnick) hfresh
    · rintro ⟨hopen, hsender, hnot⟩
      refine ⟨⟨hnot, hunique⟩, H.enter hrun.wf.unique (fun c hc => ?_) (fun c hc => ?_) hopen hnot⟩
      · rw [hitself, if_pos ⟨hsender.trans hc, hc⟩]
      · rw [hitself, if_neg fun h => hc h.2]
  | close fd hcloses hreg hconns hbound htags hcount hregd =>
    have hself : (σ.close fd).connOn fd = none := Sys.connOn_close_self σ
    have hother := fun j (hj : j ≠ fd) => Sys.connOn_close_ne σ hj
    rw [Sys.connOn_congr hconns, hstep.registeredItself_silent hb hreg]
    rcases htags with ⟨hquit, htags⟩ | ⟨hquit, htags⟩
    · rw [htags, H.release_iff hself hother]
      simp [KeepsTags, hquit, hreg, tagged_iff, hunique]
    · have hdel : σ'.server.sockfdNickHash.items.Sublist σ.server.sockfdNickHash.items := by
        rw [htags]
        exact delSockfdNickMapNode_sublist
      have hnot : fd ∉ σ'.server.sockfdNickHash.items.map (·.fd) := by
        rw [htags]
        exact not_mem_delSockfdNickMapNode (map_snd_tags ▸ hunique)
      have hsub : ∀ {nick j}, (nick, j) ∈ tags σ'.server.sockfdNickHash.items →
          (nick, j) ∈ tags σ.server.sockfdNickHash.items := fun h => (hdel.map _).subset h
      have hunique' := ((hdel.map _).map Prod.snd).nodup hunique
      have H' := ((H.mono hsub).release_iff hself hother).mpr (map_snd_tags ▸ hnot)
      simpa [KeepsTags, hquit, hreg] using ⟨hunique', H'⟩

/-- **What `sockfd_nick_hash` says of a descriptor is true in every state of a run** exactly if no
step of the run handles a QUIT on a descriptor that it has a node for, or registers one that is
closed or has a node already, or for a command that the connection open there has not sent. -/
theorem tagsSound_iff_allSteps {σ : Sys} (hrun : Run ctx tr σ) :
    AllStates TagsSound tr σ ↔ AllSteps KeepsTags tr := by
  refine Run.allStates_iff_allSteps ?_ (fun hrun _ => tagsSound_step hrun) hrun
  rintro _ rfl
  exact ⟨.nil, nofun⟩

theorem tagsSound_registerAmy : ∃ tr σ, play plainServer registerAmy = .ok (tr, σ) ∧
    AllStates TagsSound tr σ := by
  obtain ⟨tr, σ, hplay, hrun, h⟩ := run_of_playsTo plainServer registerAmy
    (fun tr _ => AllSteps KeepsTags tr) (by decide +kernel)
  exact ⟨tr, σ, hplay, (tagsSound_iff_allSteps hrun).mpr (of_decide_eq_true h)⟩

/-- The client quits, and the next connection gets its descriptor. -/
def quitAndReuse : List Event :=
  registerAmy ++ [.recv 0 (lit "QUIT\r\n"), .line 0, .accept 4]

/-- The connection is new and `sockfd_nick_hash` finds a nick for it. -/
theorem tagsSound_stale :
    ∃ tr σ, play plainServer quitAndReuse = .ok (tr, σ) ∧ ¬ TagsSound tr σ := by
  obtain ⟨tr, σ, hplay, -, h⟩ := run_of_playsTo plainServer quitAndReuse
    (fun tr σ => findSockfdNickMapNode σ.server.sockfdNickHash 4 ≠ none ∧
      σ.connOn 4 = some 1 ∧ registeredItself tr 1 = none) (by decide +kernel)
  obtain ⟨hfound, hconn, hreg⟩ := of_decide_eq_true h
  obtain ⟨node, hnode⟩ := Option.ne_none_iff_exists'.mp hfound
  refine ⟨tr, σ, hplay, fun H => ?_⟩
  obtain ⟨c, hc, hname⟩ := H.sound 4 node hnode
  obtain rfl : c = 1 := Option.some.inj (hc.symm.trans hconn)
  rw [hreg] at hname
  cases hname

end Chirc
