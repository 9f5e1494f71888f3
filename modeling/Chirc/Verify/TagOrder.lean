import Chirc.Verify.Mirror

/-! # The order of the nodes of a descriptor

A connection that registers again gets another node in `sockfd_nick_hash`, and a lookup finds the
node that stands first. That is the one added last until the buckets are expanded: an expansion
turns the order of the nodes of every descriptor around. Their names are distinct, so that a lookup
tells the order of two nodes. -/

namespace Chirc

open TransitionSystem Uthash

/-- The nodes of a descriptor in the order in which a lookup meets them -/
def nodesOf (h : SockfdNickHash) (fd : Nat) : List SockfdNickMap := h.items.filter (·.fd == fd)

theorem findSockfdNickMapNode_eq : findSockfdNickMapNode h fd = (nodesOf h fd).head? :=
  List.head?_filter.symm

theorem nodesOf_add_self : nodesOf (addSockfdNickMapNode h ⟨fd, nick⟩) fd =
    if h.Expands SockfdNickMap.hashv ⟨fd, nick⟩ then (⟨fd, nick⟩ :: nodesOf h fd).reverse
    else ⟨fd, nick⟩ :: nodesOf h fd := by
  rw [nodesOf, addSockfdNickMapNode, Chained.filter_add,
    List.filter_cons_of_pos (by simp)]
  rfl

theorem nodesOf_add_of_ne (hne : fd' ≠ fd) : nodesOf (addSockfdNickMapNode h ⟨fd', nick⟩) fd =
    if h.Expands SockfdNickMap.hashv ⟨fd', nick⟩ then (nodesOf h fd).reverse else nodesOf h fd := by
  rw [nodesOf, addSockfdNickMapNode, Chained.filter_add,
    List.filter_cons_of_neg (by simpa using hne)]
  rfl

theorem nodesOf_del_of_ne (hne : fd' ≠ fd) :
    nodesOf (delSockfdNickMapNode h (findSockfdNickMapNode h fd')) fd = nodesOf h fd := by
  cases hfind : findSockfdNickMapNode h fd' with
  | none => rfl
  | some node =>
    have hfd : node.fd = fd' := by simpa using List.find?_some hfind
    exact Chained.filter_del_of_neg (by simpa [hfd] using hne)

/-! ## Names -/

/-- The nodes of `sockfd_nick_hash` have different names, which are in `connection_hash`. -/
structure TagNames (srv : Server) : Prop where
  distinct : (srv.sockfdNickHash.items.map (·.name)).Nodup
  known : ∀ node ∈ srv.sockfdNickHash.items,
    node.name ∈ (bindings srv.connectionHash).map Prod.fst

theorem TagNames.sublist (H : TagNames srv)
    (hbound : bindings srv'.connectionHash = bindings srv.connectionHash)
    (htags : srv'.sockfdNickHash.items.Sublist srv.sockfdNickHash.items) : TagNames srv' :=
  ⟨(htags.map _).nodup H.distinct, fun node hnode => hbound ▸ H.known node (htags.subset hnode)⟩

/-- The name of a new node is not in `connection_hash` yet. -/
theorem TagNames.add (H : TagNames srv)
    (hfresh : nick ∉ (bindings srv.connectionHash).map Prod.fst)
    (hbound : bindings srv'.connectionHash = (nick, fd) :: bindings srv.connectionHash)
    (htags : srv'.sockfdNickHash = addSockfdNickMapNode srv.sockfdNickHash ⟨fd, nick⟩) :
    TagNames srv' := by
  have hperm : srv'.sockfdNickHash.items.Perm (⟨fd, nick⟩ :: srv.sockfdNickHash.items) :=
    htags ▸ Chained.perm_add
  refine ⟨?_, fun node hnode => ?_⟩
  · rw [(hperm.map _).nodup_iff, List.map_cons, List.nodup_cons]
    refine ⟨fun hmem => ?_, H.distinct⟩
    obtain ⟨node, hnode, rfl⟩ := List.mem_map.mp hmem
    exact hfresh (H.known node hnode)
  · rw [hbound, List.map_cons]
    rcases List.mem_cons.mp (hperm.mem_iff.mp hnode) with rfl | hold
    · exact List.mem_cons_self
    · exact List.mem_cons_of_mem _ (H.known node hold)

theorem Run.tagNames {σ : Sys} (hrun : Run ctx tr σ) : TagNames σ.server := by
  refine TransitionSystem.Run.invariant (P := fun _ σ => TagNames σ.server) ?_ ?_ hrun
  · rintro _ rfl
    exact ⟨.nil, fun node hnode => by cases hnode⟩
  · intro tr σ l σ' hrun H hstep
    obtain ⟨b, hb⟩ := Run.represents hrun
    cases (step_cases hstep).move hb tr with
    | quiet hcloses hreg hconns hbound htags => exact H.sublist hbound (htags ▸ List.Sublist.refl _)
    | accept fd hcloses hreg hfree hconns hbound htags =>
      exact H.sublist hbound (htags ▸ List.Sublist.refl _)
    | register fd nick hcloses hreg hname hconns hfresh hbound htags =>
      exact H.add hfresh hbound htags
    | close fd hcloses hreg hconns hbound htags =>
      refine H.sublist hbound ?_
      rcases htags with ⟨-, htags⟩ | ⟨-, htags⟩
      · exact htags ▸ List.Sublist.refl _
      · exact htags ▸ delSockfdNickMapNode_sublist

theorem TagNames.nodup_nodesOf (H : TagNames srv) :
    ((nodesOf srv.sockfdNickHash fd).map (·.name)).Nodup :=
  (List.filter_sublist.map _).nodup H.distinct

/-- Turning the nodes of a descriptor around changes what is found, unless there is only one. -/
theorem TagNames.reverse_iff (H : TagNames srv) :
    (nodesOf srv.sockfdNickHash fd).reverse.head?.map (·.name) =
      (findSockfdNickMapNode srv.sockfdNickHash fd).map (·.name) ↔
      (nodesOf srv.sockfdNickHash fd).length ≤ 1 := by
  rw [List.head?_reverse, findSockfdNickMapNode_eq, map_getLast?_eq_iff H.nodup_nodesOf]

/-- The node that a registration adds is the one that is found for its descriptor exactly if no
older one comes before it. -/
theorem TagNames.findsNewest_iff (H : TagNames srv)
    (hfresh : nick ∉ (bindings srv.connectionHash).map Prod.fst) :
    findSockfdNickMapNode (addSockfdNickMapNode srv.sockfdNickHash ⟨fd, nick⟩) fd =
      some ⟨fd, nick⟩ ↔ FindsNewest srv fd nick := by
  rw [findSockfdNickMapNode_eq, nodesOf_add_self, FindsNewest, findSockfdNickMapNode_eq]
  split
  · next h =>
    rw [List.head?_reverse, iff_true_intro h, not_true, false_or]
    cases hnodes : nodesOf srv.sockfdNickHash fd with
    | nil => simp
    | cons node nodes =>
      refine iff_of_false (fun hlast => ?_) (by simp)
      have hmem : ⟨fd, nick⟩ ∈ node :: nodes := by
        rw [List.getLast?_cons_cons] at hlast
        exact List.mem_of_getLast? hlast
      rw [← hnodes] at hmem
      exact hfresh (H.known _ (List.mem_of_mem_filter hmem))
  · next h => exact iff_of_true rfl (.inl h)

/-! ## Order -/

/-- The step expands the buckets of `sockfd_nick_hash`. -/
def Label.Expands (σ : Sys) (l : Label) : Prop :=
  ∃ nick ∈ l.registersAs σ, ∃ fd ∈ l.registersOn σ,
    σ.server.sockfdNickHash.Expands SockfdNickMap.hashv ⟨fd, nick⟩

instance : Decidable (Label.Expands σ l) :=
  inferInstanceAs (Decidable (∃ nick ∈ l.registersAs σ, ∃ fd ∈ l.registersOn σ, _))

theorem Label.not_expands_of_silent {l : Label} {σ : Sys} (h : l.registersOn σ = none) :
    ¬ l.Expands σ := by
  intro hexpands
  obtain ⟨nick, -, fd, hfd, -⟩ := hexpands
  rw [h] at hfd
  cases hfd

theorem Label.expands_iff {l : Label} {σ : Sys} (hfd : l.registersOn σ = some fd)
    (hnick : l.registersAs σ = some nick) :
    l.Expands σ ↔ σ.server.sockfdNickHash.Expands SockfdNickMap.hashv ⟨fd, nick⟩ := by
  simp [Expands, hfd, hnick]

/-- The newest node of connection `c` stands in front of the older ones of its descriptor: since it
was added, that addition included, the buckets have been expanded an even number of times. -/
def newestFirst : History → Nat → Bool
  | [], _ => true
  | (σ, l) :: tr, c =>
    let first := newestFirst tr c || (l.registersOn σ).bind σ.connOn = some c
    if l.Expands σ then !first else first

/-- What stands first, or last, of the nodes for the descriptor of a registered connection has its
nick. -/
def TagsOrdered (tr : History) (σ : Sys) : Prop :=
  ∀ fd c nick, σ.connOn fd = some c → registered tr c = some nick →
    (if newestFirst tr c then (nodesOf σ.server.sockfdNickHash fd).head?
      else (nodesOf σ.server.sockfdNickHash fd).getLast?) = some ⟨fd, nick⟩

theorem newestFirst_silent (h : l.registersOn σ = none) :
    newestFirst ((σ, l) :: tr) c = newestFirst tr c := by
  simp [newestFirst, h, Label.not_expands_of_silent h]

/-- The connection that registers has its new node in front, unless the order is turned around. -/
theorem newestFirst_self (hfd : l.registersOn σ = some fd) (hc : σ.connOn fd = some c) :
    newestFirst ((σ, l) :: tr) c = !l.Expands σ := by
  by_cases h : l.Expands σ
  · simp [newestFirst, hfd, hc, h]
  · simp [newestFirst, hfd, hc, h]

theorem newestFirst_other (hfd : l.registersOn σ = some fd) (hc : σ.connOn fd ≠ some c) :
    newestFirst ((σ, l) :: tr) c =
      if l.Expands σ then !newestFirst tr c else newestFirst tr c := by
  simp [newestFirst, hfd, hc]

theorem tagsOrdered_step {σ σ' : Sys} (hrun : Run ctx tr σ) (H : TagsOrdered tr σ)
    (hstep : (chirc ctx).step σ l σ') : TagsOrdered ((σ, l) :: tr) σ' := by
  obtain ⟨b, hb⟩ := hrun.represents
  intro fd c nick hc hnick
  cases (step_cases hstep).move hb tr with
  | quiet hcloses hreg hconns hbound htags hcount hregd =>
    rw [hregd] at hnick
    rw [Sys.connOn_congr hconns] at hc
    rw [newestFirst_silent hreg, htags]
    exact H fd c nick hc hnick
  | accept fd' hcloses hreg hfree hconns hbound htags hcount hregd =>
    rw [hregd] at hnick
    rw [newestFirst_silent hreg, htags]
    by_cases hfd : fd = fd'
    · subst hfd
      cases hc.symm.trans (Sys.connOn_accept_self hconns)
      rw [hrun.registered_next] at hnick
      cases hnick
    · rw [Sys.connOn_accept_ne hconns hfd] at hc
      exact H fd c nick hc hnick
  | register fd' nick' hcloses hreg hname hconns hfresh hbound htags hcount hregd hothers =>
    rw [Sys.connOn_congr hconns] at hc
    rw [htags]
    by_cases hfd : fd' = fd
    · subst hfd
      cases hnick.symm.trans (hregd c hc)
      rw [newestFirst_self hreg hc, nodesOf_add_self]
      by_cases h : l.Expands σ
      · rw [if_pos ((Label.expands_iff hreg hname).mp h), if_neg (by simpa using h),
          List.getLast?_reverse, List.head?_cons]
      · rw [if_neg fun h' => h ((Label.expands_iff hreg hname).mpr h'), if_pos (by simpa using h),
          List.head?_cons]
    · have hother : σ.connOn fd' ≠ some c := fun h => hfd (hrun.wf.unique h hc)
      rw [hothers c hother] at hnick
      have hold := H fd c nick hc hnick
      rw [newestFirst_other hreg hother, nodesOf_add_of_ne hfd]
      by_cases h : l.Expands σ
      · rw [if_pos ((Label.expands_iff hreg hname).mp h), if_pos h, List.head?_reverse,
          List.getLast?_reverse, ← hold]
        cases newestFirst tr c <;> rfl
      · rw [if_neg fun h' => h ((Label.expands_iff hreg hname).mpr h'), if_neg h]
        exact hold
  | close fd' hcloses hreg hconns hbound htags hcount hregd =>
    rw [hregd] at hnick
    rw [Sys.connOn_congr hconns] at hc
    have hfd : fd ≠ fd' := by
      rintro rfl
      rw [Sys.connOn_close_self] at hc
      cases hc
    rw [Sys.connOn_close_ne σ hfd] at hc
    rw [newestFirst_silent hreg]
    rcases htags with ⟨-, htags⟩ | ⟨-, htags⟩
    · rw [htags]
      exact H fd c nick hc hnick
    · rw [htags, nodesOf_del_of_ne hfd.symm]
      exact H fd c nick hc hnick

theorem Run.tagsOrdered {σ : Sys} (hrun : Run ctx tr σ) : TagsOrdered tr σ := by
  refine TransitionSystem.Run.invariant ?_ tagsOrdered_step hrun
  rintro _ rfl
  exact nofun

/-- A registered connection is found under its nick exactly if its newest node stands in front, or
is the only one of its descriptor. -/
theorem Run.findSockfdNickMapNode_iff {σ : Sys} (hrun : Run ctx tr σ) (hc : σ.connOn fd = some c)
    (hnick : registered tr c = some nick) :
    (findSockfdNickMapNode σ.server.sockfdNickHash fd).map (·.name) = some nick ↔
      newestFirst tr c = true ∨ (nodesOf σ.server.sockfdNickHash fd).length ≤ 1 := by
  have hordered := hrun.tagsOrdered fd c nick hc hnick
  rw [findSockfdNickMapNode_eq, ← map_getLast?_eq_iff hrun.tagNames.nodup_nodesOf]
  split at hordered
  · next h =>
    rw [hordered]
    exact iff_of_true rfl (.inl h)
  · next h =>
    rw [hordered]
    constructor
    · intro hfound
      exact .inr hfound.symm
    · intro hor
      exact (hor.resolve_left h).symm

end Chirc
