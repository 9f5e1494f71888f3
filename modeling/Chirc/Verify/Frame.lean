import Chirc.Verify.Unknown

/-! # What a step leaves alone

Two frame conditions. A command that is answered by an error changes none of the tables, and the
error is all that is sent. A step on one descriptor does not change the descriptor of a nick that is
in `connection_hash`, and changes the nick that `sockfd_nick_hash` finds for another descriptor only
if it expands the buckets and the other one has two nodes. -/

namespace Chirc

open Rendezvous

/-! ## Errors -/

/-- The error replies other than that for a missing MOTD file. -/
def errorCodes : List CStr :=
  [errNosuchnick, errUnknowncommand, errNonicknamegiven, errNicknameinuse, errNotregistered,
    errNeedmoreparams]

theorem reply_not_error (hcode : code ∉ errorCodes) : (reply ctx nick code ps).cmd ∉ errorCodes :=
  hcode

theorem plain_not_error (hcmd : cmd ∉ errorCodes) : ∀ m ∈ [plain cmd ps], m.cmd ∉ errorCodes := by
  intro m hm
  rw [List.mem_singleton.mp hm]
  exact hcmd

theorem lusers_not_error (h : m ∈ Server.lusers ctx nick srv) : m.cmd ∉ errorCodes := by
  simp only [Server.lusers, lusersReplies, List.mem_cons, List.not_mem_nil, or_false] at h
  rcases h with rfl | rfl | rfl | rfl | rfl <;> exact reply_not_error (by decide)

theorem motdReplies_not_error (h : m ∈ motdReplies ctx nick expectMotd) : m.cmd ∉ errorCodes := by
  rw [motdReplies] at h
  split at h
  · rw [List.mem_singleton.mp h]
    exact reply_not_error (by decide)
  · simp only [List.mem_append, List.mem_cons, motdLines, List.mem_map, List.not_mem_nil,
      or_false] at h
    rcases h with (rfl | ⟨line, -, rfl⟩) | rfl <;> exact reply_not_error (by decide)

theorem registrationReplies_not_error (h : m ∈ registrationReplies ctx srv nick user) :
    m.cmd ∉ errorCodes := by
  simp only [registrationReplies, briefing, List.mem_append, List.mem_cons, List.not_mem_nil,
    or_false] at h
  rcases h with rfl | ((rfl | rfl | rfl) | h) | h
  · exact reply_not_error (by decide)
  · exact reply_not_error (by decide)
  · exact reply_not_error (by decide)
  · exact reply_not_error (by decide)
  · exact lusers_not_error h
  · exact motdReplies_not_error h

theorem whoisReplies_not_error (h : m ∈ whoisReplies ctx asker nick userMsg) :
    m.cmd ∉ errorCodes := by
  simp only [whoisReplies, List.mem_cons, List.not_mem_nil, or_false] at h
  rcases h with rfl | rfl | rfl <;> exact reply_not_error (by decide)

/-- A handler sends no error, or it sends one and keeps the tables. -/
inductive Verdict (w w' : Work) : Prop
  | fine : (∀ m ∈ w'.out, m ∈ w.out ∨ m.cmd ∉ errorCodes) → Verdict w w'
  | failed (m : Message) : SameTables w.srv w'.srv → w'.out = w.out ++ [m] → Verdict w w'

theorem Verdict.silent {w w' : Work} (hout : w'.out = w.out) : Verdict w w' :=
  .fine fun _ hm => .inl (hout ▸ hm)

theorem Verdict.sent {w w' : Work} (hout : w'.out = w.out ++ ms)
    (hms : ∀ m ∈ ms, m.cmd ∉ errorCodes) : Verdict w w' := by
  refine .fine fun m hm => ?_
  rw [hout] at hm
  exact (List.mem_append.mp hm).imp_right (hms m)

theorem Handled.verdict {w w' : Work} (H : Handled ctx fd msg w w') : Verdict w w' := by
  cases H with
  | ping => exact .sent rfl (plain_not_error (by decide))
  | quit => exact .sent rfl (plain_not_error (by decide))
  | lusers => exact .sent rfl fun _ => lusers_not_error
  | motd => exact .sent rfl fun _ => motdReplies_not_error
  | whoisFound => exact .sent rfl fun _ => whoisReplies_not_error
  | nickRegisters => exact .sent rfl fun _ => registrationReplies_not_error
  | userRegisters => exact .sent rfl fun _ => registrationReplies_not_error
  | whoisAbsent => exact .failed _ (.refl _) rfl
  | privmsgAbsent => exact .failed _ (.refl _) rfl
  | nickMissing => exact .failed _ ⟨rfl, rfl, rfl, rfl⟩ rfl
  | nickInUse => exact .failed _ ⟨rfl, rfl, rfl, rfl⟩ rfl
  | userMissing => exact .failed _ (.refl _) rfl
  | unknown => exact .failed _ (.refl _) rfl
  | _ => exact .silent rfl

/-- The replies that the step writes. -/
def Label.replies : Label → List Message
  | .command _ _ _ _ _ out => out
  | _ => []

/-- **A command that is answered by an error** changes none of the tables, and gets no other
reply. -/
theorem sameTables_of_error {σ σ' : Sys} (hstep : (chirc ctx).step σ l σ') (hm : m ∈ l.replies)
    (herror : m.cmd ∈ errorCodes) : SameTables σ.server σ'.server ∧ l.replies = [m] := by
  cases step_cases hstep with
  | command t th p line msg w hth hp hparses hw =>
    rw [Label.replies] at hm ⊢
    rw [Sys.handled_server]
    cases (dispatch_handled hw).verdict with
    | fine hfine =>
      rcases hfine m hm with h | h
      · cases h
      · exact absurd herror h
    | failed m' htables hout =>
      rw [hout] at hm ⊢
      cases List.mem_singleton.mp hm
      exact ⟨htables, rfl⟩
  | _ => cases hm

theorem Run.last_step {σ σ' : Sys} (hrun : Run ctx ((σ, l) :: tr) σ') :
    Run ctx tr σ ∧ (chirc ctx).step σ l σ' := by
  cases hrun with
  | cons hrun hstep => exact ⟨hrun, hstep⟩

theorem sameTables_foo : ∃ tr σ l σ' m, Run plainServer tr σ ∧ (chirc plainServer).step σ l σ' ∧
    m ∈ l.replies ∧ m.cmd = errUnknowncommand ∧ SameTables σ.server σ'.server ∧
    l.replies = [m] := by
  obtain ⟨tr, σ', -, hrun, h⟩ := run_of_playsTo plainServer (amySends "FOO\r\n" ++ [.line 0])
    (fun tr _ => tr.head?.any fun e => e.2.replies.head?.any (·.cmd = errUnknowncommand))
    (by decide +kernel)
  obtain ⟨⟨σ, l⟩, htr, h⟩ := (Option.any_eq_true _ _).mp h
  obtain ⟨m, hm, hcmd⟩ := (Option.any_eq_true _ _).mp h
  obtain ⟨tr, rfl⟩ := List.head?_eq_some_iff.mp htr
  have hcmd := of_decide_eq_true hcmd
  have hm := List.mem_of_head? hm
  obtain ⟨hrun, hstep⟩ := Run.last_step hrun
  have herror : m.cmd ∈ errorCodes := by
    rw [hcmd]
    decide
  exact ⟨tr, σ, l, σ', m, hrun, hstep, hm, hcmd, sameTables_of_error hstep hm herror⟩

/-! ## Other connections -/

/-- The descriptor of the thread that handles a command or ends. -/
def Label.handledOn : Label → Option Nat
  | .command _ fd _ _ _ _ => some fd
  | .hangup _ fd _ => some fd
  | _ => none

theorem Label.closes_eq {l : Label} (h : l.closes = some fd) (ha : l.handledOn = some a) :
    fd = a := by
  cases l with
  | command t fd' c line msg out =>
    cases ha
    rw [closes] at h
    split at h
    · exact (Option.some.inj h).symm
    · cases h
  | hangup t fd' c =>
    cases ha
    exact (Option.some.inj h).symm
  | _ => cases ha

theorem Label.registersOn_eq {l : Label} {σ : Sys} (h : l.registersOn σ = some fd)
    (ha : l.handledOn = some a) : fd = a := by
  cases l with
  | command t fd' c line msg out =>
    cases ha
    rw [registersOn] at h
    split at h
    · exact (Option.some.inj h).symm
    · cases h
  | _ => cases h

/-- What is done to a descriptor leaves the nodes of another one alone, or turns them around. -/
theorem Move.nodesOf_eq {σ σ' : Sys} (H : Move tr σ σ' l) (ha : l.handledOn = some a)
    (hne : b ≠ a) : nodesOf σ'.server.sockfdNickHash b =
      if l.Expands σ then (nodesOf σ.server.sockfdNickHash b).reverse
      else nodesOf σ.server.sockfdNickHash b := by
  cases H with
  | quiet hcloses hreg hconns hbound htags => rw [htags, if_neg (Label.not_expands_of_silent hreg)]
  | accept fd hcloses hreg hfree hconns hbound htags =>
    rw [htags, if_neg (Label.not_expands_of_silent hreg)]
  | register fd nick hcloses hreg hname hconns hfresh hbound htags =>
    obtain rfl := Label.registersOn_eq hreg ha
    rw [htags, nodesOf_add_of_ne hne.symm]
    exact if_congr (Label.expands_iff hreg hname).symm rfl rfl
  | close fd hcloses hreg hconns hbound htags =>
    obtain rfl := Label.closes_eq hcloses ha
    rw [if_neg (Label.not_expands_of_silent hreg)]
    rcases htags with ⟨-, htags⟩ | ⟨-, htags⟩
    · rw [htags]
    · rw [htags, nodesOf_del_of_ne hne.symm]

/-- `connection_hash` keeps its entries. -/
theorem Move.bindings_subset {σ σ' : Sys} (H : Move tr σ σ' l) :
    bindings σ.server.connectionHash ⊆ bindings σ'.server.connectionHash := by
  cases H with
  | quiet hcloses hreg hconns hbound => exact hbound ▸ List.Subset.refl _
  | accept fd hcloses hreg hfree hconns hbound => exact hbound ▸ List.Subset.refl _
  | register fd nick hcloses hreg hname hconns hfresh hbound =>
    rw [hbound]
    exact List.subset_cons_self _ _
  | close fd hcloses hreg hconns hbound => exact hbound ▸ List.Subset.refl _

theorem Run.bindings_kept {σ σ' : Sys} (hrun : Run ctx tr σ) (hstep : (chirc ctx).step σ l σ')
    (hnode : findConnectionMapNode σ.server.connectionHash nick = some node) :
    ∃ node', findConnectionMapNode σ'.server.connectionHash nick = some node' ∧
      node'.fd = node.fd := by
  obtain ⟨b, hb⟩ := hrun.represents
  obtain ⟨b', hb'⟩ := Run.represents (hrun.cons hstep)
  have hmove := (step_cases hstep).move hb tr
  have hold := (found_iff_mem_bindings (hb.bound ▸ b.bound_nodup)).mp ⟨node, hnode, rfl⟩
  exact (found_iff_mem_bindings (hb'.bound ▸ b'.bound_nodup)).mpr (hmove.bindings_subset hold)

/-- A step on descriptor `a` changes neither the nick that is found for another open descriptor nor
the descriptor that is found for a nick. -/
structure RebindsOwn (σ σ' : Sys) (a : Nat) : Prop where
  nicks : ∀ b, b ≠ a → σ.connOn b ≠ none →
    (findSockfdNickMapNode σ'.server.sockfdNickHash b).map (·.name) =
      (findSockfdNickMapNode σ.server.sockfdNickHash b).map (·.name)
  fds : ∀ nick node, findConnectionMapNode σ.server.connectionHash nick = some node →
    ∃ node', findConnectionMapNode σ'.server.connectionHash nick = some node' ∧
      node'.fd = node.fd

/-- **A step on a descriptor rebinds no other one** exactly if it does not expand the buckets of
`sockfd_nick_hash` while another open descriptor has two nodes there. -/
theorem rebindsOwn_iff {σ σ' : Sys} (hrun : Run ctx tr σ) (hstep : (chirc ctx).step σ l σ')
    (ha : l.handledOn = some a) :
    RebindsOwn σ σ' a ↔ (l.Expands σ → ∀ b, b ≠ a → σ.connOn b ≠ none →
      (nodesOf σ.server.sockfdNickHash b).length ≤ 1) := by
  obtain ⟨board, hb⟩ := hrun.represents
  have hnodes {b} := @Move.nodesOf_eq tr l a b σ σ' ((step_cases hstep).move hb tr) ha
  constructor
  · intro H hexpands b hne hopen
    have hnick := H.nicks b hne hopen
    rwa [findSockfdNickMapNode_eq, hnodes hne, if_pos hexpands, hrun.tagNames.reverse_iff] at hnick
  · intro H
    refine ⟨fun b hne hopen => ?_, fun nick node hnode => hrun.bindings_kept hstep hnode⟩
    rw [findSockfdNickMapNode_eq, hnodes hne]
    split
    · next hexpands => exact hrun.tagNames.reverse_iff.mpr (H hexpands b hne hopen)
    · rw [findSockfdNickMapNode_eq]

/-- A second client sends a command while the first one is registered. -/
def bobSends (line : String) : List Event :=
  registerAmy ++ [.accept 5, .recv 1 (lit line), .line 1]

theorem rebindsOwn_bob : ∃ tr σ l σ', Run plainServer tr σ ∧ (chirc plainServer).step σ l σ' ∧
    l.handledOn = some 5 ∧
    findSockfdNickMapNode σ.server.sockfdNickHash 4 = some ⟨4, lit "amy"⟩ ∧
    RebindsOwn σ σ' 5 := by
  obtain ⟨tr, σ', -, hrun, h⟩ := run_of_playsTo plainServer (bobSends "NICK bob\r\n")
    (fun tr _ => tr.head?.any fun e => e.2.handledOn = some 5 ∧ ¬ e.2.Expands e.1 ∧
      findSockfdNickMapNode e.1.server.sockfdNickHash 4 = some ⟨4, lit "amy"⟩) (by decide +kernel)
  obtain ⟨⟨σ, l⟩, htr, h⟩ := (Option.any_eq_true _ _).mp h
  obtain ⟨tr, rfl⟩ := List.head?_eq_some_iff.mp htr
  obtain ⟨hrun, hstep⟩ := Run.last_step hrun
  obtain ⟨ha, hexpands, hamy⟩ := of_decide_eq_true h
  exact ⟨tr, σ, l, σ', hrun, hstep, ha, hamy,
    (rebindsOwn_iff hrun hstep ha).mpr fun h => absurd h hexpands⟩

/-- The connection registers under the name. -/
def registersUnder (c : Nat) (name : CStr) : List Event :=
  [.recv c (lit "NICK " ++ name ++ lit "\r\nUSER " ++ name ++ lit " * * :x\r\n"), .line c, .line c]

/-- One client registers twice, and another one ten times. -/
def registerOften : List Event :=
  [.accept 4, .accept 5] ++ registersUnder 1 (lit "bob") ++ registersUnder 1 (lit "rob") ++
    (lit "abcdefghij").flatMap fun a => registersUnder 0 [a]

/-- The last registration of the second client changes the nick of the first. -/
theorem rebindsOwn_rob : ∃ tr σ l σ', Run plainServer tr σ ∧ (chirc plainServer).step σ l σ' ∧
    l.handledOn = some 4 ∧ σ.connOn 5 = some 1 ∧
    findSockfdNickMapNode σ.server.sockfdNickHash 5 = some ⟨5, lit "rob"⟩ ∧
    findSockfdNickMapNode σ'.server.sockfdNickHash 5 = some ⟨5, lit "bob"⟩ ∧
    ¬ RebindsOwn σ σ' 4 := by
  obtain ⟨tr, σ', -, hrun, h⟩ := run_of_playsTo plainServer registerOften
    (fun tr σ' => (tr.head?.any fun e => e.2.handledOn = some 4 ∧ e.1.connOn 5 = some 1 ∧
        findSockfdNickMapNode e.1.server.sockfdNickHash 5 = some ⟨5, lit "rob"⟩) ∧
      findSockfdNickMapNode σ'.server.sockfdNickHash 5 = some ⟨5, lit "bob"⟩) (by decide +kernel)
  obtain ⟨h, hbob⟩ := of_decide_eq_true h
  obtain ⟨⟨σ, l⟩, htr, h⟩ := (Option.any_eq_true _ _).mp h
  obtain ⟨tr, rfl⟩ := List.head?_eq_some_iff.mp htr
  obtain ⟨hrun, hstep⟩ := Run.last_step hrun
  obtain ⟨ha, hc, hrob⟩ := of_decide_eq_true h
  refine ⟨tr, σ, l, σ', hrun, hstep, ha, hc, hrob, hbob, fun H => ?_⟩
  have hnick := H.nicks 5 (by decide) (by simp [hc])
  rw [hbob, hrob] at hnick
  exact absurd hnick (by decide)

end Chirc
