import Chirc.Verify.Grammar
import Chirc.Verify.Pieces
import Chirc.Verify.Registration

/-! # What is received from the clients

The strings of a parsed message have no CRLF, and its parameters other than the last are words that
do not begin with a `:`. The last may be any text, also an empty one: it is the name of a NICK with
one parameter. What the server keeps of its clients is as they sent it. -/

namespace Chirc

open PrefixCode

/-- A C string without a CRLF. -/
structure Clean (s : CStr) : Prop where
  nul : NUL ∉ s
  oneLine : OneLine s

theorem Clean.of_part (h : Clean s) (hpart : t <:+: s) : Clean t :=
  ⟨fun hmem => h.nul (hpart.subset hmem), h.oneLine.of_part hpart⟩

/-! ## Trimmed lines -/

theorem head?_trimGo (body : List Byte) : (trimGo true body).head? = body.head? := by
  cases body with
  | nil => rfl
  | cons b bs =>
    rw [trimGo]
    split
    · next hb => rw [if_pos rfl, List.head?_cons, List.head?_cons, hb]
    · rfl

theorem oneLine_trimGo (h : OneLine body) (inRun : Bool) : OneLine (trimGo inRun body) := by
  induction body generalizing inRun with
  | nil => exact oneLine_nil
  | cons b bs ih =>
    rw [oneLine_cons] at h
    rw [trimGo]
    split
    · split
      · exact (oneLine_cons_of_ne (by decide)).mpr (ih h.2 false)
      · exact ih h.2 false
    · rw [oneLine_cons, head?_trimGo]
      exact ⟨h.1, ih h.2 true⟩

theorem nul_of_crlfIdx (h : crlfIdx buf = some p) : NUL ∉ buf.take (p + 2) := by
  induction buf generalizing p with
  | nil => cases h
  | cons b bs ih =>
    rw [crlfIdx] at h
    split at h
    · cases h
    · next hb =>
      split at h
      · next hcrlf =>
        cases h
        obtain ⟨t, ht⟩ := crlf_prefix_iff.mpr hcrlf
        rw [← ht]
        simp
        decide
      · obtain ⟨q, hq, rfl⟩ := Option.map_eq_some_iff.mp h
        rw [List.take_succ_cons, List.mem_cons, not_or]
        exact ⟨Ne.symm hb, ih hq⟩

/-- The line that is handed to the parser. -/
theorem Parses.exists_clean {th : Thread} (h : Parses th p line msg)
    (hp : strstrCrlf th.buf = .ok (some p)) :
    ∃ s, line = s ++ [CR, LF] ∧ Clean s ∧ Spaced s := by
  rw [strstrCrlf_eq_some] at hp
  obtain ⟨⟨body, hbody, hline⟩, -⟩ := terminated_of_crlfIdx hp
  have hnul := nul_of_crlfIdx hp
  have htrim := h.trim
  rw [hbody] at htrim hnul
  rw [trimSpace_crlf, Except.ok.injEq] at htrim
  refine ⟨trimGo false body, htrim.symm, ⟨nul_trimGo false ?_, ?_⟩, (spaced_trimGo body).1⟩
  · exact fun hmem => hnul (List.mem_append_left _ hmem)
  · exact oneLine_trimGo (oneLine_append_cr.mp hline) false

/-! ## Messages -/

theorem toupper_eq_iff (hc : c < 65) : toupper b = c ↔ b = c := by
  rw [toupper]
  grind

theorem mem_map_toupper {s : CStr} (hc : c < 65) : c ∈ s.map toupper ↔ c ∈ s := by
  simp [toupper_eq_iff hc]

theorem head?_map_toupper {s : CStr} (hc : c < 65) :
    (s.map toupper).head? = some c ↔ s.head? = some c := by
  simp [toupper_eq_iff hc]

theorem oneLine_map_toupper {s : CStr} : OneLine (s.map toupper) ↔ OneLine s := by
  induction s with
  | nil => rfl
  | cons b s ih =>
    rw [List.map_cons, oneLine_cons, oneLine_cons, ih, toupper_eq_iff (by decide),
      head?_map_toupper (by decide)]

/-- The line that is parsed has room in `full_command`. -/
theorem Parses.size {th : Thread} (h : Parses th p (s ++ [CR, LF]) msg) :
    s.length + 2 < UInt32.size := by
  have hlen := h.length_lt
  rw [List.length_append] at hlen
  exact Nat.lt_trans hlen (by decide)

/-- What is parsed is found in the pieces of the line, and there is room for it. -/
theorem Parses.lineIn_eq {th : Thread} (h : Parses th p (s ++ [CR, LF]) msg) (hnul : NUL ∉ s) :
    lineIn (s.splitOn SP) = some msg.fields ∧ msg.params.length ≤ 15 := by
  have hparse := chircMessageFromString_pieces hnul h.size
  rw [h.parse, Matches] at hparse
  exact capped_eq_ok.mp hparse.symm

/-- What every message that is handled has. -/
structure Message.Received (m : Message) : Prop where
  cmd : Clean m.cmd
  cmd_ne : m.cmd ≠ []
  cmd_space : SP ∉ m.cmd
  params : ∀ p ∈ m.params, Clean p
  middle : ∀ p ∈ m.params.dropLast, Middle p

theorem Parses.received {th : Thread} (h : Parses th p line msg)
    (hp : strstrCrlf th.buf = .ok (some p)) : msg.Received := by
  obtain ⟨s, rfl, hclean, hspaced⟩ := h.exists_clean hp
  have hparse := chircMessageFromString_crlf hclean.nul h.size
  rw [h.parse, Matches] at hparse
  have hread : readLine (s.length + 2) s = .ok (some msg.fields) := hparse.symm
  obtain ⟨-, ⟨cmd, hcmd, hpart, hspace, hne⟩, hparams⟩ := readLine_inText hread
  have hcmd : msg.cmd = cmd.map toupper := hcmd
  have hcleanCmd := hclean.of_part hpart
  refine ⟨⟨?_, ?_⟩, ?_, ?_, fun p hp => hclean.of_part (hparams p hp),
    (hspaced.lineIn_spec.2 _ (h.lineIn_eq hclean.nul).1).2⟩
  · rw [hcmd, mem_map_toupper (by decide)]
    exact hcleanCmd.nul
  · rw [hcmd, oneLine_map_toupper]
    exact hcleanCmd.oneLine
  · rw [hcmd]
    simpa using hne
  · rw [hcmd, mem_map_toupper (by decide)]
    exact hspace

/-! ## What the server keeps -/

/-- What every message that is stored has: it can be quoted in the middle of a reply, but for its
last parameter. -/
structure Message.Quotable (m : Message) : Prop where
  cmd : Middle m.cmd ∧ Clean m.cmd
  params : ∀ p ∈ m.params, Clean p
  middle : ∀ p ∈ m.params.dropLast, Middle p
  ne : m.params ≠ []

theorem middle_of_user (h : command cmd = .user) (hspace : SP ∉ cmd) : Middle cmd := by
  have huser : lit "USER" <+: cmd := by
    simp only [command] at h
    split_ifs at h with _ _ _ _ _ _ _ _ huser
    exact huser
  obtain ⟨rest, rfl⟩ := huser
  exact ⟨by simp [lit], hspace, by simp [lit, COLON]⟩

theorem Message.Received.stored {msg : Message} (H : msg.Received) (hcmd : command msg.cmd = .user)
    (hname : msg.params.head? = some name) : (storedMessage msg.cmd msg.params).Quotable where
  cmd := ⟨middle_of_user hcmd H.cmd_space, H.cmd⟩
  params := by simpa using H.params
  middle := by simpa using H.middle
  ne := by
    rw [storedMessage_params]
    intro hnil
    rw [hnil] at hname
    cases hname

theorem Message.Quotable.stored {m : Message} (H : m.Quotable) :
    (storedMessage m.cmd m.params).Quotable where
  cmd := H.cmd
  params := by simpa using H.params
  middle := by simpa using H.middle
  ne := by simpa using H.ne

/-- A node is as it was, or its message is freed. -/
theorem mem_freeConnectionMapMsg (h : node ∈ freeConnectionMapMsg nodes name) :
    node ∈ nodes ∨ node.msg = .freed ∧ node.name = name := by
  induction nodes with
  | nil => cases h
  | cons node' nodes ih =>
    rw [freeConnectionMapMsg] at h
    split at h
    · next hname =>
      rcases List.mem_cons.mp h with rfl | h
      · exact .inr ⟨rfl, hname⟩
      · exact .inl (List.mem_cons_of_mem _ h)
    · rcases List.mem_cons.mp h with rfl | h
      · exact .inl List.mem_cons_self
      · exact (ih h).imp_left (List.mem_cons_of_mem _)

theorem mem_of_mem_free (hlive : node.msg ≠ .freed) (h : node ∈ freeConnectionMapMsg nodes name) :
    node ∈ nodes :=
  (mem_freeConnectionMapMsg h).resolve_right fun hfreed => hlive hfreed.1

/-- The names and the messages in the tables are as they were received. -/
structure Server.Clean (srv : Server) : Prop where
  nicks : ∀ nick ∈ names srv.nickHead, Chirc.Clean nick
  users : ∀ node ∈ srv.userHead, ∀ m, node.msg = some m → m.Quotable
  live : ∀ node ∈ srv.connectionHash, ∀ m, node.msg = .live m → m.Quotable
  tags : ∀ node ∈ srv.sockfdNickHash.items, Chirc.Clean node.name

namespace Server.Clean
variable {srv : Server} (H : srv.Clean)
include H

theorem mask : srv.mask.Clean := ⟨H.nicks, H.users, H.live, H.tags⟩

theorem uncount : srv.uncount.Clean := ⟨H.nicks, H.users, H.live, H.tags⟩

theorem addNick (hnick : Chirc.Clean nick) : (srv.addNick nick).Clean where
  nicks n hn := by
    rw [Server.addNick, names_addUserNode, List.mem_append, List.mem_singleton] at hn
    rcases hn with hn | rfl
    · exact H.nicks n hn
    · exact hnick
  users := H.users
  live := H.live
  tags := H.tags

theorem addUser (hm : m.Quotable) : (srv.addUser user m).Clean where
  nicks := H.nicks
  users node hnode m' hm' := by
    rcases List.mem_append.mp hnode with hnode | hnode
    · exact H.users node hnode m' hm'
    · rw [List.mem_singleton.mp hnode] at hm'
      cases hm'
      exact hm
  live := H.live
  tags := H.tags

theorem bind (hnick : Chirc.Clean nick) (hm : m.Quotable) : (srv.bind fd nick m).Clean where
  nicks := H.nicks
  users := H.users
  live node hnode m' hm' := by
    rcases List.mem_cons.mp hnode with rfl | hnode
    · cases hm'
      exact hm
    · exact H.live node hnode m' hm'
  tags node hnode := by
    rcases Uthash.Chained.mem_add.mp hnode with rfl | hnode
    · exact hnick
    · exact H.tags node hnode

theorem freeMsg : (srv.freeMsg nick).Clean where
  nicks := H.nicks
  users := H.users
  live node hnode m hm := by
    refine H.live node (mem_of_mem_free ?_ hnode) m hm
    rw [hm]
    exact nofun
  tags := H.tags

/-- The nick that is taken for that of a client without one. -/
theorem leastNick : Chirc.Clean (Chirc.leastNick srv) := by
  rw [Chirc.leastNick, getLeastUserNode]
  cases hlast : srv.nickHead.getLast? with
  | none => exact ⟨by decide, by decide⟩
  | some node => exact H.nicks _ (List.mem_map_of_mem (List.mem_of_getLast? hlast))

theorem sockfdNick : Chirc.Clean (Chirc.sockfdNick srv fd) := by
  rw [Chirc.sockfdNick]
  cases hfind : findSockfdNickMapNode srv.sockfdNickHash fd with
  | none => exact ⟨by decide, by decide⟩
  | some node => exact H.tags _ (List.mem_of_find?_eq_some hfind)

end Server.Clean

theorem Handled.clean {w w' : Work} (h : Handled ctx fd msg w w') (hmsg : msg.Received)
    (H : w.srv.Clean) : w'.srv.Clean := by
  have hone {nick} (hparams : msg.params = [nick]) : Clean nick :=
    hmsg.params nick (by rw [hparams]; exact List.mem_singleton_self nick)
  cases h with
  | quit => exact H.uncount
  | whoisFound => exact H.freeMsg
  | nickMissing => exact H.mask
  | nickInUse => exact H.mask
  | nickKnown => exact H.mask
  | nickIgnored => exact H.mask
  | nickPosted nick hcmd hparams => exact H.mask.addNick (hone hparams)
  | nickRegisters nick node user hcmd hparams _ _ hfind hnode =>
    have hm := H.users node (List.mem_of_find?_eq_some hfind) user hnode
    exact (H.mask.addNick (hone hparams)).bind (hone hparams) hm.stored
  | userPosted name hcmd hname => exact H.addUser (hmsg.stored hcmd hname)
  | userRegisters name node hcmd hname =>
    have hm := hmsg.stored hcmd hname
    exact (H.addUser hm).bind (hmsg.params name (List.mem_of_mem_head? hname)) hm
  | _ => exact H

theorem Step.clean {σ σ' : Sys} (hstep : Step ctx σ l σ') (H : σ.server.Clean) :
    σ'.server.Clean := by
  cases hstep with
  | command t th p line msg w hth hp hparses hw =>
    rw [Sys.handled_server]
    exact (dispatch_handled hw).clean (hparses.received hp) H
  | hangup t th =>
    exact ⟨H.nicks, H.users, H.live,
      fun node hnode => H.tags node (delSockfdNickMapNode_sublist.subset hnode)⟩
  | accept => exact ⟨H.nicks, H.users, H.live, H.tags⟩
  | _ => exact H

theorem Run.clean {σ : Sys} (hrun : Run ctx tr σ) : σ.server.Clean := by
  refine TransitionSystem.Run.invariant (P := fun _ σ => σ.server.Clean) ?_ ?_ hrun
  · rintro _ rfl
    exact ⟨nofun, nofun, nofun, nofun⟩
  · intro tr σ l σ' _ H hstep
    exact (step_cases hstep).clean H

end Chirc
