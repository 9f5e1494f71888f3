import Chirc.Server.Reads
import Chirc.Verify.Faults

/-! # What is read of a message

The handling of a message depends on no other parameters than those that are read
(`dispatch_congr`). The first of them is fetched for every message, also for one without
parameters; and the fields of the message are used also when the parser has set none of them. -/

namespace Chirc

/-! ## Parameters -/

/-- The messages have the same command and the same number of parameters, and agree on the
parameters that are read of the first. -/
structure SameReads (srv : Server) (msg msg' : Message) : Prop where
  cmd : msg'.cmd = msg.cmd
  nparams : msg'.params.length = msg.params.length
  params : ∀ k ∈ paramsRead srv msg, msg'.params[k]? = msg.params[k]?

namespace SameReads
variable {srv : Server} {msg msg' : Message} (H : SameReads srv msg msg')
include H

theorem head_eq : msg'.params.head? = msg.params.head? := by
  rw [List.head?_eq_getElem?, List.head?_eq_getElem?]
  exact H.params 0 List.mem_cons_self

theorem params_eq_of_one (hlen : msg.params.length = 1) : msg'.params = msg.params := by
  have hhead := H.head_eq
  obtain ⟨p, hp⟩ := List.length_eq_one_iff.mp hlen
  obtain ⟨p', hp'⟩ := List.length_eq_one_iff.mp (H.nparams.trans hlen)
  rw [hp, hp'] at hhead ⊢
  cases hhead
  rfl

/-- When all parameters are read, the messages have the same ones. -/
theorem params_eq_of_loop (hloop : ∀ k ∈ paramsLoop msg, k ∈ paramsRead srv msg) :
    msg'.params = msg.params := by
  apply List.ext_getElem?
  intro k
  by_cases hk : k < msg.params.length
  · exact H.params k (hloop k (List.mem_range.mpr hk))
  · rw [List.getElem?_eq_none (Nat.le_of_not_lt hk),
      List.getElem?_eq_none (H.nparams ▸ Nat.le_of_not_lt hk)]

/-- Both messages have no parameter, the same one, or more than one. -/
theorem params_cases : msg'.params = [] ∧ msg.params = [] ∨
    (∃ p, msg'.params = [p] ∧ msg.params = [p]) ∨
    ∃ p q ps p' q' ps', msg'.params = p' :: q' :: ps' ∧ msg.params = p :: q :: ps := by
  have hlen := H.nparams
  rcases hp : msg.params with _ | ⟨p, _ | ⟨q, ps⟩⟩
  · rw [hp] at hlen
    exact .inl ⟨List.eq_nil_of_length_eq_zero hlen, rfl⟩
  · exact .inr (.inl ⟨p, by rw [H.params_eq_of_one (by rw [hp]; rfl), hp], rfl⟩)
  · rcases hp' : msg'.params with _ | ⟨p', _ | ⟨q', ps'⟩⟩
    · rw [hp, hp'] at hlen
      cases hlen
    · rw [hp, hp'] at hlen
      cases hlen
    · exact .inr (.inr ⟨p, q, ps, p', q', ps', rfl, rfl⟩)

theorem firstParam_eq : firstParam msg' = firstParam msg := by
  have hhead := H.head_eq
  rw [firstParam, firstParam]
  cases hp : msg.params with
  | nil =>
    rw [hp, List.head?_nil, List.head?_eq_none_iff] at hhead
    rw [hhead]
  | cons p ps =>
    rw [hp, List.head?_cons, List.head?_eq_some_iff] at hhead
    obtain ⟨ps', hp'⟩ := hhead
    rw [hp']

end SameReads

section
variable {ctx : Ctx} {fd : Nat} {w : Work} {msg msg' : Message} (H : SameReads w.srv msg msg')
include H

theorem onQuit_congr : onQuit ctx msg' w = onQuit ctx msg w := by
  rcases H.params_cases with ⟨hp', hp⟩ | ⟨p, hp', hp⟩ | ⟨p, q, ps, p', q', ps', hp', hp⟩
  · simp only [onQuit, hp, hp']
  · simp only [onQuit, hp, hp']
  · simp only [onQuit, hp, hp']

theorem onWhois_congr : onWhois ctx fd msg' w = onWhois ctx fd msg w := by
  rcases H.params_cases with ⟨hp', hp⟩ | ⟨p, hp', hp⟩ | ⟨p, q, ps, p', q', ps', hp', hp⟩
  · simp only [onWhois, hp, hp']
  · simp only [onWhois, hp, hp']
  · simp only [onWhois, hp, hp']

theorem onNick_congr : onNick ctx fd msg' w = onNick ctx fd msg w := by
  rcases H.params_cases with ⟨hp', hp⟩ | ⟨p, hp', hp⟩ | ⟨p, q, ps, p', q', ps', hp', hp⟩
  · simp only [onNick, hp, hp']
  · simp only [onNick, hp, hp']
  · simp only [onNick, hp, hp']

/-- A USER that is stored has all its parameters read. -/
theorem onUser_congr (hcmd : command msg.cmd = .user) :
    onUser ctx fd msg' w = onUser ctx fd msg w := by
  cases hparams : msg.params with
  | nil =>
    have hfirst : firstParam msg = .error .uninitRead := by rw [firstParam, hparams]
    simp only [onUser, H.firstParam_eq, hfirst, Res.error_bind]
  | cons name ps =>
    have hfirst : firstParam msg = .ok name := by rw [firstParam, hparams]
    simp only [onUser, H.firstParam_eq, hfirst, Res.ok_bind, H.nparams, H.cmd]
    split
    · rfl
    · next hlen =>
      cases huser : findUserNode w.srv.userHead name with
      | some node => rfl
      | none =>
        have hall : ∀ k ∈ paramsLoop msg, k ∈ paramsRead w.srv msg := by
          intro k hk
          simp only [paramsRead, hcmd, userReads, hparams, List.head?_cons]
          rw [← hparams, if_neg hlen, huser]
          refine List.mem_cons_of_mem 0 ?_
          rw [if_neg (by simp)]
          split
          · exact List.mem_append_left _ hk
          · exact hk
        rw [H.params_eq_of_loop hall]

theorem paramsRead_congr : paramsRead w.srv msg' = paramsRead w.srv msg := by
  have hloop : paramsLoop msg' = paramsLoop msg := by rw [paramsLoop, paramsLoop, H.nparams]
  have huser : userReads w.srv msg' = userReads w.srv msg := by
    rw [userReads, userReads, H.head_eq, H.nparams, hloop]
  rw [paramsRead, paramsRead, H.cmd, H.nparams, hloop, huser]

/-- **Nothing else is read**: messages that agree on what is read of one of them are handled in the
same way, and the same is read of both. -/
theorem dispatch_congr :
    dispatch ctx fd msg' w = dispatch ctx fd msg w ∧
      paramsRead w.srv msg' = paramsRead w.srv msg := by
  refine ⟨?_, paramsRead_congr H⟩
  rw [dispatch, dispatch, H.cmd]
  cases hcmd : command msg.cmd with
  | ping | pong | lusers | motd => rfl
  | quit => exact onQuit_congr H
  | whois => exact onWhois_congr H
  | privmsg => simp only [onPrivmsg, H.firstParam_eq]
  | nick => exact onNick_congr H
  | user => exact onUser_congr H hcmd
  | unknown => simp only [onUnknown, H.cmd]

end

/-- The parameters that are read of the message are those that were sent. -/
def ReadsSent (srv : Server) (msg : Message) : Prop :=
  ∀ k ∈ paramsRead srv msg, k < msg.params.length

theorem userReads_lt (h : k ∈ userReads srv msg) : k < msg.params.length := by
  have hloop (hk : k ∈ paramsLoop msg) : k < msg.params.length := List.mem_range.mp hk
  rw [userReads] at h
  split at h
  · cases h
  · split at h
    · cases h
    · split at h
      · cases h
      · split at h
        · exact (List.mem_append.mp h).elim hloop hloop
        · exact hloop h

/-- **Only parameters that were sent are read** exactly if there are any. -/
theorem readsSent_iff (srv : Server) (msg : Message) : ReadsSent srv msg ↔ msg.params ≠ [] := by
  rw [← List.length_pos_iff]
  constructor
  · intro hsent
    exact hsent 0 List.mem_cons_self
  · intro hlen k hk
    rw [paramsRead] at hk
    rcases List.mem_cons.mp hk with rfl | hk
    · exact hlen
    · split at hk
      · split at hk
        · cases List.mem_singleton.mp hk
          exact hlen
        · cases hk
      · exact List.mem_range.mp hk
      · exact userReads_lt hk
      · cases hk

/-- After its NICK a client sends a USER without parameters. -/
theorem readsSent_bareUser : ∃ tr σ th p line msg, Run plainServer tr σ ∧
    σ.Handling 0 th p line msg ∧ ¬ ReadsSent σ.server msg := by
  obtain ⟨tr, σ, th, p, line, msg, hrun, h, hf⟩ := handling_of_playsToLine plainServer
    [.accept 4, .recv 0 (lit "NICK user1\r\nUSER\r\n"), .line 0] 0
    (fun _ _ _ _ msg => msg.params = []) (by decide +kernel)
  have hparams : msg.params = [] := of_decide_eq_true hf
  refine ⟨tr, σ, th, p, line, msg, hrun, h, ?_⟩
  intro hsent
  have hlt := hsent 0 List.mem_cons_self
  rw [hparams] at hlt
  cases hlt

/-! ## Lines that do not parse -/

/-- Thread `t` has the line with its CRLF at `p` in its buffer; it is not blank, and
`chirc_message_from_string` does not return 0 for it. -/
structure Sys.Unparsed (σ : Sys) (t : Nat) (th : Thread) (p : Nat) (line : CStr) : Prop where
  thread : σ.threads t = some th
  found : strstrCrlf th.buf = .ok (some p)
  trim : trimSpace (th.buf.take (p + 2)) = .ok line
  crlf : ∃ q, strstrCrlf line = .ok (some q) ∧ q ≠ 0
  parse : chircMessageFromString line = .ok none

/-- The step of thread `t` takes the line with its CRLF at `p` out of the buffer and does nothing
else. -/
def Sys.Skips (ctx : Ctx) (σ : Sys) (t : Nat) (th : Thread) (p : Nat) : Prop :=
  ∃ l, step ctx σ (.line t) = .ok (σ.setThread t (some (th.shift p)), l) ∧ ∀ c, l.sentTo c = []

namespace Sys.Unparsed
variable {σ : Sys} (h : σ.Unparsed t th p line)
include h

/-- The parser fails on the lines that consist of a prefix. -/
theorem words_eq (hsize : line.length < UInt32.size) :
    ∃ tok, words (th.buf.take p) = [tok] ∧ tok.head? = some COLON := by
  have hp := strstrCrlf_eq_some.mp h.found
  obtain ⟨⟨body, hbody, -⟩, hlen⟩ := terminated_of_crlfIdx hp
  have hnul := nul_of_crlfIdx hp
  have hlength : body.length = p := by
    have := congrArg List.length hbody
    simp only [List.length_take, List.length_append, List.length_cons, List.length_nil] at this
    omega
  have htake : th.buf.take p = body := by
    rw [← Nat.min_eq_left (Nat.le_add_right p 2), ← List.take_take, hbody, ← hlength,
      List.take_left]
  have htrim := h.trim
  rw [hbody] at htrim hnul
  rw [trimSpace_crlf, Except.ok.injEq] at htrim
  subst htrim
  have hspaced := (spaced_trimGo body).1
  rw [List.length_append] at hsize
  have hread := chircMessageFromString_pieces
    (nul_trimGo false fun hmem => hnul (List.mem_append_left _ hmem)) hsize
  rw [h.parse, Matches] at hread
  rw [htake, ← (words_trimGo body).1]
  rcases hspaced.lineIn_spec.1.mp (capped_eq_none.mp hread.symm) with hwords | htok
  · obtain ⟨q, hq, hq0⟩ := h.crlf
    rcases hspaced.cases_token with hempty | ⟨tok, rest, -, -, -, -, htok⟩
    · rw [hempty] at hq
      cases hq
      exact absurd rfl hq0
    · cases hwords.symm.trans htok
  · exact htok

/-- The fields of the message are used all the same. -/
theorem step_eq : step ctx σ (.line t) =
    .error (.fault (if line.length < 1024 then .uninitRead else .overread)) := by
  obtain ⟨q, hq, hq0⟩ := h.crlf
  have hq2 : ¬ q + 2 ≤ 2 := by omega
  have hnext : nextLine σ t = .ok (th, some p) := nextLine_eq_ok.mpr ⟨h.thread, h.found⟩
  have hround : innerRound ctx σ.server th p =
      .error (if line.length < 1024 then .uninitRead else .overread) := by
    simp only [innerRound, h.trim, Res.ok_bind, hq, hq2, if_false, h.parse]
    split
    · next hlen => rw [if_neg (Nat.not_lt.mpr hlen)]
    · next hlen => rw [if_pos (Nat.lt_of_not_le hlen)]
  rw [step, hnext]
  change ((innerRound ctx σ.server th p).orHalt >>= fun r =>
    pure (afterRound σ t th.sockfd r)) = _
  rw [hround]
  rfl

end Sys.Unparsed

/-- **A line that does not parse is not skipped**, whatever the state. -/
theorem not_skips {σ : Sys} (h : σ.Unparsed t th p line) : ¬ σ.Skips ctx t th p := by
  intro hskips
  obtain ⟨l, hstep, -⟩ := hskips
  cases h.step_eq.symm.trans hstep

/-- What is played ends with such a line in the buffer of thread `t`. -/
theorem unparsed_of_playsTo (ctx : Ctx) (es : List Event) (t p : Nat) (line : CStr)
    (hparse : chircMessageFromString line = .ok none)
    (h : playsTo ctx es (fun _ σ => (σ.threads t).any fun th =>
      strstrCrlf th.buf = .ok (some p) ∧ trimSpace (th.buf.take (p + 2)) = .ok line ∧
        ∃ q ∈ crlfIdx line, q ≠ 0) = true) :
    ∃ tr σ th, Run ctx tr σ ∧ σ.Unparsed t th p line := by
  obtain ⟨tr, σ, -, hrun, h⟩ := run_of_playsTo ctx es _ h
  obtain ⟨th, hth, h⟩ := (Option.any_eq_true _ _).mp h
  obtain ⟨hfound, htrim, q, hq, hq0⟩ := of_decide_eq_true h
  exact ⟨tr, σ, th, hrun, hth, hfound, htrim, ⟨q, strstrCrlf_eq_some.mpr hq, hq0⟩, hparse⟩

/-- A client that has just connected sends a prefix. -/
theorem not_skips_prefix : ∃ tr σ th, Run plainServer tr σ ∧
    σ.Unparsed 0 th 4 (lit ":amy\r\n") ∧ ¬ σ.Skips plainServer 0 th 4 := by
  obtain ⟨tr, σ, th, hrun, h⟩ := unparsed_of_playsTo plainServer
    [.accept 4, .recv 0 (lit ":amy\r\n")] 0 4 (lit ":amy\r\n") (by decide +kernel)
    (by decide +kernel)
  exact ⟨tr, σ, th, hrun, h, not_skips h⟩

/-- A client that is registered sends a prefix. -/
theorem not_skips_registered : ∃ tr σ th, Run plainServer tr σ ∧
    σ.Unparsed 0 th 4 (lit ":amy\r\n") ∧
    step plainServer σ (.line 0) = .error (.fault .uninitRead) ∧
    ¬ σ.Skips plainServer 0 th 4 := by
  obtain ⟨tr, σ, th, hrun, h⟩ := unparsed_of_playsTo plainServer
    (registerAmy ++ [.recv 0 (lit ":amy\r\n")]) 0 4
    (lit ":amy\r\n") (by decide +kernel) (by decide +kernel)
  have hstep : step plainServer σ (.line 0) = .error (.fault .uninitRead) := h.step_eq
  refine ⟨tr, σ, th, hrun, h, hstep, ?_⟩
  intro hskips
  obtain ⟨l, hok, -⟩ := hskips
  cases hstep.symm.trans hok

end Chirc
