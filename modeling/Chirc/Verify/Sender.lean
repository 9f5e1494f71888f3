import Chirc.Verify.Room
import Chirc.Verify.Tables

/-! # Who has not registered

The PRIVMSG branch takes the lookup of the recipient in `connection_hash` for a test of whether the
sender has registered. -/

namespace Chirc

/-- The step of thread `t` sends ERR_NOTREGISTERED to connection `c`. -/
def SendsNotregistered (ctx : Ctx) (σ : Sys) (t c : Nat) : Prop :=
  ∃ σ' l, step ctx σ (.line t) = .ok (σ', l) ∧ ∃ m ∈ l.sentTo c, m.cmd = errNotregistered

/-- What the branch tests: nobody was ever registered under the name of the recipient. -/
theorem sendsNotregistered_iff {σ : Sys} (hrun : Run ctx tr σ) (h : σ.Handling t th p line msg)
    (hcmd : msg.cmd = lit "PRIVMSG") (hname : msg.params.head? = some name) :
    SendsNotregistered ctx σ t c ↔ σ.connOn th.sockfd = some c ∧ name ∉ registrations tr ∧
      ctx.servername.length + (leastNick σ.server).length ≤ 990 := by
  have hcmd : command msg.cmd = .privmsg := by
    rw [hcmd]
    rfl
  rw [← hrun.found_iff, not_not, SendsNotregistered, h.exists_step_iff]
  simp only [mem_sentTo_command]
  cases hnode : findConnectionMapNode σ.server.connectionHash name with
  | some node =>
    refine iff_of_false ?_ (by simp)
    intro hsends
    obtain ⟨w, hw, m, ⟨-, hm⟩, -⟩ := hsends
    rw [dispatch_privmsg_found hcmd hname hnode] at hw
    cases hw
    cases hm
  | none =>
    constructor
    · intro hsends
      obtain ⟨w, hw, m, ⟨hc, -⟩, -⟩ := hsends
      exact ⟨hc, rfl, ((dispatch_privmsg_absent hcmd hname hnode).mp hw).1⟩
    · intro hsends
      obtain ⟨hc, -, hfits⟩ := hsends
      refine ⟨_, (dispatch_privmsg_absent hcmd hname hnode).mpr ⟨hfits, rfl⟩, ?_⟩
      exact ⟨_, ⟨hc, List.mem_singleton_self _⟩, rfl⟩

/-- The recipient is as the sender `c`: registered, at some time in the run, if `c` is and not
registered if `c` is not. The length of a reply counts only for what the code sends, and the
descriptor has to be that of the sender for a reply to reach it. -/
structure RecipientAsSender (ctx : Ctx) (tr : History) (σ : Sys) (fd c : Nat) (name : CStr) :
    Prop where
  registered : registered tr c ≠ none → σ.connOn fd = some c →
    ctx.servername.length + (leastNick σ.server).length ≤ 990 → name ∈ registrations tr
  unregistered : Chirc.registered tr c = none → σ.connOn fd = some c ∧
    name ∉ registrations tr ∧ ctx.servername.length + (leastNick σ.server).length ≤ 990

/-- **ERR_NOTREGISTERED is about the sender** exactly if the recipient is as the sender. -/
theorem notregistered_iff {σ : Sys} (hrun : Run ctx tr σ) (h : σ.Handling t th p line msg)
    (hcmd : msg.cmd = lit "PRIVMSG") (hname : msg.params.head? = some name) :
    (∀ c ∈ senderOf tr σ t, (SendsNotregistered ctx σ t c ↔ registered tr c = none)) ↔
      ∀ c ∈ senderOf tr σ t, RecipientAsSender ctx tr σ th.sockfd c name := by
  refine forall₂_congr fun c _ => ?_
  rw [sendsNotregistered_iff hrun h hcmd hname]
  constructor
  · intro hiff
    constructor
    · intro hregistered hc hfits
      by_contra habsent
      exact hregistered (hiff.mp ⟨hc, habsent, hfits⟩)
    · exact hiff.mpr
  · intro H
    constructor
    · intro hsent
      obtain ⟨hc, habsent, hfits⟩ := hsent
      by_contra hregistered
      exact habsent (H.registered hregistered hc hfits)
    · exact H.unregistered

/-- A client that has not registered writes to nobody. -/
theorem notregistered_stranger : ∃ tr σ th p line msg c, Run plainServer tr σ ∧
    σ.Handling 0 th p line msg ∧ msg.cmd = lit "PRIVMSG" ∧
    msg.params.head? = some (lit "bob") ∧ senderOf tr σ 0 = some c ∧ registered tr c = none ∧
    (SendsNotregistered plainServer σ 0 c ↔ registered tr c = none) := by
  obtain ⟨tr, σ, th, p, line, msg, hrun, h, hf⟩ := handling_of_playsToLine plainServer
    (firstLine "PRIVMSG bob :Hi\r\n") 0 (fun tr σ th _ msg => msg.cmd = lit "PRIVMSG" ∧
      msg.params.head? = some (lit "bob") ∧ σ.connOn th.sockfd = some 0 ∧
      senderOf tr σ 0 = some 0 ∧ registered tr 0 = none ∧ registrations tr = [] ∧
      leastNick σ.server = lit "*")
    (by decide +kernel)
  obtain ⟨hcmd, hname, hc, hsender, hregistered, hnone, hleast⟩ := of_decide_eq_true hf
  refine ⟨tr, σ, th, p, line, msg, 0, hrun, h, hcmd, hname, hsender, hregistered, ?_⟩
  refine (notregistered_iff hrun h hcmd hname).mpr ?_ 0 hsender
  intro c hc'
  cases hsender.symm.trans hc'
  constructor
  · intro hne
    exact absurd hregistered hne
  · intro _
    rw [hnone, hleast]
    exact ⟨hc, List.not_mem_nil, by decide⟩

/-- A client that is registered writes to a nick that nobody has. -/
theorem notregistered_nobody : ∃ tr σ th p line msg c, Run plainServer tr σ ∧
    σ.Handling 0 th p line msg ∧ msg.cmd = lit "PRIVMSG" ∧
    msg.params.head? = some (lit "bob") ∧ senderOf tr σ 0 = some c ∧
    registered tr c = some (lit "amy") ∧ SendsNotregistered plainServer σ 0 c ∧
    ¬ (SendsNotregistered plainServer σ 0 c ↔ registered tr c = none) := by
  obtain ⟨tr, σ, th, p, line, msg, hrun, h, hf⟩ := handling_of_playsToLine plainServer
    (registerAmy ++ [.recv 0 (lit "PRIVMSG bob :Hi\r\n")]) 0 (fun tr σ th _ msg =>
      msg.cmd = lit "PRIVMSG" ∧ msg.params.head? = some (lit "bob") ∧
      σ.connOn th.sockfd = some 0 ∧ senderOf tr σ 0 = some 0 ∧ registered tr 0 = some (lit "amy") ∧
      lit "bob" ∉ registrations tr ∧ leastNick σ.server = lit "amy") (by decide +kernel)
  obtain ⟨hcmd, hname, hc, hsender, hregistered, habsent, hleast⟩ := of_decide_eq_true hf
  have hsends : SendsNotregistered plainServer σ 0 0 := by
    refine (sendsNotregistered_iff hrun h hcmd hname).mpr ⟨hc, habsent, ?_⟩
    rw [hleast]
    decide
  refine ⟨tr, σ, th, p, line, msg, 0, hrun, h, hcmd, hname, hsender, hregistered, hsends, ?_⟩
  intro hiff
  cases hregistered.symm.trans (hiff.mp hsends)

end Chirc
