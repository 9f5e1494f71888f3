import Chirc.Verify.Frame
import Chirc.Verify.MessageHeap

/-! # The memory that a server loses

Every reply of the server, and every message that it stores in `connection_hash`, is made by one of
the functions that have been followed on the heap. So the account of the memory extends to whole
runs: two blocks are lost for each reply that was ever written. -/

namespace Chirc

open Allocation (Heap Adds)
open MessageHeap

/-! ## Handlers -/

/-- The second state comes from the first one by calls of these functions, and by steps that change
neither the replies nor `connection_hash`. -/
inductive Calls (ctx : Ctx) : Work → Work → Prop
  | same : w'.out = w.out → w'.srv.connectionHash = w.srv.connectionHash → Calls ctx w w'
  | op (op : MessageOp) : op.run ctx w = .ok w' → Calls ctx w w'
  | trans : Calls ctx w w' → Calls ctx w' w'' → Calls ctx w w''

namespace Calls

theorem refl (ctx : Ctx) (w : Work) : Calls ctx w w := .same rfl rfl

theorem reply (call : ReplyCall) (h : call.run ctx w = .ok w') : Calls ctx w w' :=
  .op (.reply call) h

theorem sprintfBuf {text : CStr} (h : Chirc.sprintfBuf text w = .ok w') : Calls ctx w w' := by
  obtain ⟨-, rfl⟩ := sprintfBuf_eq_ok.mp h
  exact .same rfl rfl

/-- A reply with a text that is formatted into `buf` first -/
theorem formatted (nickname : Work → CStr) {text : CStr}
    (h : (Chirc.sprintfBuf text w >>= fun w =>
      myConstructUserReply ctx code w.buf extra (nickname w) w) = .ok w') : Calls ctx w w' := by
  obtain ⟨w₁, hbuf, hreply⟩ := Except.bind_eq_ok.mp h
  exact (sprintfBuf hbuf).trans (.reply (.user _ _ _ _) hreply)

theorem responseLusers (h : Chirc.responseLusers ctx nickname w = .ok w') : Calls ctx w w' := by
  rw [Chirc.responseLusers] at h
  obtain ⟨w₁, h₁, h⟩ := Except.bind_eq_ok.mp h
  obtain ⟨w₂, h₂, h⟩ := Except.bind_eq_ok.mp h
  obtain ⟨w₃, h₃, h⟩ := Except.bind_eq_ok.mp h
  obtain ⟨w₄, h₄, h₅⟩ := Except.bind_eq_ok.mp h
  refine .trans (.reply (.lusers _ _ _ _) h₁) (.trans (.reply (.lusers _ _ _ _) h₂) ?_)
  exact .trans (.reply (.lusers _ _ _ _) h₃)
    (.trans (.reply (.lusers _ _ _ _) h₄) (.reply (.lusers _ _ _ _) h₅))

theorem motdLoop {w : Work} (h : Chirc.motdLoop ctx nickname lines w = .ok w') : Calls ctx w w' := by
  induction lines generalizing w with
  | nil =>
    cases h
    exact refl ctx _
  | cons line lines ih =>
    rw [Chirc.motdLoop] at h
    obtain ⟨w₁, h₁, h⟩ := Except.bind_eq_ok.mp h
    exact .trans (.reply (.motd _ _ _) h₁) (ih h)

theorem responseMotd (h : Chirc.responseMotd ctx nickname expect w = .ok w') : Calls ctx w w' := by
  rw [Chirc.responseMotd] at h
  split at h
  · exact .reply (.motd _ _ _) h
  · obtain ⟨w₁, h₁, h⟩ := Except.bind_eq_ok.mp h
    obtain ⟨w₂, h₂, h₃⟩ := Except.bind_eq_ok.mp h
    exact .trans (.reply (.user _ _ _ _) h₁) (.trans (motdLoop h₂) (.reply (.motd _ _ _) h₃))

theorem onQuit (h : Chirc.onQuit ctx msg w = .ok w') : Calls ctx w w' := by
  rw [Chirc.onQuit] at h
  obtain ⟨w₁, h₁, h⟩ := Except.bind_eq_ok.mp h
  obtain ⟨w₂, h₂, h⟩ := Except.bind_eq_ok.mp h
  cases h
  exact .trans (sprintfBuf h₁) (.trans (.reply (.quit _ _ []) h₂) (.same rfl rfl))

theorem onWhois (h : Chirc.onWhois ctx fd msg w = .ok w') : Calls ctx w w' := by
  rw [Chirc.onWhois] at h
  split at h
  · next name hparams =>
    rw [responseWhois] at h
    split at h
    · cases h
    · next asker hfind _ => exact .reply (.nosuchnick _ _ _ _) h
    · next node asker hfind _ =>
      obtain ⟨w₁, h₁, h⟩ := Except.bind_eq_ok.mp h
      obtain ⟨w₂, h₂, h₃⟩ := Except.bind_eq_ok.mp h
      have hwhois : (MessageOp.whois rplWhoisuser name asker.name).run ctx w = .ok w₁ := by
        rw [MessageOp.run, hfind]
        exact h₁
      exact .trans (.op _ hwhois)
        (.trans (.reply (.whoisserver _ _ _) h₂) (.reply (.endofwhois _ _ _ _) h₃))
  · cases h
    exact refl ctx w

theorem onPrivmsg (h : Chirc.onPrivmsg ctx msg w = .ok w') : Calls ctx w w' := by
  rw [Chirc.onPrivmsg] at h
  obtain ⟨name, -, h⟩ := Except.bind_eq_ok.mp h
  split at h
  · cases h
    exact refl ctx w
  · exact formatted (fun w => leastNick w.srv) h

theorem completeRegistration
    (h : Chirc.completeRegistration ctx fd nick user cmd params welcomed name w = .ok w') :
    Calls ctx w w' := by
  rw [Chirc.completeRegistration] at h
  obtain ⟨w₁, h₁, h⟩ := Except.bind_eq_ok.mp h
  obtain ⟨key, -, h⟩ := Except.bind_eq_ok.mp h
  obtain ⟨msg, hmsg, h⟩ := Except.bind_eq_ok.mp h
  obtain ⟨w₂, h₂, h⟩ := Except.bind_eq_ok.mp h
  obtain ⟨w₃, h₃, h⟩ := Except.bind_eq_ok.mp h
  obtain ⟨w₄, h₄, h⟩ := Except.bind_eq_ok.mp h
  obtain ⟨w₅, h₅, h⟩ := Except.bind_eq_ok.mp h
  obtain ⟨w₆, h₆, h⟩ := Except.bind_eq_ok.mp h
  obtain ⟨w₇, h₇, h⟩ := Except.bind_eq_ok.mp h
  obtain ⟨w₈, h₈, h⟩ := Except.bind_eq_ok.mp h
  obtain ⟨w₉, h₉, h⟩ := Except.bind_eq_ok.mp h
  obtain ⟨key', -, h⟩ := Except.bind_eq_ok.mp h
  cases h
  have hregister : (MessageOp.register key fd cmd params).run ctx w₁ = .ok { w₁ with
      srv.connectionHash := addConnectionMapNode w₁.srv.connectionHash ⟨key, fd, .live msg⟩ } := by
    rw [MessageOp.run, hmsg]
    rfl
  refine (sprintfBuf h₁).trans (.trans (.op _ hregister) (.trans (.reply (.user _ _ _ _) h₂) ?_))
  refine (sprintfBuf h₃).trans (.trans (.reply (.user _ _ _ _) h₄) (.trans (sprintfBuf h₅) ?_))
  refine .trans (.reply (.user _ _ _ _) h₆) (.trans (.reply (.myinfo _ _ _ _ _ _) h₇) ?_)
  exact (responseLusers h₈).trans (.trans (responseMotd h₉) (.same rfl rfl))

/-- A registration, after a name has been put on a list -/
theorem registers
    (h : Chirc.completeRegistration ctx fd nick user cmd params welcomed name w₁ = .ok w')
    (hout : w₁.out = w.out) (hhash : w₁.srv.connectionHash = w.srv.connectionHash) :
    Calls ctx w w' := .trans (.same hout hhash) (completeRegistration h)

theorem onNick (h : Chirc.onNick ctx fd msg w = .ok w') : Calls ctx w w' := by
  have hmask : Calls ctx w (w.update w.srv.mask) := .same rfl rfl
  apply hmask.trans
  simp only [Chirc.onNick] at h
  split at h
  · exact formatted (fun w => leastNick w.srv) h
  · next name _ =>
    split at h
    · exact formatted (fun _ => lit "*") h
    · split at h
      · cases h
        exact refl ctx _
      · obtain ⟨key, -, h⟩ := Except.bind_eq_ok.mp h
        split at h
        · cases h
          exact .same rfl rfl
        · split at h
          · cases h
          · exact registers h rfl rfl
  · cases h
    exact refl ctx _

theorem onUser (h : Chirc.onUser ctx fd msg w = .ok w') : Calls ctx w w' := by
  simp only [Chirc.onUser] at h
  obtain ⟨name, -, h⟩ := Except.bind_eq_ok.mp h
  split at h
  · exact formatted (fun w => leastNick w.srv) h
  · split at h
    · cases h
      exact refl ctx _
    · obtain ⟨key, -, h⟩ := Except.bind_eq_ok.mp h
      obtain ⟨copy, -, h⟩ := Except.bind_eq_ok.mp h
      split at h
      · cases h
        exact .same rfl rfl
      · split at h
        · exact registers h rfl rfl
        · cases h
          exact .same rfl rfl

theorem onUnknown (h : Chirc.onUnknown ctx fd msg w = .ok w') : Calls ctx w w' := by
  rw [Chirc.onUnknown] at h
  split at h
  · cases h
    exact refl ctx _
  · exact .reply (.unknown _ _ _ _) h

theorem dispatch (h : Chirc.dispatch ctx fd msg w = .ok w') : Calls ctx w w' := by
  rw [Chirc.dispatch] at h
  split at h
  · exact .reply .ping h
  · cases h
    exact refl ctx _
  · exact onQuit h
  · exact responseLusers h
  · exact responseMotd h
  · exact onWhois h
  · exact onPrivmsg h
  · exact onNick h
  · exact onUser h
  · exact onUnknown h

end Calls

/-! ## Calls after other calls -/

/-- Two states with the same messages in `connection_hash`; the replies of the second one follow
after `earlier`. -/
structure Continues (earlier : List Message) (w v : Work) : Prop where
  out : v.out = earlier ++ w.out
  connectionHash : v.srv.connectionHash = w.srv.connectionHash

theorem Continues.writeReply (F : Continues earlier w v)
    (h : Chirc.writeReply ctx conn code ps w = .ok w') :
    ∃ v', Chirc.writeReply ctx conn code ps v = .ok v' ∧ Continues earlier w' v' := by
  rw [writeReply_eq] at h
  obtain ⟨m, hm, h⟩ := Except.bind_eq_ok.mp h
  cases h
  refine ⟨{ v with out := v.out ++ [m] }, ?_, ?_, F.connectionHash⟩
  · rw [writeReply_eq, hm]
    rfl
  · rw [F.out, List.append_assoc]

theorem replyCall_eq_writeReply (ctx : Ctx) (call : ReplyCall) :
    ∃ conn code ps, ∀ w, call.run ctx w = Chirc.writeReply ctx conn code ps w := by
  cases call <;> exact ⟨_, _, _, fun _ => rfl⟩

theorem Continues.op (F : Continues earlier w v) (op : MessageOp) (h : op.run ctx w = .ok w') :
    ∃ v', op.run ctx v = .ok v' ∧ Continues earlier w' v' := by
  cases op with
  | reply call =>
    obtain ⟨conn, code, ps, hrun⟩ := replyCall_eq_writeReply ctx call
    rw [MessageOp.run, hrun] at h
    rw [MessageOp.run, hrun]
    exact F.writeReply h
  | register name fd cmd params =>
    obtain ⟨msg, hmsg, h⟩ := Except.bind_eq_ok.mp h
    cases h
    rw [MessageOp.run, hmsg]
    exact ⟨_, rfl, F.out, congrArg (addConnectionMapNode · _) F.connectionHash⟩
  | whois code name nickname =>
    rw [MessageOp.run] at h
    rw [MessageOp.run, F.connectionHash]
    split at h
    · cases h
      exact ⟨v, rfl, F⟩
    · obtain ⟨userMsg, hmsg, h⟩ := Except.bind_eq_ok.mp h
      obtain ⟨w₁, hw₁, h⟩ := Except.bind_eq_ok.mp h
      cases h
      obtain ⟨v₁, hv₁, F₁⟩ := F.writeReply hw₁
      simp only [myConstructUserWhoisReply, hmsg, Res.ok_bind, hv₁]
      exact ⟨_, rfl, F₁.out, congrArg (freeConnectionMapMsg · _) F₁.connectionHash⟩

/-- What a handler does is a sequence of calls, also after other calls. -/
theorem Calls.ops (H : Calls ctx w w') : ∃ ops : List MessageOp, ∀ earlier v,
    Continues earlier w v → ∃ v', ops.foldlM (fun w op => op.run ctx w) v = .ok v' ∧
      Continues earlier w' v' := by
  induction H with
  | same hout hhash =>
    exact ⟨[], fun _ v F => ⟨v, rfl, hout ▸ F.out, F.connectionHash.trans hhash.symm⟩⟩
  | op op h =>
    refine ⟨[op], fun _ v F => ?_⟩
    obtain ⟨v', hv', F'⟩ := F.op op h
    refine ⟨v', ?_, F'⟩
    rw [List.foldlM_cons, hv']
    rfl
  | trans _ _ ih ih' =>
    obtain ⟨ops, ih⟩ := ih
    obtain ⟨ops', ih'⟩ := ih'
    refine ⟨ops ++ ops', fun earlier v F => ?_⟩
    obtain ⟨v₁, hops, F₁⟩ := ih earlier v F
    obtain ⟨v₂, hops', F₂⟩ := ih' earlier v₁ F₁
    refine ⟨v₂, ?_, F₂⟩
    rw [List.foldlM_append, hops]
    exact hops'

/-! ## Runs -/

/-- The replies of a run, oldest first -/
def repliesOf : History → List Message
  | [] => []
  | e :: tr => repliesOf tr ++ e.2.replies

theorem Step.continues {σ σ' : Sys} (H : Step ctx σ l σ') : ∃ ops : List MessageOp, ∀ w : Work,
    w.srv.connectionHash = σ.server.connectionHash → ∃ w' : Work,
      ops.foldlM (fun w op => op.run ctx w) w = .ok w' ∧ w'.out = w.out ++ l.replies ∧
      w'.srv.connectionHash = σ'.server.connectionHash := by
  cases H with
  | command t th p line msg w hth hp hparses hw =>
    obtain ⟨ops, hops⟩ := (Calls.dispatch hw).ops
    refine ⟨ops, fun v hhash => ?_⟩
    have F : Continues v.out (th.work σ.server p) v := ⟨(List.append_nil v.out).symm, hhash⟩
    obtain ⟨v', hv', F'⟩ := hops _ v F
    refine ⟨v', hv', F'.out, ?_⟩
    rw [Sys.handled_server]
    exact F'.connectionHash
  | _ => exact ⟨[], fun v hhash => ⟨v, rfl, (List.append_nil v.out).symm, hhash⟩⟩

/-- The calls of a run, step by step: those of a step write its replies, and make its changes to
`connection_hash`. -/
inductive CallsOf (ctx : Ctx) : History → Sys → List MessageOp → Prop
  | nil : CallsOf ctx [] σ []
  | cons : CallsOf ctx tr σ ops → (∀ w : Work,
      w.srv.connectionHash = σ.server.connectionHash → ∃ w' : Work,
        ops'.foldlM (fun w op => op.run ctx w) w = .ok w' ∧ w'.out = w.out ++ l.replies ∧
        w'.srv.connectionHash = σ'.server.connectionHash) →
    CallsOf ctx ((σ, l) :: tr) σ' (ops ++ ops')

theorem Run.callsOf {σ : Sys} (hrun : Run ctx tr σ) : ∃ ops, CallsOf ctx tr σ ops := by
  induction hrun with
  | nil _ => exact ⟨[], .nil⟩
  | cons _ hstep ih =>
    obtain ⟨ops, hops⟩ := ih
    obtain ⟨ops', hops'⟩ := (step_cases hstep).continues
    exact ⟨ops ++ ops', .cons hops hops'⟩

/-- The calls make the replies and `connection_hash` of the run. -/
theorem CallsOf.run {σ : Sys} (H : CallsOf ctx tr σ ops) (hrun : Run ctx tr σ) :
    ∃ w, runMessageOps ctx ops = .ok w ∧ w.out = repliesOf tr ∧
      w.srv.connectionHash = σ.server.connectionHash := by
  induction H with
  | nil =>
    cases hrun with
    | nil hinit =>
      cases hinit
      exact ⟨_, rfl, rfl, rfl⟩
  | cons H hops' ih =>
    cases hrun with
    | cons hrun _ =>
      obtain ⟨w, hops, hout, hhash⟩ := ih hrun
      obtain ⟨w', hw', hout', hhash'⟩ := hops' w hhash
      refine ⟨w', ?_, ?_, hhash'⟩
      · rw [runMessageOps] at hops ⊢
        rw [List.foldlM_append, hops]
        exact hw'
      · rw [hout', hout]
        rfl

/-- The calls that a run makes, one after the other on the heap `base`, end in `s`. -/
def OnHeap (ctx : Ctx) (base : Heap Block) (tr : History) (σ : Sys) (s : HeapWork) : Prop :=
  ∃ ops w, runMessageOps ctx ops = .ok w ∧ runMessageOpsOnHeap ctx base ops = .ok s ∧
    w.out = repliesOf tr ∧ w.srv.connectionHash = σ.server.connectionHash

theorem OnHeap.ledger {σ : Sys} (H : OnHeap ctx base tr σ s) :
    ∃ w, Ledger base w s ∧ w.out = repliesOf tr ∧
      w.srv.connectionHash = σ.server.connectionHash := by
  obtain ⟨ops, w, hops, hheap, hout, hhash⟩ := H
  have hledger := Ledger.run ctx base ops
  rw [hops, hheap] at hledger
  cases hledger with
  | ok L => exact ⟨w, L, hout, hhash⟩

theorem CallsOf.onHeap {σ : Sys} (H : CallsOf ctx tr σ ops) (hrun : Run ctx tr σ)
    (base : Heap Block) :
    ∃ s, runMessageOpsOnHeap ctx base ops = .ok s ∧ OnHeap ctx base tr σ s := by
  obtain ⟨w, hops, hout, hhash⟩ := H.run hrun
  have hledger := Ledger.run ctx base ops
  rw [hops] at hledger
  generalize hheap : runMessageOpsOnHeap ctx base ops = r at hledger
  cases hledger with
  | ok L => exact ⟨_, rfl, ops, w, hops, hheap, hout, hhash⟩

/-- **The memory that a run loses.** The calls that any run makes, step by step, can be carried out
on the heap, without a fault; they write the replies of the run, and leave allocated the messages
that `connection_hash` stores and two blocks for each reply that has been written since the start.
-/
theorem run_accounted {σ : Sys} (hrun : Run ctx tr σ) (base : Heap Block) :
    (∃ ops s, CallsOf ctx tr σ ops ∧ runMessageOpsOnHeap ctx base ops = .ok s ∧
      OnHeap ctx base tr σ s) ∧ ∀ s, OnHeap ctx base tr σ s →
      s.written = (repliesOf tr).map (fun m => wire (render m)) ∧ ∃ as, Adds base s.heap as ∧
        as.length = 2 * (repliesOf tr).length + storedBlocks σ.server.connectionHash := by
  obtain ⟨ops, hops⟩ := Run.callsOf hrun
  obtain ⟨s, hs, H⟩ := hops.onHeap hrun base
  refine ⟨⟨ops, s, hops, hs, H⟩, fun s H => ?_⟩
  obtain ⟨w, L, hout, hhash⟩ := H.ledger
  rw [← hout, ← hhash]
  exact ⟨L.written, L.length_eq⟩

theorem run_accounted_registerAmy : ∃ tr σ s as, play plainServer registerAmy = .ok (tr, σ) ∧
    OnHeap plainServer Heap.empty tr σ s ∧ Adds Heap.empty s.heap as ∧ as.length = 26 := by
  obtain ⟨tr, σ, hplay, hrun, h⟩ := run_of_playsTo plainServer registerAmy
    (fun tr σ => (repliesOf tr).length = 10 ∧ storedBlocks σ.server.connectionHash = 6)
    (by decide +kernel)
  obtain ⟨hreplies, hstored⟩ := of_decide_eq_true h
  obtain ⟨⟨-, s, -, -, hs⟩, haccounted⟩ := run_accounted hrun Heap.empty
  obtain ⟨-, as, hadds, hlen⟩ := haccounted s hs
  rw [hreplies, hstored] at hlen
  exact ⟨tr, σ, s, as, hplay, hs, hadds, hlen⟩

end Chirc
