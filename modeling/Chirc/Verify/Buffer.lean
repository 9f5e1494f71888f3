import Chirc.Verify.Spelling

/-! # The receive buffer

`read` is offered the room behind `pos`, and `strstr` looks for a CRLF up to the first NUL of the
array. Both are sound as long as the array is not filled up without a line in it, and the CRLF
that is found lies among the bytes received: behind `pos` the array still has what a handler
printed into it, which may begin with the LF to a CR that was received. -/

namespace Chirc

open TransitionSystem

/-! ## The conditions -/

/-- The array has a NUL, and if it has no line then the next `read` asks for at least one byte, and
for no more than the array has. -/
structure Thread.ReadsSafely (th : Thread) : Prop where
  nul : th.buf.length < 1024 ∨ NUL ∈ th.buf
  room : strstrCrlf th.buf = .ok none →
    0 ≤ th.pos ∧ th.pos ≤ 1023 ∧ 1 ≤ th.room ∧ th.room ≤ 1024

/-- Every thread can search its buffer, and read into it. -/
def BuffersSound (_ : History) (σ : Sys) : Prop :=
  ∀ t th, σ.threads t = some th → th.ReadsSafely

/-- The array up to the end of what is received. -/
def Thread.receivedWith (th : Thread) (chunk : List Byte) : List Byte :=
  (th.buf ++ List.replicate (th.pos.toNat - th.buf.length) NUL).take th.pos.toNat ++ chunk

/-- A `read` that fills the array leaves a line and a NUL in it, and a line that is taken out ends
among the bytes received. -/
def KeepsRoom (_ : History) (σ : Sys) : Label → Prop
  | .recv t _ _ chunk => ∀ th ∈ σ.threads t, th.pos + chunk.length < 1024 ∨
      NUL ∈ th.receivedWith chunk ∧ (crlfIdx (th.receivedWith chunk)).isSome
  | .blank t => ∀ th ∈ σ.threads t, ∀ p ∈ crlfIdx th.buf, (p + 2 : Nat) ≤ th.pos
  | .command t .. => ∀ th ∈ σ.threads t, ∀ p ∈ crlfIdx th.buf, (p + 2 : Nat) ≤ th.pos
  | _ => True

instance : ∀ tr σ l, Decidable (KeepsRoom tr σ l)
  | _, σ, .recv t _ _ chunk => inferInstanceAs (Decidable (∀ th ∈ σ.threads t,
      th.pos + chunk.length < 1024 ∨
        NUL ∈ th.receivedWith chunk ∧ (crlfIdx (th.receivedWith chunk)).isSome))
  | _, σ, .blank t => inferInstanceAs (Decidable (∀ th ∈ σ.threads t, ∀ p ∈ crlfIdx th.buf, _))
  | _, σ, .command t .. =>
    inferInstanceAs (Decidable (∀ th ∈ σ.threads t, ∀ p ∈ crlfIdx th.buf, _))
  | _, _, .accept .. => inferInstanceAs (Decidable True)
  | _, _, .hangup .. => inferInstanceAs (Decidable True)

/-! ## Texts without a line -/

theorem crlfIdx_of_oneLine {s : List Byte} (h : OneLine s) : crlfIdx s = none := by
  induction s with
  | nil => rfl
  | cons b s ih =>
    rw [oneLine_cons] at h
    rw [crlfIdx, if_neg h.1, ih h.2, Option.map_none]
    split <;> rfl

theorem OneLine.drop {s : List Byte} (h : OneLine s) (n : Nat) : OneLine (s.drop n) :=
  h.of_part (List.drop_suffix n s).isInfix

/-- A search in a short text without a line finds none. -/
theorem strstrCrlf_of_oneLine {s : List Byte} (h : OneLine s) (hlen : s.length < 1024) :
    strstrCrlf s = .ok none := by
  rw [strstrCrlf, crlfIdx_of_oneLine h]
  exact if_pos (.inl hlen)

/-! ## The invariant -/

/-- What the loop keeps of the buffer: the bytes behind `pos` have no line, and the last byte of
the array is NUL unless the array is full. -/
structure Thread.Buffered (th : Thread) : Prop where
  pos_nonneg : 0 ≤ th.pos
  pos_le : th.pos ≤ 1024
  length_le : th.buf.length ≤ 1024
  last : th.pos < 1024 → ∀ b, th.buf[1023]? = some b → b = NUL
  rest : OneLine (th.buf.drop th.pos.toNat)

/-- The buffer of a thread that starts. -/
theorem Thread.Buffered.fresh (fd : Nat) : (⟨fd, [], 0⟩ : Thread).Buffered where
  pos_nonneg := Int.le_refl 0
  pos_le := by simp
  length_le := by simp
  last := by simp
  rest := by simpa using oneLine_nil

namespace Thread.Buffered
variable {th th' : Thread} (H : th.Buffered)
include H

/-- Unless the array is full, the thread can search it and read into it. -/
theorem readsSafely (hpos : th.pos < 1024) : th.ReadsSafely := by
  constructor
  · by_cases hlen : th.buf.length < 1024
    · exact .inl hlen
    · have hlast : 1023 < th.buf.length := by omega
      have hget := List.getElem?_eq_getElem hlast
      exact .inr (H.last hpos _ hget ▸ List.getElem_mem hlast)
  · intro _
    have := H.pos_nonneg
    rw [Thread.room]
    omega

theorem recv_eq (h : th.recv chunk = .ok th') : th'.sockfd = th.sockfd ∧
    th'.pos = th.pos + chunk.length ∧
    th'.buf = th.receivedWith chunk ++ th.buf.drop (th.pos.toNat + chunk.length) := by
  rw [Thread.recv, if_neg (Int.not_lt.mpr H.pos_nonneg)] at h
  cases h
  exact ⟨rfl, rfl, rfl⟩

omit H in
theorem length_receivedWith (th : Thread) (chunk : List Byte) :
    (th.receivedWith chunk).length = th.pos.toNat + chunk.length := by
  rw [receivedWith, List.length_append, List.length_take, List.length_append,
    List.length_replicate]
  omega

theorem recv (hroom : chunk.length ≤ th.room) (h : th.recv chunk = .ok th') : th'.Buffered := by
  obtain ⟨-, hpos, hbuf⟩ := H.recv_eq h
  have hlen := length_receivedWith th chunk
  have hnonneg := H.pos_nonneg
  have hold := H.length_le
  rw [Thread.room] at hroom
  have htoNat : th'.pos.toNat = th.pos.toNat + chunk.length := by omega
  constructor
  · omega
  · omega
  · rw [hbuf, List.length_append, List.length_drop]
    omega
  · intro hlt b hb
    have hbefore : (th.receivedWith chunk).length ≤ 1023 := by omega
    rw [hbuf, List.getElem?_append_right hbefore, List.getElem?_drop] at hb
    apply H.last (by omega) b
    rw [← hb]
    congr 1
    omega
  · rw [hbuf, htoNat, ← hlen, List.drop_left]
    have hrest := H.rest.drop chunk.length
    rwa [List.drop_drop, ← hlen] at hrest

/-- A `read` that does not fill the array is followed by a sound search, one that fills it only if
it leaves a line and a NUL in the array. -/
theorem recv_readsSafely_iff (hroom : chunk.length ≤ th.room) (h : th.recv chunk = .ok th') :
    th'.ReadsSafely ↔ th.pos + chunk.length < 1024 ∨
      NUL ∈ th.receivedWith chunk ∧ (crlfIdx (th.receivedWith chunk)).isSome := by
  obtain ⟨-, hpos, hbuf⟩ := H.recv_eq h
  have H' := H.recv hroom h
  by_cases hlt : th.pos + chunk.length < 1024
  · exact iff_of_true (H'.readsSafely (by omega)) (.inl hlt)
  · have hlen := length_receivedWith th chunk
    have hnonneg := H.pos_nonneg
    have hold := H.length_le
    rw [Thread.room] at hroom
    have hfull : th'.buf = th.receivedWith chunk := by
      rw [hbuf, List.drop_eq_nil_of_le (by omega), List.append_nil]
    constructor
    · intro hsafe
      have hnul : NUL ∈ th'.buf := by
        refine hsafe.nul.resolve_left ?_
        rw [hfull, hlen]
        omega
      refine .inr ⟨hfull ▸ hnul, ?_⟩
      cases hidx : crlfIdx (th.receivedWith chunk) with
      | some p => rfl
      | none =>
        have hsearch : strstrCrlf th'.buf = .ok none := by
          rw [strstrCrlf, hfull, hidx]
          exact if_pos (.inr (hfull ▸ hnul))
        have := hsafe.room hsearch
        omega
    · intro hcond
      obtain ⟨hnul, hsome⟩ := hcond.resolve_left hlt
      refine ⟨.inr (hfull ▸ hnul), ?_⟩
      intro hsearch
      rw [← hfull, crlfIdx_of_strstrCrlf hsearch] at hsome
      cases hsome

/-- After a line is taken out: the buffer is the rest, or what a handler printed. -/
theorem shift {s : List Byte} (hp : (p + 2 : Nat) ≤ th.pos)
    (hbuf : s = (th.shift p).buf ∨ OneLine s ∧ s.length < 1024) :
    ({ th.shift p with buf := s } : Thread).Buffered := by
  have hold := H.length_le
  have hle := H.pos_le
  have hlt : s.length < 1024 := by
    rcases hbuf with rfl | ⟨-, hlt⟩
    · simp only [Thread.shift, List.length_drop]
      omega
    · exact hlt
  constructor
  · simp only [Thread.shift]
    omega
  · simp only [Thread.shift]
    omega
  · exact Nat.le_of_lt hlt
  · intro _ b hb
    simp only at hb
    have := (List.getElem?_eq_some_iff.mp hb).1
    omega
  · rcases hbuf with rfl | ⟨hone, -⟩
    · have hpos : p + 2 + (th.pos - (p + 2 : Nat)).toNat = th.pos.toNat := by omega
      simp only [Thread.shift, List.drop_drop, hpos]
      exact H.rest
    · exact hone.drop _

/-- A line is taken out safely exactly if it ends among the bytes received. -/
theorem shift_readsSafely_iff {s : List Byte}
    (hbuf : s = (th.shift p).buf ∨ OneLine s ∧ s.length < 1024) :
    ({ th.shift p with buf := s } : Thread).ReadsSafely ↔ (p + 2 : Nat) ≤ th.pos := by
  constructor
  · intro hsafe
    by_contra hp
    have hnonneg := H.pos_nonneg
    have hold := H.length_le
    have hsearch : strstrCrlf s = .ok none := by
      rcases hbuf with rfl | ⟨hone, hlen⟩
      · apply strstrCrlf_of_oneLine
        · have hrest := H.rest.drop (p + 2 - th.pos.toNat)
          have hpos : th.pos.toNat + (p + 2 - th.pos.toNat) = p + 2 := by omega
          rwa [List.drop_drop, hpos] at hrest
        · simp only [Thread.shift, List.length_drop]
          omega
      · exact strstrCrlf_of_oneLine hone hlen
    have hneg := (hsafe.room hsearch).1
    simp only [Thread.shift] at hneg
    omega
  · intro hp
    apply (H.shift hp hbuf).readsSafely
    have := H.pos_le
    simp only [Thread.shift]
    omega

end Thread.Buffered

/-! ## Runs -/

/-- A step that sets thread `t` to `th` keeps a property of all threads exactly if `th` has it. -/
theorem forall_threads_iff {σ σ' : Sys} {P : Thread → Prop}
    (hset : ∀ t', σ'.threads t' = if t' = t then some th else σ.threads t')
    (hold : ∀ t th, σ.threads t = some th → P th) :
    (∀ t th, σ'.threads t = some th → P th) ↔ P th := by
  constructor
  · intro h
    exact h t th (by rw [hset, if_pos rfl])
  · intro h t' th' hth'
    rw [hset] at hth'
    split at hth'
    · cases hth'
      exact h
    · exact hold t' th' hth'

/-- The handlers leave the buffer as it is, or print a text without a CRLF into it. -/
theorem dispatch_buf {w w' : Work} (hmsg : msg.Received) (H : w.srv.Clean)
    (h : dispatch ctx fd msg w = .ok w') :
    w'.buf = w.buf ∨ OneLine w'.buf ∧ w'.buf.length < 1024 := by
  by_cases hquit : command msg.cmd = .quit
  · rw [dispatch, hquit] at h
    simp only [onQuit, responseQuit, myConstructUserQuitReply, Except.bind_eq_ok,
      sprintfBuf_eq_ok, writeReply_quit_eq_ok, Res.pure_eq] at h
    obtain ⟨_, ⟨hlt, rfl⟩, _, ⟨-, rfl⟩, h⟩ := h
    cases h
    exact .inr ⟨(quitText_clean H hmsg).oneLine, hlt⟩
  · refine ((dispatch_handled h).buf hquit).imp_right ?_
    intro hprinted
    obtain ⟨_, hlf, _, hlen⟩ := hprinted
    have hone : OneLine w'.buf := by
      intro hinfix
      obtain ⟨t, u, heq⟩ := hinfix
      rw [← heq] at hlf
      simp at hlf
    exact ⟨hone, by omega⟩

theorem Step.buffersSound_keepsRoom {σ σ' : Sys} (hrun : Run ctx tr σ) (hstep : Step ctx σ l σ')
    (H : ∀ t th, σ.threads t = some th → th.Buffered) (hsound : BuffersSound tr σ) :
    BuffersSound ((σ, l) :: tr) σ' ↔ KeepsRoom tr σ l := by
  cases hstep with
  | accept fd =>
    refine (forall_threads_iff (fun _ => rfl) hsound).trans (iff_of_true ?_ trivial)
    exact (Thread.Buffered.fresh fd).readsSafely (by simp)
  | recv t th c chunk th' hth hp hc hne hroom hrecv =>
    refine (forall_threads_iff (fun _ => rfl) hsound).trans ?_
    simp only [KeepsRoom, hth, Option.mem_some_iff, forall_eq']
    exact (H t th hth).recv_readsSafely_iff hroom hrecv
  | blank t th p line hth hp =>
    refine (forall_threads_iff (fun _ => rfl) hsound).trans ?_
    simp only [KeepsRoom, hth, strstrCrlf_eq_some.mp hp, Option.mem_some_iff, forall_eq']
    exact (H t th hth).shift_readsSafely_iff (.inl rfl)
  | command t th p line msg w hth hp hparses hw =>
    refine (forall_threads_iff (fun _ => Sys.handled_threads σ) hsound).trans ?_
    simp only [KeepsRoom, hth, strstrCrlf_eq_some.mp hp, Option.mem_some_iff, forall_eq']
    exact (H t th hth).shift_readsSafely_iff (dispatch_buf (hparses.received hp) hrun.clean hw)
  | hangup t th =>
    refine iff_of_true ?_ trivial
    intro t' th' hth'
    change (if t' = t then none else σ.threads t') = some th' at hth'
    split at hth'
    · cases hth'
    · exact hsound t' th' hth'

theorem Step.buffered {σ σ' : Sys} (hrun : Run ctx tr σ) (hstep : Step ctx σ l σ')
    (H : ∀ t th, σ.threads t = some th → th.Buffered) (hkeeps : KeepsRoom tr σ l) :
    ∀ t th, σ'.threads t = some th → th.Buffered := by
  cases hstep with
  | accept fd =>
    exact (forall_threads_iff (fun _ => rfl) H).mpr (.fresh fd)
  | recv t th c chunk th' hth hp hc hne hroom hrecv =>
    exact (forall_threads_iff (fun _ => rfl) H).mpr ((H t th hth).recv hroom hrecv)
  | blank t th p line hth hp =>
    have hpos := hkeeps th hth p (strstrCrlf_eq_some.mp hp)
    exact (forall_threads_iff (fun _ => rfl) H).mpr ((H t th hth).shift hpos (.inl rfl))
  | command t th p line msg w hth hp hparses hw =>
    have hpos := hkeeps th hth p (strstrCrlf_eq_some.mp hp)
    have hbuf := dispatch_buf (hparses.received hp) hrun.clean hw
    refine (forall_threads_iff (fun _ => Sys.handled_threads σ) H).mpr ?_
    exact (H t th hth).shift hpos hbuf
  | hangup t th =>
    intro t' th' hth'
    change (if t' = t then none else σ.threads t') = some th' at hth'
    split at hth'
    · cases hth'
    · exact H t' th' hth'

theorem Run.buffered {σ : Sys} (hrun : Run ctx tr σ) (hkeeps : AllSteps KeepsRoom tr) :
    ∀ t th, σ.threads t = some th → th.Buffered := by
  refine TransitionSystem.Run.invariant_of_allSteps
    (P := fun _ σ => ∀ t th, σ.threads t = some th → th.Buffered) ?_ ?_ hrun hkeeps
  · intro σ hσ
    subst hσ
    intro t th hth
    cases hth
  · intro tr σ l σ' hrun H hkeep hstep
    exact (step_cases hstep).buffered hrun H hkeep

end Chirc
