import Chirc.Verify.Steps

/-! # Where a command comes from

The thread of a connection may go on reading when its descriptor belongs to another one, and a line
may still wait in its buffer then. Each byte in the buffer of a thread is therefore traced to the
`read` that put it there, which gives the connection that sent it and its place in what this
connection has sent. A command was sent by a connection if its line is a line of what the connection
has sent. -/

namespace Chirc

/-! ## The bytes of a buffer -/

/-- The bytes of connection `c` that the step reads. -/
def Label.bytesOf (c : Nat) : Label → List Byte
  | .recv _ _ c' chunk => if c' = c then chunk else []
  | _ => []

/-- What connection `c` has sent, as far as it has been read. -/
def sentBytes : History → Nat → List Byte
  | [], _ => []
  | (_, l) :: tr, c => sentBytes tr c ++ l.bytesOf c

/-- The place of a byte in what a connection has sent. -/
structure Origin where
  conn : Nat
  idx : Nat
  deriving DecidableEq, Repr

/-- The number of bytes of the next line of thread `t`, with its CRLF. -/
def Sys.lineLength (σ : Sys) (t : Nat) : Nat :=
  (((σ.threads t).bind fun th => crlfIdx th.buf).map (· + 2)).getD 0

/-- The number of bytes that wait in the buffer of thread `t`. -/
def Sys.waiting (σ : Sys) (t : Nat) : Nat := ((σ.threads t).map fun th => th.pos.toNat).getD 0

/-- The handler of the message prints into the buffer. -/
def overwrites (srv : Server) (msg : Message) : Bool :=
  command msg.cmd = .quit || scribbles srv msg

/-- Where byte `i` of the buffer of thread `t` comes from after the step, given where its bytes came
from before. What the server prints comes from no connection. -/
def Label.originAfter (tr : History) (σ : Sys) (t : Nat) (before : Nat → Option Origin) (i : Nat) :
    Label → Option Origin
  | .accept c _ => if c = t then none else before i
  | .recv t' _ c chunk =>
    if t' = t ∧ σ.waiting t ≤ i ∧ i < σ.waiting t + chunk.length then
      some ⟨c, (sentBytes tr c).length + (i - σ.waiting t)⟩
    else before i
  | .blank t' => if t' = t then before (i + σ.lineLength t) else before i
  | .command t' _ _ _ msg _ =>
    if t' = t then
      if overwrites σ.server msg then none else before (i + σ.lineLength t)
    else before i
  | .hangup .. => before i

/-- Where byte `i` of the buffer of thread `t` comes from. -/
def originOf : History → Nat → Nat → Option Origin
  | [], _, _ => none
  | (σ, l) :: tr, t, i => l.originAfter tr σ t (originOf tr t) i

/-! ## The sender of a command -/

/-- The next line of thread `t` is the line that begins at the origin. -/
def IsLineFrom (tr : History) (σ : Sys) (t : Nat) (o : Origin) : Prop :=
  (∀ i < σ.lineLength t, originOf tr t i = some ⟨o.conn, o.idx + i⟩) ∧
    (o.idx = 0 ∨ [CR, LF] <:+ (sentBytes tr o.conn).take o.idx)

instance : Decidable (IsLineFrom tr σ t o) := inferInstanceAs (Decidable (_ ∧ _))

/-- The connection that sent the next line of thread `t`; `none` if it is not a line that one
connection has sent. -/
def senderOf (tr : History) (σ : Sys) (t : Nat) : Option Nat :=
  ((originOf tr t 0).filter fun o => IsLineFrom tr σ t o).map (·.conn)

/-- A command that a thread has handled: the connection that sent it, the server that it met and its
message. -/
structure SentCommand where
  thread : Nat
  sender : Option Nat
  server : Server
  msg : Message

/-- The message, if connection `c` sent it. -/
def SentCommand.message (c : Nat) (e : SentCommand) : Option Message :=
  if e.sender = some c then some e.msg else none

/-- The command that the step handles. -/
def Label.sent (tr : History) (σ : Sys) : Label → Option SentCommand
  | .command t _ _ _ msg _ => some ⟨t, senderOf tr σ t, σ.server, msg⟩
  | _ => none

/-- The connection that sent the command that the step handles. -/
def Label.sender (tr : History) (σ : Sys) (l : Label) : Option Nat := (l.sent tr σ).bind (·.sender)

/-- The commands that have been handled, latest first. -/
def commands : History → List SentCommand
  | [] => []
  | (σ, l) :: tr => (l.sent tr σ).toList ++ commands tr

/-! ## The bytes are those that were sent -/

theorem Sys.lineLength_eq {σ : Sys} (hth : σ.threads t = some th)
    (hp : strstrCrlf th.buf = .ok (some p)) : σ.lineLength t = p + 2 := by
  have hidx : crlfIdx th.buf = some p := by
    rw [strstrCrlf] at hp
    split at hp
    · next q hq =>
      cases hp
      exact hq
    · split at hp
      · cases hp
      · cases hp
  rw [lineLength, hth, Option.bind_some, hidx]
  rfl

theorem Sys.waiting_eq {σ : Sys} (hth : σ.threads t = some th) : σ.waiting t = th.pos.toNat := by
  rw [waiting, hth]
  rfl

/-- A byte that was read stands at its place behind what was waiting. -/
theorem Thread.recv_new (h : Thread.recv th chunk = .ok th') (hi : i < chunk.length) :
    th'.buf[th.pos.toNat + i]? = some chunk[i] := by
  rw [recv] at h
  split at h
  · cases h
  · cases h
    have hlen : (List.take th.pos.toNat
        (th.buf ++ List.replicate (th.pos.toNat - th.buf.length) NUL)).length = th.pos.toNat := by
      simp only [List.length_take, List.length_append, List.length_replicate]
      omega
    rw [List.append_assoc, List.getElem?_append_right (by omega), hlen, Nat.add_sub_cancel_left,
      List.getElem?_append_left hi, List.getElem?_eq_getElem hi]

/-- The other bytes stay. -/
theorem Thread.recv_old (h : Thread.recv th chunk = .ok th') (hb : th.buf[i]? = some b)
    (hi : ¬ (th.pos.toNat ≤ i ∧ i < th.pos.toNat + chunk.length)) : th'.buf[i]? = some b := by
  obtain ⟨hlt, -⟩ := List.getElem?_eq_some_iff.mp hb
  rw [recv] at h
  split at h
  · cases h
  · cases h
    have hlen : (List.take th.pos.toNat
        (th.buf ++ List.replicate (th.pos.toNat - th.buf.length) NUL)).length = th.pos.toNat := by
      simp only [List.length_take, List.length_append, List.length_replicate]
      omega
    by_cases hbefore : i < th.pos.toNat
    · rw [List.append_assoc, List.getElem?_append_left (by omega), List.getElem?_take_of_lt hbefore,
        List.getElem?_append_left hlt, hb]
    · rw [List.append_assoc, List.getElem?_append_right (by omega), hlen,
        List.getElem?_append_right (by omega), List.getElem?_drop, ← hb]
      congr 1
      omega

/-- Each byte of a buffer that has an origin is the byte that was sent there. -/
def BytesSent (tr : History) (σ : Sys) : Prop :=
  ∀ t th, σ.threads t = some th → ∀ i o, originOf tr t i = some o →
    ∃ b, th.buf[i]? = some b ∧ (sentBytes tr o.conn)[o.idx]? = some b

theorem sentBytes_cons_getElem? {l : Label} {i : Nat} (h : (sentBytes tr c)[i]? = some b) :
    (sentBytes ((σ, l) :: tr) c)[i]? = some b := by
  obtain ⟨hlt, -⟩ := List.getElem?_eq_some_iff.mp h
  rw [sentBytes, List.getElem?_append_left hlt, h]

theorem bytesSent_step {σ σ' : Sys} (H : BytesSent tr σ) (hstep : Step ctx σ l σ') :
    BytesSent ((σ, l) :: tr) σ' := by
  have hold {t th i o} (hth : σ.threads t = some th) (ho : originOf tr t i = some o) :
      ∃ b, th.buf[i]? = some b ∧ (sentBytes ((σ, l) :: tr) o.conn)[o.idx]? = some b := by
    obtain ⟨b, hb, hsent⟩ := H t th hth i o ho
    exact ⟨b, hb, sentBytes_cons_getElem? hsent⟩
  have hshift {t th p i o} (hth : σ.threads t = some th)
      (hp : strstrCrlf th.buf = .ok (some p)) (ho : originOf tr t (i + σ.lineLength t) = some o) :
      ∃ b, (th.shift p).buf[i]? = some b ∧
        (sentBytes ((σ, l) :: tr) o.conn)[o.idx]? = some b := by
    rw [Sys.lineLength_eq hth hp] at ho
    obtain ⟨b, hb, hsent⟩ := hold hth ho
    refine ⟨b, ?_, hsent⟩
    rw [Thread.shift, List.getElem?_drop, Nat.add_comm, hb]
  intro t th hth i o ho
  rw [originOf] at ho
  cases hstep with
  | accept fd hfd =>
    rw [Sys.setThread_threads] at hth
    rw [Label.originAfter] at ho
    split at ho
    · cases ho
    · next hne =>
      rw [if_neg (Ne.symm hne)] at hth
      exact hold hth ho
  | recv t' th₀ c chunk th₁ hth₀ hp hc hne hroom hrecv =>
    rw [Sys.setThread_threads] at hth
    rw [Label.originAfter] at ho
    by_cases heq : t = t'
    · subst heq
      rw [if_pos rfl, Option.some.injEq] at hth
      subst hth
      rw [Sys.waiting_eq hth₀] at ho
      split at ho
      · next hin =>
        obtain ⟨-, hle, hlt⟩ := hin
        cases ho
        obtain ⟨j, rfl⟩ := Nat.exists_eq_add_of_le hle
        have hj : j < chunk.length := by omega
        refine ⟨chunk[j], Thread.recv_new hrecv hj, ?_⟩
        rw [Nat.add_sub_cancel_left, sentBytes, List.getElem?_append_right (Nat.le_add_right _ _),
          Nat.add_sub_cancel_left, Label.bytesOf, if_pos rfl, List.getElem?_eq_getElem hj]
      · next hout =>
        obtain ⟨b, hb, hsent⟩ := hold hth₀ ho
        exact ⟨b, Thread.recv_old hrecv hb fun hin => hout ⟨rfl, hin⟩, hsent⟩
    · rw [if_neg heq] at hth
      rw [if_neg fun h => heq h.1.symm] at ho
      exact hold hth ho
  | blank t' th₀ p line hth₀ hp =>
    rw [Sys.setThread_threads] at hth
    rw [Label.originAfter] at ho
    by_cases heq : t = t'
    · subst heq
      rw [if_pos rfl, Option.some.injEq] at hth
      subst hth
      rw [if_pos rfl] at ho
      exact hshift hth₀ hp ho
    · rw [if_neg heq] at hth
      rw [if_neg (Ne.symm heq)] at ho
      exact hold hth ho
  | command t' th₀ p line msg w hth₀ hp hparses hw =>
    rw [Sys.handled_threads] at hth
    rw [Label.originAfter] at ho
    by_cases heq : t = t'
    · subst heq
      rw [if_pos rfl, Option.some.injEq] at hth
      subst hth
      rw [if_pos rfl] at ho
      split at ho
      · cases ho
      · next hkeeps =>
        rw [overwrites, Bool.or_eq_true, not_or, decide_eq_true_iff] at hkeeps
        have hbuf : w.buf = (th₀.shift p).buf :=
          ((dispatch_handled hw).buf hkeeps.1).resolve_right fun h => hkeeps.2 h.1
        rw [hbuf]
        exact hshift hth₀ hp ho
    · rw [if_neg heq] at hth
      rw [if_neg (Ne.symm heq)] at ho
      exact hold hth ho
  | hangup t' th₀ =>
    have hne : t ≠ t' := by
      rintro rfl
      simp [hangup, Sys.setThread] at hth
    rw [hangup, Sys.setThread_threads, if_neg hne] at hth
    exact hold hth ho

theorem Run.bytesSent {σ : Sys} (hrun : Run ctx tr σ) : BytesSent tr σ := by
  refine TransitionSystem.Run.invariant ?_
    (fun _ H hstep => bytesSent_step H (step_cases hstep)) hrun
  rintro _ rfl t th hth
  cases hth

/-- Connection `c` has sent the line: it is in what was read from `c`, at its beginning or behind a
CRLF. -/
def SentLine (tr : History) (c : Nat) (line : List Byte) : Prop :=
  ∃ before after, sentBytes tr c = before ++ line ++ after ∧ (before = [] ∨ [CR, LF] <:+ before)

/-- **The sender of a command has sent its line.** -/
theorem Run.sentLine {σ : Sys} (hrun : Run ctx tr σ) (hth : σ.threads t = some th)
    (hp : strstrCrlf th.buf = .ok (some p)) (hsender : senderOf tr σ t = some c) :
    SentLine tr c (th.buf.take (p + 2)) := by
  obtain ⟨o, ho, rfl⟩ := Option.map_eq_some_iff.mp hsender
  obtain ⟨-, hline⟩ := Option.filter_eq_some_iff.mp ho
  obtain ⟨hbytes, hstart⟩ := of_decide_eq_true hline
  rw [Sys.lineLength_eq hth hp] at hbytes
  have hget (i : Nat) (hi : i < p + 2) :
      ∃ b, th.buf[i]? = some b ∧ (sentBytes tr o.conn)[o.idx + i]? = some b :=
    hrun.bytesSent t th hth i _ (hbytes i hi)
  have hle : o.idx ≤ (sentBytes tr o.conn).length := by
    obtain ⟨b, -, hb⟩ := hget 0 (Nat.zero_lt_succ _)
    obtain ⟨hlt, -⟩ := List.getElem?_eq_some_iff.mp hb
    omega
  refine ⟨(sentBytes tr o.conn).take o.idx, (sentBytes tr o.conn).drop (o.idx + (p + 2)), ?_, ?_⟩
  · have hpiece : th.buf.take (p + 2) = ((sentBytes tr o.conn).drop o.idx).take (p + 2) := by
      apply List.ext_getElem?
      intro i
      by_cases hi : i < p + 2
      · obtain ⟨b, hb, hsent⟩ := hget i hi
        rw [List.getElem?_take_of_lt hi, List.getElem?_take_of_lt hi, List.getElem?_drop, hb, hsent]
      · rw [List.getElem?_take_eq_none (Nat.le_of_not_lt hi),
          List.getElem?_take_eq_none (Nat.le_of_not_lt hi)]
    rw [hpiece, List.append_assoc, ← List.drop_drop, List.take_append_drop, List.take_append_drop]
  · refine hstart.imp_left fun hzero => ?_
    rw [hzero, List.take_zero]

/-- A thread whose client has quit reads a line of the next connection, which is closed before the
line is handled. -/
def readForOther : List Event :=
  [.accept 4, .recv 0 (lit "QUIT\r\n"), .line 0, .accept 4, .recv 0 (lit "NICK bob\r\n"), .eof 1,
    .accept 4]

theorem sentLine_readForOther : ∃ tr σ, play plainServer readForOther = .ok (tr, σ) ∧
    σ.connOn 4 = some 2 ∧ senderOf tr σ 0 = some 1 ∧ SentLine tr 1 (lit "NICK bob\r\n") := by
  obtain ⟨tr, σ, hplay, hrun, h⟩ := run_of_playsTo plainServer readForOther
    (fun tr σ => σ.connOn 4 = some 2 ∧ senderOf tr σ 0 = some 1 ∧
      σ.threads 0 = some ⟨4, lit "NICK bob\r\nnk: * (Client Quit)", 10⟩) (by decide +kernel)
  obtain ⟨hopen, hsender, hth⟩ := of_decide_eq_true h
  exact ⟨tr, σ, hplay, hopen, hsender, hrun.sentLine hth (p := 8) (by decide +kernel) hsender⟩

end Chirc
