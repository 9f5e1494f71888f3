import Chirc.Server.Commands

/-! # The receive loop

The local state of a connection thread and one round of the loops of `subthread_work`. The array
`buf[1024]` is modelled by its bytes up to some point after which all of them are zero. -/

namespace Chirc

/-- The body of `trim_space`; `inRun` tells whether the inner loop is copying a run of bytes
other than spaces. Each run is followed by one space, except at the end of the input. -/
def trimGo (inRun : Bool) : List Byte → List Byte
  | [] => []
  | b :: bs =>
    if b = SP then
      if inRun then SP :: trimGo false bs else trimGo false bs
    else b :: trimGo true bs

/-- `trim_space`, with its writes of CR and LF to `out[idx - 2]` and `out[idx - 1]`. -/
def trimSpace (src : List Byte) : Res (List Byte) :=
  let out := trimGo false src
  if out.length < 2 then .error .underwrite else .ok (out.take (out.length - 2) ++ [CR, LF])

/-- The index of the first CRLF before the first NUL. -/
def crlfIdx : List Byte → Option Nat
  | [] => none
  | b :: bs =>
    if b = NUL then none
    else if b = CR ∧ bs.head? = some LF then some 0
    else (crlfIdx bs).map (· + 1)

/-- `strstr(buf, "\r\n")` on an array of 1024 bytes: a search that meets neither a CRLF nor a NUL
runs past the end of the array. -/
def strstrCrlf (buf : List Byte) : Res (Option Nat) :=
  match crlfIdx buf with
  | some p => .ok (some p)
  | none => if buf.length < 1024 ∨ NUL ∈ buf then .ok none else .error .overread

/-- The local variables of `subthread_work` that outlive a round of its loops. -/
structure Thread where
  sockfd : Nat
  buf : List Byte
  pos : Int
  deriving DecidableEq, Repr

/-- The room `sizeof(buf) - pos` that the loop offers to `read`. -/
def Thread.room (th : Thread) : Int := 1024 - th.pos

/-- `ret = read(sockfd, buf + pos, sizeof(buf) - pos)` with the bytes `chunk`, and
`pos += ret`. -/
def Thread.recv (th : Thread) (chunk : List Byte) : Res Thread :=
  if th.pos < 0 then .error .underwrite
  else
    let pos := th.pos.toNat
    let padded := th.buf ++ List.replicate (pos - th.buf.length) NUL
    .ok { th with
      buf := padded.take pos ++ chunk ++ th.buf.drop (pos + chunk.length)
      pos := th.pos + chunk.length }

/-- What a round of the inner loop does with the line it takes from `buf`. -/
inductive Round
  /-- `continue` after a line of spaces -/
  | blank (th : Thread)
  /-- the line handed to the parser, its message and the handling of the message -/
  | handled (th : Thread) (line : CStr) (msg : Message) (w : Work)

/-- One round of `while (NULL != (p = strstr(buf, "\r\n")))`, with the CRLF at `p`. The return
value of the parser is not looked at. -/
def innerRound (ctx : Ctx) (srv : Server) (th : Thread) (p : Nat) : Res Round := do
  let len := p + 2
  let fullCommand ← trimSpace (th.buf.take len)
  let th := { th with buf := th.buf.drop len, pos := th.pos - len }
  match ← strstrCrlf fullCommand with
  | none => .error .nullDeref
  | some p =>
    if p + 2 ≤ 2 then
      return .blank th
    else if 1024 ≤ fullCommand.length then
      .error .overread
    else
      match ← chircMessageFromString fullCommand with
      | none => .error .uninitRead
      | some msg =>
        let w ← dispatch ctx th.sockfd msg ⟨srv, th.buf, [], false⟩
        return .handled { th with buf := w.buf } fullCommand msg w

end Chirc
