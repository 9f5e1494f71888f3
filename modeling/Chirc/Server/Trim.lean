import Chirc.Server.Loop

/-! # `trim_space` on arrays

The function as it is written, with its indexes into the two arrays. `trimSpace` of the receive
loop is what it computes when there is room for it. -/

namespace Chirc

/-- `mem[i] = b` -/
def wr (mem : List Byte) (i : Int) (b : Byte) : Res (List Byte) :=
  if i < 0 then .error .underwrite
  else if i.toNat < mem.length then .ok (mem.set i.toNat b)
  else .error .bufOverflow

/-- The local variables of `trim_space` that its loops change, and the array `out`. -/
structure Trim where
  i : Nat
  idx : Nat
  out : List Byte
  deriving DecidableEq, Repr

/-- `out[idx++] = b` -/
def Trim.emit (s : Trim) (b : Byte) : Res Trim := do
  let out ← wr s.out s.idx b
  return { s with idx := s.idx + 1, out := out }

/-- `++i` -/
def Trim.next (s : Trim) : Trim := { s with i := s.i + 1 }

/-- The loop `while (j < len && ' ' != src[j])`, where `s.i` is `j`. Each round reads a further
byte, so that `len` is fuel enough for this loop and the next one. -/
def copyRun (src : List Byte) (len : Nat) : Nat → Trim → Res Trim
  | 0, _ => .error .overread
  | fuel + 1, s => do
    if s.i < len then
      let b ← rd src s.i
      if b = SP then
        return s
      else
        let s ← s.emit b
        copyRun src len fuel s.next
    else
      return s

/-- The body of the outer loop. -/
def trimRound (src : List Byte) (len : Nat) (s : Trim) : Res Trim := do
  let b ← rd src s.i
  if b = SP then
    return s
  else
    let s ← copyRun src len (len + 1) s
    if s.i < len then s.emit SP else return s

/-- The loop `for (int i = 0; i < len; ++i)` -/
def trimLoop (src : List Byte) (len : Nat) : Nat → Trim → Res Trim
  | 0, _ => .error .overread
  | fuel + 1, s => do
    if s.i < len then
      let s ← trimRound src len s
      trimLoop src len fuel s.next
    else
      return s

/-- `trim_space(src, len, out)`: the array `out` afterwards. -/
def trimInto (src : List Byte) (len : Nat) (out : List Byte) : Res (List Byte) := do
  let s ← trimLoop src len (len + 1) ⟨0, 0, out⟩
  let out ← wr s.out (s.idx - 1) LF
  wr out (s.idx - 2) CR

end Chirc
