import Chirc.Message
import Chirc.Theory.Traced

/-! # The parser's walk over its copy

`chirc_message_from_string` once more, with the indices of `msgstr` that it reads and writes, and
with the sizes as the source computes them: `len` is an `unsigned int`, while `strlen` returns a
`size_t`. The capacity of the array `params` is a parameter, 15 in the source. -/

namespace Chirc

/-- A computation with the indices of `msgstr` that it reads or writes -/
abbrev Walk := Traced Nat Fault

namespace Walk

/-- Read `mem[i]`. -/
def readAt (mem : List Byte) (i : Nat) : Walk Byte := ⟨[i], rd mem i⟩

/-- Write `mem[i]`. -/
def writeAt (mem : List Byte) (i : Nat) (b : Byte) : Walk (List Byte) :=
  ⟨[i], if i < mem.length then .ok (mem.set i b) else .error .bufOverflow⟩

/-- Read the bytes from `i` on up to the first that satisfies `p`; if there is none, the byte behind
the last one is read too. -/
def scanAt (p : Byte → Bool) (mem : List Byte) (i : Nat) : Walk Nat where
  log := match scan p mem i with
    | .ok j => List.range' i (j + 1 - i)
    | .error _ => List.range' i (mem.length + 1 - i)
  result := scan p mem i

/-- `strncpy(mem, s, n)`, which writes `n` bytes -/
def strncpy (mem : List Byte) (s : CStr) (n : Nat) : Walk (List Byte) where
  log := List.range n
  result :=
    if n ≤ mem.length then .ok (s.take n ++ List.replicate (n - s.length) NUL ++ mem.drop n)
    else .error .bufOverflow

/-- `strtok_r` with the delimiter `" "` -/
def strtokR (mem : List Byte) (s : Nat) : Walk (List Byte × Option Nat × Nat) := do
  let s ← scanAt (· != SP) mem s
  if (← readAt mem s) = NUL then
    return (mem, none, s)
  let e ← scanAt (fun b => b == SP || b == NUL) mem s
  if (← readAt mem e) = NUL then
    return (mem, some s, e)
  let mem ← writeAt mem e NUL
  return (mem, some s, e + 1)

/-- `for(i=pch; *i; i++) *i = toupper(*i);` -/
def toupperAt (mem : List Byte) (p : Nat) : Walk (List Byte) := do
  let e ← scanAt (· == NUL) mem p
  -- the writes
  Traced.touch (List.range' p (e - p))
  return mem.take p ++ ((mem.take e).drop p).map toupper ++ mem.drop e

/-- `params[msg->nparams++] = p` -/
def pushParam (cap : Nat) (params : List Nat) (p : Nat) : Walk (List Nat) :=
  if params.length < cap then return params ++ [p] else Traced.fail .paramsOverflow

/-- The loop `while (pch != NULL)` -/
def paramLoop (cap : Nat) :
    Nat → List Byte → Nat → Nat → List Nat → Walk (List Byte × List Nat × Bool)
  | 0, _, _, _, _ => Traced.fail .overread
  | fuel + 1, mem, pch, save, params => do
    let i := (← scanAt (· == NUL) mem pch) + 1
    if (← readAt mem i) = COLON then
      let params ← pushParam cap params (i + 1)
      return (mem, params, true)
    let (mem, pch, save) ← strtokR mem save
    match pch with
    | none => return (mem, params, false)
    | some pch =>
      let params ← pushParam cap params pch
      paramLoop cap fuel mem pch save params

/-- The part of the parser after the prefix -/
def parseCommand (cap fuel : Nat) (mem : List Byte) (pfx : Option Nat) (cmd save : Nat) :
    Walk (Option Message) := do
  let mem ← toupperAt mem cmd
  let (mem, params, longlast) ← paramLoop cap fuel mem cmd save []
  return some
    { pfx := pfx.map (cstrAt mem)
      cmd := cstrAt mem cmd
      params := params.map (cstrAt mem)
      longlast := longlast
      raw := some mem }

/-- The parser once the copy is made: the first tokens, the prefix if the line has one, and the
rest. -/
def parseCopy (cap fuel : Nat) (mem : List Byte) : Walk (Option Message) := do
  let (mem, pch, save) ← strtokR mem 0
  match pch with
  | none => return none
  | some pch =>
    if (← readAt mem pch) = COLON then
      let (mem, cmd, save) ← strtokR mem save
      match cmd with
      | none => return none
      | some cmd => parseCommand cap fuel mem (some (pch + 1)) cmd save
    else
      parseCommand cap fuel mem none pch save

/-- `len = strlen(s)`, an `unsigned int` -/
def len (s : CStr) : UInt32 := UInt32.ofNat s.length

/-- The copy `msgstr`; `junk` is what the memory that `malloc` returns holds. -/
def copyLine (junk : Nat → Byte) (s : CStr) : Walk (List Byte) := do
  let msgstr := (List.range (len s).toNat).map junk
  let mem ← strncpy msgstr s (len s - 2).toNat
  let mem ← writeAt mem (len s - 2).toNat NUL
  -- For ":" lookahead
  writeAt mem (len s - 1).toNat NUL

/-- `chirc_message_from_string` -/
def chircMessageFromString (cap : Nat) (junk : Nat → Byte) (s : CStr) : Walk (Option Message) := do
  let mem ← copyLine junk s
  parseCopy cap (len s).toNat mem

end Walk

end Chirc
