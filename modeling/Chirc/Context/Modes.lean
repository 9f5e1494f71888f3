import Chirc.Bytes

/-! # Modes

The functions of `utils.c` on the array `modes[10]` of a user, a channel or a member of a channel,
which keeps the modes that are set as a NUL-terminated string. -/

namespace Chirc

/-- `strchr(mem + p, c)`; the terminating NUL belongs to the string that is searched. -/
def strchr (mem : List Byte) (p : Nat) (c : Byte) : Res (Option Nat) := do
  let i ← scan (fun b => b == c || b == NUL) mem p
  return if (← rd mem i) = c then some i else none

/-- `strcat(mem, s)` -/
def strcat (mem : List Byte) (s : CStr) : Res (List Byte) := do
  let e ← scan (· == NUL) mem 0
  if e + s.length < mem.length then
    return mem.take e ++ s ++ NUL :: mem.drop (e + s.length + 1)
  else
    throw .bufOverflow

/-- `has_mode` -/
def hasMode (modes : List Byte) (mode : Byte) : Res Int := do
  match ← strchr modes 0 mode with
  | some _ => return 1
  | none => return 0

/-- `set_mode`: the array afterwards, and the return value. -/
def setMode (modes : List Byte) (mode : Byte) : Res (List Byte × Int) := do
  let modestr := [mode, NUL]
  if (← hasMode modes mode) ≠ 0 then
    return (modes, 1)
  else
    let modes ← strcat modes (cstrAt modestr 0)
    return (modes, 0)

/-- The loop `while (*p)`, which moves the rest of the string to the left. Each round reads a
further byte, so that the size of the array is fuel enough. -/
def shiftLoop : Nat → List Byte → Nat → Res (List Byte)
  | 0, _, _ => .error .overread
  | fuel + 1, mem, p => do
    if (← rd mem p) = NUL then
      return mem
    else
      let b ← rd mem (p + 1)
      shiftLoop fuel (mem.set p b) (p + 1)

/-- `remove_mode`: the array afterwards, and the return value. -/
def removeMode (modes : List Byte) (mode : Byte) : Res (List Byte × Int) := do
  match ← strchr modes 0 mode with
  | none => return (modes, 1)
  | some p =>
    let modes ← shiftLoop modes.length modes p
    return (modes, 0)

end Chirc
