import Chirc.Bytes

/-! # IRC messages

`chirc_message_t` and the functions of `message.c`. The parser works on the copy `msgstr` of
the line, which `strtok_r` cuts into strings by writing NULs; a message it returns points into
that copy, which it keeps as `raw`. -/

namespace Chirc

/-- `chirc_message_t`; `nparams` is the length of `params`, and `raw` is `none` (NULL) for a
message that was constructed and not parsed. -/
structure Message where
  pfx : Option CStr
  cmd : CStr
  params : List CStr
  longlast : Bool
  raw : Option (List Byte)
  deriving DecidableEq, Repr

/-! ## Parsing -/

/-- `strtok_r` with the delimiter `" "`, from `mem + s`: the memory afterwards, the token it
returns (`none` for NULL) and the save pointer. -/
def strtokR (mem : List Byte) (s : Nat) : Res (List Byte × Option Nat × Nat) := do
  let s ← scan (· != SP) mem s
  if (← rd mem s) = NUL then
    return (mem, none, s)
  let e ← scan (fun b => b == SP || b == NUL) mem s
  if (← rd mem e) = NUL then
    return (mem, some s, e)
  return (mem.set e NUL, some s, e + 1)

/-- `toupper` in the C locale -/
def toupper (b : Byte) : Byte := if 97 ≤ b ∧ b ≤ 122 then b - 32 else b

/-- `for(i=pch; *i; i++) *i = toupper(*i);` -/
def toupperAt (mem : List Byte) (p : Nat) : Res (List Byte) := do
  let e ← scan (· == NUL) mem p
  return mem.take p ++ ((mem.take e).drop p).map toupper ++ mem.drop e

/-- `params[msg->nparams++] = p` -/
def pushParam (params : List α) (p : α) : Res (List α) :=
  if params.length < 15 then .ok (params ++ [p]) else .error .paramsOverflow

/-- The loop `while (pch != NULL)`: `pch` is the token last read and `save` the save pointer.
Each round reads a further token, so that the size of the buffer is fuel enough. -/
def paramLoop : Nat → List Byte → Nat → Nat → List Nat → Res (List Byte × List Nat × Bool)
  | 0, _, _, _, _ => .error .overread
  | fuel + 1, mem, pch, save, params => do
    let i := (← scan (· == NUL) mem pch) + 1
    if (← rd mem i) = COLON then
      let params ← pushParam params (i + 1)
      return (mem, params, true)
    let (mem, pch, save) ← strtokR mem save
    match pch with
    | none => return (mem, params, false)
    | some pch =>
      let params ← pushParam params pch
      paramLoop fuel mem pch save params

/-- The part of the parser after the prefix: `cmd` points to the command. -/
def parseCommand (fuel : Nat) (mem : List Byte) (pfx : Option Nat) (cmd save : Nat) :
    Res (Option Message) := do
  let mem ← toupperAt mem cmd
  let (mem, params, longlast) ← paramLoop fuel mem cmd save []
  return some
    { pfx := pfx.map (cstrAt mem)
      cmd := cstrAt mem cmd
      params := params.map (cstrAt mem)
      longlast := longlast
      raw := some mem }

/-- `chirc_message_from_string` once the length of the line is stored in `len`; `none` is the return
value `-1`. -/
def parseLine (len : Nat) (s : CStr) : Res (Option Message) := do
  -- `strncpy(msgstr, s, len - 2)` with an unsigned `len`
  if len < 2 then
    throw .overread
  let mem := s.take (len - 2) ++ [NUL, NUL]
  let (mem, pch, save) ← strtokR mem 0
  match pch with
  | none => return none
  | some pch =>
    if (← rd mem pch) = COLON then
      let (mem, cmd, save) ← strtokR mem save
      match cmd with
      | none => return none
      | some cmd => parseCommand len mem (some (pch + 1)) cmd save
    else
      parseCommand len mem none pch save

/-- `chirc_message_from_string`; `len` is an `unsigned int`. -/
def chircMessageFromString (s : CStr) : Res (Option Message) :=
  parseLine (UInt32.ofNat s.length).toNat s

theorem chircMessageFromString_of_lt {s : CStr} (h : s.length < UInt32.size) :
    chircMessageFromString s = parseLine s.length s := by
  rw [chircMessageFromString, UInt32.toNat_ofNat', Nat.mod_eq_of_lt h]

/-! ## Rendering -/

/-- The parameters as `chirc_message_to_string` writes them. -/
def renderParams (longlast : Bool) : List CStr → CStr
  | [] => []
  | [p] => SP :: (if longlast then COLON :: p else p)
  | p :: q :: ps => SP :: p ++ renderParams longlast (q :: ps)

def renderPrefix : Option CStr → CStr
  | none => []
  | some p => COLON :: p ++ [SP]

/-- The text of a message. -/
def render (msg : Message) : CStr :=
  renderPrefix msg.pfx ++ msg.cmd ++ renderParams msg.longlast msg.params ++ [CR, LF]

/-- `chirc_message_to_string`: the chain of `strcat` runs past `buffer[1024]` when the text and
its NUL do not fit. -/
def chircMessageToString (msg : Message) : Res CStr :=
  if (render msg).length < 1024 then .ok (render msg) else .error .bufOverflow

/-! ## Construction -/

/-- `chirc_message_construct` -/
def chircMessageConstruct (pfx : Option CStr) (cmd : CStr) : Message where
  pfx := pfx
  cmd := cmd
  params := []
  longlast := false
  raw := none

/-- `chirc_message_add_parameter` -/
def chircMessageAddParameter (msg : Message) (param : CStr) (longlast : Bool) : Res Message := do
  let params ← pushParam msg.params param
  return { msg with params := params, longlast := longlast }

/-- `chirc_connection_t`, as far as replies look at it: its type and the name of its peer. -/
inductive Connection
  | unknown
  | user (nick : Option CStr)
  | server (servername : Option CStr)
  | quit

/-- `chirc_ctx_t`, as far as it is used: the name of this server, and the contents of the file
at `MOTD_FILE` if it can be opened. -/
structure Ctx where
  servername : CStr
  motd : Option (List Byte)

/-- `chirc_message_construct_reply` -/
def chircMessageConstructReply (ctx : Ctx) (conn : Connection) (code : CStr) : Res Message :=
  match conn with
  | .quit => .ok (chircMessageConstruct none code)
  | .unknown =>
    chircMessageAddParameter (chircMessageConstruct (some ctx.servername) code) (lit "*") false
  | .user nick =>
    chircMessageAddParameter (chircMessageConstruct (some ctx.servername) code)
      (nick.getD (lit "*")) false
  | .server servername =>
    chircMessageAddParameter (chircMessageConstruct (some ctx.servername) code)
      (servername.getD (lit "*")) false

/-- Add the parameters `ps` in order, each with its `longlast` argument. -/
def addParameters (msg : Message) (ps : List (CStr × Bool)) : Res Message :=
  ps.foldlM (fun msg p => chircMessageAddParameter msg p.1 p.2) msg

example : chircMessageFromString (lit "privmsg jrandom :Hello, how are you?\r\n") =
    .ok (some {
      pfx := none
      cmd := lit "PRIVMSG"
      params := [lit "jrandom", lit "Hello, how are you?"]
      longlast := true
      raw := some (lit "PRIVMSG\x00jrandom\x00:Hello, how are you?\x00\x00") }) := by
  decide +kernel

end Chirc
