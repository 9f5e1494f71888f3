import Chirc.Context.Ctx

/-! # The functions on a context

The functions of `ctx.c` that look at the tables of a context, add a struct to one of them or take
it out again, but for those on the network. A table is the list of its structs, the one added last
first. The loops go through a table in the order in which its structs were added. The counts, which
are `int`s in the source, are numbers without a bound. -/

namespace Chirc

/-- `conn_type_t` -/
inductive ConnType
  | unknown
  | user
  | server
  | quit
  deriving DecidableEq, Repr

/-- `CONN_TYPE_UNKNOWN`, which `chirc_connection_init` sets -/
def chircConnectionInit : ConnType := .unknown

/-! ## Additions and deletions -/

/-- `chirc_ctx_add_channel` -/
def chircCtxAddChannel (ctx : Context) (c : Nat) : Context :=
  { ctx with channels := c :: ctx.channels }

/-- `chirc_ctx_remove_channel` -/
def chircCtxRemoveChannel (ctx : Context) (c : Nat) : Option Context := do
  let channels ← hashDelete ctx.channels c
  return { ctx with channels := channels }

/-- `chirc_ctx_add_user` -/
def chircCtxAddUser (ctx : Context) (u : Nat) : Context := { ctx with users := u :: ctx.users }

/-- `chirc_ctx_remove_user` -/
def chircCtxRemoveUser (ctx : Context) (u : Nat) : Option Context := do
  let users ← hashDelete ctx.users u
  return { ctx with users := users }

/-- `chirc_ctx_remove_connection`, for the struct at `addr` -/
def chircCtxRemoveConnection (ctx : Context) (addr : Nat) : Option Context :=
  if ctx.connections.any (·.addr == addr) then
    some { ctx with connections := ctx.connections.eraseP (·.addr == addr) }
  else
    none

/-! ## Counts -/

/-- `chirc_ctx_numusers` -/
def chircCtxNumusers (ctx : Context) : Nat :=
  ctx.users.reverse.foldl (fun n u => if (ctx.mem.users u).registered then n + 1 else n) 0

/-- `chirc_ctx_numchannels` -/
def chircCtxNumchannels (ctx : Context) : Nat := ctx.channels.length

/-- `chirc_ctx_numops`, about the mode `o` -/
def chircCtxNumops (ctx : Context) : Res Nat :=
  ctx.users.reverse.foldlM (fun n u => do
    if (← chircUserHasMode (ctx.mem.users u) 111) ≠ 0 then
      return n + 1
    else
      return n) 0

/-- `chirc_ctx_unknown_connections`; `type` gives the types of the connections by address. -/
def chircCtxUnknownConnections (ctx : Context) (type : Nat → ConnType) : Nat :=
  ctx.connections.reverse.foldl
    (fun n conn => if type conn.addr = .unknown then n + 1 else n) 0

/-- `chirc_channel_free` -/
def chircChannelFree (channel : Channel) : Except Abort Unit :=
  if channel.users = [] then .ok () else .error .assertion

end Chirc
