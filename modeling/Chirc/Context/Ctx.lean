import Chirc.Context.ChannelUser
import Chirc.Context.Network

/-! # The context

`chirc_ctx_t` with its four tables, and the functions of `ctx.c` that build a context and tear it
down. A table is the list of its structs, the one added last first. -/

namespace Chirc

/-- `chirc_connection_t`, as far as the context uses it -/
structure CtxConnection where
  addr : Nat
  socket : Int
  hostname : Option CStr

/-- `chirc_ctx_t`, and the heap with the structs that it points to. `malloc` has given out the
addresses of channels below `nextChannel` and those of users below `nextUser`. -/
structure Context where
  mem : Members
  channels : List Nat
  users : List Nat
  connections : List CtxConnection
  network : Network
  nextChannel : Nat
  nextUser : Nat

/-- `chirc_ctx_init`, and a heap in which nothing is allocated -/
def chircCtxInit : Context where
  mem :=
    { users := fun _ => chircUserInit []
      channels := fun _ => chircChannelInit []
      channelUsers := fun _ => chircChanneluserInit []
      next := 0 }
  channels := []
  users := []
  connections := []
  network := ⟨[], none, 0⟩
  nextChannel := 0
  nextUser := 0

/-! ## Entries -/

/-- `chirc_ctx_get_channel` -/
def chircCtxGetChannel (ctx : Context) (channelname : CStr) : Option Nat :=
  ctx.channels.find? fun c => (ctx.mem.channels c).name == some channelname

/-- `chirc_ctx_get_or_create_channel`: the context afterwards, the return value and the struct.
`modes` is what the memory that `malloc` returns holds in place of the array. -/
def chircCtxGetOrCreateChannel (ctx : Context) (channelname : CStr) (modes : List Byte) :
    Context × Bool × Nat :=
  match chircCtxGetChannel ctx channelname with
  | some c => (ctx, false, c)
  | none =>
    let c := ctx.nextChannel
    let channel : Channel := { chircChannelInit modes with name := some channelname }
    let mem := { ctx.mem with channels := Function.update ctx.mem.channels c channel }
    ({ ctx with mem := mem, channels := c :: ctx.channels, nextChannel := c + 1 }, true, c)

/-- `chirc_ctx_get_user` -/
def chircCtxGetUser (ctx : Context) (nick : CStr) : Option Nat :=
  ctx.users.find? fun u => (ctx.mem.users u).nick == some nick

/-- `chirc_ctx_get_or_create_user`: the context afterwards, the return value and the struct. -/
def chircCtxGetOrCreateUser (ctx : Context) (nick : CStr) (modes : List Byte) :
    Context × Bool × Nat :=
  match chircCtxGetUser ctx nick with
  | some u => (ctx, false, u)
  | none =>
    let u := ctx.nextUser
    let user : User := { chircUserInit modes with nick := some nick }
    let mem := { ctx.mem with users := Function.update ctx.mem.users u user }
    ({ ctx with mem := mem, users := u :: ctx.users, nextUser := u + 1 }, true, u)

/-- `chirc_ctx_add_connection` -/
def chircCtxAddConnection (ctx : Context) (conn : CtxConnection) : Context :=
  { ctx with connections := conn :: ctx.connections }

/-! ## The teardown

Only the tables and the structs are followed here: which strings are freed makes no difference to
them. -/

/-- Why the teardown does not return -/
inductive Abort
  /-- the assertion `user->channels == NULL` -/
  | assertion
  | nullDeref
  deriving DecidableEq, Repr

/-- `chirc_user_free` -/
def chircUserFree (user : User) : Except Abort Unit :=
  if user.channels = [] then .ok () else .error .assertion

/-- `chirc_connection_free` -/
def chircConnectionFree (_ : CtxConnection) : Except Abort Unit := .ok ()

/-- `chirc_server_free`, for a pointer that may be NULL -/
def chircServerFree : Option NetServer → Except Abort Unit
  | none => .error .nullDeref
  | some _ => .ok ()

/-- `chirc_ctx_free`. The loop over the channels does nothing, and the table that is cleared after
the loop over the servers is the one of the connections. -/
def chircCtxFree (ctx : Context) : Except Abort Context := do
  let ctx := { ctx with channels := [] }
  ctx.users.forM fun u => chircUserFree (ctx.mem.users u)
  let ctx := { ctx with users := [] }
  ctx.connections.forM chircConnectionFree
  let ctx := { ctx with connections := [] }
  if ctx.network.servers ≠ [] then
    ctx.network.servers.forM fun server => chircServerFree (some server)
    return { ctx with connections := [] }
  else
    chircServerFree ctx.network.thisServer
    return ctx

end Chirc
