import Chirc.Context.Modes
import Mathlib.Logic.Function.Basic

/-! # Users, channels and members

The structs of users, channels and members of channels (`user.c`, `channel.c`, `channeluser.c`).
Structs are named by their addresses. The tables `channels` of a user and `users` of a channel share
the structs of the members, each through a handle of its own; a table is the list of its structs,
the one added last first, and the keys are the fields of the structs. The sizes of the tables, which
are `int`s in the source, are numbers without a bound. -/

namespace Chirc

/-- `chirc_user_t`, without its server and its connection -/
structure User where
  nick : Option CStr
  username : Option CStr
  fullname : Option CStr
  registered : Bool
  modes : List Byte
  awaymsg : Option CStr
  channels : List Nat

/-- `chirc_channel_t` -/
structure Channel where
  name : Option CStr
  topic : Option CStr
  modes : List Byte
  users : List Nat

/-- `chirc_channeluser_t` -/
structure ChannelUser where
  user : Option Nat
  channel : Option Nat
  modes : List Byte

/-- `chirc_user_init`; `modes` is what the array holds before. -/
def chircUserInit (modes : List Byte) : User where
  nick := none
  username := none
  fullname := none
  registered := false
  modes := modes.set 0 NUL
  awaymsg := none
  channels := []

/-- `chirc_channel_init` -/
def chircChannelInit (modes : List Byte) : Channel where
  name := none
  topic := none
  modes := modes.set 0 NUL
  users := []

/-- `chirc_channeluser_init` -/
def chircChanneluserInit (modes : List Byte) : ChannelUser where
  user := none
  channel := none
  modes := modes.set 0 NUL

/-! ## Modes -/

/-- `chirc_user_has_mode` -/
def chircUserHasMode (user : User) (mode : Byte) : Res Int := hasMode user.modes mode

/-- `chirc_user_set_mode` -/
def chircUserSetMode (user : User) (mode : Byte) : Res (User × Int) := do
  let (modes, rc) ← setMode user.modes mode
  return ({ user with modes := modes }, rc)

/-- `chirc_user_remove_mode` -/
def chircUserRemoveMode (user : User) (mode : Byte) : Res (User × Int) := do
  let (modes, rc) ← removeMode user.modes mode
  return ({ user with modes := modes }, rc)

/-- `chirc_channel_has_mode` -/
def chircChannelHasMode (channel : Channel) (mode : Byte) : Res Int := hasMode channel.modes mode

/-- `chirc_channel_set_mode` -/
def chircChannelSetMode (channel : Channel) (mode : Byte) : Res (Channel × Int) := do
  let (modes, rc) ← setMode channel.modes mode
  return ({ channel with modes := modes }, rc)

/-- `chirc_channel_remove_mode` -/
def chircChannelRemoveMode (channel : Channel) (mode : Byte) : Res (Channel × Int) := do
  let (modes, rc) ← removeMode channel.modes mode
  return ({ channel with modes := modes }, rc)

/-- `chirc_channeluser_has_mode` -/
def chircChanneluserHasMode (channeluser : ChannelUser) (mode : Byte) : Res Int :=
  hasMode channeluser.modes mode

/-- `chirc_channeluser_set_mode` -/
def chircChanneluserSetMode (channeluser : ChannelUser) (mode : Byte) :
    Res (ChannelUser × Int) := do
  let (modes, rc) ← setMode channeluser.modes mode
  return ({ channeluser with modes := modes }, rc)

/-- `chirc_channeluser_remove_mode` -/
def chircChanneluserRemoveMode (channeluser : ChannelUser) (mode : Byte) :
    Res (ChannelUser × Int) := do
  let (modes, rc) ← removeMode channeluser.modes mode
  return ({ channeluser with modes := modes }, rc)

/-! ## Members of channels -/

/-- The structs on the heap. `malloc` has given out the addresses of members below `next`. -/
structure Members where
  users : Nat → User
  channels : Nat → Channel
  channelUsers : Nat → ChannelUser
  next : Nat

/-- `HASH_FIND(hh_from_channel, channel->users, &user, ...)` -/
def Members.findInChannel (m : Members) (channel user : Nat) : Option Nat :=
  (m.channels channel).users.find? fun x => (m.channelUsers x).user = some user

/-- `chirc_channel_num_users` -/
def chircChannelNumUsers (m : Members) (channel : Nat) : Nat := (m.channels channel).users.length

/-- `chirc_user_num_channels` -/
def chircUserNumChannels (m : Members) (user : Nat) : Nat := (m.users user).channels.length

/-- `chirc_channeluser_get` -/
def chircChanneluserGet (m : Members) (channel user : Nat) : Option Nat :=
  m.findInChannel channel user

/-- `chirc_channeluser_get_or_create`: the heap afterwards, the return value and the struct.
`modes` is what the memory that `malloc` returns holds in place of the array. -/
def chircChanneluserGetOrCreate (m : Members) (channel user : Nat) (modes : List Byte) :
    Members × Bool × Nat :=
  match m.findInChannel channel user with
  | some x => (m, false, x)
  | none =>
    let x := m.next
    let channeluser : ChannelUser :=
      { chircChanneluserInit modes with channel := some channel, user := some user }
    let m := { m with
      channelUsers := Function.update m.channelUsers x channeluser
      next := m.next + 1 }
    let u := m.users user
    let m := { m with
      users := Function.update m.users user { u with channels := x :: u.channels } }
    let c := m.channels channel
    let m := { m with
      channels := Function.update m.channels channel { c with users := x :: c.users } }
    (m, true, x)

/-- `HASH_DELETE`, which is undefined for a struct that is not in the table. -/
def hashDelete (table : List Nat) (x : Nat) : Option (List Nat) :=
  if x ∈ table then some (table.erase x) else none

/-- `chirc_channeluser_remove`, which returns no value. -/
def chircChanneluserRemove (m : Members) (x : Nat) : Option Members := do
  let user ← (m.channelUsers x).user
  let channel ← (m.channelUsers x).channel
  let c := m.channels channel
  let users ← hashDelete c.users x
  let m := { m with channels := Function.update m.channels channel { c with users := users } }
  let u := m.users user
  let channels ← hashDelete u.channels x
  return { m with users := Function.update m.users user { u with channels := channels } }

end Chirc
