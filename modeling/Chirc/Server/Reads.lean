import Chirc.Server.Commands

/-! # Reads of the parameters

At which indices `subthread_work` reads `msg->params` while it handles a parsed message. `dispatch`
has the parameters as a list; in the source they are an array of which the parser sets the first
`nparams` entries. -/

namespace Chirc

/-- The loops over the parameters, from `0` to `msg->nparams - 1` -/
def paramsLoop (msg : Message) : List Nat := List.range msg.params.length

/-- The USER branch: the parameters are copied for `user_head`, and once more for
`connection_hash` when the connection is registered. -/
def userReads (srv : Server) (msg : Message) : List Nat :=
  match msg.params.head? with
  | none => []
  | some name =>
    if msg.params.length < 4 then []
    else if (findUserNode srv.userHead name).isSome then []
    else if (findUserNode srv.nickHead name).isSome ∧ msg.params.length = 4 then
      paramsLoop msg ++ paramsLoop msg
    else paramsLoop msg

/-- The indices at which `msg->params` is read, in order. -/
def paramsRead (srv : Server) (msg : Message) : List Nat :=
  -- `char *name = msg->params[0]`, before the tests of the command
  0 ::
    match command msg.cmd with
    | .quit => if msg.params.length = 1 then [0] else []
    | .privmsg => paramsLoop msg
    | .user => userReads srv msg
    | _ => []

end Chirc
