import Chirc.Server.Replies

/-! # Handling one command

The branches of `subthread_work` for a parsed message, and the test that selects one of them.
`sockfd` is the descriptor of the thread. -/

namespace Chirc

/-- `(node != NULL ? node->name : "*")` for the last node of `nick_head` -/
def leastNick (srv : Server) : CStr := ((getLeastUserNode srv.nickHead).map (·.name)).getD (lit "*")

/-- `(sockfd_nick_node != NULL ? sockfd_nick_node->name : "")` -/
def sockfdNick (srv : Server) (sockfd : Nat) : CStr :=
  ((findSockfdNickMapNode srv.sockfdNickHash sockfd).map (·.name)).getD []

/-- `msg->params[0]` of a parsed message, once it is dereferenced. -/
def firstParam (msg : Message) : Res CStr :=
  match msg.params with
  | [] => .error .uninitRead
  | p :: _ => .ok p

/-- The QUIT branch. The thread closes its socket and stays in its loop. -/
def onQuit (ctx : Ctx) (msg : Message) (w : Work) : Res Work := do
  let reason := match msg.params with
    | [p] => p
    | _ => lit "Client Quit"
  let w ← sprintfBuf (lit "Closing Link: " ++ leastNick w.srv ++ lit " (" ++ reason ++ lit ")") w
  let w ← responseQuit ctx w.buf w
  return { w with
    closed := true
    srv.connectionCount := w.srv.connectionCount - 1
    srv.registeredConnectionCount := w.srv.registeredConnectionCount - 1 }

/-- The WHOIS branch -/
def onWhois (ctx : Ctx) (sockfd : Nat) (msg : Message) (w : Work) : Res Work :=
  match msg.params with
  | [name] => responseWhois ctx name sockfd w
  | _ => .ok w

/-- The PRIVMSG branch -/
def onPrivmsg (ctx : Ctx) (msg : Message) (w : Work) : Res Work := do
  let name ← firstParam msg
  match findConnectionMapNode w.srv.connectionHash name with
  | some _ => return w
  | none =>
    let w ← sprintfBuf (lit "You have not registered") w
    myConstructUserReply ctx errNotregistered w.buf none (leastNick w.srv) w

/-- The text of the welcome -/
def welcomeText (ctx : Ctx) (nick user : CStr) : CStr :=
  lit "Welcome to the Internet Relay Network " ++ nick ++ lit "!" ++ user ++ lit "@" ++
    ctx.servername

/-- The registration, which the NICK and the USER branch spell out in the same way: `nick` and
`user` are the names of the nodes that were matched, `cmd` and `params` those of the USER
message, and `name` is the parameter of the command being handled. -/
def completeRegistration (ctx : Ctx) (sockfd : Nat) (nick user cmd : CStr) (params : List CStr)
    (welcomed name : CStr) (w : Work) : Res Work := do
  let w ← sprintfBuf (welcomeText ctx nick user) w
  let key ← copyName nick
  let msg ← addParameters (chircMessageConstruct none cmd) (copiedParams params)
  let node : ConnectionMap := ⟨key, sockfd, .live msg⟩
  let w := { w with srv.connectionHash := addConnectionMapNode w.srv.connectionHash node }
  let w ← myConstructUserReply ctx rplWelcome w.buf none welcomed w
  let w ← sprintfBuf (lit "Your host is " ++ ctx.servername ++ lit ", running version 1.0") w
  let w ← myConstructUserReply ctx rplYourhost w.buf none name w
  let w ← sprintfBuf (lit "This server was created 20240701") w
  let w ← myConstructUserReply ctx rplCreated w.buf none name w
  let w ← myConstructUserRplMyinfoReply ctx rplMyinfo none name (lit "1.0") (lit "ao")
    (lit "mtov") w
  let w ← responseLusers ctx name w
  let w ← responseMotd ctx name false w
  let key ← copyName nick
  return { w with srv.sockfdNickHash := addSockfdNickMapNode w.srv.sockfdNickHash ⟨sockfd, key⟩ }

/-- The NICK branch -/
def onNick (ctx : Ctx) (sockfd : Nat) (msg : Message) (w : Work) : Res Work := do
  -- `atomic_fetch_and(&registered_connection_count, 1)`
  let w := { w with srv.registeredConnectionCount := w.srv.registeredConnectionCount % 2 }
  match msg.params with
  | [] =>
    let w ← sprintfBuf (lit "No nickname given") w
    myConstructUserReply ctx errNonicknamegiven w.buf none (leastNick w.srv) w
  | [name] =>
    match findConnectionMapNode w.srv.connectionHash name with
    | some _ =>
      let w ← sprintfBuf (lit "Nickname is already in use") w
      myConstructUserReply ctx errNicknameinuse w.buf (some name) (lit "*") w
    | none =>
      match findUserNode w.srv.nickHead name with
      | some _ => return w
      | none =>
        let key ← copyName name
        let w := { w with srv.nickHead := addUserNode w.srv.nickHead ⟨key, none⟩ }
        match findUserNode w.srv.userHead name with
        | none => return w
        | some userNode =>
          match userNode.msg with
          | none => .error .uninitRead
          | some user =>
            completeRegistration ctx sockfd key userNode.name user.cmd user.params name name w
  | _ => return w

/-- The USER branch. The lookup of the name comes before the test of the arity. -/
def onUser (ctx : Ctx) (sockfd : Nat) (msg : Message) (w : Work) : Res Work := do
  let name ← firstParam msg
  let userNode := findUserNode w.srv.userHead name
  if msg.params.length < 4 then
    let w ← sprintfBuf (lit "Not enough parameters") w
    myConstructUserReply ctx errNeedmoreparams w.buf (some (lit "USER")) (leastNick w.srv) w
  else
    match userNode with
    | some _ => return w
    | none =>
      let key ← copyName name
      let copy ← addParameters (chircMessageConstruct none msg.cmd) (copiedParams msg.params)
      let w := { w with srv.userHead := addUserNode w.srv.userHead ⟨key, some copy⟩ }
      match findUserNode w.srv.nickHead name with
      | none => return w
      | some nickNode =>
        if msg.params.length = 4 then
          completeRegistration ctx sockfd nickNode.name key msg.cmd msg.params nickNode.name name w
        else
          return w

/-- The branch for a command that is none of the others -/
def onUnknown (ctx : Ctx) (sockfd : Nat) (msg : Message) (w : Work) : Res Work :=
  match findSockfdNickMapNode w.srv.sockfdNickHash sockfd with
  | none => .ok w
  | some node =>
    myConstructUserUnknownReply ctx errUnknowncommand node.name (some msg.cmd)
      (some (lit "Unknown command")) w

/-- The commands that `subthread_work` tells apart. -/
inductive Command
  | ping
  | pong
  | quit
  | lusers
  | motd
  | whois
  | privmsg
  | nick
  | user
  | unknown
  deriving DecidableEq, Repr

/-- The chain of tests on `msg->cmd`. The first seven compare the whole word; NICK and USER
compare four bytes, and so accept longer words. -/
def command (cmd : CStr) : Command :=
  if cmd = lit "PING" then .ping
  else if cmd = lit "PONG" then .pong
  else if cmd = lit "QUIT" then .quit
  else if cmd = lit "LUSERS" then .lusers
  else if cmd = lit "MOTD" then .motd
  else if cmd = lit "WHOIS" then .whois
  else if cmd = lit "PRIVMSG" then .privmsg
  else if lit "NICK" <+: cmd then .nick
  else if lit "USER" <+: cmd then .user
  else .unknown

/-- The handling of a parsed message. -/
def dispatch (ctx : Ctx) (sockfd : Nat) (msg : Message) (w : Work) : Res Work :=
  match command msg.cmd with
  | .ping => responsePing ctx w
  | .pong => .ok w
  | .quit => onQuit ctx msg w
  | .lusers => responseLusers ctx (sockfdNick w.srv sockfd) w
  | .motd => responseMotd ctx (sockfdNick w.srv sockfd) true w
  | .whois => onWhois ctx sockfd msg w
  | .privmsg => onPrivmsg ctx msg w
  | .nick => onNick ctx sockfd msg w
  | .user => onUser ctx sockfd msg w
  | .unknown => onUnknown ctx sockfd msg w

end Chirc
