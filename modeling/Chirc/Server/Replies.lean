import Chirc.Server.State

/-! # Replies

The functions of `main.c` that build a message and write it to the socket. All of them are
`writeReply` with the parameters that the function adds, in its order. -/

namespace Chirc

/-! ## Reply codes (`reply.h`) -/

def rplWelcome : CStr := lit "001"
def rplYourhost : CStr := lit "002"
def rplCreated : CStr := lit "003"
def rplMyinfo : CStr := lit "004"
def rplLuserclient : CStr := lit "251"
def rplLuserop : CStr := lit "252"
def rplLuserunknown : CStr := lit "253"
def rplLuserchannels : CStr := lit "254"
def rplLuserme : CStr := lit "255"
def rplWhoisuser : CStr := lit "311"
def rplWhoisserver : CStr := lit "312"
def rplEndofwhois : CStr := lit "318"
def rplMotd : CStr := lit "372"
def rplMotdstart : CStr := lit "375"
def rplEndofmotd : CStr := lit "376"
def errNosuchnick : CStr := lit "401"
def errUnknowncommand : CStr := lit "421"
def errNomotd : CStr := lit "422"
def errNonicknamegiven : CStr := lit "431"
def errNicknameinuse : CStr := lit "433"
def errNotregistered : CStr := lit "451"
def errNeedmoreparams : CStr := lit "461"

/-! ## Building and writing -/

/-- What the handling of one command reads and changes: the shared state, the buffer `buf` of
the thread, the messages written to the socket so far, and whether `close(sockfd)` was called. -/
structure Work where
  srv : Server
  buf : CStr
  out : List Message
  closed : Bool
  deriving DecidableEq, Repr

/-- The bytes of a message that reach the socket: `response_str` up to its first CRLF. -/
def wire : CStr → CStr
  | [] => []
  | [b] => [b]
  | b :: c :: s => if b = CR ∧ c = LF then [CR, LF] else b :: wire (c :: s)

/-- `memset(buf, 0, sizeof buf); sprintf(buf, ...);` -/
def sprintfBuf (text : CStr) (w : Work) : Res Work :=
  if text.length < 1024 then .ok { w with buf := text } else .error .bufOverflow

/-- Construct a reply with the parameters `ps`, render it and write it. -/
def writeReply (ctx : Ctx) (conn : Connection) (code : CStr) (ps : List (CStr × Bool))
    (w : Work) : Res Work := do
  let msg ← chircMessageConstructReply ctx conn code
  let msg ← addParameters msg ps
  let _ ← chircMessageToString msg
  return { w with out := w.out ++ [msg] }

/-- A parameter that is added unless it is NULL. -/
def optParam (longlast : Bool) (p : Option CStr) : List (CStr × Bool) :=
  (p.map (·, longlast)).toList

/-- The parameters of a stored message, the last of them long. -/
def copiedParams : List CStr → List (CStr × Bool)
  | [] => []
  | [p] => [(p, true)]
  | p :: q :: ps => (p, false) :: copiedParams (q :: ps)

/-- `my_construct_user_reply` -/
def myConstructUserReply (ctx : Ctx) (code responseMsg : CStr) (extra : Option CStr)
    (nickname : CStr) : Work → Res Work :=
  writeReply ctx (.user (some nickname)) code (optParam false extra ++ [(responseMsg, true)])

/-- `my_construct_user_RPL_MYINFO_reply` -/
def myConstructUserRplMyinfoReply (ctx : Ctx) (code : CStr) (responseMsg : Option CStr)
    (nickname version userMode channelMode : CStr) : Work → Res Work :=
  writeReply ctx (.user (some nickname)) code (optParam true responseMsg ++
    [(ctx.servername, false), (version, false), (userMode, false), (channelMode, false)])

/-- `my_construct_user_LUSERS_reply` -/
def myConstructUserLusersReply (ctx : Ctx) (code : CStr) (longParamRe : Option CStr)
    (nickname : CStr) (extra : Option CStr) : Work → Res Work :=
  writeReply ctx (.user (some nickname)) code (optParam false extra ++ optParam true longParamRe)

/-- `my_construct_user_MOTD_reply` -/
def myConstructUserMotdReply (ctx : Ctx) (code : CStr) (longParamRe : Option CStr)
    (nickname : CStr) : Work → Res Work :=
  writeReply ctx (.user (some nickname)) code (optParam true longParamRe)

/-- `my_construct_user_QUIT_reply`; the nickname it is given is not used by a reply of this
type. -/
def myConstructUserQuitReply (ctx : Ctx) (cmd : CStr) (longParamRe : Option CStr) :
    Work → Res Work :=
  writeReply ctx .quit cmd (optParam true longParamRe)

/-- `my_construct_user_UNKNOWN_reply` -/
def myConstructUserUnknownReply (ctx : Ctx) (code nickname : CStr) (cmd longParamRe : Option CStr) :
    Work → Res Work :=
  writeReply ctx (.user (some nickname)) code (optParam true cmd ++ optParam true longParamRe)

/-- `my_construct_user_WHOIS_NOSUCHNICK_reply` -/
def myConstructUserWhoisNosuchnickReply (ctx : Ctx) (code : CStr) (longParamRe : Option CStr)
    (nickname : CStr) (extra : Option CStr) : Work → Res Work :=
  writeReply ctx (.user (some nickname)) code (optParam false extra ++ optParam true longParamRe)

/-- `my_construct_user_WHOIS_reply` on the message of a node of `connection_hash`, which it
frees once the reply is written. It is never called with another message or with NULL. -/
def myConstructUserWhoisReply (ctx : Ctx) (code : CStr) (node : ConnectionMap) (nickname : CStr)
    (w : Work) : Res Work := do
  let userMsg ← node.msg.read
  let w ← writeReply ctx (.user (some nickname)) code
    ((userMsg.cmd, false) :: copiedParams userMsg.params) w
  return { w with srv.connectionHash := freeConnectionMapMsg w.srv.connectionHash node.name }

/-- `my_construct_user_WHOIS_WHOISSERVER_reply` -/
def myConstructUserWhoisWhoisserverReply (ctx : Ctx) (code nickname extra : CStr) :
    Work → Res Work :=
  writeReply ctx (.user (some nickname)) code
    [(extra, false), (ctx.servername, false), (lit "Ubuntu", true)]

/-- `my_construct_user_WHOIS_ENDOFWHOIS_reply` -/
def myConstructUserWhoisEndofwhoisReply (ctx : Ctx) (code nickname cmd extra : CStr) :
    Work → Res Work :=
  writeReply ctx (.user (some nickname)) code [(cmd, true), (extra, true)]

/-! ## Bursts of replies -/

/-- `response_PING` -/
def responsePing (ctx : Ctx) : Work → Res Work :=
  writeReply ctx .quit (lit "PONG") [(lit "xixi", false)]

/-- `response_QUIT` -/
def responseQuit (ctx : Ctx) (longParamRe : CStr) : Work → Res Work :=
  myConstructUserQuitReply ctx (lit "ERROR") (some longParamRe)

/-- `response_LUSERS` -/
def responseLusers (ctx : Ctx) (nickname : CStr) (w : Work) : Res Work := do
  let users : Int := getConnectionMapNodeSize w.srv.connectionHash
  let w ← myConstructUserLusersReply ctx rplLuserclient
    (some (lit "There are " ++ fmtD users ++ lit " users and 0 services on 1 servers"))
    nickname none w
  let w ← myConstructUserLusersReply ctx rplLuserop (some (lit "operator(s) online")) nickname
    (some (lit "0")) w
  let unknownCnt := w.srv.connectionCount - getConnectionMapNodeSize w.srv.connectionHash
  let w ← myConstructUserLusersReply ctx rplLuserunknown (some (lit "unknown connection(s)"))
    nickname (some (fmtD unknownCnt)) w
  let w ← myConstructUserLusersReply ctx rplLuserchannels (some (lit "channels formed")) nickname
    (some (lit "0")) w
  myConstructUserLusersReply ctx rplLuserme
    (some (lit "I have " ++ fmtD (getSockfdNickMapNodeSize w.srv.connectionHash) ++
      lit " clients and 1 servers")) nickname none w

/-- The results of `fgets(line, sizeof(line), file)` until it returns NULL, `line` being an array
of 256 bytes: each stops after a newline or after 255 bytes. `acc` holds the bytes that the
current call has read. -/
def fgetsLines : List Byte → List Byte → List (List Byte)
  | acc, [] => if acc = [] then [] else [acc]
  | acc, b :: bs =>
    let acc := acc ++ [b]
    if b = LF ∨ acc.length = 255 then acc :: fgetsLines [] bs else fgetsLines acc bs

/-- The loop over the lines of the MOTD file. The newline that `fgets` keeps is at
`line[n - 1]`, so that the test of `line[n]` never removes it. -/
def motdLoop (ctx : Ctx) (nickname : CStr) : List (List Byte) → Work → Res Work
  | [], w => .ok w
  | line :: lines, w => do
    let w ← myConstructUserMotdReply ctx rplMotd (some (lit "- " ++ cstrAt line 0)) nickname w
    motdLoop ctx nickname lines w

/-- `response_MOTD` -/
def responseMotd (ctx : Ctx) (nickname : CStr) (expectMotd : Bool) (w : Work) : Res Work :=
  match (if expectMotd then ctx.motd else none) with
  | none =>
    myConstructUserMotdReply ctx errNomotd (some (lit "MOTD File is missing")) nickname w
  | some file => do
    let w ← myConstructUserReply ctx rplMotdstart (lit "- .* Message of the day - ") none nickname w
    let w ← motdLoop ctx nickname (fgetsLines [] file) w
    myConstructUserMotdReply ctx rplEndofmotd (some (lit "End of MOTD command")) nickname w

/-- `response_WHOIS`, which does not look whether the sender is registered. -/
def responseWhois (ctx : Ctx) (nickname : CStr) (sockfd : Nat) (w : Work) : Res Work :=
  let sockfdNickNode := findSockfdNickMapNode w.srv.sockfdNickHash sockfd
  match findConnectionMapNode w.srv.connectionHash nickname, sockfdNickNode with
  | _, none => .error .nullDeref
  | none, some asker =>
    myConstructUserWhoisNosuchnickReply ctx errNosuchnick (some (lit "No such nick/channel"))
      asker.name (some nickname) w
  | some node, some asker => do
    let w ← myConstructUserWhoisReply ctx rplWhoisuser node asker.name w
    let w ← myConstructUserWhoisWhoisserverReply ctx rplWhoisserver asker.name nickname w
    myConstructUserWhoisEndofwhoisReply ctx rplEndofwhois asker.name asker.name
      (lit "End of WHOIS list") w

end Chirc
