import Chirc.Context.Api
import Chirc.Server.Replies
import Chirc.Theory.Allocation

/-! # Messages on the heap

The functions of `message.c` that construct, render and free a message, and those of `main.c` that
write a reply, with the blocks that they allocate and free. A call of `malloc` or `strdup` is taken
to succeed. An access to a block that has been freed, which includes freeing it again, is a fault.
-/

namespace Chirc.MessageHeap

open Allocation (Heap)

/-- `chirc_message_t`; the strings are blocks of their own unless `raw` is set. -/
structure MessageStruct where
  pfx : Option Nat
  cmd : Nat
  params : List Nat
  longlast : Bool
  raw : Option Nat
  deriving DecidableEq, Repr

inductive Block
  /-- memory that nothing has been written to -/
  | uninit
  | str (s : CStr)
  | message (msg : MessageStruct)
  /-- `chirc_connection_t` with `type` and `peer` -/
  | connection (type : ConnType) (peer : Nat)
  /-- `chirc_user_t` with `nick` -/
  | user (nick : Option Nat)
  /-- `chirc_server_t` with `servername` -/
  | server (servername : Option Nat)
  deriving DecidableEq, Repr

/-! ## Accesses -/

def load (h : Heap Block) (a : Nat) : Res Block :=
  match h.block a with
  | some b => .ok b
  | none => .error .useAfterFree

def strAt (h : Heap Block) (a : Nat) : Res CStr := do
  match ← load h a with
  | .str s => return s
  | _ => throw .uninitRead

def messageAt (h : Heap Block) (a : Nat) : Res MessageStruct := do
  match ← load h a with
  | .message msg => return msg
  | _ => throw .uninitRead

/-- `conn->type` and `conn->peer` -/
def connectionAt (h : Heap Block) (a : Nat) : Res (ConnType × Nat) := do
  match ← load h a with
  | .connection type peer => return (type, peer)
  | _ => throw .uninitRead

/-- `user->nick` or `server->servername` -/
def peerName (h : Heap Block) (a : Nat) : Res (Option Nat) := do
  match ← load h a with
  | .user nick => return nick
  | .server servername => return servername
  | _ => throw .uninitRead

/-- `malloc` for a struct -/
def malloc (h : Heap Block) : Heap Block × Nat := (h.alloc .uninit, h.next)

def strdup (h : Heap Block) (s : CStr) : Heap Block × Nat := (h.alloc (.str s), h.next)

/-- The block at `a` is written to. -/
def store (h : Heap Block) (a : Nat) (b : Block) : Res (Heap Block) := do
  let _ ← load h a
  return h.set a b

def free (h : Heap Block) (a : Nat) : Res (Heap Block) := do
  let _ ← load h a
  return h.free a

/-! ## `message.c` -/

/-- `chirc_message_construct` -/
def chircMessageConstruct (h : Heap Block) (msg : Nat) (pfx : Option CStr) (cmd : CStr) :
    Res (Heap Block) :=
  match pfx with
  | some s =>
    let (h, p) := strdup h s
    let (h, c) := strdup h cmd
    store h msg (.message ⟨some p, c, [], false, none⟩)
  | none =>
    let (h, c) := strdup h cmd
    store h msg (.message ⟨none, c, [], false, none⟩)

/-- `chirc_message_add_parameter` -/
def chircMessageAddParameter (h : Heap Block) (msg : Nat) (param : CStr) (longlast : Bool) :
    Res (Heap Block) := do
  let m ← messageAt h msg
  let params ← pushParam m.params h.next
  store (h.alloc (.str param)) msg (.message { m with params := params, longlast := longlast })

/-- Add the parameters `ps` in order, each with its `longlast` argument. -/
def addParameters (h : Heap Block) (msg : Nat) (ps : List (CStr × Bool)) : Res (Heap Block) :=
  ps.foldlM (fun h p => chircMessageAddParameter h msg p.1 p.2) h

/-- The parameter for the peer of a connection: its nick or server name, or a star if that is NULL
-/
def addPeer (h : Heap Block) (msg peer : Nat) : Res (Heap Block) := do
  match ← peerName h peer with
  | none => chircMessageAddParameter h msg (lit "*") false
  | some name => chircMessageAddParameter h msg (← strAt h name) false

/-- `chirc_message_construct_reply` -/
def chircMessageConstructReply (ctx : Ctx) (h : Heap Block) (msg conn : Nat) (code : CStr) :
    Res (Heap Block) := do
  let (type, peer) ← connectionAt h conn
  match type with
  | .quit => chircMessageConstruct h msg none code
  | .unknown =>
    let h ← chircMessageConstruct h msg (some ctx.servername) code
    chircMessageAddParameter h msg (lit "*") false
  | _ =>
    let h ← chircMessageConstruct h msg (some ctx.servername) code
    addPeer h msg peer

/-- The strings that the fields of a message point to -/
def readMessage (h : Heap Block) (a : Nat) : Res Message := do
  let msg ← messageAt h a
  let pfx ← msg.pfx.mapM (strAt h)
  let cmd ← strAt h msg.cmd
  let params ← msg.params.mapM (strAt h)
  return ⟨pfx, cmd, params, msg.longlast, none⟩

/-- `chirc_message_to_string` of a message that was constructed: the heap afterwards, and `*s`. -/
def chircMessageToString (h : Heap Block) (msg : Nat) : Res (Heap Block × Nat) := do
  let text ← Chirc.chircMessageToString (← readMessage h msg)
  return strdup h text

/-- `chirc_message_free` -/
def chircMessageFree (h : Heap Block) (a : Nat) : Res (Heap Block) := do
  let msg ← messageAt h a
  match msg.raw with
  | some raw => free h raw
  | none => (msg.pfx.toList ++ msg.cmd :: msg.params).foldlM free h

/-! ## Replies -/

/-- The blocks that a function that writes a reply allocates at first, and the heap then -/
structure Frame where
  heap : Heap Block
  msg : Nat
  connection : Nat
  user : Nat
  nick : Nat

/-- `user->nick = strdup(nickname)`, `connection->peer.user = user` and `connection->type = type`,
for new structs -/
def newFrame (h : Heap Block) (type : ConnType) (nickname : CStr) : Frame :=
  let (h, msg) := malloc h
  let (h, connection) := malloc h
  let (h, user) := malloc h
  let (h, nick) := strdup h nickname
  let h := (h.set user (.user (some nick))).set connection (.connection type user)
  ⟨h, msg, connection, user, nick⟩

/-- The functions that write a reply, which have the same body but for the type of the connection,
the parameters that they add to the message, and what else they free: the heap afterwards, and the
bytes that are written to the socket. -/
def writeReply (ctx : Ctx) (type : ConnType) (code nickname : CStr)
    (ps : Heap Block → Res (List (CStr × Bool))) (freeMore : Heap Block → Res (Heap Block))
    (h : Heap Block) : Res (Heap Block × CStr) := do
  let fr := newFrame h type nickname
  let h ← chircMessageConstructReply ctx fr.heap fr.msg fr.connection code
  let h ← addParameters h fr.msg (← ps h)
  let (h, responseStr) ← chircMessageToString h fr.msg
  let text ← strAt h responseStr
  -- neither `msg` nor `response_str` is freed
  let h ← chircMessageFree h fr.msg
  let h ← freeMore h
  let h ← free h fr.nick
  let h ← free h fr.user
  let h ← free h fr.connection
  return (h, wire text)

/-- A reply with parameters that are given as strings -/
def writeStrings (ctx : Ctx) (type : ConnType) (code nickname : CStr) (ps : List (CStr × Bool)) :
    Heap Block → Res (Heap Block × CStr) :=
  writeReply ctx type code nickname (fun _ => .ok ps) .ok

/-- `response_PING` -/
def responsePing (ctx : Ctx) : Heap Block → Res (Heap Block × CStr) :=
  writeStrings ctx .quit (lit "PONG") [] [(lit "xixi", false)]

/-- `my_construct_user_reply` -/
def myConstructUserReply (ctx : Ctx) (code responseMsg : CStr) (extra : Option CStr)
    (nickname : CStr) : Heap Block → Res (Heap Block × CStr) :=
  writeStrings ctx .user code nickname (optParam false extra ++ [(responseMsg, true)])

/-- `my_construct_user_RPL_MYINFO_reply` -/
def myConstructUserRplMyinfoReply (ctx : Ctx) (code : CStr) (responseMsg : Option CStr)
    (nickname version userMode channelMode : CStr) : Heap Block → Res (Heap Block × CStr) :=
  writeStrings ctx .user code nickname (optParam true responseMsg ++
    [(ctx.servername, false), (version, false), (userMode, false), (channelMode, false)])

/-- `my_construct_user_LUSERS_reply` -/
def myConstructUserLusersReply (ctx : Ctx) (code : CStr) (longParamRe : Option CStr)
    (nickname : CStr) (extra : Option CStr) : Heap Block → Res (Heap Block × CStr) :=
  writeStrings ctx .user code nickname (optParam false extra ++ optParam true longParamRe)

/-- `my_construct_user_MOTD_reply` -/
def myConstructUserMotdReply (ctx : Ctx) (code : CStr) (longParamRe : Option CStr)
    (nickname : CStr) : Heap Block → Res (Heap Block × CStr) :=
  writeStrings ctx .user code nickname (optParam true longParamRe)

/-- `my_construct_user_QUIT_reply` -/
def myConstructUserQuitReply (ctx : Ctx) (cmd : CStr) (longParamRe : Option CStr)
    (nickname : CStr) : Heap Block → Res (Heap Block × CStr) :=
  writeStrings ctx .quit cmd nickname (optParam true longParamRe)

/-- `my_construct_user_UNKNOWN_reply` -/
def myConstructUserUnknownReply (ctx : Ctx) (code nickname : CStr) (cmd longParamRe : Option CStr) :
    Heap Block → Res (Heap Block × CStr) :=
  writeStrings ctx .user code nickname (optParam true cmd ++ optParam true longParamRe)

/-- `my_construct_user_WHOIS_NOSUCHNICK_reply` -/
def myConstructUserWhoisNosuchnickReply (ctx : Ctx) (code : CStr) (longParamRe : Option CStr)
    (nickname : CStr) (extra : Option CStr) : Heap Block → Res (Heap Block × CStr) :=
  writeStrings ctx .user code nickname (optParam false extra ++ optParam true longParamRe)

/-- `my_construct_user_WHOIS_WHOISSERVER_reply` -/
def myConstructUserWhoisWhoisserverReply (ctx : Ctx) (code nickname extra : CStr) :
    Heap Block → Res (Heap Block × CStr) :=
  writeStrings ctx .user code nickname
    [(extra, false), (ctx.servername, false), (lit "Ubuntu", true)]

/-- `my_construct_user_WHOIS_ENDOFWHOIS_reply` -/
def myConstructUserWhoisEndofwhoisReply (ctx : Ctx) (code nickname cmd extra : CStr) :
    Heap Block → Res (Heap Block × CStr) :=
  writeStrings ctx .user code nickname [(cmd, true), (extra, true)]

/-- `my_construct_user_WHOIS_reply` for the message at `userMsg` -/
def myConstructUserWhoisReply (ctx : Ctx) (code : CStr) (userMsg : Nat) (nickname : CStr) :
    Heap Block → Res (Heap Block × CStr) :=
  writeReply ctx .user code nickname
    (fun h => do
      let msg ← readMessage h userMsg
      return (msg.cmd, false) :: copiedParams msg.params)
    (fun h => chircMessageFree h userMsg)

/-- What the NICK and the USER branch do for a node of `connection_hash`: a message with the command
and the parameters of another one -/
def copyMessage (h : Heap Block) (cmd : CStr) (params : List CStr) : Res (Heap Block × Nat) := do
  let (h, msg) := malloc h
  let h ← chircMessageConstruct h msg none cmd
  let h ← addParameters h msg (copiedParams params)
  return (h, msg)

/-! ## Sequences of calls -/

/-- A function that writes a reply, and its arguments -/
inductive ReplyCall
  | ping
  | user (code responseMsg : CStr) (extra : Option CStr) (nickname : CStr)
  | myinfo (code : CStr) (responseMsg : Option CStr) (nickname version userMode channelMode : CStr)
  | lusers (code : CStr) (longParamRe : Option CStr) (nickname : CStr) (extra : Option CStr)
  | motd (code : CStr) (longParamRe : Option CStr) (nickname : CStr)
  | quit (cmd : CStr) (longParamRe : Option CStr) (nickname : CStr)
  | unknown (code nickname : CStr) (cmd longParamRe : Option CStr)
  | nosuchnick (code : CStr) (longParamRe : Option CStr) (nickname : CStr) (extra : Option CStr)
  | whoisserver (code nickname extra : CStr)
  | endofwhois (code nickname cmd extra : CStr)

namespace ReplyCall

/-- The call on messages that are values -/
def run (ctx : Ctx) : ReplyCall → Work → Res Work
  | ping => Chirc.responsePing ctx
  | user code responseMsg extra nickname =>
    Chirc.myConstructUserReply ctx code responseMsg extra nickname
  | myinfo code responseMsg nickname version userMode channelMode =>
    Chirc.myConstructUserRplMyinfoReply ctx code responseMsg nickname version userMode channelMode
  | lusers code longParamRe nickname extra =>
    Chirc.myConstructUserLusersReply ctx code longParamRe nickname extra
  | motd code longParamRe nickname => Chirc.myConstructUserMotdReply ctx code longParamRe nickname
  | quit cmd longParamRe _ => Chirc.myConstructUserQuitReply ctx cmd longParamRe
  | unknown code nickname cmd longParamRe =>
    Chirc.myConstructUserUnknownReply ctx code nickname cmd longParamRe
  | nosuchnick code longParamRe nickname extra =>
    Chirc.myConstructUserWhoisNosuchnickReply ctx code longParamRe nickname extra
  | whoisserver code nickname extra =>
    Chirc.myConstructUserWhoisWhoisserverReply ctx code nickname extra
  | endofwhois code nickname cmd extra =>
    Chirc.myConstructUserWhoisEndofwhoisReply ctx code nickname cmd extra

/-- The call on the heap -/
def onHeap (ctx : Ctx) : ReplyCall → Heap Block → Res (Heap Block × CStr)
  | ping => responsePing ctx
  | user code responseMsg extra nickname => myConstructUserReply ctx code responseMsg extra nickname
  | myinfo code responseMsg nickname version userMode channelMode =>
    myConstructUserRplMyinfoReply ctx code responseMsg nickname version userMode channelMode
  | lusers code longParamRe nickname extra =>
    myConstructUserLusersReply ctx code longParamRe nickname extra
  | motd code longParamRe nickname => myConstructUserMotdReply ctx code longParamRe nickname
  | quit cmd longParamRe nickname => myConstructUserQuitReply ctx cmd longParamRe nickname
  | unknown code nickname cmd longParamRe =>
    myConstructUserUnknownReply ctx code nickname cmd longParamRe
  | nosuchnick code longParamRe nickname extra =>
    myConstructUserWhoisNosuchnickReply ctx code longParamRe nickname extra
  | whoisserver code nickname extra => myConstructUserWhoisWhoisserverReply ctx code nickname extra
  | endofwhois code nickname cmd extra =>
    myConstructUserWhoisEndofwhoisReply ctx code nickname cmd extra

end ReplyCall

/-- What the server does with messages that it constructs: a reply, a node of `connection_hash` with
a copy of a message, or a WHOIS reply with the message of such a node -/
inductive MessageOp
  | reply (call : ReplyCall)
  | register (name : CStr) (fd : Nat) (cmd : CStr) (params : List CStr)
  | whois (code name nickname : CStr)

/-- The heap, the nodes of `connection_hash` with `name` and `msg`, and what has been written to
sockets -/
structure HeapWork where
  heap : Heap Block
  nodes : List (CStr × Nat)
  written : List CStr

namespace MessageOp

def run (ctx : Ctx) : MessageOp → Work → Res Work
  | reply call, w => call.run ctx w
  | register name fd cmd params, w => do
    let msg ← Chirc.addParameters (Chirc.chircMessageConstruct none cmd) (copiedParams params)
    let node : ConnectionMap := ⟨name, fd, .live msg⟩
    return { w with srv.connectionHash := addConnectionMapNode w.srv.connectionHash node }
  | whois code name nickname, w =>
    match findConnectionMapNode w.srv.connectionHash name with
    | none => .ok w
    | some node => Chirc.myConstructUserWhoisReply ctx code node nickname w

def onHeap (ctx : Ctx) : MessageOp → HeapWork → Res HeapWork
  | reply call, s => do
    let r ← call.onHeap ctx s.heap
    return { s with heap := r.1, written := s.written ++ [r.2] }
  | register name _ cmd params, s => do
    let r ← copyMessage s.heap cmd params
    return { s with heap := r.1, nodes := (name, r.2) :: s.nodes }
  | whois code name nickname, s =>
    match s.nodes.find? (·.1 == name) with
    | none => .ok s
    | some node => do
      let r ← myConstructUserWhoisReply ctx code node.2 nickname s.heap
      return { s with heap := r.1, written := s.written ++ [r.2] }

end MessageOp

def runMessageOps (ctx : Ctx) (ops : List MessageOp) : Res Work :=
  ops.foldlM (fun w op => op.run ctx w) ⟨.init, [], [], false⟩

def runMessageOpsOnHeap (ctx : Ctx) (h : Heap Block) (ops : List MessageOp) : Res HeapWork :=
  ops.foldlM (fun s op => op.onHeap ctx s) ⟨h, [], []⟩

end Chirc.MessageHeap
