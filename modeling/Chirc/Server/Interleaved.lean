import Chirc.Server.Commands
import Chirc.Theory.Interleaving

/-! # Registration in several threads

The NICK and the USER branch of `subthread_work` step by step, where other threads may take their
steps in between. A step is one call of a helper that holds a mutex, or one access to `nick_head` or
`user_head`. What a thread does on its own in between, such as formatting a text or allocating a
node, is part of a step. The steps that only read, to fill in the replies after the welcome, are
left out.

`add_user_node` and `find_user_node` are only ever given a value read from `nick_head` or
`user_head`. Such a pointer is NULL or the address of a node that was made the head of a list; it is
the number of the list that this node begins, whether or not a head still points to it. -/

namespace Chirc

/-- The two lists of names, and the commands that add to them. -/
inductive Side
  | nick
  | user
  deriving DecidableEq, Repr

namespace Side

def other : Side → Side
  | .nick => .user
  | .user => .nick

/-- The branch of the dispatcher -/
def command : Side → Command
  | .nick => .nick
  | .user => .user

end Side

/-- A NICK or USER command received on `fd`, with `name = msg->params[0]`. A NICK that has not
exactly one parameter touches no table, and is left out. -/
structure Request where
  side : Side
  fd : Nat
  msg : Message
  name : CStr
  command_eq : command msg.cmd = side.command
  name_eq : msg.params.head? = some name
  alone : side = .nick → msg.params = [name]

/-- The variables that the threads share: the lists by their numbers, the two heads, the tables,
and the welcomes sent so far with the descriptors they were written to. -/
structure Shared where
  lists : List (List UserNode)
  nickHead : Option Nat
  userHead : Option Nat
  connectionHash : List ConnectionMap
  sockfdNickHash : SockfdNickHash
  welcomes : List (Nat × CStr)
  deriving DecidableEq, Repr

namespace Shared

/-- The nodes that are reached from a pointer. -/
def nodes (sh : Shared) : Option Nat → List UserNode
  | none => []
  | some i => sh.lists[i]?.getD []

/-- `nick_head` or `user_head` -/
def head (sh : Shared) : Side → Option Nat
  | .nick => sh.nickHead
  | .user => sh.userHead

/-- The list of a side. -/
def list (sh : Shared) (s : Side) : List UserNode := sh.nodes (sh.head s)

/-- `nick_head = node` or `user_head = node`, for a new node -/
def setHead (sh : Shared) (s : Side) (node : UserNode) : Shared :=
  let i := sh.lists.length
  let sh := { sh with lists := sh.lists ++ [[node]] }
  match s with
  | .nick => { sh with nickHead := some i }
  | .user => { sh with userHead := some i }

/-- `add_user_node` with the list `i` -/
def addTo (sh : Shared) (i : Nat) (node : UserNode) : Shared :=
  { sh with lists := sh.lists.modify i fun nodes => addUserNode nodes node }

end Shared

/-- Where a thread is in its branch, with the local variables it still uses. -/
inductive Pc
  /-- before `find_connection_map_node(connection_hash, name)` -/
  | findConnection
  /-- before the read of the own head that `find_user_node` is given -/
  | readHead
  /-- before `find_user_node(head, name)` in the own list -/
  | find (head : Option Nat)
  /-- before the test of the own head for NULL -/
  | testHead (node : UserNode)
  /-- before the assignment to the own head -/
  | setHead (node : UserNode)
  /-- before the read of the own head that `add_user_node` is given -/
  | readTail (node : UserNode)
  /-- before `add_user_node(head, node)` -/
  | add (head : Option Nat) (node : UserNode)
  /-- before the read of the other head that `find_user_node` is given -/
  | readOther
  /-- before `find_user_node(head, name)` in the other list -/
  | findOther (head : Option Nat)
  /-- before `add_connection_map_node`, with a copy of this command and these parameters -/
  | addConnection (cmd : CStr) (params : List CStr)
  /-- before the welcome -/
  | sendWelcome
  /-- before `add_sockfd_nick_map_node` -/
  | addSockfdNick
  deriving DecidableEq, Repr

namespace Request

/-- Where a thread begins its branch. -/
def first (r : Request) : Pc :=
  match r.side with
  | .nick => .findConnection
  | .user => .readHead

/-- The node that the thread allocates for its list. -/
def node (r : Request) : Res UserNode := do
  let key ← copyName r.name
  match r.side with
  | .nick => return ⟨key, none⟩
  | .user =>
    let copy ← addParameters (chircMessageConstruct none r.msg.cmd) (copiedParams r.msg.params)
    return ⟨key, some copy⟩

/-- What a thread copies into `connection_hash` when it has found this node in the other list, or
`none` if it does not register. -/
def matched (r : Request) (node : UserNode) : Res (Option (CStr × List CStr)) :=
  match r.side with
  | .nick =>
    match node.msg with
    | none => .error .uninitRead
    | some user => .ok (some (user.cmd, user.params))
  | .user => if r.msg.params.length = 4 then .ok (some (r.msg.cmd, r.msg.params)) else .ok none

/-- The next step of a thread: the shared variables after it, and where the thread is then, unless
it is done with the command. -/
def step (r : Request) (sh : Shared) : Pc → Res (Shared × Option Pc)
  | .findConnection =>
    match findConnectionMapNode sh.connectionHash r.name with
    | some _ => .ok (sh, none)
    | none => .ok (sh, some .readHead)
  | .readHead => .ok (sh, some (.find (sh.head r.side)))
  | .find head =>
    let found := findUserNode (sh.nodes head) r.name
    if r.side = .user ∧ r.msg.params.length < 4 then .ok (sh, none)
    else
      match found with
      | some _ => .ok (sh, none)
      | none => do
        let node ← r.node
        return (sh, some (.testHead node))
  | .testHead node =>
    .ok (sh, some (if sh.head r.side = none then .setHead node else .readTail node))
  | .setHead node => .ok (sh.setHead r.side node, some .readOther)
  | .readTail node => .ok (sh, some (.add (sh.head r.side) node))
  | .add head node =>
    match head with
    | none => .error .nullDeref
    | some i => .ok (sh.addTo i node, some .readOther)
  | .readOther => .ok (sh, some (.findOther (sh.head r.side.other)))
  | .findOther head =>
    match findUserNode (sh.nodes head) r.name with
    | none => .ok (sh, none)
    | some node => do
      match ← r.matched node with
      | none => return (sh, none)
      | some (cmd, params) => return (sh, some (.addConnection cmd params))
  | .addConnection cmd params => do
    let key ← copyName r.name
    let msg ← addParameters (chircMessageConstruct none cmd) (copiedParams params)
    let node : ConnectionMap := ⟨key, r.fd, .live msg⟩
    return ({ sh with connectionHash := addConnectionMapNode sh.connectionHash node },
      some .sendWelcome)
  | .sendWelcome =>
    .ok ({ sh with welcomes := sh.welcomes ++ [(r.fd, r.name)] }, some .addSockfdNick)
  | .addSockfdNick => do
    let key ← copyName r.name
    return ({ sh with
      sockfdNickHash := addSockfdNickMapNode sh.sockfdNickHash ⟨r.fd, key⟩ }, none)

end Request

/-- A thread in one of the two branches. -/
structure Branch where
  req : Request
  pc : Pc

/-- The program of the threads that handle the commands `allowed`. -/
def registration (allowed : Request → Prop) : ThreadProgram Shared Branch Fault where
  start k := allowed k.req ∧ k.pc = k.req.first
  step sh k := (k.req.step sh k.pc).map fun (sh, pc) => (sh, pc.map (Branch.mk k.req))

/-- The steps of numbered threads, the latest first, each with the state it was taken from. -/
abbrev BranchHistory :=
  List (ThreadProgram.Conf Shared Branch Nat × ThreadProgram.Act Branch Nat)

instance {allowed : Request → Prop} [DecidablePred allowed] :
    DecidablePred (registration allowed).start :=
  fun k => inferInstanceAs (Decidable (allowed k.req ∧ k.pc = k.req.first))

end Chirc
