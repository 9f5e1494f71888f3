import Chirc.Message
import Chirc.Chained
import Chirc.Jenkins

/-! # The shared state of the server

The global variables of `main.c` and the operations of `my_utils.h` on them: two linked lists of
names (`nick_head`, `user_head`), two `uthash` tables (`connection_hash` keyed by nick,
`sockfd_nick_hash` keyed by file descriptor) and two atomic counters.

`HASH_ADD` does not look for an existing node with the same key. A descriptor can get several nodes,
of which `HASH_FIND` finds the one that it meets first, so that `sockfd_nick_hash` is a table with
chains; its hash function is `HASH_JEN`. The nicks of `connection_hash` are distinct, so that the
order of its nodes does not matter: it is the list of its nodes, the one added last first. -/

namespace Chirc

/-- A pointer to an object on the heap that may have been freed. -/
inductive Cell (α : Type)
  | live (a : α)
  | freed
  deriving DecidableEq, Repr

/-- Read through a pointer. -/
def Cell.read : Cell α → Res α
  | .live a => .ok a
  | .freed => .error .useAfterFree

/-- `user_node_t`; the nodes of `nick_head` never get a message. -/
structure UserNode where
  name : CStr
  msg : Option Message
  deriving DecidableEq, Repr

/-- `connection_map_t` -/
structure ConnectionMap where
  name : CStr
  fd : Nat
  msg : Cell Message
  deriving DecidableEq, Repr

/-- `sockfd_nick_map_t` -/
structure SockfdNickMap where
  fd : Nat
  name : CStr
  deriving DecidableEq, Repr

/-- The bytes of an `int` in memory, the lowest one first -/
def intKey (fd : Nat) : List Byte :=
  [fd.toUInt8, (fd / 256).toUInt8, (fd / 65536).toUInt8, (fd / 16777216).toUInt8]

/-- `HASH_JEN` for an `int` -/
def hashInt (fd : Nat) : UInt32 :=
  match (Uthash.hashJen 1 (intKey fd)).result with
  | .ok hashv => hashv
  | .error _ => 0

/-- The hash function reads four bytes and has a result. -/
theorem hashJen_intKey (fd : Nat) : (Uthash.hashJen 1 (intKey fd)).result = .ok (hashInt fd) := rfl

/-- The hash value of a node of `sockfd_nick_hash` -/
def SockfdNickMap.hashv (node : SockfdNickMap) : UInt32 := hashInt node.fd

/-- The nodes of `sockfd_nick_hash` as lookups meet them -/
abbrev SockfdNickHash := Uthash.Chained SockfdNickMap

/-- The global variables that the connection threads share. -/
structure Server where
  nickHead : List UserNode
  userHead : List UserNode
  connectionHash : List ConnectionMap
  sockfdNickHash : SockfdNickHash
  connectionCount : Int
  registeredConnectionCount : Int
  deriving DecidableEq, Repr

/-- The global variables as the program starts. -/
def Server.init : Server := ⟨[], [], [], .empty, 0, 0⟩

/-- `memset(node->name, 0, sizeof(node->name)); memcpy(node->name, name, strlen(name));` for a
field `name[128]`. A name of 128 bytes or more leaves no room for its NUL. -/
def copyName (name : CStr) : Res CStr :=
  if name.length < 128 then .ok name else .error .nameOverflow

/-! ## Lists of names -/

/-- `add_user_node`, and the assignment to the head of an empty list -/
def addUserNode (head : List UserNode) (node : UserNode) : List UserNode := head ++ [node]

/-- `find_user_node` -/
def findUserNode (head : List UserNode) (name : CStr) : Option UserNode :=
  head.find? (·.name == name)

/-- `get_least_user_node` -/
def getLeastUserNode (head : List UserNode) : Option UserNode := head.getLast?

/-! ## `connection_hash` -/

/-- `add_connection_map_node` -/
def addConnectionMapNode (h : List ConnectionMap) (node : ConnectionMap) : List ConnectionMap :=
  node :: h

/-- `find_connection_map_node` -/
def findConnectionMapNode (h : List ConnectionMap) (name : CStr) : Option ConnectionMap :=
  h.find? (·.name == name)

/-- `get_connection_map_node_size` -/
def getConnectionMapNodeSize (h : List ConnectionMap) : Nat := h.length

/-- `chirc_message_free(node->msg)` for the node of the table found under `name` -/
def freeConnectionMapMsg (h : List ConnectionMap) (name : CStr) : List ConnectionMap :=
  match h with
  | [] => []
  | node :: h =>
    if node.name = name then { node with msg := .freed } :: h
    else node :: freeConnectionMapMsg h name

/-! ## `sockfd_nick_hash` -/

/-- `add_sockfd_nick_map_node` -/
def addSockfdNickMapNode (h : SockfdNickHash) (node : SockfdNickMap) : SockfdNickHash :=
  h.add SockfdNickMap.hashv node

/-- `find_sockfd_nick_map_node` -/
def findSockfdNickMapNode (h : SockfdNickHash) (fd : Nat) : Option SockfdNickMap :=
  h.items.find? (·.fd == fd)

/-- `del_sockfd_nick_map_node`, given the result of a lookup -/
def delSockfdNickMapNode (h : SockfdNickHash) : Option SockfdNickMap → SockfdNickHash
  | none => h
  | some node => h.del SockfdNickMap.hashv node

/-! ## `get_sockfd_nick_map_node_size` on the wrong table

`response_LUSERS` passes `connection_hash` to `get_sockfd_nick_map_node_size`, whose `HASH_ITER`
reads the link to the next node where a `sockfd_nick_map_t` has it. -/

/-- A member of a struct: its name, size and alignment. -/
structure Member where
  name : String
  size : Nat
  align : Nat

/-- The members of a `UT_hash_handle` on an LP64 machine. -/
def utHashHandle : List Member :=
  [⟨"tbl", 8, 8⟩, ⟨"prev", 8, 8⟩, ⟨"next", 8, 8⟩, ⟨"hh_prev", 8, 8⟩, ⟨"hh_next", 8, 8⟩,
    ⟨"key", 8, 8⟩, ⟨"keylen", 4, 4⟩, ⟨"hashv", 4, 4⟩]

/-- The members of a `connection_map_t`, those of its handle `hh` included. -/
def connectionMapMembers : List Member :=
  [⟨"name", 128, 1⟩, ⟨"fd", 4, 4⟩, ⟨"msg", 8, 8⟩] ++ utHashHandle

/-- The members of a `sockfd_nick_map_t`, those of its handle `hh` included. -/
def sockfdNickMapMembers : List Member :=
  [⟨"fd", 4, 4⟩, ⟨"name", 128, 1⟩] ++ utHashHandle

/-- The members with their offsets, the first free byte being `off`. -/
def offsets : Nat → List Member → List (String × Nat)
  | _, [] => []
  | off, m :: ms =>
    let off := (off + m.align - 1) / m.align * m.align
    (m.name, off) :: offsets (off + m.size) ms

/-- The member of a `connection_map_t` that lies where a `sockfd_nick_map_t` has `hh.next`. -/
def nextAsSeen : Option String := do
  let (_, off) ← (offsets 0 sockfdNickMapMembers).find? (·.1 == "next")
  let (name, _) ← (offsets 0 connectionMapMembers).find? (·.2 == off)
  return name

/-- The position that the member `link` of the node at position `i` leads to, in a table of `n`
nodes in the order they were added. -/
def followLink (link : Option String) (n i : Nat) : Option Nat :=
  if link = some "next" then (if i + 1 < n then some (i + 1) else none)
  else if link = some "prev" then (if 0 < i then some (i - 1) else none)
  else none

/-- The number of rounds of a `HASH_ITER` over a table of `n` nodes that starts at position `i`
and follows `link`, at most `fuel`. -/
def hashIter (link : Option String) (n : Nat) : Nat → Nat → Nat
  | 0, _ => 0
  | fuel + 1, i =>
    match followLink link n i with
    | none => 1
    | some j => 1 + hashIter link n fuel j

/-- `get_sockfd_nick_map_node_size(connection_hash)` -/
def getSockfdNickMapNodeSize (h : List ConnectionMap) : Nat :=
  if h = [] then 0 else hashIter nextAsSeen h.length h.length 0

/-- The list is walked backwards from its first node. -/
theorem nextAsSeen_eq : nextAsSeen = some "prev" := by decide +kernel

theorem getSockfdNickMapNodeSize_eq (h : List ConnectionMap) :
    getSockfdNickMapNodeSize h = min h.length 1 := by
  rw [getSockfdNickMapNodeSize, nextAsSeen_eq]
  cases h with
  | nil => rfl
  | cons node h => simp [hashIter, followLink]

end Chirc
