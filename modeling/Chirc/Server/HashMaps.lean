import Chirc.Server.State
import Chirc.Uthash

/-! # The tables of the server on `uthash`

The functions of `my_utils.h` on `connection_hash` and `sockfd_nick_hash`, which are macros of
`uthash.h` between the calls for a mutex. Nodes are named by their addresses. -/

namespace Chirc.Uthash

variable (hash : List Byte → UInt32) (malloc : Nat → Bool) (fuel : Nat)

/-! ## `connection_hash` -/

/-- `add_connection_map_node`, for a node with this name: `HASH_ADD_STR` -/
def addConnectionMapNode (table : Hash) (node : Nat) (name : CStr) : Except Stop Hash :=
  hashAdd hash malloc fuel table node name

/-- `find_connection_map_node`: `HASH_FIND_STR` -/
def findConnectionMapNode (table : Hash) (name : CStr) : Except Stop (Option Nat) :=
  hashFind hash fuel table name

/-- `del_connection_map_node` -/
def delConnectionMapNode (table : Hash) (node : Nat) : Except Stop Hash := hashDelete table node

/-- `free_connection_map_node`, and the nodes it has deleted -/
def freeConnectionMapNode (table : Hash) : Except Stop (List Nat × Hash) :=
  hashIter (·.2.hh) (fun s node => do
      let table ← delConnectionMapNode s.2 node
      return (s.1 ++ [node], table))
    fuel table ([], table)

/-- `get_connection_map_node_size` -/
def getConnectionMapNodeSize (table : Hash) : Except Stop Int :=
  hashIter (fun _ => table.hh) (fun size _ => .ok (size + 1)) fuel table 0

/-! ## `sockfd_nick_hash` -/

/-- `add_sockfd_nick_map_node`, for a node with this descriptor: `HASH_ADD_INT` -/
def addSockfdNickMapNode (table : Hash) (node fd : Nat) : Except Stop Hash :=
  hashAdd hash malloc fuel table node (intKey fd)

/-- `find_sockfd_nick_map_node`: `HASH_FIND_INT` -/
def findSockfdNickMapNode (table : Hash) (fd : Nat) : Except Stop (Option Nat) :=
  hashFind hash fuel table (intKey fd)

/-- `del_sockfd_nick_map_node`, without the `free` of the node -/
def delSockfdNickMapNode (table : Hash) : Option Nat → Except Stop Hash
  | none => .ok table
  | some node => hashDelete table node

/-- `free_sockfd_nick_map_node`, and the nodes it has deleted -/
def freeSockfdNickMapNode (table : Hash) : Except Stop (List Nat × Hash) :=
  hashIter (·.2.hh) (fun s node => do
      let table ← hashDelete s.2 node
      return (s.1 ++ [node], table))
    fuel table ([], table)

/-- `get_sockfd_nick_map_node_size` -/
def getSockfdNickMapNodeSize (table : Hash) : Except Stop Int :=
  hashIter (fun _ => table.hh) (fun size _ => .ok (size + 1)) fuel table 0

end Chirc.Uthash
