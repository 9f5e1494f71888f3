import Chirc.Context.Network
import Chirc.SdsSplit

/-! # The network file on the heap

`chirc_ctx_load_network` with its strings, arrays and structs in memory. The table of servers is the
list of its structs, the one added last first; the memory of `getline` is another one. -/

namespace Chirc.Sds

open Allocation (Heap)

/-- `chirc_server_t`, at the address `addr` -/
structure ServerStruct where
  addr : Nat
  servername : Ptr
  hostname : Ptr
  port : Ptr
  passwd : Ptr
  deriving DecidableEq, Repr

/-- `ctx->network`, and the heap -/
structure NetworkMem where
  heap : Heap Contents
  servers : List ServerStruct
  thisServer : Option ServerStruct
  nextAddr : Nat

variable (mallocs : Nat → Malloc)

/-- `sizeof(chirc_server_t)` -/
def sizeofServer : Nat := 96

/-- The string `tokens[i]`, which is used without a test -/
def tokenAt (h : Heap Contents) (tokens i : Nat) : Except Stop Ptr := do
  match ← entryAt h tokens i with
  | .unset => .error .uninitRead
  | .null => .error .nullDeref
  | .str p => return p

/-- The C string at a pointer -/
def cstringAt (h : Heap Contents) (p : Ptr) : Except Stop CStr := do
  let x ← sdsAt h p
  load x.sh x.s (← strlen x.sh x.s)

/-- The key of a struct in the table of servers: `sdslen` bytes -/
def keyOf (h : Heap Contents) (server : ServerStruct) : Except Stop (List Byte) := do
  let x ← sdsAt h server.servername
  load x.sh x.s (← sdslen x)

/-- `chirc_ctx_get_server`: `HASH_FIND_STR` -/
def chircCtxGetServer (h : Heap Contents) (servername : CStr) :
    List ServerStruct → Except Stop (Option ServerStruct)
  | [] => .ok none
  | server :: servers => do
    if (← keyOf h server) = servername then return some server
    else chircCtxGetServer h servername servers

/-- `chirc_ctx_add_server` -/
def chircCtxAddServer (m : NetworkMem) (server : ServerStruct) : NetworkMem :=
  { m with servers := server :: m.servers }

/-- What is done with the four tokens of a line; a code is what the load returns. -/
def addTokens (m : NetworkMem) (servername : CStr) (tokens : Nat) :
    Except Stop (NetworkMem × Option Int) := do
  let token₀ ← tokenAt m.heap tokens 0
  match ← chircCtxGetServer m.heap (← cstringAt m.heap token₀) m.servers with
  | some _ => return (m, some chircFail)
  | none =>
    match (mallocs m.heap.next).run sizeofServer with
    | none => .error (.noMemory m.heap.next sizeofServer)
    | some _ =>
      let ns : ServerStruct := ⟨m.nextAddr, token₀, ← tokenAt m.heap tokens 1,
        ← tokenAt m.heap tokens 2, ← tokenAt m.heap tokens 3⟩
      let m := chircCtxAddServer { m with heap := m.heap.skip, nextAddr := m.nextAddr + 1 } ns
      if (← cstringAt m.heap ns.servername) = servername then
        return ({ m with thisServer := some ns }, none)
      else return (m, none)

/-- What is done with the result of the split -/
def useSplit (m : NetworkMem) (servername : CStr) (r : SplitResult) :
    Except Stop (NetworkMem × Option Int) :=
  match r.count with
  | none => .error (.countUnset r.heap.refused)
  | some count =>
    if count = 4 then
      match r.tokens with
      | none => .error .nullDeref
      | some tokens => addTokens mallocs { m with heap := r.heap } servername tokens
    else .ok ({ m with heap := r.heap }, some chircFail)

/-- A round of the loop, for a line that `getline` has read -/
def loadLine (m : NetworkMem) (servername : CStr) (l : List Byte) :
    Except Stop (NetworkMem × Option Int) := do
  -- `sdsnew(line)`
  match ← sdsnewlen (mallocs m.heap.next) (.ptr (l ++ [NUL]) 0) (← strlen (l ++ [NUL]) 0) with
  | .null size => .error (.noMemory m.heap.next size)
  | .ptr line =>
    let h := m.heap.alloc (.bytes line.sh)
    let x ← sdstrim line [SP, CR, LF]
    let split ← sdssplitlen mallocs (h.set m.heap.next (.bytes x.sh)) (x.sh.drop x.s) (← sdslen x)
      [COMMA, NUL] 1
    useSplit mallocs m servername split

/-- The loop over the lines of the file, and the test after it -/
def loadLoop (servername : CStr) : List (List Byte) → NetworkMem → Except Stop (NetworkMem × Int)
  | [], m => .ok (m, if m.thisServer = none then chircFail else chircOk)
  | l :: ls, m => do
    let r ← loadLine mallocs m servername l
    match r.2 with
    | some code => return (r.1, code)
    | none => loadLoop servername ls r.1

/-- `chirc_ctx_load_network`; `file` is what the file holds, if it can be opened. -/
def chircCtxLoadNetwork (m : NetworkMem) (file : Option (List Byte)) (servername : CStr) :
    Except Stop (NetworkMem × Int) :=
  match file with
  | none => .ok (m, chircFail)
  | some content => loadLoop mallocs servername (getLines [] content) m

end Chirc.Sds
