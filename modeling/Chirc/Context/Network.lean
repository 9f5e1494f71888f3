import Chirc.Bytes

/-! # The network file

`chirc_ctx_load_network` and the functions of `ctx.c` on the table of servers. A table is the list
of its structs, the one added last first, each with the address at which it lies. -/

namespace Chirc

def COMMA : Byte := 44

/-- `chirc_server_t`, as far as a network file sets it -/
structure NetServer where
  addr : Nat
  servername : CStr
  hostname : CStr
  port : CStr
  passwd : CStr
  deriving DecidableEq, Repr

/-- `ctx->network`. `calloc` has given out the addresses below `nextAddr`. -/
structure Network where
  servers : List NetServer
  thisServer : Option NetServer
  nextAddr : Nat
  deriving DecidableEq, Repr

/-- `CHIRC_OK` -/
def chircOk : Int := 0

/-- `CHIRC_FAIL` -/
def chircFail : Int := -1

/-- The results of `getline` until it returns -1: each stops after a newline or at the end of the
file. `acc` holds the bytes that the current call has read. -/
def getLines : List Byte → List Byte → List (List Byte)
  | acc, [] => if acc = [] then [] else [acc]
  | acc, b :: bs => if b = LF then (acc ++ [b]) :: getLines [] bs else getLines (acc ++ [b]) bs

/-- `sdstrim` -/
def sdstrim (s : CStr) (cset : List Byte) : CStr :=
  ((s.dropWhile (· ∈ cset)).reverse.dropWhile (· ∈ cset)).reverse

/-- `sdssplitlen` for a separator of one byte: there are no tokens in an empty string. -/
def sdssplitlen (s : CStr) (sep : Byte) : List CStr := if s = [] then [] else s.splitOn sep

/-- `chirc_ctx_get_server` -/
def chircCtxGetServer (net : Network) (servername : CStr) : Option NetServer :=
  net.servers.find? (·.servername == servername)

/-- `chirc_ctx_add_server` -/
def chircCtxAddServer (net : Network) (server : NetServer) : Network :=
  { net with servers := server :: net.servers }

/-- The loop over the lines of the file, and the test after it. -/
def loadLoop (servername : CStr) : List (List Byte) → Network → Network × Int
  | [], net => (net, if net.thisServer = none then chircFail else chircOk)
  | l :: ls, net =>
    let line := sdstrim (cstrAt l 0) [SP, CR, LF]
    match sdssplitlen line COMMA with
    | [token₀, token₁, token₂, token₃] =>
      match chircCtxGetServer net token₀ with
      | some _ => (net, chircFail)
      | none =>
        let ns : NetServer := ⟨net.nextAddr, token₀, token₁, token₂, token₃⟩
        let net := chircCtxAddServer { net with nextAddr := net.nextAddr + 1 } ns
        let net := if ns.servername = servername then { net with thisServer := some ns } else net
        loadLoop servername ls net
    | _ => (net, chircFail)

/-- `chirc_ctx_load_network`; `file` is what the file holds, if it can be opened. -/
def chircCtxLoadNetwork (net : Network) (file : Option (List Byte)) (servername : CStr) :
    Network × Int :=
  match file with
  | none => (net, chircFail)
  | some content => loadLoop servername (getLines [] content) net

end Chirc
