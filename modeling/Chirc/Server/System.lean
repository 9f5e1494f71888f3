import Chirc.Server.Loop
import Chirc.Theory.Transition

/-! # The running server

`chirc_run` with its accept loop, the connection threads it starts, and the part of the kernel
that they share: which descriptors are open, and to which connection. Connections are numbered in
the order in which they are accepted; the thread started for a connection has its number.

Each step is one round of a loop: an `accept`, a `read`, or the handling of one line. The kernel
may give a new connection any descriptor that is not open, and does not know which threads still
use the number. -/

namespace Chirc

/-- An open descriptor and the connection it belongs to. -/
structure Conn where
  fd : Nat
  id : Nat
  deriving DecidableEq, Repr

structure Sys where
  server : Server
  conns : List Conn
  threads : Nat → Option Thread
  /-- the number of the next connection -/
  next : Nat

def Sys.init : Sys := ⟨Server.init, [], fun _ => none, 0⟩

/-- The connection that is open on `fd`. -/
def Sys.connOn (σ : Sys) (fd : Nat) : Option Nat := (σ.conns.find? (·.fd == fd)).map (·.id)

/-- `close(fd)` -/
def Sys.close (σ : Sys) (fd : Nat) : Sys := { σ with conns := σ.conns.filter (·.fd != fd) }

def Sys.setThread (σ : Sys) (t : Nat) (th : Option Thread) : Sys :=
  { σ with threads := fun t' => if t' = t then th else σ.threads t' }

/-- What the environment decides: which descriptor a connection gets, what a `read` returns, and
which thread takes its next step. -/
inductive Event
  | accept (fd : Nat)
  /-- `read` returns these bytes -/
  | recv (t : Nat) (chunk : List Byte)
  /-- a round of the inner loop -/
  | line (t : Nat)
  /-- `read` returns 0 -/
  | eof (t : Nat)
  /-- `read` returns -1 -/
  | rerr (t : Nat)
  deriving DecidableEq, Repr

/-- A step as it is seen from outside. The connection `c` is the one open on the descriptor of
the thread, which is the one that the replies are written to. -/
inductive Label
  | accept (c fd : Nat)
  | recv (t fd : Nat) (c : Nat) (chunk : List Byte)
  | blank (t : Nat)
  | command (t fd : Nat) (c : Option Nat) (line : CStr) (msg : Message) (out : List Message)
  | hangup (t fd : Nat) (c : Option Nat)
  deriving DecidableEq, Repr

/-- Why there is no next state. -/
inductive Halt
  /-- the event cannot happen in this state -/
  | disabled
  /-- the program runs into undefined behaviour -/
  | fault (f : Fault)
  deriving DecidableEq, Repr

def Res.orHalt : Res α → Except Halt α
  | .ok a => .ok a
  | .error f => .error (.fault f)

/-- The code after a `read` that returned 0 or less. -/
def hangup (σ : Sys) (t : Nat) (th : Thread) : Sys × Label :=
  let c := σ.connOn th.sockfd
  let srv := σ.server
  let node := findSockfdNickMapNode srv.sockfdNickHash th.sockfd
  let srv := { srv with
    sockfdNickHash := delSockfdNickMapNode srv.sockfdNickHash node
    connectionCount := srv.connectionCount - 1
    registeredConnectionCount := srv.registeredConnectionCount - 1 }
  (({ σ with server := srv }.close th.sockfd).setThread t none, .hangup t th.sockfd c)

/-- The state and the label after a round of the inner loop. -/
def afterRound (σ : Sys) (t : Nat) (fd : Nat) : Round → Sys × Label
  | .blank th => (σ.setThread t (some th), .blank t)
  | .handled th line msg w =>
    let σ' := { σ with server := w.srv }.setThread t (some th)
    (if w.closed then σ'.close fd else σ', .command t fd (σ.connOn fd) line msg w.out)

/-- What thread `t` does next: `none` if its buffer holds no line and it is about to read. -/
def nextLine (σ : Sys) (t : Nat) : Except Halt (Thread × Option Nat) := do
  match σ.threads t with
  | none => .error .disabled
  | some th =>
    let p ← (strstrCrlf th.buf).orHalt
    return (th, p)

/-- One step. A `read` gets bytes or the end of the stream only from an open descriptor, and may
fail on any; it also returns 0 when there is no room. -/
def step (ctx : Ctx) (σ : Sys) : Event → Except Halt (Sys × Label)
  | .accept fd =>
    if (σ.connOn fd).isSome then .error .disabled
    else
      let srv := { σ.server with connectionCount := σ.server.connectionCount + 1 }
      let σ' := { σ with server := srv, conns := ⟨fd, σ.next⟩ :: σ.conns, next := σ.next + 1 }
      .ok (σ'.setThread σ.next (some ⟨fd, [], 0⟩), .accept σ.next fd)
  | .recv t chunk => do
    match ← nextLine σ t with
    | (_, some _) => .error .disabled
    | (th, none) =>
      match σ.connOn th.sockfd with
      | none => .error .disabled
      | some c =>
        if chunk = [] ∨ th.room < chunk.length then .error .disabled
        else
          let th' ← (th.recv chunk).orHalt
          return (σ.setThread t (some th'), .recv t th.sockfd c chunk)
  | .line t => do
    match ← nextLine σ t with
    | (_, none) => .error .disabled
    | (th, some p) =>
      let r ← (innerRound ctx σ.server th p).orHalt
      return afterRound σ t th.sockfd r
  | .eof t => do
    match ← nextLine σ t with
    | (_, some _) => .error .disabled
    | (th, none) =>
      if (σ.connOn th.sockfd).isNone then .error .disabled
      else return hangup σ t th
  | .rerr t => do
    match ← nextLine σ t with
    | (_, some _) => .error .disabled
    | (th, none) => return hangup σ t th

/-- The server as a transition system. -/
def chirc (ctx : Ctx) : TransitionSystem Sys Label where
  init σ := σ = Sys.init
  step σ l σ' := ∃ e, step ctx σ e = .ok (σ', l)

abbrev History := List (Sys × Label)

/-- The runs of the server: the steps taken, latest first, and the state reached. -/
abbrev Run (ctx : Ctx) : History → Sys → Prop := (chirc ctx).Run

/-- Play events from a state, extending a history. -/
def playFrom (ctx : Ctx) : History → Sys → List Event → Except Halt (History × Sys)
  | tr, σ, [] => .ok (tr, σ)
  | tr, σ, e :: es => do
    let (σ', l) ← step ctx σ e
    playFrom ctx ((σ, l) :: tr) σ' es

/-- Play events from the start of the server. -/
def play (ctx : Ctx) (es : List Event) : Except Halt (History × Sys) :=
  playFrom ctx [] Sys.init es

theorem playFrom_run {ctx : Ctx} {es : List Event} {tr tr' : History} {σ σ' : Sys}
    (hrun : Run ctx tr σ) (h : playFrom ctx tr σ es = .ok (tr', σ')) : Run ctx tr' σ' := by
  induction es generalizing tr σ with
  | nil =>
    cases h
    exact hrun
  | cons e es ih =>
    rw [playFrom] at h
    cases hs : step ctx σ e with
    | error _ => rw [hs] at h; cases h
    | ok r =>
      rw [hs] at h
      exact ih (.cons hrun ⟨e, hs⟩) h

/-- What is played is a run. -/
theorem play_run {ctx : Ctx} {es : List Event} {tr : History} {σ : Sys}
    (h : play ctx es = .ok (tr, σ)) : Run ctx tr σ :=
  playFrom_run (.nil rfl) h

/-- The events can be played, and the check `p` accepts the run. -/
def playsTo (ctx : Ctx) (es : List Event) (p : History → Sys → Bool) : Bool :=
  match play ctx es with
  | .ok (tr, σ) => p tr σ
  | .error _ => false

theorem run_of_playsTo (ctx : Ctx) (es : List Event) (p : History → Sys → Bool)
    (h : playsTo ctx es p = true) :
    ∃ tr σ, play ctx es = .ok (tr, σ) ∧ Run ctx tr σ ∧ p tr σ = true := by
  rw [playsTo] at h
  split at h
  · next tr σ hplay => exact ⟨tr, σ, hplay, play_run hplay, h⟩
  · cases h

/-- Playing the events ends in the fault. -/
def faultsWith (ctx : Ctx) (es : List Event) (f : Fault) : Bool :=
  match play ctx es with
  | .error h => h = .fault f
  | .ok _ => false

theorem play_eq_fault (h : faultsWith ctx es f = true) : play ctx es = .error (.fault f) := by
  rw [faultsWith] at h
  split at h
  · next h' hplay => rw [hplay, of_decide_eq_true h]
  · cases h

/-- A server without a MOTD file. -/
def plainServer : Ctx := ⟨lit "irc.example", none⟩

end Chirc
