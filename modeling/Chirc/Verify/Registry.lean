import Chirc.Verify.Handlers
import Chirc.Theory.Rendezvous

/-! # The registry

What the shared tables are for: a board on which the names of NICK commands meet the names of USER
commands. `nick_head` and `user_head` are its two sides, and `connection_hash` holds the names that
met, each with the descriptor of the command that came second. `Represents` says that the tables
show a board, and `Handled.represents` that the handling of every message is a post on it. -/

namespace Chirc

open Rendezvous

/-- The post that a message makes. -/
def request (msg : Message) : Post CStr :=
  match command msg.cmd, msg.params with
  | .nick, [nick] => .left nick
  | .user, user :: _ :: _ :: _ :: ps => .right user (ps = [])
  | _, _ => .idle

/-- The name under which handling the message registers the connection. -/
def registers (srv : Server) (msg : Message) : Option CStr :=
  match request msg with
  | .left nick =>
    if findUserNode srv.nickHead nick = none ∧ findUserNode srv.userHead nick ≠ none then some nick
    else none
  | .right user look =>
    if findUserNode srv.userHead user = none ∧ findUserNode srv.nickHead user ≠ none ∧ look = true
    then some user
    else none
  | .idle => none

theorem request_nick (hcmd : command msg.cmd = .nick) (hparams : msg.params = [nick]) :
    request msg = .left nick := by
  simp [request, hcmd, hparams]

theorem request_user (hcmd : command msg.cmd = .user) (hname : msg.params.head? = some user)
    (hlen : 4 ≤ msg.params.length) :
    request msg = .right user (decide (msg.params.length = 4)) := by
  match hp : msg.params with
  | [] | [_] | [_, _] | [_, _, _] => simp [hp] at hlen
  | _ :: _ :: _ :: _ :: ps =>
    rw [hp] at hname
    cases hname
    simp [request, hcmd, hp]

theorem request_eq_left (h : request msg = .left nick) :
    command msg.cmd = .nick ∧ msg.params = [nick] := by
  rw [request] at h
  split at h
  · next hcmd hparams =>
    cases h
    exact ⟨hcmd, hparams⟩
  · cases h
  · cases h

theorem request_eq_right (h : request msg = .right user look) :
    command msg.cmd = .user ∧ msg.params.head? = some user ∧ 4 ≤ msg.params.length ∧
      (look = true ↔ msg.params.length = 4) := by
  rw [request] at h
  split at h
  · cases h
  · next hcmd hparams =>
    cases h
    simp [hcmd, hparams]
  · cases h

theorem request_eq_idle (hnick : command msg.cmd = .nick → msg.params.length ≠ 1)
    (huser : command msg.cmd = .user → msg.params.length < 4) : request msg = .idle := by
  cases h : request msg with
  | left nick =>
    obtain ⟨hcmd, hparams⟩ := request_eq_left h
    exact absurd (by simp [hparams]) (hnick hcmd)
  | right user look =>
    obtain ⟨hcmd, -, hlen, -⟩ := request_eq_right h
    exact absurd hlen (Nat.not_le.mpr (huser hcmd))
  | idle => rfl

theorem request_of_command {c : Command} (hcmd : command msg.cmd = c)
    (h : c ≠ .nick ∧ c ≠ .user) : request msg = .idle :=
  request_eq_idle (fun h' => absurd (hcmd.symm.trans h') h.1)
    fun h' => absurd (hcmd.symm.trans h') h.2

/-- The nick of a NICK command with one parameter. -/
def nickParam (msg : Message) : Option CStr :=
  match command msg.cmd, msg.params with
  | .nick, [nick] => some nick
  | _, _ => none

/-- The user name of a USER command with four parameters or more. -/
def userParam (msg : Message) : Option CStr :=
  match command msg.cmd, msg.params with
  | .user, user :: _ :: _ :: _ :: _ => some user
  | _, _ => none

theorem nickParam_eq_some : nickParam msg = some nick ↔ request msg = .left nick := by
  rw [nickParam]
  constructor
  · intro h
    split at h
    · next hcmd hparams =>
      cases h
      exact request_nick hcmd hparams
    · cases h
  · intro h
    obtain ⟨hcmd, hparams⟩ := request_eq_left h
    rw [hcmd, hparams]

theorem userParam_eq_some : userParam msg = some user ↔ ∃ look, request msg = .right user look := by
  rw [userParam]
  constructor
  · intro h
    split at h
    · next hcmd hparams =>
      cases h
      exact ⟨_, request_user hcmd (by simp [hparams]) (by simp [hparams])⟩
    · cases h
  · rintro ⟨look, h⟩
    obtain ⟨hcmd, hname, hlen, -⟩ := request_eq_right h
    match hp : msg.params with
    | [] | [_] | [_, _] | [_, _, _] => simp [hp] at hlen
    | user' :: _ :: _ :: _ :: _ =>
      rw [hp] at hname
      cases hname
      rw [hcmd]

/-- A message registers if it posts a name on one side that only the other side shows. -/
theorem registers_eq_some : registers srv msg = some name ↔
    (request msg = .left name ∧ findUserNode srv.nickHead name = none ∧
      findUserNode srv.userHead name ≠ none) ∨
    (request msg = .right name true ∧ findUserNode srv.userHead name = none ∧
      findUserNode srv.nickHead name ≠ none) := by
  rw [registers]
  cases request msg with
  | left nick =>
    simp only [Option.ite_none_right_eq_some, Option.some.injEq, Post.left.injEq, reduceCtorEq,
      false_and, or_false]
    constructor
    · rintro ⟨h, rfl⟩
      exact ⟨rfl, h⟩
    · rintro ⟨rfl, h⟩
      exact ⟨h, rfl⟩
  | right user look =>
    simp only [Option.ite_none_right_eq_some, Option.some.injEq, Post.right.injEq, reduceCtorEq,
      false_and, false_or]
    constructor
    · rintro ⟨⟨huser, hnick, rfl⟩, rfl⟩
      exact ⟨⟨rfl, rfl⟩, huser, hnick⟩
    · rintro ⟨⟨rfl, rfl⟩, huser, hnick⟩
      exact ⟨⟨huser, hnick, rfl⟩, rfl⟩
  | idle => simp

/-! ## Lookups -/

def names (head : List UserNode) : List CStr := head.map (·.name)

/-- The names in `connection_hash`, each with its descriptor. -/
def bindings (nodes : List ConnectionMap) : List (CStr × Nat) :=
  nodes.map fun node => (node.name, node.fd)

theorem findUserNode_eq_none : findUserNode head name = none ↔ name ∉ names head := by
  simp [findUserNode, names]

theorem findConnectionMapNode_eq_none :
    findConnectionMapNode nodes name = none ↔ name ∉ (bindings nodes).map Prod.fst := by
  simp [findConnectionMapNode, bindings]

theorem map_fst_bindings : (bindings nodes).map Prod.fst = nodes.map (·.name) := by
  rw [bindings, List.map_map]
  rfl

theorem length_bindings : (bindings nodes).length = nodes.length := List.length_map _

theorem map_snd_bindings : (bindings nodes).map Prod.snd = nodes.map (·.fd) := by
  rw [bindings, List.map_map]
  rfl

/-- When no two nodes have the same name, each can be found. -/
theorem found_iff_mem_bindings (hnames : ((bindings nodes).map Prod.fst).Nodup) :
    (∃ node, findConnectionMapNode nodes nick = some node ∧ node.fd = fd) ↔
      (nick, fd) ∈ bindings nodes := by
  constructor
  · rintro ⟨node, hfind, rfl⟩
    have hname := findConnectionMapNode_name hfind
    exact List.mem_map.mpr ⟨node, List.mem_of_find?_eq_some hfind, by rw [hname]⟩
  · intro h
    obtain ⟨node, hnode, heq⟩ := List.mem_map.mp h
    obtain ⟨rfl, rfl⟩ := Prod.mk.inj heq
    cases hfind : findConnectionMapNode nodes node.name with
    | none => exact absurd (List.mem_map_of_mem h) (findConnectionMapNode_eq_none.mp hfind)
    | some node' =>
      rw [map_fst_bindings] at hnames
      have := List.inj_on_of_nodup_map hnames (List.mem_of_find?_eq_some hfind) hnode
        (findConnectionMapNode_name hfind)
      exact ⟨node', rfl, by rw [this]⟩

theorem bindings_freeConnectionMapMsg :
    bindings (freeConnectionMapMsg nodes name) = bindings nodes := by
  induction nodes with
  | nil => rfl
  | cons node nodes ih =>
    rw [freeConnectionMapMsg]
    split
    · rfl
    · exact congrArg (_ :: ·) ih

/-! ## The board -/

/-- The shared tables show the board `b`. -/
structure Represents (srv : Server) (b : Board CStr Nat) : Prop where
  left : names srv.nickHead = b.left
  right : names srv.userHead = b.right
  bound : bindings srv.connectionHash = b.bound

theorem Represents.init : Represents Server.init .empty := ⟨rfl, rfl, rfl⟩

namespace Represents
variable {srv : Server} {b : Board CStr Nat} (H : Represents srv b)
include H

theorem registers_eq : registers srv msg = b.meets (request msg) := by
  rw [registers]
  cases request msg with
  | left nick => simp [Board.meets, findUserNode_eq_none, H.left, H.right]
  | right user look => simp [Board.meets, findUserNode_eq_none, H.left, H.right]
  | idle => rfl

theorem mem_left_of_found (h : findConnectionMapNode srv.connectionHash name ≠ none) :
    name ∈ b.left := by
  rw [ne_eq, findConnectionMapNode_eq_none, not_not, H.bound] at h
  obtain ⟨⟨_, fd⟩, hm, rfl⟩ := List.mem_map.mp h
  exact b.bound_left hm

theorem nick_mem_iff : name ∈ b.left ↔ findUserNode srv.nickHead name ≠ none := by
  rw [ne_eq, findUserNode_eq_none, H.left, not_not]

theorem user_mem_iff : name ∈ b.right ↔ findUserNode srv.userHead name ≠ none := by
  rw [ne_eq, findUserNode_eq_none, H.right, not_not]

end Represents

/-- The tables show the same board. -/
structure SameBoard (srv srv' : Server) : Prop where
  left : names srv'.nickHead = names srv.nickHead
  right : names srv'.userHead = names srv.userHead
  bound : bindings srv'.connectionHash = bindings srv.connectionHash

theorem SameBoard.represents (H : SameBoard srv srv') (hb : Represents srv b)
    (hleft : b.leftAfter p = b.left) (hright : b.rightAfter p = b.right)
    (hmeets : b.meets p = none) : Represents srv' (b.post fd p) :=
  ⟨H.left.trans (hb.left.trans hleft.symm), H.right.trans (hb.right.trans hright.symm),
    H.bound.trans (hb.bound.trans (Board.boundAfter_of_none hmeets).symm)⟩

namespace SameBoard
variable {srv srv' : Server} {b : Board CStr Nat} (H : SameBoard srv srv') (hb : Represents srv b)
include H hb

theorem idle (hreq : request msg = .idle) : Represents srv' (b.post fd (request msg)) := by
  rw [hreq]
  exact H.represents hb (by rfl) (by rfl) (by rfl)

/-- A name that the left side shows already is not posted again. -/
theorem nickKnown (hreq : request msg = .left nick) (hmem : nick ∈ b.left) :
    Represents srv' (b.post fd (request msg)) := by
  rw [hreq]
  exact H.represents hb (Board.pin_of_mem hmem) (by rfl) (if_neg fun h => h.1 hmem)

theorem userKnown (hreq : request msg = .right user look) (hmem : user ∈ b.right) :
    Represents srv' (b.post fd (request msg)) := by
  rw [hreq]
  exact H.represents hb (by rfl) (Board.pin_of_mem hmem) (if_neg fun h => h.1 hmem)

end SameBoard

theorem names_addUserNode : names (addUserNode head node) = names head ++ [node.name] := by
  simp [names, addUserNode]

namespace Represents
variable {srv srv' : Server} {b : Board CStr Nat} (H : Represents srv b)
include H

theorem mask : Represents srv.mask b := ⟨H.left, H.right, H.bound⟩

theorem pin_nick (hnick : findUserNode srv.nickHead nick = none) :
    names (srv.addNick nick).nickHead = Board.pin b.left nick := by
  rw [findUserNode_eq_none, H.left] at hnick
  rw [Board.pin_of_not_mem hnick, ← H.left]
  exact names_addUserNode

theorem pin_user (huser : findUserNode srv.userHead user = none) :
    names (srv.addUser user stored).userHead = Board.pin b.right user := by
  rw [findUserNode_eq_none, H.right] at huser
  rw [Board.pin_of_not_mem huser, ← H.right]
  exact names_addUserNode

theorem nickPosted (hreq : request msg = .left nick) (hnick : findUserNode srv.nickHead nick = none)
    (huser : findUserNode srv.userHead nick = none) :
    Represents (srv.addNick nick) (b.post fd (request msg)) := by
  have hmeets : b.meets (.left nick) = none := if_neg fun h => H.user_mem_iff.mp h.2 huser
  rw [hreq]
  exact ⟨H.pin_nick hnick, H.right, H.bound.trans (Board.boundAfter_of_none hmeets).symm⟩

theorem nickRegisters (hreq : request msg = .left nick)
    (hnick : findUserNode srv.nickHead nick = none)
    (huser : findUserNode srv.userHead nick ≠ none) :
    Represents ((srv.addNick nick).bind fd nick stored) (b.post fd (request msg)) := by
  have hmeets : b.meets (.left nick) = some nick :=
    if_pos ⟨fun h => H.nick_mem_iff.mp h hnick, H.user_mem_iff.mpr huser⟩
  rw [hreq]
  refine ⟨H.pin_nick hnick, H.right, ?_⟩
  exact (congrArg _ H.bound).trans (Board.boundAfter_of_some hmeets).symm

theorem userPosted (hreq : request msg = .right user look)
    (huser : findUserNode srv.userHead user = none)
    (hnick : findUserNode srv.nickHead user = none ∨ look = false) :
    Represents (srv.addUser user stored) (b.post fd (request msg)) := by
  have hmeets : b.meets (.right user look) = none := by
    refine if_neg fun ⟨_, hmem, hlook⟩ => ?_
    exact hnick.elim (H.nick_mem_iff.mp hmem) fun h => by simp [h] at hlook
  rw [hreq]
  exact ⟨H.left, H.pin_user huser, H.bound.trans (Board.boundAfter_of_none hmeets).symm⟩

theorem userRegisters (hreq : request msg = .right user true)
    (huser : findUserNode srv.userHead user = none)
    (hnick : findUserNode srv.nickHead user ≠ none) :
    Represents ((srv.addUser user stored).bind fd user stored) (b.post fd (request msg)) := by
  have hmeets : b.meets (.right user true) = some user :=
    if_pos ⟨fun h => H.user_mem_iff.mp h huser, H.nick_mem_iff.mpr hnick, rfl⟩
  rw [hreq]
  refine ⟨H.left, H.pin_user huser, ?_⟩
  exact (congrArg _ H.bound).trans (Board.boundAfter_of_some hmeets).symm

end Represents

/-- **Handling a message is a post on the board.** -/
theorem Handled.represents {w w' : Work} {b : Board CStr Nat} (H : Handled ctx fd msg w w')
    (hb : Represents w.srv b) : Represents w'.srv (b.post fd (request msg)) := by
  cases H with
  | whoisFound nick asker node userMsg hcmd =>
    refine SameBoard.idle ?_ hb (request_of_command hcmd (by decide))
    exact ⟨rfl, rfl, bindings_freeConnectionMapMsg⟩
  | nickMissing hcmd hparams =>
    refine SameBoard.idle ?_ hb (request_eq_idle (fun _ => by simp [hparams]) (by simp [hcmd]))
    exact ⟨rfl, rfl, rfl⟩
  | nickInUse nick node hcmd hparams hnode =>
    refine SameBoard.nickKnown ?_ hb (request_nick hcmd hparams)
      (hb.mem_left_of_found (by simp [hnode]))
    exact ⟨rfl, rfl, rfl⟩
  | nickKnown nick node hcmd hparams hnode hnick =>
    refine SameBoard.nickKnown ?_ hb (request_nick hcmd hparams)
      (hb.nick_mem_iff.mpr (by simp [hnick]))
    exact ⟨rfl, rfl, rfl⟩
  | nickPosted nick hcmd hparams hnode hnick huser =>
    exact (hb.mask).nickPosted (request_nick hcmd hparams) hnick huser
  | nickRegisters nick node user hcmd hparams hnode hnick huser =>
    exact (hb.mask).nickRegisters (request_nick hcmd hparams) hnick (by simp [Server.mask, huser])
  | nickIgnored hcmd hlen =>
    refine SameBoard.idle ?_ hb (request_eq_idle (fun _ => by omega) (by simp [hcmd]))
    exact ⟨rfl, rfl, rfl⟩
  | userMissing name hcmd hname hlen =>
    exact SameBoard.idle ⟨rfl, rfl, rfl⟩ hb (request_eq_idle (by simp [hcmd]) fun _ => hlen)
  | userKnown name node hcmd hname hlen huser =>
    exact SameBoard.userKnown ⟨rfl, rfl, rfl⟩ hb (request_user hcmd hname hlen)
      (hb.user_mem_iff.mpr (by simp [huser]))
  | userPosted name hcmd hname hlen hstored huser hnick =>
    exact hb.userPosted (request_user hcmd hname hlen) huser (hnick.imp_right (by simp))
  | userRegisters name node hcmd hname hlen hstored huser hnick =>
    have hreq := request_user hcmd hname (by omega)
    rw [decide_eq_true hlen] at hreq
    exact hb.userRegisters hreq huser (by simp [hnick])
  | _ =>
    -- neither a NICK nor a USER
    refine SameBoard.idle ?_ hb (request_eq_idle (by simp [*]) (by simp [*]))
    exact ⟨rfl, rfl, rfl⟩

end Chirc
