import Chirc.Server.Interleaved
import Chirc.Server.NodeLists

/-! # `nick_head` and `user_head` on the heap

The functions of `my_utils.h` and `utils_list.h` that go to the end of a list or free it, and what
the NICK and the USER branch do to add a node, on the nodes themselves. The mutex of the lists is
left out, and so are the messages of the nodes. -/

namespace Chirc

open LinkedList

/-! ## The end of a list -/

/-- The loop `while (head != NULL && head->next != NULL)`, which is left with `head` -/
def lastLoop (heap : Heap ν) : Unit × Option Nat → Res (Option Nat ⊕ Unit × Option Nat)
  | (_, none) => .ok (.inl none)
  | (_, some head) => do
    let node ← load heap head
    if node.next = none then
      return .inl (some head)
    else
      return .inr ((), node.next)

/-- `head->next = node` behind the loop -/
def linkLast (heap : Heap ν) (node : Nat) : Option Nat → Res (Heap ν)
  | none => .error .nullDeref
  | some head => storeNext heap head (some node)

/-- A node is linked behind the last one, which ends in `r`. -/
def AppendsNode (heap : Heap ν) (head : Option Nat) (node : Nat) (r : Res (Heap ν)) : Prop :=
  ∃ last, While.Ends (lastLoop heap) ((), head) last ∧ r = last >>= linkLast heap node

/-- `add_user_node` ends in `r`, which is the heap afterwards if nothing goes wrong. -/
def AddUserNode (heap : Heap UserEntry) (head : Option Nat) (node : Nat)
    (r : Res (Heap UserEntry)) : Prop := AppendsNode heap head node r

/-- `get_least_user_node` ends in `r`. -/
def GetLeastUserNode (heap : Heap UserEntry) (head : Option Nat) (r : Res (Option Nat)) : Prop :=
  While.Ends (lastLoop heap) ((), head) r

/-! ## Freeing a list -/

/-- `free(p)` -/
def freeNode (heap : Heap ν) (p : Nat) : Res (Heap ν) := do
  let _ ← load heap p
  return heap.free p

/-- A list is freed, from its last node on, which ends in `r`: the heap afterwards, if nothing goes
wrong. -/
inductive FreesNodes : Heap ν → Option Nat → Res (Heap ν) → Prop
  | null : FreesNodes heap none (.ok heap)
  | dangling : load heap p = .error f → FreesNodes heap (some p) (.error f)
  | node : load heap p = .ok node → FreesNodes heap node.next r →
    FreesNodes heap (some p) (r >>= fun heap => freeNode heap p)

/-- `free_user_node` -/
def FreeUserNode (heap : Heap UserEntry) (node : Option Nat) (r : Res (Heap UserEntry)) : Prop :=
  FreesNodes heap node r

/-! ## Both lists -/

/-- The two heads, and the heap with the nodes. `malloc` has given out the addresses below `next`.
-/
structure SharedLists where
  heap : Heap UserEntry
  next : Nat
  nickHead : Option Nat
  userHead : Option Nat

namespace SharedLists

def init : SharedLists := ⟨fun _ => none, 0, none, none⟩

def head (s : SharedLists) : Side → Option Nat
  | .nick => s.nickHead
  | .user => s.userHead

def setHead (s : SharedLists) (p : Nat) : Side → SharedLists
  | .nick => { s with nickHead := some p }
  | .user => { s with userHead := some p }

/-- A node from `malloc`, with `next` set to NULL -/
def malloc (s : SharedLists) (entry : UserEntry) : SharedLists :=
  { s with heap := Function.update s.heap s.next (some ⟨entry, none⟩), next := s.next + 1 }

/-- The NICK or the USER branch allocates a node and makes it the head of an empty list, or adds it
to the list, and this ends in `r`. -/
def Adds (s : SharedLists) (side : Side) (entry : UserEntry) (r : Res SharedLists) : Prop :=
  if s.head side = none then
    r = .ok ((s.malloc entry).setHead s.next side)
  else
    ∃ heap, AddUserNode (s.malloc entry).heap (s.head side) s.next heap ∧
      r = heap.map fun heap => { s.malloc entry with heap := heap }

/-- `free_user_node(nick_head); free_user_node(user_head);` at the end of `chirc_run` -/
def Frees (s : SharedLists) (r : Res (Heap UserEntry)) : Prop :=
  (∃ f, FreeUserNode s.heap s.nickHead (.error f) ∧ r = .error f) ∨
    ∃ heap, FreeUserNode s.heap s.nickHead (.ok heap) ∧ FreeUserNode heap s.userHead r

end SharedLists

end Chirc
