import Chirc.Server.State
import Chirc.Theory.LinkedList

/-! # Lists of names on the heap

The functions of `my_utils.h` and `utils_list.h` that look for a name in a list or delete one, on
the nodes themselves. Each is given by the body of its loop, whose state is its variables with
`head` as the last one. The mutex of the list is left out.

`len` is an `int`, while `strlen` returns a `size_t`. -/

namespace Chirc

open LinkedList

/-- A string in an array `char[size]` -/
structure CharArray (size : Nat) where
  str : CStr
  nul : NUL ∉ str
  lt : str.length < size

/-- `user_node_t` without its link -/
structure UserEntry where
  name : CharArray 128
  msg : Option Message

/-- What the shared lists of the server keep of a node -/
def UserEntry.toUserNode (node : UserEntry) : UserNode := ⟨node.name.str, node.msg⟩

/-- `user_list_node` without its link -/
structure UserListEntry where
  user : CharArray 256

/-! ## Nodes -/

/-- `*p` -/
def load (heap : Heap ν) (p : Nat) : Res (Node ν) :=
  match heap p with
  | some node => .ok node
  | none => .error .useAfterFree

/-- `p->next = next` -/
def storeNext (heap : Heap ν) (p : Nat) (next : Option Nat) : Res (Heap ν) := do
  let _ ← load heap p
  return heap.setNext p next

/-! ## Strings -/

/-- `int len = strlen(s)` -/
def intLen (s : CStr) : Int := (s.length : Int).bmod UInt32.size

/-- An `int` where a `size_t` is expected -/
def toSizeT (len : Int) : Nat := (len % UInt64.size).toNat

/-- `0 == strncmp(s, t, n)` -/
def strncmpEq (s t : CStr) (n : Nat) : Bool := s.take n = t.take n

/-- `for (int i = 0; i < len; ++i)` in the fuzzy lookups: the value of `cnt` behind the loop -/
def countEq (s t : CStr) (len : Int) : Res Int :=
  (List.range len.toNat).foldlM (fun cnt i => do
    if (← rd (s ++ [NUL]) i) = (← rd (t ++ [NUL]) i) then
      return cnt + 1
    else
      return cnt) 0

/-! ## `my_utils.h` -/

/-- `strlen(head->name) == len`, which compares as `size_t` -/
def UserEntry.sameLen (node : UserEntry) (name : CStr) : Bool :=
  node.name.str.length = toSizeT (intLen name)

/-- The condition under which a node is the one that is looked for -/
def UserEntry.isNamed (node : UserEntry) (name : CStr) : Bool :=
  node.sameLen name && strncmpEq node.name.str name (toSizeT (intLen name))

/-- The loop of `del_user_node`, which is left with the heap as it is then -/
def delUserNodeLoop (heap : Heap UserEntry) (name : CStr) :
    Option Nat × Option Nat → Res (Heap UserEntry ⊕ Option Nat × Option Nat)
  | (_, none) => .ok (.inl heap)
  | (prev, some head) => do
    let node ← load heap head
    if node.val.isNamed name then
      match prev with
      | some prev =>
        let heap ← storeNext heap prev node.next
        return .inl (heap.free head)
      | none => return .inl (heap.free head)
    else
      return .inr (some head, node.next)

/-- `del_user_node` ends in `r`, which is the heap afterwards if nothing goes wrong. -/
def DelUserNode (heap : Heap UserEntry) (head : Option Nat) (name : CStr)
    (r : Res (Heap UserEntry)) : Prop :=
  While.Ends (delUserNodeLoop heap name) (none, head) r

/-- The loop of `find_user_node` -/
def findUserNodeLoop (heap : Heap UserEntry) (name : CStr) :
    Option Nat × Option Nat → Res (Option Nat ⊕ Option Nat × Option Nat)
  | (node, none) => .ok (.inl node)
  | (node, some head) => do
    let entry ← load heap head
    if entry.val.isNamed name then
      return .inl (some head)
    else
      return .inr (node, entry.next)

/-- `find_user_node` ends in `r`. -/
def FindUserNode (heap : Heap UserEntry) (head : Option Nat) (name : CStr)
    (r : Res (Option Nat)) : Prop :=
  While.Ends (findUserNodeLoop heap name) (none, head) r

/-! ## Fuzzy lookups -/

/-- The loop of `fuzzy_find_user_node` and of `find_user_list_node`, with the variables `node` and
`max_cnt`; `str` is the string of a node, and `same` the comparison of the lengths. -/
def fuzzyLoop (str : ν → CStr) (same : ν → CStr → Bool) (heap : Heap ν) (name : CStr) :
    (Option Nat × Int) × Option Nat → Res (Option Nat ⊕ (Option Nat × Int) × Option Nat)
  | ((node, _), none) => .ok (.inl node)
  | ((node, maxCnt), some head) => do
    let entry ← load heap head
    if same entry.val name then
      let cnt ← countEq name (str entry.val) (intLen name)
      if cnt > maxCnt then
        return .inr ((some head, cnt), entry.next)
    return .inr ((node, maxCnt), entry.next)

/-- `fuzzy_find_user_node` ends in `r`. -/
def FuzzyFindUserNode (heap : Heap UserEntry) (head : Option Nat) (name : CStr)
    (r : Res (Option Nat)) : Prop :=
  While.Ends (fuzzyLoop (·.name.str) UserEntry.sameLen heap name) ((none, -1), head) r

/-! ## `utils_list.h` -/

/-- `m == len` for `int m = strlen(head->user)` -/
def UserListEntry.sameLen (node : UserListEntry) (user : CStr) : Bool :=
  intLen node.user.str = intLen user

/-- `find_user_list_node` ends in `r`. -/
def FindUserListNode (heap : Heap UserListEntry) (head : Option Nat) (user : CStr)
    (r : Res (Option Nat)) : Prop :=
  While.Ends (fuzzyLoop (·.user.str) UserListEntry.sameLen heap user) ((none, -1), head) r

/-- The condition under which `del_user_list_node` deletes a node -/
def UserListEntry.isUser (node : UserListEntry) (user : CStr) : Bool :=
  node.sameLen user && strncmpEq node.user.str user (toSizeT (intLen user))

/-- The loop of `del_user_list_node` -/
def delUserListNodeLoop (user : CStr) : (Heap UserListEntry × Option Nat) × Option Nat →
    Res (Heap UserListEntry ⊕ (Heap UserListEntry × Option Nat) × Option Nat)
  | ((heap, _), none) => .ok (.inl heap)
  | ((heap, prev), some head) => do
    let node ← load heap head
    if node.val.isUser user then
      let heap ← match prev with
        | some prev => storeNext heap prev node.next
        | none => pure heap
      return .inr ((heap.free head, prev), none)
    else
      -- neither `head` nor `prev` is moved
      return .inr ((heap, prev), some head)

/-- `del_user_list_node` ends in `r`, which is the heap afterwards if nothing goes wrong. -/
def DelUserListNode (heap : Heap UserListEntry) (head : Option Nat) (user : CStr)
    (r : Res (Heap UserListEntry)) : Prop :=
  While.Ends (delUserListNodeLoop user) ((heap, none), head) r

end Chirc
