import Chirc.Sds
import Chirc.Theory.Allocation
import Chirc.Theory.While

/-! # Splits and joins of strings

The functions of `sds.c` on arrays of strings. The heap has blocks with strings and blocks with
arrays of pointers to them, and it records the requests that `malloc` refuses; `mallocs` tells what
each call of `malloc` and `realloc` does, by its number. The loop over the bytes runs on fuel. -/

namespace Chirc.Sds

open Allocation (Heap)

/-- An `sds` in a heap: the address of its block, and the index at which it points -/
structure Ptr where
  block : Nat
  s : Nat
  deriving DecidableEq, Repr

/-- An entry of an array of type `sds *` -/
inductive Entry
  | unset
  | null
  | str (p : Ptr)
  deriving DecidableEq, Repr

inductive Contents
  | bytes (sh : List Byte)
  | tokens (entries : List Entry)
  deriving DecidableEq, Repr

variable (mallocs : Nat → Malloc)

/-- `malloc(sizeof(sds)*slots)` -/
def mallocArray (h : Heap Contents) (slots : Nat) : Heap Contents × Option Nat :=
  match (mallocs h.next).run (sizeT (8 * slots)) with
  | none => (h.refuse (sizeT (8 * slots)), none)
  | some _ => (h.alloc (.tokens (List.replicate slots .unset)), some h.next)

/-- The array at an address -/
def arrayAt (h : Heap Contents) (a : Nat) : Except Stop (List Entry) :=
  match h.block a with
  | some (.tokens entries) => .ok entries
  | _ => .error .notAllocated

/-- `realloc(tokens,sizeof(sds)*slots)` -/
def reallocArray (h : Heap Contents) (a slots : Nat) :
    Except Stop (Heap Contents × Option Nat) := do
  let entries ← arrayAt h a
  match (mallocs h.next).run (sizeT (8 * slots)) with
  | none => return (h.refuse (sizeT (8 * slots)), none)
  | some _ =>
    let grown := entries.take slots ++ List.replicate (slots - entries.length) .unset
    return ((h.alloc (.tokens grown)).free a, some h.next)

/-- `tokens[i]` -/
def entryAt (h : Heap Contents) (a i : Nat) : Except Stop Entry := do
  inBounds (← arrayAt h a)[i]?

/-- `tokens[i] = e` -/
def setEntry (h : Heap Contents) (a i : Nat) (e : Entry) : Except Stop (Heap Contents) := do
  let entries ← arrayAt h a
  if i < entries.length then return h.set a (.tokens (entries.set i e)) else .error .outOfBounds

/-- The string at a pointer -/
def sdsAt (h : Heap Contents) (p : Ptr) : Except Stop Sds :=
  match h.block p.block with
  | some (.bytes sh) => .ok ⟨sh, p.s⟩
  | _ => .error .notAllocated

/-- `sdsnewlen(mem + i, n)` -/
def newAt (h : Heap Contents) (mem : List Byte) (i n : Nat) :
    Except Stop (Heap Contents × Option Ptr) := do
  match ← sdsnewlen (mallocs h.next) (.ptr mem i) n with
  | .null size => return (h.refuse size, none)
  | .ptr x => return (h.alloc (.bytes x.sh), some ⟨h.next, x.s⟩)

/-- `sdsfree`, for a pointer that is not NULL -/
def sdsfree (h : Heap Contents) (p : Ptr) : Except Stop (Heap Contents) := do
  ownsBlock (← sdsAt h p)
  return h.free p.block

/-- `sdsfree(tokens[i])` -/
def freeEntry (a : Nat) (h : Heap Contents) (i : Nat) : Except Stop (Heap Contents) := do
  match ← entryAt h a i with
  | .unset => .error .uninitRead
  | .null => return h
  | .str p => sdsfree h p

/-- `free(tokens)` -/
def freeArray (h : Heap Contents) (a : Nat) : Except Stop (Heap Contents) := do
  let _ ← arrayAt h a
  return h.free a

/-! ## `sdssplitlen` -/

/-- The variables of `sdssplitlen` -/
structure Split where
  heap : Heap Contents
  tokens : Nat
  elements : Nat
  slots : Nat
  start : Nat
  j : Nat

/-- Where the loop goes: behind it, or to `cleanup` -/
inductive Exit
  | done (st : Split)
  | cleanup (st : Split)

/-- More slots if the next element and the final one do not fit; the left side goes to `cleanup`. -/
def growSlots (st : Split) : Except Stop (Split ⊕ Split) :=
  if st.slots < st.elements + 2 then
    if 2147483648 ≤ st.slots * 2 then .error .signedOverflow
    else do
      let r ← reallocArray mallocs st.heap st.tokens (st.slots * 2)
      match r.2 with
      | none => return .inl { st with heap := r.1, slots := st.slots * 2 }
      | some newtokens =>
        return .inr { st with heap := r.1, tokens := newtokens, slots := st.slots * 2 }
  else .ok (.inr st)

/-- The first test for a separator, which is for those of one byte -/
def sameByte (s : List Byte) (j : Nat) (sep : List Byte) (seplen : Nat) : Except Stop Bool :=
  if seplen = 1 then do
    return (← loadByte s j) == (← loadByte sep 0)
  else .ok false

/-- Whether a separator is at `s + j` -/
def isSep (s : List Byte) (j : Nat) (sep : List Byte) (seplen : Nat) : Except Stop Bool := do
  if ← sameByte s j sep seplen then return true
  else return (← load s j seplen) == (← load sep 0 seplen)

/-- The string with `n` bytes from `start` on as the next element; the left side goes to
`cleanup`. -/
def addToken (s : List Byte) (st : Split) (n : Nat) : Except Stop (Split ⊕ Split) := do
  let r ← newAt mallocs st.heap s st.start n
  match r.2 with
  | none =>
    let h ← setEntry r.1 st.tokens st.elements .null
    return .inl { st with heap := h }
  | some p =>
    let h ← setEntry r.1 st.tokens st.elements (.str p)
    return .inr { st with heap := h, elements := st.elements + 1 }

/-- The second half of a round: the search for a separator -/
def searchSep (s : List Byte) (sep : List Byte) (seplen : Nat) (st : Split) :
    Except Stop (Exit ⊕ Split) := do
  if ← isSep s st.j sep seplen then
    match ← addToken mallocs s st (st.j - st.start) with
    | .inl st => return .inl (.cleanup st)
    | .inr st => return .inr { st with start := st.j + seplen, j := st.j + seplen }
  else return .inr { st with j := st.j + 1 }

/-- A round of the loop over `j` -/
def splitRound (s : List Byte) (len : Nat) (sep : List Byte) (seplen : Nat) (st : Split) :
    Except Stop (Exit ⊕ Split) :=
  if st.j + (seplen - 1) < len then do
    match ← growSlots mallocs st with
    | .inl st => return .inl (.cleanup st)
    | .inr st => searchSep mallocs s sep seplen st
  else .ok (.inl (.done st))

/-- What `sdssplitlen` returns, and what it stores in `count`, if it does -/
structure SplitResult where
  heap : Heap Contents
  tokens : Option Nat
  count : Option Nat

/-- The code at `cleanup` -/
def cleanup (st : Split) : Except Stop SplitResult := do
  let h ← (List.range st.elements).foldlM (freeEntry st.tokens) st.heap
  return ⟨← freeArray h st.tokens, none, some 0⟩

/-- What comes after the loop -/
def splitEnd (s : List Byte) (len : Nat) : Exit → Except Stop SplitResult
  | .cleanup st => cleanup st
  | .done st => do
    match ← addToken mallocs s st (len - st.start) with
    | .inl st => cleanup st
    | .inr st => return ⟨st.heap, some st.tokens, some st.elements⟩

/-- `sdssplitlen` -/
def sdssplitlen (h : Heap Contents) (s : List Byte) (len : Int) (sep : List Byte) (seplen : Int) :
    Except Stop SplitResult :=
  if seplen < 1 ∨ len < 0 then .ok ⟨h, none, none⟩
  else
    match mallocArray mallocs h 5 with
    | (h, none) => .ok ⟨h, none, none⟩
    | (h, some tokens) =>
      if len = 0 then .ok ⟨h, some tokens, some 0⟩
      else do
        let exit ← While.rounds (splitRound mallocs s len.toNat sep seplen.toNat) (len.toNat + 1)
          ⟨h, tokens, 0, 5, 0, 0⟩
        match exit with
        | none => .error .outOfFuel
        | some exit => splitEnd mallocs s len.toNat exit

/-- The loop of `sdsfreesplitres` -/
def freeDown (a : Nat) (h : Heap Contents) : Nat → Except Stop (Heap Contents)
  | 0 => .ok h
  | count + 1 => do
    freeDown a (← freeEntry a h count) count

/-- `sdsfreesplitres`, for an array that is not NULL -/
def sdsfreesplitres (h : Heap Contents) (a count : Nat) : Except Stop (Heap Contents) := do
  freeArray (← freeDown a h count) a

/-! ## `sdsjoinsds` -/

/-- The string `argv[j]` -/
def argAt (h : Heap Contents) (a j : Nat) : Except Stop Sds := do
  match ← entryAt h a j with
  | .unset => .error .uninitRead
  | .null => .error .nullDeref
  | .str p => sdsAt h p

/-- A round of the loop of `sdsjoinsds`; nothing tests whether `join` is NULL. -/
def joinRound (h : Heap Contents) (a argc : Nat) (sep : List Byte) (seplen : Nat)
    (join : Given Sds) (j : Nat) : Except Stop (Given Sds) :=
  match join with
  | .null size => .error (.noMemory (2 * j) size)
  | .ptr x => do
    let join ← sdscatsds (mallocs (2 * j + 1)) x (← argAt h a j)
    if j + 1 = argc then return join
    else
      match join with
      | .null size => .error (.noMemory (2 * j + 1) size)
      | .ptr x => sdscatlen (mallocs (2 * j + 2)) x sep 0 seplen

/-- `sdsjoinsds`; the calls of `malloc` are numbered from 0 on. -/
def sdsjoinsds (h : Heap Contents) (a argc : Nat) (sep : List Byte) (seplen : Nat) :
    Except Stop (Given Sds) := do
  let join ← sdsempty (mallocs 0)
  (List.range argc).foldlM (joinRound mallocs h a argc sep seplen) join

end Chirc.Sds
