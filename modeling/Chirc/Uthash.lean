import Chirc.Bytes
import Chirc.Theory.DoublyLinked

/-! # Hash tables

The macros of `uthash.h` that the tables of the server and of the context use. A struct in a table
and the handle in it are named by one address, and NULL is `none`. The hash function and `malloc`,
which is told a number of bytes, are parameters; the sizes are those of an LP64 machine, and
`unsigned` has 32 bits. `HASH_BLOOM` and `HASH_NONFATAL_OOM` are not defined, so a failed `malloc`
is `exit(-1)`.

The loops run on fuel. -/

namespace Chirc

open DoublyLinked.Chain (setAt)

namespace Uthash

/-- Why an operation has no result -/
inductive Stop
  /-- `uthash_fatal("out of memory")`, after `malloc` was asked for so many bytes -/
  | outOfMemory (size : Nat)
  /-- `HASH_OOPS` -/
  | oops
  /-- an entry outside of the array of buckets -/
  | outOfBounds
  | nullDeref
  /-- a shift by the width of the type or more -/
  | badShift
  | outOfFuel
  deriving DecidableEq, Repr

/-- The program exits because `malloc` has refused what it was asked for. -/
def Refused (malloc : Nat → Bool) (x : Except Stop α) : Prop :=
  ∃ size, malloc size = false ∧ x = .error (.outOfMemory size)

theorem Refused.bind {malloc : Nat → Bool} {x : Except Stop α} (h : Refused malloc x)
    (f : α → Except Stop β) : Refused malloc (x >>= f) := by
  obtain ⟨size, hsize, rfl⟩ := h
  exact ⟨size, hsize, rfl⟩

theorem Refused.resolve {malloc : Nat → Bool} {x : Except Stop α} {P : α → Prop}
    (h : Refused malloc x ∨ ∃ a, x = .ok a ∧ P a) (hok : x.toOption.isSome) :
    ∃ a, x = .ok a ∧ P a := by
  cases h with
  | inl h =>
    obtain ⟨size, -, rfl⟩ := h
    cases hok
  | inr h => exact h

theorem Stop.ok_bind (a : α) (f : α → Except Stop β) :
    ((Except.ok a : Except Stop α) >>= f) = f a := rfl

/-- The members of the `UT_hash_handle`s, by address; `key` holds the `keylen` bytes. The member
`tbl` of the handles in a table is the table, and those of others are not read. -/
structure Handles where
  prev : Nat → Option Nat
  next : Nat → Option Nat
  hhPrev : Nat → Option Nat
  hhNext : Nat → Option Nat
  key : Nat → List Byte
  hashv : Nat → UInt32

/-- The handles in memory that has been set to zero -/
def Handles.zero : Handles where
  prev _ := none
  next _ := none
  hhPrev _ := none
  hhNext _ := none
  key _ := []
  hashv _ := 0

/-- `UT_hash_bucket` -/
structure Bucket where
  hhHead : Option Nat
  count : UInt32
  expandMult : UInt32
  deriving DecidableEq, Repr

/-- `UT_hash_table` without its offset and its signature -/
structure Table where
  buckets : List Bucket
  numBuckets : UInt32
  log2NumBuckets : UInt32
  numItems : UInt32
  tail : Nat
  idealChainMaxlen : UInt32
  nonidealItems : UInt32
  ineffExpands : UInt32
  noexpand : Bool
  deriving DecidableEq, Repr

/-- The handles in memory and the variable `head`, with the table that it leads to -/
structure Hash where
  hh : Handles
  root : Option (Nat × Table)

/-- `HASH_INITIAL_NUM_BUCKETS` -/
def hashInitialNumBuckets : UInt32 := 32

/-- `HASH_INITIAL_NUM_BUCKETS_LOG2` -/
def hashInitialNumBucketsLog2 : UInt32 := 5

/-- `HASH_BKT_CAPACITY_THRESH` -/
def hashBktCapacityThresh : UInt32 := 10

/-- `sizeof(UT_hash_table)` -/
def sizeofTable : Nat := 64

/-- `sizeof(struct UT_hash_bucket)` -/
def sizeofBucket : Nat := 16

/-- A bucket after `uthash_bzero` -/
def Bucket.zero : Bucket := ⟨none, 0, 0⟩

/-- `HASH_TO_BKT` -/
def hashToBkt (hashv numBkts : UInt32) : Nat := (hashv &&& (numBkts - 1)).toNat

/-- `buckets[i]` -/
def bucketAt (buckets : List Bucket) (i : Nat) : Except Stop Bucket :=
  match buckets[i]? with
  | some b => .ok b
  | none => .error .outOfBounds

/-- `n >> k` -/
def shiftRight (n k : UInt32) : Except Stop UInt32 :=
  if k < 32 then .ok (n >>> k) else .error .badShift

/-! ## Lookups -/

/-- `HASH_FIND_IN_BKT`, from the value `out` on -/
def hashFindInBkt (hh : Handles) (key : List Byte) (hashv : UInt32) :
    Nat → Option Nat → Except Stop (Option Nat)
  | 0, _ => .error .outOfFuel
  | _ + 1, none => .ok none
  | fuel + 1, some out =>
    if hh.hashv out = hashv ∧ hh.key out = key then .ok (some out)
    else hashFindInBkt hh key hashv fuel (hh.hhNext out)

/-- `HASH_FIND` -/
def hashFind (hash : List Byte → UInt32) (fuel : Nat) (s : Hash) (key : List Byte) :
    Except Stop (Option Nat) :=
  match s.root with
  | none => .ok none
  | some (_, tbl) => do
    let hashv := hash key
    let bkt ← bucketAt tbl.buckets (hashToBkt hashv tbl.numBuckets)
    hashFindInBkt s.hh key hashv fuel bkt.hhHead

/-- `HASH_CNT` -/
def hashCnt (s : Hash) : UInt32 :=
  match s.root with
  | none => 0
  | some (_, tbl) => tbl.numItems

/-! ## More buckets -/

/-- What `HASH_EXPAND_BUCKETS` has done so far -/
structure Expansion where
  hh : Handles
  newBuckets : List Bucket
  nonidealItems : UInt32

/-- The handle becomes the first one of its chain. -/
def Handles.pushHh (hh : Handles) (head : Option Nat) (a : Nat) : Handles :=
  { hh with
    hhNext := Function.update hh.hhNext a head
    hhPrev := setAt (Function.update hh.hhPrev a none) head (some a) }

/-- A round of the inner loop of `HASH_EXPAND_BUCKETS`, for `num_buckets * 2U` buckets -/
def moveHandle (numBuckets ideal : UInt32) (e : Expansion) (thh : Nat) : Except Stop Expansion := do
  let bkt := hashToBkt (e.hh.hashv thh) numBuckets
  let newbkt ← bucketAt e.newBuckets bkt
  let count := newbkt.count + 1
  let expandMult :=
    if count > ideal ∧ count > newbkt.expandMult * ideal then newbkt.expandMult + 1
    else newbkt.expandMult
  return {
    hh := e.hh.pushHh newbkt.hhHead thh
    newBuckets := e.newBuckets.set bkt ⟨some thh, count, expandMult⟩
    nonidealItems := if count > ideal then e.nonidealItems + 1 else e.nonidealItems }

/-- The inner loop of `HASH_EXPAND_BUCKETS` -/
def moveChain (numBuckets ideal : UInt32) :
    Nat → Option Nat → Expansion → Except Stop Expansion
  | 0, _, _ => .error .outOfFuel
  | _ + 1, none, e => .ok e
  | fuel + 1, some thh, e => do
    -- the link is read before the handle is moved
    let nxt := e.hh.hhNext thh
    let e ← moveHandle numBuckets ideal e thh
    moveChain numBuckets ideal fuel nxt e

/-- The outer loop of `HASH_EXPAND_BUCKETS`, over the buckets of the table; `size` buckets have been
allocated. -/
def moveChains (fuel : Nat) (hh : Handles) (tbl : Table) (size : Nat) (numBuckets ideal : UInt32) :
    Except Stop Expansion :=
  (List.range tbl.numBuckets.toNat).foldlM (fun e i => do
      let bkt ← bucketAt tbl.buckets i
      moveChain numBuckets ideal fuel bkt.hhHead e)
    ⟨hh, List.replicate size .zero, 0⟩

/-- `HASH_EXPAND_BUCKETS` -/
def hashExpandBuckets (malloc : Nat → Bool) (fuel : Nat) (hh : Handles) (tbl : Table) :
    Except Stop (Handles × Table) := do
  -- a `size_t`, while `num_buckets * 2U` is `unsigned`
  let size := tbl.numBuckets.toNat * 2
  let numBuckets := tbl.numBuckets * 2
  if malloc (sizeofBucket * size) = false then
    .error (.outOfMemory (sizeofBucket * size))
  else
    let quot ← shiftRight tbl.numItems (tbl.log2NumBuckets + 1)
    let ideal := quot + if tbl.numItems &&& (numBuckets - 1) = 0 then 0 else 1
    let e ← moveChains fuel hh tbl size numBuckets ideal
    let ineff := if e.nonidealItems > tbl.numItems >>> 1 then tbl.ineffExpands + 1 else 0
    return (e.hh, { tbl with
      buckets := e.newBuckets
      numBuckets := numBuckets
      log2NumBuckets := tbl.log2NumBuckets + 1
      idealChainMaxlen := ideal
      nonidealItems := e.nonidealItems
      ineffExpands := ineff
      noexpand := tbl.noexpand || ineff > 1 })

/-! ## Additions -/

/-- `HASH_MAKE_TABLE` -/
def hashMakeTable (malloc : Nat → Bool) (head : Nat) : Except Stop Table :=
  if malloc sizeofTable = false then
    .error (.outOfMemory sizeofTable)
  else if malloc (hashInitialNumBuckets.toNat * sizeofBucket) = false then
    .error (.outOfMemory (hashInitialNumBuckets.toNat * sizeofBucket))
  else
    .ok {
      buckets := List.replicate hashInitialNumBuckets.toNat .zero
      numBuckets := hashInitialNumBuckets
      log2NumBuckets := hashInitialNumBucketsLog2
      numItems := 0
      tail := head
      idealChainMaxlen := 0
      nonidealItems := 0
      ineffExpands := 0
      noexpand := false }

/-- `HASH_ADD_TO_BKT` -/
def hashAddToBkt (malloc : Nat → Bool) (fuel : Nat) (hh : Handles) (tbl : Table) (bkt addhh : Nat) :
    Except Stop (Handles × Table) := do
  let head ← bucketAt tbl.buckets bkt
  let hh := hh.pushHh head.hhHead addhh
  let head := { head with count := head.count + 1, hhHead := some addhh }
  let tbl := { tbl with buckets := tbl.buckets.set bkt head }
  if head.count ≥ (head.expandMult + 1) * hashBktCapacityThresh ∧ tbl.noexpand = false then
    hashExpandBuckets malloc fuel hh tbl
  else
    return (hh, tbl)

/-- `HASH_ADD_TO_TABLE` -/
def hashAddToTable (malloc : Nat → Bool) (fuel : Nat) (hh : Handles) (head : Nat) (tbl : Table)
    (hashv : UInt32) (add : Nat) : Except Stop Hash := do
  let tbl := { tbl with numItems := tbl.numItems + 1 }
  let (hh, tbl) ← hashAddToBkt malloc fuel hh tbl (hashToBkt hashv tbl.numBuckets) add
  return ⟨hh, some (head, tbl)⟩

/-- The key of a struct and its hash value are set before it is linked. -/
def Handles.setKey (hh : Handles) (add : Nat) (key : List Byte) (hashv : UInt32) : Handles :=
  { hh with
    hashv := Function.update hh.hashv add hashv
    key := Function.update hh.key add key }

/-- The first struct of a table has no neighbours. -/
def Handles.alone (hh : Handles) (add : Nat) : Handles :=
  { hh with next := Function.update hh.next add none, prev := Function.update hh.prev add none }

/-- `HASH_APPEND_LIST` -/
def Handles.appendList (hh : Handles) (tail add : Nat) : Handles :=
  { hh with
    next := Function.update (Function.update hh.next add none) tail (some add)
    prev := Function.update hh.prev add (some tail) }

/-- `HASH_ADD` -/
def hashAdd (hash : List Byte → UInt32) (malloc : Nat → Bool) (fuel : Nat) (s : Hash) (add : Nat)
    (key : List Byte) : Except Stop Hash :=
  let hashv := hash key
  let hh := s.hh.setKey add key hashv
  match s.root with
  | none => do
    let tbl ← hashMakeTable malloc add
    hashAddToTable malloc fuel (hh.alone add) add tbl hashv add
  | some (head, tbl) =>
    hashAddToTable malloc fuel (hh.appendList tbl.tail add) head { tbl with tail := add } hashv add

/-! ## Deletions -/

/-- `HASH_DEL_IN_BKT` -/
def hashDelInBkt (hh : Handles) (buckets : List Bucket) (bkt delhh : Nat) :
    Except Stop (Handles × List Bucket) := do
  let head ← bucketAt buckets bkt
  let hhHead := if head.hhHead = some delhh then hh.hhNext delhh else head.hhHead
  return ({ hh with
      hhNext := setAt hh.hhNext (hh.hhPrev delhh) (hh.hhNext delhh)
      hhPrev := setAt hh.hhPrev (hh.hhNext delhh) (hh.hhPrev delhh) },
    buckets.set bkt { head with count := head.count - 1, hhHead := hhHead })

/-- `tail` after the deletion: the struct before the last one, if that one is deleted -/
def tailAfter (hh : Handles) (tail del : Nat) : Except Stop Nat :=
  if del = tail then
    match hh.prev del with
    | some p => .ok p
    | none => .error .nullDeref
  else .ok tail

/-- The neighbours of a struct are linked to each other. -/
def Handles.unlinkApp (hh : Handles) (del : Nat) : Handles :=
  { hh with
    next := setAt hh.next (hh.prev del) (hh.next del)
    prev := setAt hh.prev (hh.next del) (hh.prev del) }

/-- `HASH_DELETE` -/
def hashDelete (s : Hash) (del : Nat) : Except Stop Hash :=
  match s.root with
  | none => .error .nullDeref
  | some (head, tbl) =>
    if s.hh.prev del = none ∧ s.hh.next del = none then
      .ok ⟨s.hh, none⟩
    else do
      let tail ← tailAfter s.hh tbl.tail del
      let head := if s.hh.prev del = none then (s.hh.next del).getD head else head
      let hh := s.hh.unlinkApp del
      let (hh, buckets) ← hashDelInBkt hh tbl.buckets (hashToBkt (hh.hashv del) tbl.numBuckets) del
      return ⟨hh, some (head, { tbl with
        tail := tail, buckets := buckets, numItems := tbl.numItems - 1 })⟩

/-- `HASH_CLEAR` -/
def hashClear (s : Hash) : Hash := { s with root := none }

/-! ## Iterations -/

/-- The loop of `HASH_ITER`, with the variables `el` and `tmp`; the body may change the table. -/
def hashIterLoop (handles : σ → Handles) (body : σ → Nat → Except Stop σ) :
    Nat → Option Nat → Option Nat → σ → Except Stop σ
  | 0, _, _, _ => .error .outOfFuel
  | _ + 1, none, _, s => .ok s
  | fuel + 1, some el, tmp, s => do
    let s ← body s el
    hashIterLoop handles body fuel tmp (tmp.bind (handles s).next) s

/-- `HASH_ITER` over the table `t`, for variables `s` -/
def hashIter (handles : σ → Handles) (body : σ → Nat → Except Stop σ) (fuel : Nat) (t : Hash)
    (s : σ) : Except Stop σ :=
  let head := t.root.map Prod.fst
  hashIterLoop handles body fuel head (head.bind t.hh.next) s

/-! ## `HASH_FSCK`

The check that `HASH_DEBUG` puts behind each addition and each deletion. -/

/-- A loop over a chain, which counts its elements -/
def fsckChain (next prev : Nat → Option Nat) :
    Nat → Option Nat → Option Nat → UInt32 → Except Stop UInt32
  | 0, _, _, _ => .error .outOfFuel
  | _ + 1, _, none, count => .ok count
  | fuel + 1, before, some thh, count =>
    if before = prev thh then fsckChain next prev fuel (some thh) (next thh) (count + 1)
    else .error .oops

/-- `HASH_FSCK` -/
def hashFsck (fuel : Nat) (s : Hash) : Except Stop Unit :=
  match s.root with
  | none => .ok ()
  | some (head, tbl) => do
    let count ← (List.range tbl.numBuckets.toNat).foldlM (fun count i => do
        let bkt ← bucketAt tbl.buckets i
        let bktCount ← fsckChain s.hh.hhNext s.hh.hhPrev fuel none bkt.hhHead 0
        if bkt.count = bktCount then return count + bktCount else .error .oops) 0
    if count = tbl.numItems then
      let count ← fsckChain s.hh.next s.hh.prev fuel none (some head) 0
      if count = tbl.numItems then return () else .error .oops
    else .error .oops

end Uthash

end Chirc
