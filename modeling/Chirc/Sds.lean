import Chirc.Bytes
import Chirc.Theory.Block

/-! # Dynamic strings

The functions of `sds.h` and `sds.c` that work on one string. A string is the block that `malloc`
gave out, in which the header lies before the bytes; other memory that a function reads is a list of
bytes. `long` has 64 bits. -/

namespace Chirc

/-- `sds`: the block with the string, and the index at which the pointer points -/
structure Sds where
  sh : List Byte
  s : Nat
  deriving DecidableEq, Repr

namespace Sds

open Block (leBytes ofLe)

/-- Why a function has no result -/
inductive Stop
  /-- a part that sticks out of its block -/
  | outOfBounds
  /-- a block that is not allocated, or not any more -/
  | notAllocated
  /-- memory that was not set -/
  | uninitRead
  | nullDeref
  /-- an access through a NULL that a call of `malloc` gave, which had been asked for `size` bytes -/
  | noMemory (call size : Nat)
  /-- a read of a `count` that `sdssplitlen` has not set, after these refused requests -/
  | countUnset (refused : List (Nat × Nat))
  | signedOverflow
  | outOfFuel
  deriving DecidableEq, Repr

@[simp] theorem Stop.ok_bind (a : α) (f : α → Except Stop β) :
    ((Except.ok a : Except Stop α) >>= f) = f a := rfl

def inBounds : Option α → Except Stop α
  | some a => .ok a
  | none => .error .outOfBounds

def load (mem : List Byte) (i n : Nat) : Except Stop (List Byte) := inBounds (Block.read mem i n)

def store (mem : List Byte) (i : Nat) (bytes : List Byte) : Except Stop (List Byte) :=
  inBounds (Block.write mem i bytes)

def loadByte (mem : List Byte) (i : Nat) : Except Stop Byte := inBounds mem[i]?

/-- An unsigned field of `n` bytes -/
def loadInt (mem : List Byte) (i n : Nat) : Except Stop Nat := do
  return ofLe (← load mem i n)

/-- `p - n` for a pointer into a block -/
def back (i n : Nat) : Except Stop Nat := if n ≤ i then .ok (i - n) else .error .outOfBounds

/-- A value of type `size_t` -/
def sizeT (n : Nat) : Nat := n % 18446744073709551616

/-- `malloc`: what the block that it gives out holds, if there is one. -/
structure Malloc where
  run : Nat → Option (List Byte)
  length_eq : run size = some bytes → bytes.length = size

/-- What a function that needs memory gives: NULL, because `malloc` was asked for that many bytes
and had not so many, or a value -/
inductive Given (α : Type)
  | null (size : Nat)
  | ptr (a : α)

/-- `realloc` -/
def realloc (malloc : Malloc) (mem : List Byte) (size : Nat) : Option (List Byte) :=
  (malloc.run size).map fun bytes => mem.take size ++ bytes.drop mem.length

/-! ## Headers -/

/-- `SDS_TYPE_5` and so on -/
inductive SdsType
  | type5
  | type8
  | type16
  | type32
  | type64
  deriving DecidableEq, Repr

def SdsType.code : SdsType → Byte
  | .type5 => 0
  | .type8 => 1
  | .type16 => 2
  | .type32 => 3
  | .type64 => 4

/-- The size of `len` and of `alloc` -/
def SdsType.width : SdsType → Nat
  | .type5 => 0
  | .type8 => 1
  | .type16 => 2
  | .type32 => 4
  | .type64 => 8

/-- `sizeof(struct sdshdr5)` and so on -/
def SdsType.hdrSize (type : SdsType) : Nat := 2 * type.width + 1

/-- `flags & SDS_TYPE_MASK` -/
def sdsType (flags : Byte) : Option SdsType :=
  match (flags &&& 7).toNat with
  | 0 => some .type5
  | 1 => some .type8
  | 2 => some .type16
  | 3 => some .type32
  | 4 => some .type64
  | _ => none

/-- `sdsHdrSize` -/
def sdsHdrSize (flags : Byte) : Nat := ((sdsType flags).map SdsType.hdrSize).getD 0

/-- `sdsReqType` -/
def sdsReqType (stringSize : Nat) : SdsType :=
  if stringSize < 32 then .type5
  else if stringSize < 256 then .type8
  else if stringSize < 65536 then .type16
  else if stringSize < 4294967296 then .type32
  else .type64

/-- `s[-1]` -/
def flags (x : Sds) : Except Stop Byte := do
  loadByte x.sh (← back x.s 1)

/-- `sdslen` -/
def sdslen (x : Sds) : Except Stop Nat := do
  let flags ← flags x
  match sdsType flags with
  | none => return 0
  | some .type5 => return (flags >>> 3).toNat
  | some type => loadInt x.sh (← back x.s type.hdrSize) type.width

/-- `sdsalloc` -/
def sdsalloc (x : Sds) : Except Stop Nat := do
  let flags ← flags x
  match sdsType flags with
  | none => return 0
  | some .type5 => return (flags >>> 3).toNat
  | some type => loadInt x.sh ((← back x.s type.hdrSize) + type.width) type.width

/-- `sdsavail`; a difference of `uint32_t` has 32 bits, and the others are made a `size_t`. -/
def sdsavail (x : Sds) : Except Stop Nat := do
  let flags ← flags x
  match sdsType flags with
  | none => return 0
  | some .type5 => return 0
  | some type =>
    let sh ← back x.s type.hdrSize
    let len ← loadInt x.sh sh type.width
    let alloc ← loadInt x.sh (sh + type.width) type.width
    if type = .type32 then return (alloc + 4294967296 - len) % 4294967296
    else return sizeT (alloc + 18446744073709551616 - len)

/-- `sdssetlen` -/
def sdssetlen (x : Sds) (newlen : Nat) : Except Stop Sds := do
  let flags ← flags x
  match sdsType flags with
  | none => return x
  | some .type5 =>
    let f := SdsType.type5.code ||| UInt8.ofNat (newlen * 8)
    return { x with sh := ← store x.sh (← back x.s 1) [f] }
  | some type =>
    return { x with sh := ← store x.sh (← back x.s type.hdrSize) (leBytes type.width newlen) }

/-- `sdssetalloc` -/
def sdssetalloc (x : Sds) (newlen : Nat) : Except Stop Sds := do
  let flags ← flags x
  match sdsType flags with
  | none => return x
  | some .type5 => return x
  | some type =>
    let sh ← store x.sh ((← back x.s type.hdrSize) + type.width) (leBytes type.width newlen)
    return { x with sh := sh }

/-- `s[-1] = flags` -/
def setFlags (x : Sds) (flags : Byte) : Except Stop Sds := do
  return { x with sh := ← store x.sh (← back x.s 1) [flags] }

/-- `s[i] = b` -/
def setByte (x : Sds) (i : Nat) (b : Byte) : Except Stop Sds := do
  return { x with sh := ← store x.sh (x.s + i) [b] }

/-- `memcpy(s + i, t + j, len)` for other memory `t` -/
def copyFrom (x : Sds) (i : Nat) (t : List Byte) (j len : Nat) : Except Stop Sds := do
  return { x with sh := ← store x.sh (x.s + i) (← load t j len) }

/-! ## New strings -/

/-- The parameter `init` of `sdsnewlen` -/
inductive Source
  | null
  /-- `SDS_NOINIT` -/
  | noInit
  | ptr (mem : List Byte) (i : Nat)

/-- The block of `sdsnewlen` before its header is written: `memset` if `init` is NULL. -/
def Source.fill (init : Source) (sh : List Byte) (size : Nat) : Except Stop (List Byte) :=
  match init with
  | .null => store sh 0 (List.replicate size 0)
  | _ => .ok sh

/-- The bytes of `init`, if there are some -/
def Source.copy (init : Source) (x : Sds) (initlen : Nat) : Except Stop Sds :=
  match init with
  | .ptr mem i => if initlen = 0 then .ok x else copyFrom x 0 mem i initlen
  | _ => .ok x

/-- The type of a new string -/
def newType (initlen : Nat) : SdsType :=
  if sdsReqType initlen = .type5 ∧ initlen = 0 then .type8 else sdsReqType initlen

/-- The `switch` of `sdsnewlen` -/
def initHdr (x : Sds) (type : SdsType) (initlen : Nat) : Except Stop Sds :=
  match type with
  | .type5 => setFlags x (SdsType.type5.code ||| UInt8.ofNat (initlen * 8))
  | _ => do
    let hdr ← back x.s type.hdrSize
    let sh ← store x.sh hdr (leBytes type.width initlen)
    let sh ← store sh (hdr + type.width) (leBytes type.width initlen)
    setFlags { x with sh := sh } type.code

/-- `sdsnewlen` -/
def sdsnewlen (malloc : Malloc) (init : Source) (initlen : Nat) : Except Stop (Given Sds) :=
  let type := newType initlen
  let size := sizeT (type.hdrSize + initlen + 1)
  match malloc.run size with
  | none => .ok (.null size)
  | some sh => do
    let sh ← init.fill sh size
    let x ← initHdr ⟨sh, type.hdrSize⟩ type initlen
    let x ← init.copy x initlen
    return .ptr (← setByte x initlen NUL)

/-- `strlen`: the scan reads every byte up to the NUL. -/
def strlen (mem : List Byte) (i : Nat) : Except Stop Nat :=
  inBounds ((mem.drop i).findIdx? (· == NUL))

/-- `sdsempty` -/
def sdsempty (malloc : Malloc) : Except Stop (Given Sds) := sdsnewlen malloc (.ptr [NUL] 0) 0

/-- `sdsdup` -/
def sdsdup (malloc : Malloc) (x : Sds) : Except Stop (Given Sds) := do
  sdsnewlen malloc (.ptr x.sh x.s) (← sdslen x)

/-! ## More room -/

/-- `SDS_MAX_PREALLOC` -/
def sdsMaxPrealloc : Nat := 1048576

/-- The length that `sdsMakeRoomFor` asks for -/
def roomFor (len addlen : Nat) : Nat :=
  let newlen := sizeT (len + addlen)
  if newlen < sdsMaxPrealloc then sizeT (newlen * 2) else sizeT (newlen + sdsMaxPrealloc)

/-- `free` and `realloc` get the start of a block. -/
def ownsBlock (x : Sds) : Except Stop Unit := do
  if (← back x.s (sdsHdrSize (← flags x))) = 0 then return () else .error .notAllocated

/-- A string of another type with the same bytes: the branches of `sdsMakeRoomFor` and of
`sdsRemoveFreeSpace` that do not use `realloc`. -/
def moveTo (malloc : Malloc) (x : Sds) (type : SdsType) (len newlen : Nat) :
    Except Stop (Given Sds) :=
  match malloc.run (sizeT (type.hdrSize + newlen + 1)) with
  | none => .ok (.null (sizeT (type.hdrSize + newlen + 1)))
  | some newsh => do
    let y ← copyFrom ⟨newsh, type.hdrSize⟩ 0 x.sh x.s (len + 1)
    ownsBlock x
    let y ← setFlags y type.code
    let y ← sdssetlen y len
    return .ptr (← sdssetalloc y newlen)

/-- The branches that use it; `hdrlen` is the size of the header. -/
def resize (malloc : Malloc) (x : Sds) (hdrlen newlen : Nat) : Except Stop (Given Sds) := do
  ownsBlock x
  match realloc malloc x.sh (sizeT (hdrlen + newlen + 1)) with
  | none => return .null (sizeT (hdrlen + newlen + 1))
  | some newsh => return .ptr (← sdssetalloc ⟨newsh, hdrlen⟩ newlen)

/-- `sdsMakeRoomFor` -/
def sdsMakeRoomFor (malloc : Malloc) (x : Sds) (addlen : Nat) : Except Stop (Given Sds) := do
  let avail ← sdsavail x
  let oldtype := sdsType (← flags x)
  if addlen ≤ avail then return .ptr x
  else
    let len ← sdslen x
    let newlen := roomFor len addlen
    let type := if sdsReqType newlen = .type5 then .type8 else sdsReqType newlen
    if oldtype = some type then resize malloc x type.hdrSize newlen
    else moveTo malloc x type len newlen

/-- `sdsRemoveFreeSpace` -/
def sdsRemoveFreeSpace (malloc : Malloc) (x : Sds) : Except Stop (Given Sds) := do
  let oldtype := sdsType (← flags x)
  let oldhdrlen := sdsHdrSize (← flags x)
  let len ← sdslen x
  let avail ← sdsavail x
  if avail = 0 then return .ptr x
  else
    let type := sdsReqType len
    if oldtype = some type ∨ SdsType.type8.code < type.code then resize malloc x oldhdrlen len
    else moveTo malloc x type len len

/-! ## Other bytes -/

/-- `sdscatlen` -/
def sdscatlen (malloc : Malloc) (x : Sds) (t : List Byte) (i len : Nat) :
    Except Stop (Given Sds) := do
  let curlen ← sdslen x
  match ← sdsMakeRoomFor malloc x len with
  | .null size => return .null size
  | .ptr x =>
    let x ← copyFrom x curlen t i len
    let newlen := sizeT (curlen + len)
    let x ← sdssetlen x newlen
    return .ptr (← setByte x newlen NUL)

/-- `sdscatsds`, for two strings -/
def sdscatsds (malloc : Malloc) (x t : Sds) : Except Stop (Given Sds) := do
  sdscatlen malloc x t.sh t.s (← sdslen t)

/-- What `sdscpylen` does once there is room -/
def overwrite (x : Sds) (t : List Byte) (len : Nat) : Except Stop Sds := do
  let x ← copyFrom x 0 t 0 len
  let x ← setByte x len NUL
  sdssetlen x len

/-- `sdscpylen` -/
def sdscpylen (malloc : Malloc) (x : Sds) (t : List Byte) (len : Nat) :
    Except Stop (Given Sds) := do
  if (← sdsalloc x) < len then
    match ← sdsMakeRoomFor malloc x (len - (← sdslen x)) with
    | .null size => return .null size
    | .ptr x => return .ptr (← overwrite x t len)
  else return .ptr (← overwrite x t len)

/-- `sdsgrowzero` -/
def sdsgrowzero (malloc : Malloc) (x : Sds) (len : Nat) : Except Stop (Given Sds) := do
  let curlen ← sdslen x
  if len ≤ curlen then return .ptr x
  else
    match ← sdsMakeRoomFor malloc x (len - curlen) with
    | .null size => return .null size
    | .ptr x =>
      let sh ← store x.sh (x.s + curlen) (List.replicate (len - curlen + 1) 0)
      return .ptr (← sdssetlen { x with sh := sh } len)

/-- `sdsclear` -/
def sdsclear (x : Sds) : Except Stop Sds := do
  let x ← sdssetlen x 0
  setByte x 0 NUL

/-- `sdsupdatelen` -/
def sdsupdatelen (x : Sds) : Except Stop Sds := do
  sdssetlen x (← strlen x.sh x.s)

/-- `strchr` finds the NUL at the end of `cset` as well. -/
def strchr (cset : CStr) (c : Byte) : Bool := c == NUL || cset.contains c

/-- The first loop of `sdstrim`, for `n` bytes from `sp` on -/
def skipFront (sh : List Byte) (cset : CStr) (sp : Nat) : Nat → Except Stop Nat
  | 0 => .ok sp
  | n + 1 => do
    if strchr cset (← loadByte sh sp) then skipFront sh cset (sp + 1) n else return sp

/-- The second loop, for `ep = sp + n` -/
def skipBack (sh : List Byte) (cset : CStr) (sp : Nat) : Nat → Except Stop Nat
  | 0 => .ok sp
  | n + 1 => do
    if strchr cset (← loadByte sh (sp + (n + 1))) then skipBack sh cset sp n
    else return sp + (n + 1)

/-- `memmove(s, sp, len)` -/
def moveFront (x : Sds) (sp len : Nat) : Except Stop Sds :=
  if len = 0 then .ok x
  else do
    return { x with sh := ← store x.sh x.s (← load x.sh sp len) }

/-- The end of `sdstrim` and of `sdsrange` -/
def keepOnly (x : Sds) (sp len : Nat) : Except Stop Sds := do
  let x ← moveFront x sp len
  let x ← setByte x len NUL
  sdssetlen x len

/-- `sdstrim`; if the first loop has gone through the whole string, `ep` is before `sp`. -/
def sdstrim (x : Sds) (cset : CStr) : Except Stop Sds := do
  let len ← sdslen x
  let sp ← skipFront x.sh cset x.s len
  if sp = x.s + len then keepOnly x sp 0
  else
    let ep ← skipBack x.sh cset sp (x.s + len - 1 - sp)
    keepOnly x sp (ep - sp + 1)

/-- An index of `sdsrange` that may count from the end -/
def fromEnd (len : Nat) (i : Int) : Int := if i < 0 then max (len + i) 0 else i

/-- The second `newlen` of `sdsrange`, and `start` -/
def rangeOf (len : Nat) (start stop : Int) : Int × Int :=
  if stop < start then (0, 0)
  else if (len : Int) ≤ start then (start, 0)
  else if (len : Int) ≤ stop then (start, len - 1 - start + 1)
  else (start, stop - start + 1)

/-- `sdsrange` -/
def sdsrange (x : Sds) (start stop : Int) : Except Stop Sds := do
  let len ← sdslen x
  if len = 0 then return x
  else
    let start := fromEnd len start
    let stop := fromEnd len stop
    if 9223372036854775808 ≤ stop - start + 1 then .error .signedOverflow
    else
      let r := rangeOf len start stop
      keepOnly x (x.s + r.1.toNat) r.2.toNat

end Sds

end Chirc
