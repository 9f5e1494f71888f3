import Chirc.Uthash
import Chirc.Theory.Traced

/-! # The hash function

`HASH_JEN` of `uthash.h`, the hash function of all tables, with the indices of the bytes of the key
that it reads. -/

namespace Chirc.Uthash

/-- A computation with the indices of the key that it reads -/
abbrev KeyReads := Traced Nat Stop

/-- `(unsigned)_hj_key[i]` -/
def keyAt (key : List Byte) (i : Nat) : KeyReads UInt32 where
  log := [i]
  result :=
    match key[i]? with
    | some b => .ok b.toUInt32
    | none => .error .outOfBounds

/-- The four bytes from `off` on, the lowest one first -/
def wordAt (key : List Byte) (off : Nat) : KeyReads UInt32 := do
  let b₀ ← keyAt key off
  let b₁ ← keyAt key (off + 1)
  let b₂ ← keyAt key (off + 2)
  let b₃ ← keyAt key (off + 3)
  return b₀ + (b₁ <<< 8) + (b₂ <<< 16) + (b₃ <<< 24)

/-- The variables `_hj_i`, `_hj_j` and `hashv` -/
structure JenVars where
  i : UInt32
  j : UInt32
  hashv : UInt32
  deriving DecidableEq, Repr

/-- `HASH_JEN_MIX` -/
def hashJenMix (v : JenVars) : JenVars :=
  let ⟨a, b, c⟩ := v
  let a := a - b; let a := a - c; let a := a ^^^ (c >>> 13)
  let b := b - c; let b := b - a; let b := b ^^^ (a <<< 8)
  let c := c - a; let c := c - b; let c := c ^^^ (b >>> 13)
  let a := a - b; let a := a - c; let a := a ^^^ (c >>> 12)
  let b := b - c; let b := b - a; let b := b ^^^ (a <<< 16)
  let c := c - a; let c := c - b; let c := c ^^^ (b >>> 5)
  let a := a - b; let a := a - c; let a := a ^^^ (c >>> 3)
  let b := b - c; let b := b - a; let b := b ^^^ (a <<< 10)
  let c := c - a; let c := c - b; let c := c ^^^ (b >>> 15)
  ⟨a, b, c⟩

/-- The loop over blocks of twelve bytes; `off` is how far `_hj_key` has been moved. -/
def hashJenLoop (key : List Byte) :
    Nat → JenVars → Nat → UInt32 → KeyReads (JenVars × Nat × UInt32)
  | 0, _, _, _ => Traced.fail .outOfFuel
  | fuel + 1, v, off, k =>
    if 12 ≤ k then do
      let w₀ ← wordAt key off
      let w₁ ← wordAt key (off + 4)
      let w₂ ← wordAt key (off + 8)
      let v := hashJenMix ⟨v.i + w₀, v.j + w₁, v.hashv + w₂⟩
      hashJenLoop key fuel v (off + 12) (k - 12)
    else
      return (v, off, k)

/-- What `case n` adds, which is reached from all cases above it: a byte, shifted -/
def hashJenCase (key : List Byte) (off : Nat) (k : UInt32) (n : Nat) (shift : UInt32) :
    KeyReads UInt32 :=
  if n ≤ k.toNat then do
    let b ← keyAt key (off + (n - 1))
    return b <<< shift
  else
    return 0

/-- The `switch` -/
def hashJenSwitch (key : List Byte) (v : JenVars) (off : Nat) (k : UInt32) : KeyReads JenVars := do
  let c₁₁ ← hashJenCase key off k 11 24
  let c₁₀ ← hashJenCase key off k 10 16
  let c₉ ← hashJenCase key off k 9 8
  let c₈ ← hashJenCase key off k 8 24
  let c₇ ← hashJenCase key off k 7 16
  let c₆ ← hashJenCase key off k 6 8
  let c₅ ← hashJenCase key off k 5 0
  let c₄ ← hashJenCase key off k 4 24
  let c₃ ← hashJenCase key off k 3 16
  let c₂ ← hashJenCase key off k 2 8
  let c₁ ← hashJenCase key off k 1 0
  return ⟨v.i + c₄ + c₃ + c₂ + c₁, v.j + c₈ + c₇ + c₆ + c₅, v.hashv + c₁₁ + c₁₀ + c₉⟩

/-- `HASH_JEN` -/
def hashJen (fuel : Nat) (key : List Byte) : KeyReads UInt32 := do
  let keylen := UInt32.ofNat key.length
  let (v, off, k) ← hashJenLoop key fuel ⟨0x9e3779b9, 0x9e3779b9, 0xfeedbeef⟩ 0 keylen
  let v ← hashJenSwitch key { v with hashv := v.hashv + keylen } off k
  return (hashJenMix v).hashv

end Chirc.Uthash
