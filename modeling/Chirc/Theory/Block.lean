import Mathlib.Algebra.Order.Ring.Nat
import Mathlib.Tactic.Common

/-! # Blocks of memory

A block is the list of its cells. `read` and `write` work on a part of a block and have no result if
the part sticks out of it. `leBytes` and `ofLe` are the numbers that a part of some bytes stands
for, the lowest byte first. -/

namespace Block

variable {α : Type*}

/-- The `n` cells from `i` on -/
def read (mem : List α) (i n : Nat) : Option (List α) :=
  if i + n ≤ mem.length then some ((mem.drop i).take n) else none

/-- The block with the cells `xs` from `i` on -/
def write (mem : List α) (i : Nat) (xs : List α) : Option (List α) :=
  if i + xs.length ≤ mem.length then some (mem.take i ++ xs ++ mem.drop (i + xs.length)) else none

theorem read_append (pre xs post : List α) :
    read (pre ++ xs ++ post) pre.length xs.length = some xs := by
  have hle : pre.length + xs.length ≤ (pre ++ xs ++ post).length := by
    rw [List.length_append, List.length_append]
    exact Nat.le_add_right _ _
  rw [read, if_pos hle, List.append_assoc, List.drop_left, List.take_left]

theorem read_of_eq {mem pre xs post : List α} (hmem : mem = pre ++ xs ++ post)
    (hi : i = pre.length) (hn : n = xs.length) : read mem i n = some xs := by
  rw [hmem, hi, hn]
  exact read_append pre xs post

theorem write_append (pre : List α) {old xs : List α} (post : List α)
    (hlen : old.length = xs.length) :
    write (pre ++ old ++ post) pre.length xs = some (pre ++ xs ++ post) := by
  have hle : pre.length + xs.length ≤ (pre ++ old ++ post).length := by
    rw [List.length_append, List.length_append, hlen]
    exact Nat.le_add_right _ _
  rw [write, if_pos hle, ← hlen, ← List.length_append, List.drop_left, List.append_assoc pre old,
    List.take_left]

theorem write_of_eq {mem pre old xs post : List α} (hmem : mem = pre ++ old ++ post)
    (hi : i = pre.length) (hlen : old.length = xs.length) :
    write mem i xs = some (pre ++ xs ++ post) := by
  rw [hmem, hi]
  exact write_append pre post hlen

/-- What a write does if there is room for it. -/
theorem write_of_le {mem xs : List α} (h : i + xs.length ≤ mem.length) :
    write mem i xs = some (mem.take i ++ xs ++ mem.drop (i + xs.length)) := if_pos h

/-- A write behind the first `pre.length` cells leaves these alone. -/
theorem write_append_right (pre mem xs : List α) (i : Nat) :
    write (pre ++ mem) (pre.length + i) xs = (write mem i xs).map (pre ++ ·) := by
  by_cases h : i + xs.length ≤ mem.length
  · have h' : pre.length + i + xs.length ≤ (pre ++ mem).length := by
      rw [List.length_append]
      omega
    rw [write_of_le h, write_of_le h', Nat.add_assoc, List.take_length_add_append,
      List.drop_length_add_append, Option.map_some, List.append_assoc, List.append_assoc,
      List.append_assoc]
  · have h' : ¬ pre.length + i + xs.length ≤ (pre ++ mem).length := by
      rw [List.length_append]
      omega
    rw [write, write, if_neg h, if_neg h', Option.map_none]

/-! ## Numbers -/

/-- The `n` bytes of a number, the lowest one first -/
def leBytes : Nat → Nat → List UInt8
  | 0, _ => []
  | n + 1, v => UInt8.ofNat v :: leBytes n (v / 256)

/-- The number that the bytes stand for -/
def ofLe : List UInt8 → Nat
  | [] => 0
  | b :: bs => b.toNat + 256 * ofLe bs

@[simp] theorem length_leBytes (n v : Nat) : (leBytes n v).length = n := by
  induction n generalizing v with
  | zero => rfl
  | succ n ih => rw [leBytes, List.length_cons, ih]

theorem ofLe_leBytes (n v : Nat) : ofLe (leBytes n v) = v % 256 ^ n := by
  induction n generalizing v with
  | zero => rw [leBytes, ofLe, pow_zero, Nat.mod_one]
  | succ n ih =>
    rw [leBytes, ofLe, ih, Nat.pow_succ', Nat.mod_mul, UInt8.toNat_ofNat']

/-- A number that fits into the bytes is read back. -/
theorem ofLe_leBytes_of_lt (h : v < 256 ^ n) : ofLe (leBytes n v) = v := by
  rw [ofLe_leBytes, Nat.mod_eq_of_lt h]

theorem leBytes_ofLe (bs : List UInt8) : leBytes bs.length (ofLe bs) = bs := by
  induction bs with
  | nil => rfl
  | cons b bs ih =>
    have hb := b.toNat_lt
    have hdiv : (b.toNat + 256 * ofLe bs) / 256 = ofLe bs := by omega
    have hmod : UInt8.ofNat (b.toNat + 256 * ofLe bs) = b := by
      refine UInt8.toNat_inj.mp ?_
      rw [UInt8.toNat_ofNat']
      omega
    rw [List.length_cons, ofLe, leBytes, hdiv, hmod, ih]

theorem ofLe_lt (bs : List UInt8) : ofLe bs < 256 ^ bs.length := by
  induction bs with
  | nil => exact Nat.one_pos
  | cons b bs ih =>
    have hb := b.toNat_lt
    rw [ofLe, List.length_cons, Nat.pow_succ']
    omega

end Block
