import Mathlib.Tactic.Common

/-! # Bytes, C strings and undefined behaviour

A C string is the list of its bytes before the terminating NUL; a region of memory is the
list of all its bytes. A computation that would read or write outside an array, or use memory
that is uninitialised or freed, has no result: it ends in a `Fault`. -/

theorem Except.bind_eq_ok {x : Except ε α} {f : α → Except ε β} :
    (x >>= f) = .ok b ↔ ∃ a, x = .ok a ∧ f a = .ok b := by
  cases x with
  | error e => exact ⟨nofun, nofun⟩
  | ok a => exact ⟨fun h => ⟨a, rfl, h⟩, fun ⟨_, rfl, h⟩ => h⟩

namespace Chirc

abbrev Byte := UInt8

/-- The bytes of a C string before its terminating NUL. -/
abbrev CStr := List Byte

def NUL : Byte := 0
def LF : Byte := 10
def CR : Byte := 13
def SP : Byte := 32
def COLON : Byte := 58

/-- A string literal of the source (all of them are ASCII). -/
def lit (s : String) : CStr := s.toList.map fun c => c.toNat.toUInt8

/-- `%d` of an `int`, which has 32 bits. -/
def fmtD (n : Int) : CStr := lit (toString (n.bmod UInt32.size))

/-- What undefined behaviour a computation runs into. -/
inductive Fault
  /-- `sprintf` or `strcat` past the end of its buffer -/
  | bufOverflow
  /-- a name of 128 bytes or more copied into a `name[128]` field -/
  | nameOverflow
  /-- an entry of `params[15]` at index 15 or above -/
  | paramsOverflow
  /-- a field that was never set, such as an entry of `params` at or after `nparams` -/
  | uninitRead
  | nullDeref
  | useAfterFree
  /-- a read, or a scan for a NUL, past the end of an array -/
  | overread
  /-- a write before the start of an array -/
  | underwrite
  deriving DecidableEq, Repr

abbrev Res := Except Fault

theorem Res.map_eq_ok {x : Res α} {f : α → β} : x.map f = .ok b ↔ ∃ a, x = .ok a ∧ f a = b := by
  cases x with
  | error e => exact ⟨nofun, nofun⟩
  | ok a => exact ⟨fun h => ⟨a, rfl, Except.ok.inj h⟩, fun ⟨_, rfl, h⟩ => congrArg Except.ok h⟩

@[simp] theorem Res.ok_bind (a : α) (f : α → Res β) : ((Except.ok a : Res α) >>= f) = f a := rfl

@[simp] theorem Res.error_bind (e : Fault) (f : α → Res β) :
    ((Except.error e : Res α) >>= f) = .error e := rfl

@[simp] theorem Res.pure_eq (a : α) : (pure a : Res α) = .ok a := rfl

/-! ## Memory regions -/

/-- Read `mem[i]`. -/
def rd (mem : List Byte) (i : Nat) : Res Byte :=
  match mem[i]? with
  | some b => .ok b
  | none => .error .overread

/-- The index of the first byte at or after `i` that satisfies `p`; the scan reads every byte
up to it. -/
def scan (p : Byte → Bool) (mem : List Byte) (i : Nat) : Res Nat :=
  match (mem.drop i).findIdx? p with
  | some k => .ok (i + k)
  | none => .error .overread

/-- The C string at `mem + i`. -/
def cstrAt (mem : List Byte) (i : Nat) : CStr := (mem.drop i).takeWhile (· != NUL)

theorem rd_append_cons (xs : List Byte) (b : Byte) (ys : List Byte) :
    rd (xs ++ b :: ys) xs.length = .ok b := by
  simp [rd]

theorem scan_append {p : Byte → Bool} (xs : List Byte) {ys : List Byte} (zs : List Byte) {b : Byte}
    (hys : ∀ y ∈ ys, p y = false) (hb : p b = true) :
    scan p (xs ++ ys ++ b :: zs) xs.length = .ok (xs.length + ys.length) := by
  have : (ys ++ b :: zs).findIdx? p = some ys.length := by
    rw [List.findIdx?_append, List.findIdx?_eq_none_iff.mpr (by simpa using hys)]
    simp [List.findIdx?_cons, hb]
  simp [scan, this]

theorem cstrAt_append (xs : List Byte) {s : CStr} (ys : List Byte) (hs : NUL ∉ s) :
    cstrAt (xs ++ s ++ NUL :: ys) xs.length = s := by
  have h : ∀ b ∈ s, (b != NUL) = true := fun b hb => by
    simpa using fun h : b = NUL => hs (h ▸ hb)
  rw [cstrAt, List.append_assoc, List.drop_left, List.takeWhile_append_of_pos h]
  simp

end Chirc
