import Chirc.Verify.SdsOps

/-! # Runs on a string

Whatever is done to a string, its block stays a string: the header says how many bytes there are and
how much room, a NUL is behind the bytes, and no function leaves the block. The bytes are what the
same operations make of a list. An operation for which there is no memory changes nothing. -/

namespace Chirc.Sds

inductive Op
  | dup
  | cat (t : List Byte)
  | cpy (t : List Byte)
  | growzero (len : Nat)
  | makeRoom (addlen : Nat)
  | removeFreeSpace
  | trim (cset : CStr)
  | range (start stop : Int)
  | clear
  | updatelen

def Op.run (malloc : Malloc) (x : Sds) : Op → Except Stop (Given Sds)
  | .dup => sdsdup malloc x
  | .cat t => sdscatlen malloc x t 0 t.length
  | .cpy t => sdscpylen malloc x t t.length
  | .growzero len => sdsgrowzero malloc x len
  | .makeRoom addlen => sdsMakeRoomFor malloc x addlen
  | .removeFreeSpace => sdsRemoveFreeSpace malloc x
  | .trim cset => Given.ptr <$> sdstrim x cset
  | .range start stop => Given.ptr <$> sdsrange x start stop
  | .clear => Given.ptr <$> sdsclear x
  | .updatelen => Given.ptr <$> sdsupdatelen x

/-- The operations one after the other, each with what `malloc` does meanwhile: the string, and for
each operation that gave NULL how much memory was refused to it -/
def runOps (x : Sds) : List (Malloc × Op) → Except Stop (Sds × List (Option Nat))
  | [] => .ok (x, [])
  | (malloc, op) :: ops => do
    match ← op.run malloc x with
    | .null size =>
      let r ← runOps x ops
      return (r.1, some size :: r.2)
    | .ptr y =>
      let r ← runOps y ops
      return (r.1, none :: r.2)

/-- The operations on a new string with the bytes `t` -/
def newThenRun (malloc : Malloc) (t : List Byte) (ops : List (Malloc × Op)) :
    Except Stop (Given (Sds × List (Option Nat))) := do
  match ← sdsnewlen malloc (.ptr t 0) t.length with
  | .null size => return .null size
  | .ptr x => return .ptr (← runOps x ops)

/-- What an operation does to the bytes -/
def Op.apply (content : List Byte) : Op → List Byte
  | .dup => content
  | .cat t => content ++ t
  | .cpy t => t
  | .growzero len => content ++ List.replicate (len - content.length) NUL
  | .makeRoom _ => content
  | .removeFreeSpace => content
  | .trim cset => (content.dropWhile (strchr cset)).rdropWhile (strchr cset)
  | .range start stop =>
    (content.take ((fromEnd content.length stop).toNat + 1)).drop
      (fromEnd content.length start).toNat
  | .clear => []
  | .updatelen => content.takeWhile (· != NUL)

/-- What the operations do to the bytes, without those to which memory was refused -/
def contentAfter (content : List Byte) : List (Malloc × Op) → List (Option Nat) → List Byte
  | (_, op) :: ops, none :: refused => contentAfter (op.apply content) ops refused
  | _ :: ops, some _ :: refused => contentAfter content ops refused
  | _, _ => content

/-- What is recorded for an operation: nothing, or a request that `malloc` refuses. -/
def Accounted (e : Malloc × Op) (refused : Option Nat) : Prop :=
  ∀ size, refused = some size → e.1.run size = none

/-- By how many bytes an operation makes a string longer at most, or makes room for them -/
def Op.size : Op → Nat
  | .cat t => t.length
  | .cpy t => t.length
  | .growzero len => len
  | .makeRoom addlen => addlen
  | .dup | .removeFreeSpace | .trim _ | .range _ _ | .clear | .updatelen => 0

def total : List (Malloc × Op) → Nat
  | [] => 0
  | (_, op) :: ops => op.size + total ops

/-- The second index of `sdsrange` is not `SSIZE_MAX`. -/
def Op.InRange : Op → Prop
  | .range _ stop => stop < 9223372036854775807
  | _ => True

/-! ## Steps -/

theorem load_init (t : List Byte) : load t 0 t.length = .ok t := by
  refine load_of_eq [] [] ?_ rfl rfl
  rw [List.nil_append, List.append_nil]

theorem Layout.load_content (L : Layout) :
    load L.sds.sh L.sds.s L.content.length = .ok L.content := by
  refine load_of_eq (L.type.hdr L.content.length L.alloc) (NUL :: L.free) ?_ ?_ rfl
  · rw [List.append_assoc]
    rfl
  · exact (L.type.length_hdr _ _).symm

theorem sdsnewlen_ptr (malloc : Malloc) {mem xs : List Byte} (hload : load mem i xs.length = .ok xs)
    (hsize : xs.length + 18 < 18446744073709551616) :
    Outcome malloc (sdsnewlen malloc (.ptr mem i) xs.length) fun M => M.content = xs := by
  have hgives : (Source.ptr mem i).Gives xs.length xs := ⟨rfl, .inr hload⟩
  refine (sdsnewlen_outcome malloc ⟨_, hgives⟩ hsize).mono fun M hM => ?_
  obtain ⟨hlen, h0 | hload'⟩ := hM
  · rw [List.length_eq_zero_iff.mp (hlen.trans h0), List.length_eq_zero_iff.mp h0]
  · exact Except.ok.inj (hload'.symm.trans hload)

theorem Outcome.of_inPlace {malloc : Malloc} {res : Except Stop Sds} {P : Layout → Prop}
    (h : ∃ M : Layout, res = .ok M.sds ∧ P M) : Outcome malloc (Given.ptr <$> res) P := by
  obtain ⟨M, rfl, hP⟩ := h
  exact .inr ⟨M, rfl, hP⟩

/-- An operation on a string does to its bytes what it does to a list. -/
theorem Op.run_sds (op : Op) (malloc : Malloc) (L : Layout) (hrange : op.InRange)
    (hsize : L.content.length + op.size < 9223372036854775807) :
    Outcome malloc (op.run malloc L.sds) fun M => M.content = op.apply L.content := by
  cases op with
  | dup =>
    rw [Op.run, sdsdup, L.sdslen_sds, Stop.ok_bind]
    exact sdsnewlen_ptr malloc L.load_content (by omega)
  | cat t => exact L.sdscatlen_sds malloc (load_init t) (by rw [Op.size] at hsize; omega)
  | cpy t => exact L.sdscpylen_sds malloc (load_init t) (by rw [Op.size] at hsize; omega)
  | growzero len => exact L.sdsgrowzero_sds malloc (by rw [Op.size] at hsize; omega)
  | makeRoom addlen =>
    refine (L.sdsMakeRoomFor_sds malloc ?_).mono fun M hM => hM.1
    rw [Op.size] at hsize
    omega
  | removeFreeSpace => exact L.sdsRemoveFreeSpace_sds malloc (by rw [Op.size] at hsize; omega)
  | trim cset => exact .of_inPlace (L.sdstrim_sds cset)
  | range start stop => exact .of_inPlace (L.sdsrange_sds hsize hrange)
  | clear => exact .of_inPlace L.sdsclear_sds
  | updatelen => exact .of_inPlace L.sdsupdatelen_sds

theorem Op.length_apply_le (op : Op) (content : List Byte) :
    (op.apply content).length ≤ content.length + op.size := by
  cases op with
  | dup => exact Nat.le_refl _
  | cat t => rw [Op.apply, Op.size, List.length_append]
  | cpy t => exact Nat.le_add_left _ _
  | growzero len =>
    rw [Op.apply, Op.size, List.length_append, List.length_replicate]
    omega
  | makeRoom addlen => exact Nat.le_add_right _ _
  | removeFreeSpace => exact Nat.le_refl _
  | trim cset =>
    exact Nat.le_trans (List.rdropWhile_prefix _ _).length_le (List.dropWhile_suffix _).length_le
  | range start stop =>
    rw [Op.apply, Op.size, List.length_drop, List.length_take]
    omega
  | clear => exact Nat.zero_le _
  | updatelen => exact (List.takeWhile_prefix _).length_le

/-! ## Runs -/

theorem runOps_sds (L : Layout) {ops : List (Malloc × Op)} (hrange : ∀ e ∈ ops, e.2.InRange)
    (hsize : L.content.length + total ops < 9223372036854775807) :
    ∃ (M : Layout) (refused : List (Option Nat)), runOps L.sds ops = .ok (M.sds, refused) ∧
      List.Forall₂ Accounted ops refused ∧ M.content = contentAfter L.content ops refused := by
  induction ops generalizing L with
  | nil => exact ⟨L, [], rfl, .nil, rfl⟩
  | cons e ops ih =>
    obtain ⟨malloc, op⟩ := e
    rw [total] at hsize
    have hrest : ∀ e ∈ ops, e.2.InRange := fun e he => hrange e (List.mem_cons_of_mem _ he)
    cases op.run_sds malloc L (hrange _ List.mem_cons_self) (by omega) with
    | inl h =>
      obtain ⟨size, hnull, hfail⟩ := h
      obtain ⟨M, refused, hrun, hall, hcontent⟩ := ih L hrest (by omega)
      refine ⟨M, some size :: refused, ?_, .cons ?_ hall, hcontent⟩
      · rw [runOps, hnull, Stop.ok_bind]
        change (do
          let r ← runOps L.sds ops
          return (r.1, some size :: r.2)) = _
        rw [hrun]
        rfl
      · intro _ heq
        cases heq
        exact hfail
    | inr h =>
      obtain ⟨M, hstep, happly⟩ := h
      have hle := op.length_apply_le L.content
      obtain ⟨N, refused, hrun, hall, hcontent⟩ := ih M hrest (by rw [happly]; omega)
      refine ⟨N, none :: refused, ?_, .cons nofun hall, ?_⟩
      · rw [runOps, hstep, Stop.ok_bind]
        change (do
          let r ← runOps M.sds ops
          return (r.1, none :: r.2)) = _
        rw [hrun]
        rfl
      · rw [hcontent, happly]
        rfl

/-- The capacity in the header is at least the length, and the block has room for it and a NUL. -/
theorem Layout.capacity (L : Layout) : ∃ cap, sdsalloc L.sds = .ok cap ∧ L.content.length ≤ cap ∧
    L.sds.s + cap + 1 ≤ L.sds.sh.length := by
  have hsh : L.sds.sh.length = L.sds.s + (L.alloc + 1) := by
    rw [sds, SdsType.block, List.length_append, L.type.length_hdr, L.length_region]
  have hle : L.content.length ≤ L.alloc := Nat.le_add_right _ _
  refine ⟨_, L.sdsalloc_sds, ?_, ?_⟩
  · split
    · exact Nat.le_refl _
    · exact hle
  · rw [hsh]
    split <;> omega

/-- **A run on a new string** gives NULL only if memory was refused for the string, and an operation
does only if memory was refused for it. No operation reads or writes outside of a block. In the end
`sdslen` is the length of the bytes that the other operations make of the first ones, these bytes
and a NUL are at `s`, and the block has the capacity that `sdsalloc` says. -/
theorem newThenRun_content {t : List Byte} {ops : List (Malloc × Op)}
    (hrange : ∀ e ∈ ops, e.2.InRange) (hsize : t.length + total ops < 9223372036854775807)
    (malloc : Malloc) :
    (∃ size, newThenRun malloc t ops = .ok (.null size) ∧ malloc.run size = none) ∨
      ∃ y refused, newThenRun malloc t ops = .ok (.ptr (y, refused)) ∧
        List.Forall₂ Accounted ops refused ∧
        sdslen y = .ok (contentAfter t ops refused).length ∧
        load y.sh y.s ((contentAfter t ops refused).length + 1) =
          .ok (contentAfter t ops refused ++ [NUL]) ∧
        ∃ cap, sdsalloc y = .ok cap ∧ (contentAfter t ops refused).length ≤ cap ∧
          y.s + cap + 1 ≤ y.sh.length := by
  cases sdsnewlen_ptr malloc (load_init t) (by omega) with
  | inl h =>
    obtain ⟨size, hnull, hfail⟩ := h
    refine .inl ⟨size, ?_, hfail⟩
    rw [newThenRun, hnull]
    rfl
  | inr h =>
    obtain ⟨L, hnew, rfl⟩ := h
    obtain ⟨M, refused, hrun, hall, hcontent⟩ := runOps_sds L hrange hsize
    refine .inr ⟨M.sds, refused, ?_, hall, ?_⟩
    · rw [newThenRun, hnew, Stop.ok_bind]
      change (do return Given.ptr (← runOps L.sds ops)) = _
      rw [hrun]
      rfl
    · rw [← hcontent]
      refine ⟨M.sdslen_sds, ?_, M.capacity⟩
      refine load_of_eq (M.type.hdr M.content.length M.alloc) M.free ?_ ?_ ?_
      · rw [List.append_assoc, List.append_assoc]
        rfl
      · exact (M.type.length_hdr _ _).symm
      · rw [List.length_append]
        rfl

/-- Memory that `malloc` has not cleared -/
def freshMemory : Malloc := ⟨fun size => some (List.replicate size 255), fun h => by
  cases h
  exact List.length_replicate⟩

theorem freshMemory_run (size : Nat) : freshMemory.run size ≠ none := nofun

def trimAndExtend : List (Malloc × Op) :=
  [(freshMemory, .trim [SP]), (freshMemory, .cat (lit " world")), (freshMemory, .range 1 (-2))]

theorem eq_replicate_none {ops : List (Malloc × Op)} {refused : List (Option Nat)}
    (hall : List.Forall₂ Accounted ops refused) (hmemory : ∀ e ∈ ops, ∀ size, e.1.run size ≠ none) :
    refused = List.replicate ops.length none := by
  induction hall with
  | nil => rfl
  | @cons e r ops refused he hall ih =>
    rw [ih fun e h => hmemory e (List.mem_cons_of_mem _ h)]
    cases r with
    | none => rfl
    | some size => exact absurd (he size rfl) (hmemory e List.mem_cons_self size)

theorem newThenRun_trimAndExtend : ∃ y,
    newThenRun freshMemory (lit " hello ") trimAndExtend = .ok (.ptr (y, [none, none, none])) ∧
    sdslen y = .ok 9 ∧ load y.sh y.s 10 = .ok (lit "ello worl" ++ [NUL]) := by
  have hrange : ∀ e ∈ trimAndExtend, e.2.InRange := by
    simp [trimAndExtend, Op.InRange]
  have hmemory : ∀ e ∈ trimAndExtend, ∀ size, e.1.run size ≠ none := by
    simp [trimAndExtend, freshMemory_run]
  have hsize : (lit " hello ").length + total trimAndExtend < 9223372036854775807 := by decide
  cases newThenRun_content hrange hsize freshMemory with
  | inl h =>
    obtain ⟨size, -, hfail⟩ := h
    exact absurd hfail (freshMemory_run size)
  | inr h =>
    obtain ⟨y, refused, hrun, hall, hlen, hload, -⟩ := h
    rw [eq_replicate_none hall hmemory] at hrun hlen hload
    exact ⟨y, hrun, hlen, hload⟩

end Chirc.Sds
