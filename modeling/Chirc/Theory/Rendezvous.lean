import Mathlib.Data.List.Nodup

/-! # Meeting by name

Names are posted on the two sides of a board. Whoever posts a name that the other side already
shows is bound to it. A name can be posted once on each side, so that it is bound at most once;
nothing is ever taken off the board. -/

namespace Rendezvous

variable {ν κ : Type*}

/-- The names on the two sides, oldest first, and the names bound, each to a key, newest first. -/
structure Board (ν κ : Type*) where
  left : List ν
  right : List ν
  bound : List (ν × κ)
  left_nodup : left.Nodup
  right_nodup : right.Nodup
  bound_nodup : (bound.map Prod.fst).Nodup
  bound_left : ∀ {n k}, (n, k) ∈ bound → n ∈ left
  bound_right : ∀ {n k}, (n, k) ∈ bound → n ∈ right

/-- A post on the right may be made without looking at the other side. -/
inductive Post (ν : Type*)
  | left (n : ν)
  | right (n : ν) (look : Bool)
  | idle

namespace Board

def empty : Board ν κ := ⟨[], [], [], .nil, .nil, .nil, nofun, nofun⟩

variable [DecidableEq ν]

/-- One side after a name is posted there. -/
def pin (side : List ν) (n : ν) : List ν := if n ∈ side then side else side ++ [n]

theorem pin_of_mem {side : List ν} (h : n ∈ side) : pin side n = side := if_pos h

theorem pin_of_not_mem {side : List ν} (h : n ∉ side) : pin side n = side ++ [n] := if_neg h

theorem mem_pin {side : List ν} : m ∈ pin side n ↔ m ∈ side ∨ m = n := by
  rw [pin]
  split
  · next h => exact ⟨.inl, fun hm => hm.elim id fun hmn => hmn ▸ h⟩
  · simp

theorem nodup_pin {side : List ν} (h : side.Nodup) : (pin side n).Nodup := by
  rw [pin]
  split
  · exact h
  · next hn => exact List.nodup_append.mpr ⟨h, by simp, by rintro a ha b hb rfl; simp_all⟩

/-- The name that a post binds. -/
def meets (b : Board ν κ) : Post ν → Option ν
  | .left n => if n ∉ b.left ∧ n ∈ b.right then some n else none
  | .right n look => if n ∉ b.right ∧ n ∈ b.left ∧ look = true then some n else none
  | .idle => none

def leftAfter (b : Board ν κ) : Post ν → List ν
  | .left n => pin b.left n
  | _ => b.left

def rightAfter (b : Board ν κ) : Post ν → List ν
  | .right n _ => pin b.right n
  | _ => b.right

variable {b : Board ν κ} {p : Post ν}

/-- The name that a post adds to the left side. -/
def pinsLeft (b : Board ν κ) : Post ν → Option ν
  | .left n => if n ∈ b.left then none else some n
  | _ => none

/-- The name that a post adds to the right side. -/
def pinsRight (b : Board ν κ) : Post ν → Option ν
  | .right n _ => if n ∈ b.right then none else some n
  | _ => none

theorem pinsLeft_eq_some : b.pinsLeft p = some n ↔ p = .left n ∧ n ∉ b.left := by
  cases p with
  | left m =>
    by_cases hm : m ∈ b.left
    · simp only [pinsLeft, hm, if_true, Post.left.injEq]
      exact ⟨nofun, fun ⟨heq, hn⟩ => absurd (heq ▸ hm) hn⟩
    · simp only [pinsLeft, hm, if_false, Post.left.injEq, Option.some.injEq]
      exact ⟨fun heq => ⟨heq, heq ▸ hm⟩, fun h => h.1⟩
  | right m look => simp [pinsLeft]
  | idle => simp [pinsLeft]

theorem pinsRight_eq_some :
    b.pinsRight p = some n ↔ (∃ look, p = .right n look) ∧ n ∉ b.right := by
  cases p with
  | left m => simp [pinsRight]
  | right m look =>
    by_cases hm : m ∈ b.right
    · simp only [pinsRight, hm, if_true, Post.right.injEq]
      exact ⟨nofun, fun ⟨⟨_, heq, _⟩, hn⟩ => absurd (heq ▸ hm) hn⟩
    · simp only [pinsRight, hm, if_false, Post.right.injEq, Option.some.injEq]
      exact ⟨fun heq => ⟨⟨look, heq, rfl⟩, heq ▸ hm⟩, fun ⟨⟨_, heq, _⟩, _⟩ => heq⟩
  | idle => simp [pinsRight]

theorem leftAfter_eq : b.leftAfter p = b.left ++ (b.pinsLeft p).toList := by
  cases p with
  | left n => by_cases h : n ∈ b.left <;> simp [leftAfter, pinsLeft, pin, h]
  | right n look => simp [leftAfter, pinsLeft]
  | idle => simp [leftAfter, pinsLeft]

theorem rightAfter_eq : b.rightAfter p = b.right ++ (b.pinsRight p).toList := by
  cases p with
  | left n => simp [rightAfter, pinsRight]
  | right n look => by_cases h : n ∈ b.right <;> simp [rightAfter, pinsRight, pin, h]
  | idle => simp [rightAfter, pinsRight]

/-- A post that binds a name adds it to one side, and finds it on the other. -/
theorem pins_of_meets (h : b.meets p = some n) :
    (b.pinsLeft p = some n ∧ n ∈ b.right) ∨ (b.pinsRight p = some n ∧ n ∈ b.left) := by
  cases p with
  | left m =>
    rw [meets] at h
    split at h
    · next hm =>
      cases h
      exact .inl ⟨if_neg hm.1, hm.2⟩
    · cases h
  | right m look =>
    rw [meets] at h
    split at h
    · next hm =>
      cases h
      exact .inr ⟨if_neg hm.1, hm.2.1⟩
    · cases h
  | idle => cases h

/-- A name is bound by a post that finds it on one side only. -/
theorem meets_eq_some (h : b.meets p = some n) :
    (n ∉ b.left ∨ n ∉ b.right) ∧ n ∈ b.leftAfter p ∧ n ∈ b.rightAfter p := by
  cases p with
  | left m =>
    rw [meets] at h
    split at h
    · next hm =>
      cases h
      exact ⟨.inl hm.1, mem_pin.mpr (.inr rfl), hm.2⟩
    · cases h
  | right m look =>
    rw [meets] at h
    split at h
    · next hm =>
      cases h
      exact ⟨.inr hm.1, hm.2.1, mem_pin.mpr (.inr rfl)⟩
    · cases h
  | idle => cases h

theorem not_mem_bound_of_meets (h : b.meets p = some n) : n ∉ b.bound.map Prod.fst := by
  intro hn
  obtain ⟨⟨n', k⟩, hm, rfl⟩ := List.mem_map.mp hn
  exact (meets_eq_some h).1.elim (· (b.bound_left hm)) (· (b.bound_right hm))

theorem subset_leftAfter (h : n ∈ b.left) : n ∈ b.leftAfter p := by
  cases p with
  | left m => exact mem_pin.mpr (.inl h)
  | right m look => exact h
  | idle => exact h

theorem subset_rightAfter (h : n ∈ b.right) : n ∈ b.rightAfter p := by
  cases p with
  | left m => exact h
  | right m look => exact mem_pin.mpr (.inl h)
  | idle => exact h

/-- The bindings after a post by `k`. -/
def boundAfter (b : Board ν κ) (k : κ) (p : Post ν) : List (ν × κ) :=
  ((b.meets p).map (·, k)).toList ++ b.bound

theorem boundAfter_of_none (h : b.meets p = none) : b.boundAfter k p = b.bound := by
  rw [boundAfter, h]
  rfl

theorem boundAfter_of_some (h : b.meets p = some n) : b.boundAfter k p = (n, k) :: b.bound := by
  rw [boundAfter, h]
  rfl

theorem mem_boundAfter {q : ν × κ} :
    q ∈ b.boundAfter k p ↔ (b.meets p = some q.1 ∧ q.2 = k) ∨ q ∈ b.bound := by
  obtain ⟨n, k'⟩ := q
  cases h : b.meets p with
  | none => simp [boundAfter_of_none h]
  | some m => simp [boundAfter_of_some h, eq_comm]

/-- The board after a post by `k`. -/
def post (b : Board ν κ) (k : κ) (p : Post ν) : Board ν κ where
  left := b.leftAfter p
  right := b.rightAfter p
  bound := b.boundAfter k p
  left_nodup := by
    cases p with
    | left n => exact nodup_pin b.left_nodup
    | right n look => exact b.left_nodup
    | idle => exact b.left_nodup
  right_nodup := by
    cases p with
    | left n => exact b.right_nodup
    | right n look => exact nodup_pin b.right_nodup
    | idle => exact b.right_nodup
  bound_nodup := by
    cases h : b.meets p with
    | none =>
      rw [boundAfter_of_none h]
      exact b.bound_nodup
    | some n =>
      rw [boundAfter_of_some h]
      exact List.nodup_cons.mpr ⟨not_mem_bound_of_meets h, b.bound_nodup⟩
  bound_left := fun hq => (mem_boundAfter.mp hq).elim (fun h => (meets_eq_some h.1).2.1)
    fun h => subset_leftAfter (b.bound_left h)
  bound_right := fun hq => (mem_boundAfter.mp hq).elim (fun h => (meets_eq_some h.1).2.2)
    fun h => subset_rightAfter (b.bound_right h)

end Board

end Rendezvous
