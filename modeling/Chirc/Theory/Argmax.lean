import Mathlib.Data.List.MinMax

/-! # The first maximum of a list

A loop that keeps the best element so far and its value, -1 at the start, and takes an element only
if its value is greater, ends with the first of the best ones, which is `List.argmax`. -/

universe u v

variable {α : Type u} {κ : Type v}

namespace List

section LinearOrder

variable {β : Type*} [LinearOrder β] {f g : α → β} {l l₁ l₂ : List α}

theorem argmax_congr (h : ∀ a ∈ l, f a = g a) : l.argmax f = l.argmax g := by
  induction l using List.reverseRecOn with
  | nil => rfl
  | append_singleton l a ih =>
    have ha : f a = g a := h a (by simp)
    rw [argmax_concat, argmax_concat, ih fun b hb => h b (mem_append_left _ hb)]
    cases hm : l.argmax g with
    | none => rfl
    | some m =>
      have hm' : f m = g m := h m (mem_append_left _ (argmax_mem hm))
      simp only [ha, hm']

theorem argmax_map {γ : Type*} (k : γ → α) (l : List γ) :
    (l.map k).argmax f = (l.argmax (f ∘ k)).map k := by
  induction l using List.reverseRecOn with
  | nil => rfl
  | append_singleton l c ih =>
    rw [map_append, map_singleton, argmax_concat, argmax_concat, ih]
    cases l.argmax (f ∘ k) with
    | none => rfl
    | some m =>
      simp only [Option.map_some, Function.comp_apply]
      split <;> rfl

/-- Nothing before `m` is as good, and nothing behind it is better. -/
theorem argmax_append_cons (h₁ : ∀ a ∈ l₁, f a < f m) (h₂ : ∀ a ∈ l₂, f a ≤ f m) :
    (l₁ ++ m :: l₂).argmax f = some m := by
  induction l₂ using List.reverseRecOn with
  | nil =>
    rw [argmax_concat]
    cases hc : l₁.argmax f with
    | none => rfl
    | some c => exact if_pos (h₁ c (argmax_mem hc))
  | append_singleton l₂ a ih =>
    rw [← cons_append, ← append_assoc, argmax_concat, ih fun b hb => h₂ b (mem_append_left _ hb)]
    exact if_neg (not_lt.mpr (h₂ a (by simp)))

end LinearOrder

/-! ## The loop -/

variable (p : α → Bool) (k : α → κ) (f : α → Nat)

/-- The variables of the loop when the best element is `b` -/
def running : Option α → Option κ × Int
  | none => (none, -1)
  | some a => (some (k a), f a)

theorem running_fst (b : Option α) : (running k f b).1 = b.map k := by
  cases b with
  | none => rfl
  | some a => rfl

/-- A round of the loop, which looks at the elements that satisfy `p` -/
def runningStep (s : Option κ × Int) (a : α) : Option κ × Int :=
  if p a ∧ s.2 < f a then (some (k a), f a) else s

theorem runningStep_running (b : Option α) (a : α) : runningStep p k f (running k f b) a =
    running k f (if p a then argAux (fun b c => f c < f b) b a else b) := by
  cases hp : p a with
  | false => simp [runningStep, hp]
  | true =>
    cases b with
    | none =>
      have hlt : (-1 : Int) < f a := by omega
      simp [runningStep, running, argAux, hp, hlt]
    | some b =>
      simp only [runningStep, running, argAux, hp, true_and, if_true, Int.ofNat_lt]
      split <;> rfl

theorem foldl_runningStep (l : List α) :
    l.foldl (runningStep p k f) (none, -1) = running k f ((l.filter p).argmax f) := by
  have hstart : ∀ b, l.foldl (runningStep p k f) (running k f b) =
      running k f ((l.filter p).foldl (argAux fun b c => f c < f b) b) := by
    induction l with
    | nil => exact fun _ => rfl
    | cons a l ih =>
      intro b
      rw [foldl_cons, runningStep_running, ih, filter_cons]
      split <;> rfl
  exact hstart none

end List
