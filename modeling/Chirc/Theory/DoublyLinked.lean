import Mathlib.Logic.Function.Basic
import Mathlib.Tactic.Common

/-! # Doubly linked lists

The nodes of a list have two nullable links, given as functions of their addresses. `Chain next prev
b p l` says that from `p` on the nodes of `l` are linked in this order in both directions; the back
link of the first of them is `b`, and the last of them links to NULL. A whole list has no `b`.

* `Chain.nodup`: a list comes to no address twice.
* `Chain.push`, `Chain.append`, `Chain.unlink`: the usual stores that put a node at the front or at
  the end of a list and that take it out. -/

namespace DoublyLinked

variable {α : Type*}

inductive Chain (next prev : α → Option α) : Option α → Option α → List α → Prop
  | nil : Chain next prev b none []
  | cons : prev a = b → Chain next prev (some a) (next a) l → Chain next prev b (some a) (a :: l)

namespace Chain

variable {next prev next' prev' : α → Option α}

/-- The links of other nodes make no difference. -/
theorem congr (H : Chain next prev b p l) (hnext : ∀ a ∈ l, next' a = next a)
    (hprev : ∀ a ∈ l, prev' a = prev a) : Chain next' prev' b p l := by
  induction H with
  | nil => exact .nil
  | cons hb _ ih =>
    refine .cons ((hprev _ List.mem_cons_self).trans hb) ?_
    rw [hnext _ List.mem_cons_self]
    apply ih
    · intro a ha
      exact hnext a (List.mem_cons_of_mem _ ha)
    · intro a ha
      exact hprev a (List.mem_cons_of_mem _ ha)

theorem head_eq (H : Chain next prev b p l) : p = l.head? := by
  cases H with
  | nil => rfl
  | cons => rfl

/-- From a pointer there is one list only. -/
theorem unique (H : Chain next prev b p l) (H' : Chain next prev b' p l') : l = l' := by
  induction H generalizing b' l' with
  | nil =>
    cases H' with
    | nil => rfl
  | cons _ _ ih =>
    cases H' with
    | cons _ rest => rw [ih rest]

/-- What follows a node of the list is the list from there on. -/
theorem tail_of_append (H : Chain next prev b p (l ++ a :: r)) :
    Chain next prev (some a) (next a) r := by
  induction l generalizing b p with
  | nil =>
    cases H with
    | cons _ rest => exact rest
  | cons _ l ih =>
    cases H with
    | cons _ rest => exact ih rest

theorem nodup (H : Chain next prev b p l) : l.Nodup := by
  induction l generalizing b p with
  | nil => exact List.nodup_nil
  | cons a l ih =>
    cases H with
    | cons _ rest =>
      refine List.nodup_cons.mpr ⟨?_, ih rest⟩
      intro hmem
      -- the list from the second place where the node stands would be the same list
      obtain ⟨l₁, l₂, rfl⟩ := List.append_of_mem hmem
      have hlen := congrArg List.length (rest.unique rest.tail_of_append)
      simp at hlen
      omega

/-- The back link of a node -/
theorem prev_eq (H : Chain next prev b p (l ++ a :: r)) : prev a = l.getLast?.or b := by
  induction l generalizing b p with
  | nil =>
    cases H with
    | cons hb => exact hb
  | cons d l ih =>
    cases H with
    | cons _ rest =>
      rw [ih rest, List.getLast?_cons]
      cases l.getLast? <;> rfl

theorem cons_iff : Chain next prev b p (a :: l) ↔
    p = some a ∧ prev a = b ∧ Chain next prev (some a) (next a) l := by
  constructor
  · intro H
    cases H with
    | cons hb rest => exact ⟨rfl, hb, rest⟩
  · intro ⟨hp, hb, rest⟩
    subst hp
    exact .cons hb rest

/-! ## Stores to links -/

variable [DecidableEq α]

/-- A store to a link through a pointer, if it is not NULL -/
def setAt (f : α → Option α) : Option α → Option α → α → Option α
  | none, _ => f
  | some a, v => Function.update f a v

theorem setAt_of_ne {f : α → Option α} (h : p ≠ some a) (v : Option α) : setAt f p v a = f a := by
  cases p with
  | none => rfl
  | some c =>
    apply Function.update_of_ne
    intro hac
    exact h (congrArg some hac.symm)

@[simp] theorem setAt_self (f : α → Option α) (v : Option α) : setAt f (some a) v a = v :=
  Function.update_self _ _ _

/-- A new node before the first one -/
theorem push (H : Chain next prev none p l) (ha : a ∉ l) :
    Chain (Function.update next a p) (setAt (Function.update prev a none) p (some a)) none (some a)
      (a :: l) := by
  have hpa : p ≠ some a := by
    rw [H.head_eq]
    intro h
    exact ha (List.mem_of_mem_head? h)
  refine .cons ?_ ?_
  · rw [setAt_of_ne hpa, Function.update_self]
  · rw [Function.update_self]
    have hnodup := H.nodup
    cases l with
    | nil =>
      rw [H.head_eq]
      exact .nil
    | cons c l =>
      obtain ⟨rfl, -, rest⟩ := cons_iff.mp H
      have hca : c ≠ a := fun h => hpa (congrArg some h)
      refine .cons (setAt_self _ _) ?_
      rw [Function.update_of_ne hca]
      apply rest.congr
      · intro x hx
        apply Function.update_of_ne
        rintro rfl
        exact ha (List.mem_cons_of_mem _ hx)
      · intro x hx
        rw [setAt_of_ne, Function.update_of_ne]
        · rintro rfl
          exact ha (List.mem_cons_of_mem _ hx)
        · intro h
          exact (List.nodup_cons.mp hnodup).1 (Option.some.inj h ▸ hx)

/-- A new node after the last one, which is `t` -/
theorem append (H : Chain next prev b p (l ++ [t])) (ha : a ∉ l ++ [t]) :
    Chain (Function.update (Function.update next a none) t (some a))
      (Function.update prev a (some t)) b p (l ++ [t, a]) := by
  have hnodup := H.nodup
  induction l generalizing b p with
  | nil =>
    have hta : t ≠ a := fun h => ha (h ▸ List.mem_singleton_self a)
    cases H with
    | cons hb =>
      refine .cons ?_ ?_
      · rw [Function.update_of_ne hta, hb]
      · rw [Function.update_self]
        refine .cons (Function.update_self _ _ _) ?_
        rw [Function.update_of_ne (Ne.symm hta), Function.update_self]
        exact .nil
  | cons d l ih =>
    obtain ⟨hd, hnodup⟩ := List.nodup_cons.mp hnodup
    have hda : d ≠ a := fun h => ha (h ▸ List.mem_cons_self)
    have hdt : d ≠ t := fun h => hd (h ▸ List.mem_append_right _ (List.mem_singleton_self _))
    cases H with
    | cons hb rest =>
      refine .cons ?_ ?_
      · rw [Function.update_of_ne hda, hb]
      · rw [Function.update_of_ne hdt, Function.update_of_ne hda]
        exact ih rest (fun h => ha (List.mem_cons_of_mem _ h)) hnodup

/-- A node is taken out by linking its neighbours to each other; its own links stay. -/
theorem unlink (H : Chain next prev b p (l ++ a :: r)) (hb : ∀ c, b = some c → c ∉ l ++ a :: r) :
    Chain (setAt next (prev a) (next a)) (setAt prev (next a) (prev a)) b
      (if p = some a then next a else p) (l ++ r) := by
  have hnodup := H.nodup
  have hback := H.prev_eq
  have hrest := H.tail_of_append
  induction l generalizing b p with
  | nil =>
    obtain ⟨rfl, -, -⟩ := cons_iff.mp H
    obtain ⟨har, hnodup⟩ := List.nodup_cons.mp hnodup
    rw [if_pos rfl]
    have hback : prev a = b := hback
    rw [hback]
    cases r with
    | nil =>
      rw [hrest.head_eq]
      exact .nil
    | cons d r =>
      obtain ⟨hd, -, rest⟩ := cons_iff.mp hrest
      rw [hd]
      have hbd : ∀ x ∈ d :: r, b ≠ some x := by
        intro x hx hbx
        exact hb x hbx (List.mem_cons_of_mem _ hx)
      refine .cons (setAt_self _ _) ?_
      rw [setAt_of_ne (hbd d List.mem_cons_self)]
      apply rest.congr
      · intro x hx
        exact setAt_of_ne (hbd x (List.mem_cons_of_mem _ hx)) _
      · intro x hx
        apply setAt_of_ne
        intro h
        exact (List.nodup_cons.mp hnodup).1 (Option.some.inj h ▸ hx)
  | cons d l ih =>
    obtain ⟨hd, hnodup⟩ := List.nodup_cons.mp hnodup
    obtain ⟨rfl, hbd, rest⟩ := cons_iff.mp H
    have hda : d ≠ a := fun h => hd (h ▸ List.mem_append_right _ List.mem_cons_self)
    have hnext : next a ≠ some d := by
      rw [hrest.head_eq]
      intro h
      exact hd (List.mem_append_right _ (List.mem_cons_of_mem _ (List.mem_of_mem_head? h)))
    have key := ih rest (fun c hc => Option.some.inj hc ▸ hd) hnodup rest.prev_eq
    rw [if_neg fun h => hda (Option.some.inj h)]
    refine .cons ?_ ?_
    · rw [setAt_of_ne hnext, hbd]
    · cases l with
      | nil =>
        have hprev : prev a = some d := hback
        have hfirst : next d = some a := rest.head_eq
        rw [hprev, setAt_self]
        rwa [if_pos hfirst, hprev] at key
      | cons e l =>
        have hfirst : next d = some e := rest.head_eq
        have hne : next d ≠ some a := by
          rw [hfirst]
          intro h
          have hea : e = a := Option.some.inj h
          exact (List.nodup_cons.mp hnodup).1
            (List.mem_append_right _ (hea ▸ List.mem_cons_self))
        have hprev : prev a ≠ some d := by
          rw [rest.prev_eq, List.getLast?_eq_some_getLast (List.cons_ne_nil e l)]
          intro h
          apply hd
          rw [← Option.some.inj h]
          exact List.mem_append_left _ (List.getLast_mem _)
        rw [if_neg hne] at key
        rwa [setAt_of_ne hprev]

end Chain

end DoublyLinked
