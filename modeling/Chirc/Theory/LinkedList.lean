import Chirc.Theory.While
import Mathlib.Logic.Function.Basic

/-! # Singly linked lists on a heap

The nodes of a list are in a heap, at addresses, and a link is a nullable pointer. `Segment h p l r`
says that from `p` on the nodes of `l` are allocated and linked in this order, and that the last of
them links to `r`; a whole list is a segment that ends at NULL.

* `Segment.nodup`: a list that ends at NULL comes to no address twice.
* `Segment.unlink`: a node that is not the first one is linked past and freed.
* `Segment.link`: a node is linked behind the last one.
* `Segment.ends`: a loop that goes along a segment. -/

namespace LinkedList

universe u

variable {ν : Type u}

structure Node (ν : Type u) where
  val : ν
  next : Option Nat

/-- The nodes that are allocated, by their addresses -/
abbrev Heap (ν : Type u) := Nat → Option (Node ν)

namespace Heap

def setNext (h : Heap ν) (p : Nat) (q : Option Nat) : Heap ν :=
  Function.update h p ((h p).map fun node => { node with next := q })

def free (h : Heap ν) (p : Nat) : Heap ν := Function.update h p none

theorem setNext_self (h : Heap ν) (hp : h p = some node) (q : Option Nat) :
    h.setNext p q p = some { node with next := q } := by
  rw [setNext, Function.update_self, hp, Option.map_some]

theorem setNext_of_ne (h : Heap ν) (hne : p' ≠ p) (q : Option Nat) : h.setNext p q p' = h p' :=
  Function.update_of_ne hne _ _

theorem free_self (h : Heap ν) (p : Nat) : h.free p p = none := Function.update_self _ _ _

theorem free_of_ne (h : Heap ν) (hne : p' ≠ p) : h.free p p' = h p' :=
  Function.update_of_ne hne _ _

/-- The nodes at these addresses are freed, the last one first. -/
def freeAll (h : Heap ν) (ps : List Nat) : Heap ν := ps.foldr (fun p h => h.free p) h

theorem freeAll_of_mem (h : Heap ν) (hp : p ∈ ps) : h.freeAll ps p = none := by
  induction ps with
  | nil => cases hp
  | cons q ps ih =>
    by_cases hpq : p = q
    · rw [hpq]
      exact free_self _ q
    · have hp := (List.mem_cons.mp hp).resolve_left hpq
      exact (free_of_ne _ hpq).trans (ih hp)

theorem freeAll_of_not_mem (h : Heap ν) (hp : p ∉ ps) : h.freeAll ps p = h p := by
  induction ps with
  | nil => rfl
  | cons q ps ih =>
    obtain ⟨hpq, hp⟩ := List.ne_and_not_mem_of_not_mem_cons hp
    exact (free_of_ne _ hpq).trans (ih hp)

end Heap

/-- The nodes of `l`, with their addresses, from `p` up to `r` -/
inductive Segment (h : Heap ν) : Option Nat → List (Nat × ν) → Option Nat → Prop
  | nil : Segment h p [] p
  | cons : h p = some ⟨v, q⟩ → Segment h q l r → Segment h (some p) ((p, v) :: l) r

namespace Segment

variable {h h' : Heap ν}

theorem append (H : Segment h p l q) (H' : Segment h q l' r) : Segment h p (l ++ l') r := by
  induction H with
  | nil => exact H'
  | cons hp _ ih => exact .cons hp (ih H')

theorem split (H : Segment h p (l ++ l') r) : ∃ q, Segment h p l q ∧ Segment h q l' r := by
  induction l generalizing p with
  | nil => exact ⟨p, .nil, H⟩
  | cons node l ih =>
    cases H with
    | cons hp rest =>
      obtain ⟨q, hl, hl'⟩ := ih rest
      exact ⟨q, .cons hp hl, hl'⟩

/-- A segment is read at its own nodes only. -/
theorem congr (H : Segment h p l r) (heq : ∀ node ∈ l, h' node.1 = h node.1) :
    Segment h' p l r := by
  induction H with
  | nil => exact .nil
  | cons hp _ ih =>
    refine .cons ((heq _ List.mem_cons_self).trans hp) (ih ?_)
    intro node hnode
    exact heq node (List.mem_cons_of_mem _ hnode)

theorem get_of_mem (H : Segment h p l r) (hmem : (a, v) ∈ l) : ∃ q, h a = some ⟨v, q⟩ := by
  obtain ⟨l₁, l₂, rfl⟩ := List.append_of_mem hmem
  obtain ⟨q, -, hrest⟩ := H.split
  cases hrest with
  | cons ha _ => exact ⟨_, ha⟩

theorem head_ne (H : Segment h p (node :: l) r) : p = some node.1 := by
  cases H with
  | cons => rfl

/-- From a pointer there is one list only. -/
theorem unique (H : Segment h p l none) (H' : Segment h p l' none) : l = l' := by
  induction l generalizing p l' with
  | nil =>
    cases H with
    | nil =>
      cases H' with
      | nil => rfl
  | cons node l ih =>
    cases H with
    | cons hp rest =>
      cases H' with
      | cons hp' rest' =>
        cases hp.symm.trans hp'
        rw [ih rest rest']

theorem nodup (H : Segment h p l none) : (l.map Prod.fst).Nodup := by
  induction l generalizing p with
  | nil => exact List.nodup_nil
  | cons node l ih =>
    have hhead := H.head_ne
    have hwhole := H
    cases H with
    | cons hp rest =>
      refine List.nodup_cons.mpr ⟨?_, ih rest⟩
      intro hmem
      -- the list from the second place where the address stands would be the same list
      obtain ⟨node', hnode', heq⟩ := List.mem_map.mp hmem
      obtain ⟨l₁, l₂, rfl⟩ := List.append_of_mem hnode'
      obtain ⟨q, -, hsuffix⟩ := rest.split
      have hq := hsuffix.head_ne
      rw [heq] at hq
      subst hq
      have hlen := congrArg List.length (hwhole.unique hsuffix)
      simp at hlen
      omega

/-- Whoever holds a pointer to a freed node has no list. -/
theorem not_free (p : Nat) (l : List (Nat × ν)) : ¬ Segment (h.free p) (some p) l none := by
  intro H
  cases H with
  | cons hp => cases (h.free_self p).symm.trans hp

/-- The node at `b` is linked past and freed. -/
theorem unlink (H : Segment h p (l₁ ++ (a, u) :: (b, v) :: l₂) none) (hb : h b = some ⟨v, q⟩) :
    Segment ((h.setNext a q).free b) p (l₁ ++ (a, u) :: l₂) none := by
  have hperm : (((a, u) :: (b, v) :: (l₁ ++ l₂)).map Prod.fst).Nodup := by
    refine (List.Perm.nodup_iff (List.Perm.map _ ?_)).mp H.nodup
    exact List.perm_middle.trans (List.perm_middle.cons _)
  obtain ⟨ha, hnodup⟩ := List.nodup_cons.mp hperm
  obtain ⟨hb', -⟩ := List.nodup_cons.mp hnodup
  have hab : a ≠ b := fun h => ha (h ▸ List.mem_cons_self)
  -- the other nodes stay as they are
  have hkeep : ∀ node ∈ l₁ ++ l₂, (h.setNext a q).free b node.1 = h node.1 := by
    intro node hnode
    have hmem := List.mem_map_of_mem (f := Prod.fst) hnode
    have hne : node.1 ≠ b := fun h => hb' (h ▸ hmem)
    have hne' : node.1 ≠ a := fun h => ha (List.mem_cons_of_mem _ (h ▸ hmem))
    rw [Heap.free_of_ne _ hne, Heap.setNext_of_ne _ hne']
  obtain ⟨r, hfirst, hrest⟩ := H.split
  cases hrest with
  | cons hpa hrest =>
    cases hrest with
    | cons hpb hrest =>
      cases hb.symm.trans hpb
      have hlink : (h.setNext a q).free b a = some ⟨u, q⟩ := by
        rw [Heap.free_of_ne _ hab, Heap.setNext_self _ hpa]
      refine (hfirst.congr ?_).append (.cons hlink (hrest.congr ?_))
      · intro node hnode
        exact hkeep node (List.mem_append_left _ hnode)
      · intro node hnode
        exact hkeep node (List.mem_append_right _ hnode)

/-- The node at `b` is linked behind the last one. -/
theorem link (H : Segment h p (l ++ [(a, u)]) none) (hb : h b = some ⟨v, none⟩)
    (hnew : ∀ node ∈ l ++ [(a, u)], node.1 ≠ b) :
    Segment (h.setNext a (some b)) p (l ++ [(a, u)] ++ [(b, v)]) none := by
  have hab : b ≠ a := (hnew (a, u) (List.mem_append_right _ List.mem_cons_self)).symm
  have hkeep : ∀ node ∈ l, h.setNext a (some b) node.1 = h node.1 := by
    intro node hnode
    refine Heap.setNext_of_ne _ ?_ _
    have hnodup := H.nodup
    rw [List.map_append] at hnodup
    obtain ⟨-, -, hne⟩ := List.nodup_append.mp hnodup
    exact hne node.1 (List.mem_map_of_mem hnode) a List.mem_cons_self
  obtain ⟨r, hfirst, hlast⟩ := H.split
  rw [List.append_assoc]
  cases hlast with
  | cons ha _ =>
    refine (hfirst.congr hkeep).append (.cons (Heap.setNext_self _ ha _) (.cons ?_ .nil))
    rw [Heap.setNext_of_ne _ hab]
    exact hb

/-- A loop that goes on at each node of a segment, from one node to the next, is at the end of the
segment in the end. -/
theorem ends {α ρ ε : Type*} {body : α × Option Nat → Except ε (ρ ⊕ α × Option Nat)}
    {a : α} {x : Except ε ρ} (H : Segment h p l r) (step : α → Nat × ν → α)
    (hpass : ∀ a, ∀ node ∈ l, ∀ q, h node.1 = some ⟨node.2, q⟩ →
      body (a, some node.1) = .ok (.inr (step a node, q)))
    (hend : While.Ends body (l.foldl step a, r) x) : While.Ends body (a, p) x := by
  induction H generalizing a with
  | nil => exact hend
  | cons hp _ ih =>
    refine .next (hpass a _ List.mem_cons_self _ hp) (ih ?_ hend)
    intro a' node hnode
    exact hpass a' node (List.mem_cons_of_mem _ hnode)

end Segment

end LinkedList
