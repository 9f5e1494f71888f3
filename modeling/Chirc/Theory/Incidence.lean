import Mathlib.Algebra.BigOperators.Group.Finset.Piecewise

/-! # Indexes of a list of edges

An index keeps, for each vertex, the list of the edges that end there. The two indexes of a list of
edges by their two ends hold the same edges, and so have the same size in total. -/

/-- `table` lists the edges of `L` by the end that `src` gives them. -/
def Indexed [DecidableEq V] (L : List E) (src : E → Option V) (table : V → List E) : Prop :=
  ∀ v, table v = L.filter (src · = some v)

namespace Indexed
variable {V E : Type*} [DecidableEq V] {L : List E} {src : E → Option V} {table : V → List E}

theorem nil : Indexed [] src (fun _ => []) := fun _ => rfl

theorem mem_iff (H : Indexed L src table) : e ∈ table v ↔ e ∈ L ∧ src e = some v := by
  rw [H v, List.mem_filter, decide_eq_true_iff]

theorem nodup (H : Indexed L src table) (hL : L.Nodup) (v : V) : (table v).Nodup := by
  rw [H v]
  exact hL.filter _

theorem congr (H : Indexed L src table) {src' : E → Option V} (h : ∀ e ∈ L, src' e = src e) :
    Indexed L src' table := by
  intro v
  rw [H v]
  exact List.filter_congr fun e he => by rw [h e he]

/-- Empty the list of a vertex without edges. -/
theorem clear (H : Indexed L src table) (hv : ∀ e ∈ L, src e ≠ some v) :
    Indexed L src (Function.update table v []) := by
  intro v'
  by_cases h : v' = v
  · subst h
    rw [Function.update_self, eq_comm, List.filter_eq_nil_iff]
    intro e he
    simpa using hv e he
  · rw [Function.update_of_ne h, H v']

/-- Add an edge. -/
theorem cons (H : Indexed L src table) (he : src e = some v) :
    Indexed (e :: L) src (Function.update table v (e :: table v)) := by
  intro v'
  by_cases hv : v' = v
  · subst hv
    simp [he, H v']
  · simp [he, hv, Ne.symm hv, H v']

/-- Delete an edge. -/
theorem erase [DecidableEq E] (H : Indexed L src table) (he : src e = some v) :
    Indexed (L.erase e) src (Function.update table v ((table v).erase e)) := by
  intro v'
  by_cases hv : v' = v
  · subst hv
    rw [Function.update_self, H v', List.erase_filter]
  · rw [Function.update_of_ne hv, H v', ← List.erase_filter, List.erase_of_not_mem]
    simp [he, Ne.symm hv]

/-- All edges that end in `s` are counted by an index, each once. -/
theorem sum_length (H : Indexed L src table) {s : Finset V}
    (hs : ∀ e ∈ L, ∃ v ∈ s, src e = some v) :
    ∑ v ∈ s, (table v).length = L.length := by
  induction L generalizing table with
  | nil => simp [H _]
  | cons e L ih =>
    obtain ⟨v, hv, he⟩ := hs e List.mem_cons_self
    have hih := ih (fun _ => rfl) fun e' he' => hs e' (List.mem_cons_of_mem e he')
    have hlen v' : (table v').length =
        (L.filter (src · = some v')).length + if v' = v then 1 else 0 := by
      rw [H v', List.filter_cons, he]
      by_cases hv' : v' = v
      · simp [hv']
      · simp [hv', Ne.symm hv']
    rw [Finset.sum_congr rfl fun v' _ => hlen v', Finset.sum_add_distrib, hih, Finset.sum_ite_eq',
      if_pos hv, List.length_cons]

end Indexed

/-- Edges that are determined by what `p` says of them. -/
theorem length_filter_le_one {L : List E} {p : E → Bool} (hL : L.Nodup)
    (h : ∀ x ∈ L, ∀ y ∈ L, p x → p y → x = y) : (L.filter p).length ≤ 1 := by
  have hnodup := hL.filter p
  match hfilter : L.filter p with
  | [] => simp
  | [x] => simp
  | x :: y :: zs =>
    have hx : x ∈ L.filter p := by simp [hfilter]
    have hy : y ∈ L.filter p := by simp [hfilter]
    rw [List.mem_filter] at hx hy
    rw [hfilter, h x hx.1 y hy.1 hx.2 hy.2] at hnodup
    simp at hnodup
