import Chirc.Theory.Raises

/-! # Computations that log what they touch

A computation that may fail, with the list of the locations that it touches before it returns or
fails.

* `Within P E x`: `x` touches only locations in `P`, and fails only with errors in `E`.
* `Yields P x a`: `x` touches only locations in `P`, and returns `a`. -/

universe u v w

/-- The locations that are touched, in their order, and the result. -/
structure Traced (ι : Type u) (ε : Type v) (α : Type w) where
  log : List ι
  result : Except ε α

namespace Traced

variable {ι : Type u} {ε : Type v} {α β : Type w}

/-- Touch some locations. -/
def touch (log : List ι) : Traced ι ε Unit := ⟨log, .ok ()⟩

def fail (e : ε) : Traced ι ε α := ⟨[], .error e⟩

instance : Monad (Traced ι ε) where
  pure a := ⟨[], .ok a⟩
  bind x f :=
    match x.result with
    | .error e => ⟨x.log, .error e⟩
    | .ok a => ⟨x.log ++ (f a).log, (f a).result⟩

theorem bind_of_ok {x : Traced ι ε α} (f : α → Traced ι ε β) (h : x.result = .ok a) :
    x >>= f = ⟨x.log ++ (f a).log, (f a).result⟩ := by
  obtain ⟨log, result⟩ := x
  cases h
  rfl

theorem bind_of_error {x : Traced ι ε α} (f : α → Traced ι ε β) (h : x.result = .error e) :
    x >>= f = ⟨x.log, .error e⟩ := by
  obtain ⟨log, result⟩ := x
  cases h
  rfl

/-- The log makes no difference to the result. -/
@[simp] theorem bind_result (x : Traced ι ε α) (f : α → Traced ι ε β) :
    (x >>= f).result = x.result >>= fun a => (f a).result := by
  cases h : x.result with
  | error e => rw [bind_of_error f h]; rfl
  | ok a => rw [bind_of_ok f h]; rfl

/-- What the first of two computations touches is touched by both together. -/
theorem mem_log_bind {x : Traced ι ε α} (f : α → Traced ι ε β) (hi : i ∈ x.log) :
    i ∈ (x >>= f).log := by
  cases h : x.result with
  | error e =>
    rw [bind_of_error f h]
    exact hi
  | ok a =>
    rw [bind_of_ok f h]
    exact List.mem_append_left _ hi

@[simp] theorem pure_result (a : α) : (pure a : Traced ι ε α).result = .ok a := rfl

/-! ## Bounds -/

/-- Only locations in `P` are touched, and the errors are in `E`. -/
structure Within (P : ι → Prop) (E : ε → Prop) (x : Traced ι ε α) : Prop where
  log : ∀ i ∈ x.log, P i
  error : x.result.Raises E

/-- Only locations in `P` are touched, and `a` is returned. -/
structure Yields (P : ι → Prop) (x : Traced ι ε α) (a : α) : Prop where
  log : ∀ i ∈ x.log, P i
  result : x.result = .ok a

variable {P : ι → Prop} {E : ε → Prop}

theorem Yields.pure (a : α) : Yields P (pure a : Traced ι ε α) a := ⟨nofun, rfl⟩

theorem Yields.touch {log : List ι} (h : ∀ i ∈ log, P i) :
    Yields P (touch log : Traced ι ε Unit) () := ⟨h, rfl⟩

theorem Within.fail (he : E e) : Within P E (fail e : Traced ι ε α) := ⟨nofun, .error he⟩

theorem Yields.within {x : Traced ι ε α} (H : Yields P x a) : Within P E x :=
  ⟨H.log, H.result ▸ .ok a⟩

/-- One computation after another, the first of which returns `a`. -/
theorem Yields.bind {x : Traced ι ε α} {f : α → Traced ι ε β} (H : Yields P x a)
    (hf : Yields P (f a) b) : Yields P (x >>= f) b := by
  rw [bind_of_ok f H.result]
  refine ⟨?_, hf.result⟩
  intro i hi
  rcases List.mem_append.mp hi with hi | hi
  · exact H.log i hi
  · exact hf.log i hi

theorem Yields.bind_within {x : Traced ι ε α} {f : α → Traced ι ε β} (H : Yields P x a)
    (hf : Within P E (f a)) : Within P E (x >>= f) := by
  rw [bind_of_ok f H.result]
  refine ⟨?_, hf.error⟩
  intro i hi
  rcases List.mem_append.mp hi with hi | hi
  · exact H.log i hi
  · exact hf.log i hi

/-- One computation after another, the first of which may fail. -/
theorem Within.bind {x : Traced ι ε α} {f : α → Traced ι ε β} (H : Within P E x)
    (hf : ∀ a, x.result = .ok a → Within P E (f a)) : Within P E (x >>= f) := by
  cases h : x.result with
  | error e =>
    rw [bind_of_error f h]
    exact ⟨H.log, .error (H.error e h)⟩
  | ok a => exact Yields.bind_within ⟨H.log, h⟩ (hf a h)

end Traced
