import Chirc.Verify.Mirror

/-! # The tables of the registration

Neither branch looks at `connection_hash` right before it adds a node, and the USER branch never
does. That no nick is registered twice follows from the three tables together: they show a board,
on which every name that is bound has been posted on both sides, and a registration needs a name
that is on one side only. -/

namespace Chirc

open TransitionSystem Rendezvous

/-- The nick that the step welcomes. -/
def Label.welcomed : Label → Option CStr
  | .command _ _ _ _ _ out => welcomedAs out
  | _ => none

/-- The nicks registered so far, latest first. -/
def registrations (tr : History) : List CStr := tr.filterMap fun e => e.2.welcomed

/-- The invariant of the three tables. -/
structure TablesSound (srv : Server) : Prop where
  nicks : (names srv.nickHead).Nodup
  users : (names srv.userHead).Nodup
  keys : (srv.connectionHash.map (·.name)).Nodup
  posted : ∀ node ∈ srv.connectionHash,
    node.name ∈ names srv.nickHead ∧ node.name ∈ names srv.userHead

theorem Represents.tablesSound {b : Board CStr Nat} (hb : Represents srv b) : TablesSound srv where
  nicks := hb.left ▸ b.left_nodup
  users := hb.right ▸ b.right_nodup
  keys := map_fst_bindings ▸ hb.bound ▸ b.bound_nodup
  posted := fun node hnode => by
    have hmem : (node.name, node.fd) ∈ bindings srv.connectionHash := List.mem_map_of_mem hnode
    rw [hb.bound] at hmem
    rw [hb.left, hb.right]
    exact ⟨b.bound_left hmem, b.bound_right hmem⟩

theorem registersAs_of_registersOn {l : Label} {σ : Sys} (h : l.registersOn σ = none) :
    l.registersAs σ = none := by
  cases l with
  | command t fd c line msg out =>
    rw [Label.registersOn] at h
    rw [Label.registersAs]
    split at h
    · cases h
    · next hreg => simpa using hreg
  | _ => rfl

/-- A step welcomes the nick that it registers. -/
theorem Step.welcomed_eq {σ σ' : Sys} {b : Board CStr Nat} (H : Step ctx σ l σ')
    (hb : Represents σ.server b) : l.welcomed = l.registersAs σ := by
  cases H with
  | command t th p line msg w hth hp hparses hw => exact welcomedAs_out hb hw
  | _ => rfl

/-- `connection_hash` grows by the nick that is welcomed. -/
theorem Step.keys_eq {σ σ' : Sys} {b : Board CStr Nat} (H : Step ctx σ l σ')
    (hb : Represents σ.server b) : (bindings σ'.server.connectionHash).map Prod.fst =
      l.welcomed.toList ++ (bindings σ.server.connectionHash).map Prod.fst := by
  rw [H.welcomed_eq hb]
  cases H.move hb [] with
  | quiet _ hon _ hbound => rw [hbound, registersAs_of_registersOn hon]; rfl
  | accept fd _ hon _ _ hbound => rw [hbound, registersAs_of_registersOn hon]; rfl
  | register fd nick _ _ has _ _ hbound => rw [hbound, has]; rfl
  | close fd _ hon _ hbound => rw [hbound, registersAs_of_registersOn hon]; rfl

/-- The keys of `connection_hash` are the nicks that were registered. -/
theorem Run.registrations_eq {σ : Sys} (hrun : Run ctx tr σ) :
    registrations tr = σ.server.connectionHash.map (·.name) := by
  rw [← map_fst_bindings]
  refine TransitionSystem.Run.invariant (P := fun tr σ =>
    registrations tr = (bindings σ.server.connectionHash).map Prod.fst) ?_ ?_ hrun
  · rintro _ rfl
    rfl
  · intro tr σ l σ' hrun ih hstep
    obtain ⟨b, hb⟩ := Run.represents hrun
    rw [(step_cases hstep).keys_eq hb, ← ih, registrations, List.filterMap_cons]
    cases l.welcomed <;> rfl

/-- A nick is in `connection_hash` exactly if some connection was welcomed as it. -/
theorem Run.found_iff {σ : Sys} (hrun : Run ctx tr σ) :
    findConnectionMapNode σ.server.connectionHash nick ≠ none ↔ nick ∈ registrations tr := by
  rw [hrun.registrations_eq, ← map_fst_bindings, ne_eq, findConnectionMapNode_eq_none, not_not]

/-- **The tables are sound in every state reached**, and no nick is registered twice. -/
theorem tablesSound_registrations {σ : Sys} (hrun : Run ctx tr σ) :
    TablesSound σ.server ∧ (registrations tr).Nodup := by
  obtain ⟨b, hb⟩ := Run.represents hrun
  have H := hb.tablesSound
  exact ⟨H, Run.registrations_eq hrun ▸ H.keys⟩

theorem tablesSound_registerAmy : ∃ tr σ, play plainServer registerAmy = .ok (tr, σ) ∧
    registrations tr = [lit "amy"] ∧ TablesSound σ.server ∧ (registrations tr).Nodup := by
  obtain ⟨tr, σ, hplay, hrun, h⟩ := run_of_playsTo plainServer registerAmy
    (fun tr _ => registrations tr = [lit "amy"]) (by decide +kernel)
  exact ⟨tr, σ, hplay, of_decide_eq_true h, tablesSound_registrations hrun⟩

end Chirc
