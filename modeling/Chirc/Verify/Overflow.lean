import Chirc.Verify.Modes
import Mathlib.Data.Finset.Insert

/-! # When a modes array overflows

`set_mode` appends with `strcat` and does not know how large the array is, so the tenth mode that is
set at once is written past the end of `modes[10]`. A sequence of calls is safe exactly if no more
than nine modes are set at any time. -/

namespace Chirc

/-! ## Sequences of calls -/

/-- The set of modes after a call; NUL is no mode. -/
def ModeCall.act (A : Finset Byte) : ModeCall → Finset Byte
  | .set mode => if mode = NUL then A else insert mode A
  | .remove mode => A.erase mode

/-- The set of modes after calls, in their order. -/
def modesAfter (A : Finset Byte) (calls : List ModeCall) : Finset Byte := calls.foldl ModeCall.act A

/-- The string in the array ends inside the array. -/
structure StrFits (modes : List Byte) : Prop where
  nul : NUL ∈ modes
  length_le : (cstrAt modes 0).length ≤ 9

/-- The call sets a further mode in a string of nine. -/
def ModeCall.NoRoom (modes : List Byte) : ModeCall → Prop
  | .set mode => mode ≠ NUL ∧ mode ∉ cstrAt modes 0 ∧ 9 ≤ (cstrAt modes 0).length
  | .remove _ => False

/-- The string fits before and after every call, and a call for which there is no room fails and
changes nothing. -/
def ModesOf.Safe (S : ModesOf α) (x : α) : List ModeCall → Prop
  | [] => StrFits (S.modes x)
  | call :: calls => StrFits (S.modes x) ∧ ∃ x' rc, S.run x call = .ok (x', rc) ∧
      (call.NoRoom (S.modes x) → rc ≠ 0 ∧ x' = x) ∧ S.Safe x' calls

/-- No more than nine modes are set at any time. -/
def NineAtMost (A : Finset Byte) (calls : List ModeCall) : Prop :=
  ∀ done, done <+: calls → (modesAfter A done).card ≤ 9

theorem nineAtMost_nil : NineAtMost A [] ↔ A.card ≤ 9 := by
  constructor
  · intro h
    exact h [] (List.prefix_refl [])
  · intro h done hdone
    rw [List.prefix_nil.mp hdone]
    exact h

theorem nineAtMost_cons :
    NineAtMost A (call :: calls) ↔ A.card ≤ 9 ∧ NineAtMost (call.act A) calls := by
  constructor
  · intro h
    refine ⟨h [] List.nil_prefix, ?_⟩
    intro done hdone
    exact h (call :: done) ((List.prefix_cons_inj call).mpr hdone)
  · rintro ⟨hcard, h⟩ done hdone
    cases done with
    | nil => exact hcard
    | cons call' done =>
      obtain ⟨rfl, htail⟩ := List.cons_prefix_cons.mp hdone
      exact h done htail

theorem card_act_le (A : Finset Byte) (call : ModeCall) : (call.act A).card ≤ A.card + 1 := by
  cases call with
  | set c =>
    rw [ModeCall.act]
    split
    · exact Nat.le_succ _
    · exact Finset.card_insert_le c A
  | remove c => exact Nat.le_succ_of_le (Finset.card_le_card (Finset.erase_subset c A))

theorem card_modesAfter_le (A : Finset Byte) (calls : List ModeCall) :
    (modesAfter A calls).card ≤ A.card + calls.length := by
  induction calls generalizing A with
  | nil => exact Nat.le_refl _
  | cons call calls ih =>
    have hact := card_act_le A call
    have hrest := ih (call.act A)
    rw [List.length_cons]
    exact Nat.le_trans hrest (by omega)

/-- Nine calls are never too many. -/
theorem nineAtMost_of_length_le (hlen : calls.length ≤ 9) : NineAtMost ∅ calls := by
  intro done hdone
  have hcard := card_modesAfter_le ∅ done
  have hle := hdone.length_le
  rw [Finset.card_empty] at hcard
  omega

/-! ## One call -/

namespace HoldsStr
variable {mem : List Byte} {s : CStr} (H : HoldsStr mem s)
include H

theorem length_lt : s.length < mem.length := by
  obtain ⟨rest, rfl⟩ := H.eq
  rw [List.length_append, List.length_cons]
  omega

theorem strFits (hlen : mem.length = 10) : StrFits mem := by
  have hlt := H.length_lt
  constructor
  · obtain ⟨rest, rfl⟩ := H.eq
    exact List.mem_append_right s List.mem_cons_self
  · rw [H.cstrAt_eq]
    omega

theorem setMode_nul : setMode mem NUL = .ok (mem, 1) := by simp [setMode, H.hasMode_nul]

/-- The NUL that ends the string is found, and there is nothing to move. -/
theorem removeMode_nul : removeMode mem NUL = .ok (mem, 0) := by
  obtain ⟨rest, rfl⟩ := H.eq
  obtain ⟨fuel, hfuel⟩ : ∃ k, (s ++ NUL :: rest).length = k + 1 := ⟨s.length + rest.length, by
    rw [List.length_append, List.length_cons, Nat.add_assoc]⟩
  rw [removeMode, strchr_some s H.nul H.nul, Res.ok_bind, hfuel]
  simp [shiftLoop, rd_append_cons]

/-- `set_mode` on another mode writes past the end of the array if the string fills it. -/
theorem setMode_full (hc : c ≠ NUL) (hmem : c ∉ s) (hfull : mem.length = s.length + 1) :
    setMode mem c = .error .bufOverflow := by
  have hhas := H.hasMode_eq hc
  obtain ⟨rest, rfl⟩ := H.eq
  have hrest : rest = [] := by simpa using hfull
  subst hrest
  have hs : ∀ d ∈ s, (d == NUL) = false := by
    intro d hd
    simpa using fun h : d = NUL => H.nul (h ▸ hd)
  have hend : scan (· == NUL) (s ++ [NUL]) 0 = .ok s.length := by
    simpa using scan_append [] [] hs (by simp : (NUL == NUL) = true)
  have hstr : cstrAt [c, NUL] 0 = [c] := by simp [cstrAt, hc]
  simp [setMode, hhas, hmem, hstr, strcat, hend]
  rfl

end HoldsStr

/-- The string after a call, in terms of the set. -/
theorem ModeCall.toFinset_apply (call : ModeCall) (hs : s.Nodup) (hcall : call.mode ≠ NUL) :
    (call.apply s).toFinset = call.act s.toFinset := by
  ext d
  rw [List.mem_toFinset, mem_apply hs]
  cases call with
  | set c =>
    have hcall : c ≠ NUL := hcall
    rw [act, if_neg hcall, Finset.mem_insert, List.mem_toFinset, mode]
    by_cases hd : d = c
    · simp [hd]
    · simp [hd]
  | remove c =>
    rw [act, Finset.mem_erase, List.mem_toFinset, mode]
    by_cases hd : d = c
    · simp [hd]
    · simp [hd]

/-- Each call either does what it should to the set, or sets a tenth mode. -/
theorem ModeCall.run_cases {modes : List Byte} (H : HoldsStr modes s) (hs : s.Nodup)
    (hlen : modes.length = 10) (call : ModeCall) :
    (∃ modes' rc s', call.run modes = .ok (modes', rc) ∧ HoldsStr modes' s' ∧ s'.Nodup ∧
      modes'.length = 10 ∧ s'.toFinset = call.act s.toFinset ∧ ¬ call.NoRoom modes) ∨
    call.run modes = .error .bufOverflow ∧ 9 < (call.act s.toFinset).card := by
  have hlt := H.length_lt
  by_cases hnul : call.mode = NUL
  · cases call with
    | set c =>
      obtain rfl : c = NUL := hnul
      refine .inl ⟨modes, 1, s, H.setMode_nul, H, hs, hlen, ?_, fun h => h.1 rfl⟩
      rw [act, if_pos rfl]
    | remove c =>
      obtain rfl : c = NUL := hnul
      refine .inl ⟨modes, 0, s, H.removeMode_nul, H, hs, hlen, ?_, id⟩
      rw [act, Finset.erase_eq_of_notMem]
      simpa using H.nul
  · by_cases hroom : (call.apply s).length < modes.length
    · obtain ⟨modes', hrun, H', hlen', -⟩ := run_eq H hnul hroom
      refine .inl ⟨modes', _, call.apply s, hrun, H', call.nodup_apply hs, hlen'.trans hlen,
        call.toFinset_apply hs hnul, ?_⟩
      cases call with
      | set c =>
        rintro ⟨-, hmem, hfull⟩
        rw [H.cstrAt_eq] at hmem hfull
        rw [apply, if_neg hmem, List.length_append, List.length_singleton] at hroom
        omega
      | remove c => exact id
    · refine .inr ?_
      rw [← call.toFinset_apply hs hnul, List.toFinset_card_of_nodup (call.nodup_apply hs)]
      refine ⟨?_, by omega⟩
      cases call with
      | set c =>
        by_cases hmem : c ∈ s
        · rw [apply, if_pos hmem] at hroom
          exact absurd hlt hroom
        · rw [apply, if_neg hmem, List.length_append, List.length_singleton] at hroom
          exact H.setMode_full hnul hmem (by omega)
      | remove c =>
        have := (List.erase_sublist (a := c) (l := s)).length_le
        exact absurd (Nat.lt_of_le_of_lt this hlt) hroom

/-! ## Sequences -/

namespace ModesOf
variable {S : ModesOf α}

theorem Delegates.safe_iff_of_holds (H : S.Delegates) {x : α} (hstr : HoldsStr (S.modes x) s)
    (hs : s.Nodup) (hlen : (S.modes x).length = 10) (calls : List ModeCall) :
    S.Safe x calls ↔ NineAtMost s.toFinset calls := by
  induction calls generalizing x s with
  | nil =>
    have hcard := List.toFinset_card_of_nodup hs
    have hlt := hstr.length_lt
    rw [Safe, nineAtMost_nil]
    exact iff_of_true (hstr.strFits hlen) (by omega)
  | cons call calls ih =>
    have hcard := List.toFinset_card_of_nodup hs
    have hlt := hstr.length_lt
    rw [Safe, nineAtMost_cons]
    refine and_congr (iff_of_true (hstr.strFits hlen) (by omega)) ?_
    rcases call.run_cases hstr hs hlen with
      ⟨modes', rc, s', hrun, hstr', hs', hlen', hset, hroom⟩ | ⟨hrun, hcard'⟩
    · have hput : S.run x call = .ok (S.put x modes', rc) := by
        rw [H.run_eq, hrun]
        rfl
      have ih' := ih (x := S.put x modes') (by rwa [H.modes_put]) hs' (by rwa [H.modes_put])
      rw [hset] at ih'
      rw [← ih']
      constructor
      · rintro ⟨x', rc', hrun', -, hsafe⟩
        cases hput.symm.trans hrun'
        exact hsafe
      · intro hsafe
        exact ⟨_, rc, hput, fun h => absurd h hroom, hsafe⟩
    · have hfault : S.run x call = .error .bufOverflow := by
        rw [H.run_eq, hrun]
        rfl
      constructor
      · rintro ⟨x', rc', hrun', -⟩
        cases hfault.symm.trans hrun'
      · intro hnine
        have hfirst := hnine [] List.nil_prefix
        exact absurd hfirst (Nat.not_le.mpr hcard')

/-- A sequence of calls on a struct that was initialised. -/
theorem Delegates.safe_iff (H : S.Delegates) {mem : List Byte} (hlen : mem.length = 10)
    (calls : List ModeCall) : S.Safe (S.init mem) calls ↔ NineAtMost ∅ calls := by
  have hstr : HoldsStr (S.modes (S.init mem)) [] := by
    rw [H.modes_init]
    cases mem with
    | nil => cases hlen
    | cons b rest => exact ⟨List.not_mem_nil, rest, rfl⟩
  have hlen' : (S.modes (S.init mem)).length = 10 := by rw [H.modes_init, List.length_set, hlen]
  exact H.safe_iff_of_holds hstr List.nodup_nil hlen' calls

end ModesOf

/-- **A modes array overflows exactly at the tenth mode**, in the structs of users, of channels and
of members of channels: a sequence of calls is safe if and only if no more than nine modes are set
at any time. -/
theorem modes_safe_iff {mem : List Byte} (hlen : mem.length = 10) (calls : List ModeCall) :
    (ModesOf.user.Safe (ModesOf.user.init mem) calls ↔ NineAtMost ∅ calls) ∧
    (ModesOf.channel.Safe (ModesOf.channel.init mem) calls ↔ NineAtMost ∅ calls) ∧
    (ModesOf.channeluser.Safe (ModesOf.channeluser.init mem) calls ↔ NineAtMost ∅ calls) :=
  ⟨ModesOf.user_delegates.safe_iff hlen calls, ModesOf.channel_delegates.safe_iff hlen calls,
    ModesOf.channeluser_delegates.safe_iff hlen calls⟩

/-- The ten modes `a` to `j` are set one after the other. -/
def tenModes : List ModeCall := (lit "abcdefghij").map .set

theorem not_nineAtMost_tenModes : ¬ NineAtMost ∅ tenModes := by
  intro h
  exact absurd (h tenModes (List.prefix_refl _)) (by decide +kernel)

/-- The tenth `chirc_user_set_mode` writes past the end of the array. -/
theorem not_safe_tenModes :
    ¬ ∀ mem calls, mem.length = 10 → ModesOf.user.Safe (ModesOf.user.init mem) calls := by
  intro h
  have hsafe := h (List.replicate 10 255) tenModes rfl
  exact not_nineAtMost_tenModes ((ModesOf.user_delegates.safe_iff rfl tenModes).mp hsafe)

/-- Nine modes fit. -/
theorem safe_nineModes :
    ModesOf.user.Safe (ModesOf.user.init (List.replicate 10 255)) (tenModes.take 9) :=
  (modes_safe_iff rfl (tenModes.take 9)).1.mpr (nineAtMost_of_length_le (by decide +kernel))

end Chirc
