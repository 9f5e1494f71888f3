import Chirc.Context.ChannelUser
import Chirc.Theory.Transition
import Mathlib.Data.Finset.Card

/-! # A modes array is a finite set

The string in the array lists the elements of a finite set without repetition, in the order in which
they were added. `set_mode` and `remove_mode` insert and erase, and tell by their return value
whether there was anything to do. -/

namespace Chirc

open TransitionSystem

/-! ## Strings in an array -/

/-- The array `mem` holds the string `s`. -/
structure HoldsStr (mem : List Byte) (s : CStr) : Prop where
  nul : NUL ∉ s
  eq : ∃ rest, mem = s ++ NUL :: rest

/-- The search stops at the byte it looks for, and at a NUL. -/
theorem strchr_append (xs : List Byte) (hnul : NUL ∉ xs) (hc : c ∉ xs) (hd : d = c ∨ d = NUL)
    (ys : List Byte) :
    strchr (xs ++ d :: ys) 0 c = .ok (if d = c then some xs.length else none) := by
  have hxs : ∀ b ∈ xs, (b == c || b == NUL) = false := by
    intro b hb
    have hbc : b ≠ c := fun h => hc (h ▸ hb)
    have hbn : b ≠ NUL := fun h => hnul (h ▸ hb)
    simp [hbc, hbn]
  have hscan := scan_append [] ys hxs (by simpa using hd : (d == c || d == NUL) = true)
  simp only [List.nil_append, List.length_nil, Nat.zero_add] at hscan
  simp [strchr, hscan, rd_append_cons]

theorem strchr_some (xs : List Byte) (hnul : NUL ∉ xs) (hc : c ∉ xs) (ys : List Byte) :
    strchr (xs ++ c :: ys) 0 c = .ok (some xs.length) :=
  (strchr_append xs hnul hc (.inl rfl) ys).trans (by rw [if_pos rfl])

theorem strchr_none (xs : List Byte) (hnul : NUL ∉ xs) (hc : c ∉ xs) (hne : c ≠ NUL)
    (ys : List Byte) : strchr (xs ++ NUL :: ys) 0 c = .ok none :=
  (strchr_append xs hnul hc (.inr rfl) ys).trans (by rw [if_neg hne.symm])

/-- The loop of `remove_mode` drops the byte it starts from. -/
theorem shiftLoop_eq {fuel : Nat} (xs : List Byte) {c : Byte} {ys : List Byte}
    (hnul : NUL ∉ c :: ys) (hfuel : ys.length + 1 < fuel) (rest : List Byte) :
    shiftLoop fuel (xs ++ c :: ys ++ NUL :: rest) xs.length =
      .ok (xs ++ ys ++ NUL :: NUL :: rest) := by
  induction ys generalizing xs c fuel with
  | nil =>
    obtain ⟨fuel, rfl⟩ : ∃ k, fuel = k + 2 := ⟨fuel - 2, by simp at hfuel; omega⟩
    have hc : c ≠ NUL := fun h => hnul (by simp [h])
    have hnext := rd_append_cons (xs ++ [c]) NUL rest
    have hlast := rd_append_cons (xs ++ [NUL]) NUL rest
    simp only [List.append_assoc, List.cons_append, List.nil_append, List.length_append,
      List.length_singleton] at hnext hlast
    simp [shiftLoop, rd_append_cons, hc, hnext, hlast]
  | cons d ys ih =>
    obtain ⟨fuel, rfl⟩ : ∃ k, fuel = k + 1 := ⟨fuel - 1, by omega⟩
    have hc : c ≠ NUL := fun h => hnul (by simp [h])
    have hnext := rd_append_cons (xs ++ [c]) d (ys ++ NUL :: rest)
    have ih := ih (xs ++ [d]) (fun h => hnul (List.mem_cons_of_mem c h))
      (by simp at hfuel; omega : ys.length + 1 < fuel)
    simp only [List.append_assoc, List.cons_append, List.nil_append, List.length_append,
      List.length_singleton] at hnext ih
    simp [shiftLoop, rd_append_cons, hc, hnext, ih]

namespace HoldsStr
variable {mem : List Byte} {s : CStr} (H : HoldsStr mem s)
include H

theorem cstrAt_eq : cstrAt mem 0 = s := by
  obtain ⟨rest, rfl⟩ := H.eq
  exact cstrAt_append [] rest H.nul

theorem hasMode_eq (hc : c ≠ NUL) : hasMode mem c = .ok (if c ∈ s then 1 else 0) := by
  obtain ⟨rest, rfl⟩ := H.eq
  by_cases hmem : c ∈ s
  · obtain ⟨xs, ys, rfl, hxs⟩ := List.eq_append_cons_of_mem hmem
    have hnul : NUL ∉ xs := fun h => H.nul (List.mem_append_left _ h)
    rw [hasMode, List.append_assoc, List.cons_append, strchr_some xs hnul hxs]
    simp
  · rw [hasMode, strchr_none s H.nul hmem hc]
    simp [hmem]

theorem hasMode_nul : hasMode mem NUL = .ok 1 := by
  obtain ⟨rest, rfl⟩ := H.eq
  rw [hasMode, strchr_some s H.nul H.nul]
  rfl

/-- `set_mode` on a mode that is set already. -/
theorem setMode_mem (hc : c ≠ NUL) (hmem : c ∈ s) : setMode mem c = .ok (mem, 1) := by
  simp [setMode, H.hasMode_eq hc, hmem]

/-- `set_mode` on another mode writes it behind the others, if there is room. -/
theorem setMode_not_mem (hc : c ≠ NUL) (hmem : c ∉ s) (hroom : s.length + 1 < mem.length) :
    ∃ mem', setMode mem c = .ok (mem', 0) ∧ HoldsStr mem' (s ++ [c]) ∧
      mem'.length = mem.length := by
  have hhas := H.hasMode_eq hc
  obtain ⟨rest, rfl⟩ := H.eq
  obtain ⟨b, rest, rfl⟩ := List.exists_cons_of_length_pos (by simpa using hroom)
  have hend : scan (· == NUL) (s ++ NUL :: b :: rest) 0 = .ok s.length := by
    have hs : ∀ d ∈ s, (d == NUL) = false := by
      intro d hd
      simpa using fun h : d = NUL => H.nul (h ▸ hd)
    simpa using scan_append [] (b :: rest) hs (by simp : (NUL == NUL) = true)
  have hstr : cstrAt [c, NUL] 0 = [c] := by simp [cstrAt, hc]
  have hcat : strcat (s ++ NUL :: b :: rest) [c] = .ok (s ++ [c] ++ NUL :: rest) := by
    have hdrop : (s ++ NUL :: b :: rest).drop (s.length + 1 + 1) = rest :=
      List.drop_length_add_append 2
    simp [strcat, hend, hdrop]
  refine ⟨s ++ [c] ++ NUL :: rest, ?_, ⟨?_, rest, rfl⟩, by simp⟩
  · simp [setMode, hhas, hmem, hstr, hcat]
  · simpa using ⟨H.nul, hc.symm⟩

/-- `remove_mode` on a mode that is not set. -/
theorem removeMode_not_mem (hc : c ≠ NUL) (hmem : c ∉ s) : removeMode mem c = .ok (mem, 1) := by
  obtain ⟨rest, rfl⟩ := H.eq
  simp [removeMode, strchr_none s H.nul hmem hc]

/-- `remove_mode` on a mode that is set erases its first occurrence. -/
theorem removeMode_mem (hmem : c ∈ s) :
    ∃ mem', removeMode mem c = .ok (mem', 0) ∧ HoldsStr mem' (s.erase c) ∧
      mem'.length = mem.length := by
  obtain ⟨rest, rfl⟩ := H.eq
  obtain ⟨xs, ys, rfl, hxs⟩ := List.eq_append_cons_of_mem hmem
  have hnul := H.nul
  rw [List.mem_append, not_or] at hnul
  have herase : (xs ++ c :: ys).erase c = xs ++ ys := by
    rw [List.erase_append_right _ hxs, List.erase_cons_head]
  have hloop := shiftLoop_eq xs hnul.2
    (by simp; omega : ys.length + 1 < (xs ++ c :: ys ++ NUL :: rest).length) rest
  have hfind := strchr_some xs hnul.1 hxs (ys ++ NUL :: rest)
  refine ⟨xs ++ ys ++ NUL :: NUL :: rest, ?_, ⟨?_, NUL :: rest, by rw [herase]⟩, ?_⟩
  · rw [← List.cons_append, ← List.append_assoc] at hfind
    simp only [removeMode, hfind, Res.ok_bind, hloop]
    rfl
  · rw [herase, List.mem_append]
    exact not_or.mpr ⟨hnul.1, fun h => hnul.2 (List.mem_cons_of_mem c h)⟩
  · simp
    omega

end HoldsStr

/-! ## Sequences of calls -/

/-- A call of `set_mode` or `remove_mode`. -/
inductive ModeCall
  | set (mode : Byte)
  | remove (mode : Byte)
  deriving DecidableEq, Repr

namespace ModeCall

def mode : ModeCall → Byte
  | .set mode => mode
  | .remove mode => mode

def run (modes : List Byte) : ModeCall → Res (List Byte × Int)
  | .set mode => setMode modes mode
  | .remove mode => removeMode modes mode

end ModeCall

/-- The uses of an array `modes[10]` that begins as the empty string. A step is a call with its
return value. -/
def modesArray : TransitionSystem (List Byte) (ModeCall × Int) where
  init modes := modes.length = 10 ∧ modes.head? = some NUL
  step modes l modes' := l.1.run modes = .ok (modes', l.2)

instance {modes modes' : List Byte} {l : ModeCall × Int} :
    Decidable (modesArray.step modes l modes') :=
  inferInstanceAs (Decidable (l.1.run modes = .ok (modes', l.2)))

abbrev ModesHistory := List (List Byte × ModeCall × Int)

/-- The set of modes after calls, latest first. -/
def modeSet : List ModeCall → Finset Byte
  | [] => ∅
  | .set mode :: calls => insert mode (modeSet calls)
  | .remove mode :: calls => (modeSet calls).erase mode

/-- The calls of a history. -/
def modeCalls (tr : ModesHistory) : List ModeCall := tr.map fun e => e.2.1

/-- The last call for the mode that returned 0. -/
def lastSuccess (tr : ModesHistory) (mode : Byte) : Option ModeCall :=
  tr.findSome? fun e => if e.2.1.mode = mode ∧ e.2.2 = 0 then some e.2.1 else none

/-- The call has a mode character, and no more than nine modes are set after it. -/
def ModeCall.Fits (tr : ModesHistory) (_ : List Byte) (l : ModeCall × Int) : Prop :=
  l.1.mode ≠ NUL ∧ (modeSet (l.1 :: modeCalls tr)).card ≤ 9

instance ModeCall.decidableFits : Decidable (ModeCall.Fits tr modes l) :=
  inferInstanceAs (Decidable (_ ∧ _))

/-- The array is the set of the modes that were set last. -/
structure IsModeSet (tr : ModesHistory) (modes : List Byte) : Prop where
  nodup : (cstrAt modes 0).Nodup
  has : ∀ c, c ≠ NUL →
    hasMode modes c = .ok (if lastSuccess tr c = some (.set c) then 1 else 0)

/-- What a call does: it is refused exactly if there is nothing to do, and leaves everything but
its own mode alone. -/
structure ModeCall.Correct (call : ModeCall) (modes modes' : List Byte) (rc : Int) : Prop where
  refused : rc = 1 ↔ hasMode modes call.mode = .ok (match call with | .set _ => 1 | .remove _ => 0)
  unchanged : rc = 1 → modes' = modes
  zero_or_one : rc = 0 ∨ rc = 1
  others : ∀ d, d ≠ call.mode → hasMode modes' d = hasMode modes d
  order : (cstrAt modes' 0).filter (· ≠ call.mode) = (cstrAt modes 0).filter (· ≠ call.mode)

/-! ## One call -/

namespace ModeCall

/-- The string after a call. -/
def apply (s : CStr) : ModeCall → CStr
  | .set mode => if mode ∈ s then s else s ++ [mode]
  | .remove mode => s.erase mode

/-- There is nothing to do. -/
def Idle (s : CStr) : ModeCall → Prop
  | .set mode => mode ∈ s
  | .remove mode => mode ∉ s

instance : ∀ call, Decidable (Idle s call)
  | .set _ => inferInstanceAs (Decidable (_ ∈ _))
  | .remove _ => inferInstanceAs (Decidable (_ ∉ _))

theorem run_eq {modes : List Byte} {call : ModeCall} (H : HoldsStr modes s) (hnul : call.mode ≠ NUL)
    (hroom : (call.apply s).length < modes.length) :
    ∃ modes', call.run modes = .ok (modes', if call.Idle s then 1 else 0) ∧
      HoldsStr modes' (call.apply s) ∧ modes'.length = modes.length ∧
      (call.Idle s → modes' = modes) := by
  cases call with
  | set c =>
    have hnul : c ≠ NUL := hnul
    by_cases hmem : c ∈ s
    · refine ⟨modes, ?_, ?_, rfl, fun _ => rfl⟩
      · simpa [run, Idle, hmem] using H.setMode_mem hnul hmem
      · simpa [apply, hmem] using H
    · simp only [apply, hmem, if_false, List.length_append, List.length_singleton] at hroom ⊢
      obtain ⟨modes', hrun, H', hlen⟩ := H.setMode_not_mem hnul hmem hroom
      refine ⟨modes', ?_, H', hlen, fun h => absurd h hmem⟩
      simpa [run, Idle, hmem] using hrun
  | remove c =>
    have hnul : c ≠ NUL := hnul
    by_cases hmem : c ∈ s
    · obtain ⟨modes', hrun, H', hlen⟩ := H.removeMode_mem hmem
      refine ⟨modes', ?_, H', hlen, fun h => absurd hmem h⟩
      simpa [run, Idle, hmem] using hrun
    · refine ⟨modes, ?_, ?_, rfl, fun _ => rfl⟩
      · simpa [run, Idle, hmem] using H.removeMode_not_mem hnul hmem
      · simpa [apply, List.erase_of_not_mem hmem] using H

theorem nodup_apply (call : ModeCall) (hs : s.Nodup) : (call.apply s).Nodup := by
  cases call with
  | set c =>
    rw [apply]
    split
    · exact hs
    · next hmem => exact hs.append (List.nodup_singleton c) (by simpa using hmem)
  | remove c => exact hs.erase c

theorem mem_apply {call : ModeCall} (hs : s.Nodup) : d ∈ call.apply s ↔
    if d = call.mode then call = .set d else d ∈ s := by
  cases call with
  | set c =>
    rw [apply, mode]
    split <;> split <;> simp_all
  | remove c =>
    rw [apply, mode, hs.mem_erase_iff]
    split <;> simp_all

theorem filter_apply (call : ModeCall) (hs : s.Nodup) :
    (call.apply s).filter (· ≠ call.mode) = s.filter (· ≠ call.mode) := by
  cases call with
  | set c =>
    rw [apply, mode]
    split <;> simp
  | remove c =>
    rw [apply, mode, hs.erase_eq_filter, List.filter_filter]
    refine List.filter_congr fun b _ => ?_
    by_cases hb : b = c <;> simp [hb]

/-- A call for which there is room does what it should. -/
theorem run_correct {modes : List Byte} {call : ModeCall} (H : HoldsStr modes s) (hs : s.Nodup)
    (hnul : call.mode ≠ NUL) (hroom : (call.apply s).length < modes.length) :
    ∃ modes', call.run modes = .ok (modes', if call.Idle s then 1 else 0) ∧
      HoldsStr modes' (call.apply s) ∧ modes'.length = modes.length ∧
      call.Correct modes modes' (if call.Idle s then 1 else 0) := by
  obtain ⟨modes', hrun, H', hlen, hsame⟩ := run_eq H hnul hroom
  refine ⟨modes', hrun, H', hlen, ?_, fun hrc => hsame ?_, ?_, fun d hd => ?_, ?_⟩
  · rw [H.hasMode_eq hnul]
    cases call with
    | set c => by_cases hmem : c ∈ s <;> simp [Idle, mode, hmem]
    | remove c => by_cases hmem : c ∈ s <;> simp [Idle, mode, hmem]
  · by_contra hidle
    simp [hidle] at hrc
  · split
    · exact .inr rfl
    · exact .inl rfl
  · by_cases hdnul : d = NUL
    · rw [hdnul, H'.hasMode_nul, H.hasMode_nul]
    · rw [H'.hasMode_eq hdnul, H.hasMode_eq hdnul]
      simp [mem_apply hs, hd]
  · rw [H'.cstrAt_eq, H.cstrAt_eq, filter_apply call hs]

end ModeCall

/-! ## Runs -/

/-- The string that a history leaves in the array. -/
structure ModesHeld (tr : ModesHistory) (modes : List Byte) (s : CStr) : Prop where
  str : HoldsStr modes s
  nodup : s.Nodup
  set : s.toFinset = modeSet (modeCalls tr)
  last : ∀ c, lastSuccess tr c = some (.set c) ↔ c ∈ s
  length : modes.length = 10

theorem modeSet_cons (call : ModeCall) (hs : s.Nodup) (h : s.toFinset = modeSet calls) :
    (call.apply s).toFinset = modeSet (call :: calls) := by
  ext d
  have hmem : d ∈ s ↔ d ∈ modeSet calls := by rw [← h, List.mem_toFinset]
  rw [List.mem_toFinset, ModeCall.mem_apply hs]
  cases call with
  | set c => by_cases hd : d = c <;> simp [modeSet, ModeCall.mode, hd, ← hmem]
  | remove c => by_cases hd : d = c <;> simp [modeSet, ModeCall.mode, hd, ← hmem]

theorem lastSuccess_cons (modes : List Byte) (call : ModeCall) (rc : Int) (tr : ModesHistory)
    (c : Byte) : lastSuccess ((modes, call, rc) :: tr) c =
      if call.mode = c ∧ rc = 0 then some call else lastSuccess tr c := by
  rw [lastSuccess, List.findSome?_cons]
  by_cases h : call.mode = c ∧ rc = 0
  · simp only [if_pos h]
  · simp only [if_neg h]
    rfl

namespace ModesHeld

theorem room {modes : List Byte} {l : ModeCall × Int} (H : ModesHeld tr modes s)
    (hfits : ModeCall.Fits tr modes l) : (l.1.apply s).length < modes.length := by
  have hcard := hfits.2
  rw [← modeSet_cons l.1 H.nodup H.set,
    List.toFinset_card_of_nodup (l.1.nodup_apply H.nodup)] at hcard
  rw [H.length]
  omega

theorem step {modes modes' : List Byte} {call : ModeCall} (H : ModesHeld tr modes s)
    (hstr : HoldsStr modes' (call.apply s)) (hlen : modes'.length = modes.length) :
    ModesHeld ((modes, call, if call.Idle s then 1 else 0) :: tr) modes' (call.apply s) := by
  refine ⟨hstr, call.nodup_apply H.nodup, modeSet_cons call H.nodup H.set, fun c => ?_,
    hlen.trans H.length⟩
  rw [lastSuccess_cons, ModeCall.mem_apply H.nodup]
  have hlast := H.last c
  by_cases hc : c = call.mode
  · subst hc
    cases call with
    | set c => by_cases hmem : c ∈ s <;> simp_all [ModeCall.Idle, ModeCall.mode]
    | remove c => by_cases hmem : c ∈ s <;> simp_all [ModeCall.Idle, ModeCall.mode]
  · simp [hc, Ne.symm hc, hlast]

end ModesHeld

theorem Run.modesHeld {modes : List Byte} (hrun : modesArray.Run tr modes)
    (hfits : AllSteps ModeCall.Fits tr) : ∃ s, ModesHeld tr modes s := by
  refine TransitionSystem.Run.invariant_of_allSteps
    (P := fun tr modes => ∃ s, ModesHeld tr modes s) ?_ ?_ hrun hfits
  · rintro modes ⟨hlen, hempty⟩
    cases modes with
    | nil => cases hempty
    | cons b rest =>
      cases hempty
      exact ⟨[], ⟨by simp, rest, rfl⟩, List.nodup_nil, rfl, by simp [lastSuccess], hlen⟩
  · rintro tr modes ⟨call, rc⟩ modes' - ⟨s, H⟩ hfits hstep
    have hnul : call.mode ≠ NUL := hfits.1
    have hroom : (call.apply s).length < modes.length := H.room hfits
    obtain ⟨modes'', hrun, hstr, hlen, -⟩ := ModeCall.run_correct H.str H.nodup hnul hroom
    obtain ⟨rfl, rfl⟩ := Prod.mk.inj (Except.ok.inj (hrun.symm.trans hstep))
    exact ⟨_, H.step hstr hlen⟩

theorem ModesHeld.correct {modes : List Byte} (H : ModesHeld tr modes s) :
    IsModeSet tr modes ∧ ∀ call, ModeCall.Fits tr modes (call, 0) →
      ∃ modes' rc, call.run modes = .ok (modes', rc) ∧ call.Correct modes modes' rc := by
  constructor
  · refine ⟨H.str.cstrAt_eq ▸ H.nodup, fun c hc => ?_⟩
    rw [H.str.hasMode_eq hc]
    simp [H.last]
  · intro call hcall
    obtain ⟨modes', hrun, -, -, hcorrect⟩ :=
      ModeCall.run_correct H.str H.nodup hcall.1 (H.room hcall)
    exact ⟨modes', _, hrun, hcorrect⟩

/-- **A modes array is a finite set**, as long as no more than nine modes are set at once: the
string is the set without repetition, and the next call succeeds and does what it should. -/
theorem isModeSet_correct {modes : List Byte} (hrun : modesArray.Run tr modes)
    (hfits : AllSteps ModeCall.Fits tr) :
    IsModeSet tr modes ∧ ∀ call, ModeCall.Fits tr modes (call, 0) →
      ∃ modes' rc, call.run modes = .ok (modes', rc) ∧ call.Correct modes modes' rc := by
  obtain ⟨s, H⟩ := Run.modesHeld hrun hfits
  exact H.correct

/-- The empty string in an array whose other bytes were never written. -/
def noModes : List Byte := NUL :: List.replicate 9 255

/-- The modes `o` and `v` are set, and `o` is removed again. -/
def opThenVoice : ModesHistory :=
  [(lit "ov" ++ NUL :: List.replicate 7 255, .remove (111 : Byte), 0),
    (lit "o" ++ NUL :: List.replicate 8 255, .set (118 : Byte), 0), (noModes, .set (111 : Byte), 0)]

theorem isModeSet_opThenVoice :
    modesArray.Run opThenVoice (lit "v" ++ NUL :: NUL :: List.replicate 7 255) ∧
      AllSteps ModeCall.Fits opThenVoice ∧
      IsModeSet opThenVoice (lit "v" ++ NUL :: NUL :: List.replicate 7 255) := by
  have hrun : modesArray.Run opThenVoice (lit "v" ++ NUL :: NUL :: List.replicate 7 255) := by
    refine .cons (.cons (.cons (.nil ⟨rfl, rfl⟩) ?_) ?_) ?_
    · decide +kernel
    · decide +kernel
    · decide +kernel
  have hfits : AllSteps ModeCall.Fits opThenVoice := by decide +kernel
  exact ⟨hrun, hfits, (isModeSet_correct hrun hfits).1⟩

/-! ## The structs with modes -/

/-- The functions of a kind of struct that has an array of modes. -/
structure ModesOf (α : Type) where
  modes : α → List Byte
  put : α → List Byte → α
  init : List Byte → α
  has : α → Byte → Res Int
  set : α → Byte → Res (α × Int)
  remove : α → Byte → Res (α × Int)

namespace ModesOf

/-- The functions do what `has_mode`, `set_mode` and `remove_mode` do to the array, and leave the
other fields alone. -/
structure Delegates (S : ModesOf α) : Prop where
  modes_put : ∀ x mem, S.modes (S.put x mem) = mem
  modes_init : ∀ mem, S.modes (S.init mem) = mem.set 0 NUL
  has_eq : ∀ x mode, S.has x mode = hasMode (S.modes x) mode
  set_eq : ∀ x mode, S.set x mode = (setMode (S.modes x) mode).map fun r => (S.put x r.1, r.2)
  remove_eq : ∀ x mode,
    S.remove x mode = (removeMode (S.modes x) mode).map fun r => (S.put x r.1, r.2)

def user : ModesOf User where
  modes := User.modes
  put user modes := { user with modes := modes }
  init := chircUserInit
  has := chircUserHasMode
  set := chircUserSetMode
  remove := chircUserRemoveMode

def channel : ModesOf Channel where
  modes := Channel.modes
  put channel modes := { channel with modes := modes }
  init := chircChannelInit
  has := chircChannelHasMode
  set := chircChannelSetMode
  remove := chircChannelRemoveMode

def channeluser : ModesOf ChannelUser where
  modes := ChannelUser.modes
  put channeluser modes := { channeluser with modes := modes }
  init := chircChanneluserInit
  has := chircChanneluserHasMode
  set := chircChanneluserSetMode
  remove := chircChanneluserRemoveMode

theorem bind_eq_map (x : Res (List Byte × Int)) (put : List Byte → α) :
    (do let (modes, rc) ← x; return (put modes, rc)) = x.map fun r => (put r.1, r.2) := by
  cases x <;> rfl

theorem user_delegates : user.Delegates where
  modes_put _ _ := rfl
  modes_init _ := rfl
  has_eq _ _ := rfl
  set_eq x mode := bind_eq_map (setMode x.modes mode) (user.put x)
  remove_eq x mode := bind_eq_map (removeMode x.modes mode) (user.put x)

theorem channel_delegates : channel.Delegates where
  modes_put _ _ := rfl
  modes_init _ := rfl
  has_eq _ _ := rfl
  set_eq x mode := bind_eq_map (setMode x.modes mode) (channel.put x)
  remove_eq x mode := bind_eq_map (removeMode x.modes mode) (channel.put x)

theorem channeluser_delegates : channeluser.Delegates where
  modes_put _ _ := rfl
  modes_init _ := rfl
  has_eq _ _ := rfl
  set_eq x mode := bind_eq_map (setMode x.modes mode) (channeluser.put x)
  remove_eq x mode := bind_eq_map (removeMode x.modes mode) (channeluser.put x)

variable {S : ModesOf α}

/-- A call on a struct. -/
def run (S : ModesOf α) (x : α) : ModeCall → Res (α × Int)
  | .set mode => S.set x mode
  | .remove mode => S.remove x mode

/-- The uses of the modes of one struct. -/
def system (S : ModesOf α) : TransitionSystem α (ModeCall × Int) where
  init x := ∃ mem, mem.length = 10 ∧ x = S.init mem
  step x l x' := S.run x l.1 = .ok (x', l.2)

/-- What happened to the array of a struct. -/
def history (S : ModesOf α) (tr : List (α × ModeCall × Int)) : ModesHistory :=
  tr.map fun e => (S.modes e.1, e.2)

theorem Delegates.run_eq (H : S.Delegates) (x : α) (call : ModeCall) :
    S.run x call = (call.run (S.modes x)).map fun r => (S.put x r.1, r.2) := by
  cases call with
  | set mode => exact H.set_eq x mode
  | remove mode => exact H.remove_eq x mode

theorem Delegates.run_history (H : S.Delegates) (hrun : S.system.Run tr x) :
    modesArray.Run (S.history tr) (S.modes x) := by
  refine TransitionSystem.Run.map (f := S.modes) (g := id) ?_ ?_ hrun
  · rintro _ ⟨mem, hlen, rfl⟩
    rw [H.modes_init]
    refine ⟨by rw [List.length_set, hlen], ?_⟩
    cases mem with
    | nil => cases hlen
    | cons b mem => rfl
  · intro x l x' hstep
    have hrun : S.run x l.1 = .ok (x', l.2) := hstep
    rw [H.run_eq] at hrun
    obtain ⟨⟨modes', rc⟩, hcall, heq⟩ := Res.map_eq_ok.mp hrun
    obtain ⟨rfl, rfl⟩ := Prod.mk.inj heq
    rw [H.modes_put]
    exact hcall

/-- The modes of a struct are a finite set, as long as no more than nine are set at once, and the
calls change nothing else in the struct. -/
theorem Delegates.correct (H : S.Delegates) (hrun : S.system.Run tr x)
    (hfits : AllSteps ModeCall.Fits (S.history tr)) :
    (∀ c, c ≠ NUL →
      S.has x c = .ok (if lastSuccess (S.history tr) c = some (.set c) then 1 else 0)) ∧
    ∀ call, ModeCall.Fits (S.history tr) (S.modes x) (call, 0) →
      ∃ modes' rc, S.run x call = .ok (S.put x modes', rc) ∧
        call.Correct (S.modes x) modes' rc := by
  obtain ⟨s, hheld⟩ := Run.modesHeld (H.run_history hrun) hfits
  obtain ⟨hset, hcalls⟩ := hheld.correct
  refine ⟨fun c hc => (H.has_eq x c).trans (hset.has c hc), fun call hcall => ?_⟩
  obtain ⟨modes', rc, hrun', hcorrect⟩ := hcalls call hcall
  refine ⟨modes', rc, ?_, hcorrect⟩
  rw [H.run_eq, hrun']
  rfl

end ModesOf

end Chirc
