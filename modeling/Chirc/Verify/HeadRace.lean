import Chirc.Verify.NameRace

/-! # Threads that start a list

`nick_head` and `user_head` are tested for NULL and assigned in different steps, and no mutex is
held. A name is lost if a head is assigned after another thread has set it; otherwise no name is. -/

namespace Chirc

open ThreadProgram

/-- The next step assigns the head of a list. -/
def Pc.setsHead : Pc → Bool
  | .setHead _ => true
  | _ => false

/-- The node that the next step adds to a list. -/
def Pc.stored : Pc → Option UserNode
  | .setHead node | .add _ node => some node
  | _ => none

/-- The name that an action adds to the list `s`. -/
def insertedBy (s : Side) : Act Branch Nat → Option CStr
  | .start _ _ => none
  | .step _ k => if k.req.side = s then k.pc.stored.map (·.name) else none

/-- The names that the threads have added to the list `s`. -/
def inserted (s : Side) (tr : BranchHistory) : List CStr :=
  tr.filterMap fun step => insertedBy s step.2

/-- `find_user_node` finds the names that were on the list `s` to begin with, and those added. -/
def Kept (sh₀ : Shared) (s : Side) (tr : BranchHistory) (sh : Shared) : Prop :=
  ∀ n, n ∈ names (sh₀.list s) ∨ n ∈ inserted s tr → findUserNode (sh.list s) n ≠ none

/-- The head of the list `s` is only assigned while it is still NULL. -/
def HeadUnset (s : Side) (_ : BranchHistory) (c : Conf Shared Branch Nat) : Act Branch Nat → Prop
  | .start _ _ => True
  | .step _ k => k.pc.setsHead ∧ k.req.side = s → c.shared.head s = none

instance HeadUnset.decidable {s : Side} {tr : BranchHistory} {c : Conf Shared Branch Nat} :
    ∀ l, Decidable (HeadUnset s tr c l)
  | .start _ _ => .isTrue trivial
  | .step _ _ => inferInstanceAs (Decidable (_ → _))

section
variable {sh₀ sh sh' : Shared} {s : Side}

/-! ## What the threads know -/

/-- What a thread knows whatever the others do: a head is only assigned if the list was empty to
begin with, and the node that a name is added behind is not on the other list. -/
def Branch.Placed (sh₀ sh : Shared) (k : Branch) : Prop :=
  match k.pc with
  | .setHead _ => sh₀.head k.req.side = none
  | .add (some i) _ => i < sh.lists.length ∧ sh.head k.req.side.other ≠ some i
  | _ => True

/-- Heads are not reset. -/
structure Shared.Extends (sh₀ sh : Shared) : Prop where
  wf : sh.Wf
  unset : ∀ s, sh.head s = none → sh₀.head s = none

theorem Shared.Extends.step {k : Branch} {o : Option Pc} (H : sh₀.Extends sh)
    (h : k.req.Steps sh k.pc sh' o) : sh₀.Extends sh' := by
  refine ⟨h.wf H.wf, fun s hhead => H.unset s ?_⟩
  rcases h.head_cases s with hsame | ⟨-, hsome, -⟩
  · rw [← hsame, hhead]
  · rw [hsome] at hhead
    cases hhead

theorem Request.Steps.placed {r : Request} {pc pc' : Pc} (H : sh₀.Extends sh)
    (h : r.Steps sh pc sh' (some pc')) : Branch.Placed sh₀ sh' ⟨r, pc'⟩ := by
  cases h with
  | testNull hhead => exact H.unset _ hhead
  | readTail =>
    rw [Branch.Placed]
    cases hhead : sh.head r.side with
    | none => trivial
    | some i => exact ⟨H.wf.valid _ _ hhead, H.wf.disjoint _ _ hhead⟩
  | _ => trivial

theorem Branch.Placed.step {k k₂ : Branch} {o : Option Pc} (h : k.req.Steps sh k.pc sh' o)
    (hk₂ : k₂.Placed sh₀ sh) : k₂.Placed sh₀ sh' := by
  obtain ⟨r₂, pc₂⟩ := k₂
  cases pc₂ with
  | add head node =>
    cases head with
    | none => trivial
    | some i =>
      obtain ⟨hlt, hne⟩ := hk₂
      refine ⟨Nat.lt_of_lt_of_le hlt h.lists_le, ?_⟩
      rcases h.head_cases r₂.side.other with hsame | ⟨-, hnew, -⟩
      · rwa [hsame]
      · rw [hnew]
        rintro ⟨⟩
        exact Nat.lt_irrefl _ hlt
  | setHead node => exact hk₂
  | _ => trivial

/-- Of the threads in the branches, whatever the interleaving. -/
def placedOutline (hwf : sh₀.Wf) :
    Outline (registration fun _ => True) (· = sh₀) (fun _ _ _ => True) where
  inv := sh₀.Extends
  assert := Branch.Placed sh₀
  apart _ _ := True
  symm _ := trivial
  inv_init {sh} h := by
    subst h
    exact ⟨hwf, fun _ => id⟩
  assert_start {sh k} _ hk := by
    rw [Branch.Placed, hk.2, Request.first]
    cases k.req.side <;> trivial
  apart_start _ := trivial
  step_own H _ hstep := by
    obtain ⟨o', hsteps, rfl⟩ := registration_steps hstep
    refine ⟨H.step hsteps, fun k' h => ?_⟩
    obtain ⟨pc', rfl, rfl⟩ := Option.map_eq_some_iff.mp h
    exact hsteps.placed H
  step_other _ _ hk₂ _ _ hstep := by
    obtain ⟨o', hsteps, -⟩ := registration_steps hstep
    exact ⟨hk₂.step hsteps, fun _ _ => trivial⟩

/-- What a thread knows if no thread assigns the head of the list `s` again: it adds its node to
the list that the head points to. -/
def Branch.Aims (s : Side) (sh : Shared) (k : Branch) : Prop :=
  k.req.side = s →
  match k.pc with
  | .readTail _ => sh.head s ≠ none
  | .add h _ => h ≠ none ∧ sh.head s = h
  | _ => True

theorem Request.Steps.aims {r : Request} {pc pc' : Pc} (hk : Branch.Aims s sh ⟨r, pc⟩)
    (h : r.Steps sh pc sh' (some pc')) : Branch.Aims s sh' ⟨r, pc'⟩ := by
  rintro rfl
  cases h with
  | testSet hhead => exact hhead
  | readTail => exact ⟨hk rfl, rfl⟩
  | _ => trivial

theorem Branch.Aims.step {k k₂ : Branch} {o : Option Pc} (h : k.req.Steps sh k.pc sh' o)
    (hunset : k.pc.setsHead ∧ k.req.side = s → sh.head s = none) (hk₂ : k₂.Aims s sh) :
    k₂.Aims s sh' := by
  intro hside
  have hk₂ := hk₂ hside
  obtain ⟨r₂, pc₂⟩ := k₂
  rcases h.head_cases s with hsame | ⟨hs, -, node, hpc⟩
  · cases pc₂ with
    | readTail => rwa [hsame]
    | add => rwa [hsame]
    | _ => trivial
  · have hnone := hunset ⟨by rw [hpc, Pc.setsHead], hs⟩
    cases pc₂ with
    | readTail => exact absurd hnone hk₂
    | add => exact absurd (hk₂.2.symm.trans hnone) hk₂.1
    | _ => trivial

/-- Of the threads in the branches, if the head of the list `s` is not assigned again. -/
def aimsOutline (s : Side) (sh₀ : Shared) : Outline (registration fun _ => True) (· = sh₀)
    (fun sh k _ => k.pc.setsHead ∧ k.req.side = s → sh.head s = none) where
  inv _ := True
  assert := Branch.Aims s
  apart _ _ := True
  symm _ := trivial
  inv_init _ := trivial
  assert_start {sh k} _ hk := by
    rintro rfl
    rw [hk.2, Request.first]
    cases k.req.side <;> trivial
  apart_start _ := trivial
  step_own _ hk hstep := by
    obtain ⟨o', hsteps, rfl⟩ := registration_steps hstep
    refine ⟨trivial, fun k' h => ?_⟩
    obtain ⟨pc', rfl, rfl⟩ := Option.map_eq_some_iff.mp h
    exact hsteps.aims hk
  step_other _ _ hk₂ _ hunset hstep := by
    obtain ⟨o', hsteps, -⟩ := registration_steps hstep
    exact ⟨hk₂.step hsteps hunset, fun _ _ => trivial⟩

/-! ## What an action does to a list -/

/-- An action leaves the list `s` alone, begins it, or adds a node at its end or behind a node that
is not on it any more. -/
inductive Changes (s : Side) (sh₀ sh : Shared) (l : Act Branch Nat) (sh' : Shared) : Prop
  | keeps : insertedBy s l = none → (∀ tr threads, HeadUnset s tr ⟨sh, threads⟩ l) →
    sh'.head s = sh.head s → sh'.list s = sh.list s → Changes s sh₀ sh l sh'
  | begins {node} : insertedBy s l = some node.name →
    (∀ tr threads, HeadUnset s tr ⟨sh, threads⟩ l ↔ sh.head s = none) → sh₀.head s = none →
    sh'.head s ≠ none → sh'.list s = [node] → Changes s sh₀ sh l sh'
  | adds {node} : insertedBy s l = some node.name → (∀ tr threads, HeadUnset s tr ⟨sh, threads⟩ l) →
    (∀ t k, l = .step t k → k.Aims s sh → sh.head s = some i) → sh'.head s = sh.head s →
    sh'.list s = (if sh.head s = some i then addUserNode (sh.list s) node else sh.list s) →
    Changes s sh₀ sh l sh'

theorem Request.Steps.changes {k : Branch} {o : Option Pc} (H : sh₀.Extends sh)
    (hk : k.Placed sh₀ sh) (h : k.req.Steps sh k.pc sh' o) (t : Nat) :
    Changes s sh₀ sh (.step t k) sh' := by
  obtain ⟨r, pc⟩ := k
  have hother (hs : r.side = s.other) : insertedBy s (.step t ⟨r, pc⟩) = none ∧
      ∀ tr threads, HeadUnset s tr ⟨sh, threads⟩ (.step t ⟨r, pc⟩) := by
    have hne : r.side ≠ s := by
      rw [hs]
      exact s.ne_other.symm
    exact ⟨if_neg hne, fun _ _ h => absurd h.2 hne⟩
  have hquiet (hpc : pc.stored = none) (hset : pc.setsHead = false)
      (hhead : sh'.head s = sh.head s) (hlist : sh'.list s = sh.list s) :
      Changes s sh₀ sh (.step t ⟨r, pc⟩) sh' := by
    refine .keeps ?_ (fun _ _ h => ?_) hhead hlist
    · simp [insertedBy, hpc]
    · exact absurd h.1 (Bool.eq_false_iff.mp hset)
  cases h with
  | @setHead node =>
    rcases s.eq_or_eq_other r.side with rfl | hs
    · refine .begins (if_pos rfl) (fun _ _ => ⟨fun h => h ⟨rfl, rfl⟩, fun h _ => h⟩) hk ?_
        (Shared.list_setHead_self _ _)
      rw [Shared.head_setHead_self]
      exact Option.some_ne_none _
    · obtain ⟨hnone, hunset⟩ := hother hs
      obtain rfl : s = r.side.other := by rw [hs, Side.other_other]
      exact .keeps hnone hunset (Shared.head_setHead_other _ _)
        (Shared.list_setHead_other H.wf _ _)
  | @add i node =>
    rcases s.eq_or_eq_other r.side with rfl | hs
    · refine .adds (i := i) (if_pos rfl) (fun _ _ h => absurd h.1 Bool.false_ne_true) ?_
        (Shared.head_addTo _ _ _) ?_
      · rintro _ _ ⟨⟩ haims
        exact (haims rfl).2
      · split
        · next hhead => exact Shared.list_addTo_self H.wf hhead node
        · next hhead => exact Shared.list_addTo_of_ne hhead node
    · obtain ⟨hnone, hunset⟩ := hother hs
      obtain rfl : s = r.side.other := by rw [hs, Side.other_other]
      exact .keeps hnone hunset (Shared.head_addTo _ _ _) (Shared.list_addTo_of_ne hk.2 node)
  | addConnection => exact hquiet rfl rfl (by cases s <;> rfl) (by cases s <;> rfl)
  | sendWelcome => exact hquiet rfl rfl (by cases s <;> rfl) (by cases s <;> rfl)
  | addSockfdNick => exact hquiet rfl rfl (by cases s <;> rfl) (by cases s <;> rfl)
  | _ => exact hquiet rfl rfl rfl rfl

/-- A name that is on the list afterwards was there before, or has been added. -/
theorem Changes.mem {l : Act Branch Nat} (h : Changes s sh₀ sh l sh')
    (hmem : n ∈ names (sh'.list s)) : n ∈ names (sh.list s) ∨ insertedBy s l = some n := by
  cases h with
  | keeps _ _ _ hlist => exact .inl (hlist ▸ hmem)
  | @begins node hby _ _ _ hlist =>
    rw [hlist] at hmem
    obtain rfl : n = node.name := by simpa [names] using hmem
    exact .inr hby
  | @adds i node hby _ _ _ hlist =>
    rw [hlist] at hmem
    split at hmem
    · rw [names_addUserNode, List.mem_append, List.mem_singleton] at hmem
      rcases hmem with hold | rfl
      · exact .inl hold
      · exact .inr hby
    · exact .inl hmem

end

/-! ## Every run -/

section
variable {sh₀ : Shared} {s : Side} {tr : BranchHistory} {c c' : Conf Shared Branch Nat}
  {l : Act Branch Nat}

theorem inserted_cons_none (h : insertedBy s l = none) :
    inserted s ((c, l) :: tr) = inserted s tr :=
  List.filterMap_cons_none h

theorem inserted_cons_some (h : insertedBy s l = some n) :
    inserted s ((c, l) :: tr) = n :: inserted s tr :=
  List.filterMap_cons_some h

theorem kept_iff {sh : Shared} : Kept sh₀ s tr sh ↔
    ∀ n, n ∈ names (sh₀.list s) ∨ n ∈ inserted s tr → n ∈ names (sh.list s) := by
  simp only [Kept, ne_eq, findUserNode_eq_none, not_not]

theorem registration_changes (hwf : sh₀.Wf)
    (hrun : ((registration fun _ => True).system (· = sh₀)).Run tr c)
    (hstep : ((registration fun _ => True).system (· = sh₀)).step c l c') :
    Changes s sh₀ c.shared l c'.shared := by
  cases l with
  | start t k =>
    obtain ⟨-, -, rfl⟩ := hstep
    exact .keeps rfl (fun _ _ => trivial) rfl rfl
  | step t k =>
    obtain ⟨hk, sh', o, hstep, rfl⟩ := hstep
    obtain ⟨o', hsteps, -⟩ := registration_steps hstep
    have H := (placedOutline hwf).holds hrun (TransitionSystem.allSteps_of_forall (fun _ _ l => by
      cases l with
      | start => trivial
      | step => exact fun _ _ _ _ => trivial) tr)
    exact hsteps.changes H.inv (H.assert t k hk) t

/-- A head that is set has been set by a thread, if the list was empty to begin with. -/
theorem inserted_ne_nil (hwf : sh₀.Wf) (hempty : sh₀.head s = none)
    (hrun : ((registration fun _ => True).system (· = sh₀)).Run tr c)
    (hhead : c.shared.head s ≠ none) : inserted s tr ≠ [] := by
  induction hrun with
  | nil h =>
    rw [h.1] at hhead
    exact absurd hempty hhead
  | cons hrun hstep ih =>
    cases registration_changes (s := s) hwf hrun hstep with
    | keeps hby _ hsame _ =>
      rw [inserted_cons_none hby]
      exact ih (hsame ▸ hhead)
    | begins hby =>
      rw [inserted_cons_some hby]
      exact List.cons_ne_nil _ _
    | adds hby =>
      rw [inserted_cons_some hby]
      exact List.cons_ne_nil _ _

/-- No name is lost while the head is only assigned to begin the list. -/
theorem kept_of_headUnset (hwf : sh₀.Wf)
    (hrun : ((registration fun _ => True).system (· = sh₀)).Run tr c)
    (hunset : TransitionSystem.AllSteps (HeadUnset s) tr) : Kept sh₀ s tr c.shared := by
  rw [kept_iff]
  induction hrun with
  | nil h =>
    rw [h.1]
    exact fun n hn => hn.resolve_right List.not_mem_nil
  | @cons tr c l c' hrun hstep ih =>
    have ih := ih hunset.2
    cases registration_changes (s := s) hwf hrun hstep with
    | keeps hby _ _ hlist =>
      rw [inserted_cons_none hby, hlist]
      exact ih
    | begins hby hthis _ _ hlist =>
      -- the list was empty, so there is no name to lose
      have hnone := (hthis tr c.threads).mp hunset.1
      rw [Shared.list_of_head_none hnone] at ih
      rw [inserted_cons_some hby, hlist]
      intro n hn
      rw [List.mem_cons] at hn
      rcases hn with hold | rfl | hold
      · exact absurd (ih n (.inl hold)) List.not_mem_nil
      · exact List.mem_singleton_self _
      · exact absurd (ih n (.inr hold)) List.not_mem_nil
    | @adds i node hby _ haims _ hlist =>
      have hhead : c.shared.head s = some i := by
        cases l with
        | start t k => cases hby
        | step t k =>
          have H := (aimsOutline s sh₀).holds hrun (hunset.2.mono fun _ _ l h => by
            cases l with
            | start => trivial
            | step => exact fun _ _ _ _ => h)
          exact haims t k rfl (H.assert t k hstep.1)
      rw [inserted_cons_some hby, hlist, if_pos hhead, names_addUserNode]
      intro n hn
      rw [List.mem_cons] at hn
      rw [List.mem_append, List.mem_singleton]
      rcases hn with hold | rfl | hold
      · exact .inl (ih n (.inl hold))
      · exact .inr rfl
      · exact .inl (ih n (.inr hold))

/-- A list that is not empty to begin with keeps its head. -/
theorem headUnset_of_head (hwf : sh₀.Wf) (hhead : sh₀.head s ≠ none)
    (hrun : ((registration fun _ => True).system (· = sh₀)).Run tr c) :
    TransitionSystem.AllSteps (HeadUnset s) tr := by
  induction hrun with
  | nil => trivial
  | @cons tr c l c' hrun hstep ih =>
    refine ⟨?_, ih⟩
    cases registration_changes (s := s) hwf hrun hstep with
    | keeps _ hunset => exact hunset tr c.threads
    | begins _ _ hnone => exact absurd hnone hhead
    | adds _ hunset => exact hunset tr c.threads

theorem headUnset_of_kept (hwf : sh₀.Wf) (hempty : sh₀.head s = none)
    (hrun : ((registration fun _ => True).system (· = sh₀)).Run tr c)
    (hdistinct : (inserted s tr).Nodup) (hkept : Kept sh₀ s tr c.shared) :
    TransitionSystem.AllSteps (HeadUnset s) tr := by
  rw [kept_iff] at hkept
  induction hrun with
  | nil => trivial
  | @cons tr c l c' hrun hstep ih =>
    have hchanges := registration_changes (s := s) hwf hrun hstep
    -- a name that is lost is not added again
    have hbefore : ∀ n, n ∈ inserted s tr → insertedBy s l ≠ some n := by
      intro n hn hby
      rw [inserted_cons_some hby] at hdistinct
      exact (List.nodup_cons.mp hdistinct).1 hn
    have hsub : (inserted s tr).Sublist (inserted s ((c, l) :: tr)) :=
      (List.sublist_cons_self _ _).filterMap _
    refine ⟨?_, ih (hdistinct.sublist hsub) fun n hn => ?_⟩
    · cases hchanges with
      | keeps _ hunset => exact hunset tr c.threads
      | adds _ hunset => exact hunset tr c.threads
      | @begins node hby hunset _ _ hlist =>
        refine (hunset tr c.threads).mpr ?_
        by_contra hhead
        obtain ⟨n, hn⟩ := List.exists_mem_of_ne_nil _ (inserted_ne_nil hwf hempty hrun hhead)
        have hmem := hkept n (.inr (hsub.mem hn))
        rw [hlist] at hmem
        obtain rfl : n = node.name := by simpa [names] using hmem
        exact hbefore _ hn hby
    · rw [Shared.list_of_head_none hempty] at hn
      have hn := hn.resolve_left List.not_mem_nil
      exact (hchanges.mem (hkept n (.inr (hsub.mem hn)))).resolve_right (hbefore n hn)

/-- **No name is lost** from a list to which different names are added, exactly if its head is only
assigned while it is still NULL. -/
theorem kept_iff_headUnset (hwf : sh₀.Wf)
    (hrun : ((registration fun _ => True).system (· = sh₀)).Run tr c) (s : Side)
    (hdistinct : (inserted s tr).Nodup) :
    Kept sh₀ s tr c.shared ↔ TransitionSystem.AllSteps (HeadUnset s) tr := by
  refine ⟨fun hkept => ?_, kept_of_headUnset hwf hrun⟩
  cases hhead : sh₀.head s with
  | none => exact headUnset_of_kept hwf hhead hrun hdistinct hkept
  | some i => exact headUnset_of_head hwf (by rw [hhead]; exact Option.some_ne_none i) hrun

end

/-- `NICK bob` on descriptor 5 -/
def nickOfBob : Request where
  side := .nick
  fd := 5
  msg := ⟨none, lit "NICK", [lit "bob"], false, none⟩
  name := lit "bob"
  command_eq := by decide
  name_eq := rfl
  alone _ := rfl

/-- One after the other -/
def amyThenBob : List (Turn Branch Nat) :=
  .start 0 ⟨nickOfAmy, .findConnection⟩ :: List.replicate 7 (.step 0) ++
    .start 1 ⟨nickOfBob, .findConnection⟩ :: List.replicate 8 (.step 1)

theorem run_of_followsTo_empty {ms : List (Turn Branch Nat)}
    {p : BranchHistory → Conf Shared Branch Nat → Bool}
    (h : (registration fun _ => True).followsTo Shared.empty ms p = true) :
    ∃ tr c, ((registration fun _ => True).system (· = Shared.empty)).Run tr c ∧ p tr c = true :=
  run_of_followsTo rfl h

theorem kept_amyThenBob : ∃ (tr : BranchHistory) (c : Conf Shared Branch Nat),
    ((registration fun _ => True).system (· = Shared.empty)).Run tr c ∧
      inserted .nick tr = [lit "bob", lit "amy"] ∧ Kept Shared.empty .nick tr c.shared := by
  have hfollows : (registration fun _ => True).followsTo Shared.empty amyThenBob
      (fun tr _ => TransitionSystem.AllSteps (HeadUnset .nick) tr ∧
        inserted .nick tr = [lit "bob", lit "amy"]) = true := by decide +kernel
  obtain ⟨tr, c, hrun, h⟩ := run_of_followsTo_empty hfollows
  obtain ⟨hunset, hinserted⟩ := of_decide_eq_true h
  have hdistinct : (inserted .nick tr).Nodup := by
    rw [hinserted]
    decide
  have hwf := (Shared.empty_ready (lit "amy")).wf
  exact ⟨tr, c, hrun, hinserted, (kept_iff_headUnset hwf hrun .nick hdistinct).mpr hunset⟩

/-- Both find the head NULL before either assigns it. -/
def amyWithBob : List (Turn Branch Nat) :=
  .start 0 ⟨nickOfAmy, .findConnection⟩ :: .start 1 ⟨nickOfBob, .findConnection⟩ ::
    List.replicate 4 (.step 0) ++ List.replicate 4 (.step 1) ++
    [.step 0, .step 1, .step 0, .step 1, .step 0, .step 1]

/-- Then the second assignment loses the first name. Both threads have finished. -/
theorem kept_lostAmy : ∃ (tr : BranchHistory) (c : Conf Shared Branch Nat),
    ((registration fun _ => True).system (· = Shared.empty)).Run tr c ∧
      (∀ t, c.threads t = none) ∧ (∀ s, (inserted s tr).Nodup) ∧
      lit "amy" ∈ inserted .nick tr ∧
      findUserNode (c.shared.list .nick) (lit "amy") = none ∧
      ¬ Kept Shared.empty .nick tr c.shared := by
  have hfollows : (registration fun _ => True).followsTo Shared.empty amyWithBob
      (fun tr c => TransitionSystem.AllSteps (UndisturbedAmong [0, 1] fun _ _ _ => True) tr ∧
        (c.threads 0).isNone ∧ (c.threads 1).isNone ∧
        inserted .nick tr = [lit "bob", lit "amy"] ∧ inserted .user tr = [] ∧
        findUserNode (c.shared.list .nick) (lit "amy") = none) = true := by decide +kernel
  obtain ⟨tr, c, hrun, h⟩ := run_of_followsTo_empty hfollows
  obtain ⟨hamong, h₀, h₁, hnick, huser, hlost⟩ := of_decide_eq_true h
  have hamy : lit "amy" ∈ inserted .nick tr := by
    rw [hnick]
    decide
  refine ⟨tr, c, hrun, fun t => ?_, fun s => ?_, hamy, hlost, fun hkept => ?_⟩
  · by_cases ht : t ∈ [0, 1]
    · rcases List.mem_pair.mp ht with rfl | rfl
      · exact Option.isNone_iff_eq_none.mp h₀
      · exact Option.isNone_iff_eq_none.mp h₁
    · exact (allSteps_undisturbed hrun hamong).2 t ht
  · cases s with
    | nick =>
      rw [hnick]
      decide
    | user =>
      rw [huser]
      exact List.nodup_nil
  · exact hkept _ (.inr hamy) hlost

end Chirc
