import Chirc.Server.SharedLists
import Chirc.Verify.Alone
import Chirc.Verify.Branches
import Chirc.Verify.Deletion
import Chirc.Verify.Received
import Chirc.Verify.Taken

/-! # The lists of the server on the heap

The server keeps `nick_head` and `user_head` as lists of names. On the heap the nodes of both lists
are allocated one by one and linked; whatever the server does, this goes well, a lookup finds the
node that it finds in the list, and the end of `chirc_run` frees each node once. -/

namespace Chirc

open LinkedList

/-! ## Single calls -/

section

variable {heap : Heap ν} {head : Option Nat} {l : List (Nat × ν)}

theorem lastLoop_last (hp : heap p = some ⟨v, none⟩) :
    lastLoop heap ((), some p) = .ok (.inl (some p)) := by
  rw [lastLoop, load_eq hp]
  rfl

theorem lastLoop_pass (hp : heap p = some ⟨v, some q⟩) :
    lastLoop heap ((), some p) = .ok (.inr ((), some q)) := by
  rw [lastLoop, load_eq hp]
  rfl

/-- The loop is left at the last node. -/
theorem lastLoop_ends (H : Segment heap head l none) :
    While.Ends (lastLoop heap) ((), head) (.ok (l.getLast?.map Prod.fst)) := by
  induction l generalizing head with
  | nil =>
    cases H with
    | nil => exact .leave rfl
  | cons node l ih =>
    cases H with
    | cons hp rest =>
      cases l with
      | nil =>
        cases rest with
        | nil => exact .leave (lastLoop_last hp)
      | cons node' l =>
        have hq := rest.head_ne
        subst hq
        rw [List.getLast?_cons_cons]
        exact .next (lastLoop_pass hp) (ih rest)

theorem lastLoop_iff (H : Segment heap head l none) {r : Res (Option Nat)} :
    While.Ends (lastLoop heap) ((), head) r ↔ r = .ok (l.getLast?.map Prod.fst) := by
  constructor
  · intro h
    exact h.unique (lastLoop_ends H)
  · intro h
    rw [h]
    exact lastLoop_ends H

/-- A node is linked behind the last one. -/
theorem appendsNode_iff (H : Segment heap head (l ++ [(a, u)]) none) (node : Nat)
    {r : Res (Heap ν)} : AppendsNode heap head node r ↔ r = .ok (heap.setNext a (some node)) := by
  have hlast : (l ++ [(a, u)]).getLast?.map Prod.fst = some a := by
    rw [List.getLast?_concat]
    rfl
  obtain ⟨q, ha⟩ := H.get_of_mem (List.mem_append_right l List.mem_cons_self)
  have hlink : linkLast heap node (some a) = .ok (heap.setNext a (some node)) := by
    rw [linkLast, storeNext, load_eq ha]
    rfl
  constructor
  · intro h
    obtain ⟨last, hends, hr⟩ := h
    rw [hr, (lastLoop_iff H).mp hends, hlast]
    exact hlink
  · intro h
    refine ⟨_, lastLoop_ends H, h.trans ?_⟩
    rw [hlast]
    exact hlink.symm

theorem freesNodes_unique {r r' : Res (Heap ν)} (h : FreesNodes heap head r)
    (h' : FreesNodes heap head r') : r = r' := by
  induction h generalizing r' with
  | null =>
    cases h' with
    | null => rfl
  | dangling hp =>
    cases h' with
    | dangling hp' => exact congrArg Except.error (Except.error.inj (hp.symm.trans hp'))
    | node hp' => cases hp.symm.trans hp'
  | node hp _ ih =>
    cases h' with
    | dangling hp' => cases hp.symm.trans hp'
    | node hp' h' =>
      cases hp.symm.trans hp'
      rw [ih h']

/-- Each node of a list is freed, and no other one. -/
theorem freesNodes_segment (H : Segment heap head l none) :
    FreesNodes heap head (.ok (heap.freeAll (l.map Prod.fst))) := by
  induction l generalizing head with
  | nil =>
    cases H with
    | nil => exact .null
  | cons node l ih =>
    have hnodup := H.nodup
    rw [List.map_cons, List.nodup_cons] at hnodup
    cases H with
    | @cons p v q _ _ hp rest =>
      have hfree : freeNode (heap.freeAll (l.map Prod.fst)) p =
          .ok (heap.freeAll (p :: l.map Prod.fst)) := by
        rw [freeNode, load_eq ((heap.freeAll_of_not_mem hnodup.1).trans hp)]
        rfl
      have h := FreesNodes.node (load_eq hp) (ih rest)
      rw [Res.ok_bind, hfree] at h
      exact h

theorem freesNodes_iff (H : Segment heap head l none) {r : Res (Heap ν)} :
    FreesNodes heap head r ↔ r = .ok (heap.freeAll (l.map Prod.fst)) := by
  constructor
  · intro h
    exact freesNodes_unique h (freesNodes_segment H)
  · intro h
    rw [h]
    exact freesNodes_segment H

end

/-! ## Two lists -/

/-- The nodes that are allocated are those of the two lists. -/
structure SharedLists.Holds (s : SharedLists) (ls : Side → List (Nat × UserEntry)) : Prop where
  segment : ∀ side, Segment s.heap (s.head side) (ls side) none
  apart : ∀ side, ((ls side).map Prod.fst).Disjoint ((ls side.other).map Prod.fst)
  live : ∀ p, s.heap p ≠ none → ∃ side, p ∈ (ls side).map Prod.fst
  lt : ∀ p, s.heap p ≠ none → p < s.next

namespace SharedLists

theorem setHead_heap (s : SharedLists) (p : Nat) (side : Side) :
    (s.setHead p side).heap = s.heap := by
  cases side with
  | nick => rfl
  | user => rfl

theorem setHead_next (s : SharedLists) (p : Nat) (side : Side) :
    (s.setHead p side).next = s.next := by
  cases side with
  | nick => rfl
  | user => rfl

theorem setHead_head (s : SharedLists) (p : Nat) (side : Side) :
    (s.setHead p side).head side = some p := by
  cases side with
  | nick => rfl
  | user => rfl

theorem setHead_head_other (s : SharedLists) (p : Nat) (side : Side) :
    (s.setHead p side).head side.other = s.head side.other := by
  cases side with
  | nick => rfl
  | user => rfl

theorem init_holds : init.Holds fun _ => [] where
  segment side := by
    cases side with
    | nick => exact .nil
    | user => exact .nil
  apart _ := List.disjoint_nil_left _
  live _ hp := absurd rfl hp
  lt _ hp := absurd rfl hp

namespace Holds
variable {s : SharedLists} {ls : Side → List (Nat × UserEntry)} (H : s.Holds ls)
include H

theorem get_of_mem (hp : p ∈ (ls side).map Prod.fst) : s.heap p ≠ none := by
  obtain ⟨node, hnode, rfl⟩ := List.mem_map.mp hp
  obtain ⟨q, hq⟩ := (H.segment side).get_of_mem hnode
  rw [hq]
  exact Option.some_ne_none _

theorem ne_next (hp : p ∈ (ls side).map Prod.fst) : p ≠ s.next :=
  Nat.ne_of_lt (H.lt p (H.get_of_mem hp))

/-- A step that allocates one node and adds it to the list of a side -/
theorem added {s' : SharedLists}
    (hsegment : Segment s'.heap (s'.head side) (ls side ++ [(s.next, entry)]) none)
    (hhead : s'.head side.other = s.head side.other) (hnext : s'.next = s.next + 1)
    (hkeep : ∀ p, p ≠ s.next → p ∉ (ls side).map Prod.fst → s'.heap p = s.heap p) :
    s'.Holds (Function.update ls side (ls side ++ [(s.next, entry)])) := by
  have hnew : Function.update ls side (ls side ++ [(s.next, entry)]) side =
      ls side ++ [(s.next, entry)] := Function.update_self ..
  have hold : Function.update ls side (ls side ++ [(s.next, entry)]) side.other = ls side.other :=
    Function.update_of_ne side.ne_other.symm _ _
  have hadded : (ls side ++ [(s.next, entry)]).map Prod.fst =
      (ls side).map Prod.fst ++ [s.next] := by
    rw [List.map_append]
    rfl
  have hapart : ((ls side).map Prod.fst ++ [s.next]).Disjoint ((ls side.other).map Prod.fst) := by
    intro p hp hother
    cases List.mem_append.mp hp with
    | inl hp => exact H.apart side hp hother
    | inr hp => exact H.ne_next hother (List.mem_singleton.mp hp)
  have hcases (p) (hp : s'.heap p ≠ none) :
      p ∈ (ls side).map Prod.fst ++ [s.next] ∨ s.heap p ≠ none := by
    by_contra hno
    obtain ⟨hno, hnone⟩ := not_or.mp hno
    rw [List.mem_append, List.mem_singleton, not_or] at hno
    rw [hkeep p hno.2 hno.1] at hp
    exact hnone hp
  refine ⟨fun side' => ?_, fun side' => ?_, fun p hp => ?_, fun p hp => ?_⟩
  · cases side.eq_or_eq_other side' with
    | inl h =>
      rw [h, hnew]
      exact hsegment
    | inr h =>
      rw [h, hold, hhead]
      refine (H.segment side.other).congr fun node hnode => ?_
      have hmem : node.1 ∈ (ls side.other).map Prod.fst := List.mem_map_of_mem hnode
      exact hkeep node.1 (H.ne_next hmem) fun h => H.apart side h hmem
  · cases side.eq_or_eq_other side' with
    | inl h =>
      rw [h, hnew, hold, hadded]
      exact hapart
    | inr h =>
      rw [h, side.other_other, hnew, hold, hadded]
      exact List.disjoint_comm.mp hapart
  · cases hcases p hp with
    | inl hmem =>
      refine ⟨side, ?_⟩
      rw [hnew, hadded]
      exact hmem
    | inr hp =>
      obtain ⟨side', hmem⟩ := H.live p hp
      refine ⟨side', ?_⟩
      cases side.eq_or_eq_other side' with
      | inl h =>
        subst h
        rw [hnew, hadded]
        exact List.mem_append_left _ hmem
      | inr h =>
        subst h
        rw [hold]
        exact hmem
  · rw [hnext]
    cases hcases p hp with
    | inl hmem =>
      cases List.mem_append.mp hmem with
      | inl hmem => exact Nat.lt_succ_of_lt (H.lt p (H.get_of_mem hmem))
      | inr hmem => exact List.mem_singleton.mp hmem ▸ Nat.lt_succ_self _
    | inr hp => exact Nat.lt_succ_of_lt (H.lt p hp)

/-- Adding a node goes well in one way only. -/
theorem adds (side : Side) (entry : UserEntry) : ∃ s' : SharedLists,
    (∀ r, s.Adds side entry r ↔ r = .ok s') ∧
      s'.Holds (Function.update ls side (ls side ++ [(s.next, entry)])) := by
  have hmalloc (p) (hp : p ≠ s.next) : (s.malloc entry).heap p = s.heap p :=
    Function.update_of_ne hp _ _
  have hnode : (s.malloc entry).heap s.next = some ⟨entry, none⟩ := Function.update_self ..
  have hsegment := H.segment side
  obtain hnil | ⟨l, ⟨a, u⟩, hlist⟩ := List.eq_nil_or_concat (ls side)
  · rw [hnil] at hsegment
    have hhead : s.head side = none := by
      generalize s.head side = head at hsegment
      cases hsegment
      rfl
    refine ⟨(s.malloc entry).setHead s.next side, fun r => ?_, H.added ?_ ?_ ?_ ?_⟩
    · rw [Adds, if_pos hhead]
    · rw [hnil, setHead_heap, setHead_head]
      exact .cons hnode .nil
    · rw [setHead_head_other]
      rfl
    · rw [setHead_next]
      rfl
    · intro p hp _
      rw [setHead_heap]
      exact hmalloc p hp
  · rw [List.concat_eq_append] at hlist
    rw [hlist] at hsegment
    have hnew : ∀ node ∈ l ++ [(a, u)], node.1 ≠ s.next := by
      intro node hmem
      rw [← hlist] at hmem
      exact H.ne_next (List.mem_map_of_mem hmem)
    have hsegment' : Segment (s.malloc entry).heap (s.head side) (l ++ [(a, u)]) none :=
      hsegment.congr fun node hmem => hmalloc node.1 (hnew node hmem)
    have hhead : s.head side ≠ none := by
      intro hnone
      rw [hnone] at hsegment
      cases l with
      | nil => cases hsegment.head_ne
      | cons node l => cases hsegment.head_ne
    refine ⟨{ s.malloc entry with heap := (s.malloc entry).heap.setNext a (some s.next) },
      fun r => ?_, H.added ?_ ?_ rfl ?_⟩
    · rw [Adds, if_neg hhead]
      constructor
      · intro h
        obtain ⟨heap, hadd, hr⟩ := h
        rw [hr, (appendsNode_iff hsegment' s.next).mp hadd]
        rfl
      · intro h
        exact ⟨_, (appendsNode_iff hsegment' s.next).mpr rfl, h⟩
    · rw [hlist]
      cases side with
      | nick => exact hsegment'.link hnode hnew
      | user => exact hsegment'.link hnode hnew
    · cases side with
      | nick => rfl
      | user => rfl
    · intro p hp hnot
      have hpa : p ≠ a := by
        intro h
        rw [hlist, h] at hnot
        exact hnot (List.mem_map_of_mem (List.mem_append_right l List.mem_cons_self))
      exact (Heap.setNext_of_ne _ hpa _).trans (hmalloc p hp)

end Holds

end SharedLists

/-! ## Runs -/

/-- A run of the server on the heap: a step that adds a name to a list adds a node with it. -/
inductive ListsRun (ctx : Ctx) : History → Sys → SharedLists → Prop
  | init : (chirc ctx).init σ → ListsRun ctx [] σ .init
  | same : ListsRun ctx tr σ s → (chirc ctx).step σ l σ' →
    (∀ side, σ'.server.list side = σ.server.list side) → ListsRun ctx ((σ, l) :: tr) σ' s
  | adds (side entry) : ListsRun ctx tr σ s → (chirc ctx).step σ l σ' →
    σ'.server.list side = addUserNode (σ.server.list side) entry.toUserNode →
    σ'.server.list side.other = σ.server.list side.other → s.Adds side entry (.ok s') →
    ListsRun ctx ((σ, l) :: tr) σ' s'

/-- At most one name is added, and to one list only. -/
inductive ListsStep (srv srv' : Server) : Prop
  | same : (∀ side, srv'.list side = srv.list side) → ListsStep srv srv'
  | adds (side node) : srv'.list side = addUserNode (srv.list side) node → NUL ∉ node.name →
    srv'.list side.other = srv.list side.other → ListsStep srv srv'

theorem Handled.listsStep {w w' : Work} (H : Handled ctx fd msg w w') (hmsg : msg.Received) :
    ListsStep w.srv w'.srv := by
  have hone {nick} (hparams : msg.params = [nick]) : NUL ∉ nick :=
    (hmsg.params nick (hparams ▸ List.mem_cons_self)).nul
  have hfirst {name} (hname : msg.params.head? = some name) : NUL ∉ name :=
    (hmsg.params name (List.mem_of_mem_head? hname)).nul
  cases H with
  | nickPosted nick hcmd hparams => exact .adds .nick _ rfl (hone hparams) rfl
  | nickRegisters nick node user hcmd hparams => exact .adds .nick _ rfl (hone hparams) rfl
  | userPosted name hcmd hname => exact .adds .user _ rfl (hfirst hname) rfl
  | userRegisters name node hcmd hname => exact .adds .user _ rfl (hfirst hname) rfl
  | _ =>
    refine .same fun side => ?_
    cases side with
    | nick => rfl
    | user => rfl

theorem Step.listsStep {σ σ' : Sys} (hstep : Step ctx σ l σ') : ListsStep σ.server σ'.server := by
  cases hstep with
  | command t th p line msg w hth hp hparses hw =>
    rw [Sys.handled_server]
    exact (dispatch_handled hw).listsStep (hparses.received hp)
  | _ =>
    refine .same fun side => ?_
    cases side with
    | nick => rfl
    | user => rfl

theorem Server.Sized.list {srv : Server} (H : srv.Sized) (hnode : node ∈ srv.list side) :
    node.name.length < 128 := by
  cases side with
  | nick => exact H.nicks _ (List.mem_map_of_mem hnode)
  | user => exact H.users _ (List.mem_map_of_mem hnode)

/-- The lists on the heap have the nodes of the server. -/
theorem ListsRun.holds {σ : Sys} (h : ListsRun ctx tr σ s) :
    ∃ ls, s.Holds ls ∧ ∀ side, σ.server.list side = (ls side).map (·.2.toUserNode) := by
  induction h with
  | init hinit =>
    refine ⟨_, SharedLists.init_holds, fun side => ?_⟩
    rw [hinit]
    cases side with
    | nick => rfl
    | user => rfl
  | same _ _ hsame ih =>
    obtain ⟨ls, H, hshows⟩ := ih
    exact ⟨ls, H, fun side => (hsame side).trans (hshows side)⟩
  | adds side entry _ _ hside hother hadds ih =>
    obtain ⟨ls, H, hshows⟩ := ih
    obtain ⟨s', hiff, H'⟩ := H.adds side entry
    cases (hiff _).mp hadds
    refine ⟨_, H', fun side' => ?_⟩
    cases side.eq_or_eq_other side' with
    | inl heq =>
      rw [heq, hside, Function.update_self, List.map_append, hshows side]
      rfl
    | inr heq =>
      rw [heq, hother, Function.update_of_ne side.ne_other.symm]
      exact hshows side.other

/-- Every run can be carried out on the heap. -/
theorem Run.listsRun {σ : Sys} (hrun : Run ctx tr σ) : ∃ s, ListsRun ctx tr σ s := by
  induction hrun with
  | nil hinit => exact ⟨_, .init hinit⟩
  | @cons tr σ l σ' hrun hstep ih =>
    obtain ⟨s, h⟩ := ih
    cases (step_cases hstep).listsStep with
    | same hsame => exact ⟨s, h.same hstep hsame⟩
    | adds side node hside hnul hother =>
      have hmem : node ∈ σ'.server.list side := by
        rw [hside]
        exact List.mem_append_right _ List.mem_cons_self
      have hlt := (Run.sized (hrun.cons hstep)).list hmem
      obtain ⟨ls, H, -⟩ := h.holds
      let entry : UserEntry := ⟨⟨node.name, hnul, hlt⟩, node.msg⟩
      obtain ⟨s', hiff, -⟩ := H.adds side entry
      exact ⟨s', h.adds side entry hstep hside hother ((hiff _).mpr rfl)⟩

/-! ## What is found, and what is freed -/

/-- The functions on the heap return the nodes that the server finds in its lists, and both lists
can be freed, which leaves nothing. -/
structure SharedLists.Correct (s : SharedLists) (srv : Server) : Prop where
  find : ∀ side name, name.length < 2147483648 → ∃ p,
    (∀ r, FindUserNode s.heap (s.head side) name r ↔ r = .ok p) ∧
    p.bind (fun p => (s.heap p).map (·.val.toUserNode)) = findUserNode (srv.list side) name
  least : ∀ side, ∃ p, (∀ r, GetLeastUserNode s.heap (s.head side) r ↔ r = .ok p) ∧
    p.bind (fun p => (s.heap p).map (·.val.toUserNode)) = getLeastUserNode (srv.list side)
  frees : ∀ r, s.Frees r ↔ r = .ok fun _ => none

namespace SharedLists.Holds
variable {s : SharedLists} {ls : Side → List (Nat × UserEntry)} (H : s.Holds ls)
include H

theorem least (side : Side) : ((ls side).getLast?.map Prod.fst).bind
    (fun p => (s.heap p).map (·.val.toUserNode)) =
      getLeastUserNode ((ls side).map (·.2.toUserNode)) := by
  rw [getLeastUserNode, List.getLast?_map]
  cases hlast : (ls side).getLast? with
  | none => rfl
  | some node =>
    obtain ⟨q, hq⟩ := (H.segment side).get_of_mem (List.mem_of_getLast? hlast)
    rw [Option.map_some, Option.bind_some, hq]
    rfl

/-- Freeing one list leaves the other one as it is. -/
theorem frees (r : Res (Heap UserEntry)) : s.Frees r ↔ r = .ok fun _ => none := by
  have hnick := freesNodes_iff (H.segment .nick)
    (r := .ok (s.heap.freeAll ((ls .nick).map Prod.fst)))
  have huser : Segment (s.heap.freeAll ((ls .nick).map Prod.fst)) s.userHead (ls .user) none := by
    refine (H.segment .user).congr fun node hnode => Heap.freeAll_of_not_mem _ ?_
    exact fun hmem => H.apart .nick hmem (List.mem_map_of_mem hnode)
  have hempty : (s.heap.freeAll ((ls .nick).map Prod.fst)).freeAll ((ls .user).map Prod.fst) =
      fun _ => none := by
    funext p
    by_cases hp : p ∈ (ls .user).map Prod.fst
    · exact Heap.freeAll_of_mem _ hp
    rw [Heap.freeAll_of_not_mem _ hp]
    by_cases hp' : p ∈ (ls .nick).map Prod.fst
    · exact Heap.freeAll_of_mem _ hp'
    rw [Heap.freeAll_of_not_mem _ hp']
    by_contra hlive
    obtain ⟨side, hmem⟩ := H.live p hlive
    cases side with
    | nick => exact hp' hmem
    | user => exact hp hmem
  have hfrees := freesNodes_iff huser (r := r)
  rw [hempty] at hfrees
  constructor
  · intro h
    cases h with
    | inl h =>
      obtain ⟨f, hfault, -⟩ := h
      cases (freesNodes_iff (H.segment .nick)).mp hfault
    | inr h =>
      obtain ⟨heap, hfree, hfree'⟩ := h
      cases (freesNodes_iff (H.segment .nick)).mp hfree
      exact hfrees.mp hfree'
  · intro h
    exact .inr ⟨_, hnick.mpr rfl, hfrees.mpr h⟩

end SharedLists.Holds

/-- **The lists of names on the heap.** Every run of the server can be carried out with nodes on a
heap, where each loop ends and no access fails; on every such heap a lookup and the search for the
last node return what the server finds in its lists, and freeing both lists at the end frees every
node once. -/
theorem lists_correct {σ : Sys} (hrun : Run ctx tr σ) :
    (∃ s, ListsRun ctx tr σ s) ∧ ∀ s, ListsRun ctx tr σ s → s.Correct σ.server := by
  refine ⟨Run.listsRun hrun, fun s h => ?_⟩
  obtain ⟨ls, H, hshows⟩ := h.holds
  refine ⟨fun side name hname => ?_, fun side => ?_, H.frees⟩
  · obtain ⟨p, hends, hfound⟩ := findUserNode_refines (H.segment side) hname
    refine ⟨p, fun r => ⟨fun h => h.unique hends, fun h => h ▸ hends⟩, ?_⟩
    rw [hfound, hshows side]
  · refine ⟨_, fun r => lastLoop_iff (H.segment side), ?_⟩
    rw [hshows side]
    exact H.least side

theorem lists_correct_registerAmy : ∃ tr σ s, play plainServer registerAmy = .ok (tr, σ) ∧
    ListsRun plainServer tr σ s ∧ s.Correct σ.server ∧
    names σ.server.nickHead = [lit "amy"] ∧ names σ.server.userHead = [lit "amy"] := by
  obtain ⟨tr, σ, hplay, hrun, hf⟩ := run_of_playsTo plainServer registerAmy
    (fun tr σ => names σ.server.nickHead = [lit "amy"] ∧ names σ.server.userHead = [lit "amy"])
    (by decide +kernel)
  obtain ⟨hnick, huser⟩ := of_decide_eq_true hf
  obtain ⟨⟨s, h⟩, hcorrect⟩ := lists_correct hrun
  exact ⟨tr, σ, s, hplay, h, hcorrect s h, hnick, huser⟩

end Chirc
