import Chirc.Server.Interleaved
import Chirc.Verify.Registry

/-! # The steps of the two branches

What each step of the NICK and the USER branch does to the shared variables, and where it leads. -/

namespace Chirc

/-! ## Lists and heads -/

@[simp] theorem Side.other_other (s : Side) : s.other.other = s := by cases s <;> rfl

theorem Side.eq_or_eq_other (s s' : Side) : s' = s ∨ s' = s.other := by
  cases s <;> cases s' <;> simp [Side.other]

theorem Side.ne_other (s : Side) : s ≠ s.other := by cases s <;> exact nofun

namespace Shared

/-- Both heads point to lists, which are different. -/
structure Wf (sh : Shared) : Prop where
  valid : ∀ s i, sh.head s = some i → i < sh.lists.length
  disjoint : ∀ s i, sh.head s = some i → sh.head s.other ≠ some i

variable {sh : Shared}

theorem list_of_head_none (h : sh.head s = none) : sh.list s = [] := by
  rw [list, h]
  rfl

@[simp] theorem head_setHead_self (s : Side) (node : UserNode) :
    (sh.setHead s node).head s = some sh.lists.length := by
  cases s <;> rfl

@[simp] theorem head_setHead_other (s : Side) (node : UserNode) :
    (sh.setHead s node).head s.other = sh.head s.other := by
  cases s <;> rfl

@[simp] theorem lists_setHead (s : Side) (node : UserNode) :
    (sh.setHead s node).lists = sh.lists ++ [[node]] := by
  cases s <;> rfl

@[simp] theorem connectionHash_setHead (s : Side) (node : UserNode) :
    (sh.setHead s node).connectionHash = sh.connectionHash := by
  cases s <;> rfl

@[simp] theorem welcomes_setHead (s : Side) (node : UserNode) :
    (sh.setHead s node).welcomes = sh.welcomes := by
  cases s <;> rfl

@[simp] theorem head_addTo (s : Side) (i : Nat) (node : UserNode) :
    (sh.addTo i node).head s = sh.head s := by
  cases s <;> rfl

theorem list_setHead_self (s : Side) (node : UserNode) : (sh.setHead s node).list s = [node] := by
  rw [list, head_setHead_self, nodes, lists_setHead]
  simp

theorem list_setHead_other (H : sh.Wf) (s : Side) (node : UserNode) :
    (sh.setHead s node).list s.other = sh.list s.other := by
  rw [list, list, head_setHead_other]
  cases hother : sh.head s.other with
  | none => rfl
  | some i => simp [nodes, List.getElem?_append_left (H.valid _ i hother)]

theorem list_addTo_self (H : sh.Wf) (hs : sh.head s = some i) (node : UserNode) :
    (sh.addTo i node).list s = addUserNode (sh.list s) node := by
  rw [list, list, head_addTo, hs, nodes, nodes, addTo]
  simp [H.valid s i hs]

theorem list_addTo_of_ne (hs : sh.head s ≠ some i) (node : UserNode) :
    (sh.addTo i node).list s = sh.list s := by
  rw [list, list, head_addTo]
  cases hhead : sh.head s with
  | none => rfl
  | some j =>
    have hij : i ≠ j := by
      rintro rfl
      exact hs hhead
    simp [nodes, addTo, hij]

theorem list_addTo_other (H : sh.Wf) (hs : sh.head s = some i) (node : UserNode) :
    (sh.addTo i node).list s.other = sh.list s.other :=
  list_addTo_of_ne (H.disjoint s i hs) node

theorem Wf.setHead (H : sh.Wf) (s : Side) (node : UserNode) : (sh.setHead s node).Wf := by
  have hlt : ∀ s' i, sh.head s' = some i → i < (sh.setHead s node).lists.length := by
    intro s' i h
    simpa using Nat.lt_succ_of_lt (H.valid s' i h)
  refine ⟨fun s' i h => ?_, fun s' i h => ?_⟩
  · rcases s.eq_or_eq_other s' with rfl | rfl
    · rw [head_setHead_self] at h
      cases h
      simp
    · rw [head_setHead_other] at h
      exact hlt _ i h
  · rcases s.eq_or_eq_other s' with rfl | rfl
    · rw [head_setHead_self] at h
      cases h
      rw [head_setHead_other]
      exact fun h => Nat.lt_irrefl _ (H.valid _ _ h)
    · rw [head_setHead_other] at h
      rw [Side.other_other, head_setHead_self]
      rintro ⟨⟩
      exact Nat.lt_irrefl _ (H.valid _ _ h)

theorem Wf.addTo (H : sh.Wf) (i : Nat) (node : UserNode) : (sh.addTo i node).Wf := by
  refine ⟨fun s j h => ?_, fun s j h => ?_⟩
  · rw [head_addTo] at h
    simpa [Shared.addTo] using H.valid s j h
  · rw [head_addTo] at h ⊢
    exact H.disjoint s j h

end Shared

/-! ## Steps -/

namespace Request

/-- The command adds its name to the list, if it is not there. -/
def Inserts (r : Request) : Prop := r.side = .nick ∨ 4 ≤ r.msg.params.length

/-- The command registers its client if the name is in both lists. -/
def Matches (r : Request) : Prop := r.side = .nick ∨ r.msg.params.length = 4

instance (r : Request) : Decidable r.Inserts := inferInstanceAs (Decidable (_ ∨ _))

instance (r : Request) : Decidable r.Matches := inferInstanceAs (Decidable (_ ∨ _))

/-- The steps of a branch. -/
inductive Steps (r : Request) (sh : Shared) : Pc → Shared → Option Pc → Prop
  | used : findConnectionMapNode sh.connectionHash r.name ≠ none →
    Steps r sh .findConnection sh none
  | findConnection : findConnectionMapNode sh.connectionHash r.name = none →
    Steps r sh .findConnection sh (some .readHead)
  | found : ¬ r.Inserts ∨ findUserNode (sh.nodes head) r.name ≠ none →
    Steps r sh (.find head) sh none
  | readHead : Steps r sh .readHead sh (some (.find (sh.head r.side)))
  | find {node} : findUserNode (sh.nodes head) r.name = none → r.Inserts → r.node = .ok node →
    Steps r sh (.find head) sh (some (.testHead node))
  | testNull {node} : sh.head r.side = none → Steps r sh (.testHead node) sh (some (.setHead node))
  | testSet {node} : sh.head r.side ≠ none → Steps r sh (.testHead node) sh (some (.readTail node))
  | setHead {node} : Steps r sh (.setHead node) (sh.setHead r.side node) (some .readOther)
  | readTail {node} : Steps r sh (.readTail node) sh (some (.add (sh.head r.side) node))
  | add {node} : Steps r sh (.add (some i) node) (sh.addTo i node) (some .readOther)
  | readOther : Steps r sh .readOther sh (some (.findOther (sh.head r.side.other)))
  | unmatched : findUserNode (sh.nodes head) r.name = none ∨ ¬ r.Matches →
    Steps r sh (.findOther head) sh none
  | findOther : findUserNode (sh.nodes head) r.name ≠ none → r.Matches →
    Steps r sh (.findOther head) sh (some (.addConnection cmd params))
  | addConnection {msg} : Steps r sh (.addConnection cmd params)
    { sh with connectionHash := addConnectionMapNode sh.connectionHash ⟨r.name, r.fd, .live msg⟩ }
    (some .sendWelcome)
  | sendWelcome : Steps r sh .sendWelcome
    { sh with welcomes := sh.welcomes ++ [(r.fd, r.name)] } (some .addSockfdNick)
  | addSockfdNick : Steps r sh .addSockfdNick
    { sh with sockfdNickHash := addSockfdNickMapNode sh.sockfdNickHash ⟨r.fd, r.name⟩ } none

theorem node_name {r : Request} {node : UserNode} (h : r.node = .ok node) : node.name = r.name := by
  obtain ⟨key, hkey, h⟩ := Except.bind_eq_ok.mp h
  obtain ⟨-, rfl⟩ := copyName_eq_ok.mp hkey
  split at h
  · cases h
    rfl
  · obtain ⟨_, -, h⟩ := Except.bind_eq_ok.mp h
    cases h
    rfl

theorem matched_none {r : Request} {node : UserNode} (h : r.matched node = .ok none) :
    ¬ r.Matches := by
  rw [matched] at h
  split at h
  · split at h <;> cases h
  · next hside =>
    split at h
    · cases h
    · next hlen => exact not_or.mpr ⟨by rw [hside]; exact nofun, hlen⟩

theorem matched_some {r : Request} {node : UserNode} {entry : CStr × List CStr}
    (h : r.matched node = .ok (some entry)) : r.Matches := by
  rw [matched] at h
  split at h
  · next hside => exact .inl hside
  · split at h
    · next hlen => exact .inr hlen
    · cases h

theorem step_steps {r : Request} {o : Option Pc} (h : r.step sh pc = .ok (sh', o)) :
    r.Steps sh pc sh' o := by
  cases pc with
  | findConnection =>
    rw [step] at h
    split at h
    · next hfind =>
      cases h
      exact .used (by rw [hfind]; exact nofun)
    · next hnone =>
      cases h
      exact .findConnection hnone
  | readHead =>
    cases h
    exact .readHead
  | find head =>
    rw [step] at h
    split at h
    · next hlen =>
      cases h
      refine .found (.inl ?_)
      rw [Inserts, hlen.1]
      exact not_or.mpr ⟨nofun, Nat.not_le.mpr hlen.2⟩
    · next hlen =>
      split at h
      · next hfind =>
        cases h
        exact .found (.inr (by rw [hfind]; exact nofun))
      · next hnone =>
        obtain ⟨node, hnode, h⟩ := Except.bind_eq_ok.mp h
        cases h
        refine .find hnone ?_ hnode
        rw [Inserts]
        cases hside : r.side with
        | nick => exact .inl rfl
        | user => exact .inr (Nat.not_lt.mp fun hlt => hlen ⟨hside, hlt⟩)
  | testHead node =>
    rw [step] at h
    split at h
    · next hnone =>
      cases h
      exact .testNull hnone
    · next hsome =>
      cases h
      exact .testSet hsome
  | setHead node =>
    cases h
    exact .setHead
  | readTail node =>
    cases h
    exact .readTail
  | add head node =>
    cases head with
    | none => cases h
    | some i =>
      cases h
      exact .add
  | readOther =>
    cases h
    exact .readOther
  | findOther head =>
    rw [step] at h
    split at h
    · next hnone =>
      cases h
      exact .unmatched (.inl hnone)
    · next node hfind =>
      obtain ⟨entry, hentry, h⟩ := Except.bind_eq_ok.mp h
      cases entry with
      | none =>
        cases h
        exact .unmatched (.inr (matched_none hentry))
      | some entry =>
        cases h
        exact .findOther (by rw [hfind]; exact nofun) (matched_some hentry)
  | addConnection cmd params =>
    obtain ⟨key, hkey, h⟩ := Except.bind_eq_ok.mp h
    obtain ⟨msg, -, h⟩ := Except.bind_eq_ok.mp h
    obtain ⟨-, rfl⟩ := copyName_eq_ok.mp hkey
    cases h
    exact .addConnection
  | sendWelcome =>
    cases h
    exact .sendWelcome
  | addSockfdNick =>
    obtain ⟨key, hkey, h⟩ := Except.bind_eq_ok.mp h
    obtain ⟨-, rfl⟩ := copyName_eq_ok.mp hkey
    cases h
    exact .addSockfdNick

/-- A head is assigned a new list, or stays. -/
theorem Steps.head_cases {r : Request} {o : Option Pc} (h : r.Steps sh pc sh' o) (s : Side) :
    sh'.head s = sh.head s ∨
    r.side = s ∧ sh'.head s = some sh.lists.length ∧ ∃ node, pc = .setHead node := by
  cases h with
  | @setHead node =>
    rcases s.eq_or_eq_other r.side with hside | hother
    · exact .inr ⟨hside, hside ▸ Shared.head_setHead_self _ _, node, rfl⟩
    · obtain rfl : s = r.side.other := by rw [hother, Side.other_other]
      exact .inl (Shared.head_setHead_other _ _)
  | add => exact .inl (Shared.head_addTo _ _ _)
  | addConnection => exact .inl (by cases s <;> rfl)
  | sendWelcome => exact .inl (by cases s <;> rfl)
  | addSockfdNick => exact .inl (by cases s <;> rfl)
  | _ => exact .inl rfl

theorem Steps.wf {r : Request} {o : Option Pc} (h : r.Steps sh pc sh' o) (H : sh.Wf) : sh'.Wf := by
  cases h with
  | setHead => exact H.setHead _ _
  | add => exact H.addTo _ _
  | addConnection => exact ⟨H.1, H.2⟩
  | sendWelcome => exact ⟨H.1, H.2⟩
  | addSockfdNick => exact ⟨H.1, H.2⟩
  | _ => exact H

theorem Steps.lists_le {r : Request} {o : Option Pc} (h : r.Steps sh pc sh' o) :
    sh.lists.length ≤ sh'.lists.length := by
  cases h with
  | setHead => simp
  | add => simp [Shared.addTo]
  | _ => exact Nat.le_refl _

end Request

theorem registration_steps {k : Branch} {o : Option Branch}
    (h : (registration allowed).step sh k = .ok (sh', o)) :
    ∃ o', k.req.Steps sh k.pc sh' o' ∧ o = o'.map (Branch.mk k.req) := by
  obtain ⟨⟨sh'', o'⟩, hstep, heq⟩ := Res.map_eq_ok.mp h
  cases heq
  exact ⟨o', k.req.step_steps hstep, rfl⟩

end Chirc
