import Chirc.Theory.Argmax
import Chirc.Verify.Deletion

/-! # Fuzzy lookups

`fuzzy_find_user_node` and `find_user_list_node` look at the nodes that have the length of the name,
as an `int`, and keep the one with the most positions that agree; a later node has to be better. -/

namespace Chirc

open LinkedList

variable {ν ν' : Type}

/-- The number of positions at which `name` agrees with `s` -/
def agreements (name s : CStr) : Nat :=
  (List.range s.length).countP fun i => name[i]? = s[i]?

/-- The first node with the most agreements among those of the length of `name` -/
def firstBest (str : ν → CStr) (name : CStr) (l : List (Nat × ν)) : Option (Nat × ν) :=
  (l.filter fun node => (str node.2).length = name.length).argmax
    fun node => agreements name (str node.2)

/-- The same among the nodes that the lookups look at, those that have its length as an `int` -/
def fuzzyBest (str : ν → CStr) (name : CStr) (l : List (Nat × ν)) : Option (Nat × ν) :=
  (l.filter fun node => ((str node.2).length : Int) = intLen name).argmax
    fun node => agreements name (str node.2)

/-- NULL twice, or two nodes at the same position of their lists -/
def SamePosition (l : List (Nat × ν)) (l' : List (Nat × ν')) (r r' : Option Nat) : Prop :=
  (r = none ∧ r' = none) ∨
    ∃ (i : Nat) (node : Nat × ν) (node' : Nat × ν'), l[i]? = some node ∧ l'[i]? = some node' ∧
      r = some node.1 ∧ r' = some node'.1

/-! ## The inner loop -/

theorem rd_nul {s : CStr} (h : i < s.length) : rd (s ++ [NUL]) i = .ok s[i] := by
  rw [rd, List.getElem?_append_left h, List.getElem?_eq_getElem h]

theorem countEq_eq {n : Nat} (hs : n ≤ s.length) (ht : n ≤ t.length) :
    countEq s t n = .ok ((List.range n).countP fun i => s[i]? = t[i]? : Nat) := by
  rw [countEq, Int.toNat_natCast]
  induction n with
  | zero => rfl
  | succ n ih =>
    rw [List.range_succ, List.foldlM_append, ih (by omega) (by omega), List.countP_append]
    have hs' : n < s.length := hs
    have ht' : n < t.length := ht
    simp only [Res.ok_bind, List.foldlM_cons, List.foldlM_nil, rd_nul hs', rd_nul ht',
      List.countP_singleton, List.getElem?_eq_getElem hs', List.getElem?_eq_getElem ht',
      Option.some.injEq, decide_eq_true_eq]
    split
    · rfl
    · rfl

theorem countEq_agreements (h : s.length ≤ name.length) :
    countEq name s s.length = .ok (agreements name s : Nat) := countEq_eq h (Nat.le_refl _)

theorem agreements_le (name s : CStr) : agreements name s ≤ s.length := by
  rw [agreements]
  exact List.countP_le_length.trans_eq List.length_range

/-- A name agrees everywhere with the string that it begins with. -/
theorem agreements_eq_iff : agreements name s = s.length ↔ s = name.take s.length := by
  have hrange : (List.range s.length).length = s.length := List.length_range
  constructor
  · intro h
    have hall := List.countP_eq_length.mp (h.trans hrange.symm)
    apply List.ext_getElem?
    intro i
    rw [List.getElem?_take]
    split
    · next hi =>
      have heq := hall i (List.mem_range.mpr hi)
      exact (of_decide_eq_true heq).symm
    · next hi => exact List.getElem?_eq_none (Nat.le_of_not_lt hi)
  · intro h
    rw [agreements]
    refine (List.countP_eq_length.mpr ?_).trans hrange
    intro i hi
    have hlt := List.mem_range.mp hi
    rw [decide_eq_true_iff]
    conv => rhs; rw [h]
    rw [List.getElem?_take, if_pos hlt]

/-! ## The outer loop -/

section Loop

variable {str : ν → CStr} {same : ν → CStr → Bool} {heap : Heap ν} {head : Option Nat}
  {l : List (Nat × ν)} {name : CStr}

/-- The nodes that are looked at have a string that is not longer than the name. -/
theorem length_le_of_intLen {s : CStr} (h : (s.length : Int) = intLen name) :
    s.length ≤ name.length := by
  have hcases := intLen_cases name
  omega

theorem fuzzyLoop_next (hp : heap p = some ⟨v, q⟩)
    (hsame : same v name → ((str v).length : Int) = intLen name) (s : Option Nat × Int) :
    fuzzyLoop str same heap name (s, some p) =
      .ok (.inr (List.runningStep (fun node => same node.2 name) Prod.fst
        (fun node => agreements name (str node.2)) s (p, v), q)) := by
  obtain ⟨node, maxCnt⟩ := s
  rw [fuzzyLoop, load_eq hp, Res.ok_bind, List.runningStep]
  cases hv : same v name with
  | false => rfl
  | true =>
    have hlen := hsame hv
    have hcount := countEq_agreements (length_le_of_intLen hlen)
    rw [hlen] at hcount
    simp only [hcount, Res.ok_bind, if_true, true_and]
    split
    · rfl
    · rfl

/-- The loop returns the first of the nodes with the most agreements. -/
theorem fuzzyLoop_ends (H : Segment heap head l none)
    (hsame : ∀ v, same v name ↔ ((str v).length : Int) = intLen name) :
    While.Ends (fuzzyLoop str same heap name) ((none, -1), head)
      (.ok ((fuzzyBest str name l).map Prod.fst)) := by
  refine H.ends _ (fun s node _ q hp => fuzzyLoop_next hp (hsame node.2).mp s) ?_
  have hfilter : l.filter (fun node => same node.2 name) =
      l.filter fun node => ((str node.2).length : Int) = intLen name := by
    refine List.filter_congr fun node _ => ?_
    rw [Bool.eq_iff_iff, decide_eq_true_iff]
    exact hsame node.2
  rw [List.foldl_runningStep, hfilter, fuzzyBest,
    ← List.running_fst Prod.fst fun node => agreements name (str node.2)]
  exact .leave rfl

/-! ## The best node -/

/-- The nodes that are looked at have the length of the name if they have its length as an `int`. -/
theorem fuzzyBest_eq_firstBest_iff (hshort : ∀ v, (str v).length < 2147483648) :
    (fuzzyBest str name l).map Prod.fst = (firstBest str name l).map Prod.fst ↔
      ∀ node ∈ l, ((str node.2).length : Int) = intLen name →
        (str node.2).length = name.length := by
  -- a name of the length of a node is one that an `int` can count
  have hlooked : ∀ v, (str v).length = name.length → ((str v).length : Int) = intLen name := by
    intro v hv
    have hlt := hshort v
    rw [hv, intLen_of_lt (hv ▸ hlt)]
  constructor
  · intro heq node hnode hint
    by_contra hne
    -- then no node has the length of the name
    have hnone : firstBest str name l = none := by
      rw [firstBest, List.argmax_eq_none, List.filter_eq_nil_iff]
      intro node' hnode' hlen
      have hlen' := of_decide_eq_true hlen
      have hint' := hlooked node'.2 hlen'
      omega
    rw [hnone, Option.map_none, Option.map_eq_none_iff, fuzzyBest, List.argmax_eq_none] at heq
    exact List.filter_eq_nil_iff.mp heq node hnode (decide_eq_true hint)
  · intro hlen
    have hfilter : l.filter (fun node => ((str node.2).length : Int) = intLen name) =
        l.filter fun node => (str node.2).length = name.length := by
      refine List.filter_congr fun node hnode => ?_
      rw [Bool.eq_iff_iff, decide_eq_true_iff, decide_eq_true_iff]
      exact ⟨hlen node hnode, hlooked node.2⟩
    rw [fuzzyBest, hfilter, firstBest]

end Loop

/-! ## Two lists with the same names -/

theorem exists_zip {f : α → γ} {g : β → γ} {l : List α} {l' : List β} (h : l.map f = l'.map g) :
    ∃ z : List (α × β), z.map Prod.fst = l ∧ z.map Prod.snd = l' ∧ ∀ t ∈ z, f t.1 = g t.2 := by
  have hlen : l.length = l'.length := by
    rw [← List.length_map f, h, List.length_map]
  refine ⟨l.zip l', List.map_fst_zip hlen.le, List.map_snd_zip hlen.ge, ?_⟩
  have hzip : (l.zip l').map (f ∘ Prod.fst) = (l.zip l').map (g ∘ Prod.snd) := by
    rw [← List.map_map, ← List.map_map, List.map_fst_zip hlen.le, List.map_snd_zip hlen.ge, h]
  exact List.map_inj_left.mp hzip

/-- What a lookup returns depends on the names alone. -/
theorem samePosition_fuzzyBest {l : List (Nat × ν)} {l' : List (Nat × ν')} {str : ν → CStr}
    {str' : ν' → CStr} (h : l.map (fun node => str node.2) = l'.map fun node => str' node.2)
    (name : CStr) :
    SamePosition l l' ((fuzzyBest str name l).map Prod.fst)
      ((fuzzyBest str' name l').map Prod.fst) := by
  obtain ⟨z, rfl, rfl, hz⟩ := exists_zip h
  rw [fuzzyBest, fuzzyBest, List.filter_map, List.filter_map, List.argmax_map, List.argmax_map]
  -- the two nodes of a pair are looked at, and count, alike
  have hfilter : z.filter ((fun node => ((str node.2).length : Int) = intLen name) ∘ Prod.fst) =
      z.filter ((fun node => ((str' node.2).length : Int) = intLen name) ∘ Prod.snd) := by
    refine List.filter_congr fun t ht => ?_
    rw [Function.comp_apply, Function.comp_apply, hz t ht]
  rw [hfilter]
  obtain ⟨z', hz', hsub⟩ : ∃ z',
      z.filter ((fun node => ((str' node.2).length : Int) = intLen name) ∘ Prod.snd) = z' ∧
        ∀ t ∈ z', t ∈ z := ⟨_, rfl, fun _ ht => (List.mem_filter.mp ht).1⟩
  have hargmax : z'.argmax ((fun node => agreements name (str node.2)) ∘ Prod.fst) =
      z'.argmax ((fun node => agreements name (str' node.2)) ∘ Prod.snd) := by
    refine List.argmax_congr fun t ht => ?_
    rw [Function.comp_apply, Function.comp_apply, hz t (hsub t ht)]
  rw [hz', hargmax]
  cases hm : z'.argmax ((fun node => agreements name (str' node.2)) ∘ Prod.snd) with
  | none => exact .inl ⟨rfl, rfl⟩
  | some t =>
    obtain ⟨i, hi⟩ := List.mem_iff_getElem?.mp (hsub t (List.argmax_mem hm))
    refine .inr ⟨i, t.1, t.2, ?_, ?_, rfl, rfl⟩
    · rw [List.getElem?_map, hi, Option.map_some]
    · rw [List.getElem?_map, hi, Option.map_some]

/-! ## Both lookups -/

variable {heap : Heap UserEntry} {heap' : Heap UserListEntry} {head head' : Option Nat}
  {users : List (Nat × UserEntry)} {nodes : List (Nat × UserListEntry)}

theorem fuzzyFindUserNode_ends (H : Segment heap head users none) (name : CStr) :
    FuzzyFindUserNode heap head name (.ok ((fuzzyBest (·.name.str) name users).map Prod.fst)) :=
  fuzzyLoop_ends H fun _ => UserEntry.sameLen_iff

theorem findUserListNode_ends (H : Segment heap' head' nodes none) (user : CStr) :
    FindUserListNode heap' head' user (.ok ((fuzzyBest (·.user.str) user nodes).map Prod.fst)) :=
  fuzzyLoop_ends H fun _ => UserListEntry.sameLen_iff

/-- A node that `find_user_node` finds agrees everywhere, and those before it do not. -/
theorem fuzzyBest_of_find (hfind : users.find? (·.2.isNamed name) = some node) :
    fuzzyBest (·.name.str) name users = some node := by
  obtain ⟨hnamed, l₁, l₂, rfl, hpassed⟩ := List.find?_eq_some_iff_append.mp hfind
  obtain ⟨hlen, htake⟩ := UserEntry.isNamed_iff.mp hnamed
  have hbest := agreements_eq_iff.mpr htake
  have hkept : (node :: l₂).filter (fun node => (node.2.name.str.length : Int) = intLen name) =
      node :: l₂.filter fun node => (node.2.name.str.length : Int) = intLen name :=
    List.filter_cons_of_pos (decide_eq_true hlen)
  rw [fuzzyBest, List.filter_append, hkept]
  refine List.argmax_append_cons ?_ ?_
  · intro node' hnode'
    obtain ⟨hmem, hlooked⟩ := List.mem_filter.mp hnode'
    have hlen' := of_decide_eq_true hlooked
    have hle := agreements_le name node'.2.name.str
    have hne : agreements name node'.2.name.str ≠ node'.2.name.str.length := by
      intro h
      have hnamed' := UserEntry.isNamed_iff.mpr ⟨hlen', agreements_eq_iff.mp h⟩
      have hnot := hpassed node' hmem
      rw [hnamed'] at hnot
      cases hnot
    omega
  · intro node' hnode'
    have hlen' := of_decide_eq_true (List.mem_filter.mp hnode').2
    have hle := agreements_le name node'.2.name.str
    omega

theorem findUserNode_some (H : Segment heap head users none)
    (h : FindUserNode heap head name (.ok (some p))) :
    ∃ node, users.find? (·.2.isNamed name) = some node ∧ node.1 = p := by
  have hfound := Except.ok.inj ((findUserNode_iff H).mp h)
  exact Option.map_eq_some_iff.mp hfound.symm

/-- **Both lookups return the first best node exactly if no node has the length of the name only as
an `int`.** They return nodes at the same position of lists with the same names, and what
`find_user_node` finds, in any case. -/
theorem fuzzy_firstBest_iff (H : Segment heap head users none)
    (H' : Segment heap' head' nodes none) (name : CStr) :
    (FuzzyFindUserNode heap head name (.ok ((firstBest (·.name.str) name users).map Prod.fst)) ∧
      FindUserListNode heap' head' name
        (.ok ((firstBest (·.user.str) name nodes).map Prod.fst)) ∧
      (users.map (·.2.name.str) = nodes.map (·.2.user.str) → ∃ r r',
        FuzzyFindUserNode heap head name (.ok r) ∧ FindUserListNode heap' head' name (.ok r') ∧
          SamePosition users nodes r r') ∧
      ∀ p, FindUserNode heap head name (.ok (some p)) →
        FuzzyFindUserNode heap head name (.ok (some p))) ↔
      (∀ node ∈ users, node.2.sameLen name → node.2.name.str.length = name.length) ∧
      ∀ node ∈ nodes, node.2.sameLen name → node.2.user.str.length = name.length := by
  have hfuzzy := fuzzyFindUserNode_ends H name
  have hfind := findUserListNode_ends H' name
  have hposition : users.map (·.2.name.str) = nodes.map (·.2.user.str) → ∃ r r',
      FuzzyFindUserNode heap head name (.ok r) ∧ FindUserListNode heap' head' name (.ok r') ∧
        SamePosition users nodes r r' := by
    intro hnames
    exact ⟨_, _, hfuzzy, hfind, samePosition_fuzzyBest hnames name⟩
  have hexact : ∀ p, FindUserNode heap head name (.ok (some p)) →
      FuzzyFindUserNode heap head name (.ok (some p)) := by
    intro p hp
    obtain ⟨node, hnode, rfl⟩ := findUserNode_some H hp
    rw [fuzzyBest_of_find hnode] at hfuzzy
    exact hfuzzy
  have husers : ∀ v : UserEntry, v.name.str.length < 2147483648 := fun v =>
    Nat.lt_trans v.name.lt (by decide)
  have hnodes : ∀ v : UserListEntry, v.user.str.length < 2147483648 := fun v =>
    Nat.lt_trans v.user.lt (by decide)
  simp only [UserEntry.sameLen_iff, UserListEntry.sameLen_iff]
  rw [← fuzzyBest_eq_firstBest_iff husers, ← fuzzyBest_eq_firstBest_iff hnodes]
  constructor
  · intro ⟨hbest, hbest', _, _⟩
    exact ⟨Except.ok.inj (hfuzzy.unique hbest), Except.ok.inj (hfind.unique hbest')⟩
  · intro ⟨hbest, hbest'⟩
    exact ⟨hbest ▸ hfuzzy, hbest' ▸ hfind, hposition, hexact⟩

def amyNode : UserListEntry := ⟨⟨lit "amy", amy.nul, by decide⟩⟩

/-- The list of amy, bob as nodes of the other struct -/
def amyBobNodes : Heap UserListEntry
  | 1 => some ⟨amyNode, some 2⟩
  | 2 => some ⟨bobNode, none⟩
  | _ => none

theorem segment_amyBobNodes :
    Segment amyBobNodes (some 1) [(1, amyNode), (2, bobNode)] none :=
  .cons rfl (.cons rfl .nil)

theorem fuzzy_firstBest_bot :
    FuzzyFindUserNode amyBob (some 1) (lit "bot") (.ok (some 2)) ∧
      FindUserListNode amyBobNodes (some 1) (lit "bot") (.ok (some 2)) := by
  have h := (fuzzy_firstBest_iff segment_amyBob segment_amyBobNodes (lit "bot")).mpr
    ⟨by decide, by decide⟩
  exact ⟨h.1, h.2.1⟩

/-- A name of 2^32 + 3 bytes, and a list in which no node has this length -/
theorem not_firstBest_replicate :
    ¬ ∀ (heap : Heap UserEntry) (head : Option Nat) (users : List (Nat × UserEntry)),
      Segment heap head users none → ∀ name,
        FuzzyFindUserNode heap head name
          (.ok ((firstBest (·.name.str) name users).map Prod.fst)) := by
  intro hall
  obtain ⟨name, hname⟩ : ∃ name : CStr, name.length = 4294967299 :=
    ⟨List.replicate 4294967299 65, List.length_replicate⟩
  have hint : intLen name = 3 := by
    unfold intLen
    rw [hname]
    rfl
  have hbest := hall _ _ _ segment_amyBob name
  have heq := Except.ok.inj ((fuzzyFindUserNode_ends segment_amyBob name).unique hbest)
  have hlen := (fuzzyBest_eq_firstBest_iff fun v => Nat.lt_trans v.name.lt (by decide)).mp heq
    (1, userEntry amy) (by simp) hint.symm
  rw [hname] at hlen
  cases hlen

end Chirc
