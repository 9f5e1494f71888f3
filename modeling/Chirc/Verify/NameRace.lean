import Chirc.Verify.Branches
import Chirc.Verify.Commute

/-! # One name, several threads

Threads that handle NICK and USER commands for one name `n`. The lookups of a branch and what it
does afterwards are different steps, so that other threads may add the name in between. The name is
registered once as long as no thread adds it to a list while another one relies on the lookups. -/

namespace Chirc

open ThreadProgram

namespace Branch

/-- The next step adds the name to the list of the branch. -/
def Stores (k : Branch) : Prop :=
  match k.pc with
  | .setHead _ | .add _ _ => True
  | _ => False

/-- The thread relies on nobody adding its name to the list `s`: to its own list, once its lookup
there has found nothing, or to the other list, until its lookup there is done. -/
def Relies (k : Branch) (s : Side) : Prop :=
  match k.pc with
  | .find none => k.req.side = s ∧ k.req.Inserts
  | .testHead _ | .setHead _ | .readTail _ | .add _ _ => k.req.side = s
  | .readOther | .findOther (some _) => k.req.side ≠ s ∧ k.req.Matches
  | _ => False

instance Stores.decidable (k : Branch) : Decidable k.Stores :=
  match k with
  | ⟨_, .setHead _⟩ | ⟨_, .add _ _⟩ => .isTrue trivial
  | ⟨_, .findConnection⟩ | ⟨_, .readHead⟩ | ⟨_, .find _⟩ | ⟨_, .testHead _⟩ | ⟨_, .readTail _⟩
  | ⟨_, .readOther⟩ | ⟨_, .findOther _⟩ | ⟨_, .addConnection _ _⟩ | ⟨_, .sendWelcome⟩
  | ⟨_, .addSockfdNick⟩ => .isFalse id

instance Relies.decidable (k : Branch) (s : Side) : Decidable (k.Relies s) :=
  match k with
  | ⟨_, .find none⟩ => inferInstanceAs (Decidable (_ = _ ∧ _))
  | ⟨_, .testHead _⟩ | ⟨_, .setHead _⟩ | ⟨_, .readTail _⟩ | ⟨_, .add _ _⟩ =>
    inferInstanceAs (Decidable (_ = _))
  | ⟨_, .readOther⟩ | ⟨_, .findOther (some _)⟩ => inferInstanceAs (Decidable (_ ≠ _ ∧ _))
  | ⟨_, .findConnection⟩ | ⟨_, .readHead⟩ | ⟨_, .find (some _)⟩ | ⟨_, .findOther none⟩
  | ⟨_, .addConnection _ _⟩ | ⟨_, .sendWelcome⟩ | ⟨_, .addSockfdNick⟩ => .isFalse id

/-- The thread is about to register its client, unless the other list has not the name. -/
def Critical (k : Branch) : Prop :=
  match k.pc with
  | .readOther | .findOther (some _) => k.req.Matches
  | .addConnection _ _ | .sendWelcome => True
  | _ => False

end Branch

namespace Shared

/-- How often the name is in the list of a side. -/
def count (sh : Shared) (s : Side) (n : CStr) : Nat := (names (sh.list s)).count n

/-- The number of nodes of `connection_hash` with this key. -/
def registrations (sh : Shared) (n : CStr) : Nat :=
  (sh.connectionHash.map (·.name)).count n

/-- The number of welcomes sent for the name. -/
def welcomed (sh : Shared) (n : CStr) : Nat := (sh.welcomes.map Prod.snd).count n

/-- The name is on each list at most once, and is registered at most once. -/
structure OneWinner (n : CStr) (sh : Shared) : Prop where
  list_le : ∀ s, sh.count s n ≤ 1
  registrations_le : sh.registrations n ≤ 1
  welcomed_le : sh.welcomed n ≤ 1

/-- Where the threads may begin: the tables are those of a running server (a name that is registered
is on both lists), and no welcome is counted yet. -/
structure Ready (n : CStr) (sh : Shared) : Prop where
  wf : sh.Wf
  list_le : ∀ s, sh.count s n ≤ 1
  registrations_le : sh.registrations n ≤ 1
  listed : 0 < sh.registrations n → ∀ s, 0 < sh.count s n
  welcomes : sh.welcomes = []

/-- What the threads keep. -/
structure Sane (n : CStr) (sh : Shared) : Prop extends OneWinner n sh where
  wf : sh.Wf
  listed : 0 < sh.registrations n → ∀ s, 0 < sh.count s n
  registered : 0 < sh.welcomed n → 0 < sh.registrations n

end Shared

/-- What a thread knows about the shared variables. -/
def Branch.Knows (n : CStr) (sh : Shared) (k : Branch) : Prop :=
  k.req.name = n ∧
  match k.pc with
  | .find none => k.req.Inserts → sh.count k.req.side n = 0
  | .find (some i) => sh.head k.req.side = some i
  | .testHead node => node.name = n ∧ sh.count k.req.side n = 0
  | .setHead node => node.name = n ∧ sh.count k.req.side n = 0 ∧ sh.head k.req.side = none
  | .readTail node => node.name = n ∧ sh.count k.req.side n = 0 ∧ sh.head k.req.side ≠ none
  | .add h node => node.name = n ∧ sh.count k.req.side n = 0 ∧ sh.head k.req.side = h
  | .readOther => 0 < sh.count k.req.side n ∧ (k.req.Matches → sh.registrations n = 0)
  | .findOther (some i) => 0 < sh.count k.req.side n ∧ sh.head k.req.side.other = some i ∧
      (k.req.Matches → sh.registrations n = 0)
  | .addConnection _ _ => (∀ s, 0 < sh.count s n) ∧ sh.registrations n = 0
  | .sendWelcome => 0 < sh.registrations n ∧ sh.welcomed n = 0
  | _ => True

/-! ## The kinds of steps -/

section
variable {n : CStr} {sh sh' : Shared}

/-- The name has been added to the list `s`, which did not have it. -/
structure Stored (n : CStr) (s : Side) (sh sh' : Shared) : Prop where
  wf : sh'.Wf
  before : sh.count s n = 0
  self : sh'.count s n = 1
  other : sh'.count s.other n = sh.count s.other n
  head_self : ∀ i, sh.head s = some i → sh'.head s = some i
  head_other : sh'.head s.other = sh.head s.other
  registrations : sh'.registrations n = sh.registrations n
  welcomed : sh'.welcomed n = sh.welcomed n

theorem stored_setHead {node : UserNode} (H : sh.Wf) (hname : node.name = n)
    (hhead : sh.head s = none) : Stored n s sh (sh.setHead s node) where
  wf := H.setHead s node
  before := by simp [Shared.count, Shared.list_of_head_none hhead, names]
  self := by simp [Shared.count, Shared.list_setHead_self, names, hname]
  other := by rw [Shared.count, Shared.list_setHead_other H]; rfl
  head_self i h := by rw [hhead] at h; cases h
  head_other := Shared.head_setHead_other s node
  registrations := by rw [Shared.registrations, Shared.connectionHash_setHead]; rfl
  welcomed := by rw [Shared.welcomed, Shared.welcomes_setHead]; rfl

theorem stored_addTo {node : UserNode} (H : sh.Wf) (hname : node.name = n)
    (hhead : sh.head s = some i) (hbefore : sh.count s n = 0) :
    Stored n s sh (sh.addTo i node) where
  wf := H.addTo i node
  before := hbefore
  self := by
    rw [Shared.count, names] at hbefore ⊢
    rw [Shared.list_addTo_self H hhead, addUserNode, List.map_append, List.count_append]
    simpa [hname] using hbefore
  other := by rw [Shared.count, Shared.list_addTo_other H hhead]; rfl
  head_self j h := by rw [Shared.head_addTo, h]
  head_other := Shared.head_addTo s.other i node
  registrations := rfl
  welcomed := rfl

/-- A step adds the name, registers it, welcomes it, or changes nothing that the others know. -/
inductive Kind (n : CStr) (sh : Shared) (k : Branch) (sh' : Shared) : Prop
  | quiet : ¬ k.Stores → (∀ s, sh'.head s = sh.head s) → (∀ s, sh'.count s n = sh.count s n) →
    sh'.registrations n = sh.registrations n → sh'.welcomed n = sh.welcomed n → sh'.Wf →
    Kind n sh k sh'
  | stores : k.Stores → Stored n k.req.side sh sh' → Kind n sh k sh'
  | connects {cmd params msg} : k.pc = .addConnection cmd params → sh' = { sh with
      connectionHash := addConnectionMapNode sh.connectionHash ⟨n, k.req.fd, .live msg⟩ } →
    Kind n sh k sh'
  | welcomes : k.pc = .sendWelcome → sh' = { sh with welcomes := sh.welcomes ++ [(k.req.fd, n)] } →
    Kind n sh k sh'

theorem Request.Steps.kind {k : Branch} {o : Option Pc} (H : sh.Wf) (hk : k.Knows n sh)
    (h : k.req.Steps sh k.pc sh' o) : Kind n sh k sh' := by
  obtain ⟨r, pc⟩ := k
  obtain ⟨rfl, hk⟩ := hk
  have hquiet (hpc : ¬ Branch.Stores ⟨r, pc⟩) : Kind r.name sh ⟨r, pc⟩ sh :=
    .quiet hpc (fun _ => rfl) (fun _ => rfl) rfl rfl H
  cases h with
  | setHead => exact .stores trivial (stored_setHead H hk.1 hk.2.2)
  | add => exact .stores trivial (stored_addTo H hk.1 hk.2.2 hk.2.1)
  | addConnection => exact .connects rfl rfl
  | sendWelcome => exact .welcomes rfl rfl
  | addSockfdNick =>
    exact .quiet id (fun s => by cases s <;> rfl) (fun s => by cases s <;> rfl) rfl rfl ⟨H.1, H.2⟩
  | _ => exact hquiet id

/-! ## What the other threads know -/

/-- Nobody is about to register the name when it is added. -/
theorem Stored.not_critical {k : Branch} (H : Stored n s sh sh') (I : sh.Sane n) (hk : k.Knows n sh)
    (hrelies : ¬ k.Relies s) : ¬ k.Critical := by
  have hside (h : 0 < sh.count k.req.side n) : k.req.side ≠ s := by
    rintro rfl
    exact Nat.ne_of_gt h H.before
  have hlisted : ¬ ∀ s, 0 < sh.count s n := fun h => Nat.ne_of_gt (h s) H.before
  obtain ⟨r, pc⟩ := k
  obtain ⟨-, hk⟩ := hk
  cases pc with
  | readOther => exact fun hmatches => hrelies ⟨hside hk.1, hmatches⟩
  | findOther head =>
    cases head with
    | none => exact id
    | some i => exact fun hmatches => hrelies ⟨hside hk.1, hmatches⟩
  | addConnection cmd params => exact absurd hk.1 hlisted
  | sendWelcome => exact absurd (I.listed hk.1) hlisted
  | _ => exact id

theorem Stored.knows {k : Branch} (H : Stored n s sh sh') (I : sh.Sane n) (hk : k.Knows n sh)
    (hrelies : ¬ k.Relies s) : k.Knows n sh' := by
  have hcritical := H.not_critical I hk hrelies
  obtain ⟨r, pc⟩ := k
  obtain ⟨hname, hk⟩ := hk
  refine ⟨hname, ?_⟩
  have hhead {i} (s' : Side) (h : sh.head s' = some i) : sh'.head s' = some i := by
    rcases s.eq_or_eq_other s' with rfl | rfl
    · exact H.head_self i h
    · rw [H.head_other, h]
  have hpos (s' : Side) (h : 0 < sh.count s' n) : 0 < sh'.count s' n := by
    rcases s.eq_or_eq_other s' with rfl | rfl
    · rw [H.self]
      exact Nat.zero_lt_one
    · rw [H.other]
      exact h
  have hother (h : r.side ≠ s) : r.side = s.other := (s.eq_or_eq_other r.side).resolve_left h
  cases pc with
  | find head =>
    cases head with
    | none =>
      intro hinserts
      rw [hother fun h => hrelies ⟨h, hinserts⟩, H.other]
      exact hother (fun h => hrelies ⟨h, hinserts⟩) ▸ hk hinserts
    | some i => exact hhead r.side hk
  | testHead node =>
    have hs := hother hrelies
    simp only [hs] at hk ⊢
    rwa [H.other]
  | setHead node =>
    have hs := hother hrelies
    simp only [hs] at hk ⊢
    rwa [H.other, H.head_other]
  | readTail node =>
    have hs := hother hrelies
    simp only [hs] at hk ⊢
    rwa [H.other, H.head_other]
  | add head node =>
    have hs := hother hrelies
    simp only [hs] at hk ⊢
    rwa [H.other, H.head_other]
  | readOther => exact ⟨hpos _ hk.1, fun hmatches => absurd hmatches hcritical⟩
  | findOther head =>
    cases head with
    | none => trivial
    | some i => exact ⟨hpos _ hk.1, hhead _ hk.2.1, fun hmatches => absurd hmatches hcritical⟩
  | addConnection cmd params => exact absurd trivial hcritical
  | sendWelcome => exact absurd trivial hcritical
  | _ => trivial

/-- A thread that is not about to register its client knows nothing about the registrations. -/
theorem Branch.Knows.congr {k : Branch} (hk : k.Knows n sh) (hhead : ∀ s, sh'.head s = sh.head s)
    (hcount : ∀ s, sh'.count s n = sh.count s n) (hcritical : k.Critical →
      sh'.registrations n = sh.registrations n ∧ sh'.welcomed n = sh.welcomed n) :
    k.Knows n sh' := by
  obtain ⟨r, pc⟩ := k
  obtain ⟨hname, hk⟩ := hk
  refine ⟨hname, ?_⟩
  cases pc with
  | find head => cases head <;> simpa only [hhead, hcount] using hk
  | testHead node => simpa only [hcount] using hk
  | setHead node => simpa only [hhead, hcount] using hk
  | readTail node => simpa only [hhead, hcount] using hk
  | add head node => simpa only [hhead, hcount] using hk
  | readOther =>
    refine ⟨(hcount r.side).symm ▸ hk.1, fun hmatches => ?_⟩
    rw [(hcritical hmatches).1]
    exact hk.2 hmatches
  | findOther head =>
    cases head with
    | none => trivial
    | some i =>
      refine ⟨(hcount r.side).symm ▸ hk.1, (hhead _).trans hk.2.1, fun hmatches => ?_⟩
      rw [(hcritical hmatches).1]
      exact hk.2.2 hmatches
  | addConnection cmd params =>
    rw [(hcritical trivial).1]
    exact ⟨fun s => (hcount s).symm ▸ hk.1 s, hk.2⟩
  | sendWelcome =>
    rw [(hcritical trivial).1, (hcritical trivial).2]
    exact hk
  | _ => trivial

/-- A step that does not add the name makes no thread critical. -/
theorem Request.Steps.critical {r : Request} {pc pc' : Pc} (h : r.Steps sh pc sh' (some pc'))
    (hstores : ¬ Branch.Stores ⟨r, pc⟩) (hcritical : Branch.Critical ⟨r, pc'⟩) :
    Branch.Critical ⟨r, pc⟩ := by
  cases h with
  | setHead => exact absurd trivial hstores
  | add => exact absurd trivial hstores
  | readOther =>
    cases hhead : sh.head r.side.other with
    | none =>
      rw [hhead] at hcritical
      exact hcritical.elim
    | some i =>
      rw [hhead] at hcritical
      exact hcritical
  | @findOther head _ _ hfind hmatches =>
    cases head with
    | none => exact absurd rfl hfind
    | some i => exact hmatches
  | addConnection => trivial
  | _ => exact hcritical.elim

/-! ## What a thread knows after its own step -/

theorem Stored.sane (H : Stored n s sh sh') (I : sh.Sane n) : sh'.Sane n := by
  have hnone : sh.registrations n = 0 := by
    by_contra hpos
    exact Nat.ne_of_gt (I.listed (Nat.pos_of_ne_zero hpos) s) H.before
  refine ⟨⟨fun s' => ?_, ?_, ?_⟩, H.wf, fun h => ?_, fun h => ?_⟩
  · rcases s.eq_or_eq_other s' with rfl | rfl
    · exact Nat.le_of_eq H.self
    · rw [H.other]
      exact I.list_le _
  · rw [H.registrations]
    exact I.registrations_le
  · rw [H.welcomed]
    exact I.welcomed_le
  · rw [H.registrations, hnone] at h
    exact absurd h (Nat.lt_irrefl 0)
  · rw [H.welcomed] at h
    rw [H.registrations]
    exact I.registered h

theorem Stored.posted {r : Request} (H : Stored n r.side sh sh') (I : sh.Sane n)
    (hname : r.name = n) : Branch.Knows n sh' ⟨r, .readOther⟩ := by
  refine ⟨hname, by rw [H.self]; exact Nat.zero_lt_one, fun _ => ?_⟩
  rw [H.registrations]
  by_contra hpos
  exact Nat.ne_of_gt (I.listed (Nat.pos_of_ne_zero hpos) r.side) H.before

theorem Shared.count_eq_zero {head : Option Nat} (hhead : sh.head s = head)
    (hfind : findUserNode (sh.nodes head) n = none) : sh.count s n = 0 := by
  rw [findUserNode_eq_none] at hfind
  rw [Shared.count, Shared.list, hhead]
  exact List.count_eq_zero.mpr hfind

theorem Shared.count_pos {head : Option Nat} (hhead : sh.head s = head)
    (hfind : findUserNode (sh.nodes head) n ≠ none) : 0 < sh.count s n := by
  rw [ne_eq, findUserNode_eq_none, not_not] at hfind
  rw [Shared.count, Shared.list, hhead]
  exact List.count_pos_iff.mpr hfind

/-- The name is registered. -/
theorem registrations_connect (sh : Shared) (fd : Nat) (msg : Message) :
    ({ sh with connectionHash := addConnectionMapNode sh.connectionHash ⟨n, fd, .live msg⟩ } :
      Shared).registrations n = sh.registrations n + 1 := by
  simp [Shared.registrations, addConnectionMapNode]

/-- The client is welcomed. -/
theorem welcomed_send (sh : Shared) (fd : Nat) :
    ({ sh with welcomes := sh.welcomes ++ [(fd, n)] } : Shared).welcomed n = sh.welcomed n + 1 := by
  simp [Shared.welcomed]

/-- What is the same for the lists and the registrations is as sane. -/
theorem Shared.Sane.congr (I : sh.Sane n) (hwf : sh'.Wf)
    (hcount : ∀ s, sh'.count s n = sh.count s n)
    (hregistrations : sh'.registrations n = sh.registrations n)
    (hwelcomed : sh'.welcomed n = sh.welcomed n) : sh'.Sane n := by
  refine ⟨⟨fun s => ?_, ?_, ?_⟩, hwf, fun h s => ?_, fun h => ?_⟩
  · rw [hcount]
    exact I.list_le s
  · rw [hregistrations]
    exact I.registrations_le
  · rw [hwelcomed]
    exact I.welcomed_le
  · rw [hregistrations] at h
    rw [hcount]
    exact I.listed h s
  · rw [hwelcomed] at h
    rw [hregistrations]
    exact I.registered h

/-- The name is registered. -/
theorem Shared.Sane.connect (I : sh.Sane n) (hlisted : ∀ s, 0 < sh.count s n)
    (hnone : sh.registrations n = 0) (fd : Nat) (msg : Message) :
    Shared.Sane n { sh with
      connectionHash := addConnectionMapNode sh.connectionHash ⟨n, fd, .live msg⟩ } := by
  have hone := registrations_connect (n := n) sh fd msg
  rw [hnone, Nat.zero_add] at hone
  refine ⟨⟨I.list_le, Nat.le_of_eq hone, I.welcomed_le⟩, ⟨I.wf.1, I.wf.2⟩, fun _ => hlisted, ?_⟩
  intro _
  rw [hone]
  exact Nat.zero_lt_one

/-- The client is welcomed. -/
theorem Shared.Sane.send (I : sh.Sane n) (hregistered : 0 < sh.registrations n)
    (hnone : sh.welcomed n = 0) (fd : Nat) :
    Shared.Sane n { sh with welcomes := sh.welcomes ++ [(fd, n)] } := by
  have hone := welcomed_send (n := n) sh fd
  rw [hnone, Nat.zero_add] at hone
  exact ⟨⟨I.list_le, I.registrations_le, Nat.le_of_eq hone⟩, ⟨I.wf.1, I.wf.2⟩, I.listed,
    fun _ => hregistered⟩

theorem Request.Steps.stored {k : Branch} {o : Option Pc} (h : k.req.Steps sh k.pc sh' o)
    (H : sh.Wf) (hk : k.Knows n sh) (hstores : k.Stores) : Stored n k.req.side sh sh' := by
  rw [Branch.Stores] at hstores
  cases h.kind H hk with
  | quiet hnot => exact absurd hstores hnot
  | stores _ hstored => exact hstored
  | connects hpc =>
    rw [hpc] at hstores
    exact hstores.elim
  | welcomes hpc =>
    rw [hpc] at hstores
    exact hstores.elim

theorem Request.Steps.sane {r : Request} {pc : Pc} {o : Option Pc} (h : r.Steps sh pc sh' o)
    (I : sh.Sane n) (hk : Branch.Knows n sh ⟨r, pc⟩) : sh'.Sane n := by
  have hstored := Request.Steps.stored (k := ⟨r, pc⟩) h I.wf hk
  obtain ⟨rfl, hk⟩ := hk
  cases h with
  | setHead => exact (hstored trivial).sane I
  | add => exact (hstored trivial).sane I
  | @addConnection _ _ msg => exact I.connect hk.1 hk.2 r.fd msg
  | sendWelcome => exact I.send hk.1 hk.2 r.fd
  | addSockfdNick => exact I.congr ⟨I.wf.1, I.wf.2⟩ (fun s => by cases s <;> rfl) rfl rfl
  | _ => exact I

theorem Request.Steps.knows {r : Request} {pc pc' : Pc} (h : r.Steps sh pc sh' (some pc'))
    (I : sh.Sane n) (hk : Branch.Knows n sh ⟨r, pc⟩) : Branch.Knows n sh' ⟨r, pc'⟩ := by
  have hstored := Request.Steps.stored (k := ⟨r, pc⟩) h I.wf hk
  obtain ⟨rfl, hk⟩ := hk
  cases h with
  | findConnection => exact ⟨rfl, trivial⟩
  | readHead =>
    refine ⟨rfl, ?_⟩
    cases hhead : sh.head r.side with
    | none => exact fun _ => Shared.count_eq_zero hhead rfl
    | some i => exact rfl
  | @find head _ hfind hinserts hnode =>
    refine ⟨rfl, node_name hnode, ?_⟩
    cases head with
    | none => exact hk hinserts
    | some i => exact Shared.count_eq_zero hk hfind
  | testNull hhead => exact ⟨rfl, hk.1, hk.2, hhead⟩
  | testSet hhead => exact ⟨rfl, hk.1, hk.2, hhead⟩
  | setHead => exact (hstored trivial).posted I rfl
  | readTail => exact ⟨rfl, hk.1, hk.2.1, rfl⟩
  | add => exact (hstored trivial).posted I rfl
  | readOther =>
    refine ⟨rfl, ?_⟩
    cases hhead : sh.head r.side.other with
    | none => trivial
    | some i => exact ⟨hk.1, rfl, hk.2⟩
  | @findOther head _ _ hfind hmatches =>
    cases head with
    | none => exact absurd rfl hfind
    | some i =>
      obtain ⟨hown, hhead, hnone⟩ := hk
      refine ⟨rfl, fun s => ?_, hnone hmatches⟩
      rcases r.side.eq_or_eq_other s with rfl | rfl
      · exact hown
      · exact Shared.count_pos hhead hfind
  | @addConnection _ _ msg =>
    refine ⟨rfl, ?_, ?_⟩
    · rw [registrations_connect]
      exact Nat.succ_pos _
    · -- a welcome would have come after a registration
      by_contra hpos
      exact Nat.ne_of_gt (I.registered (Nat.pos_of_ne_zero hpos)) hk.2
  | sendWelcome => exact ⟨rfl, trivial⟩

end

/-! ## All threads -/

/-- The step of one thread does not add the name to a list that the other one relies on. -/
def Unrelied (_ : Shared) (k k' : Branch) : Prop := k.Stores → ¬ k'.Relies k.req.side

instance {sh : Shared} {k k' : Branch} : Decidable (Unrelied sh k k') :=
  inferInstanceAs (Decidable (_ → ¬ _))

theorem Branch.knows_first {r : Request} (hname : r.name = n) (sh : Shared) :
    Branch.Knows n sh ⟨r, r.first⟩ := by
  refine ⟨hname, ?_⟩
  rw [Request.first]
  cases r.side <;> trivial

theorem Branch.not_critical_first (r : Request) : ¬ Branch.Critical ⟨r, r.first⟩ := by
  rw [Branch.Critical, Request.first]
  cases r.side <;> exact id

/-- What a thread knows is kept by the steps of the others, and at most one of them is critical. -/
theorem Request.Steps.others {k k₂ : Branch} {o : Option Pc} (h : k.req.Steps sh k.pc sh' o)
    (I : sh.Sane n) (hk : k.Knows n sh) (hk₂ : k₂.Knows n sh)
    (hapart : ¬ (k.Critical ∧ k₂.Critical)) (hrelies : Unrelied sh k k₂) :
    k₂.Knows n sh' ∧ ∀ pc', o = some pc' → ¬ (Branch.Critical ⟨k.req, pc'⟩ ∧ k₂.Critical) := by
  cases h.kind I.wf hk with
  | quiet hstores hhead hcount hregistrations hwelcomed =>
    refine ⟨hk₂.congr hhead hcount fun _ => ⟨hregistrations, hwelcomed⟩, ?_⟩
    rintro pc' rfl ⟨hcritical, hcritical₂⟩
    exact hapart ⟨h.critical hstores hcritical, hcritical₂⟩
  | stores hstores H =>
    have hrelies := hrelies hstores
    exact ⟨H.knows I hk₂ hrelies, fun _ _ hboth => H.not_critical I hk₂ hrelies hboth.2⟩
  | connects hpc hsh =>
    have hcritical : ¬ k₂.Critical := fun h₂ => hapart ⟨by rw [Branch.Critical, hpc]; trivial, h₂⟩
    subst hsh
    refine ⟨hk₂.congr ?_ ?_ (absurd · hcritical), fun _ _ hboth => hcritical hboth.2⟩
    · exact fun s => by cases s <;> rfl
    · exact fun s => by cases s <;> rfl
  | welcomes hpc hsh =>
    have hcritical : ¬ k₂.Critical := fun h₂ => hapart ⟨by rw [Branch.Critical, hpc]; trivial, h₂⟩
    subst hsh
    refine ⟨hk₂.congr ?_ ?_ (absurd · hcritical), fun _ _ hboth => hcritical hboth.2⟩
    · exact fun s => by cases s <;> rfl
    · exact fun s => by cases s <;> rfl

/-- The proof outline: at most one thread is about to register its client. -/
def nameOutline (n : CStr) :
    Outline (registration fun r => r.name = n) (Shared.Ready n) Unrelied where
  inv := Shared.Sane n
  assert := Branch.Knows n
  apart k k' := ¬ (k.Critical ∧ k'.Critical)
  symm h := fun ⟨h₁, h₂⟩ => h ⟨h₂, h₁⟩
  inv_init {sh} H := by
    have hwelcomed : sh.welcomed n = 0 := by simp [Shared.welcomed, H.welcomes]
    refine ⟨⟨H.list_le, H.registrations_le, ?_⟩, H.wf, H.listed, ?_⟩ <;> simp [hwelcomed]
  assert_start {sh k} _ hk := by
    have H := Branch.knows_first hk.1 sh
    rwa [← hk.2] at H
  apart_start {k k'} hk := by
    have hcritical := Branch.not_critical_first k.req
    rw [← hk.2] at hcritical
    exact fun hboth => hcritical hboth.1
  step_own {sh k sh' o} I hk hstep := by
    obtain ⟨o', hsteps, rfl⟩ := registration_steps hstep
    refine ⟨hsteps.sane I hk, fun k' h => ?_⟩
    obtain ⟨pc', rfl, rfl⟩ := Option.map_eq_some_iff.mp h
    exact hsteps.knows I hk
  step_other {sh k k₂ sh' o} I hk hk₂ hapart hrelies hstep := by
    obtain ⟨o', hsteps, rfl⟩ := registration_steps hstep
    obtain ⟨hk₂', hapart'⟩ := hsteps.others I hk hk₂ hapart hrelies
    refine ⟨hk₂', fun k' h => ?_⟩
    obtain ⟨pc', rfl, rfl⟩ := Option.map_eq_some_iff.mp h
    exact hapart' pc' rfl

/-- **The name has at most one winner** in every run in which no thread adds it to a list that
another thread relies on. -/
theorem oneWinner_of_unrelied {tr : BranchHistory} {s : Conf Shared Branch Nat}
    (hrun : ((registration fun r => r.name = n).system (Shared.Ready n)).Run tr s)
    (hrelies : TransitionSystem.AllSteps (Undisturbed Unrelied) tr) : s.shared.OneWinner n :=
  ((nameOutline n).holds hrun hrelies).inv.toOneWinner

/-- Nothing is registered. -/
def Shared.empty : Shared := ⟨[], none, none, [], .empty, []⟩

theorem Shared.empty_ready (n : CStr) : Shared.empty.Ready n where
  wf := by
    have hnone : ∀ s, Shared.empty.head s = none := fun s => by cases s <;> rfl
    refine ⟨fun s i h => ?_, fun s i h => ?_⟩
    · rw [hnone] at h
      cases h
    · rw [hnone] at h
      cases h
  list_le s := by cases s <;> exact Nat.zero_le 1
  registrations_le := Nat.zero_le 1
  listed h := absurd h (Nat.lt_irrefl 0)
  welcomes := rfl

/-- `NICK amy` on descriptor 4 -/
def nickOfAmy : Request where
  side := .nick
  fd := 4
  msg := nickAmy
  name := lit "amy"
  command_eq := by decide
  name_eq := rfl
  alone _ := rfl

/-- `USER amy * * :Amy Pond` on descriptor 5 -/
def userOfAmy : Request where
  side := .user
  fd := 5
  msg := userAmy
  name := lit "amy"
  command_eq := by decide
  name_eq := rfl
  alone h := absurd h (by decide)

/-- The USER branch begins when the NICK branch has added its name, and both end. -/
def nickThenUser : List (Turn Branch Nat) :=
  .start 0 ⟨nickOfAmy, .findConnection⟩ :: List.replicate 5 (.step 0) ++
    [.step 0, .start 1 ⟨userOfAmy, .readHead⟩, .step 1, .step 0] ++ List.replicate 8 (.step 1)

theorem oneWinner_nickThenUser : ∃ (tr : BranchHistory) (s : Conf Shared Branch Nat),
    ((registration fun r => r.name = lit "amy").system (Shared.Ready (lit "amy"))).Run tr s ∧
      s.shared.welcomed (lit "amy") = 1 ∧
      s.shared.OneWinner (lit "amy") := by
  have hfollows : (registration fun r => r.name = lit "amy").followsTo Shared.empty nickThenUser
      (fun tr s => TransitionSystem.AllSteps (UndisturbedAmong [0, 1] Unrelied) tr ∧
        s.shared.welcomed (lit "amy") = 1) = true := by decide +kernel
  obtain ⟨tr, s, hrun, h⟩ := run_of_followsTo (Shared.empty_ready (lit "amy")) hfollows
  obtain ⟨hrelies, hwelcomed⟩ := of_decide_eq_true h
  exact ⟨tr, s, hrun, hwelcomed, oneWinner_of_unrelied hrun (allSteps_undisturbed hrun hrelies).1⟩

/-- Both branches add their name before either looks for it in the other list. -/
def nickWithUser : List (Turn Branch Nat) :=
  .start 0 ⟨nickOfAmy, .findConnection⟩ :: .start 1 ⟨userOfAmy, .readHead⟩ ::
    List.replicate 5 (.step 0) ++ List.replicate 4 (.step 1) ++
      [.step 0, .step 0, .step 1, .step 1] ++ [.step 0, .step 0, .step 1, .step 1]

/-- Then both find it, and both register it. -/
theorem oneWinner_twoWinners : ∃ (tr : BranchHistory) (s : Conf Shared Branch Nat),
    ((registration fun r => r.name = lit "amy").system (Shared.Ready (lit "amy"))).Run tr s ∧
      s.shared.registrations (lit "amy") = 2 ∧ s.shared.welcomed (lit "amy") = 2 ∧
      ¬ s.shared.OneWinner (lit "amy") := by
  have hfollows : (registration fun r => r.name = lit "amy").followsTo Shared.empty nickWithUser
      (fun _ s => s.shared.registrations (lit "amy") = 2 ∧ s.shared.welcomed (lit "amy") = 2) =
        true := by decide +kernel
  obtain ⟨tr, s, hrun, h⟩ := run_of_followsTo (Shared.empty_ready (lit "amy")) hfollows
  obtain ⟨hregistrations, hwelcomed⟩ := of_decide_eq_true h
  refine ⟨tr, s, hrun, hregistrations, hwelcomed, fun H => ?_⟩
  have := H.registrations_le
  omega

end Chirc
