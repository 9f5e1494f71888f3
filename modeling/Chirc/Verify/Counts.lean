import Chirc.Verify.Counters
import Chirc.Verify.Spelling

/-! # Two more counts

LUSERS announces the size of `connection_hash` twice, the second time as it is found by a walk that
takes the nodes for those of another struct. `registered_connection_count` goes down when a
connection ends and is masked by each NICK, and nothing adds to it. -/

namespace Chirc

open TransitionSystem

/-! ## The size of `connection_hash` -/

/-- Numbers of 31 bits are printed as they are. -/
theorem fmtD_eq {n : Nat} (h : n < 2147483648) : fmtD n = lit (toString n) := by
  have hsize : (UInt32.size : Int) = 4294967296 := rfl
  rw [fmtD, Int.bmod_eq_of_le (by omega) (by omega)]
  rfl

/-- The characters of a number can be told from its bytes. -/
theorem map_ofNat_lit (n : Nat) :
    (lit (toString n)).map (fun b => Char.ofNat b.toNat) = Nat.toDigits 10 n := by
  have hrepr : toString n = n.repr := rfl
  rw [lit, List.map_map, hrepr, Nat.toList_repr]
  refine (List.map_congr_left fun c hc => ?_).trans (List.map_id _)
  have hdigit := Nat.isDigit_of_mem_toDigits (by decide) (by decide) hc
  rw [Char.isDigit, Bool.and_eq_true, decide_eq_true_iff, decide_eq_true_iff] at hdigit
  have hle : c.toNat ≤ 57 := UInt32.le_iff_toNat_le.mp hdigit.2
  have hbyte : c.toNat.toUInt8.toNat = c.toNat := by
    simp
    omega
  rw [Function.comp_apply, hbyte, Char.ofNat_toNat, id_eq]

theorem lit_toString_inj {n k : Nat} (h : lit (toString n) = lit (toString k)) : n = k := by
  rw [← Nat.ofDigitChars_ten_toDigits (n := n), ← map_ofNat_lit, h, map_ofNat_lit,
    Nat.ofDigitChars_ten_toDigits]

/-- The replies announce `n` users in RPL_LUSERCLIENT and `n` clients in RPL_LUSERME. -/
structure Announces (n : Nat) (ms : List Message) : Prop where
  users : ∃ m ∈ ms, m.cmd = rplLuserclient ∧ m.params.getLast? =
    some (lit "There are " ++ lit (toString n) ++ lit " users and 0 services on 1 servers")
  clients : ∃ m ∈ ms, m.cmd = rplLuserme ∧ m.params.getLast? =
    some (lit "I have " ++ lit (toString n) ++ lit " clients and 1 servers")

theorem announces_lusersReplies_iff :
    Announces n (lusersReplies ctx nick users unknown clients) ↔
      fmtD users = lit (toString n) ∧ fmtD clients = lit (toString n) := by
  constructor
  · intro H
    obtain ⟨m, hm, hcode, husers⟩ := H.users
    obtain ⟨m', hm', hcode', hclients⟩ := H.clients
    simp only [lusersReplies, List.mem_cons, List.not_mem_nil, or_false] at hm hm'
    constructor
    · rcases hm with rfl | rfl | rfl | rfl | rfl
      · simpa using husers
      · cases hcode
      · cases hcode
      · cases hcode
      · cases hcode
    · rcases hm' with rfl | rfl | rfl | rfl | rfl
      · cases hcode'
      · cases hcode'
      · cases hcode'
      · cases hcode'
      · simpa using hclients
  · intro h
    obtain ⟨husers, hclients⟩ := h
    refine ⟨⟨_, List.mem_cons_self, rfl, ?_⟩, ⟨_, List.mem_of_getLast? rfl, rfl, ?_⟩⟩
    · rw [← husers]
      rfl
    · rw [← hclients]
      rfl

/-- **LUSERS announces the size of `connection_hash` twice** exactly if the table has one node at
most. -/
theorem announces_iff (h : responseLusers ctx nick w = .ok w') :
    (∃ ms, w'.out = w.out ++ ms ∧ Announces w.srv.connectionHash.length ms) ↔
      w.srv.connectionHash.length ≤ 1 := by
  obtain ⟨-, rfl⟩ := responseLusers_eq_ok.mp h
  have hsame : (∃ ms, (w.send (w.srv.lusers ctx nick)).out = w.out ++ ms ∧
      Announces w.srv.connectionHash.length ms) ↔
      Announces w.srv.connectionHash.length (w.srv.lusers ctx nick) := by
    simp only [Work.send_out, List.append_cancel_left_eq, exists_eq_left']
  rw [hsame, Server.lusers, announces_lusersReplies_iff, Server.lusersUsers,
    getConnectionMapNodeSize, getSockfdNickMapNodeSize_eq]
  constructor
  · intro hnumbers
    rw [fmtD_eq (Nat.lt_of_le_of_lt (Nat.min_le_right _ _) (by decide))] at hnumbers
    have := lit_toString_inj hnumbers.2
    omega
  · intro hone
    rw [Nat.min_eq_left hone, fmtD_eq (Nat.lt_of_le_of_lt hone (by decide))]
    exact ⟨rfl, rfl⟩

theorem announces_registerAmy : ∃ tr σ w', Run plainServer tr σ ∧
    σ.server.connectionHash.length = 1 ∧
    responseLusers plainServer (lit "amy") ⟨σ.server, [], [], false⟩ = .ok w' ∧
    ∃ ms, w'.out = [] ++ ms ∧ Announces σ.server.connectionHash.length ms := by
  obtain ⟨tr, σ, -, hrun, h⟩ := run_of_playsTo plainServer registerAmy
    (fun _ σ => σ.server.connectionHash.length = 1 ∧
      ∀ m ∈ σ.server.lusers plainServer (lit "amy"), m.Fits) (by decide +kernel)
  obtain ⟨hone, hfits⟩ := of_decide_eq_true h
  have hsent : responseLusers plainServer (lit "amy") ⟨σ.server, [], [], false⟩ = .ok _ :=
    responseLusers_eq_ok.mpr ⟨hfits, rfl⟩
  exact ⟨tr, σ, _, hrun, hone, hsent, (announces_iff hsent).mpr (Nat.le_of_eq hone)⟩

/-- Two clients are registered, and the first one asks. -/
def lusersOfTwo : List Event :=
  registerAmy ++ [.accept 5, .recv 1 (lit "NICK bob\r\nUSER bob * * :Bob\r\n"), .line 1, .line 1,
    .recv 0 (lit "LUSERS\r\n"), .line 0]

/-- The table has two nodes, and the reply is that there is one client. -/
theorem announces_lusersOfTwo : ∃ tr σ, play plainServer lusersOfTwo = .ok (tr, σ) ∧
    σ.server.connectionHash.length = 2 ∧
    tr.head?.map (·.2.sentTo 0) = some (lusersReplies plainServer (lit "amy") 2 0 1) ∧
    ¬ Announces 2 (lusersReplies plainServer (lit "amy") 2 0 1) := by
  obtain ⟨tr, σ, hplay, -, h⟩ := run_of_playsTo plainServer lusersOfTwo
    (fun tr σ => σ.server.connectionHash.length = 2 ∧
      tr.head?.map (·.2.sentTo 0) = some (lusersReplies plainServer (lit "amy") 2 0 1))
    (by decide +kernel)
  obtain ⟨htwo, hsent⟩ := of_decide_eq_true h
  refine ⟨tr, σ, hplay, htwo, hsent, ?_⟩
  rw [announces_lusersReplies_iff]
  decide +kernel

/-! ## `registered_connection_count` -/

/-- `registered_connection_count` is the number of open connections that are registered. -/
def RegisteredCounted (tr : History) (σ : Sys) : Prop :=
  σ.server.registeredConnectionCount = σ.openRegistered tr

/-- The step ends no connection, and completes no registration of one that is open. -/
def KeepsRegistered (_ : History) (σ : Sys) (l : Label) : Prop :=
  l.closes = none ∧ ∀ fd ∈ l.registersOn σ, σ.connOn fd = none

instance : Decidable (RegisteredCounted tr σ) := inferInstanceAs (Decidable (_ = _))

instance : Decidable (KeepsRegistered tr σ l) := inferInstanceAs (Decidable (_ ∧ _))

/-- What a message makes of `registered_connection_count`. -/
def recount (msg : Message) (n : Int) : Int :=
  match command msg.cmd with
  | .quit => n - 1
  | .nick => n % 2
  | _ => n

theorem Handled.registeredConnectionCount {w w' : Work} (H : Handled ctx fd msg w w') :
    w'.srv.registeredConnectionCount = recount msg w.srv.registeredConnectionCount := by
  rw [recount]
  cases H <;> simp [*, Work.complain, Work.registered, Server.uncount, Server.mask, Server.bind,
    Server.addNick, Server.addUser, Server.freeMsg]

/-- A count of zero changes only when a connection ends. -/
theorem Step.registeredConnectionCount {σ σ' : Sys} (H : Step ctx σ l σ')
    (hzero : σ.server.registeredConnectionCount = 0) :
    σ'.server.registeredConnectionCount = if l.closes = none then 0 else -1 := by
  cases H with
  | accept => exact hzero
  | recv => exact hzero
  | blank => exact hzero
  | hangup t th =>
    change σ.server.registeredConnectionCount - 1 = -1
    rw [hzero]
    rfl
  | command t th p line msg w hth hp hparses hw =>
    have hcount := (dispatch_handled hw).registeredConnectionCount
    change _ = recount msg σ.server.registeredConnectionCount at hcount
    rw [Sys.handled_server, hcount, hzero, recount, Label.closes]
    cases Chirc.command msg.cmd <;> rfl

theorem Sys.openRegistered_eq_zero {σ : Sys} :
    σ.openRegistered tr = 0 ↔ ∀ d ∈ σ.conns, registered tr d.id = none := by
  simp [openRegistered]

/-- While no connection is registered, a step changes this only if it completes the registration of
one that is open. -/
theorem Step.openRegistered_eq_zero {σ σ' : Sys} (H : Step ctx σ l σ') (hrun : Run ctx tr σ)
    (hzero : σ.openRegistered tr = 0) : σ'.openRegistered ((σ, l) :: tr) = 0 ↔
      ∀ fd ∈ l.registersOn σ, σ.connOn fd = none := by
  obtain ⟨b, hb⟩ := hrun.represents
  rw [Sys.openRegistered_eq_zero] at hzero ⊢
  cases H.move hb tr with
  | quiet hcloses hreg hconns hbound htags hcount hregd =>
    rw [hconns, hreg]
    exact iff_of_true (fun d hd => (hregd _).trans (hzero d hd)) (by simp)
  | accept fd hcloses hreg hfree hconns hbound htags hcount hregd =>
    rw [hconns, hreg]
    refine iff_of_true (fun d hd => ?_) (by simp)
    rw [hregd]
    rcases List.mem_cons.mp hd with rfl | hd
    · exact hrun.registered_next
    · exact hzero d hd
  | register fd nick hcloses hreg hname hconns hfresh hbound htags hcount hregd hothers =>
    rw [hconns, hreg]
    simp only [Option.mem_some_iff, forall_eq']
    constructor
    · intro hnone
      cases hc : σ.connOn fd with
      | none => rfl
      | some c =>
        have hnamed := hnone _ (Sys.mem_conns_of_connOn hc)
        rw [hregd c hc] at hnamed
        cases hnamed
    · intro hfree d hd
      rw [hothers d.id (by simp [hfree])]
      exact hzero d hd
  | close fd hcloses hreg hconns hbound htags hcount hregd =>
    rw [hconns, hreg]
    refine iff_of_true (fun d hd => ?_) (by simp)
    rw [hregd]
    exact hzero d (List.mem_of_mem_filter hd)

/-- The count is right from the start, and while it is zero. -/
theorem Run.registered_zero {σ : Sys} (hrun : Run ctx tr σ) (hkeeps : AllSteps KeepsRegistered tr) :
    σ.server.registeredConnectionCount = 0 ∧ σ.openRegistered tr = 0 := by
  refine TransitionSystem.Run.invariant_of_allSteps (P := fun tr σ =>
    σ.server.registeredConnectionCount = 0 ∧ σ.openRegistered tr = 0) ?_ ?_ hrun hkeeps
  · rintro _ rfl
    exact ⟨rfl, rfl⟩
  · intro tr σ l σ' hrun ih hkeeps hstep
    have hstep := step_cases hstep
    refine ⟨?_, (hstep.openRegistered_eq_zero hrun ih.2).mpr hkeeps.2⟩
    rw [hstep.registeredConnectionCount ih.1, if_pos hkeeps.1]

theorem registeredCounted_step {σ σ' : Sys} (hrun : Run ctx tr σ)
    (hkeeps : AllSteps KeepsRegistered tr) (hstep : (chirc ctx).step σ l σ') :
    RegisteredCounted ((σ, l) :: tr) σ' ↔ KeepsRegistered tr σ l := by
  obtain ⟨hcount, hopen⟩ := Run.registered_zero hrun hkeeps
  have hstep := step_cases hstep
  rw [RegisteredCounted, KeepsRegistered, hstep.registeredConnectionCount hcount,
    ← hstep.openRegistered_eq_zero hrun hopen]
  by_cases hcloses : l.closes = none
  · rw [if_pos hcloses]
    constructor
    · intro h
      exact ⟨hcloses, by omega⟩
    · intro h
      rw [h.2]
      rfl
  · rw [if_neg hcloses]
    exact iff_of_false (by omega) fun h => hcloses h.1

/-- **`registered_connection_count` is right in every state of a run** exactly if no step of the run
ends a connection, or completes the registration of one that is open. -/
theorem registeredCounted_iff {σ : Sys} (hrun : Run ctx tr σ) :
    AllStates RegisteredCounted tr σ ↔ AllSteps KeepsRegistered tr := by
  refine Run.allStates_iff_allSteps ?_ (fun hrun hkeeps _ => registeredCounted_step hrun hkeeps)
    hrun
  rintro _ rfl
  rfl

/-- A client that has sent its nick only. -/
theorem registeredCounted_nick : ∃ tr σ,
    play plainServer [.accept 4, .recv 0 (lit "NICK amy\r\n"), .line 0] = .ok (tr, σ) ∧
    AllStates RegisteredCounted tr σ := by
  obtain ⟨tr, σ, hplay, hrun, h⟩ := run_of_playsTo plainServer
    [.accept 4, .recv 0 (lit "NICK amy\r\n"), .line 0] (fun tr _ => AllSteps KeepsRegistered tr)
    (by decide +kernel)
  exact ⟨tr, σ, hplay, (registeredCounted_iff hrun).mpr (of_decide_eq_true h)⟩

/-- A client that disconnects at once is taken off. -/
theorem registeredCounted_eof :
    ∃ tr σ, play plainServer [.accept 4, .eof 0] = .ok (tr, σ) ∧ ¬ RegisteredCounted tr σ ∧
      σ.server.registeredConnectionCount = -1 := by
  obtain ⟨tr, σ, hplay, -, h⟩ := run_of_playsTo plainServer [.accept 4, .eof 0]
    (fun tr σ => ¬ RegisteredCounted tr σ ∧ σ.server.registeredConnectionCount = -1)
    (by decide +kernel)
  exact ⟨tr, σ, hplay, of_decide_eq_true h⟩

end Chirc
