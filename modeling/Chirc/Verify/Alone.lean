import Chirc.Verify.HeadRace
import Chirc.Verify.Tables

/-! # A thread alone

A thread that takes all its steps with no steps of others in between does to the shared variables
what the dispatcher does to the tables. The handling of NICK and USER as one step is therefore one
of the interleavings. The tables of every server state are tables that threads can begin with. -/

namespace Chirc

open ThreadProgram

/-- The list of a side in the tables of the server. -/
def Server.list (srv : Server) : Side → List UserNode
  | .nick => srv.nickHead
  | .user => srv.userHead

/-- The server with a node added to the list of a side. -/
def Server.add (srv : Server) (node : UserNode) : Side → Server
  | .nick => { srv with nickHead := addUserNode srv.nickHead node }
  | .user => { srv with userHead := addUserNode srv.userHead node }

/-- The shared variables show the tables of the server. -/
structure Shared.Shows (sh : Shared) (srv : Server) : Prop where
  wf : sh.Wf
  list : ∀ s, sh.list s = srv.list s
  connectionHash : sh.connectionHash = srv.connectionHash
  sockfdNickHash : sh.sockfdNickHash = srv.sockfdNickHash

/-- The thread `r`, which is at `pc`, ends alone with the tables of `srv`, and sends the welcomes
that are among the replies `out`. -/
def Finishes (r : Request) (sh : Shared) (pc : Pc) (srv : Server) (out : List Message) : Prop :=
  ∃ sh', (registration fun _ => True).Alone sh ⟨r, pc⟩ sh' ∧ sh'.Shows srv ∧
    sh'.welcomes = sh.welcomes ++ ((welcomedAs out).map (r.fd, ·)).toList

section
variable {r : Request} {sh sh' : Shared} {srv srv' : Server} {out : List Message} {pc pc' : Pc}

theorem registration_step {o : Option Pc} (h : r.step sh pc = .ok (sh', o)) :
    (registration fun _ => True).step sh ⟨r, pc⟩ = .ok (sh', o.map (Branch.mk r)) := by
  simp only [registration, h]
  rfl

theorem Finishes.last (h : r.step sh pc = .ok (sh, none)) (H : sh.Shows srv)
    (hout : welcomedAs out = none) : Finishes r sh pc srv out :=
  ⟨sh, .last (registration_step h), H, by simp [hout]⟩

theorem Finishes.step (h : r.step sh pc = .ok (sh', some pc'))
    (hwelcomes : sh'.welcomes = sh.welcomes) (H : Finishes r sh' pc' srv out) :
    Finishes r sh pc srv out := by
  obtain ⟨sh'', halone, hshows, hw⟩ := H
  exact ⟨sh'', .cons (registration_step h) halone, hshows, hwelcomes ▸ hw⟩

theorem Shared.Shows.add (H : sh.Shows srv) (hwf : sh'.Wf)
    (hself : sh'.list s = addUserNode (sh.list s) node)
    (hother : sh'.list s.other = sh.list s.other)
    (hconn : sh'.connectionHash = sh.connectionHash)
    (htags : sh'.sockfdNickHash = sh.sockfdNickHash) : sh'.Shows (srv.add node s) := by
  refine ⟨hwf, fun s' => ?_, ?_, ?_⟩
  · rcases s.eq_or_eq_other s' with rfl | rfl
    · rw [hself, H.list]
      cases s' <;> rfl
    · rw [hother, H.list]
      cases s <;> rfl
  · rw [hconn, H.connectionHash]
    cases s <;> rfl
  · rw [htags, H.sockfdNickHash]
    cases s <;> rfl

/-- The node is added to the list of the thread. -/
theorem Finishes.store {node : UserNode} (H : sh.Shows srv)
    (hfin : ∀ sh₁, sh₁.Shows (srv.add node r.side) → Finishes r sh₁ .readOther srv' out) :
    Finishes r sh (.testHead node) srv' out := by
  cases hhead : sh.head r.side with
  | none =>
    have hshows : (sh.setHead r.side node).Shows (srv.add node r.side) := by
      refine H.add (H.wf.setHead _ _) ?_ (Shared.list_setHead_other H.wf _ _)
        (Shared.connectionHash_setHead _ _) (by cases r.side <;> rfl)
      rw [Shared.list_setHead_self, Shared.list_of_head_none hhead]
      rfl
    have htest : r.step sh (.testHead node) = .ok (sh, some (.setHead node)) := by
      rw [Request.step, if_pos hhead]
    exact .step htest rfl (.step rfl (Shared.welcomes_setHead _ _) (hfin _ hshows))
  | some i =>
    have hshows : (sh.addTo i node).Shows (srv.add node r.side) :=
      H.add (H.wf.addTo _ _) (Shared.list_addTo_self H.wf hhead node)
        (Shared.list_addTo_other H.wf hhead node) rfl rfl
    have htest : r.step sh (.testHead node) = .ok (sh, some (.readTail node)) := by
      rw [Request.step, if_neg (by rw [hhead]; exact Option.some_ne_none i)]
    have hread : r.step sh (.readTail node) = .ok (sh, some (.add (some i) node)) := by
      rw [Request.step, hhead]
    exact .step htest rfl (.step hread rfl (.step rfl rfl (hfin _ hshows)))

/-- The registration, when the name has been found in the other list. -/
theorem Finishes.register (H : sh.Shows srv) (hname : r.name.length < 128)
    (hlen : params.length ≤ 15) (ctx : Ctx) (srv' : Server) :
    Finishes r sh (.addConnection cmd params)
      (srv.bind r.fd r.name (storedMessage cmd params))
      (registrationReplies ctx srv' r.name r.name) := by
  have hkey : copyName r.name = .ok r.name := copyName_eq_ok.mpr ⟨hname, rfl⟩
  have hadd : addParameters (chircMessageConstruct none cmd) (copiedParams params) =
      .ok (storedMessage cmd params) := by
    refine (addParameters_eq_ok (by simp [chircMessageConstruct])).mpr ⟨?_, rfl⟩
    exact (congrArg List.length (storedMessage_params)).symm ▸ hlen
  let node : ConnectionMap := ⟨r.name, r.fd, .live (storedMessage cmd params)⟩
  let sh₁ : Shared :=
    { sh with connectionHash := addConnectionMapNode sh.connectionHash node }
  let sh₂ : Shared := { sh₁ with welcomes := sh.welcomes ++ [(r.fd, r.name)] }
  let sh₃ : Shared :=
    { sh₂ with sockfdNickHash := addSockfdNickMapNode sh.sockfdNickHash ⟨r.fd, r.name⟩ }
  have h₁ : r.step sh (.addConnection cmd params) = .ok (sh₁, some .sendWelcome) := by
    simp only [Request.step, hkey, Res.ok_bind, hadd]
    rfl
  have h₂ : r.step sh₁ .sendWelcome = .ok (sh₂, some .addSockfdNick) := rfl
  have h₃ : r.step sh₂ .addSockfdNick = .ok (sh₃, none) := by
    simp only [Request.step, hkey, Res.ok_bind]
    rfl
  have halone : (registration fun _ => True).Alone sh ⟨r, .addConnection cmd params⟩ sh₃ :=
    .cons (registration_step h₁) (.cons (registration_step h₂) (.last (registration_step h₃)))
  refine ⟨sh₃, halone, ⟨⟨H.wf.1, H.wf.2⟩, fun s => ?_, ?_, ?_⟩, ?_⟩
  · have hlist : sh₃.list s = sh.list s := by cases s <;> rfl
    rw [hlist, H.list]
    cases s <;> rfl
  · exact congrArg (addConnectionMapNode · _) H.connectionHash
  · exact congrArg (addSockfdNickMapNode · _) H.sockfdNickHash
  · rw [welcomedAs_registrationReplies]
    rfl

theorem Shared.Shows.mask (H : sh.Shows srv) : sh.Shows srv.mask where
  wf := H.wf
  list s := by
    rw [H.list]
    cases s <;> rfl
  connectionHash := H.connectionHash
  sockfdNickHash := H.sockfdNickHash

/-- The name is on the own list. -/
theorem Finishes.found (H : sh.Shows srv) (hout : welcomedAs out = none)
    (hfind : findUserNode (srv.list r.side) r.name = some node) :
    Finishes r sh .readHead srv out := by
  rw [← H.list] at hfind
  have hstep : r.step sh (.find (sh.head r.side)) = .ok (sh, none) := by
    rw [Request.step]
    split
    · rfl
    · rw [Shared.list] at hfind
      rw [hfind]
  exact .step rfl rfl (.last hstep H hout)

/-- The name is added to the own list. -/
theorem Finishes.insert {node : UserNode} (H : sh.Shows srv) (hinserts : r.Inserts)
    (hfind : findUserNode (srv.list r.side) r.name = none) (hnode : r.node = .ok node)
    (hfin : ∀ sh₁, sh₁.Shows (srv.add node r.side) → Finishes r sh₁ .readOther srv' out) :
    Finishes r sh .readHead srv' out := by
  rw [← H.list] at hfind
  have hlen : ¬ (r.side = .user ∧ r.msg.params.length < 4) := by
    rintro ⟨hside, hlt⟩
    rcases hinserts with hnick | hle
    · rw [hside] at hnick
      cases hnick
    · exact absurd hlt (Nat.not_lt.mpr hle)
  have hstep : r.step sh (.find (sh.head r.side)) = .ok (sh, some (.testHead node)) := by
    rw [Shared.list] at hfind
    simp only [Request.step, if_neg hlen, hfind, hnode, Res.ok_bind]
    rfl
  exact .step rfl rfl (.step hstep rfl (.store H hfin))

/-- The name is not on the other list, or the command does not register. -/
theorem Finishes.unmatched (H : sh.Shows srv) (hout : welcomedAs out = none)
    (hfind : findUserNode (srv.list r.side.other) r.name = none ∨ ∃ node,
      findUserNode (srv.list r.side.other) r.name = some node ∧ r.matched node = .ok none) :
    Finishes r sh .readOther srv out := by
  rw [← H.list, Shared.list] at hfind
  have hstep : r.step sh (.findOther (sh.head r.side.other)) = .ok (sh, none) := by
    rcases hfind with hnone | ⟨node, hsome, hmatched⟩
    · simp only [Request.step, hnone]
    · simp only [Request.step, hsome, hmatched, Res.ok_bind]
      rfl
  exact .step rfl rfl (.last hstep H hout)

/-- The name is on the other list, and the command registers. -/
theorem Finishes.matched {node : UserNode} (H : sh.Shows srv)
    (hfind : findUserNode (srv.list r.side.other) r.name = some node)
    (hmatched : r.matched node = .ok (some (cmd, params)))
    (hfin : Finishes r sh (.addConnection cmd params) srv' out) :
    Finishes r sh .readOther srv' out := by
  rw [← H.list, Shared.list] at hfind
  have hstep : r.step sh (.findOther (sh.head r.side.other)) =
      .ok (sh, some (.addConnection cmd params)) := by
    simp only [Request.step, hfind, hmatched, Res.ok_bind]
    rfl
  exact .step rfl rfl (.step hstep rfl hfin)

/-- The replies to a registration welcome the nick. -/
theorem Finishes.registered {w : Work} (H : sh.Shows w.srv) (hout : w.out = [])
    (hfits : RegistrationFits ctx (w.srv.bind r.fd r.name (storedMessage cmd params)) r.name r.name
      (storedMessage cmd params)) :
    Finishes r sh (.addConnection cmd params)
      (w.registered ctx r.fd r.name r.name (storedMessage cmd params)).srv
      (w.registered ctx r.fd r.name r.name (storedMessage cmd params)).out := by
  have hlen := hfits.stored_le
  rw [storedMessage_params] at hlen
  rw [Work.registered_out, hout, List.nil_append]
  exact .register H hfits.nick_lt hlen ctx _

theorem welcomedAs_complain {w : Work} (hcode : code ≠ rplWelcome) (hout : w.out = []) :
    welcomedAs (w.complain ctx nick code ps text).out = none := by
  refine welcomedAs_eq_none fun m hm => ?_
  simp only [Work.complain, Work.send_out, Work.scribble_out, hout, List.nil_append,
    List.mem_singleton] at hm
  rw [hm]
  exact hcode

theorem welcomedAs_nil {w : Work} (hout : w.out = []) : welcomedAs w.out = none := by
  rw [hout]
  rfl

theorem Finishes.nick {w w' : Work} (hside : r.side = .nick) (H : sh.Shows w.srv)
    (hout : w.out = []) (h : onNick ctx r.fd r.msg w = .ok w') :
    Finishes r sh .findConnection w'.srv w'.out := by
  have hparams := r.alone hside
  have hlist : w.srv.mask.list r.side = w.srv.nickHead := by rw [hside]; rfl
  simp only [onNick, hparams] at h
  split at h
  · next node hnode =>
    obtain ⟨-, rfl⟩ := (complain_eq_ok fun _ => lit "*").mp h
    have hstep : r.step sh .findConnection = .ok (sh, none) := by
      simp only [Request.step, H.connectionHash, hnode]
    exact .last hstep H.mask (welcomedAs_complain (by decide) hout)
  · next hnode =>
    have hstep : r.step sh .findConnection = .ok (sh, some .readHead) := by
      simp only [Request.step, H.connectionHash, hnode]
    refine .step hstep rfl ?_
    split at h
    · next node hnick =>
      cases h
      exact .found H.mask (welcomedAs_nil hout) (hlist ▸ hnick)
    · next hnick =>
      simp only [Except.bind_eq_ok, copyName_eq_ok] at h
      obtain ⟨_, ⟨hlen, rfl⟩, h⟩ := h
      have hnode : r.node = .ok ⟨r.name, none⟩ := by
        rw [Request.node, copyName_eq_ok.mpr ⟨hlen, rfl⟩, hside]
        rfl
      refine .insert H.mask (.inl hside) (hlist ▸ hnick) hnode fun sh₁ H₁ => ?_
      rw [hside] at H₁
      have hother {o} (h : findUserNode w.srv.userHead r.name = o) :
          findUserNode ((w.srv.mask.addNick r.name).list r.side.other) r.name = o := by
        rw [hside]
        exact h
      split at h
      · next huser =>
        cases h
        exact .unmatched H₁ (welcomedAs_nil hout) (.inl (hother huser))
      · next node huser =>
        split at h
        · cases h
        · next user hmsg =>
          rw [findUserNode_name huser] at h
          obtain ⟨hfits, rfl⟩ := completeRegistration_eq_ok.mp h
          have hmatched : r.matched node = .ok (some (user.cmd, user.params)) := by
            simp only [Request.matched, hside, hmsg]
          exact .matched H₁ (hother huser) hmatched (.registered H₁ hout hfits)

theorem Finishes.user {w w' : Work} (hside : r.side = .user) (H : sh.Shows w.srv)
    (hout : w.out = []) (h : onUser ctx r.fd r.msg w = .ok w') :
    Finishes r sh .readHead w'.srv w'.out := by
  have hlist : w.srv.list r.side = w.srv.userHead := by rw [hside]; rfl
  simp only [onUser] at h
  obtain ⟨name, hname, h⟩ := Except.bind_eq_ok.mp h
  rw [firstParam_eq_ok, r.name_eq] at hname
  obtain rfl := Option.some.inj hname
  split at h
  · next hlen =>
    obtain ⟨-, rfl⟩ := (complain_eq_ok leastNick).mp h
    have hstep : r.step sh (.find (sh.head r.side)) = .ok (sh, none) := if_pos ⟨hside, hlen⟩
    exact .step rfl rfl (.last hstep H (welcomedAs_complain (by decide) hout))
  · next hlen =>
    split at h
    · next node huser =>
      cases h
      exact .found H (welcomedAs_nil hout) (hlist ▸ huser)
    · next huser =>
      simp only [Except.bind_eq_ok, copyName_eq_ok] at h
      obtain ⟨_, ⟨hlt, rfl⟩, copy, hcopy, h⟩ := h
      have hnode : r.node = .ok ⟨r.name, some copy⟩ := by
        rw [Request.node, copyName_eq_ok.mpr ⟨hlt, rfl⟩, hside]
        simp only [Res.ok_bind, hcopy]
        rfl
      refine .insert H (.inr (Nat.le_of_not_lt hlen)) (hlist ▸ huser) hnode fun sh₁ H₁ => ?_
      rw [hside] at H₁
      have hother {o} (h : findUserNode w.srv.nickHead r.name = o) :
          findUserNode ((w.srv.addUser r.name copy).list r.side.other) r.name = o := by
        rw [hside]
        exact h
      split at h
      · next hnick =>
        cases h
        exact .unmatched H₁ (welcomedAs_nil hout) (.inl (hother hnick))
      · next node hnick =>
        split at h
        · next hfour =>
          rw [findUserNode_name hnick] at h
          obtain ⟨hfits, rfl⟩ := completeRegistration_eq_ok.mp h
          have hmatched : r.matched node = .ok (some (r.msg.cmd, r.msg.params)) := by
            simp only [Request.matched, hside, if_pos hfour]
          exact .matched H₁ (hother hnick) hmatched (.registered H₁ hout hfits)
        · next hfour =>
          cases h
          have hmatched : r.matched node = .ok none := by
            simp only [Request.matched, hside, if_neg hfour]
          exact .unmatched H₁ (welcomedAs_nil hout) (.inr ⟨node, hother hnick, hmatched⟩)

/-- A thread that handles its command alone leaves the tables as the dispatcher does, and sends the
same welcomes. -/
theorem dispatch_finishes {w w' : Work} (H : sh.Shows w.srv) (hout : w.out = [])
    (h : dispatch ctx r.fd r.msg w = .ok w') : Finishes r sh r.first w'.srv w'.out := by
  have hcommand := r.command_eq
  cases hside : r.side with
  | nick =>
    rw [hside] at hcommand
    simp only [dispatch, hcommand, Side.command] at h
    rw [Request.first, hside]
    exact .nick hside H hout h
  | user =>
    rw [hside] at hcommand
    simp only [dispatch, hcommand, Side.command] at h
    rw [Request.first, hside]
    exact .user hside H hout h

end

/-! ## The server's commands among the interleavings -/

/-- The interleavings contain the handling of a command as one step: a thread at the beginning of
its branch can end with the tables that the dispatcher leaves. -/
theorem run_of_dispatch {c : Conf Shared Branch Nat} {tr : BranchHistory} {w w' : Work}
    (hrun : ((registration fun _ => True).system init).Run tr c)
    (hr : c.threads t = some ⟨r, r.first⟩) (H : c.shared.Shows w.srv) (hout : w.out = [])
    (h : dispatch ctx r.fd r.msg w = .ok w') :
    ∃ tr' sh', ((registration fun _ => True).system init).Run tr'
        ⟨sh', Function.update c.threads t none⟩ ∧ sh'.Shows w'.srv ∧
      sh'.welcomes = c.shared.welcomes ++ ((welcomedAs w'.out).map (r.fd, ·)).toList := by
  obtain ⟨sh', halone, hshows, hwelcomes⟩ := dispatch_finishes H hout h
  obtain ⟨tr', hrun'⟩ := halone.run hrun hr
  exact ⟨tr', sh', hrun', hshows, hwelcomes⟩

/-- Shared variables that show the tables of the server. -/
def Server.shared (srv : Server) : Shared where
  lists := [srv.nickHead, srv.userHead]
  nickHead := if srv.nickHead = [] then none else some 0
  userHead := if srv.userHead = [] then none else some 1
  connectionHash := srv.connectionHash
  sockfdNickHash := srv.sockfdNickHash
  welcomes := []

/-- The number that `Server.shared` gives to the list of a side. -/
def Side.index : Side → Nat
  | .nick => 0
  | .user => 1

theorem Server.head_shared (srv : Server) (s : Side) :
    srv.shared.head s = if srv.list s = [] then none else some s.index := by
  cases s <;> rfl

theorem Server.shared_shows (srv : Server) : srv.shared.Shows srv where
  wf := by
    refine ⟨fun s i h => ?_, fun s i h hother => ?_⟩
    · rw [Server.head_shared] at h
      split at h
      · cases h
      · cases h
        cases s
        · exact Nat.zero_lt_two
        · exact Nat.one_lt_two
    · rw [Server.head_shared] at h hother
      split at h
      · cases h
      · cases h
        split at hother
        · cases hother
        · cases s <;> cases hother
  list s := by
    rw [Shared.list, Server.head_shared]
    split
    · next hnil => exact hnil.symm
    · cases s <;> rfl
  connectionHash := rfl
  sockfdNickHash := rfl

/-- The tables of every state of the server are tables that the threads may begin with. -/
theorem ready_of_run {σ : Sys} {sh : Shared} (hrun : Run ctx tr σ) (H : sh.Shows σ.server)
    (hwelcomes : sh.welcomes = []) (n : CStr) : sh.Ready n := by
  obtain ⟨b, hb⟩ := Run.represents hrun
  have hsound := hb.tablesSound
  have hcount : ∀ s, sh.count s n = (names (σ.server.list s)).count n := fun s => by
    rw [Shared.count, H.list]
  refine ⟨H.wf, fun s => ?_, ?_, fun hpos s => ?_, hwelcomes⟩
  · rw [hcount]
    cases s with
    | nick => exact List.nodup_iff_count_le_one.mp hsound.nicks n
    | user => exact List.nodup_iff_count_le_one.mp hsound.users n
  · rw [Shared.registrations, H.connectionHash]
    exact List.nodup_iff_count_le_one.mp hsound.keys n
  · rw [Shared.registrations, H.connectionHash, List.count_pos_iff, List.mem_map] at hpos
    obtain ⟨node, hnode, rfl⟩ := hpos
    obtain ⟨hnick, huser⟩ := hsound.posted node hnode
    rw [hcount, List.count_pos_iff]
    cases s with
    | nick => exact hnick
    | user => exact huser

/-- The USER of a client whose nick is amy -/
def userOfNick : Request where
  side := .user
  fd := 4
  msg := userMessage "amy"
  name := lit "amy"
  command_eq := by decide
  name_eq := rfl
  alone h := absurd h (by decide)

/-- **A name has at most one winner after any history of the server**, while the threads that it
starts next leave alone what the others rely on. -/
theorem oneWinner_of_reached {σ : Sys} {btr : BranchHistory} {c : Conf Shared Branch Nat}
    (hrun : Run ctx tr σ)
    (hbranches : ((registration fun r => r.name = n).system (· = σ.server.shared)).Run btr c)
    (hrelies : TransitionSystem.AllSteps (Undisturbed Unrelied) btr) : c.shared.OneWinner n := by
  have hready (sh) (h : sh = σ.server.shared) : sh.Ready n :=
    ready_of_run hrun (h ▸ Server.shared_shows σ.server) (h ▸ rfl) n
  exact ((nameOutline n).holds (run_mono hready hbranches) hrelies).inv.toOneWinner

/-- The lists have nodes already. The USER branch begins when the NICK branch has added its name,
and both end. -/
def nickThenUserLater : List (Turn Branch Nat) :=
  .start 0 ⟨nickOfAmy, .findConnection⟩ :: List.replicate 6 (.step 0) ++
    [.step 0, .start 1 ⟨userOfAmy, .readHead⟩, .step 1, .step 0] ++ List.replicate 9 (.step 1)

/-- Another client has registered before. -/
theorem oneWinner_afterBob : ∃ (tr : History) (σ : Sys) (btr : BranchHistory)
    (c : Conf Shared Branch Nat), Run plainServer tr σ ∧
    registrations tr = [lit "bob"] ∧
    ((registration fun r => r.name = lit "amy").system (· = σ.server.shared)).Run btr c ∧
    c.shared.welcomed (lit "amy") = 1 ∧ c.shared.OneWinner (lit "amy") := by
  obtain ⟨tr, σ, -, hrun, h⟩ := run_of_playsTo plainServer
    [.accept 7, .recv 0 (lit "NICK bob\r\nUSER bob * * :x\r\n"), .line 0, .line 0]
    (fun tr σ => registrations tr = [lit "bob"] ∧
      (registration fun r => r.name = lit "amy").followsTo σ.server.shared nickThenUserLater
        (fun btr c => TransitionSystem.AllSteps (UndisturbedAmong [0, 1] Unrelied) btr ∧
          c.shared.welcomed (lit "amy") = 1) = true) (by decide +kernel)
  obtain ⟨hregistered, hfollows⟩ := of_decide_eq_true h
  obtain ⟨btr, c, hbranches, h⟩ : ∃ (btr : BranchHistory) (c : Conf Shared Branch Nat),
      ((registration fun r => r.name = lit "amy").system (· = σ.server.shared)).Run btr c ∧ _ :=
    run_of_followsTo rfl hfollows
  obtain ⟨hrelies, hwelcomed⟩ := of_decide_eq_true h
  exact ⟨tr, σ, btr, c, hrun, hregistered, hbranches, hwelcomed,
    oneWinner_of_reached hrun hbranches (allSteps_undisturbed hbranches hrelies).1⟩

end Chirc
