import Chirc.Verify.Frame
import Chirc.Verify.Reserved

/-! # Nicks that are taken

No step takes a node out of `nick_head`, `user_head` or `connection_hash`, not even the one that
closes the connection of a user. So a nick that has been reserved is never free again, and one that
has been registered keeps its descriptor, whoever the connection on it is by then. -/

namespace Chirc

open TransitionSystem

/-- The tables get more nodes: the lists at the end, `connection_hash` at the front. -/
structure Grows (srv srv' : Server) : Prop where
  nicks : srv.nickHead <+: srv'.nickHead
  users : srv.userHead <+: srv'.userHead
  bound : bindings srv.connectionHash <:+ bindings srv'.connectionHash

namespace Grows

theorem refl (srv : Server) : Grows srv srv :=
  ⟨List.prefix_rfl, List.prefix_rfl, List.suffix_rfl⟩

theorem trans (H : Grows srv srv') (H' : Grows srv' srv'') : Grows srv srv'' where
  nicks := H.nicks.trans H'.nicks
  users := H.users.trans H'.users
  bound := H.bound.trans H'.bound

theorem bind (srv : Server) (fd : Nat) (nick : CStr) (msg : Message) :
    Grows srv (srv.bind fd nick msg) where
  nicks := List.prefix_refl _
  users := List.prefix_refl _
  bound := List.suffix_cons _ _

theorem addNick (srv : Server) (nick : CStr) : Grows srv (srv.mask.addNick nick) where
  nicks := List.prefix_append _ _
  users := List.prefix_refl _
  bound := List.suffix_refl _

theorem addUser (srv : Server) (user : CStr) (msg : Message) : Grows srv (srv.addUser user msg) where
  nicks := List.prefix_refl _
  users := List.prefix_append _ _
  bound := List.suffix_refl _

theorem freeMsg (srv : Server) (nick : CStr) : Grows srv (srv.freeMsg nick) where
  nicks := List.prefix_refl _
  users := List.prefix_refl _
  bound := by
    rw [Server.freeMsg, bindings_freeConnectionMapMsg]

end Grows

theorem Handled.grows {w w' : Work} (H : Handled ctx fd msg w w') : Grows w.srv w'.srv := by
  cases H with
  | whoisFound nick => exact .freeMsg _ nick
  | nickPosted nick => exact .addNick _ nick
  | nickRegisters nick => exact (Grows.addNick _ nick).trans (.bind _ fd nick _)
  | userPosted name => exact .addUser _ name _
  | userRegisters name => exact (Grows.addUser _ name _).trans (.bind _ fd name _)
  | _ => exact ⟨List.prefix_rfl, List.prefix_rfl, List.suffix_rfl⟩

theorem Step.grows {σ σ' : Sys} (H : Step ctx σ l σ') : Grows σ.server σ'.server := by
  cases H with
  | command t th p line msg w hth hp hparses hw =>
    rw [Sys.handled_server]
    exact (dispatch_handled hw).grows
  | _ => exact ⟨List.prefix_rfl, List.prefix_rfl, List.suffix_rfl⟩

/-- The tables have all that they had in any state of the run. -/
theorem Run.grows {σ : Sys} (hrun : Run ctx tr σ) (he : σ₀ ∈ σ :: tr.map Prod.fst) :
    Grows σ₀.server σ.server := by
  cases List.mem_cons.mp he with
  | inl he =>
    rw [he]
    exact .refl σ.server
  | inr he =>
    obtain ⟨e, hmem, rfl⟩ := List.mem_map.mp he
    exact TransitionSystem.Run.rel (R := fun σ σ' => Grows σ.server σ'.server) Grows.trans
      (fun hstep => (step_cases hstep).grows) hrun e hmem

/-! ## A nick that was reserved -/

theorem findUserNode_ne_none (h : name ∈ names head) : findUserNode head name ≠ none := by
  intro hnone
  exact findUserNode_eq_none.mp hnone h

/-- What a NICK for a name on `nick_head` leads to: the same tables, and a reply only if the nick
has been registered -/
theorem Handled.taken {w w' : Work} (H : Handled ctx fd msg w w') (hcmd : command msg.cmd = .nick)
    (hparams : msg.params = [nick]) (hnick : nick ∈ names w.srv.nickHead) :
    SameTables w.srv w'.srv ∧ w'.out = w.out ++
      if findConnectionMapNode w.srv.connectionHash nick = none then []
      else [inUseReply ctx nick] := by
  have hfound := findUserNode_ne_none hnick
  cases H with
  | nickInUse nick' node _ hparams' hnode =>
    cases hparams.symm.trans hparams'
    rw [hnode, if_neg (Option.some_ne_none node)]
    exact ⟨⟨rfl, rfl, rfl, rfl⟩, rfl⟩
  | nickKnown nick' node _ hparams' hnode =>
    cases hparams.symm.trans hparams'
    rw [if_pos hnode, List.append_nil]
    exact ⟨⟨rfl, rfl, rfl, rfl⟩, rfl⟩
  | nickMissing _ hparams' => cases hparams.symm.trans hparams'
  | nickIgnored _ hlen =>
    rw [hparams] at hlen
    cases hlen with
    | step hlen => cases hlen
  | nickPosted nick' _ hparams' _ hnone =>
    cases hparams.symm.trans hparams'
    exact absurd hnone hfound
  | nickRegisters nick' _ _ _ hparams' _ hnone =>
    cases hparams.symm.trans hparams'
    exact absurd hnone hfound
  | ping hother | pong hother | quit _ hother | lusers hother | motd hother | whoisIgnored hother
  | whoisAbsent _ _ hother | whoisFound _ _ _ _ hother | privmsgFound _ _ hother
  | privmsgAbsent _ hother | userMissing _ hother | userKnown _ _ hother | userPosted _ hother
  | userRegisters _ _ hother | unknownIgnored hother | unknown _ hother =>
    cases hcmd.symm.trans hother

/-- A nick keeps its descriptor. -/
theorem Run.bound_forever {σ : Sys} (hrun : Run ctx tr σ) (he : σ₀ ∈ σ :: tr.map Prod.fst)
    (hnode : findConnectionMapNode σ₀.server.connectionHash nick = some node) :
    ∃ node', findConnectionMapNode σ.server.connectionHash nick = some node' ∧
      node'.fd = node.fd := by
  obtain ⟨b, hb⟩ := Run.represents hrun
  have hnames : ((bindings σ.server.connectionHash).map Prod.fst).Nodup := hb.bound ▸ b.bound_nodup
  apply (found_iff_mem_bindings hnames).mpr
  refine (hrun.grows he).bound.subset ?_
  rw [← findConnectionMapNode_name hnode]
  exact List.mem_map_of_mem (List.mem_of_find?_eq_some hnode)

/-- **A nick that was reserved is never free again.** In every run, once a name is on `nick_head`,
every NICK for it from then on, of whatever connection and whether or not the connection that
reserved it is still open, changes no table. It is told that the nick is in use if the nick has been
registered by then, and gets no reply otherwise. A nick that was registered is bound to the same
descriptor in every later state. -/
theorem nick_never_free {σ : Sys} (hrun : Run ctx tr σ) (he : σ₀ ∈ σ :: tr.map Prod.fst)
    (nick : CStr) :
    (nick ∈ names σ₀.server.nickHead → ∀ t fd c line msg out σ',
      (chirc ctx).step σ (.command t fd c line msg out) σ' → command msg.cmd = .nick →
      msg.params = [nick] → SameTables σ.server σ'.server ∧
        out = if findConnectionMapNode σ.server.connectionHash nick = none then []
          else [inUseReply ctx nick]) ∧
      ∀ node, findConnectionMapNode σ₀.server.connectionHash nick = some node →
        ∃ node', findConnectionMapNode σ.server.connectionHash nick = some node' ∧
          node'.fd = node.fd := by
  refine ⟨fun hnick t fd c line msg out σ' hstep hcmd hparams => ?_,
    fun node => hrun.bound_forever he⟩
  have hnick' : nick ∈ names σ.server.nickHead := ((hrun.grows he).nicks.map _).subset hnick
  cases step_cases hstep with
  | command t th p line msg w hth hp hparses hw =>
    rw [Sys.handled_server]
    exact (dispatch_handled hw).taken hcmd hparams hnick'

/-- Amy quits, and the next client, who gets her descriptor, asks for her nick. -/
def askForAmy : List Event :=
  amySends "QUIT\r\n" ++ [.line 0, .accept 4, .recv 1 (lit "NICK amy\r\n")]

theorem nick_never_free_amy : ∃ tr σ σ' th line msg out, Run plainServer tr σ ∧
    (chirc plainServer).step σ (.command 1 th (some 1) line msg out) σ' ∧
    msg.params = [lit "amy"] ∧ SameTables σ.server σ'.server ∧
    out = [inUseReply plainServer (lit "amy")] ∧
    ∃ node, findConnectionMapNode σ.server.connectionHash (lit "amy") = some node ∧
      node.fd = 4 := by
  obtain ⟨tr, σ, th, p, line, msg, hrun, h, hf⟩ := handling_of_playsToLine plainServer askForAmy 1
    (fun tr σ th p msg => σ.connOn th.sockfd = some 1 ∧ command msg.cmd = .nick ∧
      msg.params = [lit "amy"] ∧ (tr.any fun e =>
        (findConnectionMapNode e.1.server.connectionHash (lit "amy")).map (·.fd) = some 4 ∧
          lit "amy" ∈ names e.1.server.nickHead) ∧
      (dispatch plainServer th.sockfd msg (th.work σ.server p)).toOption.isSome)
    (by decide +kernel)
  obtain ⟨hc, hcmd, hparams, hany, hok⟩ := of_decide_eq_true hf
  obtain ⟨⟨σ₀, l₀⟩, he, hfound⟩ := List.any_eq_true.mp hany
  obtain ⟨hbound, hnick⟩ := of_decide_eq_true hfound
  obtain ⟨node₀, hnode₀, hfd₀⟩ := Option.map_eq_some_iff.mp hbound
  have hσ₀ : σ₀ ∈ σ :: tr.map Prod.fst := List.mem_cons_of_mem _ (List.mem_map_of_mem he)
  cases hw : dispatch plainServer th.sockfd msg (th.work σ.server p) with
  | error f =>
    rw [hw] at hok
    cases hok
  | ok w =>
    have hstep : (chirc plainServer).step σ
        (.command 1 th.sockfd (some 1) line msg w.out) (σ.handled 1 th p w) :=
      ⟨.line 1, h.step_eq_ok.mpr ⟨w, hw, rfl, by rw [hc]⟩⟩
    obtain ⟨hnever, hforever⟩ := nick_never_free hrun hσ₀ (lit "amy")
    obtain ⟨node, hnode, hfd⟩ := hforever node₀ hnode₀
    obtain ⟨htables, hout⟩ := hnever hnick _ _ _ _ _ _ _ hstep hcmd hparams
    rw [if_neg (by rw [hnode]; exact nofun)] at hout
    exact ⟨tr, σ, _, _, _, msg, _, hrun, hstep, hparams, htables, hout, node, hnode,
      hfd.trans hfd₀⟩

end Chirc
