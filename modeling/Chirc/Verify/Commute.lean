import Chirc.Verify.Registration

/-! # The order of NICK and USER

The registration is written twice, once for each order of the two commands. The branches agree on
everything but the condition: the USER branch registers only with four parameters, the NICK branch
takes a USER message with any number of them. -/

namespace Chirc

/-- Handle two messages on one descriptor. -/
def handleBoth (ctx : Ctx) (fd : Nat) (m m' : Message) (w : Work) : Res Work := do
  let w ← dispatch ctx fd m w
  dispatch ctx fd m' w

/-- A NICK command and a USER command that name `n`, for a descriptor that is not registered and a
name that no table has. -/
structure Introduces (srv : Server) (fd : Nat) (n : CStr) (nick user : Message) : Prop where
  nickCmd : command nick.cmd = .nick
  nickParams : nick.params = [n]
  userCmd : command user.cmd = .user
  userName : user.params.head? = some n
  four_le : 4 ≤ user.params.length
  le_fifteen : user.params.length ≤ 15
  nickFree : findUserNode srv.nickHead n = none
  userFree : findUserNode srv.userHead n = none
  connFree : findConnectionMapNode srv.connectionHash n = none
  unregistered : findSockfdNickMapNode srv.sockfdNickHash fd = none

/-- Two states with the same names, the same registration of `n` and of `fd`, and the same
replies. -/
structure SameOutcome (fd : Nat) (n : CStr) (w w' : Work) : Prop where
  nicks : names w.srv.nickHead = names w'.srv.nickHead
  users : names w.srv.userHead = names w'.srv.userHead
  entry : findConnectionMapNode w.srv.connectionHash n =
    findConnectionMapNode w'.srv.connectionHash n
  tag : findSockfdNickMapNode w.srv.sockfdNickHash fd =
    findSockfdNickMapNode w'.srv.sockfdNickHash fd
  replies : w.out = w'.out

theorem SameOutcome.refl (w : Work) : SameOutcome fd n w w := ⟨rfl, rfl, rfl, rfl, rfl⟩

/-- Both computations end, with the same outcome. -/
def Agree (fd : Nat) (n : CStr) (x y : Res Work) : Prop :=
  ∃ w w', x = .ok w ∧ y = .ok w' ∧ SameOutcome fd n w w'

/-! ## The single commands -/

theorem findUserNode_addUserNode (h : findUserNode head n = none) (msg : Option Message) :
    findUserNode (addUserNode head ⟨n, msg⟩) n = some ⟨n, msg⟩ := by
  rw [findUserNode] at h
  simp [findUserNode, addUserNode, List.find?_append, h]

namespace Introduces
variable {srv : Server} {fd : Nat} {n : CStr} {nick user : Message} {w : Work}
  (H : Introduces w.srv fd n nick user)
include H

/-- What USER stores. -/
theorem stored : addParameters (chircMessageConstruct none user.cmd) (copiedParams user.params) =
    .ok (storedMessage user.cmd user.params) := by
  have hle : (storedMessage user.cmd user.params).params.length ≤ 15 := by
    rw [storedMessage_params]
    exact H.le_fifteen
  exact (addParameters_eq_ok (by simp [chircMessageConstruct])).mpr ⟨hle, rfl⟩

theorem dispatch_nick (hlen : n.length < 128) :
    dispatch ctx fd nick w = .ok (w.update (w.srv.mask.addNick n)) := by
  simp only [dispatch, H.nickCmd, onNick, H.nickParams, H.connFree, H.nickFree, copyName, hlen,
    if_true, Res.ok_bind, H.userFree]
  rfl

theorem dispatch_user (hlen : n.length < 128) : dispatch ctx fd user w =
    .ok (w.update (w.srv.addUser n (storedMessage user.cmd user.params))) := by
  simp only [dispatch, H.userCmd, onUser, firstParam_eq_ok.mpr H.userName, Res.ok_bind,
    Nat.not_lt.mpr H.four_le, if_false, H.userFree, copyName, hlen, if_true, H.stored, H.nickFree]
  rfl

/-- The state with both names on their lists. -/
def posted (w : Work) (n : CStr) (user : Message) : Work :=
  w.update ((w.srv.mask.addNick n).addUser n (storedMessage user.cmd user.params))

/-- USER after NICK. -/
theorem handleBoth_nick (hlen : n.length < 128) : handleBoth ctx fd nick user w =
    if user.params.length = 4 then
      completeRegistration ctx fd n n user.cmd user.params n n (posted w n user)
    else .ok (posted w n user) := by
  rw [handleBoth, H.dispatch_nick hlen, Res.ok_bind]
  have hnick : findUserNode (w.update (w.srv.mask.addNick n)).srv.nickHead n = some ⟨n, none⟩ :=
    findUserNode_addUserNode H.nickFree none
  have huser : findUserNode (w.update (w.srv.mask.addNick n)).srv.userHead n = none := H.userFree
  simp only [dispatch, H.userCmd, onUser, firstParam_eq_ok.mpr H.userName, Res.ok_bind,
    Nat.not_lt.mpr H.four_le, if_false, huser, copyName, hlen, if_true, H.stored, hnick]
  rfl

/-- NICK after USER. -/
theorem handleBoth_user (hlen : n.length < 128) : handleBoth ctx fd user nick w =
    completeRegistration ctx fd n n user.cmd user.params n n (posted w n user) := by
  rw [handleBoth, H.dispatch_user hlen, Res.ok_bind]
  generalize hstored : storedMessage user.cmd user.params = stored
  have huser : findUserNode (w.update (w.srv.addUser n stored)).srv.userHead n =
      some ⟨n, some stored⟩ := findUserNode_addUserNode H.userFree (some stored)
  have hnick : findUserNode (w.update (w.srv.addUser n stored)).srv.nickHead n = none := H.nickFree
  have hconn : findConnectionMapNode (w.update (w.srv.addUser n stored)).srv.connectionHash n =
      none := H.connFree
  have hcmd : stored.cmd = user.cmd := hstored ▸ rfl
  have hparams : stored.params = user.params := hstored ▸ storedMessage_params
  rw [posted, hstored, ← hcmd, ← hparams]
  simp only [dispatch, H.nickCmd, onNick, H.nickParams, hconn, hnick, copyName, hlen, if_true,
    Res.ok_bind, huser]
  rfl

/-- A name that is too long overflows. -/
theorem handleBoth_overflow (ctx : Ctx) (hlen : ¬ n.length < 128) :
    handleBoth ctx fd nick user w = .error .nameOverflow := by
  simp only [handleBoth, dispatch, H.nickCmd, onNick, H.nickParams, H.connFree, H.nickFree,
    copyName, hlen, if_false, Res.error_bind]

end Introduces

/-- **The order of NICK and USER makes no difference** exactly if USER has four parameters and there
is room for the name and for the replies to the registration. -/
theorem agree_iff {w : Work} (H : Introduces w.srv fd n nick user) :
    Agree fd n (handleBoth ctx fd nick user w) (handleBoth ctx fd user nick w) ↔
      user.params.length = 4 ∧ RegistrationFits ctx (w.srv.bind fd n user) n n user := by
  by_cases hlen : n.length < 128
  · rw [H.handleBoth_nick hlen, H.handleBoth_user hlen]
    by_cases hfour : user.params.length = 4
    · rw [if_pos hfour]
      have hends : (∃ w', completeRegistration ctx fd n n user.cmd user.params n n
          (Introduces.posted w n user) = .ok w') ↔
          RegistrationFits ctx (w.srv.bind fd n user) n n user := by
        simp only [completeRegistration_eq_ok, exists_and_left, exists_eq, and_true]
        have hstored := H.le_fifteen
        constructor
        · intro h
          exact h.congr hstored rfl rfl
        · intro h
          exact h.congr (by rwa [storedMessage_params]) rfl rfl
      rw [← hends]
      constructor
      · rintro ⟨w', -, hw', -, -⟩
        exact ⟨hfour, w', hw'⟩
      · rintro ⟨-, w', hw'⟩
        exact ⟨w', w', hw', hw', .refl w'⟩
    · rw [if_neg hfour]
      refine iff_of_false ?_ fun h => hfour h.1
      rintro ⟨w', w'', hw', hw'', hsame⟩
      cases hw'
      obtain ⟨-, rfl⟩ := completeRegistration_eq_ok.mp hw''
      -- only one of the two orders registers
      have hentry := hsame.entry.symm.trans H.connFree
      rw [Work.registered, findConnectionMapNode_bind] at hentry
      cases hentry
  · rw [H.handleBoth_overflow ctx hlen]
    refine iff_of_false ?_ fun h => hlen h.2.nick_lt
    rintro ⟨w', w'', hw', -, -⟩
    cases hw'

def nickAmy : Message := ⟨none, lit "NICK", [lit "amy"], false, none⟩

def userAmy : Message :=
  ⟨none, lit "USER", [lit "amy", lit "*", lit "*", lit "Amy Pond"], true, none⟩

theorem agree_amy : Agree 4 (lit "amy")
    (handleBoth plainServer 4 nickAmy userAmy ⟨.init, [], [], false⟩)
    (handleBoth plainServer 4 userAmy nickAmy ⟨.init, [], [], false⟩) :=
  (agree_iff ⟨by decide, rfl, by decide, rfl, by decide, by decide, rfl, rfl, rfl, rfl⟩).mpr
    ⟨rfl, by decide +kernel⟩

/-- A USER command with a fifth parameter. -/
def userAmyFive : Message :=
  ⟨none, lit "USER", [lit "amy", lit "*", lit "*", lit "Amy", lit "Pond"], false, none⟩

/-- Whether `n` is registered in the end. -/
def endsRegistered (n : CStr) (x : Res Work) : Res Bool :=
  x.map fun w => (findConnectionMapNode w.srv.connectionHash n).isSome

theorem agree_amyFive : Introduces .init 4 (lit "amy") nickAmy userAmyFive ∧
    ¬ Agree 4 (lit "amy") (handleBoth plainServer 4 nickAmy userAmyFive ⟨.init, [], [], false⟩)
      (handleBoth plainServer 4 userAmyFive nickAmy ⟨.init, [], [], false⟩) := by
  refine ⟨⟨by decide, rfl, by decide, rfl, by decide, by decide, rfl, rfl, rfl, rfl⟩, fun h => ?_⟩
  have hnick : endsRegistered (lit "amy")
      (handleBoth plainServer 4 nickAmy userAmyFive ⟨.init, [], [], false⟩) = .ok false := by
    decide +kernel
  have huser : endsRegistered (lit "amy")
      (handleBoth plainServer 4 userAmyFive nickAmy ⟨.init, [], [], false⟩) = .ok true := by
    decide +kernel
  obtain ⟨w, hw, hnone⟩ := Res.map_eq_ok.mp hnick
  obtain ⟨w', hw', hsome⟩ := Res.map_eq_ok.mp huser
  obtain ⟨v, v', hv, hv', hsame⟩ := h
  cases hw.symm.trans hv
  cases hw'.symm.trans hv'
  rw [hsame.entry, hsome] at hnone
  cases hnone

end Chirc
