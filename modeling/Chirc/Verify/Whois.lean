import Chirc.Verify.Mirror
import Chirc.Verify.Lengths

/-! # WHOIS

A query reads the tables, and must leave them as they are. The code frees the message of the
record that it finds: the next query for the same nick reads freed memory. Only queries for nicks
that no connection has leave the state alone. -/

namespace Chirc

/-! ## One query -/

/-- A WHOIS command with one parameter, with the descriptor of its thread and what is left in the
buffer. -/
structure Whois where
  fd : Nat
  msg : Message
  buf : CStr
  nick : CStr
  cmd : command msg.cmd = .whois
  params : msg.params = [nick]

/-- The state after the query, and the replies to it. -/
def Whois.handle (ctx : Ctx) (q : Whois) (srv : Server) : Res (Server × List Message) := do
  let w ← dispatch ctx q.fd q.msg ⟨srv, q.buf, [], false⟩
  return (w.srv, w.out)

/-- Freed messages stay where they are. -/
theorem findConnectionMapNode_free : findConnectionMapNode (freeConnectionMapMsg nodes name) name =
    (findConnectionMapNode nodes name).map fun node => { node with msg := .freed } := by
  induction nodes with
  | nil => rfl
  | cons node nodes ih =>
    rw [freeConnectionMapMsg]
    split
    · next h => simp [findConnectionMapNode, h]
    · next h =>
      rw [findConnectionMapNode, findConnectionMapNode, List.find?_cons_of_neg (by simpa using h),
        List.find?_cons_of_neg (by simpa using h)]
      exact ih

theorem freeMsg_ne {srv : Server}
    (hnode : findConnectionMapNode srv.connectionHash nick = some node)
    (hmsg : node.msg = .live userMsg) : srv.freeMsg nick ≠ srv := by
  intro h
  have hfind : findConnectionMapNode (srv.freeMsg nick).connectionHash nick = some node := by
    rw [h, hnode]
  rw [Server.freeMsg, findConnectionMapNode_free, hnode] at hfind
  cases node with
  | mk name fd msg =>
    cases hmsg
    cases hfind

/-- No connection has the nick, and there is room for the reply that says so. -/
structure Harmless (ctx : Ctx) (srv : Server) (q : Whois) : Prop where
  absent : findConnectionMapNode srv.connectionHash q.nick = none
  fits : ctx.servername.length + (sockfdNick srv q.fd).length + q.nick.length ≤ 992

theorem Whois.handle_eq_ok {srv : Server} {q : Whois} : q.handle ctx srv = .ok r ↔
    ∃ w, responseWhois ctx q.nick q.fd ⟨srv, q.buf, [], false⟩ = .ok w ∧ r = (w.srv, w.out) := by
  simp only [handle, dispatch, q.cmd, onWhois, q.params, Except.bind_eq_ok, Res.pure_eq,
    Except.ok.injEq, @eq_comm _ _ r]

/-- A query leaves the state alone exactly if it is harmless. -/
theorem Whois.handle_iff {srv : Server} {q : Whois}
    (hasker : findSockfdNickMapNode srv.sockfdNickHash q.fd ≠ none) :
    (∃ out, q.handle ctx srv = .ok (srv, out)) ↔ Harmless ctx srv q := by
  obtain ⟨asker, hasker⟩ := Option.ne_none_iff_exists'.mp hasker
  have hnick : sockfdNick srv q.fd = asker.name := by simp [sockfdNick, hasker]
  constructor
  · rintro ⟨out, h⟩
    obtain ⟨w, hw, heq⟩ := handle_eq_ok.mp h
    cases hnode : findConnectionMapNode srv.connectionHash q.nick with
    | none =>
      refine ⟨hnode, ?_⟩
      rw [hnick]
      exact nosuchnick_fits_iff.mp ((responseWhois_absent hasker hnode).mp hw).1
    | some node =>
      obtain ⟨userMsg, hmsg, -, rfl⟩ := responseWhois_found hasker hnode hw
      exact absurd (congrArg Prod.fst heq).symm (freeMsg_ne hnode hmsg)
  · rintro ⟨hnode, hfits⟩
    rw [hnick] at hfits
    have hfits := nosuchnick_fits_iff.mpr hfits
    exact ⟨_, handle_eq_ok.mpr ⟨_, (responseWhois_absent hasker hnode).mpr ⟨hfits, rfl⟩, rfl⟩⟩

/-! ## Many queries -/

/-- The queries one after the other: the state after them, and the replies to each. -/
def handleAll (ctx : Ctx) : List Whois → Server → Res (Server × List (List Message))
  | [], srv => .ok (srv, [])
  | q :: qs, srv => do
    let (srv, out) ← q.handle ctx srv
    let (srv, outs) ← handleAll ctx qs srv
    return (srv, out :: outs)

/-- The queries leave the state as it is, and each gets the replies that it gets alone. -/
def ReadOnly (ctx : Ctx) (srv : Server) (qs : List Whois) : Prop :=
  ∃ outs, handleAll ctx qs srv = .ok (srv, outs) ∧
    List.Forall₂ (fun q out => q.handle ctx srv = .ok (srv, out)) qs outs

theorem ReadOnly.alone (H : ReadOnly ctx srv qs) (hq : q ∈ qs) :
    ∃ out, Whois.handle ctx q srv = .ok (srv, out) := by
  obtain ⟨outs, -, hall⟩ := H
  induction hall with
  | nil => cases hq
  | cons hout hall ih =>
    rcases List.mem_cons.mp hq with rfl | hq
    · exact ⟨_, hout⟩
    · exact ih hq

theorem readOnly_of_alone {srv : Server}
    (h : ∀ q ∈ qs, ∃ out, Whois.handle ctx q srv = .ok (srv, out)) :
    ReadOnly ctx srv qs := by
  induction qs with
  | nil => exact ⟨[], rfl, .nil⟩
  | cons q qs ih =>
    obtain ⟨out, hout⟩ := h q List.mem_cons_self
    obtain ⟨outs, houts, hall⟩ := ih fun q hq => h q (List.mem_cons_of_mem _ hq)
    refine ⟨out :: outs, ?_, .cons hout hall⟩
    simp [handleAll, hout, houts]

/-- **WHOIS queries of registered connections are read-only and repeatable** exactly if each is
for a nick that no connection has, and there is room for the reply. -/
theorem readOnly_iff {srv : Server}
    (hasker : ∀ q ∈ qs, findSockfdNickMapNode srv.sockfdNickHash q.fd ≠ none) :
    ReadOnly ctx srv qs ↔ ∀ q ∈ qs, Harmless ctx srv q := by
  constructor
  · intro H q hq
    exact (Whois.handle_iff (hasker q hq)).mp (H.alone hq)
  · intro h
    exact readOnly_of_alone fun q hq => (Whois.handle_iff (hasker q hq)).mpr (h q hq)

/-- A query by the client on descriptor 4. -/
def whoisBy4 (nick : String) : Whois where
  fd := 4
  msg := ⟨none, lit "WHOIS", [lit nick], false, none⟩
  buf := []
  nick := lit nick
  cmd := (by decide : command (lit "WHOIS") = .whois)
  params := rfl

theorem readOnly_bob : ∃ tr σ, play plainServer registerAmy = .ok (tr, σ) ∧
    ReadOnly plainServer σ.server [whoisBy4 "bob", whoisBy4 "bob"] := by
  obtain ⟨tr, σ, hplay, -, h⟩ := run_of_playsTo plainServer registerAmy
    (fun _ σ => findSockfdNickMapNode σ.server.sockfdNickHash 4 ≠ none ∧
      findConnectionMapNode σ.server.connectionHash (lit "bob") = none ∧
      plainServer.servername.length + (sockfdNick σ.server 4).length + (lit "bob").length ≤ 992)
    (by decide +kernel)
  obtain ⟨hasker, hnone, hfits⟩ := of_decide_eq_true h
  refine ⟨tr, σ, hplay, (readOnly_iff ?_).mpr ?_⟩
  · simpa [whoisBy4] using hasker
  · simpa using ⟨hnone, hfits⟩

/-- A client asks for its own nick twice, in one write. -/
def whoisTwice : List Event :=
  registerAmy ++ [.recv 0 (lit "WHOIS amy\r\nWHOIS amy\r\n"), .line 0, .line 0]

/-- The second query reads the message that the first one has freed. -/
theorem readOnly_amy : play plainServer whoisTwice = .error (.fault .useAfterFree) ∧
    ∃ tr σ, play plainServer registerAmy = .ok (tr, σ) ∧
      ¬ ReadOnly plainServer σ.server [whoisBy4 "amy", whoisBy4 "amy"] := by
  refine ⟨play_eq_fault (by decide +kernel), ?_⟩
  obtain ⟨tr, σ, hplay, -, h⟩ := run_of_playsTo plainServer registerAmy
    (fun _ σ => (handleAll plainServer [whoisBy4 "amy", whoisBy4 "amy"] σ.server).toOption.isNone)
    (by decide +kernel)
  refine ⟨tr, σ, hplay, ?_⟩
  rintro ⟨outs, houts, -⟩
  rw [houts] at h
  cases h

end Chirc
