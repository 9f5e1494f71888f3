import Chirc.Server.Commands

/-! # The messages of a reply

`writeReply` builds its message one parameter at a time; `reply` is the message in one piece. A
reply is written if its message fits into the buffers of the program (`Message.Fits`), and a burst
of replies is a list of messages all of which must fit. -/

namespace Chirc

/-! ## Adding parameters -/

/-- The message with the parameters `ps` added. -/
def Message.withParams (msg : Message) (ps : List (CStr × Bool)) : Message :=
  { msg with
    params := msg.params ++ ps.map (·.1)
    longlast := ps.foldl (fun _ p => p.2) msg.longlast }

theorem Message.withParams_cons (msg : Message) (p : CStr × Bool) (ps : List (CStr × Bool)) :
    msg.withParams (p :: ps) =
      { msg with params := msg.params ++ [p.1], longlast := p.2 }.withParams ps := by
  simp [withParams]

theorem addParameters_eq_ok {ps : List (CStr × Bool)} {msg msg' : Message}
    (hlen : msg.params.length ≤ 15) :
    addParameters msg ps = .ok msg' ↔
      (msg.withParams ps).params.length ≤ 15 ∧ msg' = msg.withParams ps := by
  induction ps generalizing msg with
  | nil => simp [addParameters, Message.withParams, hlen, eq_comm]
  | cons p ps ih =>
    rw [Message.withParams_cons]
    by_cases hroom : msg.params.length < 15
    · rw [← ih (by simp; omega)]
      simp [addParameters, chircMessageAddParameter, pushParam, hroom]
    · have : ¬ (({ msg with params := msg.params ++ [p.1], longlast := p.2 } :
          Message).withParams ps).params.length ≤ 15 := by
        simp [Message.withParams]
        omega
      simp [addParameters, chircMessageAddParameter, pushParam, hroom, this]

theorem map_fst_copiedParams : ∀ ps : List CStr, (copiedParams ps).map (·.1) = ps
  | [] => rfl
  | [_] => rfl
  | p :: q :: ps => congrArg (p :: ·) (map_fst_copiedParams (q :: ps))

theorem length_copiedParams (ps : List CStr) : (copiedParams ps).length = ps.length := by
  rw [← List.length_map (·.1), map_fst_copiedParams]

/-! ## One reply -/

/-- There is room for the parameters of the message and for its text. -/
def Message.Fits (msg : Message) : Prop := msg.params.length ≤ 15 ∧ (render msg).length < 1024

instance : Decidable (Message.Fits msg) := inferInstanceAs (Decidable (_ ∧ _))

/-- A reply to a user, addressed to `nick`. -/
def reply (ctx : Ctx) (nick code : CStr) (ps : List (CStr × Bool)) : Message :=
  Message.withParams ⟨some ctx.servername, code, [nick], false, none⟩ ps

/-- A reply without a prefix and an addressee. -/
def plain (cmd : CStr) (ps : List (CStr × Bool)) : Message :=
  Message.withParams ⟨none, cmd, [], false, none⟩ ps

@[simp] theorem reply_params : (reply ctx nick code ps).params = nick :: ps.map (·.1) := rfl

/-- Further messages written to the socket. -/
def Work.send (w : Work) (ms : List Message) : Work := { w with out := w.out ++ ms }

/-- `sprintf` into the buffer of the thread. -/
def Work.scribble (w : Work) (text : CStr) : Work := { w with buf := text }

@[simp] theorem Work.send_srv (w : Work) : (w.send ms).srv = w.srv := rfl
@[simp] theorem Work.send_buf (w : Work) : (w.send ms).buf = w.buf := rfl
@[simp] theorem Work.send_out (w : Work) : (w.send ms).out = w.out ++ ms := rfl
@[simp] theorem Work.send_closed (w : Work) : (w.send ms).closed = w.closed := rfl
@[simp] theorem Work.scribble_srv (w : Work) : (w.scribble s).srv = w.srv := rfl
@[simp] theorem Work.scribble_buf (w : Work) : (w.scribble s).buf = s := rfl
@[simp] theorem Work.scribble_out (w : Work) : (w.scribble s).out = w.out := rfl
@[simp] theorem Work.scribble_closed (w : Work) : (w.scribble s).closed = w.closed := rfl

@[simp] theorem Work.send_nil (w : Work) : w.send [] = w := by simp [send]

@[simp] theorem Work.send_send (w : Work) : (w.send ms).send ms' = w.send (ms ++ ms') := by
  simp [send]

theorem sprintfBuf_eq_ok :
    sprintfBuf text w = .ok w' ↔ text.length < 1024 ∧ w' = w.scribble text := by
  rw [sprintfBuf]
  split <;> simp [*, Work.scribble, eq_comm]

/-- Once the reply is constructed as `msg`, it gets its parameters and is written. -/
theorem writeReply_eq_ok {msg : Message} (hmsg : chircMessageConstructReply ctx conn code = .ok msg)
    (hlen : msg.params.length ≤ 15) :
    writeReply ctx conn code ps w = .ok w' ↔
      (msg.withParams ps).Fits ∧ w' = w.send [msg.withParams ps] := by
  simp only [writeReply, hmsg, Res.ok_bind, Except.bind_eq_ok, addParameters_eq_ok hlen,
    chircMessageToString, Res.pure_eq, Message.Fits]
  constructor
  · rintro ⟨_, ⟨hparams, rfl⟩, _, htext, h⟩
    split at htext
    · next hfit => exact ⟨⟨hparams, hfit⟩, (Except.ok.inj h).symm⟩
    · cases htext
  · rintro ⟨⟨hparams, hfit⟩, rfl⟩
    exact ⟨_, ⟨hparams, rfl⟩, _, if_pos hfit, rfl⟩

theorem writeReply_user_eq_ok : writeReply ctx (.user (some nick)) code ps w = .ok w' ↔
    (reply ctx nick code ps).Fits ∧ w' = w.send [reply ctx nick code ps] :=
  writeReply_eq_ok rfl (by simp)

theorem writeReply_quit_eq_ok : writeReply ctx .quit cmd ps w = .ok w' ↔
    (plain cmd ps).Fits ∧ w' = w.send [plain cmd ps] :=
  writeReply_eq_ok rfl (by simp)

/-! ## Bursts -/

/-- The replies to LUSERS that announce these numbers of users, of unknown connections and of
clients. -/
def lusersReplies (ctx : Ctx) (nick : CStr) (users unknown clients : Int) : List Message :=
  [reply ctx nick rplLuserclient
      [(lit "There are " ++ fmtD users ++ lit " users and 0 services on 1 servers", true)],
    reply ctx nick rplLuserop [(lit "0", false), (lit "operator(s) online", true)],
    reply ctx nick rplLuserunknown [(fmtD unknown, false), (lit "unknown connection(s)", true)],
    reply ctx nick rplLuserchannels [(lit "0", false), (lit "channels formed", true)],
    reply ctx nick rplLuserme
      [(lit "I have " ++ fmtD clients ++ lit " clients and 1 servers", true)]]

/-- The number of users that `response_LUSERS` announces. -/
def Server.lusersUsers (srv : Server) : Int := getConnectionMapNodeSize srv.connectionHash

/-- The number of unknown connections that `response_LUSERS` announces. -/
def Server.lusersUnknown (srv : Server) : Int :=
  srv.connectionCount - getConnectionMapNodeSize srv.connectionHash

/-- The replies to LUSERS in a state of the server. -/
def Server.lusers (ctx : Ctx) (nick : CStr) (srv : Server) : List Message :=
  lusersReplies ctx nick srv.lusersUsers srv.lusersUnknown
    (getSockfdNickMapNodeSize srv.connectionHash)

theorem Server.lusers_congr {srv srv' : Server}
    (hsize : srv.connectionHash.length = srv'.connectionHash.length)
    (hcount : srv.connectionCount = srv'.connectionCount) :
    srv.lusers ctx nick = srv'.lusers ctx nick := by
  simp only [lusers, lusersUsers, lusersUnknown, getConnectionMapNodeSize,
    getSockfdNickMapNodeSize_eq, hsize, hcount]

theorem responseLusers_eq_ok : responseLusers ctx nick w = .ok w' ↔
    (∀ m ∈ w.srv.lusers ctx nick, m.Fits) ∧ w' = w.send (w.srv.lusers ctx nick) := by
  simp only [responseLusers, myConstructUserLusersReply, Except.bind_eq_ok, writeReply_user_eq_ok,
    and_assoc, exists_and_left, exists_eq_left, Work.send_srv, Work.send_send, optParam,
    Option.map_none, Option.map_some, Option.toList_none, Option.toList_some, List.nil_append,
    List.cons_append, Server.lusers, lusersReplies, List.forall_mem_cons, List.not_mem_nil,
    IsEmpty.forall_iff, implies_true, true_and, Server.lusersUsers, Server.lusersUnknown]

def motdLines (ctx : Ctx) (nick : CStr) (lines : List (List Byte)) : List Message :=
  lines.map fun line => reply ctx nick rplMotd [(lit "- " ++ cstrAt line 0, true)]

/-- The replies of `response_MOTD`. -/
def motdReplies (ctx : Ctx) (nick : CStr) (expectMotd : Bool) : List Message :=
  match (if expectMotd then ctx.motd else none) with
  | none => [reply ctx nick errNomotd [(lit "MOTD File is missing", true)]]
  | some file =>
    reply ctx nick rplMotdstart [(lit "- .* Message of the day - ", true)] ::
      motdLines ctx nick (fgetsLines [] file) ++
      [reply ctx nick rplEndofmotd [(lit "End of MOTD command", true)]]

theorem motdLoop_eq_ok : motdLoop ctx nick lines w = .ok w' ↔
    (∀ m ∈ motdLines ctx nick lines, m.Fits) ∧ w' = w.send (motdLines ctx nick lines) := by
  induction lines generalizing w with
  | nil => simp [motdLoop, motdLines, eq_comm]
  | cons line lines ih =>
    simp only [motdLoop, myConstructUserMotdReply, Except.bind_eq_ok, writeReply_user_eq_ok, ih,
      and_assoc, exists_and_left, exists_eq_left, Work.send_send, motdLines, List.map_cons,
      List.forall_mem_cons, optParam, Option.map_some, Option.toList_some, List.singleton_append]

theorem responseMotd_eq_ok : responseMotd ctx nick expectMotd w = .ok w' ↔
    (∀ m ∈ motdReplies ctx nick expectMotd, m.Fits) ∧
      w' = w.send (motdReplies ctx nick expectMotd) := by
  cases h : (if expectMotd then ctx.motd else none) with
  | none =>
    simp only [responseMotd, motdReplies, h, myConstructUserMotdReply, writeReply_user_eq_ok,
      optParam, Option.map_some, Option.toList_some, List.forall_mem_singleton]
  | some file =>
    simp only [responseMotd, motdReplies, h, myConstructUserMotdReply, myConstructUserReply,
      Except.bind_eq_ok, writeReply_user_eq_ok, motdLoop_eq_ok, and_assoc, exists_and_left,
      exists_eq_left, Work.send_send, optParam, Option.map_some, Option.map_none,
      Option.toList_some, Option.toList_none, List.nil_append, List.cons_append,
      List.forall_mem_append, List.forall_mem_cons, List.not_mem_nil, IsEmpty.forall_iff,
      implies_true, true_and]

end Chirc
