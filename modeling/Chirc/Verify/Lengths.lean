import Chirc.Verify.Handlers

/-! # How long the replies are

The length of a rendered reply as a sum over its parts, and from it which replies fit into the
buffers. The replies fall into two kinds: those that quote a parameter of the command or a stored
message, for which the condition is a bound on what is quoted, and those that quote only names,
which fit whenever the names of the server and of the clients are short. -/

namespace Chirc

/-! ## Rendering -/

/-- The bytes that the parameters take in a message, each with the space before it. -/
def paramsLength : List CStr → Nat
  | [] => 0
  | p :: ps => p.length + 1 + paramsLength ps

@[simp] theorem paramsLength_nil : paramsLength [] = 0 := rfl

@[simp] theorem paramsLength_cons : paramsLength (p :: ps) = p.length + 1 + paramsLength ps := rfl

theorem length_renderParams (longlast : Bool) (ps : List CStr) :
    (renderParams longlast ps).length =
      paramsLength ps + (if longlast ∧ ps ≠ [] then 1 else 0) := by
  induction ps with
  | nil => simp [renderParams]
  | cons p ps ih =>
    cases ps with
    | nil => cases longlast <;> simp [renderParams]
    | cons q ps =>
      rw [renderParams, List.length_append, ih, paramsLength_cons (p := p)]
      simp only [ne_eq, reduceCtorEq, not_false_eq_true, and_true, List.length_cons]
      omega

/-- The last parameter is written after a `:`. -/
def lastLong (ps : List (CStr × Bool)) : Bool := (ps.getLast?.map (·.2)).getD false

theorem foldl_longlast (ps : List (CStr × Bool)) (b : Bool) :
    ps.foldl (fun _ p => p.2) b = (ps.getLast?.map (·.2)).getD b := by
  induction ps generalizing b with
  | nil => rfl
  | cons p ps ih =>
    rw [List.foldl_cons, ih, List.getLast?_cons]
    cases ps.getLast? <;> rfl

theorem lastLong_cons {ps : List (CStr × Bool)} (hne : ps ≠ []) :
    lastLong (p :: ps) = lastLong ps := by
  obtain ⟨q, ps, rfl⟩ := List.exists_cons_of_ne_nil hne
  rw [lastLong, List.getLast?_cons_cons, lastLong]

theorem copiedParams_ne_nil {ps : List CStr} (hne : ps ≠ []) : copiedParams ps ≠ [] := by
  rwa [← List.length_pos_iff, length_copiedParams, List.length_pos_iff]

theorem lastLong_copiedParams {ps : List CStr} (hne : ps ≠ []) :
    lastLong (copiedParams ps) = true := by
  induction ps with
  | nil => exact absurd rfl hne
  | cons p ps ih =>
    cases ps with
    | nil => rfl
    | cons q ps =>
      have hne := List.cons_ne_nil q ps
      rw [copiedParams, lastLong_cons (copiedParams_ne_nil hne), ih hne]

theorem reply_longlast : (reply ctx nick code ps).longlast = lastLong ps :=
  foldl_longlast ps false

theorem length_reply : (render (reply ctx nick code ps)).length =
    ctx.servername.length + code.length + nick.length + paramsLength (ps.map (·.1)) +
      (if lastLong ps then 6 else 5) := by
  have hpfx : (reply ctx nick code ps).pfx = some ctx.servername := rfl
  have hcmd : (reply ctx nick code ps).cmd = code := rfl
  rw [render, hpfx, hcmd, reply_params, reply_longlast]
  simp only [List.length_append, length_renderParams, renderPrefix, List.length_cons,
    List.length_nil, paramsLength_cons, ne_eq, reduceCtorEq, not_false_eq_true, and_true]
  split <;> omega

theorem length_plain : (render (plain cmd ps)).length =
    cmd.length + paramsLength (ps.map (·.1)) + (if lastLong ps then 3 else 2) := by
  have hpfx : (plain cmd ps).pfx = none := rfl
  have hcmd : (plain cmd ps).cmd = cmd := rfl
  have hparams : (plain cmd ps).params = ps.map (·.1) := rfl
  have hlong : (plain cmd ps).longlast = lastLong ps := foldl_longlast ps false
  rw [render, hpfx, hcmd, hparams, hlong]
  simp only [List.length_append, length_renderParams, renderPrefix, List.length_cons,
    List.length_nil]
  cases ps with
  | nil => simp [lastLong]
  | cons p ps =>
    simp only [List.map_cons, ne_eq, reduceCtorEq, not_false_eq_true, and_true]
    split <;> omega

theorem reply_fits_iff (hlen : ps.length ≤ 14) : (reply ctx nick code ps).Fits ↔
    ctx.servername.length + code.length + nick.length + paramsLength (ps.map (·.1)) +
      (if lastLong ps then 6 else 5) < 1024 := by
  rw [Message.Fits, length_reply, reply_params, List.length_cons, List.length_map]
  constructor
  · intro h
    exact h.2
  · intro h
    exact ⟨by omega, h⟩

theorem plain_fits_iff (hlen : ps.length ≤ 15) : (plain cmd ps).Fits ↔
    cmd.length + paramsLength (ps.map (·.1)) + (if lastLong ps then 3 else 2) < 1024 := by
  have hparams : (plain cmd ps).params = ps.map (·.1) := rfl
  rw [Message.Fits, length_plain, hparams, List.length_map]
  constructor
  · intro h
    exact h.2
  · intro h
    exact ⟨hlen, h⟩

/-! ## Numbers and lines of the MOTD -/

theorem length_lit (s : String) : (lit s).length = s.length := by
  rw [lit, List.length_map, String.length_toList]

/-- An `int` takes at most eleven bytes. -/
theorem length_fmtD_le (n : Int) : (fmtD n).length ≤ 11 := by
  have hrepr : toString (n.bmod UInt32.size) = (n.bmod UInt32.size).repr := rfl
  have hlt := Int.bmod_lt (x := n) (m := UInt32.size) (by decide)
  have hle := Int.le_bmod (x := n) (m := UInt32.size) (by decide)
  have hsize : (UInt32.size : Int) = 4294967296 := rfl
  have hdigits {k : Nat} (hk : k < 10 ^ 10) : k.repr.length ≤ 10 :=
    (Nat.length_repr_le_iff (by decide)).mpr hk
  rw [fmtD, length_lit, hrepr, Int.repr_eq_if]
  split
  · have := hdigits (k := (n.bmod UInt32.size).toNat) (by omega)
    omega
  · have := hdigits (k := (-(n.bmod UInt32.size)).toNat) (by omega)
    have hminus : "-".length = 1 := rfl
    rw [String.length_append, hminus]
    omega

theorem length_of_mem_fgetsLines {acc file : List Byte} (hacc : acc.length < 255)
    (h : line ∈ fgetsLines acc file) : line.length ≤ 255 := by
  induction file generalizing acc with
  | nil =>
    rw [fgetsLines] at h
    split at h
    · cases h
    · rw [List.mem_singleton.mp h]
      omega
  | cons b bs ih =>
    have hlen : (acc ++ [b]).length = acc.length + 1 := by simp
    rw [fgetsLines] at h
    split at h
    · rcases List.mem_cons.mp h with rfl | h
      · omega
      · exact ih (by decide) h
    · next hmore =>
      rw [not_or] at hmore
      exact ih (by omega) h

theorem length_cstrAt_le (line : List Byte) : (cstrAt line 0).length ≤ line.length := by
  rw [cstrAt, List.drop_zero]
  exact (List.takeWhile_sublist _).length_le

/-! ## Which replies fit -/

section
variable {ctx : Ctx} {nick : CStr}

theorem unknown_fits_iff : (reply ctx nick errUnknowncommand
      [(word, true), (lit "Unknown command", true)]).Fits ↔
    ctx.servername.length + nick.length + word.length ≤ 997 := by
  rw [reply_fits_iff (by simp)]
  simp [lit, errUnknowncommand, lastLong]
  omega

theorem nosuchnick_fits_iff : (reply ctx asker errNosuchnick
      [(nick, false), (lit "No such nick/channel", true)]).Fits ↔
    ctx.servername.length + asker.length + nick.length ≤ 992 := by
  rw [reply_fits_iff (by simp)]
  simp [lit, errNosuchnick, lastLong]
  omega

theorem notregistered_fits_iff : (reply ctx nick errNotregistered
      [(lit "You have not registered", true)]).Fits ↔
    ctx.servername.length + nick.length ≤ 990 := by
  rw [reply_fits_iff (by simp)]
  simp [lit, errNotregistered, lastLong]
  omega

theorem nicknameinuse_fits_iff : (reply ctx (lit "*") errNicknameinuse
      [(nick, false), (lit "Nickname is already in use", true)]).Fits ↔
    ctx.servername.length + nick.length ≤ 985 := by
  rw [reply_fits_iff (by simp)]
  simp [lit, errNicknameinuse, lastLong]
  omega

theorem error_fits_iff : (plain (lit "ERROR")
      [(lit "Closing Link: " ++ nick ++ lit " (" ++ reason ++ lit ")", true)]).Fits ↔
    nick.length + reason.length ≤ 997 := by
  rw [plain_fits_iff (by simp)]
  simp [lit, lastLong]
  omega

theorem welcome_fits_iff : (welcome ctx nick user).Fits ↔
    2 * ctx.servername.length + 2 * nick.length + user.length ≤ 973 := by
  rw [welcome, reply_fits_iff (by simp)]
  simp [lit, rplWelcome, lastLong, welcomeText]
  omega

theorem whoisuser_fits_iff {userMsg : Message} (hne : userMsg.params ≠ [])
    (hlen : userMsg.params.length ≤ 13) : (reply ctx nick rplWhoisuser
      ((userMsg.cmd, false) :: copiedParams userMsg.params)).Fits ↔
    ctx.servername.length + nick.length + userMsg.cmd.length + paramsLength userMsg.params ≤
      1013 := by
  have hlong : lastLong ((userMsg.cmd, false) :: copiedParams userMsg.params) = true := by
    rw [lastLong_cons (copiedParams_ne_nil hne), lastLong_copiedParams hne]
  rw [reply_fits_iff (by rw [List.length_cons, length_copiedParams]; omega), hlong, List.map_cons,
    map_fst_copiedParams, paramsLength_cons]
  simp [lit, rplWhoisuser]
  omega

theorem whoisserver_fits_iff : (reply ctx asker rplWhoisserver
      [(nick, false), (ctx.servername, false), (lit "Ubuntu", true)]).Fits ↔
    2 * ctx.servername.length + asker.length + nick.length ≤ 1005 := by
  rw [reply_fits_iff (by simp)]
  simp [lit, rplWhoisserver, lastLong]
  omega

theorem endofwhois_fits_iff : (reply ctx asker rplEndofwhois
      [(asker, true), (lit "End of WHOIS list", true)]).Fits ↔
    ctx.servername.length + 2 * asker.length ≤ 995 := by
  rw [reply_fits_iff (by simp)]
  simp [lit, rplEndofwhois, lastLong]
  omega

theorem forall_whoisReplies_fits_iff {userMsg : Message} (hne : userMsg.params ≠ [])
    (hlen : userMsg.params.length ≤ 13) :
    (∀ m ∈ whoisReplies ctx asker nick userMsg, m.Fits) ↔
      ctx.servername.length + asker.length + userMsg.cmd.length + paramsLength userMsg.params ≤
        1013 ∧
      2 * ctx.servername.length + asker.length + nick.length ≤ 1005 ∧
      ctx.servername.length + 2 * asker.length ≤ 995 := by
  simp only [whoisReplies, List.forall_mem_cons, whoisuser_fits_iff hne hlen, whoisserver_fits_iff,
    endofwhois_fits_iff, List.not_mem_nil, IsEmpty.forall_iff, implies_true, and_true]

/-- A reply fits when the names are short and its text is not too long. -/
theorem reply_fits (hlen : ps.length ≤ 14) (hcode : code.length = 3)
    (hsum : ctx.servername.length + nick.length + paramsLength (ps.map (·.1)) < 1015) :
    (reply ctx nick code ps).Fits := by
  rw [reply_fits_iff hlen]
  split <;> omega

theorem lusers_fits (users unknown clients : Int)
    (hsum : ctx.servername.length + nick.length ≤ 900) :
    ∀ m ∈ lusersReplies ctx nick users unknown clients, m.Fits := by
  have husers := length_fmtD_le users
  have hunknown := length_fmtD_le unknown
  have hclients := length_fmtD_le clients
  simp only [lusersReplies, List.forall_mem_cons]
  refine ⟨?_, ?_, ?_, ?_, ?_, List.forall_mem_nil _⟩
  all_goals
    apply reply_fits (by simp) (by decide)
    simp [lit]
    omega

theorem motdReplies_fits (expectMotd : Bool) (hsum : ctx.servername.length + nick.length ≤ 700) :
    ∀ m ∈ motdReplies ctx nick expectMotd, m.Fits := by
  intro m hm
  rw [motdReplies] at hm
  split at hm
  · rw [List.mem_singleton.mp hm]
    apply reply_fits (by simp) (by decide)
    simp [lit]
    omega
  · simp only [List.mem_append, List.mem_cons, motdLines, List.mem_map, List.not_mem_nil,
      or_false] at hm
    rcases hm with (rfl | ⟨line, hline, rfl⟩) | rfl
    · apply reply_fits (by simp) (by decide)
      simp [lit]
      omega
    · have hlt := length_of_mem_fgetsLines (by decide) hline
      have hle := length_cstrAt_le line
      apply reply_fits (by simp) (by decide)
      simp [lit]
      omega
    · apply reply_fits (by simp) (by decide)
      simp [lit]
      omega

/-- The replies to a registration fit exactly if the welcome does. -/
theorem registrationReplies_fits_iff (srv : Server) :
    (∀ m ∈ registrationReplies ctx srv nick nick, m.Fits) ↔
      2 * ctx.servername.length + 3 * nick.length ≤ 973 := by
  have hwelcome : (welcome ctx nick nick).Fits ↔
      2 * ctx.servername.length + 3 * nick.length ≤ 973 := by
    rw [welcome_fits_iff]
    omega
  rw [registrationReplies, List.forall_mem_cons, hwelcome]
  constructor
  · intro h
    exact h.1
  · intro h
    refine ⟨h, ?_⟩
    simp only [briefing, List.forall_mem_append, List.forall_mem_cons]
    refine ⟨⟨⟨?_, ?_, ?_, List.forall_mem_nil _⟩, ?_⟩, ?_⟩
    · apply reply_fits (by simp) (by decide)
      simp [lit]
      omega
    · apply reply_fits (by simp) (by decide)
      simp [lit]
      omega
    · apply reply_fits (by simp) (by decide)
      simp [lit]
      omega
    · exact lusers_fits _ _ _ (by omega)
    · exact motdReplies_fits _ (by omega)

end

end Chirc
