import Chirc.Verify.Received

/-! # Which replies can be read back

The names of clients are put in the middle of the replies, where a message has words. A name can be
any text: a NICK has one parameter, its last, and some replies address a client without a nick by
the empty name. A reply is legible exactly if what is put in the middle of it are words that do not
begin with a `:`. -/

namespace Chirc

/-! ## Numbers -/

theorem digit_bounds {c : Char} (h : c.isDigit = true) :
    48 ≤ c.toNat.toUInt8 ∧ c.toNat.toUInt8 ≤ 57 := by
  rw [Char.isDigit, Bool.and_eq_true, decide_eq_true_iff, decide_eq_true_iff] at h
  have hle : 48 ≤ c.toNat := UInt32.le_iff_toNat_le.mp h.1
  have hge : c.toNat ≤ 57 := UInt32.le_iff_toNat_le.mp h.2
  have hbyte : c.toNat.toUInt8.toNat = c.toNat := by
    simp
    omega
  rw [UInt8.le_iff_toNat_le, UInt8.le_iff_toNat_le, hbyte]
  exact ⟨hle, hge⟩

/-- A number is printed with digits, and possibly a minus sign. -/
theorem mem_fmtD {n : Int} (h : b ∈ fmtD n) : b = 45 ∨ 48 ≤ b ∧ b ≤ 57 := by
  obtain ⟨c, hc, rfl⟩ := List.mem_map.mp h
  have hdigit {k : Nat} (hc : c ∈ k.repr.toList) : c.isDigit = true := by
    rw [Nat.toList_repr] at hc
    exact Nat.isDigit_of_mem_toDigits (by decide) (by decide) hc
  have hchar : c = '-' ∨ c.isDigit = true := by
    have hrepr : toString (n.bmod UInt32.size) = (n.bmod UInt32.size).repr := rfl
    rw [hrepr, Int.repr_eq_if] at hc
    split at hc
    · exact .inr (hdigit hc)
    · rw [String.toList_append] at hc
      rcases List.mem_append.mp hc with hc | hc
      · exact .inl (by simpa using hc)
      · exact .inr (hdigit hc)
  rcases hchar with rfl | hc
  · exact .inl (by decide)
  · exact .inr (digit_bounds hc)

theorem fmtD_ne_nil (n : Int) : fmtD n ≠ [] := by
  have hrepr : toString (n.bmod UInt32.size) = (n.bmod UInt32.size).repr := rfl
  rw [fmtD, lit, hrepr, Int.repr_eq_if]
  split
  · simp [Nat.toList_repr, Nat.toDigits_ne_nil]
  · simp

theorem not_mem_fmtD (n : Int) (hb : b < 45 ∨ b = COLON) : b ∉ fmtD n := by
  intro hmem
  have := mem_fmtD hmem
  rw [COLON] at hb
  grind

theorem middle_fmtD (n : Int) : Middle (fmtD n) :=
  ⟨fmtD_ne_nil n, not_mem_fmtD n (by decide),
    fun h => not_mem_fmtD n (.inr rfl) (List.mem_of_mem_head? h)⟩

/-! ## Texts without a CR -/

theorem oneLine_of_not_mem (hcr : CR ∉ s) : OneLine s := by
  rintro ⟨t, u, rfl⟩
  simp at hcr

/-- No byte of the text is NUL or CR. -/
def Plain (s : CStr) : Prop := NUL ∉ s ∧ CR ∉ s

instance : Decidable (Plain s) := inferInstanceAs (Decidable (_ ∧ _))

theorem Plain.clean (h : Plain s) : Clean s := ⟨h.1, oneLine_of_not_mem h.2⟩

theorem plain_append : Plain (s ++ t) ↔ Plain s ∧ Plain t := by
  simp [Plain]
  tauto

theorem plain_fmtD (n : Int) : Plain (fmtD n) :=
  ⟨not_mem_fmtD n (by decide), not_mem_fmtD n (by decide)⟩

theorem nul_cstrAt (mem : List Byte) (i : Nat) : NUL ∉ cstrAt mem i := by
  intro hmem
  have := List.all_eq_true.mp List.all_takeWhile NUL hmem
  simp at this

/-! ## One reply -/

/-- The words can be written in the middle of a message with the name of the server as its
prefix. -/
def Spells (ctx : Ctx) (ws : List CStr) : Prop :=
  (SP ∉ ctx.servername ∧ OneLine ctx.servername) ∧ ∀ w ∈ ws, Middle w

/-- The commands of replies. -/
def IsCode (code : CStr) : Prop :=
  code ≠ [] ∧ code.all (fun b => 48 ≤ b ∧ b ≤ 90 ∧ b ≠ COLON) = true

instance : Decidable (IsCode code) := inferInstanceAs (Decidable (_ ∧ _))

theorem IsCode.mem (h : IsCode code) (hb : b ∈ code) : 48 ≤ b ∧ b ≤ 90 ∧ b ≠ COLON := by
  have := List.all_eq_true.mp h.2 b hb
  simpa using this

theorem IsCode.not_mem (h : IsCode code) (hb : b < 48) : b ∉ code := by
  intro hmem
  have := (h.mem hmem).1
  grind

theorem IsCode.built (hcode : IsCode code) {m : Message} (hcmd : m.cmd = code)
    (hlen : m.params.length ≤ 15) (hlong : m.params ≠ [])
    (hnul : (∀ p, m.pfx = some p → NUL ∉ p) ∧ ∀ p ∈ m.params, NUL ∉ p) : m.Built := by
  subst hcmd
  have hcolon : m.cmd.head? ≠ some COLON := fun h => (hcode.mem (List.mem_of_mem_head? h)).2.2 rfl
  refine ⟨⟨⟨hcode.1, hcode.not_mem (by decide), hcolon⟩, ?_⟩, fun b hb => ?_, hlen, fun _ => hlong,
    hnul.1, hcode.not_mem (by decide), hnul.2⟩
  · exact oneLine_of_not_mem (hcode.not_mem (by decide))
  · have := (hcode.mem hb).2.1
    rw [toupper]
    grind

theorem spells_word (hword : Middle word) : Spells ctx [nick, word] ↔ Spells ctx [nick] := by
  simp [Spells, hword]

section
variable {ctx : Ctx} (hctx : NUL ∉ ctx.servername)
include hctx

theorem reply_readable_iff (hcode : IsCode code) (hlen : ps.length ≤ 14)
    (hnul : ∀ p ∈ nick :: ps.map (·.1), NUL ∉ p) : (reply ctx nick code ps).Readable ↔
      Spells ctx (reply ctx nick code ps).middles ∧ ∀ p ∈ nick :: ps.map (·.1), OneLine p := by
  have hparams : (nick :: ps.map (·.1)).length ≤ 15 := by
    rw [List.length_cons, List.length_map]
    exact Nat.succ_le_succ hlen
  have hbuilt : (reply ctx nick code ps).Built := by
    refine hcode.built rfl hparams (List.cons_ne_nil _ _) ⟨?_, hnul⟩
    rintro _ ⟨⟩
    exact hctx
  have hpfx : (∀ p, (reply ctx nick code ps).pfx = some p → SP ∉ p ∧ OneLine p) ↔
      SP ∉ ctx.servername ∧ OneLine ctx.servername := by
    simp [reply, Message.withParams]
  rw [readable_iff hbuilt, hpfx, Spells]
  exact and_assoc.symm

/-- A reply whose last parameter is long. -/
theorem readable_long_iff (ps : List (CStr × Bool)) (hcode : IsCode code) (hlen : ps.length ≤ 13)
    (hps : ∀ p ∈ nick :: ps.map (·.1), p = ctx.servername ∨ Clean p) (ht : NUL ∉ t) :
    (reply ctx nick code (ps ++ [(t, true)])).Readable ↔
      Spells ctx (nick :: ps.map (·.1)) ∧ OneLine t := by
  have hparams : nick :: (ps ++ [(t, true)]).map (·.1) = (nick :: ps.map (·.1)) ++ [t] := by simp
  have hmid : (reply ctx nick code (ps ++ [(t, true)])).middles = nick :: ps.map (·.1) := by
    have hlong : (reply ctx nick code (ps ++ [(t, true)])).longlast = true := by
      simp [reply, Message.withParams]
    rw [Message.middles, if_pos hlong, reply_params, hparams, List.dropLast_concat]
  have hnul : ∀ p ∈ nick :: (ps ++ [(t, true)]).map (·.1), NUL ∉ p := by
    rw [hparams]
    refine List.forall_mem_append.mpr ⟨fun p hp => ?_, by simpa using ht⟩
    rcases hps p hp with rfl | hp
    · exact hctx
    · exact hp.nul
  have hlen' : (ps ++ [(t, true)]).length ≤ 14 := by
    rw [List.length_append]
    exact Nat.succ_le_succ hlen
  rw [reply_readable_iff hctx hcode hlen' hnul, hmid, hparams, List.forall_mem_append,
    List.forall_mem_singleton]
  constructor
  · rintro ⟨hspells, -, hone⟩
    exact ⟨hspells, hone⟩
  · rintro ⟨hspells, hone⟩
    refine ⟨hspells, fun p hp => ?_, hone⟩
    rcases hps p hp with rfl | hp
    · exact hspells.1.2
    · exact hp.oneLine

theorem readable_text_iff (hcode : IsCode code) (hnick : Clean nick) (ht : NUL ∉ t) :
    (reply ctx nick code [(t, true)]).Readable ↔ Spells ctx [nick] ∧ OneLine t :=
  readable_long_iff hctx [] hcode (Nat.zero_le 13) (by simp [hnick]) ht

theorem readable_plain_iff (hcode : IsCode code) (hnick : Clean nick) (ht : Plain t) :
    (reply ctx nick code [(t, true)]).Readable ↔ Spells ctx [nick] := by
  rw [readable_text_iff hctx hcode hnick ht.1]
  exact and_iff_left ht.clean.oneLine

/-- A word and a text. -/
theorem readable_word_iff (hcode : IsCode code) (hnick : Clean nick) (hword : Clean word)
    (ht : Plain t) : (reply ctx nick code [(word, longlast), (t, true)]).Readable ↔
      Spells ctx [nick, word] := by
  have hps : ∀ p ∈ nick :: [(word, longlast)].map (·.1), p = ctx.servername ∨ Clean p := by
    simp [hnick, hword]
  exact (readable_long_iff hctx _ hcode (by simp) hps ht.1).trans (and_iff_left ht.clean.oneLine)

/-! ## Bursts of replies -/

theorem lusers_readable_iff (hnick : Clean nick) (users unknown clients : Int) :
    (∀ m ∈ lusersReplies ctx nick users unknown clients, m.Readable) ↔ Spells ctx [nick] := by
  have hzero : Middle (lit "0") ∧ Plain (lit "0") :=
    ⟨⟨by decide, by decide, by decide⟩, by decide⟩
  have husers : Plain (lit "There are " ++ fmtD users ++
      lit " users and 0 services on 1 servers") := by
    rw [plain_append, plain_append]
    exact ⟨⟨by decide, plain_fmtD users⟩, by decide⟩
  have hclients : Plain (lit "I have " ++ fmtD clients ++ lit " clients and 1 servers") := by
    rw [plain_append, plain_append]
    exact ⟨⟨by decide, plain_fmtD clients⟩, by decide⟩
  simp only [lusersReplies, List.forall_mem_cons]
  constructor
  · rintro ⟨h, -⟩
    exact (readable_plain_iff hctx (by decide) hnick husers).mp h
  · intro h
    refine ⟨?_, ?_, ?_, ?_, ?_, List.forall_mem_nil _⟩
    · exact (readable_plain_iff hctx (by decide) hnick husers).mpr h
    · exact (readable_word_iff hctx (by decide) hnick hzero.2.clean (by decide)).mpr
        ((spells_word hzero.1).mpr h)
    · exact (readable_word_iff hctx (by decide) hnick (plain_fmtD _).clean (by decide)).mpr
        ((spells_word (middle_fmtD _)).mpr h)
    · exact (readable_word_iff hctx (by decide) hnick hzero.2.clean (by decide)).mpr
        ((spells_word hzero.1).mpr h)
    · exact (readable_plain_iff hctx (by decide) hnick hclients).mpr h

/-- A line of the MOTD file, which keeps its newline. -/
theorem motdLine_readable_iff (hnick : Clean nick) (line : List Byte) :
    (reply ctx nick rplMotd [(lit "- " ++ cstrAt line 0, true)]).Readable ↔
      Spells ctx [nick] ∧ OneLine (cstrAt line 0) := by
  have hnul : NUL ∉ lit "- " ++ cstrAt line 0 := by
    rw [List.mem_append, not_or]
    exact ⟨by decide, nul_cstrAt line 0⟩
  rw [readable_text_iff hctx (by decide) hnick hnul]
  have hdash : OneLine (lit "- " ++ cstrAt line 0) ↔ OneLine (cstrAt line 0) :=
    (oneLine_cons_of_ne (by decide)).trans (oneLine_cons_of_ne (by decide))
  rw [hdash]

/-- No line of the MOTD file, as it is read, has a CRLF. -/
def MotdReadable (ctx : Ctx) : Prop :=
  ∀ file ∈ ctx.motd, ∀ line ∈ fgetsLines [] file, OneLine (cstrAt line 0)

theorem motd_readable_iff (hnick : Clean nick) : (∀ m ∈ motdReplies ctx nick true, m.Readable) ↔
    Spells ctx [nick] ∧ MotdReadable ctx := by
  rw [motdReplies, MotdReadable, if_pos rfl]
  cases hfile : ctx.motd with
  | none =>
    rw [List.forall_mem_singleton]
    exact (readable_plain_iff hctx (by decide) hnick (by decide)).trans
      (and_iff_left fun _ h => by cases h).symm
  | some file =>
    simp only [motdLines, List.cons_append, List.forall_mem_cons, List.forall_mem_append,
      List.forall_mem_map, motdLine_readable_iff hctx hnick]
    constructor
    · rintro ⟨h, hlines, -⟩
      refine ⟨(readable_plain_iff hctx (by decide) hnick (by decide)).mp h, ?_⟩
      rintro _ ⟨⟩ line hline
      exact (hlines line hline).2
    · rintro ⟨h, hlines⟩
      refine ⟨?_, fun line hline => ⟨h, hlines file rfl line hline⟩, ?_, List.forall_mem_nil _⟩
      · exact (readable_plain_iff hctx (by decide) hnick (by decide)).mpr h
      · exact (readable_plain_iff hctx (by decide) hnick (by decide)).mpr h

theorem noMotd_readable_iff (hnick : Clean nick) :
    (∀ m ∈ motdReplies ctx nick false, m.Readable) ↔ Spells ctx [nick] := by
  have hmotd : motdReplies ctx nick false =
    [reply ctx nick errNomotd [(lit "MOTD File is missing", true)]] := rfl
  rw [hmotd, List.forall_mem_singleton]
  exact readable_plain_iff hctx (by decide) hnick (by decide)

theorem myinfo_readable_iff (hnick : Clean nick) : (reply ctx nick rplMyinfo
    [(ctx.servername, false), (lit "1.0", false), (lit "ao", false), (lit "mtov", false)]).Readable ↔
      Spells ctx [nick, ctx.servername] := by
  have hconst : ∀ w ∈ [lit "1.0", lit "ao", lit "mtov"], Middle w ∧ Plain w := by
    simp only [List.forall_mem_cons]
    exact ⟨⟨⟨by decide, by decide, by decide⟩, by decide⟩,
      ⟨⟨by decide, by decide, by decide⟩, by decide⟩,
      ⟨⟨by decide, by decide, by decide⟩, by decide⟩, List.forall_mem_nil _⟩
  have hnul : ∀ p ∈ [nick, ctx.servername] ++ [lit "1.0", lit "ao", lit "mtov"], NUL ∉ p := by
    refine List.forall_mem_append.mpr ⟨?_, fun w hw => (hconst w hw).2.1⟩
    simp [hnick.nul, hctx]
  have hiff : (reply ctx nick rplMyinfo [(ctx.servername, false), (lit "1.0", false),
      (lit "ao", false), (lit "mtov", false)]).Readable ↔
      Spells ctx ([nick, ctx.servername] ++ [lit "1.0", lit "ao", lit "mtov"]) ∧
      ∀ p ∈ [nick, ctx.servername] ++ [lit "1.0", lit "ao", lit "mtov"], OneLine p :=
    reply_readable_iff hctx (by decide) (by simp) hnul
  rw [hiff]
  constructor
  · rintro ⟨⟨hname, hmid⟩, -⟩
    exact ⟨hname, (List.forall_mem_append.mp hmid).1⟩
  · rintro ⟨hname, hmid⟩
    refine ⟨⟨hname, List.forall_mem_append.mpr ⟨hmid, fun w hw => (hconst w hw).1⟩⟩,
      List.forall_mem_append.mpr ⟨?_, fun w hw => (hconst w hw).2.clean.oneLine⟩⟩
    simp [hnick.oneLine, hname.2]

theorem nul_welcomeText (hnick : NUL ∉ nick) : NUL ∉ welcomeText ctx nick nick := by
  simp only [welcomeText, List.mem_append, not_or]
  exact ⟨⟨⟨⟨⟨by decide, hnick⟩, by decide⟩, hnick⟩, by decide⟩, hctx⟩

theorem nul_hostText :
    NUL ∉ lit "Your host is " ++ ctx.servername ++ lit ", running version 1.0" := by
  simp only [List.mem_append, not_or]
  exact ⟨⟨by decide, hctx⟩, by decide⟩

omit hctx in
theorem oneLine_welcomeText (hname : OneLine ctx.servername) (hnick : OneLine nick) :
    OneLine (welcomeText ctx nick nick) := by
  have htext : welcomeText ctx nick nick = lit "Welcome to the Internet Relay Network " ++
      (nick ++ 33 :: (nick ++ 64 :: ctx.servername)) := by
    simp only [welcomeText, List.append_assoc]
    rfl
  rw [htext]
  refine OneLine.append (oneLine_of_not_mem (by decide)) ?_ (by decide)
  rw [oneLine_append_cons (by decide) (by decide), oneLine_append_cons (by decide) (by decide)]
  exact ⟨hnick, hnick, hname⟩

omit hctx in
theorem oneLine_hostText (hname : OneLine ctx.servername) :
    OneLine (lit "Your host is " ++ ctx.servername ++ lit ", running version 1.0") := by
  have htext : lit ", running version 1.0" = 44 :: lit " running version 1.0" := by decide
  rw [List.append_assoc, htext]
  refine OneLine.append (oneLine_of_not_mem (by decide)) ?_ (by decide)
  rw [oneLine_append_cons (by decide) (by decide)]
  exact ⟨hname, oneLine_of_not_mem (by decide)⟩

theorem registration_readable_iff (hnick : Clean nick) (srv : Server) :
    (∀ m ∈ registrationReplies ctx srv nick nick, m.Readable) ↔
      Spells ctx [nick, ctx.servername] := by
  have hwelcome : (welcome ctx nick nick).Readable ↔
      Spells ctx [nick] ∧ OneLine (welcomeText ctx nick nick) :=
    readable_text_iff hctx (by decide) hnick (nul_welcomeText hctx hnick.nul)
  have hhost : (reply ctx nick rplYourhost [(lit "Your host is " ++ ctx.servername ++
      lit ", running version 1.0", true)]).Readable ↔ Spells ctx [nick] ∧
        OneLine (lit "Your host is " ++ ctx.servername ++ lit ", running version 1.0") :=
    readable_text_iff hctx (by decide) hnick (nul_hostText hctx)
  have hcreated : (reply ctx nick rplCreated
      [(lit "This server was created 20240701", true)]).Readable ↔ Spells ctx [nick] :=
    readable_plain_iff hctx (by decide) hnick (by decide)
  simp only [registrationReplies, briefing, List.forall_mem_cons, List.forall_mem_append,
    hwelcome, hhost, hcreated, myinfo_readable_iff hctx hnick, Server.lusers,
    lusers_readable_iff hctx hnick, noMotd_readable_iff hctx hnick]
  constructor
  · rintro ⟨-, ⟨⟨-, -, h, -⟩, -⟩, -⟩
    exact h
  · intro h
    have hspells : Spells ctx [nick] := ⟨h.1, fun w hw => h.2 w (by simp_all)⟩
    exact ⟨⟨hspells, oneLine_welcomeText h.1.2 hnick.oneLine⟩,
      ⟨⟨⟨hspells, oneLine_hostText h.1.2⟩, hspells, h, List.forall_mem_nil _⟩, hspells⟩, hspells⟩

omit hctx in
theorem copiedParams_eq : ∀ {ps : List CStr} (hps : ps ≠ []),
    copiedParams ps = ps.dropLast.map (·, false) ++ [(ps.getLast hps, true)]
  | [_], _ => rfl
  | p :: q :: ps, _ =>
    congrArg ((p, false) :: ·) (copiedParams_eq (List.cons_ne_nil q ps))

/-- The reply with the message of the client that is asked for. -/
theorem whoisUser_readable_iff {userMsg : Message} (hasker : Clean asker) (hm : userMsg.Quotable)
    (hlen : userMsg.params.length ≤ 13) : (reply ctx asker rplWhoisuser
      ((userMsg.cmd, false) :: copiedParams userMsg.params)).Readable ↔ Spells ctx [asker] := by
  have hcode : IsCode rplWhoisuser := by decide
  have hlast := hm.params _ (List.getLast_mem hm.ne)
  have hwords : ((userMsg.cmd, false) :: userMsg.params.dropLast.map (·, false)).map (·.1) =
      userMsg.cmd :: userMsg.params.dropLast := by
    simp [Function.comp_def]
  have hclean : ∀ p ∈ asker :: userMsg.cmd :: userMsg.params.dropLast,
      p = ctx.servername ∨ Clean p := by
    simp only [List.forall_mem_cons]
    exact ⟨.inr hasker, .inr hm.cmd.2, fun p hp => .inr (hm.params p (List.mem_of_mem_dropLast hp))⟩
  rw [← hwords] at hclean
  have hiff := readable_long_iff hctx _ hcode (by simp; omega) hclean
    hlast.nul
  rw [hwords] at hiff
  rw [copiedParams_eq hm.ne, ← List.cons_append, hiff]
  constructor
  · rintro ⟨⟨hname, hmid⟩, -⟩
    exact ⟨hname, List.forall_mem_singleton.mpr (hmid asker List.mem_cons_self)⟩
  · rintro ⟨hname, hmid⟩
    refine ⟨⟨hname, ?_⟩, hlast.oneLine⟩
    simp only [List.forall_mem_cons]
    exact ⟨hmid asker List.mem_cons_self, hm.cmd.1, hm.middle⟩

theorem whois_readable_iff {userMsg : Message} (hasker : Clean asker) (hnick : Clean nick)
    (hm : userMsg.Quotable) (hlen : userMsg.params.length ≤ 13) :
    (∀ m ∈ whoisReplies ctx asker nick userMsg, m.Readable) ↔
      Spells ctx [asker, nick, ctx.servername] := by
  have hserver : (reply ctx asker rplWhoisserver
      [(nick, false), (ctx.servername, false), (lit "Ubuntu", true)]).Readable ↔
      Spells ctx [asker, nick, ctx.servername] := by
    refine (readable_long_iff hctx [(nick, false), (ctx.servername, false)] (by decide) (by simp) ?_
      (by decide)).trans (and_iff_left (oneLine_of_not_mem (by decide)))
    simp [hasker, hnick]
  have hend : (reply ctx asker rplEndofwhois
      [(asker, true), (lit "End of WHOIS list", true)]).Readable ↔ Spells ctx [asker, asker] :=
    readable_word_iff hctx (by decide) hasker hasker (by decide)
  simp only [whoisReplies, List.forall_mem_cons, whoisUser_readable_iff hctx hasker hm hlen, hserver,
    hend]
  constructor
  · rintro ⟨-, h, -⟩
    exact h
  · rintro ⟨hname, hmid⟩
    have hasker := hmid asker List.mem_cons_self
    exact ⟨⟨hname, by simpa using hasker⟩, ⟨hname, hmid⟩, ⟨hname, by simpa using hasker⟩,
      List.forall_mem_nil _⟩

end

/-! ## Replies without a prefix -/

theorem plain_readable_iff (hcode : IsCode code) (hne : ps ≠ []) (hlen : ps.length ≤ 15)
    (hnul : ∀ p ∈ ps.map (·.1), NUL ∉ p) : (plain code ps).Readable ↔
      (∀ p ∈ (plain code ps).middles, Middle p) ∧ ∀ p ∈ ps.map (·.1), OneLine p := by
  have hparams : (plain code ps).params = ps.map (·.1) := rfl
  have hbuilt : (plain code ps).Built := by
    refine hcode.built rfl (by simpa [hparams] using hlen) (by simpa [hparams] using hne) ⟨?_, hnul⟩
    exact nofun
  rw [readable_iff hbuilt, hparams]
  exact and_iff_right nofun

theorem pong_readable : (plain (lit "PONG") [(lit "xixi", false)]).Readable := by
  have hword : Middle (lit "xixi") := ⟨by decide, by decide, by decide⟩
  refine (plain_readable_iff (by decide) (by simp) (by simp) ?_).mpr ⟨?_, ?_⟩
  · exact List.forall_mem_singleton.mpr (by decide)
  · exact List.forall_mem_singleton.mpr hword
  · exact List.forall_mem_singleton.mpr (oneLine_of_not_mem (by decide))

theorem error_readable (ht : Clean t) : (plain (lit "ERROR") [(t, true)]).Readable := by
  refine (plain_readable_iff (by decide) (by simp) (by simp) ?_).mpr ⟨?_, ?_⟩
  · exact List.forall_mem_singleton.mpr ht.nul
  · exact List.forall_mem_nil _
  · exact List.forall_mem_singleton.mpr ht.oneLine

/-- The reason that a QUIT gives. -/
def quitReason (msg : Message) : CStr :=
  match msg.params with
  | [p] => p
  | _ => lit "Client Quit"

def quitText (srv : Server) (msg : Message) : CStr :=
  lit "Closing Link: " ++ leastNick srv ++ lit " (" ++ quitReason msg ++ lit ")"

theorem onQuit_out (h : onQuit ctx msg w = .ok w') :
    w'.out = w.out ++ [plain (lit "ERROR") [(quitText w.srv msg, true)]] := by
  simp only [onQuit, responseQuit, myConstructUserQuitReply, Except.bind_eq_ok, sprintfBuf_eq_ok,
    writeReply_quit_eq_ok, Res.pure_eq] at h
  obtain ⟨_, ⟨-, rfl⟩, _, ⟨-, rfl⟩, h⟩ := h
  cases h
  rfl

theorem Message.Received.quitReason {msg : Message} (H : msg.Received) :
    Clean (quitReason msg) := by
  rw [Chirc.quitReason]
  split
  · next p hparams => exact H.params p (by rw [hparams]; exact List.mem_singleton_self p)
  · exact Plain.clean (by decide)

theorem quitText_clean {srv : Server} (H : srv.Clean) (hmsg : msg.Received) :
    Clean (quitText srv msg) := by
  have hnick := H.leastNick
  have hreason := hmsg.quitReason
  have htext : quitText srv msg = lit "Closing Link: " ++
      (leastNick srv ++ 32 :: (lit "(" ++ (quitReason msg ++ lit ")"))) := by
    simp only [quitText, List.append_assoc]
    rfl
  constructor
  · simp only [quitText, List.mem_append, not_or]
    exact ⟨⟨⟨⟨by decide, hnick.nul⟩, by decide⟩, hreason.nul⟩, by decide⟩
  · rw [htext]
    refine OneLine.append (oneLine_of_not_mem (by decide)) ?_ (by decide)
    refine (oneLine_append_cons (by decide) (by decide)).mpr ⟨hnick.oneLine, ?_⟩
    refine OneLine.append (oneLine_of_not_mem (by decide)) ?_ (by decide)
    exact (oneLine_append_cons (by decide) (by decide)).mpr ⟨hreason.oneLine, oneLine_nil⟩

/-! ## Every command -/

/-- A message that a WHOIS quotes is put behind the nick and the command. -/
theorem whois_stored_le {userMsg : Message}
    (hasker : findSockfdNickMapNode w.srv.sockfdNickHash fd = some asker)
    (hnode : findConnectionMapNode w.srv.connectionHash nick = some node)
    (hlive : node.msg = .live userMsg) (h : responseWhois ctx nick fd w = .ok w') :
    userMsg.params.length ≤ 13 := by
  obtain ⟨userMsg', hlive', hfits, -⟩ := responseWhois_found hasker hnode h
  cases hlive.symm.trans hlive'
  have hle := (hfits _ List.mem_cons_self).1
  rw [reply_params, List.map_cons, map_fst_copiedParams] at hle
  exact Nat.le_of_succ_le_succ (Nat.le_of_succ_le_succ hle)

/-- What the handler of the message puts in the middle of its replies are words. -/
def SpellsOut (ctx : Ctx) (srv : Server) (fd : Nat) (msg : Message) : Prop :=
  match command msg.cmd with
  | .ping | .pong | .quit => True
  | .lusers => Spells ctx [sockfdNick srv fd]
  | .motd => Spells ctx [sockfdNick srv fd] ∧ MotdReadable ctx
  | .whois =>
    match msg.params with
    | [nick] =>
      if findConnectionMapNode srv.connectionHash nick = none then
        Spells ctx [sockfdNick srv fd, nick]
      else Spells ctx [sockfdNick srv fd, nick, ctx.servername]
    | _ => True
  | .privmsg =>
    ∀ name ∈ msg.params.head?, findConnectionMapNode srv.connectionHash name = none →
      Spells ctx [leastNick srv]
  | .nick =>
    match msg.params with
    | [] => Spells ctx [leastNick srv]
    | [nick] =>
      if findConnectionMapNode srv.connectionHash nick ≠ none then Spells ctx [nick]
      else findUserNode srv.nickHead nick = none → findUserNode srv.userHead nick ≠ none →
        Spells ctx [nick, ctx.servername]
    | _ => True
  | .user =>
    if msg.params.length < 4 then Spells ctx [leastNick srv]
    else ∀ name ∈ msg.params.head?, msg.params.length = 4 →
      findUserNode srv.userHead name = none → findUserNode srv.nickHead name ≠ none →
        Spells ctx [name, ctx.servername]
  | .unknown =>
    ∀ node ∈ findSockfdNickMapNode srv.sockfdNickHash fd, Spells ctx [node.name, msg.cmd]

section
variable {ctx : Ctx} (hctx : NUL ∉ ctx.servername)
include hctx

theorem complain_readable_iff {w : Work} (hcode : IsCode code) (hnick : Clean nick) (ht : Plain t)
    (hout : w.out = []) :
    (∀ m ∈ (w.complain ctx nick code [] t).out, m.Readable) ↔ Spells ctx [nick] := by
  simp only [Work.complain, Work.send_out, Work.scribble_out, hout, List.nil_append,
    List.forall_mem_singleton]
  exact readable_plain_iff hctx hcode hnick ht

theorem dispatch_readable_iff {w w' : Work} (hmsg : msg.Received) (H : w.srv.Clean)
    (hout : w.out = []) (h : dispatch ctx fd msg w = .ok w') :
    (∀ m ∈ w'.out, m.Readable) ↔ SpellsOut ctx w.srv fd msg := by
  have hone {nick} (hparams : msg.params = [nick]) : Clean nick :=
    hmsg.params nick (by rw [hparams]; exact List.mem_singleton_self nick)
  have hsilent (hout' : w'.out = []) : ∀ m ∈ w'.out, m.Readable := by
    rw [hout']
    exact List.forall_mem_nil _
  have hH := dispatch_handled h
  rw [SpellsOut]
  cases hH with
  | ping hcmd =>
    simp only [hcmd, Work.send_out, hout, List.nil_append, List.forall_mem_singleton]
    exact iff_true_intro pong_readable
  | pong hcmd =>
    simp only [hcmd, iff_true]
    exact hsilent hout
  | quit text hcmd =>
    simp only [hcmd, iff_true]
    rw [dispatch, hcmd] at h
    rw [onQuit_out h, hout, List.nil_append]
    exact List.forall_mem_singleton.mpr (error_readable (quitText_clean H hmsg))
  | lusers hcmd =>
    simp only [hcmd, Work.send_out, hout, List.nil_append]
    exact lusers_readable_iff hctx H.sockfdNick _ _ _
  | motd hcmd =>
    simp only [hcmd, Work.send_out, hout, List.nil_append]
    exact motd_readable_iff hctx H.sockfdNick
  | whoisIgnored hcmd hlen =>
    simp only [hcmd]
    refine iff_of_true (hsilent hout) ?_
    split
    · next nick hparams => exact absurd (by rw [hparams]; rfl) hlen
    · trivial
  | whoisAbsent nick asker hcmd hparams hasker hnode =>
    have hnick : sockfdNick w.srv fd = asker.name := by rw [sockfdNick, hasker]; rfl
    simp only [hcmd, hparams, hnode, if_true, Work.send_out, hout, List.nil_append,
      List.forall_mem_singleton, hnick]
    exact readable_word_iff hctx (by decide) (hnick ▸ H.sockfdNick) (hone hparams) (by decide)
  | whoisFound nick asker node userMsg hcmd hparams hasker hnode hlive =>
    have hnick : sockfdNick w.srv fd = asker.name := by rw [sockfdNick, hasker]; rfl
    have hm := H.live node (List.mem_of_find?_eq_some hnode) userMsg hlive
    rw [dispatch, hcmd] at h
    simp only [onWhois, hparams] at h
    have hlen := whois_stored_le hasker hnode hlive h
    simp only [hcmd, hparams, hnode, Work.send_out, Work.update_out, hout, List.nil_append, hnick,
      reduceCtorEq, if_false]
    exact whois_readable_iff hctx (hnick ▸ H.sockfdNick) (hone hparams) hm hlen
  | privmsgFound name node hcmd hname hnode =>
    simp only [hcmd, hname, Option.mem_some_iff, forall_eq', hnode, reduceCtorEq,
      IsEmpty.forall_iff, iff_true]
    exact hsilent hout
  | privmsgAbsent name hcmd hname hnode =>
    simp only [hcmd, hname, Option.mem_some_iff, forall_eq', hnode, forall_const]
    exact complain_readable_iff hctx (by decide) H.leastNick (by decide) hout
  | nickMissing hcmd hparams =>
    simp only [hcmd, hparams]
    exact complain_readable_iff hctx (by decide) H.leastNick (by decide) hout
  | nickInUse nick node hcmd hparams hnode =>
    simp only [hcmd, hparams, hnode, ne_eq, reduceCtorEq, not_false_eq_true, if_true,
      Work.complain, Work.send_out, Work.scribble_out, Work.update_out, hout, List.nil_append,
      List.cons_append, List.forall_mem_singleton]
    have hstar : Spells ctx [lit "*", nick] ↔ Spells ctx [nick] := by
      have hword : Middle (lit "*") := ⟨by decide, by decide, by decide⟩
      simp [Spells, hword]
    rw [← hstar]
    exact readable_word_iff hctx (by decide) (Plain.clean (by decide)) (hone hparams) (by decide)
  | nickKnown nick node hcmd hparams hnode hfind =>
    simp only [hcmd, hparams, hnode, hfind, ne_eq, not_true_eq_false, if_false, reduceCtorEq,
      IsEmpty.forall_iff, iff_true]
    exact hsilent hout
  | nickPosted nick hcmd hparams hnode hfind huser =>
    simp only [hcmd, hparams, hnode, hfind, huser, ne_eq, not_true_eq_false, if_false,
      IsEmpty.forall_iff, forall_const, iff_true]
    exact hsilent hout
  | nickRegisters nick node user hcmd hparams hnode hfind huser hnodeMsg =>
    simp only [hcmd, hparams, hnode, hfind, huser, ne_eq, not_true_eq_false, if_false, reduceCtorEq,
      not_false_eq_true, forall_const, Work.registered_out, Work.update_out, hout, List.nil_append]
    exact registration_readable_iff hctx (hone hparams) _
  | nickIgnored hcmd hlen =>
    simp only [hcmd]
    refine iff_of_true (hsilent hout) ?_
    split
    · next hnil =>
      rw [hnil] at hlen
      exact absurd hlen (by decide)
    · next nick hparams =>
      rw [hparams] at hlen
      exact absurd hlen (Nat.not_succ_le_self 1)
    · trivial
  | userMissing name hcmd hname hlen =>
    simp only [hcmd, hlen, if_true, Work.complain, Work.send_out, Work.scribble_out, hout,
      List.nil_append, List.cons_append, List.forall_mem_singleton]
    have huser : Middle (lit "USER") := ⟨by decide, by decide, by decide⟩
    rw [← spells_word huser]
    exact readable_word_iff hctx (by decide) H.leastNick (Plain.clean (by decide)) (by decide)
  | userKnown name node hcmd hname hlen hfind =>
    simp only [hcmd, Nat.not_lt.mpr hlen, if_false, hname, Option.mem_some_iff, forall_eq', hfind,
      reduceCtorEq, IsEmpty.forall_iff, implies_true, iff_true]
    exact hsilent hout
  | userPosted name hcmd hname hlen hstored hfind hnot =>
    simp only [hcmd, Nat.not_lt.mpr hlen, if_false, hname, Option.mem_some_iff, forall_eq']
    refine iff_of_true (hsilent hout) fun hfour _ hnick => ?_
    exact (hnot.elim hnick fun hne => hne hfour).elim
  | userRegisters name node hcmd hname hlen hstored hfind hnick =>
    have hclean := hmsg.params name (List.mem_of_mem_head? hname)
    have hfour : ¬ 4 < 4 := Nat.lt_irrefl 4
    simp only [hcmd, hlen, hfour, if_false, hname, Option.mem_some_iff, forall_eq', hfind, hnick,
      ne_eq, reduceCtorEq, not_false_eq_true, forall_const, Work.registered_out, Work.update_out,
      hout, List.nil_append]
    exact registration_readable_iff hctx hclean _
  | unknownIgnored hcmd hnode =>
    simp only [hcmd, hnode]
    exact iff_of_true (hsilent hout) fun _ h => by cases h
  | unknown node hcmd hnode =>
    simp only [hcmd, hnode, Option.mem_some_iff, forall_eq', Work.send_out, hout, List.nil_append,
      List.forall_mem_singleton]
    exact readable_word_iff hctx (by decide) (H.tags node (List.mem_of_find?_eq_some hnode)) hmsg.cmd
      (by decide)

omit hctx in
/-- What is sent had room, so that its length is no matter. -/
theorem dispatch_legible_iff {w w' : Work} (hout : w.out = []) (h : dispatch ctx fd msg w = .ok w') :
    (∀ m ∈ w'.out, m.Legible) ↔ ∀ m ∈ w'.out, m.Readable := by
  obtain ⟨ms, hms, hfits⟩ := dispatch_sends h
  rw [hout, List.nil_append] at hms
  rw [hms]
  exact forall₂_congr fun m hm => Message.legible_iff (hfits m hm).2

/-- **The replies to a command can be read back** exactly if what its handler puts in the middle of
them are words that do not begin with a `:`. -/
theorem command_legible_iff {σ σ' : Sys} (hrun : Run ctx tr σ)
    (hstep : (chirc ctx).step σ (.command t fd c line msg out) σ') :
    (∀ m ∈ out, m.Legible) ↔ SpellsOut ctx σ.server fd msg := by
  cases step_cases hstep with
  | command t th p line msg w hth hp hparses hw =>
    exact (dispatch_legible_iff rfl hw).trans
      (dispatch_readable_iff hctx (hparses.received hp) hrun.clean rfl hw)

end

/-- A client that has just connected sends a line. -/
def firstLine (line : String) : List Event := [.accept 4, .recv 0 (lit line)]

/-- The thread of the client takes its step, if the handling of the message does not fault. -/
theorem exists_command {σ : Sys} (hth : σ.threads t = some th)
    (hp : strstrCrlf th.buf = .ok (some p)) (hparses : Parses th p line msg)
    (hw : (dispatch ctx th.sockfd msg (th.work σ.server p)).toOption.isSome = true) :
    ∃ c out σ', (chirc ctx).step σ (.command t th.sockfd c line msg out) σ' := by
  cases hdispatch : dispatch ctx th.sockfd msg (th.work σ.server p) with
  | error f =>
    rw [hdispatch] at hw
    cases hw
  | ok w => exact ⟨_, w.out, _, .line t, (step_line hth hp hparses).mpr ⟨w, hdispatch, rfl, rfl⟩⟩

def privmsgMessage : Message where
  pfx := none
  cmd := lit "PRIVMSG"
  params := [lit "amy", lit "Hello"]
  longlast := true
  raw := some (lit "PRIVMSG\x00amy\x00:Hello\x00\x00")

theorem legible_privmsg : ∃ tr σ c out σ', Run plainServer tr σ ∧
    (chirc plainServer).step σ
      (.command 0 4 c (lit "PRIVMSG amy :Hello\r\n") privmsgMessage out) σ' ∧
    SpellsOut plainServer σ.server 4 privmsgMessage ∧ ∀ m ∈ out, m.Legible := by
  obtain ⟨tr, σ, -, hrun, h⟩ := run_of_playsTo plainServer (firstLine "PRIVMSG amy :Hello\r\n")
    (fun _ σ => σ.threads 0 = some ⟨4, lit "PRIVMSG amy :Hello\r\n", 20⟩ ∧
      σ.server.nickHead = [] ∧ (dispatch plainServer 4 privmsgMessage (Thread.work
        ⟨4, lit "PRIVMSG amy :Hello\r\n", 20⟩ σ.server 18)).toOption.isSome) (by decide +kernel)
  obtain ⟨hth, hnicks, hw⟩ := of_decide_eq_true h
  have hparses : Parses ⟨4, lit "PRIVMSG amy :Hello\r\n", 20⟩ 18 (lit "PRIVMSG amy :Hello\r\n")
      privmsgMessage :=
    ⟨by decide +kernel, ⟨18, by decide +kernel, by decide⟩, by decide +kernel, by decide +kernel⟩
  obtain ⟨c, out, σ', hstep⟩ := exists_command hth (by decide +kernel) hparses hw
  have hspells : SpellsOut plainServer σ.server 4 privmsgMessage := by
    have hcmd : command privmsgMessage.cmd = .privmsg := by decide
    have hleast : leastNick σ.server = lit "*" := by rw [leastNick, hnicks]; rfl
    simp only [SpellsOut, hcmd, hleast]
    refine fun _ _ _ => ⟨⟨by decide, by decide⟩, List.forall_mem_singleton.mpr ?_⟩
    exact ⟨by decide, by decide, by decide⟩
  have hctx : NUL ∉ plainServer.servername := by decide
  exact ⟨tr, σ, c, out, σ', hrun, hstep, hspells, (command_legible_iff hctx hrun hstep).mpr hspells⟩

def lusersMessage : Message where
  pfx := none
  cmd := lit "LUSERS"
  params := []
  longlast := false
  raw := some (lit "LUSERS\x00\x00")

/-- A client without a nick is addressed by the empty name, in whose place the parser finds the
text. -/
theorem illegible_lusers : ∃ tr σ c out σ', Run plainServer tr σ ∧
    (chirc plainServer).step σ (.command 0 4 c (lit "LUSERS\r\n") lusersMessage out) σ' ∧
    ¬ ∀ m ∈ out, m.Legible := by
  obtain ⟨tr, σ, -, hrun, h⟩ := run_of_playsTo plainServer (firstLine "LUSERS\r\n")
    (fun _ σ => σ.threads 0 = some ⟨4, lit "LUSERS\r\n", 8⟩ ∧ σ.server.sockfdNickHash.items = [] ∧
      (dispatch plainServer 4 lusersMessage (Thread.work
        ⟨4, lit "LUSERS\r\n", 8⟩ σ.server 6)).toOption.isSome) (by decide +kernel)
  obtain ⟨hth, htags, hw⟩ := of_decide_eq_true h
  have hparses : Parses ⟨4, lit "LUSERS\r\n", 8⟩ 6 (lit "LUSERS\r\n") lusersMessage :=
    ⟨by decide +kernel, ⟨6, by decide +kernel, by decide⟩, by decide +kernel, by decide +kernel⟩
  obtain ⟨c, out, σ', hstep⟩ := exists_command hth (by decide +kernel) hparses hw
  refine ⟨tr, σ, c, out, σ', hrun, hstep, fun hlegible => ?_⟩
  have hctx : NUL ∉ plainServer.servername := by decide
  have hspells : SpellsOut plainServer σ.server 4 lusersMessage := by
    have hcases := step_cases hstep
    generalize hl : Label.command 0 4 c _ _ _ = l at hcases
    cases hcases with
    | command t th p line msg w hth hp hparses hw =>
      simp only [Label.command.injEq] at hl
      obtain ⟨-, hfd, -, -, rfl, rfl⟩ := hl
      rw [hfd]
      exact (dispatch_readable_iff hctx (hparses.received hp) hrun.clean rfl hw).mp
        ((dispatch_legible_iff rfl hw).mp hlegible)
    | _ => cases hl
  have hnone : sockfdNick σ.server 4 = [] := by
    rw [sockfdNick, findSockfdNickMapNode, htags]
    rfl
  have hcmd : command lusersMessage.cmd = .lusers := by decide
  simp only [SpellsOut, hcmd, hnone] at hspells
  exact (hspells.2 [] List.mem_cons_self).1 rfl

end Chirc
