import Chirc.Verify.Grammar
import Chirc.Verify.Lengths
import Chirc.Verify.Network

/-! # The MOTD line by line

`fgets` reads whole lines where they are not longer than its array has room for, and keeps their
newlines, which the handler does not remove. -/

namespace Chirc

/-! ## Lines of a file -/

/-- The first line of a text is at least as long as what is before the first newline. -/
theorem exists_textLine (hu : LF ∉ u) (hne : u ≠ []) (t : List Byte) :
    ∃ line ∈ textLines (u ++ t), u.length ≤ line.length := by
  induction t generalizing u with
  | nil =>
    rw [List.append_nil, textLines_last hu hne]
    exact ⟨u, List.mem_cons_self, Nat.le_refl _⟩
  | cons c t ih =>
    by_cases hc : c = LF
    · rw [hc, textLines_newline hu]
      exact ⟨u, List.mem_cons_self, Nat.le_refl _⟩
    · have hu' : LF ∉ u ++ [c] := by simpa [hu] using Ne.symm hc
      obtain ⟨line, hline, hlen⟩ := ih hu' (List.concat_ne_nil c u)
      rw [List.append_assoc] at hline
      rw [List.length_append] at hlen
      exact ⟨line, hline, Nat.le_trans (Nat.le_add_right _ _) hlen⟩

/-- Where the lines are short, `fgets` reads what `getline` does. -/
theorem fgetsLines_eq_getLines {acc : List Byte} (hacc : LF ∉ acc) (file : List Byte)
    (hlines : ∀ line ∈ textLines (acc ++ file), line.length ≤ 254) :
    fgetsLines acc file = getLines acc file := by
  induction file generalizing acc with
  | nil => rfl
  | cons b file ih =>
    rw [fgetsLines, getLines]
    by_cases hb : b = LF
    · rw [hb, textLines_newline hacc, List.forall_mem_cons] at hlines
      rw [if_pos (.inl hb), if_pos hb, ih List.not_mem_nil hlines.2]
    · have hacc' : LF ∉ acc ++ [b] := by simpa [hacc] using Ne.symm hb
      have hfile : acc ++ b :: file = acc ++ [b] ++ file := by rw [List.append_assoc]; rfl
      rw [hfile] at hlines
      obtain ⟨line, hline, hlen⟩ := exists_textLine hacc' (List.concat_ne_nil b acc) file
      have hle := hlines line hline
      have hshort : ¬ (b = LF ∨ (acc ++ [b]).length = 255) := by
        rw [not_or]
        exact ⟨hb, by omega⟩
      rw [if_neg hshort, if_neg hb]
      exact ih hacc' hlines

theorem takeWhile_line (hline : LF ∉ line) (rest : List Byte) :
    (line ++ rest).takeWhile (· ≠ LF) = line ++ rest.takeWhile (· ≠ LF) := by
  refine List.takeWhile_append_of_pos ?_
  intro b hb
  exact decide_eq_true fun h => hline (h ▸ hb)

theorem takeWhile_line_self {line : List Byte} (hline : LF ∉ line) :
    line.takeWhile (· ≠ LF) = line := by
  have htake := takeWhile_line hline []
  rwa [List.append_nil, List.takeWhile_nil, List.append_nil] at htake

theorem map_getLines {acc : List Byte} (hacc : LF ∉ acc) (content : List Byte) :
    (getLines acc content).map (·.takeWhile (· ≠ LF)) = textLines (acc ++ content) := by
  induction content generalizing acc with
  | nil =>
    by_cases hnil : acc = []
    · rw [hnil]
      rfl
    · rw [List.append_nil, getLines, if_neg hnil, textLines_last hacc hnil, List.map_singleton,
        takeWhile_line_self hacc]
  | cons b content ih =>
    rw [getLines]
    by_cases hb : b = LF
    · rw [if_pos hb, hb, textLines_newline hacc, List.map_cons, ih List.not_mem_nil,
        takeWhile_line hacc]
      simp
    · have hacc' : LF ∉ acc ++ [b] := by simpa [hacc] using Ne.symm hb
      rw [if_neg hb, ih hacc', List.append_assoc]
      rfl

/-- The lines that are read are those of the text, apart from their newlines. -/
theorem getLines_text (content : List Byte) :
    (getLines [] content).map (·.takeWhile (· ≠ LF)) = textLines content :=
  map_getLines List.not_mem_nil content

theorem flatten_getLines (acc content : List Byte) :
    (getLines acc content).flatten = acc ++ content := by
  induction content generalizing acc with
  | nil =>
    rw [getLines]
    split
    · next hnil => rw [hnil]; rfl
    · rw [List.flatten_singleton, List.append_nil]
  | cons b content ih =>
    rw [getLines]
    split
    · rw [List.flatten_cons, ih, List.append_assoc]
      rfl
    · rw [ih, List.append_assoc]
      rfl

/-- What is read is a line, with its newline if it has one. -/
theorem mem_getLines {acc : List Byte} (hacc : LF ∉ acc) (h : l ∈ getLines acc content) :
    ∃ line, LF ∉ line ∧ (l = line ∨ l = line ++ [LF]) := by
  induction content generalizing acc with
  | nil =>
    rw [getLines] at h
    split at h
    · cases h
    · rw [List.mem_singleton.mp h]
      exact ⟨acc, hacc, .inl rfl⟩
  | cons b content ih =>
    rw [getLines] at h
    split at h
    · next hb =>
      rcases List.mem_cons.mp h with rfl | h
      · exact ⟨acc, hacc, .inr (by rw [hb])⟩
      · exact ih List.not_mem_nil h
    · next hb => exact ih (by simpa [hacc] using Ne.symm hb) h

theorem lf_of_mem_textLines (h : line ∈ textLines content) : LF ∉ line := by
  rw [← getLines_text] at h
  obtain ⟨l, -, rfl⟩ := List.mem_map.mp h
  intro hmem
  have hne := List.mem_takeWhile_imp hmem
  simp at hne

/-- The lines that are read have no NUL if those of the text have none. -/
theorem nul_of_mem_getLines (hnul : ∀ line ∈ textLines content, NUL ∉ line)
    (h : l ∈ getLines [] content) : NUL ∉ l := by
  obtain ⟨line, hline, hl⟩ := mem_getLines List.not_mem_nil h
  have hmem : l.takeWhile (· ≠ LF) ∈ textLines content := by
    rw [← getLines_text]
    exact List.mem_map_of_mem h
  rcases hl with rfl | rfl
  · rw [takeWhile_line_self hline] at hmem
    exact hnul _ hmem
  · have htake := takeWhile_line hline [LF]
    have hlf : [LF].takeWhile (· ≠ LF) = [] := rfl
    rw [hlf, List.append_nil] at htake
    rw [List.mem_append, not_or]
    exact ⟨hnul _ (htake ▸ hmem), by decide⟩

/-- The lines of a file without newlines. -/
theorem getLines_eq_textLines (hfile : LF ∉ file) : getLines [] file = textLines file := by
  have hmap : (getLines [] file).map (·.takeWhile (· ≠ LF)) = (getLines [] file).map id := by
    apply List.map_congr_left
    intro l hl
    exact takeWhile_line_self fun hmem => hfile (mem_of_mem_getLines hl hmem)
  rw [← getLines_text, hmap, List.map_id]

/-! ## Replies -/

/-- The replies that deliver the MOTD line by line. -/
def motdByLine (ctx : Ctx) (nick : CStr) (file : List Byte) : List Message :=
  reply ctx nick rplMotdstart [(lit "- .* Message of the day - ", true)] ::
    (textLines file).map (fun line => reply ctx nick rplMotd [(lit "- " ++ line, true)]) ++
    [reply ctx nick rplEndofmotd [(lit "End of MOTD command", true)]]

/-- `response_MOTD` sends these replies, and none has a newline before its CRLF. -/
def SendsMotdByLine (ctx : Ctx) (nick : CStr) (file : List Byte) (w : Work) : Prop :=
  responseMotd ctx nick true w = .ok (w.send (motdByLine ctx nick file)) ∧
    ∀ m ∈ motdByLine ctx nick file, LF ∉ text m

theorem text_reply (code p : CStr) : text (reply ctx nick code [(p, true)]) =
    COLON :: ctx.servername ++ [SP] ++ code ++ SP :: nick ++ SP :: COLON :: p := by
  simp [text, reply, Message.withParams, renderPrefix, renderParams]

theorem motdstart_fits_iff :
    (reply ctx nick rplMotdstart [(lit "- .* Message of the day - ", true)]).Fits ↔
      ctx.servername.length + nick.length ≤ 987 := by
  rw [reply_fits_iff (by simp)]
  simp [lit, rplMotdstart, lastLong]
  omega

theorem motd_fits_iff : (reply ctx nick rplMotd [(lit "- " ++ line, true)]).Fits ↔
    ctx.servername.length + nick.length + line.length ≤ 1011 := by
  rw [reply_fits_iff (by simp)]
  simp [lit, rplMotd, lastLong]
  omega

theorem endofmotd_fits_iff :
    (reply ctx nick rplEndofmotd [(lit "End of MOTD command", true)]).Fits ↔
      ctx.servername.length + nick.length ≤ 994 := by
  rw [reply_fits_iff (by simp)]
  simp [lit, rplEndofmotd, lastLong]
  omega

section
variable {ctx : Ctx} {nick : CStr} {file : List Byte}

theorem motdByLine_fits_iff : (∀ m ∈ motdByLine ctx nick file, m.Fits) ↔
    ctx.servername.length + nick.length ≤ 987 ∧
      ∀ line ∈ textLines file, ctx.servername.length + nick.length + line.length ≤ 1011 := by
  simp only [motdByLine, List.cons_append, List.forall_mem_cons, List.forall_mem_append,
    List.forall_mem_map, motdstart_fits_iff, motd_fits_iff, endofmotd_fits_iff, List.not_mem_nil,
    IsEmpty.forall_iff, implies_true, and_true]
  constructor
  · intro h
    exact ⟨h.1, h.2.1⟩
  · intro h
    exact ⟨h.1, h.2, by omega⟩

theorem motdByLine_newline_iff : (∀ m ∈ motdByLine ctx nick file, LF ∉ text m) ↔
    LF ∉ ctx.servername ∧ LF ∉ nick := by
  have hreply {code p : CStr} (hcode : LF ∉ code) (hp : LF ∉ p) :
      LF ∉ text (reply ctx nick code [(p, true)]) ↔ LF ∉ ctx.servername ∧ LF ∉ nick := by
    have hbytes : LF ≠ COLON ∧ LF ≠ SP := by decide
    rw [text_reply]
    simp [hcode, hp, hbytes]
  constructor
  · intro h
    exact (hreply (by decide) (by decide)).mp (h _ List.mem_cons_self)
  · intro h m hm
    simp only [motdByLine, List.mem_append, List.mem_cons, List.mem_map, List.not_mem_nil,
      or_false] at hm
    rcases hm with (rfl | ⟨line, hline, rfl⟩) | rfl
    · exact (hreply (by decide) (by decide)).mpr h
    · refine (hreply (by decide) ?_).mpr h
      rw [List.mem_append, not_or]
      exact ⟨by decide, lf_of_mem_textLines hline⟩
    · exact (hreply (by decide) (by decide)).mpr h

variable (hfile : ctx.motd = some file)
  (hlines : ∀ line ∈ textLines file, line.length ≤ 254 ∧ CR ∉ line ∧ NUL ∉ line)
include hfile hlines

/-- What is sent: one reply for each line, with the line as it is in the file. -/
theorem motdReplies_eq_getLines : motdReplies ctx nick true =
    reply ctx nick rplMotdstart [(lit "- .* Message of the day - ", true)] ::
      (getLines [] file).map (fun l => reply ctx nick rplMotd [(lit "- " ++ l, true)]) ++
      [reply ctx nick rplEndofmotd [(lit "End of MOTD command", true)]] := by
  have hmotd : (if true then ctx.motd else none) = some file := hfile
  have hshort (line) (hline : line ∈ textLines file) : line.length ≤ 254 := (hlines line hline).1
  have hnul (line) (hline : line ∈ textLines file) : NUL ∉ line := (hlines line hline).2.2
  have hread : fgetsLines [] file = getLines [] file :=
    fgetsLines_eq_getLines List.not_mem_nil file hshort
  have hmap : motdLines ctx nick (getLines [] file) =
      (getLines [] file).map fun l => reply ctx nick rplMotd [(lit "- " ++ l, true)] := by
    apply List.map_congr_left
    intro l hl
    rw [cstrAt_of_not_mem (nul_of_mem_getLines hnul hl)]
  rw [motdReplies, hmotd, ← hmap, ← hread]

/-- These are the replies to send exactly if the file has no newline. -/
theorem motdReplies_eq_iff : motdReplies ctx nick true = motdByLine ctx nick file ↔ LF ∉ file := by
  rw [motdReplies_eq_getLines hfile hlines, motdByLine]
  constructor
  · intro h hlf
    have hmap := (List.cons.inj (List.append_cancel_right h)).2
    have hflatten := flatten_getLines [] file
    rw [List.nil_append] at hflatten
    rw [← hflatten] at hlf
    obtain ⟨l, hl, hmem⟩ := List.mem_flatten.mp hlf
    have hreply := List.mem_map_of_mem hl
      (f := fun l => reply ctx nick rplMotd [(lit "- " ++ l, true)])
    rw [hmap] at hreply
    obtain ⟨line, hline, heq⟩ := List.mem_map.mp hreply
    have hparams : [nick, lit "- " ++ line] = [nick, lit "- " ++ l] := congrArg Message.params heq
    have hsame : line = l := by simpa using hparams
    exact lf_of_mem_textLines hline (hsame ▸ hmem)
  · intro hlf
    rw [getLines_eq_textLines hlf]

/-- **The MOTD is delivered line by line** exactly if its file has no newline, neither have the
names in the replies, and there is room for the replies. -/
theorem sendsMotdByLine_iff : SendsMotdByLine ctx nick file w ↔
    LF ∉ file ∧ LF ∉ ctx.servername ∧ LF ∉ nick ∧
      ctx.servername.length + nick.length ≤ 987 ∧
      ∀ line ∈ textLines file, ctx.servername.length + nick.length + line.length ≤ 1011 := by
  have hfits := @motdByLine_fits_iff ctx nick file
  have hnewline := @motdByLine_newline_iff ctx nick file
  have hreplies := @motdReplies_eq_iff ctx nick file hfile hlines
  rw [SendsMotdByLine, responseMotd_eq_ok, hnewline, ← hreplies, ← hfits]
  constructor
  · intro h
    obtain ⟨⟨hsent, heq⟩, hservername, hnick⟩ := h
    have hsame : motdReplies ctx nick true = motdByLine ctx nick file :=
      (List.append_cancel_left (congrArg Work.out heq)).symm
    exact ⟨hsame, hservername, hnick, hsame ▸ hsent⟩
  · intro h
    obtain ⟨hsame, hservername, hnick, hsent⟩ := h
    rw [hsame]
    exact ⟨⟨hsent, rfl⟩, hservername, hnick⟩

end

/-- A server whose MOTD is this file. -/
def motdServer (file : List Byte) : Ctx := ⟨lit "irc.example", some file⟩

/-- A file with one line that does not end in a newline. -/
theorem sendsMotdByLine_aaa : SendsMotdByLine (motdServer (lit "AAA")) (lit "user1") (lit "AAA")
    ⟨Server.init, [], [], false⟩ := by
  have hlines : ∀ line ∈ textLines (lit "AAA"), line.length ≤ 254 ∧ CR ∉ line ∧ NUL ∉ line := by
    decide +kernel
  have hroom : ∀ line ∈ textLines (lit "AAA"), 11 + 5 + line.length ≤ 1011 := by decide +kernel
  exact (sendsMotdByLine_iff rfl hlines).mpr ⟨by decide, by decide, by decide, by decide, hroom⟩

/-- The newline of the first line is in its reply. -/
theorem not_sendsMotdByLine_aaa :
    textLines (lit "AAA\nBBB") = [lit "AAA", lit "BBB"] ∧
    (responseMotd (motdServer (lit "AAA\nBBB")) (lit "user1") true
        ⟨Server.init, [], [], false⟩).map (·.out.map fun m => (m.cmd, m.params)) = .ok
      [(rplMotdstart, [lit "user1", lit "- .* Message of the day - "]),
        (rplMotd, [lit "user1", lit "- AAA\n"]),
        (rplMotd, [lit "user1", lit "- BBB"]),
        (rplEndofmotd, [lit "user1", lit "End of MOTD command"])] ∧
    ¬ SendsMotdByLine (motdServer (lit "AAA\nBBB")) (lit "user1") (lit "AAA\nBBB")
      ⟨Server.init, [], [], false⟩ := by
  have hsent : (responseMotd (motdServer (lit "AAA\nBBB")) (lit "user1") true
        ⟨Server.init, [], [], false⟩).map (·.out.map fun m => (m.cmd, m.params)) = .ok
      [(rplMotdstart, [lit "user1", lit "- .* Message of the day - "]),
        (rplMotd, [lit "user1", lit "- AAA\n"]),
        (rplMotd, [lit "user1", lit "- BBB"]),
        (rplEndofmotd, [lit "user1", lit "End of MOTD command"])] := by
    decide +kernel
  refine ⟨by decide +kernel, hsent, ?_⟩
  intro h
  rw [h.1] at hsent
  exact absurd hsent (by decide +kernel)

end Chirc
