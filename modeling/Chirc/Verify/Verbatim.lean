import Chirc.Verify.Faults
import Chirc.Verify.Gaps
import Chirc.Verify.Spelling

/-! # Long parameters in the receive loop

`trim_space` shortens all runs of spaces in a line to one space (`Parts.trimmed`), also those in the
text of a long parameter. What the parser makes of the line is then the message of its parts, with
that text in place of the one that was sent. -/

namespace Chirc

/-! ## Trimming a line -/

theorem trimGo_spaces (n : Nat) (t : CStr) :
    trimGo false (List.replicate n SP ++ t) = trimGo false t := by
  induction n with
  | zero => rfl
  | succ n ih =>
    rw [List.replicate_succ, List.cons_append, trimGo, if_pos rfl, if_neg Bool.false_ne_true, ih]

theorem trimGo_gap (n : Nat) (t : CStr) : trimGo true (gap n ++ t) = SP :: trimGo false t := by
  rw [gap, List.replicate_succ, List.cons_append, trimGo, if_pos rfl, if_pos rfl, trimGo_spaces]

theorem trimGo_token (htok : SP ∉ tok) (hne : tok ≠ []) (t : CStr) :
    trimGo inRun (tok ++ t) = tok ++ trimGo true t := by
  cases inRun with
  | false => exact trimGo_false_run htok hne
  | true => exact trimGo_run htok t

theorem trimGo_gap_token (n : Nat) (htok : SP ∉ tok) (hne : tok ≠ []) (t : CStr) :
    trimGo true (gap n ++ tok ++ t) = gap 0 ++ tok ++ trimGo true t := by
  rw [List.append_assoc, trimGo_gap, trimGo_token htok hne, List.append_assoc]
  rfl

theorem trimGo_middleText (gaps : Nat → Nat) (hps : ∀ p ∈ ps, Middle p) (t : CStr) :
    trimGo true (middleText gaps ps ++ t) = middleText (fun _ => 0) ps ++ trimGo true t := by
  induction ps generalizing gaps with
  | nil => rfl
  | cons p ps ih =>
    rw [List.forall_mem_cons] at hps
    rw [middleText, List.append_assoc, trimGo_gap_token _ hps.1.2.1 hps.1.1, ih _ hps.2, middleText,
      List.append_assoc (gap 0 ++ p)]

theorem trimGo_longText (n trail : Nat) (long : Option CStr) :
    trimGo true (longText n trail long) =
      longText 0 (min trail 1) (long.map (trimGo true)) := by
  cases long with
  | none =>
    cases trail with
    | zero => rfl
    | succ trail =>
      have hgap := trimGo_gap trail []
      rw [List.append_nil] at hgap
      rw [longText, Option.map_none, longText, Nat.min_eq_right (Nat.le_add_left 1 trail)]
      exact hgap
  | some p =>
    have hcolon : COLON ≠ SP := by decide
    rw [longText, trimGo_gap, trimGo, if_neg hcolon]
    rfl

/-- Single spaces. -/
def Gaps.single : Gaps := ⟨0, fun _ => 0, 0⟩

namespace Parts
variable (s : Parts)

/-- The parts that `trim_space` leaves of a line. -/
def trimmed : Parts where
  lead := 0
  pfx := s.pfx
  cmd := s.cmd
  middle := s.middle
  long := s.long.map (trimGo true)
  trail := min s.trail 1
  pfx_space := s.pfx_space
  cmd_token := s.cmd_token
  cmd_colon := s.cmd_colon
  middle_token := s.middle_token
  nul := by
    refine ⟨s.nul.1, s.nul.2.1, s.nul.2.2.1, ?_⟩
    intro p hp
    obtain ⟨q, hq, rfl⟩ := Option.map_eq_some_iff.mp hp
    exact nul_trimGo true (s.nul.2.2.2 q hq)

/-- **All runs of spaces are shortened**, wherever they are. -/
theorem trimGo_line (g : Gaps) : trimGo false (s.line g) = s.trimmed.line .single := by
  have hbody : trimGo true (middleText g.middle s.middle ++ longText g.long s.trail s.long) =
      middleText (fun _ => 0) s.middle ++
        longText 0 (min s.trail 1) (s.long.map (trimGo true)) := by
    rw [trimGo_middleText g.middle s.middle_token, trimGo_longText]
  rw [line, List.append_assoc, List.append_assoc, List.append_assoc, trimGo_spaces]
  cases hpfx : s.pfx with
  | none =>
    rw [prefixText, List.nil_append, trimGo_token s.cmd_token.2 s.cmd_token.1, hbody]
    simp [line, trimmed, Gaps.single, hpfx, prefixText]
  | some p =>
    rw [prefixText, List.append_assoc, trimGo_token (s.space_prefix hpfx) (List.cons_ne_nil _ _),
      trimGo_gap, trimGo_token s.cmd_token.2 s.cmd_token.1, hbody]
    simp [line, trimmed, Gaps.single, hpfx, prefixText, gap]

theorem line_ne_nil (g : Gaps) : s.line g ≠ [] := by
  intro h
  simp only [line, List.append_eq_nil_iff] at h
  exact s.cmd_token.1 h.1.1.2

theorem params_trimmed : s.trimmed.params .single =
    (s.middle ++ (s.long.map (trimGo true)).toList, s.long.isSome) := by
  cases hlong : s.long with
  | none => simp [params, trimmed, hlong, longIn]
  | some text => simp [params, trimmed, hlong, longIn, Gaps.single]

theorem length_params_trimmed : (s.trimmed.params .single).1.length ≤ 15 ↔ s.Fits := by
  rw [params_trimmed, Fits, List.length_append]
  cases s.long with
  | none => exact Iff.rfl
  | some text => exact Iff.rfl

end Parts

/-! ## Handling a line -/

/-- The CRLF is found again behind the trimmed line, which is not empty. -/
theorem exists_crlf_trimmed {th : Thread} {s : Parts} (hfound : strstrCrlf th.buf = .ok (some p))
    (hline : th.buf.take (p + 2) = s.line g ++ [CR, LF]) :
    ∃ q, strstrCrlf (s.trimmed.line .single ++ [CR, LF]) = .ok (some q) ∧ q ≠ 0 := by
  have hterminated := (terminated_of_crlfIdx (strstrCrlf_eq_some.mp hfound)).1
  have hnul : NUL ∉ s.trimmed.line .single ++ [CR, LF] := by
    rw [List.mem_append, not_or]
    exact ⟨s.trimmed.nul_line .single, by decide⟩
  have htrim : trimGo false (s.line g ++ [CR, LF]) = s.trimmed.line .single ++ [CR, LF] := by
    rw [trimGo_crlf, s.trimGo_line g]
  have hzero := crlfIdx_trimGo hterminated
  rw [hline, htrim] at hzero
  cases hq : crlfIdx (s.trimmed.line .single ++ [CR, LF]) with
  | none =>
    exact absurd (List.suffix_append _ _).isInfix (not_infix_of_crlfIdx hnul hq)
  | some q =>
    refine ⟨q, strstrCrlf_eq_some.mpr hq, ?_⟩
    rintro rfl
    exact s.trimmed.line_ne_nil .single (by simpa using hzero.mp hq)

section
variable {σ : Sys} {s : Parts} {g : Gaps} {text : CStr} (hthread : σ.threads t = some th)
  (hfound : strstrCrlf th.buf = .ok (some p)) (hline : th.buf.take (p + 2) = s.line g ++ [CR, LF])
include hthread hfound hline

/-- The line is handled exactly if there is room for its parameters, and for its trimmed text. -/
theorem exists_handling_iff {P : Fields → Prop} :
    (∃ line msg, σ.Handling t th p line msg ∧ P msg.fields) ↔
      s.Fits ∧ (s.trimmed.line .single).length + 2 < 1024 ∧ P (s.trimmed.message .single) := by
  have htrim : trimSpace (th.buf.take (p + 2)) = .ok (s.trimmed.line .single ++ [CR, LF]) := by
    rw [hline, trimSpace_crlf, s.trimGo_line g]
  constructor
  · intro h
    obtain ⟨line, msg, hmsg, hP⟩ := h
    cases hmsg.parses.trim.symm.trans htrim
    have hparse := hmsg.parses.parse
    have hmatches : Matches (chircMessageFromString (s.trimmed.line .single ++ [CR, LF]))
        (.ok (some msg.fields)) := by
      rw [hparse]
      rfl
    have hlen := hmsg.parses.length_lt
    rw [List.length_append] at hlen
    obtain ⟨hle, hfields⟩ :=
      (s.trimmed.matches_iff .single hmsg.parses.size).mp hmatches
    exact ⟨s.length_params_trimmed.mp hle, hlen, hfields ▸ hP⟩
  · intro h
    obtain ⟨hfits, hlen, hP⟩ := h
    have hshort : s.trimmed.Short .single := Nat.lt_trans hlen (by decide)
    have hmatches :=
      (s.trimmed.matches_iff .single hshort).mpr ⟨s.length_params_trimmed.mpr hfits, rfl⟩
    obtain ⟨r, hr, hfields⟩ := Res.map_eq_ok.mp hmatches
    obtain ⟨msg, rfl, hmsg⟩ := Option.map_eq_some_iff.mp hfields
    have hcrlf := exists_crlf_trimmed hfound hline
    have hlength : (s.trimmed.line .single ++ [CR, LF]).length < 1024 := by
      rw [List.length_append]
      exact hlen
    exact ⟨_, msg, ⟨hthread, hfound, htrim, hcrlf, hlength, hr⟩, hmsg ▸ hP⟩

/-- **The text of a long parameter reaches the handler as it was sent** exactly if it has no
adjacent spaces, and there is room for the parameters and for the text of the line. -/
theorem long_verbatim_iff (hlong : s.long = some text) :
    (∃ line msg, σ.Handling t th p line msg ∧ msg.params.getLast? = some text) ↔
      ¬ [SP, SP] <:+: text ∧ s.Fits ∧
        (({ s with lead := 0 } : Parts).line .single).length + 2 < 1024 := by
  have hiff := @exists_handling_iff _ _ _ _ _ _ hthread hfound hline fun f =>
    f.params.getLast? = some text
  have hlast : (s.trimmed.message .single).params.getLast? = some text ↔
      trimGo true text = text := by
    rw [Parts.message, s.params_trimmed, hlong]
    simp
  have hsame (htext : trimGo true text = text) :
      s.trimmed.line .single = ({ s with lead := 0 } : Parts).line .single := by
    simp [Parts.line, Parts.trimmed, hlong, htext, longText]
  have hadj := (trimGo_eq_self_iff text).1
  refine hiff.trans ?_
  rw [hlast, ← hadj]
  constructor
  · intro h
    obtain ⟨hfits, hlen, htext⟩ := h
    exact ⟨htext, hfits, hsame htext ▸ hlen⟩
  · intro h
    obtain ⟨htext, hfits, hlen⟩ := h
    exact ⟨hfits, hsame htext ▸ hlen, htext⟩

end

/-- What is played ends with such a line in the buffer of thread `t`. -/
theorem found_of_playsTo (ctx : Ctx) (es : List Event) (t p : Nat) (line : CStr)
    (h : playsTo ctx es (fun _ σ => (σ.threads t).any fun th =>
      strstrCrlf th.buf = .ok (some p) ∧ th.buf.take (p + 2) = line) = true) :
    ∃ tr σ th, Run ctx tr σ ∧ σ.threads t = some th ∧ strstrCrlf th.buf = .ok (some p) ∧
      th.buf.take (p + 2) = line := by
  obtain ⟨tr, σ, -, hrun, h⟩ := run_of_playsTo ctx es _ h
  obtain ⟨th, hth, h⟩ := (Option.any_eq_true _ _).mp h
  obtain ⟨hfound, hline⟩ := of_decide_eq_true h
  exact ⟨tr, σ, th, hrun, hth, hfound, hline⟩

/-- A client that has just connected sends a text without adjacent spaces. -/
theorem long_verbatim_hi : ∃ tr σ, Run plainServer tr σ ∧ ∃ th p line msg,
    σ.Handling 0 th p line msg ∧ th.buf.take (p + 2) = lit "PRIVMSG a :hi\r\n" ∧
      msg.params.getLast? = some (lit "hi") := by
  obtain ⟨tr, σ, th, hrun, hth, hfound, hline⟩ := found_of_playsTo plainServer
    (firstLine "PRIVMSG a :hi\r\n") 0 13 (privmsgHi.line .single ++ [CR, LF]) (by decide +kernel)
  have hiff := long_verbatim_iff hth hfound hline (rfl : privmsgHi.long = some (lit "hi"))
  obtain ⟨line, msg, hmsg, hlast⟩ := hiff.mpr ⟨by decide, Nat.le_of_ble_eq_true rfl, by decide⟩
  exact ⟨tr, σ, hrun, th, 13, line, msg, hmsg, hline.trans (by decide), hlast⟩

/-- A message whose long parameter has adjacent spaces. -/
def privmsgHiThere : Parts :=
  { privmsgHi with
    long := some (lit "hi  there")
    nul := ⟨privmsgHi.nul.1, privmsgHi.nul.2.1, privmsgHi.nul.2.2.1,
      by simpa using (by decide : NUL ∉ lit "hi  there")⟩ }

/-- A client that has just connected sends it. -/
theorem not_long_verbatim : ∃ tr σ th, Run plainServer tr σ ∧ σ.threads 0 = some th ∧
    strstrCrlf th.buf = .ok (some 20) ∧
    th.buf.take 22 = lit "PRIVMSG a :hi  there\r\n" ∧
    (∃ line msg, σ.Handling 0 th 20 line msg ∧ msg.params.getLast? = some (lit "hi there")) ∧
    ¬ ∃ line msg, σ.Handling 0 th 20 line msg ∧ msg.params.getLast? = some (lit "hi  there") := by
  obtain ⟨tr, σ, th, hrun, hth, hfound, hline⟩ := found_of_playsTo plainServer
    (firstLine "PRIVMSG a :hi  there\r\n") 0 20 (privmsgHiThere.line .single ++ [CR, LF])
    (by decide +kernel)
  have hlast : (privmsgHiThere.trimmed.message .single).params.getLast? =
      some (lit "hi there") := by
    decide
  have hiff (text : CStr) := @exists_handling_iff _ _ _ _ _ _ hth hfound hline fun f =>
    f.params.getLast? = some text
  refine ⟨tr, σ, th, hrun, hth, hfound, hline.trans (by decide), ?_, ?_⟩
  · exact (hiff _).mpr ⟨Nat.le_of_ble_eq_true rfl, by decide, hlast⟩
  · intro h
    have hsent := ((hiff _).mp h).2.2
    rw [hlast] at hsent
    exact absurd hsent (by decide)

end Chirc
