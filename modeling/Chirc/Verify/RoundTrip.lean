import Chirc.Verify.Parser

/-! # Parsing undoes rendering

For the messages that the IRC grammar allows (`Message.WellFormed`), the parser applied to the
text that `chirc_message_to_string` produces returns the message. -/

namespace Chirc

/-- A parameter that is not written behind a `:`. -/
def Middle (p : CStr) : Prop := p ≠ [] ∧ SP ∉ p ∧ p.head? ≠ some COLON

/-- The messages that the format can express. -/
structure Message.WellFormed (m : Message) : Prop where
  pfx : ∀ p, m.pfx = some p → SP ∉ p
  cmd_ne : m.cmd ≠ []
  cmd_space : SP ∉ m.cmd
  cmd_upper : ∀ b ∈ m.cmd, toupper b = b
  cmd_colon : m.pfx = none → m.cmd.head? ≠ some COLON
  nparams : m.params.length ≤ 15
  middle : ∀ p ∈ (if m.longlast then m.params.dropLast else m.params), Middle p
  longlast : m.longlast = true → m.params ≠ []
  nul : (∀ p, m.pfx = some p → NUL ∉ p) ∧ NUL ∉ m.cmd ∧ ∀ p ∈ m.params, NUL ∉ p

/-! ## Parameters -/

/-- What follows a token in front of the rendered parameters. -/
def restOfParams (longlast : Bool) : List CStr → Rest
  | [] => none
  | [p] => some (if longlast then COLON :: p else p)
  | p :: q :: ps => some (p ++ renderParams longlast (q :: ps))

theorem restText_restOfParams : restText (restOfParams longlast ps) = renderParams longlast ps := by
  rcases ps with _ | ⟨p, _ | ⟨q, ps⟩⟩ <;> rfl

theorem nextToken_append (htok : SP ∉ tok) (hne : tok ≠ []) :
    nextToken (tok ++ restText rest) = some (tok, rest) := by
  simpa using nextToken_eq (k := 0) htok hne

theorem Middle.head?_append_ne (hp : Middle p) : (p ++ s).head? ≠ some COLON := by
  obtain ⟨b, p', rfl⟩ := List.exists_cons_of_ne_nil hp.1
  simpa using hp.2.2

theorem readParams_middle (fuel : Nat) (rest : Rest) (hp : Middle p) (hlen : ps.length < 15) :
    readParams (fuel + 1) (some (p ++ restText rest)) ps = readParams fuel rest (ps ++ [p]) := by
  rw [readParams_succ, if_neg (by simpa using hp.head?_append_ne)]
  simp [nextToken_append hp.2.1 hp.1, pushParam, hlen]

/-- Reading the rendered parameters gives the parameters back. -/
theorem readParams_render : ∀ {ps acc : List CStr} {fuel : Nat}, ps.length < fuel →
    acc.length + ps.length ≤ 15 → (longlast = true → ps ≠ []) →
    (∀ p ∈ (if longlast then ps.dropLast else ps), Middle p) →
    readParams fuel (restOfParams longlast ps) acc = .ok (acc ++ ps, longlast)
  | [], acc, fuel + 1, _, _, hlong, _ => by
    have : longlast = false := by simpa using hlong
    simp [restOfParams, readParams, this]
  | [p], acc, fuel + 1, hfuel, hlen, _, hmid => by
    have hlen : acc.length < 15 := hlen
    cases longlast with
    | true => simp [restOfParams, readParams, pushParam, hlen]
    | false =>
      have hp : Middle p := hmid p (by simp)
      have hfuel : 0 < fuel := Nat.lt_of_succ_lt_succ hfuel
      obtain ⟨fuel, rfl⟩ := Nat.exists_eq_succ_of_ne_zero (Nat.ne_of_gt hfuel)
      have := readParams_middle (fuel + 1) none hp hlen
      simpa [restOfParams, restText, readParams] using this
  | p :: q :: ps, acc, fuel + 1, hfuel, hlen, _, hmid => by
    have hp : Middle p := hmid p (by cases longlast <;> simp)
    have hlen' : acc.length < 15 := by simp at hlen; omega
    rw [restOfParams, ← restText_restOfParams, readParams_middle _ _ hp hlen',
      readParams_render (by simpa using hfuel) (by simp at hlen ⊢; omega) (by simp)]
    · simp
    · intro r hr
      refine hmid r ?_
      cases longlast with
      | true => simpa [List.dropLast_cons_cons] using .inr hr
      | false => exact List.mem_cons_of_mem _ hr

theorem length_le_renderParams (longlast : Bool) :
    ∀ ps : List CStr, ps.length ≤ (renderParams longlast ps).length
  | [] => Nat.le_refl _
  | [p] => by simp [renderParams]
  | p :: q :: ps => by
    have := length_le_renderParams longlast (q :: ps)
    simp only [renderParams, List.length_cons, List.length_append] at this ⊢
    omega

theorem nul_renderParams (longlast : Bool) :
    ∀ {ps : List CStr}, (∀ p ∈ ps, NUL ∉ p) → NUL ∉ renderParams longlast ps
  | [], _ => by simp [renderParams]
  | [p], h => by
    have hp : NUL ∉ p := h p (by simp)
    have : NUL ≠ SP ∧ NUL ≠ COLON := by decide
    cases longlast <;> simp [renderParams, hp, this]
  | p :: q :: ps, h => by
    have hp : NUL ∉ p := h p (by simp)
    have ih := nul_renderParams longlast fun r hr => h r (List.mem_cons_of_mem p hr)
    simpa [renderParams] using ⟨by decide, hp, ih⟩

/-! ## Messages -/

namespace Message.WellFormed
variable {m : Message} (H : m.WellFormed)
include H

theorem map_toupper : m.cmd.map toupper = m.cmd := by
  rw [List.map_congr_left H.cmd_upper]
  simp

theorem readCommand_eq (hfuel : m.params.length < fuel) :
    readCommand fuel m.pfx m.cmd (restOfParams m.longlast m.params) = .ok (some m.fields) := by
  rw [readCommand, readParams_render hfuel (by simpa using H.nparams) H.longlast H.middle]
  simp [H.map_toupper, Message.fields]

theorem nextToken_cmd : nextToken (m.cmd ++ renderParams m.longlast m.params) =
    some (m.cmd, restOfParams m.longlast m.params) := by
  rw [← restText_restOfParams]
  exact nextToken_append H.cmd_space H.cmd_ne

theorem readLine_eq (hfuel : m.params.length < fuel) :
    readLine fuel (renderPrefix m.pfx ++ m.cmd ++ renderParams m.longlast m.params) =
      .ok (some m.fields) := by
  cases hpfx : m.pfx with
  | none =>
    rw [readLine, renderPrefix, List.nil_append, H.nextToken_cmd]
    simp only [H.cmd_colon hpfx, if_false]
    exact hpfx ▸ H.readCommand_eq hfuel
  | some p =>
    have hp : SP ∉ COLON :: p := by simpa using ⟨by decide, H.pfx p hpfx⟩
    have htext : renderPrefix (some p) ++ m.cmd ++ renderParams m.longlast m.params =
        COLON :: p ++ restText (some (m.cmd ++ renderParams m.longlast m.params)) := by
      simp [renderPrefix, restText]
    rw [readLine, htext, nextToken_append hp (by simp)]
    simp only [List.head?_cons, if_true, Option.bind_some, H.nextToken_cmd, List.tail_cons]
    exact hpfx ▸ H.readCommand_eq hfuel

theorem nul_render : NUL ∉ render m := by
  obtain ⟨hpfx, hcmd, hparams⟩ := H.nul
  have h : NUL ∉ renderPrefix m.pfx := by
    cases hp : m.pfx with
    | none => simp [renderPrefix]
    | some p => simpa [renderPrefix] using ⟨by decide, hpfx p hp, by decide⟩
  simpa [render] using ⟨h, hcmd, nul_renderParams _ hparams, by decide, by decide⟩

end Message.WellFormed

/-- **Parsing undoes rendering.** -/
theorem chircMessageFromString_toString {m : Message} (H : m.WellFormed)
    (hlen : (render m).length ≤ 1023) :
    ∃ s m', chircMessageToString m = .ok s ∧ chircMessageFromString s = .ok (some m') ∧
      m'.pfx = m.pfx ∧ m'.cmd = m.cmd ∧ m'.params.length = m.params.length ∧
      m'.params = m.params ∧ m'.longlast = m.longlast := by
  let text := renderPrefix m.pfx ++ m.cmd ++ renderParams m.longlast m.params
  have hrender : render m = text ++ [CR, LF] := rfl
  have htake : (render m).take ((render m).length - 2) = text := by
    rw [hrender, List.length_append]
    exact List.take_left
  have hfuel : m.params.length < (render m).length := by
    have := length_le_renderParams m.longlast m.params
    simp [render]
    omega
  have hsize : (render m).length < UInt32.size := Nat.lt_of_le_of_lt hlen (by decide)
  have hparse := @parseLine_eq _ H.nul_render (render m).length (by simp [hrender])
  rw [← chircMessageFromString_of_lt hsize] at hparse
  rw [htake, H.readLine_eq hfuel, Matches] at hparse
  obtain ⟨r, hr, hfields⟩ := Res.map_eq_ok.mp hparse
  obtain ⟨m', rfl, hm'⟩ := Option.map_eq_some_iff.mp hfields
  simp only [Message.fields, Fields.mk.injEq] at hm'
  obtain ⟨h1, h2, h3, h4⟩ := hm'
  exact ⟨render m, m', if_pos (Nat.lt_succ_of_le hlen), hr, h1, h2, by rw [h3], h3, h4⟩

/-- A message with a prefix and a long last parameter that holds a space and a colon. -/
def notice : Message :=
  ⟨some (lit "irc.example"), lit "PRIVMSG", [lit "#ops", lit ": now or never"], true, none⟩

theorem notice_roundTrip : ∃ s m', chircMessageToString notice = .ok s ∧
    chircMessageFromString s = .ok (some m') ∧ m'.pfx = notice.pfx ∧ m'.cmd = notice.cmd ∧
    m'.params.length = notice.params.length ∧ m'.params = notice.params ∧
    m'.longlast = notice.longlast := by
  refine chircMessageFromString_toString ⟨?_, by decide, by decide, ?_, nofun, by decide, ?_,
    by decide, ?_, by decide, by decide⟩ (by decide)
  · rintro _ ⟨⟩
    decide
  · have : notice.cmd.all (fun b => toupper b = b) := by decide
    simpa using this
  · intro p hp
    rw [show p = lit "#ops" by simpa [notice] using hp]
    exact ⟨by decide, by decide, by decide⟩
  · rintro _ ⟨⟩
    decide

end Chirc
