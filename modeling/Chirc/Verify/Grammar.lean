import Chirc.Server.Replies
import Chirc.Verify.RoundTrip
import Chirc.Verify.Words

/-! # Which messages can be read back

A message is written as its text up to the first CRLF. It is read back from what is written exactly
if its prefix has no space, its parameters other than a long last one are words that do not begin
with a `:`, and none of its strings has a CRLF. -/

namespace Chirc

open PrefixCode

/-! ## Texts without a CRLF -/

/-- The text has no CRLF in it. -/
def OneLine (s : CStr) : Prop := ¬ [CR, LF] <:+: s

instance : Decidable (OneLine s) := inferInstanceAs (Decidable (¬ _))

theorem OneLine.of_part (h : OneLine s) (hpart : t <:+: s) : OneLine t :=
  fun hcrlf => h (hcrlf.trans hpart)

theorem oneLine_nil : OneLine [] := by decide

theorem oneLine_cons : OneLine (b :: s) ↔ ¬ (b = CR ∧ s.head? = some LF) ∧ OneLine s := by
  rw [OneLine, List.infix_cons_iff, crlf_prefix_iff, not_or]
  rfl

theorem oneLine_cons_of_ne (h : b ≠ CR) : OneLine (b :: s) ↔ OneLine s := by
  simp [oneLine_cons, h]

/-- Around a byte other than CR and LF. -/
theorem oneLine_append_cons (hcr : c ≠ CR) (hlf : c ≠ LF) :
    OneLine (s ++ c :: t) ↔ OneLine s ∧ OneLine t := by
  induction s with
  | nil => simp [oneLine_cons_of_ne hcr, oneLine_nil]
  | cons b s ih =>
    have hhead : (s ++ c :: t).head? = some LF ↔ s.head? = some LF := by
      cases s with
      | nil => simpa using hlf
      | cons d s => rfl
    rw [List.cons_append, oneLine_cons, oneLine_cons, ih, hhead, and_assoc]

theorem OneLine.append (hs : OneLine s) (ht : OneLine t) (hlast : s.getLast? ≠ some CR) :
    OneLine (s ++ t) := by
  induction s with
  | nil => exact ht
  | cons b s ih =>
    rw [oneLine_cons] at hs
    cases s with
    | nil =>
      have hb : b ≠ CR := by simpa using hlast
      exact (oneLine_cons_of_ne hb).mpr ht
    | cons c s =>
      rw [List.getLast?_cons_cons] at hlast
      rw [List.cons_append, oneLine_cons]
      exact ⟨hs.1, ih hs.2 hlast⟩

theorem oneLine_append_cr : OneLine (s ++ [CR]) ↔ OneLine s := by
  induction s with
  | nil => decide
  | cons b s ih =>
    have hhead : (s ++ [CR]).head? = some LF ↔ s.head? = some LF := by
      cases s with
      | nil => decide
      | cons c s => rfl
    rw [List.cons_append, oneLine_cons, oneLine_cons, ih, hhead]

theorem terminated_crlf : Terminated CR LF (s ++ [CR, LF]) ↔ OneLine s := by
  rw [← oneLine_append_cr]
  constructor
  · rintro ⟨body, heq, hbody⟩
    rw [List.append_cancel_right heq]
    exact hbody
  · exact fun h => ⟨s, rfl, h⟩

/-! ## What is written -/

theorem wire_spec (h : [CR, LF] <:+: s) : Terminated CR LF (wire s) ∧ wire s <+: s := by
  induction s using wire.induct with
  | case1 => simp at h
  | case2 b => exact absurd h (by simp [List.infix_cons_iff])
  | case3 b c s hcrlf =>
    obtain ⟨rfl, rfl⟩ := hcrlf
    rw [wire, if_pos ⟨rfl, rfl⟩]
    exact ⟨terminated_crlf.mpr oneLine_nil, List.prefix_append [CR, LF] s⟩
  | case4 b c s hcrlf ih =>
    rw [wire, if_neg hcrlf]
    have hpart : [CR, LF] <:+: c :: s :=
      (List.infix_cons_iff.mp h).resolve_left fun hpre =>
        hcrlf (by simpa using crlf_prefix_iff.mp hpre)
    obtain ⟨⟨body, hbody, hline⟩, hpre⟩ := ih hpart
    refine ⟨⟨b :: body, by rw [hbody]; rfl, ?_⟩, (List.prefix_cons_inj b).mpr hpre⟩
    rw [List.cons_append, ← OneLine, oneLine_cons]
    refine ⟨fun ⟨hb, hc⟩ => hcrlf ⟨hb, ?_⟩, hline⟩
    rw [hbody] at hpre
    have hhead : (body ++ [CR]).head? = some c := by
      cases body with
      | nil => simpa using (List.cons_prefix_cons.mp hpre).1
      | cons d body => simpa using (List.cons_prefix_cons.mp hpre).1
    rw [hhead] at hc
    exact Option.some.inj hc

/-- What is written of a text that ends with a CRLF: a line that begins the text, and all of it
if it has no other CRLF. -/
theorem wire_crlf (s : CStr) : ∃ body, wire (s ++ [CR, LF]) = body ++ [CR, LF] ∧ OneLine body ∧
    body <+: s ∧ (OneLine s → body = s) := by
  obtain ⟨⟨body, hbody, hline⟩, hpre⟩ := wire_spec (s := s ++ [CR, LF]) ⟨s, [], by simp⟩
  have hone : OneLine body := oneLine_append_cr.mp hline
  have hlen : body.length ≤ s.length := by
    have := hpre.length_le
    rw [hbody] at this
    simpa using this
  have hpre' : body <+: s ++ [CR, LF] := .trans (List.prefix_append body _) (hbody ▸ hpre)
  refine ⟨body, hbody, hone, List.prefix_of_prefix_length_le hpre' (List.prefix_append s _) hlen,
    fun hs => ?_⟩
  have heq := terminated_prefixFree CR LF _ _ (hbody ▸ terminated_crlf.mpr hone)
    (terminated_crlf.mpr hs) hpre
  exact List.append_cancel_right (hbody.symm.trans heq)

/-! ## What is read -/

theorem nextToken_spec (h : nextToken s = some (tok, rest)) :
    SP ∉ tok ∧ tok ≠ [] ∧ tok <:+: s ∧ restText rest <:+: s := by
  rcases text_cases s with ⟨k, rfl⟩ | ⟨k, tok', rest', htok, hne, rfl⟩
  · rw [nextToken_replicate] at h
    cases h
  · rw [nextToken_eq htok hne] at h
    cases h
    exact ⟨htok, hne, ⟨_, _, rfl⟩, ⟨_, [], List.append_nil _⟩⟩

/-- The parameters that are read are parts of the text, behind those read before. -/
theorem readParams_infix {fuel : Nat} {rest : Rest} {ps : List CStr}
    (h : readParams fuel rest ps = .ok (qs, longlast)) :
    ∃ new, qs = ps ++ new ∧ (∀ p ∈ new, p <:+: restText rest) ∧ (longlast = true → new ≠ []) := by
  induction fuel generalizing rest ps with
  | zero => cases h
  | succ fuel ih =>
    cases rest with
    | none =>
      cases h
      exact ⟨[], by simp, nofun, nofun⟩
    | some s =>
      have hs : s <:+: restText (some s) := ⟨[SP], [], by simp [restText]⟩
      rw [readParams] at h
      split at h
      · next hcolon =>
        obtain ⟨_, hpush, h⟩ := Except.bind_eq_ok.mp h
        cases h
        rw [pushParam] at hpush
        split at hpush
        · cases hpush
          refine ⟨[s.tail], rfl, ?_, fun _ => by simp⟩
          simpa using (List.tail_suffix s).isInfix.trans hs
        · cases hpush
      · split at h
        · cases h
          exact ⟨[], by simp, nofun, nofun⟩
        · next tok rest htok =>
          obtain ⟨-, -, hpart, hrest⟩ := nextToken_spec htok
          obtain ⟨_, hpush, h⟩ := Except.bind_eq_ok.mp h
          rw [pushParam] at hpush
          split at hpush
          · cases hpush
            obtain ⟨new, rfl, hnew, -⟩ := ih h
            refine ⟨tok :: new, by simp, fun p hp => ?_, fun _ => by simp⟩
            rcases List.mem_cons.mp hp with rfl | hp
            · exact hpart.trans hs
            · exact ((hnew p hp).trans hrest).trans hs
          · cases hpush

/-- The fields that are read are parts of the text. -/
structure Fields.InText (f : Fields) (s : CStr) : Prop where
  pfx : ∀ p, f.pfx = some p → p <:+: s
  cmd : ∃ cmd, f.cmd = cmd.map toupper ∧ cmd <:+: s ∧ SP ∉ cmd ∧ cmd ≠ []
  params : ∀ p ∈ f.params, p <:+: s

theorem readCommand_inText {fuel : Nat} {rest : Rest}
    (h : readCommand fuel pfx cmd rest = .ok (some f)) (hpfx : ∀ p, pfx = some p → p <:+: s)
    (hcmd : cmd <:+: s ∧ SP ∉ cmd ∧ cmd ≠ []) (hrest : restText rest <:+: s) : f.InText s := by
  obtain ⟨⟨params, longlast⟩, hread, h⟩ := Except.bind_eq_ok.mp h
  cases h
  obtain ⟨new, rfl, hnew, -⟩ := readParams_infix hread
  exact ⟨hpfx, ⟨cmd, rfl, hcmd⟩, fun p hp => (hnew p (by simpa using hp)).trans hrest⟩

theorem readLine_inText {fuel : Nat} {s : CStr} (h : readLine fuel s = .ok (some f)) :
    f.InText s := by
  rw [readLine] at h
  split at h
  · cases h
  · next tok rest htok =>
    obtain ⟨hsp, hne, hpart, hrest⟩ := nextToken_spec htok
    split at h
    · split at h
      · cases h
      · next cmd rest' hcmd =>
        obtain ⟨t, rfl, ht⟩ := Option.bind_eq_some_iff.mp hcmd
        obtain ⟨hsp', hne', hpart', hrest'⟩ := nextToken_spec ht
        have hts : t <:+: s := .trans ⟨[SP], [], by simp [restText]⟩ hrest
        refine readCommand_inText h ?_ ⟨hpart'.trans hts, hsp', hne'⟩ (hrest'.trans hts)
        rintro _ ⟨⟩
        exact (List.tail_suffix tok).isInfix.trans hpart
    · exact readCommand_inText h (fun _ h => by cases h) ⟨hpart, hsp, hne⟩ hrest

/-! ## Reading a message back -/

/-- The first parameter that is read from rendered parameters, when all of them are read back. -/
theorem head_of_readParams {fuel : Nat} {s : CStr} {acc : List CStr}
    (h : readParams fuel (some s) acc = .ok (acc ++ p :: ps, longlast))
    (hmore : longlast = true → ps ≠ []) (hs : s.head? = p.head? ∨ p = []) :
    Middle p ∧ ∃ fuel' rest, nextToken s = some (p, rest) ∧
      readParams fuel' rest (acc ++ [p]) = .ok (acc ++ p :: ps, longlast) := by
  cases fuel with
  | zero => cases h
  | succ fuel =>
    rw [readParams] at h
    split at h
    · next hcolon =>
      -- the rest of the line would be one long parameter
      obtain ⟨_, hpush, h⟩ := Except.bind_eq_ok.mp h
      rw [pushParam] at hpush
      split at hpush
      · cases hpush
        obtain ⟨hps, hlong⟩ := Prod.mk.inj (Except.ok.inj h)
        have : ps = [] := (List.cons.inj (List.append_cancel_left hps)).2.symm
        exact absurd this (hmore hlong.symm)
      · cases hpush
    · next hcolon =>
      split at h
      · have := (Prod.mk.inj (Except.ok.inj h)).1
        simp at this
      · next tok rest htok =>
        obtain ⟨hsp, hne, -, -⟩ := nextToken_spec htok
        obtain ⟨_, hpush, h⟩ := Except.bind_eq_ok.mp h
        rw [pushParam] at hpush
        split at hpush
        · cases hpush
          obtain ⟨new, hnew, -, -⟩ := readParams_infix h
          rw [List.append_assoc] at hnew
          obtain rfl : p = tok := (List.cons.inj (List.append_cancel_left hnew)).1
          exact ⟨⟨hne, hsp, (hs.resolve_right hne) ▸ hcolon⟩, fuel, rest, htok, h⟩
        · cases hpush

/-- Parameters that are read back from their rendering are words, but for a long last one. -/
theorem middle_of_readParams : ∀ {ps acc : List CStr} {fuel : Nat},
    readParams fuel (restOfParams longlast ps) acc = .ok (acc ++ ps, longlast) →
    ∀ p ∈ (if longlast then ps.dropLast else ps), Middle p
  | [], _, _, _ => by cases longlast <;> simp
  | [p], acc, fuel, h => by
    cases longlast with
    | true => simp
    | false =>
      have := (head_of_readParams h nofun (.inl rfl)).1
      simpa using this
  | p :: q :: ps, acc, fuel, h => by
    have hhead : (p ++ renderParams longlast (q :: ps)).head? = p.head? ∨ p = [] := by
      cases p with
      | nil => exact .inr rfl
      | cons b p => exact .inl rfl
    obtain ⟨hp, fuel', rest, htok, hread⟩ := head_of_readParams h (by simp) hhead
    rw [← restText_restOfParams, nextToken_append hp.2.1 hp.1] at htok
    cases htok
    have hrest : readParams fuel' (restOfParams longlast (q :: ps)) (acc ++ [p]) =
        .ok (acc ++ [p] ++ q :: ps, longlast) := by simpa using hread
    have ih := middle_of_readParams hrest
    intro r hr
    have hr : r = p ∨ r ∈ (if longlast then (q :: ps).dropLast else q :: ps) := by
      cases longlast with
      | true => simpa [List.dropLast_cons_cons] using hr
      | false => simpa using hr
    rcases hr with rfl | hr
    · exact hp
    · exact ih r hr

/-- What every reply is made of: a reply code, no more than fifteen parameters, and C strings. -/
structure Message.Built (m : Message) : Prop where
  cmd : Middle m.cmd ∧ OneLine m.cmd
  upper : ∀ b ∈ m.cmd, toupper b = b
  nparams : m.params.length ≤ 15
  longlast : m.longlast = true → m.params ≠ []
  nul : (∀ p, m.pfx = some p → NUL ∉ p) ∧ NUL ∉ m.cmd ∧ ∀ p ∈ m.params, NUL ∉ p

/-- The text of a message without its CRLF. -/
def text (m : Message) : CStr := renderPrefix m.pfx ++ m.cmd ++ renderParams m.longlast m.params

theorem render_eq (m : Message) : render m = text m ++ [CR, LF] := rfl

/-- The parameters that are not written behind a `:`. -/
def Message.middles (m : Message) : List CStr :=
  if m.longlast then m.params.dropLast else m.params

theorem middle_of_readCommand {m : Message}
    (h : readCommand fuel pfx m.cmd (restOfParams m.longlast m.params) = .ok (some m.fields)) :
    ∀ p ∈ m.middles, Middle p := by
  obtain ⟨⟨params, longlast⟩, hread, h⟩ := Except.bind_eq_ok.mp h
  simp only [Res.pure_eq, Except.ok.injEq, Option.some.injEq, Message.fields, Fields.mk.injEq] at h
  obtain ⟨-, -, rfl, rfl⟩ := h
  rw [← List.nil_append m.params] at hread
  exact middle_of_readParams hread

theorem Message.Built.nextToken_cmd {m : Message} (H : m.Built) :
    nextToken (m.cmd ++ renderParams m.longlast m.params) =
      some (m.cmd, restOfParams m.longlast m.params) := by
  rw [← restText_restOfParams]
  exact nextToken_append H.cmd.1.2.1 H.cmd.1.1

/-- A prefix that is read back has no space, and is followed by the command. -/
theorem Message.Built.pfx_of_readLine {m : Message} (H : m.Built) (hpfx : m.pfx = some p)
    (h : readLine fuel (text m) = .ok (some m.fields)) :
    SP ∉ p ∧ readCommand fuel m.pfx m.cmd (restOfParams m.longlast m.params) =
      .ok (some m.fields) := by
  obtain ⟨tok, rest, htok, rfl⟩ := exists_token p
  obtain ⟨u, hu⟩ : ∃ u, restText rest ++ SP :: (m.cmd ++ renderParams m.longlast m.params) =
      restText (some u) := by
    cases rest with
    | none => exact ⟨_, rfl⟩
    | some s => exact ⟨_, rfl⟩
  have htext : text m = COLON :: tok ++ restText (some u) := by
    simp [text, hpfx, renderPrefix, ← hu]
  have hcolon : SP ∉ COLON :: tok := by simpa using ⟨by decide, htok⟩
  rw [readLine, htext, nextToken_append hcolon (by simp)] at h
  simp only [List.head?_cons, if_true] at h
  split at h
  · cases h
  · next cmd rest' hcmd =>
    -- the prefix is read up to its first space
    have hpfx' : some tok = m.pfx := by
      obtain ⟨_, -, h⟩ := Except.bind_eq_ok.mp h
      exact congrArg Fields.pfx (Option.some.inj (Except.ok.inj h))
    cases rest with
    | some s =>
      rw [hpfx, Option.some.injEq] at hpfx'
      simp [restText] at hpfx'
    | none =>
      obtain rfl : m.cmd ++ renderParams m.longlast m.params = u := (List.cons.inj hu).2
      cases H.nextToken_cmd.symm.trans hcmd
      exact ⟨by simpa [restText] using htok, hpfx' ▸ h⟩

theorem readLine_text_iff {m : Message} (H : m.Built) :
    readLine ((text m).length + 2) (text m) = .ok (some m.fields) ↔
      (∀ p, m.pfx = some p → SP ∉ p) ∧ ∀ p ∈ m.middles, Middle p := by
  constructor
  · intro h
    cases hpfx : m.pfx with
    | none =>
      rw [readLine, text, hpfx, renderPrefix, List.nil_append, H.nextToken_cmd] at h
      simp only [H.cmd.1.2.2, if_false] at h
      exact ⟨fun _ h => (by cases h), middle_of_readCommand h⟩
    | some p =>
      obtain ⟨hsp, h⟩ := H.pfx_of_readLine hpfx h
      refine ⟨?_, middle_of_readCommand h⟩
      rintro _ ⟨⟩
      exact hsp
  · rintro ⟨hsp, hmiddle⟩
    have hwf : m.WellFormed := ⟨hsp, H.cmd.1.1, H.cmd.1.2.1, H.upper, fun _ => H.cmd.1.2.2,
      H.nparams, hmiddle, H.longlast, H.nul⟩
    refine hwf.readLine_eq ?_
    have := length_le_renderParams m.longlast m.params
    simp [text]
    omega

theorem Message.Built.nul_text {m : Message} (H : m.Built) : NUL ∉ text m := by
  obtain ⟨hpfx, hcmd, hparams⟩ := H.nul
  have h : NUL ∉ renderPrefix m.pfx := by
    cases hp : m.pfx with
    | none => simp [renderPrefix]
    | some p => simpa [renderPrefix] using ⟨by decide, hpfx p hp, by decide⟩
  simpa [text] using ⟨h, hcmd, nul_renderParams _ hparams⟩

theorem oneLine_renderParams (longlast : Bool) {ps : List CStr} (h : ∀ p ∈ ps, OneLine p) :
    OneLine (renderParams longlast ps) := by
  induction ps with
  | nil => exact oneLine_nil
  | cons p ps ih =>
    have hp : OneLine p := h p List.mem_cons_self
    cases ps with
    | nil =>
      rw [renderParams, oneLine_cons_of_ne (by decide)]
      split
      · exact (oneLine_cons_of_ne (by decide)).mpr hp
      · exact hp
    | cons q ps =>
      have ih := ih fun r hr => h r (List.mem_cons_of_mem p hr)
      rw [renderParams, List.cons_append, oneLine_cons_of_ne (by decide)]
      obtain ⟨t, ht⟩ : ∃ t, renderParams longlast (q :: ps) = SP :: t := by
        cases ps <;> exact ⟨_, rfl⟩
      rw [ht] at ih ⊢
      exact (oneLine_append_cons (by decide) (by decide)).mpr
        ⟨hp, (oneLine_cons_of_ne (by decide)).mp ih⟩

theorem Message.Built.oneLine_text {m : Message} (H : m.Built)
    (hpfx : ∀ p, m.pfx = some p → OneLine p) (hparams : ∀ p ∈ m.params, OneLine p) :
    OneLine (text m) := by
  have hrest : OneLine (m.cmd ++ renderParams m.longlast m.params) := by
    have hr := oneLine_renderParams m.longlast hparams
    cases hps : m.params with
    | nil => simpa [renderParams] using H.cmd.2
    | cons q ps =>
      obtain ⟨t, ht⟩ : ∃ t, renderParams m.longlast (q :: ps) = SP :: t := by
        cases ps <;> exact ⟨_, rfl⟩
      rw [hps, ht, oneLine_cons_of_ne (by decide)] at hr
      rw [ht]
      exact (oneLine_append_cons (by decide) (by decide)).mpr ⟨H.cmd.2, hr⟩
  rw [text, List.append_assoc]
  cases hp : m.pfx with
  | none => exact hrest
  | some p =>
    rw [renderPrefix, List.cons_append, List.cons_append, oneLine_cons_of_ne (by decide),
      List.append_assoc]
    exact (oneLine_append_cons (by decide) (by decide)).mpr ⟨hpfx p hp, hrest⟩

/-- The line that is written for the message ends with its only CRLF, and the parser reads the
message back from it. -/
structure Message.Legible (m : Message) : Prop where
  crlf : Terminated CR LF (wire (render m))
  parse : ∃ m', chircMessageFromString (wire (render m)) = .ok (some m') ∧ m'.fields = m.fields

/-- As `Legible`, for a line of any length. -/
structure Message.Readable (m : Message) : Prop where
  crlf : Terminated CR LF (wire (render m))
  parse : ∃ m', parseLine (wire (render m)).length (wire (render m)) = .ok (some m') ∧
    m'.fields = m.fields

theorem Message.legible_iff {m : Message} (hlen : (render m).length < 1024) :
    m.Legible ↔ m.Readable := by
  have hle : (wire (render m)).length ≤ (render m).length :=
    (wire_spec ⟨text m, [], by rw [render_eq, List.append_nil]⟩).2.length_le
  have hparse := chircMessageFromString_of_lt
    (Nat.lt_trans (Nat.lt_of_le_of_lt hle hlen) (by decide : 1024 < UInt32.size))
  constructor
  · intro h
    exact ⟨h.crlf, hparse ▸ h.parse⟩
  · intro h
    exact ⟨h.crlf, hparse ▸ h.parse⟩

/-- **A message is readable** exactly if its prefix has no space, its middle parameters are words
that do not begin with a `:`, and no string of it has a CRLF. -/
theorem readable_iff {m : Message} (H : m.Built) : m.Readable ↔
    (∀ p, m.pfx = some p → SP ∉ p ∧ OneLine p) ∧ (∀ p ∈ m.middles, Middle p) ∧
      ∀ p ∈ m.params, OneLine p := by
  obtain ⟨body, hwire, hone, hpre, hall⟩ := wire_crlf (text m)
  have hnul : NUL ∉ body := fun hmem => H.nul_text (hpre.subset hmem)
  rw [← render_eq] at hwire
  have hlen : (wire (render m)).length = body.length + 2 := by
    rw [hwire, List.length_append]
    rfl
  have hparse : (parseLine (wire (render m)).length (wire (render m))).map
      (·.map Message.fields) = readLine (body.length + 2) body := by
    have hmatches := parseLine_crlf hnul (Nat.le_refl body.length)
    rw [List.take_length] at hmatches
    rw [hlen, hwire]
    exact hmatches
  constructor
  · rintro ⟨-, m', hm', hfields⟩
    have hread : readLine (body.length + 2) body = .ok (some m.fields) := by
      rw [← hparse, hm', ← hfields]
      rfl
    have hin := readLine_inText hread
    have hpfx p (hp : m.pfx = some p) : OneLine p := hone.of_part (hin.pfx p hp)
    have hparams p (hp : p ∈ m.params) : OneLine p := hone.of_part (hin.params p hp)
    obtain rfl := hall (H.oneLine_text hpfx hparams)
    obtain ⟨hsp, hmid⟩ := (readLine_text_iff H).mp hread
    exact ⟨fun p hp => ⟨hsp p hp, hpfx p hp⟩, hmid, hparams⟩
  · rintro ⟨hpfx, hmid, hparams⟩
    obtain rfl := hall (H.oneLine_text (fun p hp => (hpfx p hp).2) hparams)
    have hread := (readLine_text_iff H).mpr ⟨fun p hp => (hpfx p hp).1, hmid⟩
    rw [hread] at hparse
    obtain ⟨r, hr, hfields⟩ := Res.map_eq_ok.mp hparse
    obtain ⟨m', rfl, hm'⟩ := Option.map_eq_some_iff.mp hfields
    exact ⟨hwire ▸ terminated_crlf.mpr hone, m', hr, hm'⟩

end Chirc
