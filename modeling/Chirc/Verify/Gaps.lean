import Chirc.Verify.Pieces
import Chirc.Verify.RoundTrip

/-! # Runs of spaces

A line with its parts apart from the runs of spaces between them (`Parts`, `Gaps`). The tokenizer
skips whole runs, so that their lengths do not matter, but for the run before the `:` of a long
parameter: the lookahead sees that `:` only behind a single space. -/

namespace Chirc

/-- The parts of a line: a prefix, a command, middle parameters, and the text of a long one. There
may be spaces before them, and behind them where no long parameter takes those. -/
structure Parts where
  lead : Nat
  pfx : Option CStr
  cmd : CStr
  middle : List CStr
  long : Option CStr
  trail : Nat
  pfx_space : ∀ p, pfx = some p → SP ∉ p
  cmd_token : cmd ≠ [] ∧ SP ∉ cmd
  cmd_colon : pfx = none → cmd.head? ≠ some COLON
  middle_token : ∀ p ∈ middle, Middle p
  nul : (∀ p, pfx = some p → NUL ∉ p) ∧ NUL ∉ cmd ∧ (∀ p ∈ middle, NUL ∉ p) ∧
    ∀ p, long = some p → NUL ∉ p

/-- How many spaces there are, beyond one, before the command, before each middle parameter, and
before the `:` of the long parameter. -/
structure Gaps where
  cmd : Nat
  middle : Nat → Nat
  long : Nat

/-- A run of spaces. -/
def gap (n : Nat) : CStr := List.replicate (n + 1) SP

def middleText (gaps : Nat → Nat) : List CStr → CStr
  | [] => []
  | p :: ps => gap (gaps 0) ++ p ++ middleText (fun i => gaps (i + 1)) ps

/-- The long parameter, or else the spaces at the end. -/
def longText (n trail : Nat) : Option CStr → CStr
  | none => List.replicate trail SP
  | some p => gap n ++ COLON :: p

/-- What comes before the command. -/
def prefixText (n : Nat) : Option CStr → CStr
  | none => []
  | some p => COLON :: p ++ gap n

/-- The line with these parts and runs of spaces. -/
def Parts.line (s : Parts) (g : Gaps) : CStr :=
  List.replicate s.lead SP ++ prefixText g.cmd s.pfx ++ s.cmd ++ middleText g.middle s.middle ++
    longText g.long s.trail s.long

/-! ## Pieces -/

/-- `toks` are the pieces behind a token that `t` follows. -/
def Follows (t : CStr) (toks : List CStr) : Prop :=
  ∀ tok, SP ∉ tok → (tok ++ t).splitOn SP = tok :: toks

theorem Follows.gap (n : Nat) (s : CStr) :
    Follows (gap n ++ s) (List.replicate n [] ++ s.splitOn SP) := by
  intro tok htok
  rw [Chirc.gap, List.replicate_succ, List.cons_append,
    List.splitOn_append_cons_self_of_not_mem htok, splitOn_replicate_append]

theorem Follows.token (n : Nat) (hp : SP ∉ p) (h : Follows t toks) :
    Follows (Chirc.gap n ++ p ++ t) (List.replicate n [] ++ p :: toks) := by
  rw [List.append_assoc, ← h p hp]
  exact .gap n (p ++ t)

def middlePieces (gaps : Nat → Nat) (toks : List CStr) : List CStr → List CStr
  | [] => toks
  | p :: ps => List.replicate (gaps 0) [] ++ p :: middlePieces (fun i => gaps (i + 1)) toks ps

theorem Follows.middle (gaps : Nat → Nat) (hps : ∀ p ∈ ps, Middle p) (h : Follows t toks) :
    Follows (middleText gaps ps ++ t) (middlePieces gaps toks ps) := by
  induction ps generalizing gaps with
  | nil => exact h
  | cons p ps ih =>
    rw [List.forall_mem_cons] at hps
    rw [middleText, List.append_assoc]
    exact (ih _ hps.2).token _ hps.1.2.1

theorem paramsIn_gap (n : Nat) (hp : Middle p) : paramsIn true (List.replicate n [] ++ p :: toks) =
    (p :: (paramsIn true toks).1, (paramsIn true toks).2) := by
  cases n with
  | zero => exact paramsIn_token hp.1 fun _ => hp.2.2
  | succ n =>
    rw [paramsIn_replicate]
    exact paramsIn_false_token hp.1 _

/-- The middle parameters are read whatever the runs of spaces are. -/
theorem paramsIn_middle (gaps : Nat → Nat) (hps : ∀ p ∈ ps, Middle p) :
    paramsIn true (middlePieces gaps toks ps) =
      (ps ++ (paramsIn true toks).1, (paramsIn true toks).2) := by
  induction ps generalizing gaps with
  | nil => rfl
  | cons p ps ih =>
    rw [List.forall_mem_cons] at hps
    rw [middlePieces, paramsIn_gap _ hps.1, ih _ hps.2]
    rfl

/-- The parameters that a text is cut into when the lookahead does not see the `:` before it. -/
def cut (text : CStr) : List CStr × Bool := paramsIn false ((COLON :: text).splitOn SP)

/-- The parameters that are read of the long one. -/
def longIn (n : Nat) : Option CStr → List CStr × Bool
  | none => ([], false)
  | some p => if n = 0 then ([p], true) else cut p

def longPieces (n trail : Nat) : Option CStr → List CStr
  | none => List.replicate trail []
  | some p => List.replicate n [] ++ (COLON :: p).splitOn SP

theorem Follows.spaces (trail : Nat) :
    Follows (List.replicate trail SP) (List.replicate trail []) := by
  intro tok htok
  cases trail with
  | zero =>
    rw [List.replicate_zero, List.append_nil, List.splitOn_eq_singleton htok]
    rfl
  | succ trail =>
    have hgap := Follows.gap trail [] tok htok
    have hpieces : List.replicate (trail + 1) ([] : CStr) = List.replicate trail [] ++ [[]] :=
      List.replicate_succ'
    rw [List.append_nil] at hgap
    rw [hpieces]
    exact hgap

theorem Follows.long (n trail : Nat) (long : Option CStr) :
    Follows (longText n trail long) (longPieces n trail long) := by
  cases long with
  | none => exact .spaces trail
  | some p => exact .gap n (COLON :: p)

theorem paramsIn_longPieces (n trail : Nat) (long : Option CStr) :
    paramsIn true (longPieces n trail long) = longIn n long := by
  cases long with
  | none =>
    cases trail with
    | zero => rfl
    | succ trail =>
      rw [longPieces, ← List.append_nil (List.replicate _ _), paramsIn_replicate]
      rfl
  | some p =>
    cases n with
    | zero => exact paramsIn_long rfl
    | succ n =>
      rw [longPieces, paramsIn_replicate, longIn, if_neg (Nat.succ_ne_zero n), cut]

theorem nul_gap (n : Nat) : NUL ∉ gap n := by
  intro h
  exact absurd (List.eq_of_mem_replicate h) (by decide)

theorem nul_middleText (gaps : Nat → Nat) (hps : ∀ p ∈ ps, NUL ∉ p) :
    NUL ∉ middleText gaps ps := by
  induction ps generalizing gaps with
  | nil => exact List.not_mem_nil
  | cons p ps ih =>
    rw [List.forall_mem_cons] at hps
    simp only [middleText, List.mem_append, not_or]
    exact ⟨⟨nul_gap _, hps.1⟩, ih _ hps.2⟩

namespace Parts
variable (s : Parts) (g : Gaps)

/-- The parameters that the parser reads. -/
def params : List CStr × Bool :=
  (s.middle ++ (longIn g.long s.long).1, (longIn g.long s.long).2)

/-- The message that the parser reads. -/
def message : Fields := ⟨s.pfx, s.cmd.map toupper, (s.params g).1, (s.params g).2⟩

theorem space_prefix (hpfx : s.pfx = some p) : SP ∉ COLON :: p := by
  rw [List.mem_cons, not_or]
  exact ⟨by decide, s.pfx_space p hpfx⟩

theorem lineIn_eq : lineIn ((s.line g).splitOn SP) = some (s.message g) := by
  have hfollows : Follows (middleText g.middle s.middle ++ longText g.long s.trail s.long)
      (middlePieces g.middle (longPieces g.long s.trail s.long) s.middle) :=
    (Follows.long g.long s.trail s.long).middle g.middle s.middle_token
  have hparams := @paramsIn_middle s.middle (longPieces g.long s.trail s.long) g.middle
    s.middle_token
  rw [paramsIn_longPieces] at hparams
  have hcmd := hfollows s.cmd s.cmd_token.2
  cases hpfx : s.pfx with
  | none =>
    have hline : s.line g = List.replicate s.lead SP ++
        (s.cmd ++ (middleText g.middle s.middle ++ longText g.long s.trail s.long)) := by
      rw [line, hpfx, prefixText, List.append_nil, List.append_assoc, List.append_assoc]
    rw [hline, splitOn_replicate_append, hcmd, lineIn, dropWhile_replicate_append,
      dropWhile_token s.cmd_token.1]
    dsimp only
    rw [if_neg (s.cmd_colon hpfx), messageIn, hparams, message, hpfx, params]
  | some p =>
    have hline : s.line g = List.replicate s.lead SP ++ (COLON :: p ++ (gap g.cmd ++ s.cmd ++
        (middleText g.middle s.middle ++ longText g.long s.trail s.long))) := by
      rw [line, hpfx, prefixText]
      simp only [List.append_assoc]
    have hp := s.space_prefix hpfx
    rw [hline, splitOn_replicate_append, hfollows.token g.cmd s.cmd_token.2 _ hp, lineIn,
      dropWhile_replicate_append, dropWhile_token (List.cons_ne_nil _ _)]
    dsimp only
    rw [if_pos List.head?_cons, dropWhile_replicate_append, dropWhile_token s.cmd_token.1]
    dsimp only
    rw [messageIn, hparams, message, hpfx, params]
    rfl

theorem nul_line : NUL ∉ s.line g := by
  obtain ⟨hpfx, hcmd, hmiddle, hlong⟩ := s.nul
  have hspaces (n : Nat) : NUL ∉ List.replicate n SP := by
    intro h
    exact absurd (List.eq_of_mem_replicate h) (by decide)
  have hprefix : NUL ∉ prefixText g.cmd s.pfx := by
    cases hp : s.pfx with
    | none => exact List.not_mem_nil
    | some p =>
      simp only [prefixText, List.cons_append, List.mem_cons, List.mem_append, not_or]
      exact ⟨by decide, hpfx p hp, nul_gap _⟩
  have hlong : NUL ∉ longText g.long s.trail s.long := by
    cases hp : s.long with
    | none => exact hspaces _
    | some p =>
      simp only [longText, List.mem_cons, List.mem_append, not_or]
      exact ⟨nul_gap _, by decide, hlong p hp⟩
  simp only [line, List.mem_append, not_or]
  exact ⟨⟨⟨⟨hspaces _, hprefix⟩, hcmd⟩, nul_middleText g.middle hmiddle⟩, hlong⟩

/-- The length of the line with its CRLF is an `unsigned int`. -/
def Short : Prop := (s.line g).length + 2 < UInt32.size

/-- **What the parser reads** of a line. -/
theorem chircMessageFromString_line (hshort : s.Short g) :
    Matches (chircMessageFromString (s.line g ++ [CR, LF])) (capped (some (s.message g))) := by
  rw [← s.lineIn_eq g]
  exact chircMessageFromString_pieces (s.nul_line g) hshort

/-- The parser returns the same message for the line with either runs of spaces. -/
def SameMessage (g g' : Gaps) : Prop :=
  ∃ f, Matches (chircMessageFromString (s.line g ++ [CR, LF])) (.ok (some f)) ∧
    Matches (chircMessageFromString (s.line g' ++ [CR, LF])) (.ok (some f))

/-- The line has no more than fifteen parameters. -/
def Fits : Prop := s.middle.length + s.long.toList.length ≤ 15

end Parts

/-- A text that is cut is not left whole. -/
theorem cut_ne (text : CStr) : cut text ≠ ([text], true) := by
  intro h
  obtain ⟨tok, rest, htok, hne, htext⟩ :=
    exists_colon_token (List.head?_cons : (COLON :: text).head? = some COLON)
  have hcut : cut text =
      (tok :: (paramsIn true (pieces rest)).1, (paramsIn true (pieces rest)).2) := by
    rw [cut, htext, splitOn_append_restText htok, paramsIn_false_token hne]
  -- the first parameter has no space, so that nothing would be cut off
  have htoken : tok = text := by
    rw [hcut] at h
    exact (List.cons.inj (Prod.mk.inj h).1).1
  have hspace : SP ∉ COLON :: text := by
    rw [List.mem_cons, not_or]
    exact ⟨by decide, htoken ▸ htok⟩
  rw [cut, List.splitOn_eq_singleton hspace, paramsIn_false_token (List.cons_ne_nil _ _)] at h
  cases (Prod.mk.inj h).2

namespace Parts
variable (s : Parts) (g g' : Gaps)

theorem matches_iff (hshort : s.Short g) :
    Matches (chircMessageFromString (s.line g ++ [CR, LF])) (.ok (some f)) ↔
      (s.params g).1.length ≤ 15 ∧ s.message g = f := by
  have hparse : (chircMessageFromString (s.line g ++ [CR, LF])).map (·.map Message.fields) =
      capped (some (s.message g)) := s.chircMessageFromString_line g hshort
  rw [Matches, hparse, capped_eq_ok, Option.some.injEq, and_comm]
  constructor
  · intro h
    obtain ⟨hle, rfl⟩ := h
    exact ⟨hle, rfl⟩
  · intro h
    obtain ⟨hle, rfl⟩ := h
    exact ⟨hle, rfl⟩

theorem sameMessage_iff_params (hshort : s.Short g) (hshort' : s.Short g') :
    s.SameMessage g g' ↔ (s.params g).1.length ≤ 15 ∧ s.params g' = s.params g := by
  constructor
  · intro h
    obtain ⟨f, hf, hf'⟩ := h
    obtain ⟨hle, hmessage⟩ := (s.matches_iff g hshort).mp hf
    obtain ⟨-, hmessage'⟩ := (s.matches_iff g' hshort').mp hf'
    have heq := hmessage'.trans hmessage.symm
    exact ⟨hle, Prod.ext (congrArg Fields.params heq) (congrArg Fields.longlast heq)⟩
  · intro h
    obtain ⟨hle, heq⟩ := h
    refine ⟨s.message g, (s.matches_iff g hshort).mpr ⟨hle, rfl⟩,
      (s.matches_iff g' hshort').mpr ⟨heq ▸ hle, ?_⟩⟩
    rw [message, heq, message]

/-- The parameters of a line with a long one, which stands behind a single space or more. -/
theorem params_long {text : CStr} (hlong : s.long = some text) : s.params g =
    if g.long = 0 then (s.middle ++ [text], true)
    else (s.middle ++ (cut text).1, (cut text).2) := by
  rw [params, hlong, longIn]
  split
  · rfl
  · rfl

theorem params_ne (text : CStr) :
    (s.middle ++ (cut text).1, (cut text).2) ≠ (s.middle ++ [text], true) := by
  intro h
  obtain ⟨hparams, hlong⟩ := Prod.mk.inj h
  exact cut_ne text (Prod.ext (List.append_cancel_left hparams) hlong)

/-- There is no long parameter, or its `:` is behind a single space in both lines, or behind more in
both and there is room for what its text is cut into. -/
def SameSeparator : Prop := s.long = none ∨
  ∃ text, s.long = some text ∧ (g.long = 0 ∧ g'.long = 0 ∨
    0 < g.long ∧ 0 < g'.long ∧ s.middle.length + (cut text).1.length ≤ 15)

theorem sameMessage_short_iff (hfits : s.Fits) (hshort : s.Short g) (hshort' : s.Short g') :
    s.SameMessage g g' ↔ s.SameSeparator g g' := by
  rw [s.sameMessage_iff_params g g' hshort hshort', SameSeparator]
  rw [Fits] at hfits
  cases hlong : s.long with
  | none =>
    rw [hlong] at hfits
    simpa [params, hlong, longIn] using hfits
  | some text =>
    rw [hlong] at hfits
    have hroom : (s.middle ++ [text]).length ≤ 15 := by simpa using hfits
    rw [s.params_long g hlong, s.params_long g' hlong]
    by_cases hg : g.long = 0
    · by_cases hg' : g'.long = 0
      · rw [if_pos hg, if_pos hg']
        exact iff_of_true ⟨hroom, rfl⟩ (.inr ⟨text, rfl, .inl ⟨hg, hg'⟩⟩)
      · rw [if_pos hg, if_neg hg']
        refine iff_of_false (fun h => s.params_ne text h.2) ?_
        simp [hg, hg']
    · by_cases hg' : g'.long = 0
      · rw [if_neg hg, if_pos hg']
        refine iff_of_false (fun h => s.params_ne text h.2.symm) ?_
        simp [hg, hg']
      · rw [if_neg hg, if_neg hg']
        simp [hg, hg', Nat.pos_of_ne_zero]

/-- What is left of a line when its length is stored in an `unsigned int` is read as the message,
which there is room for. -/
def ReadsLeft (line : CStr) (f : Fields) : Prop :=
  2 ≤ (line.length + 2) % UInt32.size ∧
    lineIn ((line.take ((line.length + 2) % UInt32.size - 2)).splitOn SP) = some f ∧
    f.params.length ≤ 15

theorem matches_left_iff {line : CStr} (hnul : NUL ∉ line) :
    Matches (chircMessageFromString (line ++ [CR, LF])) (.ok (some f)) ↔ ReadsLeft line f := by
  by_cases hlen : 2 ≤ (line.length + 2) % UInt32.size
  · obtain ⟨n, hn⟩ := Nat.exists_eq_add_of_le' hlen
    have hparse := chircMessageFromString_take hnul hn
    have hlt : (line.take n).length < n + 2 := by
      rw [List.length_take]
      omega
    rw [readLine_pieces hlt] at hparse
    rw [Matches, hparse, capped_eq_ok, ReadsLeft, hn, Nat.add_sub_cancel]
    exact (and_iff_right (Nat.le_add_left 2 n)).symm
  · rw [Matches, chircMessageFromString_overread (by simpa using Nat.lt_of_not_le hlen)]
    refine iff_of_false (fun h => ?_) fun h => hlen h.1
    cases h

/-- **The lengths of the runs of spaces do not matter** exactly if the lengths of both lines are
`unsigned int`s and the `:` of a long parameter is separated in the same way, or if one is longer
and the same message is read in what is left of the lines. -/
theorem sameMessage_iff (hfits : s.Fits) : s.SameMessage g g' ↔
    (s.Short g ∧ s.Short g' ∧ s.SameSeparator g g') ∨
      (¬ (s.Short g ∧ s.Short g') ∧ ∃ f, ReadsLeft (s.line g) f ∧ ReadsLeft (s.line g') f) := by
  by_cases hshort : s.Short g ∧ s.Short g'
  · rw [s.sameMessage_short_iff g g' hfits hshort.1 hshort.2]
    simp [hshort]
  · have hleft : s.SameMessage g g' ↔
        ∃ f, ReadsLeft (s.line g) f ∧ ReadsLeft (s.line g') f := by
      simp only [SameMessage, matches_left_iff (s.nul_line g), matches_left_iff (s.nul_line g')]
    rw [hleft]
    constructor
    · intro h
      exact .inr ⟨hshort, h⟩
    · rintro (⟨hg, hg', -⟩ | ⟨-, h⟩)
      · exact absurd ⟨hg, hg'⟩ hshort
      · exact h

end Parts

/-- A message with a long parameter. -/
def privmsgHi : Parts where
  lead := 0
  pfx := none
  cmd := lit "PRIVMSG"
  middle := [lit "a"]
  long := some (lit "hi")
  trail := 0
  pfx_space := by nofun
  cmd_token := by decide
  cmd_colon := by decide
  middle_token := List.forall_mem_singleton.mpr ⟨by decide, by decide, by decide⟩
  nul := ⟨by nofun, by decide, by decide, by simpa using (by decide : NUL ∉ lit "hi")⟩

/-- The same spaces before the `:`, and others before the first parameter. -/
theorem sameMessage_privmsgHi : privmsgHi.line ⟨0, fun _ => 0, 0⟩ = lit "PRIVMSG a :hi" ∧
    privmsgHi.line ⟨0, fun _ => 2, 0⟩ = lit "PRIVMSG   a :hi" ∧
    privmsgHi.SameMessage ⟨0, fun _ => 0, 0⟩ ⟨0, fun _ => 2, 0⟩ := by
  have hfits : privmsgHi.Fits := Nat.le_of_ble_eq_true rfl
  exact ⟨by decide, by decide, (privmsgHi.sameMessage_iff _ _ hfits).mpr
    (.inl ⟨Nat.le_of_ble_eq_true rfl, Nat.le_of_ble_eq_true rfl,
      .inr ⟨lit "hi", rfl, .inl ⟨rfl, rfl⟩⟩⟩)⟩

theorem not_sameMessage_privmsgHi : privmsgHi.Fits ∧
    privmsgHi.line ⟨0, fun _ => 0, 0⟩ = lit "PRIVMSG a :hi" ∧
    privmsgHi.line ⟨0, fun _ => 0, 1⟩ = lit "PRIVMSG a  :hi" ∧
    (privmsgHi.params ⟨0, fun _ => 0, 0⟩) = ([lit "a", lit "hi"], true) ∧
    (privmsgHi.params ⟨0, fun _ => 0, 1⟩) = ([lit "a", lit ":hi"], false) ∧
    ¬ privmsgHi.SameMessage ⟨0, fun _ => 0, 0⟩ ⟨0, fun _ => 0, 1⟩ := by
  have hparams : privmsgHi.params ⟨0, fun _ => 0, 0⟩ = ([lit "a", lit "hi"], true) := by decide
  have hparams' : privmsgHi.params ⟨0, fun _ => 0, 1⟩ = ([lit "a", lit ":hi"], false) := by
    decide +kernel
  refine ⟨Nat.le_of_ble_eq_true rfl, by decide, by decide, hparams, hparams', ?_⟩
  intro h
  have heq := (privmsgHi.sameMessage_iff_params _ _ (Nat.le_of_ble_eq_true rfl)
    (Nat.le_of_ble_eq_true rfl)).mp h |>.2
  rw [hparams, hparams'] at heq
  cases heq

end Chirc
