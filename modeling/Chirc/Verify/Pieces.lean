import Chirc.Verify.RoundTrip
import Chirc.Verify.Trim

/-! # What the parser reads

The pieces of a line are what is between its spaces. The tokenizer takes the pieces that are not
empty, and the lookahead sees the piece right after a token: if it begins with a `:`, the rest of
the line is the last parameter. `lineIn` is what the parser reads in a line when its arrays have
room for all parameters; there is room for fifteen, and the parser does not count.

Where the words of a line have one space between them, no parameter that the tokenizer cuts off can
begin with a `:`, and there are as many parameters as words up to the first one that begins with a
`:`. What is read is then the message that the grammar sees (`grammar`). -/

namespace Chirc

/-! ## Pieces -/

/-- The pieces of what follows a token. -/
def pieces : Rest → List CStr
  | none => []
  | some s => s.splitOn SP

theorem splitOn_append_restText (htok : SP ∉ tok) (rest : Rest) :
    (tok ++ restText rest).splitOn SP = tok :: pieces rest := by
  cases rest with
  | none => simp [restText, pieces, List.splitOn_eq_singleton htok]
  | some s => exact List.splitOn_append_cons_self_of_not_mem htok s

theorem splitOn_replicate_append (k : Nat) (s : CStr) :
    (List.replicate k SP ++ s).splitOn SP = List.replicate k [] ++ s.splitOn SP := by
  induction k with
  | zero => rfl
  | succ k ih =>
    rw [List.replicate_succ, List.replicate_succ, List.cons_append, List.cons_append, ← ih]
    exact List.splitOn_append_cons_self_of_not_mem List.not_mem_nil _

/-- The parameters in the pieces after a token, and whether the last one is long. After an empty
piece the lookahead does not come into play again before the next token. -/
def paramsIn : Bool → List CStr → List CStr × Bool
  | _, [] => ([], false)
  | look, tok :: toks =>
    if look ∧ tok.head? = some COLON then ([(unwords (tok :: toks)).tail], true)
    else if tok = [] then paramsIn false toks
    else (tok :: (paramsIn true toks).1, (paramsIn true toks).2)

theorem paramsIn_replicate (look : Bool) (k : Nat) (toks : List CStr) :
    paramsIn look (List.replicate (k + 1) [] ++ toks) = paramsIn false toks := by
  induction k generalizing look with
  | zero => simp [paramsIn]
  | succ k ih =>
    rw [List.replicate_succ, List.cons_append, paramsIn, ih false]
    simp

theorem paramsIn_token (hne : tok ≠ []) (hcolon : look = true → tok.head? ≠ some COLON) :
    paramsIn look (tok :: toks) = (tok :: (paramsIn true toks).1, (paramsIn true toks).2) := by
  rw [paramsIn, if_neg (fun h => hcolon h.1 h.2), if_neg hne]

theorem paramsIn_false_token (hne : tok ≠ []) (toks : List CStr) :
    paramsIn false (tok :: toks) = (tok :: (paramsIn true toks).1, (paramsIn true toks).2) :=
  paramsIn_token hne Bool.noConfusion

theorem paramsIn_colon (hcolon : tok.head? = some COLON) :
    paramsIn true (tok :: toks) = ([(unwords (tok :: toks)).tail], true) := by
  rw [paramsIn, if_pos ⟨rfl, hcolon⟩]

/-! ## Reading -/

theorem pieces_spaces (k : Nat) :
    pieces (some (List.replicate k SP)) = List.replicate (k + 1) [] ++ [] := by
  have hsplit := splitOn_replicate_append k []
  rw [List.append_nil] at hsplit
  rw [pieces, hsplit, List.append_nil, List.replicate_succ']
  rfl

theorem pieces_token (k : Nat) (htok : SP ∉ tok) (rest : Rest) :
    pieces (some (List.replicate k SP ++ tok ++ restText rest)) =
      List.replicate k [] ++ tok :: pieces rest := by
  rw [pieces, List.append_assoc, splitOn_replicate_append, splitOn_append_restText htok]

/-- The token that the tokenizer finds, unless the lookahead takes the rest of the line. -/
theorem paramsIn_pieces (k : Nat) (htok : SP ∉ tok) (hne : tok ≠ [])
    (hlook : (List.replicate k SP ++ tok ++ restText rest).head? ≠ some COLON) :
    paramsIn true (pieces (some (List.replicate k SP ++ tok ++ restText rest))) =
      (tok :: (paramsIn true (pieces rest)).1, (paramsIn true (pieces rest)).2) := by
  rw [pieces_token k htok]
  cases k with
  | zero =>
    rw [List.replicate_zero, List.nil_append, head?_append_restText hne] at hlook
    exact paramsIn_token hne fun _ => hlook
  | succ k =>
    rw [paramsIn_replicate]
    exact paramsIn_false_token hne _

/-- The token at the beginning of a text that begins with a `:`. -/
theorem exists_colon_token (hcolon : s.head? = some COLON) :
    ∃ tok rest, SP ∉ tok ∧ tok ≠ [] ∧ s = tok ++ restText rest := by
  obtain ⟨tok, rest, htok, rfl⟩ := exists_token s
  refine ⟨tok, rest, htok, ?_, rfl⟩
  intro hnil
  rw [hnil] at hcolon
  cases rest with
  | none => cases hcolon
  | some s => exact absurd (Option.some.inj hcolon) (by decide)

/-- The lookahead takes all of a text that begins with a `:`. -/
theorem paramsIn_long (hcolon : s.head? = some COLON) :
    paramsIn true (pieces (some s)) = ([s.tail], true) := by
  have hs : unwords (pieces (some s)) = s := List.intercalate_splitOn SP
  obtain ⟨tok, rest, htok, hne, rfl⟩ := exists_colon_token hcolon
  have hpieces : pieces (some (tok ++ restText rest)) = tok :: pieces rest :=
    splitOn_append_restText htok rest
  rw [head?_append_restText hne] at hcolon
  rw [hpieces] at hs ⊢
  rw [paramsIn_colon hcolon, hs]

/-- **The parser reads the parameters in the pieces**, if there is room for them. -/
theorem readParams_eq (hfuel : (restText rest).length < fuel) (hps : ps.length ≤ 15) :
    readParams fuel rest ps =
      if ps.length + (paramsIn true (pieces rest)).1.length ≤ 15 then
        .ok (ps ++ (paramsIn true (pieces rest)).1, (paramsIn true (pieces rest)).2)
      else .error .paramsOverflow := by
  induction fuel generalizing rest ps with
  | zero => cases hfuel
  | succ fuel ih =>
    rw [readParams_succ]
    cases rest with
    | none => simp [pieces, paramsIn, hps]
    | some s =>
      rw [Option.bind_some, Option.bind_some]
      rcases text_cases s with ⟨k, rfl⟩ | ⟨k, tok, rest, htok, hne, rfl⟩
      · have hspace : (List.replicate k SP).head? ≠ some COLON := by
          cases k with
          | zero => nofun
          | succ k => exact fun h => absurd (Option.some.inj h) (by decide)
        rw [if_neg hspace, nextToken_replicate, pieces_spaces, paramsIn_replicate]
        simp [paramsIn, hps]
      · by_cases hlook : (List.replicate k SP ++ tok ++ restText rest).head? = some COLON
        · -- the rest of the line is the last parameter
          rw [if_pos hlook, paramsIn_long hlook]
          by_cases hroom : ps.length < 15
          · rw [pushParam, if_pos hroom, Res.ok_bind]
            exact (if_pos hroom).symm
          · rw [pushParam, if_neg hroom, Res.error_bind]
            exact (if_neg hroom).symm
        · rw [restText, List.length_cons, List.length_append, List.length_append] at hfuel
          have hpos := List.length_pos_of_ne_nil hne
          have hlen : (restText rest).length < fuel := by omega
          rw [if_neg hlook, nextToken_eq htok hne, paramsIn_pieces k htok hne hlook]
          dsimp only
          by_cases hroom : ps.length < 15
          · have hps' : (ps ++ [tok]).length ≤ 15 := by
              rw [List.length_append]
              exact hroom
            have hcount (n : Nat) : (ps ++ [tok]).length + n = ps.length + (n + 1) := by
              rw [List.length_append, List.length_singleton]
              omega
            rw [pushParam, if_pos hroom, Res.ok_bind, ih hlen hps', hcount, List.append_assoc]
            rfl
          · rw [pushParam, if_neg hroom, Res.error_bind, List.length_cons, if_neg (by omega)]
/-! ## Lines -/

theorem dropWhile_replicate_append (k : Nat) (toks : List CStr) :
    (List.replicate k [] ++ toks).dropWhile (· = []) = toks.dropWhile (· = []) := by
  refine List.dropWhile_append_of_pos ?_
  intro tok htok
  exact decide_eq_true (List.eq_of_mem_replicate htok)

theorem dropWhile_token (hne : tok ≠ []) (toks : List CStr) :
    (tok :: toks).dropWhile (· = []) = tok :: toks :=
  List.dropWhile_cons_of_neg (by simpa using hne)

/-- What the tokenizer finds in a text, and what is left of the pieces. -/
theorem nextToken_pieces (s : CStr) :
    (nextToken s = none ∧ (s.splitOn SP).dropWhile (· = []) = []) ∨
      ∃ tok rest, nextToken s = some (tok, rest) ∧
        (s.splitOn SP).dropWhile (· = []) = tok :: pieces rest ∧
        (restText rest).length < s.length := by
  rcases text_cases s with ⟨k, rfl⟩ | ⟨k, tok, rest, htok, hne, rfl⟩
  · have hpieces : (List.replicate k SP).splitOn SP = _ := pieces_spaces k
    rw [hpieces, dropWhile_replicate_append]
    exact .inl ⟨nextToken_replicate, rfl⟩
  · have hpieces : (List.replicate k SP ++ tok ++ restText rest).splitOn SP = _ :=
      pieces_token k htok rest
    have hpos := List.length_pos_of_ne_nil hne
    rw [hpieces, dropWhile_replicate_append, dropWhile_token hne]
    refine .inr ⟨tok, rest, nextToken_eq htok hne, rfl, ?_⟩
    rw [List.length_append, List.length_append]
    omega

/-- The message with its parameters in the pieces after the command. -/
def messageIn (pfx : Option CStr) (cmd : CStr) (toks : List CStr) : Fields :=
  ⟨pfx, cmd.map toupper, (paramsIn true toks).1, (paramsIn true toks).2⟩

/-- The message in the pieces of a line. -/
def lineIn (toks : List CStr) : Option Fields :=
  match toks.dropWhile (· = []) with
  | [] => none
  | tok :: toks =>
    if tok.head? = some COLON then
      match toks.dropWhile (· = []) with
      | [] => none
      | cmd :: toks => some (messageIn (some tok.tail) cmd toks)
    else some (messageIn none tok toks)

/-- There is room for fifteen parameters. -/
def capped : Option Fields → Res (Option Fields)
  | none => .ok none
  | some f => if f.params.length ≤ 15 then .ok (some f) else .error .paramsOverflow

/-- What is returned has been found, and there was room for it. -/
theorem capped_eq_ok : capped x = .ok (some f) ↔ x = some f ∧ f.params.length ≤ 15 := by
  cases x with
  | none => exact ⟨nofun, nofun⟩
  | some m =>
    rw [capped]
    split
    · next hle =>
      rw [Except.ok.injEq, Option.some.injEq]
      constructor
      · rintro rfl
        exact ⟨rfl, hle⟩
      · intro h
        exact h.1
    · next hle =>
      refine iff_of_false nofun ?_
      rintro ⟨⟨⟩, hle'⟩
      exact hle hle'

theorem capped_eq_none : capped x = .ok none ↔ x = none := by
  cases x with
  | none => exact iff_of_true rfl rfl
  | some m =>
    rw [capped]
    split
    · exact ⟨nofun, nofun⟩
    · exact ⟨nofun, nofun⟩

theorem readCommand_pieces (hfuel : (restText rest).length < fuel) :
    readCommand fuel pfx cmd rest = capped (some (messageIn pfx cmd (pieces rest))) := by
  have hps : ([] : List CStr).length ≤ 15 := Nat.zero_le 15
  rw [readCommand, readParams_eq hfuel hps, capped, messageIn, List.length_nil, Nat.zero_add]
  split
  · rfl
  · rfl

theorem readLine_pieces (hfuel : s.length < fuel) :
    readLine fuel s = capped (lineIn (s.splitOn SP)) := by
  rw [readLine, lineIn]
  rcases nextToken_pieces s with ⟨htok, hdrop⟩ | ⟨tok, rest, htok, hdrop, hlen⟩
  · rw [htok, hdrop]
    rfl
  · rw [htok, hdrop]
    dsimp only
    by_cases hcolon : tok.head? = some COLON
    · rw [if_pos hcolon, if_pos hcolon]
      cases rest with
      | none => rfl
      | some s' =>
        rw [Option.bind_some, pieces]
        rcases nextToken_pieces s' with ⟨hcmd, hdrop'⟩ | ⟨cmd, rest', hcmd, hdrop', hlen'⟩
        · rw [hcmd, hdrop']
          rfl
        · rw [restText, List.length_cons] at hlen
          rw [hcmd, hdrop']
          exact readCommand_pieces (by omega)
    · rw [if_neg hcolon, if_neg hcolon]
      exact readCommand_pieces (by omega)

/-- **The parser reads the message in the pieces** of the line, if there is room for it. -/
theorem chircMessageFromString_pieces (hnul : NUL ∉ line) (hsize : line.length + 2 < UInt32.size) :
    Matches (chircMessageFromString (line ++ [CR, LF])) (capped (lineIn (line.splitOn SP))) := by
  rw [← readLine_pieces (Nat.lt_add_of_pos_right Nat.zero_lt_two)]
  exact chircMessageFromString_crlf hnul hsize

/-! ## Spaced lines -/

/-- The number of parameters in the words after the command. -/
def paramCount : List CStr → Nat
  | [] => 0
  | w :: ws => if w.head? = some COLON then 1 else paramCount ws + 1

/-- The words after the command, which itself may follow a prefix. -/
def afterCommand : List CStr → List CStr
  | [] => []
  | w :: ws => if w.head? = some COLON then ws.tail else ws

/-- There are as many parameters as words up to a `:`, and those but the last are words that do not
begin with one. -/
theorem Spaced.params_spec (h : Spaced s) :
    (paramsIn true (s.splitOn SP)).1.length = paramCount (words s) ∧
      ∀ p ∈ (paramsIn true (s.splitOn SP)).1.dropLast, Middle p := by
  induction h with
  | nil => exact ⟨by simp [paramsIn, paramCount], by simp [paramsIn]⟩
  | @last tok htok hne =>
    rw [List.splitOn_eq_singleton htok, words_token htok hne, paramCount]
    by_cases hcolon : tok.head? = some COLON
    · rw [paramsIn_colon hcolon, if_pos hcolon]
      exact ⟨rfl, List.forall_mem_nil _⟩
    · rw [paramsIn_token hne fun _ => hcolon, if_neg hcolon]
      exact ⟨rfl, List.forall_mem_nil _⟩
  | @token tok s htok hne hs ih =>
    rw [List.splitOn_append_cons_self_of_not_mem htok, words_cons htok hne, paramCount]
    by_cases hcolon : tok.head? = some COLON
    · rw [paramsIn_colon hcolon, if_pos hcolon]
      exact ⟨rfl, List.forall_mem_nil _⟩
    · rw [paramsIn_token hne fun _ => hcolon, if_neg hcolon]
      refine ⟨by rw [List.length_cons, ih.1], ?_⟩
      cases hps : (paramsIn true (s.splitOn SP)).1 with
      | nil => exact List.forall_mem_nil _
      | cons q ps =>
        rw [hps] at ih
        rw [List.dropLast_cons_cons, List.forall_mem_cons]
        exact ⟨⟨hne, htok, hcolon⟩, ih.2⟩

theorem SpacedRest.params_spec (h : SpacedRest rest) :
    (paramsIn true (pieces rest)).1.length = paramCount (words (rest.getD [])) ∧
      ∀ p ∈ (paramsIn true (pieces rest)).1.dropLast, Middle p := by
  cases rest with
  | none => exact ⟨by simp [pieces, paramsIn, paramCount], List.forall_mem_nil _⟩
  | some s => exact (h s rfl).params_spec

/-- A spaced line holds no message exactly if it has no words, or a prefix and nothing else. -/
theorem Spaced.lineIn_spec (h : Spaced s) :
    (lineIn (s.splitOn SP) = none ↔
      words s = [] ∨ ∃ tok, words s = [tok] ∧ tok.head? = some COLON) ∧
    ∀ f, lineIn (s.splitOn SP) = some f →
      f.params.length = paramCount (afterCommand (words s)) ∧
        ∀ p ∈ f.params.dropLast, Middle p := by
  rcases h.cases_token with rfl | ⟨tok, rest, rfl, htok, hne, hrest, hwords⟩
  · have hnone : lineIn ([].splitOn SP) = none := by simp [lineIn]
    rw [hnone]
    exact ⟨iff_of_true rfl (.inl words_nil), nofun⟩
  · rw [splitOn_append_restText htok, hwords, lineIn, dropWhile_token hne, afterCommand]
    dsimp only
    by_cases hcolon : tok.head? = some COLON
    · rw [if_pos hcolon, if_pos hcolon]
      cases rest with
      | none => exact ⟨iff_of_true rfl (.inr ⟨tok, by simp, hcolon⟩), nofun⟩
      | some s =>
        rcases (hrest s rfl).cases_token with rfl | ⟨cmd, rest, rfl, hcmd, hne', hrest', hwords'⟩
        · have hempty : (pieces (some [])).dropWhile (· = []) = [] := by simp [pieces]
          rw [hempty]
          exact ⟨iff_of_true rfl (.inr ⟨tok, by simp, hcolon⟩), nofun⟩
        · rw [pieces, splitOn_append_restText hcmd, dropWhile_token hne', Option.getD_some, hwords']
          refine ⟨iff_of_false nofun (by simp), ?_⟩
          intro f hf
          cases hf
          exact hrest'.params_spec
    · rw [if_neg hcolon, if_neg hcolon]
      refine ⟨iff_of_false nofun (by simp [hcolon]), ?_⟩
      intro f hf
      cases hf
      exact hrest.params_spec

/-- The parser stores all parameters of the line within its arrays, and finishes. -/
def ParamsStored (line : CStr) : Prop :=
  ∃ r, chircMessageFromString line = .ok r ∧ ∀ msg, r = some msg → msg.params.length ≤ 15

/-- **The parser stays within its arrays** exactly if there are at most fifteen words after the
command, up to the first that begins with a `:`. -/
theorem paramsStored_iff {body : List Byte} {line : CStr} (hnul : NUL ∉ body)
    (hline : trimSpace (body ++ [CR, LF]) = .ok line) (hsize : line.length < UInt32.size) :
    ParamsStored line ↔ paramCount (afterCommand (words body)) ≤ 15 := by
  rw [trimSpace_crlf, Except.ok.injEq] at hline
  subst hline
  rw [List.length_append] at hsize
  have hparse : (chircMessageFromString (trimGo false body ++ [CR, LF])).map
      (·.map Message.fields) = _ := chircMessageFromString_pieces (nul_trimGo false hnul) hsize
  obtain ⟨hnone, hsome⟩ := (spaced_trimGo body).1.lineIn_spec
  rw [(words_trimGo body).1] at hnone hsome
  rw [ParamsStored]
  cases hline : lineIn ((trimGo false body).splitOn SP) with
  | none =>
    rw [hline] at hparse
    obtain ⟨r, hr, hfields⟩ := Res.map_eq_ok.mp hparse
    rw [Option.map_eq_none_iff.mp hfields] at hr
    refine iff_of_true ⟨none, hr, nofun⟩ ?_
    rcases hnone.mp hline with hwords | ⟨tok, hwords, hcolon⟩
    · simp [hwords, afterCommand, paramCount]
    · simp [hwords, afterCommand, hcolon, paramCount]
  | some f =>
    have hlen := (hsome f hline).1
    rw [hline] at hparse
    rw [← hlen]
    constructor
    · intro h
      obtain ⟨r, hr, -⟩ := h
      rw [hr] at hparse
      by_contra hlt
      rw [capped, if_neg hlt] at hparse
      cases hparse
    · intro hle
      rw [capped, if_pos hle] at hparse
      obtain ⟨r, hr, hfields⟩ := Res.map_eq_ok.mp hparse
      refine ⟨r, hr, ?_⟩
      rintro msg rfl
      cases hfields
      exact hle

theorem paramsStored_amy : paramCount (afterCommand (words (lit "USER amy * * :Amy Pond"))) ≤ 15 ∧
    ParamsStored (lit "USER amy * * :Amy Pond\r\n") := by
  have hle : paramCount (afterCommand (words (lit "USER amy * * :Amy Pond"))) ≤ 15 := by
    decide +kernel
  have hline : trimSpace (lit "USER amy * * :Amy Pond" ++ [CR, LF]) =
      .ok (lit "USER amy * * :Amy Pond\r\n") := by decide +kernel
  exact ⟨hle, (paramsStored_iff (by decide +kernel) hline (by decide)).mpr hle⟩

/-- A line with sixteen parameters. -/
def longLine : CStr := lit "USER a b c d e f g h i j k l m n o p\r\n"

theorem paramsStored_overflow : trimSpace longLine = .ok longLine ∧ longLine.length ≤ 1024 ∧
    NUL ∉ longLine ∧ chircMessageFromString longLine = .error .paramsOverflow ∧
    ¬ ParamsStored longLine := by
  have herr : chircMessageFromString longLine = .error .paramsOverflow := by decide +kernel
  refine ⟨by decide +kernel, by decide, by decide, herr, ?_⟩
  rintro ⟨r, hr, -⟩
  rw [herr] at hr
  cases hr

/-! ## The grammar -/

/-- The words up to the first one that begins with a `:` are parameters; from there on the rest of
the line is the last parameter, which is long. -/
def grammarParams (toks : List CStr) : List CStr × Bool :=
  let middle := (toks.takeWhile (·.head? ≠ some COLON)).filter (· ≠ [])
  let long := toks.dropWhile (·.head? ≠ some COLON)
  if long = [] then (middle, false) else (middle ++ [(unwords long).tail], true)

/-- The message that the grammar sees in a line: an optional prefix behind a `:`, a command, and
parameters. -/
def grammar (line : CStr) : Option Fields :=
  match line.splitOn SP with
  | [] => none
  | tok :: toks =>
    if tok.head? = some COLON then
      match toks with
      | [] => none
      | cmd :: toks =>
        if cmd = [] then none
        else some ⟨some tok.tail, cmd.map toupper, (grammarParams toks).1, (grammarParams toks).2⟩
    else some ⟨none, tok.map toupper, (grammarParams toks).1, (grammarParams toks).2⟩

/-- No piece but the last is empty. -/
def Tight (toks : List CStr) : Prop := ∀ tok ∈ toks.dropLast, tok ≠ []

theorem tight_cons (hne : toks ≠ []) : Tight (tok :: toks) ↔ tok ≠ [] ∧ Tight toks := by
  rw [Tight, List.dropLast_cons_of_ne_nil hne, List.forall_mem_cons]
  rfl

theorem Tight.of_cons (h : Tight (tok :: toks)) : Tight toks := by
  by_cases hne : toks = []
  · rw [hne]
    nofun
  · exact ((tight_cons hne).mp h).2

/-- An empty piece is the last one. -/
theorem Tight.eq_nil (h : Tight ([] :: toks)) : toks = [] := by
  by_contra hne
  exact ((tight_cons hne).mp h).1 rfl

theorem Spaced.tight (h : Spaced s) : Tight (s.splitOn SP) := by
  induction h with
  | nil => nofun
  | last htok _ =>
    rw [List.splitOn_eq_singleton htok]
    nofun
  | @token tok s htok hne hs ih =>
    rw [List.splitOn_append_cons_self_of_not_mem htok]
    exact (tight_cons (List.splitOn_ne_nil SP s)).mpr ⟨hne, ih⟩

/-- A text is left as it is by the trimming exactly if it does not begin with a space, or has a run
before it, and no two spaces are adjacent. -/
theorem trimGo_eq_self_iff (s : CStr) :
    (trimGo true s = s ↔ ¬ [SP, SP] <:+: s) ∧
      (trimGo false s = s ↔ s.head? ≠ some SP ∧ ¬ [SP, SP] <:+: s) := by
  induction s with
  | nil => simp [trimGo]
  | cons b s ih =>
    have hadj : [SP, SP] <:+: b :: s ↔ (b = SP ∧ s.head? = some SP) ∨ [SP, SP] <:+: s := by
      rw [List.infix_cons_iff, List.cons_prefix_cons, eq_comm]
      cases s with
      | nil => simp
      | cons c s => simp [List.cons_prefix_cons, eq_comm]
    rw [trimGo, trimGo, hadj]
    by_cases hb : b = SP
    · have hlen := length_trimGo_le false s
      subst hb
      rw [if_pos rfl, if_pos rfl, if_pos rfl, List.cons_inj_right, ih.2, if_neg Bool.false_ne_true]
      refine ⟨by simp [not_or], iff_of_false ?_ (fun h => h.1 rfl)⟩
      intro h
      rw [h, List.length_cons] at hlen
      omega
    · rw [if_neg hb, if_neg hb, List.cons_inj_right, ih.1]
      simp [hb]

theorem spaced_of_not_infix (hhead : s.head? ≠ some SP) (hadj : ¬ [SP, SP] <:+: s) : Spaced s := by
  rw [← (trimGo_eq_self_iff s).2.mpr ⟨hhead, hadj⟩]
  exact (spaced_trimGo s).1

/-- Where no piece but the last is empty, the lookahead sees the beginning of each token. -/
theorem Tight.paramsIn_eq (h : Tight toks) : paramsIn true toks = grammarParams toks := by
  induction toks with
  | nil => rfl
  | cons tok toks ih =>
    have ih := ih h.of_cons
    by_cases hcolon : tok.head? = some COLON
    · rw [paramsIn_colon hcolon]
      simp [grammarParams, hcolon]
    · by_cases hne : tok = []
      · subst hne
        rw [h.eq_nil]
        rfl
      · rw [paramsIn_token hne fun _ => hcolon, ih]
        simp only [grammarParams, List.takeWhile_cons, List.dropWhile_cons, hcolon, hne,
          ne_eq, not_false_eq_true, decide_true, if_true, List.filter_cons]
        split
        · rfl
        · rfl

theorem lineIn_eq_grammar (h : Spaced s) (hne : s ≠ []) : lineIn (s.splitOn SP) = grammar s := by
  have htight := h.tight
  rcases h.cases_token with hnil | ⟨tok, rest, rfl, hspace, htok, -, -⟩
  · exact absurd hnil hne
  rw [splitOn_append_restText hspace] at htight
  rw [grammar, lineIn, splitOn_append_restText hspace, dropWhile_token htok]
  dsimp only
  by_cases hcolon : tok.head? = some COLON
  · rw [if_pos hcolon, if_pos hcolon]
    have htight := htight.of_cons
    cases htoks : pieces rest with
    | nil => rfl
    | cons cmd toks =>
      rw [htoks] at htight
      by_cases hcmd : cmd = []
      · subst hcmd
        rw [htight.eq_nil]
        rfl
      · rw [dropWhile_token hcmd]
        dsimp only
        rw [if_neg hcmd, messageIn, htight.of_cons.paramsIn_eq]
  · rw [if_neg hcolon, if_neg hcolon, messageIn, htight.of_cons.paramsIn_eq]

/-- The line is a prefix, which may have a space behind it. -/
def PrefixOnly (line : CStr) : Prop :=
  ∃ tok, SP ∉ tok ∧ tok.head? = some COLON ∧ (line = tok ∨ line = tok ++ [SP])

/-- The grammar has no message for a prefix that nothing follows. -/
theorem grammar_eq_none_iff (h : Spaced s) (hne : s ≠ []) :
    grammar s = none ↔ PrefixOnly s := by
  rw [← lineIn_eq_grammar h hne, h.lineIn_spec.1]
  constructor
  · intro hwords
    rcases hwords with hnil | ⟨tok, htok, hcolon⟩
    · exact absurd hnil (h.words_ne_nil hne)
    · obtain ⟨hspace, hs⟩ := h.eq_of_words htok
      exact ⟨tok, hspace, hcolon, hs⟩
  · intro hpre
    obtain ⟨tok, htok, hcolon, hs⟩ := hpre
    have hne' : tok ≠ [] := by
      rintro rfl
      cases hcolon
    refine .inr ⟨tok, ?_, hcolon⟩
    rcases hs with rfl | rfl
    · exact words_token htok hne'
    · rw [words_cons htok hne', words_nil]

/-! ## Lines that are too long

The length of a line is stored in an `unsigned int`, so that the parser sees the beginning of a line
of 2^32 bytes or more. A part of a line that is so much shorter has another message, unless the
line is a prefix. -/

/-- The text of a message is about as long as the parameters that are read in it. -/
theorem Spaced.length_params (h : Spaced s) :
    (renderParams (paramsIn true (s.splitOn SP)).2 (paramsIn true (s.splitOn SP)).1).length ≤
        s.length + 1 ∧
      s.length ≤
        (renderParams (paramsIn true (s.splitOn SP)).2 (paramsIn true (s.splitOn SP)).1).length := by
  have hlong {s : CStr} {toks : List CStr} (hs : unwords toks = s) (hne : s ≠ []) :
      (renderParams true [(unwords toks).tail]).length = s.length + 1 := by
    have := List.length_pos_of_ne_nil hne
    simp only [renderParams, if_true, hs, List.length_cons, List.length_tail]
    omega
  induction h with
  | nil => simp [paramsIn, renderParams]
  | @last tok htok hne =>
    rw [List.splitOn_eq_singleton htok]
    by_cases hcolon : tok.head? = some COLON
    · have hunwords : unwords [tok] = tok := List.intercalate_singleton
      have hlen := hlong hunwords hne
      rw [paramsIn_colon hcolon]
      exact ⟨hlen.le, by rw [hlen]; exact Nat.le_succ _⟩
    · rw [paramsIn_token hne fun _ => hcolon]
      simp [paramsIn, renderParams]
  | @token tok s htok hne hs ih =>
    by_cases hcolon : tok.head? = some COLON
    · have hunwords : unwords ((tok ++ SP :: s).splitOn SP) = tok ++ SP :: s :=
        List.intercalate_splitOn SP
      have hlen := hlong hunwords (by simp)
      rw [List.splitOn_append_cons_self_of_not_mem htok] at hlen ⊢
      rw [paramsIn_colon hcolon]
      exact ⟨hlen.le, by rw [hlen]; exact Nat.le_succ _⟩
    · rw [List.splitOn_append_cons_self_of_not_mem htok, paramsIn_token hne fun _ => hcolon]
      generalize paramsIn true (s.splitOn SP) = r at ih
      obtain ⟨ps, longlast⟩ := r
      dsimp only at ih ⊢
      cases ps with
      | nil =>
        obtain rfl : s = [] := List.eq_nil_of_length_eq_zero (Nat.le_zero.mp ih.2)
        cases longlast with
        | false => simp [renderParams]
        | true => simp [renderParams]
      | cons q ps =>
        simp only [renderParams, List.length_append, List.length_cons] at ih ⊢
        omega

theorem SpacedRest.length_params (h : SpacedRest rest) :
    (renderParams (paramsIn true (pieces rest)).2 (paramsIn true (pieces rest)).1).length ≤
        (restText rest).length ∧
      (restText rest).length ≤
        (renderParams (paramsIn true (pieces rest)).2 (paramsIn true (pieces rest)).1).length + 1 := by
  cases rest with
  | none => simp [pieces, paramsIn, renderParams, restText]
  | some s =>
    obtain ⟨hle, hge⟩ := (h s rfl).length_params
    rw [restText, pieces, List.length_cons]
    exact ⟨hle, Nat.succ_le_succ hge⟩

theorem length_restText_some : (restText (some s)).length = s.length + 1 := rfl

/-- The fields as they are rendered, without a CRLF. -/
def Fields.text (f : Fields) : CStr :=
  renderPrefix f.pfx ++ f.cmd ++ renderParams f.longlast f.params

theorem Spaced.length_text (h : Spaced s) (hf : lineIn (s.splitOn SP) = some f) :
    f.text.length ≤ s.length ∧ s.length ≤ f.text.length + 1 := by
  rcases h.cases_token with rfl | ⟨tok, rest, rfl, htok, hne, hrest, -⟩
  · simp [lineIn] at hf
  · rw [splitOn_append_restText htok, lineIn, dropWhile_token hne] at hf
    dsimp only at hf
    by_cases hcolon : tok.head? = some COLON
    · rw [if_pos hcolon] at hf
      cases rest with
      | none => simp [pieces] at hf
      | some s =>
        rcases (hrest s rfl).cases_token with rfl | ⟨cmd, rest, rfl, hcmd, hne', hrest', -⟩
        · simp [pieces] at hf
        · rw [pieces, splitOn_append_restText hcmd, dropWhile_token hne'] at hf
          cases hf
          have hpos := List.length_pos_of_ne_nil hne
          have := hrest'.length_params
          simp only [Fields.text, messageIn, renderPrefix, List.length_append, List.length_cons,
            List.length_tail, List.length_map, List.length_nil, length_restText_some]
          omega
    · rw [if_neg hcolon] at hf
      cases hf
      have := hrest.length_params
      simp only [Fields.text, messageIn, renderPrefix, List.length_append, List.length_nil,
        List.length_map]
      omega

/-- The parser fails on the line with its CRLF exactly if the line is a prefix, and otherwise
returns the message that the grammar sees. -/
def ImplementsGrammar (line : CStr) : Prop :=
  Matches (chircMessageFromString (line ++ [CR, LF])) (.ok (grammar line)) ∧
    (grammar line = none ↔ PrefixOnly line)

/-- No part of a prefix that it begins with is more than a prefix. -/
theorem PrefixOnly.take (h : PrefixOnly line) (hn : n < line.length) :
    lineIn ((line.take n).splitOn SP) = none := by
  obtain ⟨tok, htok, hcolon, hline⟩ := h
  have htake : line.take n = tok.take n := by
    rcases hline with rfl | rfl
    · rfl
    · rw [List.length_append] at hn
      exact List.take_append_of_le_length (Nat.le_of_lt_succ hn)
  have hspace : SP ∉ tok.take n := fun hmem => htok (List.mem_of_mem_take hmem)
  rw [htake, List.splitOn_eq_singleton hspace, lineIn]
  cases n with
  | zero => simp
  | succ n =>
    obtain ⟨b, tok, rfl⟩ := List.exists_cons_of_ne_nil fun hnil : tok = [] => by
      simp [hnil] at hcolon
    rw [List.take_succ_cons, dropWhile_token (List.cons_ne_nil _ _)]
    exact (if_pos hcolon).trans rfl

theorem take_of_spaced {line : CStr} (hhead : line.head? ≠ some SP) (hadj : ¬ [SP, SP] <:+: line)
    (n : Nat) : Spaced (line.take n) := by
  refine spaced_of_not_infix ?_ fun h => hadj (h.trans (List.take_prefix n line).isInfix)
  cases n with
  | zero => simp
  | succ n =>
    rw [List.head?_take]
    simpa using hhead

section
variable {line : CStr} (hnul : NUL ∉ line) (hne : line ≠ []) (hhead : line.head? ≠ some SP)
  (hadj : ¬ [SP, SP] <:+: line)
include hnul hne hhead hadj

/-- What is left of a line whose length is not an `unsigned int`. -/
theorem implementsGrammar_take (hsize : UInt32.size ≤ line.length + 2)
    (hmod : (line.length + 2) % UInt32.size = n + 2) :
    ImplementsGrammar line ↔ PrefixOnly line := by
  have hspaced := spaced_of_not_infix hhead hadj
  have hlt : n + 2 < UInt32.size := hmod ▸ Nat.mod_lt _ (Nat.zero_lt_succ _)
  have hcut : n + UInt32.size ≤ line.length := by
    have hpos := Nat.div_pos hsize (Nat.zero_lt_succ _)
    have hle := Nat.le_mul_of_pos_right UInt32.size hpos
    have hsum := Nat.div_add_mod (line.length + 2) UInt32.size
    omega
  have hparse := chircMessageFromString_take hnul hmod
  have hlen : (line.take n).length < n + 2 := by
    rw [List.length_take]
    omega
  rw [readLine_pieces hlen] at hparse
  rw [ImplementsGrammar, Matches, hparse, ← grammar_eq_none_iff hspaced hne]
  cases hgrammar : grammar line with
  | none =>
    refine iff_of_true ⟨?_, Iff.rfl⟩ rfl
    have hpos : 0 < UInt32.size := Nat.zero_lt_succ _
    have hpre := (grammar_eq_none_iff hspaced hne).mp hgrammar
    rw [hpre.take (by omega)]
    rfl
  | some f =>
    refine iff_of_false (fun h => ?_) fun h => by cases h
    obtain ⟨hread, -⟩ := capped_eq_ok.mp h.1
    have hlong := hspaced.length_text ((lineIn_eq_grammar hspaced hne).trans hgrammar)
    have hshort := (take_of_spaced hhead hadj n).length_text hread
    rw [List.length_take] at hshort
    have hone : 1 < UInt32.size := Nat.lt_of_sub_pos (Nat.zero_lt_succ _)
    omega

/-- **The parser implements the grammar** on the lines that `trim_space` produces exactly if the
length of the line is an `unsigned int`, or the line is a prefix of which as much is left as its two
last bytes. -/
theorem chircMessageFromString_grammar
    (hparams : ∀ f, grammar line = some f → f.params.length ≤ 15) :
    ImplementsGrammar line ↔ line.length + 2 < UInt32.size ∨
      2 ≤ (line.length + 2) % UInt32.size ∧ PrefixOnly line := by
  have hspaced := spaced_of_not_infix hhead hadj
  by_cases hsize : line.length + 2 < UInt32.size
  · refine iff_of_true ⟨?_, grammar_eq_none_iff hspaced hne⟩ (.inl hsize)
    have hparse := chircMessageFromString_pieces hnul hsize
    rw [lineIn_eq_grammar hspaced hne] at hparse
    cases hgrammar : grammar line with
    | none =>
      rw [hgrammar] at hparse
      exact hparse
    | some f =>
      rw [hgrammar, capped, if_pos (hparams f hgrammar)] at hparse
      exact hparse
  · by_cases hlen : 2 ≤ (line.length + 2) % UInt32.size
    · obtain ⟨n, hn⟩ := Nat.exists_eq_add_of_le' hlen
      rw [implementsGrammar_take hnul hne hhead hadj (Nat.le_of_not_lt hsize) hn]
      simp [hsize, hlen]
    · refine iff_of_false ?_ (by simp [hsize, hlen])
      rintro ⟨hparse, -⟩
      rw [Matches, chircMessageFromString_overread (by simpa using Nat.lt_of_not_le hlen)] at hparse
      cases hparse

end

/-- A message with a prefix, whose long parameter ends with a space. -/
theorem chircMessageFromString_grammar_amy :
    grammar (lit ":amy privmsg bob :hi there ") =
        some ⟨some (lit "amy"), lit "PRIVMSG", [lit "bob", lit "hi there "], true⟩ ∧
      ImplementsGrammar (lit ":amy privmsg bob :hi there ") := by
  have hgrammar : grammar (lit ":amy privmsg bob :hi there ") =
      some ⟨some (lit "amy"), lit "PRIVMSG", [lit "bob", lit "hi there "], true⟩ := by
    rfl
  refine ⟨hgrammar, (chircMessageFromString_grammar (by decide) (by decide) (by decide)
    (by decide) ?_).mpr (.inl (by decide))⟩
  intro f hf
  rw [hgrammar, Option.some.injEq] at hf
  subst hf
  decide

/-- A line of 2^32 letters: its length with the CRLF is stored as 2, and nothing is parsed. -/
theorem not_implementsGrammar_replicate : ∃ line : CStr, NUL ∉ line ∧ line ≠ [] ∧
    line.head? ≠ some SP ∧ ¬ [SP, SP] <:+: line ∧
    (∀ f, grammar line = some f → f.params.length ≤ 15) ∧ ¬ ImplementsGrammar line := by
  have hmem {b : Byte} (hb : b ∈ List.replicate UInt32.size (65 : Byte)) : b = 65 :=
    List.eq_of_mem_replicate hb
  have hlen : (List.replicate UInt32.size (65 : Byte)).length = UInt32.size := List.length_replicate
  generalize List.replicate UInt32.size (65 : Byte) = line at *
  have hspace : SP ∉ line := fun h => absurd (hmem h) (by decide)
  have hne : line ≠ [] := by
    rintro rfl
    exact absurd hlen (by decide)
  have hhead : line.head? ≠ some SP := fun h => hspace (List.mem_of_mem_head? h)
  have hadj : ¬ [SP, SP] <:+: line := fun h => hspace (h.subset List.mem_cons_self)
  have hnul : NUL ∉ line := fun h => absurd (hmem h) (by decide)
  have hcolon : line.head? ≠ some COLON := fun h =>
    absurd (hmem (List.mem_of_mem_head? h)) (by decide)
  refine ⟨line, hnul, hne, hhead, hadj, ?_, ?_⟩
  · intro f hf
    rw [grammar, List.splitOn_eq_singleton hspace] at hf
    simp only [hcolon, if_false, Option.some.injEq] at hf
    subst hf
    exact Nat.zero_le _
  · have hmod : (line.length + 2) % UInt32.size = 0 + 2 := by
      rw [hlen, Nat.add_mod_left]
      rfl
    rw [implementsGrammar_take hnul hne hhead hadj (by omega) hmod]
    rintro ⟨tok, -, htok, hline⟩
    refine hcolon ?_
    rcases hline with rfl | rfl
    · exact htok
    · rw [List.head?_append, htok]
      rfl

end Chirc
