import Chirc.Message

/-! # The parser on lists

`chirc_message_from_string` keeps pointers into a buffer that `strtok_r` overwrites. Here the same
reading is stated on the text alone: `nextToken` takes a token off the text, and what follows a
token is `none` at the end of the line and otherwise the text after the one space that `strtok_r`
turned into a NUL, where the lookahead for `:` happens.

`parseLine_eq` says that the parser returns exactly what `readLine` returns. The
invariant of its loop is that the part of the buffer up to the NUL of the last token is final
(`Resolve`): the tokenizer writes only behind it, so that the pointers found so far keep the
strings they point to. -/

namespace Chirc

/-! ## Reading a line -/

/-- What the tokenizer finds after a token. -/
abbrev Rest := Option CStr

/-- The first token of a text that does not begin with a space, and what follows it. -/
def splitToken (s : CStr) : CStr × Rest :=
  (s.takeWhile (· != SP), (s.dropWhile (· != SP)).tail?)

/-- The next token, after any spaces. -/
def nextToken (s : CStr) : Option (CStr × Rest) :=
  match s.dropWhile (· == SP) with
  | [] => none
  | b :: s => some (splitToken (b :: s))

/-- The parameters, after a token that is followed by `rest`. -/
def readParams : Nat → Rest → List CStr → Res (List CStr × Bool)
  | 0, _, _ => .error .overread
  | _ + 1, none, ps => .ok (ps, false)
  | fuel + 1, some s, ps =>
    if s.head? = some COLON then do
      let ps ← pushParam ps s.tail
      return (ps, true)
    else
      match nextToken s with
      | none => .ok (ps, false)
      | some (tok, rest) => do
        let ps ← pushParam ps tok
        readParams fuel rest ps

/-- The fields of a parsed message other than `raw`. -/
structure Fields where
  pfx : Option CStr
  cmd : CStr
  params : List CStr
  longlast : Bool

def Message.fields (m : Message) : Fields := ⟨m.pfx, m.cmd, m.params, m.longlast⟩

def readCommand (fuel : Nat) (pfx : Option CStr) (cmd : CStr) (rest : Rest) :
    Res (Option Fields) := do
  let (params, longlast) ← readParams fuel rest []
  return some ⟨pfx, cmd.map toupper, params, longlast⟩

/-- A line without its last two bytes. -/
def readLine (fuel : Nat) (s : CStr) : Res (Option Fields) :=
  match nextToken s with
  | none => .ok none
  | some (tok, rest) =>
    if tok.head? = some COLON then
      match rest.bind nextToken with
      | none => .ok none
      | some (cmd, rest) => readCommand fuel (some tok.tail) cmd rest
    else
      readCommand fuel none tok rest

/-! ## Tokens -/

/-- The text that follows a token. -/
def restText : Rest → CStr
  | none => []
  | some s => SP :: s

theorem exists_token : ∀ s : CStr, ∃ tok rest, SP ∉ tok ∧ s = tok ++ restText rest
  | [] => ⟨[], none, by simp, rfl⟩
  | b :: s => by
    by_cases hb : b = SP
    · exact ⟨[], some s, by simp, by rw [hb]; rfl⟩
    · obtain ⟨tok, rest, htok, hs⟩ := exists_token s
      exact ⟨b :: tok, rest, by simp [htok, Ne.symm hb], by rw [hs]; rfl⟩

/-- A text is all spaces, or spaces before a token and what follows it. -/
theorem text_cases : ∀ s : CStr, (∃ k, s = List.replicate k SP) ∨
    ∃ k tok rest, SP ∉ tok ∧ tok ≠ [] ∧ s = List.replicate k SP ++ tok ++ restText rest
  | [] => .inl ⟨0, rfl⟩
  | b :: s => by
    by_cases hb : b = SP
    · subst hb
      rcases text_cases s with ⟨k, rfl⟩ | ⟨k, tok, rest, htok, hne, rfl⟩
      · exact .inl ⟨k + 1, rfl⟩
      · exact .inr ⟨k + 1, tok, rest, htok, hne, rfl⟩
    · obtain ⟨tok, rest, htok, hs⟩ := exists_token s
      exact .inr ⟨0, b :: tok, rest, by simp [htok, Ne.symm hb], by simp, by rw [hs]; rfl⟩

theorem splitToken_eq (htok : SP ∉ tok) : splitToken (tok ++ restText rest) = (tok, rest) := by
  have h : ∀ b ∈ tok, (b != SP) = true := fun b hb => by
    simpa using fun h : b = SP => htok (h ▸ hb)
  rw [splitToken, List.takeWhile_append_of_pos h, List.dropWhile_append_of_pos h]
  cases rest <;> simp [restText]

theorem nextToken_eq (htok : SP ∉ tok) (hne : tok ≠ []) :
    nextToken (List.replicate k SP ++ tok ++ restText rest) = some (tok, rest) := by
  have hdrop : (List.replicate k SP ++ (tok ++ restText rest)).dropWhile (· == SP) =
      tok ++ restText rest := by
    rw [List.dropWhile_append_of_pos (by simp)]
    cases tok with
    | nil => exact absurd rfl hne
    | cons b tok =>
      rw [List.cons_append, List.dropWhile_cons_of_neg]
      simpa using fun h : b = SP => htok (by simp [h])
  rw [nextToken, List.append_assoc, hdrop]
  cases tok with
  | nil => exact absurd rfl hne
  | cons b tok => exact congrArg some (splitToken_eq htok)

theorem nextToken_replicate : nextToken (List.replicate k SP) = none := by
  rw [nextToken, List.dropWhile_replicate]
  simp

/-! ## The buffer

`restMem rest` is the part of the buffer behind a token that is followed by `rest`, and
`restOff rest` how far behind the end of the token the save pointer is. -/

def restMem : Rest → List Byte
  | none => [NUL, NUL]
  | some s => NUL :: s ++ [NUL, NUL]

def restOff : Rest → Nat
  | none => 0
  | some _ => 1

theorem strtokR_none (hs : scan (· != SP) mem s = .ok n) (hn : rd mem n = .ok NUL) :
    strtokR mem s = .ok (mem, none, n) := by
  simp [strtokR, hs, hn]

theorem strtokR_some (hs : scan (· != SP) mem s = .ok n) (hn : rd mem n = .ok b) (hb : b ≠ NUL)
    (he : scan (fun b => b == SP || b == NUL) mem n = .ok e) (hc : rd mem e = .ok c) :
    strtokR mem s =
      .ok (if c = NUL then (mem, some n, e) else (mem.set e NUL, some n, e + 1)) := by
  simp only [strtokR, hs, Res.ok_bind, hn, hb, if_false, he, hc, Res.pure_eq]
  split <;> rfl

theorem strtokR_spaces (xs : List Byte) (k : Nat) :
    strtokR (xs ++ List.replicate k SP ++ [NUL, NUL]) xs.length =
      .ok (xs ++ List.replicate k SP ++ [NUL, NUL], none, xs.length + k) := by
  refine strtokR_none ?_ ?_
  · have hspaces : ∀ b ∈ List.replicate k SP, (b != SP) = false := by simp
    simpa using scan_append xs [NUL] hspaces (b := NUL) (by decide)
  · simpa using rd_append_cons (xs ++ List.replicate k SP) NUL [NUL]

theorem strtokR_token (xs : List Byte) (k : Nat) (rest : Rest) (htok : SP ∉ tok)
    (hnul : NUL ∉ tok) (hne : tok ≠ []) :
    strtokR (xs ++ (List.replicate k SP ++ tok ++ restText rest) ++ [NUL, NUL]) xs.length =
      .ok (xs ++ List.replicate k SP ++ tok ++ restMem rest, some (xs.length + k),
        xs.length + k + tok.length + restOff rest) := by
  obtain ⟨b, tok, rfl⟩ := List.exists_cons_of_ne_nil hne
  have hb : b ≠ SP := fun h => htok (by simp [h])
  have hb0 : b ≠ NUL := fun h => hnul (by simp [h])
  have htoken : ∀ c ∈ b :: tok, (c == SP || c == NUL) = false := fun c hc => by
    simpa using ⟨fun h : c = SP => htok (h ▸ hc), fun h : c = NUL => hnul (h ▸ hc)⟩
  have hlen : (xs ++ List.replicate k SP).length = xs.length + k := by simp
  -- the byte that ends the token, and what is behind it
  obtain ⟨c, zs, hrest, hc⟩ : ∃ c zs, restText rest ++ [NUL, NUL] = c :: zs ∧
      (c == SP || c == NUL) = true := by
    cases rest with
    | none => exact ⟨NUL, [NUL], rfl, rfl⟩
    | some s => exact ⟨SP, s ++ [NUL, NUL], rfl, rfl⟩
  have hmem : xs ++ (List.replicate k SP ++ (b :: tok) ++ restText rest) ++ [NUL, NUL] =
      xs ++ List.replicate k SP ++ (b :: tok) ++ c :: zs := by
    simp only [List.append_assoc, hrest]
  rw [hmem, strtokR_some (n := xs.length + k) (b := b) (e := xs.length + k + (b :: tok).length)
    (c := c) ?_ ?_ hb0 ?_ ?_]
  · cases rest with
    | none =>
      cases hrest
      simp [restMem, restOff]
    | some s =>
      cases hrest
      rw [if_neg (by decide), ← hlen, ← List.length_append,
        List.set_append_right _ _ (Nat.le_refl _), Nat.sub_self, List.set_cons_zero]
      simp [restMem, restOff]
  · have hspaces : ∀ b ∈ List.replicate k SP, (b != SP) = false := by simp
    simpa using scan_append xs (tok ++ c :: zs) hspaces (b := b) (by simpa using hb)
  · simpa using rd_append_cons (xs ++ List.replicate k SP) b (tok ++ c :: zs)
  · simpa using scan_append (xs ++ List.replicate k SP) zs htoken hc
  · simpa [Nat.add_assoc] using rd_append_cons (xs ++ List.replicate k SP ++ b :: tok) c zs

/-- The tokenizer behind a token: it finds the end of the line, or cuts off the next token. The
buffer up to the end of the last token stays as it is. -/
theorem strtokR_rest (xs : List Byte) (hnul : NUL ∉ restText rest) :
    (rest.bind nextToken = none ∧ ∃ n, strtokR (xs ++ restMem rest) (xs.length + restOff rest) =
      .ok (xs ++ restMem rest, none, n)) ∨
    ∃ ys tok rest', rest.bind nextToken = some (tok, rest') ∧
      strtokR (xs ++ restMem rest) (xs.length + restOff rest) =
        .ok (ys ++ tok ++ restMem rest', some ys.length,
          ys.length + tok.length + restOff rest') ∧
      xs ++ [NUL] <+: ys ∧ NUL ∉ tok ∧ NUL ∉ restText rest' := by
  cases rest with
  | none => exact .inl ⟨rfl, _, by simpa [restMem, restOff] using strtokR_spaces xs 0⟩
  | some s =>
    have hs : NUL ∉ s := fun h => hnul (List.mem_cons_of_mem _ h)
    have hxs : xs ++ restMem (some s) = xs ++ [NUL] ++ s ++ [NUL, NUL] := by simp [restMem]
    have hlen : xs.length + restOff (some s) = (xs ++ [NUL]).length := by simp [restOff]
    rw [hxs, hlen]
    rcases text_cases s with ⟨k, rfl⟩ | ⟨k, tok, rest', htok, hne, rfl⟩
    · exact .inl ⟨nextToken_replicate, _, strtokR_spaces _ _⟩
    · have hnul : NUL ∉ tok := fun h => hs (by simp [h])
      have hlen : (xs ++ [NUL]).length + k = (xs ++ [NUL] ++ List.replicate k SP).length := by
        simp; omega
      refine .inr ⟨xs ++ [NUL] ++ List.replicate k SP, tok, rest', nextToken_eq htok hne, ?_,
        List.prefix_append _ _, hnul, fun h => hs (by simp [h])⟩
      rw [strtokR_token _ _ _ htok hnul hne, hlen]

/-- The tokenizer at the start of a text: it finds nothing but spaces, or cuts off the first
token. -/
theorem strtokR_start {text : CStr} (htext : NUL ∉ text) :
    (nextToken text = none ∧ ∃ n, strtokR (text ++ [NUL, NUL]) 0 =
      .ok (text ++ [NUL, NUL], none, n)) ∨
    ∃ k b tok rest, nextToken text = some (b :: tok, rest) ∧
      strtokR (text ++ [NUL, NUL]) 0 =
        .ok (List.replicate k SP ++ b :: tok ++ restMem rest, some k,
          (List.replicate k SP ++ b :: tok).length + restOff rest) ∧
      rd (List.replicate k SP ++ b :: tok ++ restMem rest) k = .ok b ∧
      NUL ∉ b :: tok ∧ NUL ∉ restText rest := by
  rcases text_cases text with ⟨k, rfl⟩ | ⟨k, tok, rest, htok, hne, rfl⟩
  · refine .inl ⟨nextToken_replicate, k, ?_⟩
    simpa using strtokR_spaces [] k
  · have hnul : NUL ∉ tok := fun h => htext (by simp [h])
    have hrest : NUL ∉ restText rest := fun h => htext (by simp [h])
    obtain ⟨b, tok, rfl⟩ := List.exists_cons_of_ne_nil hne
    refine .inr ⟨k, b, tok, rest, nextToken_eq htok hne, ?_, ?_, hnul, hrest⟩
    · simpa using strtokR_token [] k rest htok hnul hne
    · simpa using rd_append_cons (List.replicate k SP) b (tok ++ restMem rest)

theorem toupperAt_eq {xs tok ys : List Byte} (hnul : NUL ∉ tok) :
    toupperAt (xs ++ tok ++ NUL :: ys) xs.length =
      .ok (xs ++ tok.map toupper ++ NUL :: ys) := by
  have hscan : scan (· == NUL) (xs ++ tok ++ NUL :: ys) xs.length =
      .ok (xs.length + tok.length) :=
    scan_append _ _ (fun b hb => by simpa using fun h : b = NUL => hnul (h ▸ hb)) (by decide)
  have hlen : xs.length + tok.length = (xs ++ tok).length := by simp
  simp only [toupperAt, hscan, Res.ok_bind, Res.pure_eq, hlen, List.take_left, List.drop_left]
  rw [List.append_assoc xs tok, List.take_left]

theorem toupper_ne_nul (h : b ≠ NUL) : toupper b ≠ NUL := by
  rw [toupper]
  split
  · next hb =>
    intro h0
    have : b = 32 := by
      rw [← UInt8.sub_add_cancel b 32, h0]
      rfl
    subst this
    exact absurd hb (by decide)
  · exact h

/-! ## Agreement -/

/-- The pointers `ptrs` into a buffer that begins with `stable` point to the strings `ps`. -/
def Resolve (stable : List Byte) (ptrs : List Nat) (ps : List CStr) : Prop :=
  ∀ mem, stable <+: mem → ptrs.map (cstrAt mem) = ps

theorem Resolve.mono (h : Resolve stable ptrs ps) (hle : stable <+: stable') :
    Resolve stable' ptrs ps := fun mem hmem => h mem (hle.trans hmem)

theorem Resolve.nil : Resolve stable [] [] := fun _ _ => rfl

theorem Resolve.length_eq (h : Resolve stable ptrs ps) : ptrs.length = ps.length := by
  rw [← h stable List.prefix_rfl, List.length_map]

theorem Resolve.push {xs : List Byte} (h : Resolve xs ptrs ps) (hs : NUL ∉ s) :
    Resolve (xs ++ s ++ [NUL]) (ptrs ++ [xs.length]) (ps ++ [s]) := by
  rintro mem ⟨ys, rfl⟩
  have hmem : xs ++ s ++ [NUL] ++ ys = xs ++ s ++ NUL :: ys := by simp
  rw [List.map_append, h _ ⟨s ++ [NUL] ++ ys, by simp⟩, hmem, List.map_singleton,
    cstrAt_append _ _ hs]

/-- The parser's loop and `readParams` return the same parameters, or fail in the same way. -/
def Agrees (x : Res (List Byte × List Nat × Bool)) (y : Res (List CStr × Bool))
    (stable : List Byte) : Prop :=
  match x, y with
  | .error e, .error e' => e = e'
  | .ok (mem, ptrs, longlast), .ok (ps, longlast') =>
    stable <+: mem ∧ ptrs.map (cstrAt mem) = ps ∧ longlast = longlast'
  | _, _ => False

/-- The byte that the lookahead for `:` sees. -/
theorem rd_restMem (xs : List Byte) (rest : Rest) :
    rd (xs ++ restMem rest) (xs.length + 1) = .ok ((rest.bind List.head?).getD NUL) := by
  rcases rest with _ | _ | ⟨b, s⟩
  · simpa [restMem] using rd_append_cons (xs ++ [NUL]) NUL []
  · simpa [restMem] using rd_append_cons (xs ++ [NUL]) NUL [NUL]
  · simpa [restMem] using rd_append_cons (xs ++ [NUL]) b (s ++ [NUL, NUL])

theorem readParams_succ : readParams (fuel + 1) rest ps =
    if rest.bind List.head? = some COLON then
      pushParam ps (restText rest).tail.tail >>= fun ps => .ok (ps, true)
    else
      match rest.bind nextToken with
      | none => .ok (ps, false)
      | some (tok, rest) => pushParam ps tok >>= readParams fuel rest := by
  cases rest <;> rfl

theorem scan_nul {xs : List Byte} {tok : CStr} (htok : NUL ∉ tok) (rest : Rest) :
    scan (· == NUL) (xs ++ tok ++ restMem rest) xs.length = .ok (xs.length + tok.length) := by
  have h : ∀ b ∈ tok, (b == NUL) = false := fun b hb => by
    simpa using fun h : b = NUL => htok (h ▸ hb)
  cases rest with
  | none => exact scan_append _ _ h (by decide)
  | some s => exact scan_append _ _ h (by decide)

theorem pushParam_agrees {ptrs : List Nat} {ps : List CStr} (hlen : ptrs.length = ps.length)
    {f : List Nat → Res (List Byte × List Nat × Bool)} {g : List CStr → Res (List CStr × Bool)}
    (h : Agrees (f (ptrs ++ [p])) (g (ps ++ [s])) stable) :
    Agrees (pushParam ptrs p >>= f) (pushParam ps s >>= g) stable := by
  rw [pushParam, pushParam, hlen]
  split
  · exact h
  · rfl

theorem Agrees.mono (h : Agrees x y stable') (hle : stable <+: stable') : Agrees x y stable := by
  cases x <;> cases y
  · exact h
  · exact h
  · exact h
  · exact ⟨hle.trans h.1, h.2⟩

theorem paramLoop_agrees : ∀ (fuel : Nat) {xs : List Byte} {tok : CStr} {rest : Rest}
    {ptrs : List Nat} {ps : List CStr}, NUL ∉ tok → NUL ∉ restText rest →
    Resolve (xs ++ tok ++ [NUL]) ptrs ps →
    Agrees (paramLoop fuel (xs ++ tok ++ restMem rest) xs.length
      (xs.length + tok.length + restOff rest) ptrs) (readParams fuel rest ps)
      (xs ++ tok ++ [NUL])
  | 0, _, _, _, _, _, _, _, _ => rfl
  | fuel + 1, xs, tok, rest, ptrs, ps, htok, hrest, hptrs => by
    have hlook := rd_restMem (xs ++ tok) rest
    have hlen : (xs ++ tok).length = xs.length + tok.length := List.length_append
    rw [hlen] at hlook
    rw [paramLoop, readParams_succ]
    simp only [scan_nul htok, Res.ok_bind, hlook]
    by_cases hcolon : rest.bind List.head? = some COLON
    · -- the rest of the line is the last parameter
      obtain ⟨s, rfl⟩ : ∃ s, rest = some (COLON :: s) := by
        obtain ⟨_ | ⟨b, s⟩, rfl, hb⟩ := Option.bind_eq_some_iff.mp hcolon
        · cases hb
        · exact ⟨s, by simpa using hb⟩
      have hs : NUL ∉ s := fun h => hrest (by simp [restText, h])
      have hle : xs ++ tok ++ [NUL] <+: xs ++ tok ++ [NUL, COLON] := ⟨[COLON], by simp⟩
      have hpush := (hptrs.mono hle).push hs
      have hlen : (xs ++ tok ++ [NUL, COLON]).length = xs.length + tok.length + 1 + 1 := by
        simp; omega
      rw [hlen] at hpush
      exact pushParam_agrees hptrs.length_eq ⟨by simp [restMem], hpush _ (by simp [restMem]), rfl⟩
    · have hcolon' : (rest.bind List.head?).getD NUL ≠ COLON := by
        intro h
        cases hh : rest.bind List.head? with
        | none => rw [hh] at h; exact absurd h (by decide)
        | some b => rw [hh] at h hcolon; exact hcolon (congrArg some h)
      simp only [hcolon, hcolon', if_false]
      have htoken := strtokR_rest (xs ++ tok) hrest
      rw [hlen] at htoken
      rcases htoken with ⟨hnone, n, hstr⟩ | ⟨ys, tok', rest', hsome, hstr, hys, htok', hrest'⟩
      · rw [hstr, hnone]
        refine ⟨?_, hptrs _ ?_, rfl⟩ <;> cases rest <;> simp [restMem]
      · rw [hstr, hsome]
        have ih := paramLoop_agrees fuel htok' hrest' ((hptrs.mono hys).push htok')
        exact pushParam_agrees hptrs.length_eq
          (ih.mono (hys.trans ⟨tok' ++ [NUL], by simp⟩))

/-! ## The whole parser -/

/-- A result of `chirc_message_from_string` and a result of `readLine` say the same. -/
def Matches (x : Res (Option Message)) (y : Res (Option Fields)) : Prop :=
  x.map (·.map Message.fields) = y

theorem parseCommand_matches (fuel : Nat) (xs : List Byte) {pfx : Option Nat}
    {pfxStr : Option CStr} (hcmd : NUL ∉ cmd) (hrest : NUL ∉ restText rest)
    (hpfx : ∀ mem, xs <+: mem → pfx.map (cstrAt mem) = pfxStr) :
    Matches (parseCommand fuel (xs ++ cmd ++ restMem rest) pfx xs.length
      (xs.length + cmd.length + restOff rest)) (readCommand fuel pfxStr cmd rest) := by
  have hup : toupperAt (xs ++ cmd ++ restMem rest) xs.length =
      .ok (xs ++ cmd.map toupper ++ restMem rest) := by
    cases rest with
    | none => exact toupperAt_eq hcmd
    | some s => exact toupperAt_eq hcmd
  have hcmd' : NUL ∉ cmd.map toupper := by
    rintro h
    obtain ⟨b, hb, h⟩ := List.mem_map.mp h
    exact toupper_ne_nul (fun hb0 => hcmd (hb0 ▸ hb)) h
  have hagree := @paramLoop_agrees fuel xs _ _ _ _ hcmd' hrest .nil
  rw [List.length_map] at hagree
  rw [Matches, parseCommand, readCommand, hup, Res.ok_bind]
  revert hagree
  generalize paramLoop fuel _ _ _ [] = x
  generalize readParams fuel rest [] = y
  intro hagree
  match x, y, hagree with
  | .error e, .error _, h => rw [show e = _ from h]; rfl
  | .ok (mem, ptrs, longlast), .ok (ps, _), ⟨⟨ys, hys⟩, hps, rfl⟩ =>
    have hmem : mem = xs ++ cmd.map toupper ++ NUL :: ys := by rw [← hys]; simp
    have hcmd : cstrAt mem xs.length = cmd.map toupper := by rw [hmem, cstrAt_append _ _ hcmd']
    have hpfx := hpfx mem ⟨cmd.map toupper ++ NUL :: ys, by simp [hmem]⟩
    simp [Except.map, Message.fields, hcmd, hpfx, hps]

/-- **The parser returns what `readLine` reads** in the line without its last two bytes, `len` being
the stored length. -/
theorem parseLine_eq {s : CStr} (hs : NUL ∉ s) {len : Nat} (hlen : 2 ≤ len) :
    Matches (parseLine len s) (readLine len (s.take (len - 2))) := by
  rw [parseLine]
  have htext : NUL ∉ s.take (len - 2) := fun h => hs (List.mem_of_mem_take h)
  generalize s.take (len - 2) = text at *
  simp only [Nat.not_lt.mpr hlen, if_false, readLine]
  rcases strtokR_start htext with
    ⟨hnone, n, hstr⟩ | ⟨k, b, tok, rest, hsome, hstr, hread, hnul, hnul'⟩
  · rw [hstr, hnone]
    rfl
  · simp only [hstr, hsome, Res.ok_bind, hread, List.head?_cons, Option.some.injEq]
    by_cases hcolon : b = COLON
    · subst hcolon
      rcases strtokR_rest (List.replicate k SP ++ COLON :: tok) hnul' with
        ⟨hnone, n, hstr⟩ | ⟨ys, cmd, rest', hsome, hstr, hys, hcmd, hrest'⟩
      · simp only [if_true, hstr, Res.ok_bind, hnone]
        rfl
      · simp only [if_true, hstr, Res.ok_bind, hsome]
        refine parseCommand_matches _ _ hcmd hrest' fun mem hmem => ?_
        obtain ⟨zs, rfl⟩ := hys.trans hmem
        have hpfx := cstrAt_append (List.replicate k SP ++ [COLON]) zs
          fun h : NUL ∈ tok => hnul (List.mem_cons_of_mem _ h)
        simpa using hpfx
    · simp only [hcolon, if_false]
      have hnone : ∀ mem, List.replicate k SP <+: mem →
          (none : Option Nat).map (cstrAt mem) = none := fun _ _ => rfl
      simpa using parseCommand_matches len (List.replicate k SP) hnul hnul' hnone

end Chirc
