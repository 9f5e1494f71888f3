import Chirc.Server.Trim
import Chirc.Verify.Words

/-! # What `trim_space` writes

The loops of `trim_space` copy the runs of bytes other than spaces, with one space after each that
does not end the input. On a line that ends with a CRLF they write the words of the line with single
spaces between them, and no more bytes than the line has. -/

namespace Chirc

/-! ## The loops -/

/-- `pre` has been read, `written` has been written, and `tail` is the rest of `out`. -/
def Trim.at (pre written tail : List Byte) : Trim := ⟨pre.length, written.length, written ++ tail⟩

@[simp] theorem Trim.at_i (pre written tail : List Byte) :
    (Trim.at pre written tail).i = pre.length := rfl

theorem wr_append (written : List Byte) (b c : Byte) (tail : List Byte) :
    wr (written ++ c :: tail) written.length b = .ok (written ++ b :: tail) := by
  have hpos : ¬ (written.length : Int) < 0 := by omega
  rw [wr, if_neg hpos, Int.toNat_natCast, if_pos (by simp),
    List.set_append_right _ _ (Nat.le_refl _), Nat.sub_self, List.set_cons_zero]

theorem emit_at (hroom : tail ≠ []) :
    (Trim.at pre written tail).emit b = .ok (.at pre (written ++ [b]) tail.tail) := by
  cases tail with
  | nil => exact absurd rfl hroom
  | cons c tail =>
    rw [Trim.at, Trim.emit, wr_append]
    simp [Trim.at]

theorem at_next (pre written tail : List Byte) (b : Byte) :
    (Trim.at pre written tail).next = .at (pre ++ [b]) written tail := by
  simp [Trim.at, Trim.next]

/-- The inner loop copies the run that begins at the current byte. -/
theorem copyRun_eq (hrun : SP ∉ run) (hrest : rest = [] ∨ rest.head? = some SP)
    (hroom : run.length ≤ tail.length) (hfuel : run.length < fuel)
    (hsrc : src = pre ++ run ++ rest) : copyRun src src.length fuel (.at pre written tail) =
      .ok (.at (pre ++ run) (written ++ run) (tail.drop run.length)) := by
  induction run generalizing pre written tail fuel with
  | nil =>
    cases fuel with
    | zero => cases hfuel
    | succ fuel =>
      rcases hrest with rfl | hrest
      · simp [copyRun, Trim.at, hsrc]
      · obtain ⟨rest, rfl⟩ := List.head?_eq_some_iff.mp hrest
        simp [copyRun, Trim.at, rd, hsrc]
  | cons b run ih =>
    cases fuel with
    | zero => cases hfuel
    | succ fuel =>
      rw [List.mem_cons, not_or] at hrun
      rw [List.length_cons] at hroom hfuel
      have htail : tail ≠ [] := List.ne_nil_of_length_pos (by omega)
      have hnext : src = pre ++ [b] ++ run ++ rest := by rw [hsrc]; simp
      have hb : rd src (Trim.at pre written tail).i = .ok b := by
        rw [hnext, List.append_assoc, List.append_assoc]
        exact rd_append_cons pre b (run ++ rest)
      have hlt : (Trim.at pre written tail).i < src.length := by
        rw [hnext, Trim.at]
        simp
      rw [copyRun, if_pos hlt, hb, Res.ok_bind, if_neg (Ne.symm hrun.1), emit_at htail, Res.ok_bind,
        at_next _ _ _ b, ih hrun.2 (by rw [List.length_tail]; omega) (by omega) hnext]
      simp

/-- A text begins with a run of bytes other than spaces. -/
theorem exists_run (s : List Byte) :
    ∃ run rest, s = run ++ rest ∧ SP ∉ run ∧ (rest = [] ∨ rest.head? = some SP) := by
  induction s with
  | nil => exact ⟨[], [], rfl, List.not_mem_nil, .inl rfl⟩
  | cons b s ih =>
    by_cases hb : b = SP
    · exact ⟨[], b :: s, rfl, List.not_mem_nil, .inr (congrArg some hb)⟩
    · obtain ⟨run, rest, rfl, hrun, hrest⟩ := ih
      exact ⟨b :: run, rest, rfl, by simpa using ⟨Ne.symm hb, hrun⟩, hrest⟩

theorem trimGo_run (hrun : SP ∉ run) (rest : List Byte) :
    trimGo true (run ++ rest) = run ++ trimGo true rest := by
  induction run with
  | nil => rfl
  | cons b run ih =>
    rw [List.mem_cons, not_or] at hrun
    rw [List.cons_append, trimGo, if_neg (Ne.symm hrun.1), ih hrun.2, List.cons_append]

theorem length_trimGo_le (inRun : Bool) (s : List Byte) : (trimGo inRun s).length ≤ s.length := by
  induction s generalizing inRun with
  | nil => exact Nat.le_refl _
  | cons b s ih =>
    have hfalse := ih false
    have htrue := ih true
    rw [trimGo]
    split
    · split
      · simpa using hfalse
      · simp; omega
    · simpa using htrue

theorem trimLoop_done (hi : src.length ≤ s.i) (hfuel : 0 < fuel) :
    trimLoop src src.length fuel s = .ok s := by
  cases fuel with
  | zero => cases hfuel
  | succ fuel => rw [trimLoop, if_neg (Nat.not_lt.mpr hi), Res.pure_eq]

/-- The body of the outer loop at a space. -/
theorem trimRound_space (hsrc : src = pre ++ SP :: rest) :
    trimRound src src.length (.at pre written tail) = .ok (.at pre written tail) := by
  have hb : rd src (Trim.at pre written tail).i = .ok SP := by
    rw [hsrc]
    exact rd_append_cons pre SP rest
  rw [trimRound, hb, Res.ok_bind, if_pos rfl, Res.pure_eq]

section
variable {src pre run rest written tail : List Byte} (hrun : SP ∉ run) (hne : run ≠ [])
include hrun hne

/-- The body of the outer loop at a run. -/
theorem trimRound_run (hrest : rest = [] ∨ rest.head? = some SP) (hroom : run.length ≤ tail.length)
    (hsrc : src = pre ++ run ++ rest) : trimRound src src.length (.at pre written tail) =
      if rest = [] then .ok (.at (pre ++ run) (written ++ run) (tail.drop run.length))
      else (Trim.at (pre ++ run) (written ++ run) (tail.drop run.length)).emit SP := by
  obtain ⟨b, bs, rfl⟩ := List.exists_cons_of_ne_nil hne
  have hb : rd src (Trim.at pre written tail).i = .ok b := by
    rw [hsrc, List.append_assoc]
    exact rd_append_cons pre b (bs ++ rest)
  have hnsp : b ≠ SP := fun h => hrun (h ▸ List.mem_cons_self)
  have hfuel : (b :: bs).length < src.length + 1 := by
    rw [hsrc]
    simp
    omega
  rw [trimRound, hb, Res.ok_bind, if_neg hnsp, copyRun_eq hrun hrest hroom hfuel hsrc, Res.ok_bind]
  have hlen : src.length = (pre ++ b :: bs).length + rest.length := by
    rw [hsrc, List.length_append]
  by_cases hend : rest = []
  · rw [if_neg (by simp [Trim.at, hlen, hend]), if_pos hend, Res.pure_eq]
  · have hpos := List.length_pos_of_ne_nil hend
    rw [if_pos (by rw [hlen, Trim.at_i]; omega), if_neg hend]

/-- What is left of a run and of what follows it. -/
theorem trimGo_false_run : trimGo false (run ++ rest) = run ++ trimGo true rest := by
  obtain ⟨b, bs, rfl⟩ := List.exists_cons_of_ne_nil hne
  have hnsp : b ≠ SP := fun h => hrun (h ▸ List.mem_cons_self)
  rw [← trimGo_run hrun, List.cons_append, trimGo, trimGo, if_neg hnsp, if_neg hnsp]

end

/-- **The outer loop writes what is left of the rest of the input.** -/
theorem trimLoop_eq (hsrc : src = pre ++ rest) (hroom : rest.length ≤ tail.length)
    (hfuel : rest.length < fuel) : ∃ i, trimLoop src src.length fuel (.at pre written tail) =
      .ok ⟨i, (written ++ trimGo false rest).length,
        written ++ trimGo false rest ++ tail.drop (trimGo false rest).length⟩ := by
  induction fuel generalizing pre rest written tail with
  | zero => cases hfuel
  | succ fuel ih =>
    obtain ⟨run, rest, rfl, hrun, hrest⟩ := exists_run rest
    by_cases hne : run = []
    · subst hne
      rw [List.nil_append] at hsrc hroom hfuel ⊢
      rcases hrest with rfl | hrest
      · exact ⟨pre.length, by simp [trimLoop, Trim.at, trimGo, hsrc]⟩
      · obtain ⟨rest, rfl⟩ := List.head?_eq_some_iff.mp hrest
        rw [List.length_cons] at hroom hfuel
        have hlt : (Trim.at pre written tail).i < src.length := by simp [hsrc]
        have hsrc' : src = pre ++ [SP] ++ rest := by simp [hsrc]
        have hskip : trimGo false (SP :: rest) = trimGo false rest := by simp [trimGo]
        rw [trimLoop, if_pos hlt, trimRound_space hsrc, Res.ok_bind, at_next _ _ _ SP, hskip]
        exact ih hsrc' (by omega) (by omega)
    · have hpos := List.length_pos_of_ne_nil hne
      have hsrc' : src = pre ++ run ++ rest := by rw [hsrc, List.append_assoc]
      rw [List.length_append] at hroom hfuel
      have hlt : (Trim.at pre written tail).i < src.length := by simp [hsrc]; omega
      rw [trimLoop, if_pos hlt, trimRound_run hrun hne hrest (by omega) hsrc',
        trimGo_false_run hrun hne]
      rcases hrest with rfl | hrest
      · -- the index moves past the end
        rw [if_pos rfl, Res.ok_bind, trimLoop_done (by simp [Trim.next, hsrc]) (by omega)]
        exact ⟨pre.length + run.length + 1, by simp [Trim.next, Trim.at, trimGo]⟩
      · obtain ⟨rest, rfl⟩ := List.head?_eq_some_iff.mp hrest
        rw [List.length_cons] at hroom hfuel
        have htail : tail.drop run.length ≠ [] :=
          List.ne_nil_of_length_pos (by rw [List.length_drop]; omega)
        have hnext : src = pre ++ run ++ [SP] ++ rest := by simp [hsrc]
        have hroom' : rest.length ≤ (tail.drop run.length).tail.length := by
          rw [List.length_tail, List.length_drop]
          omega
        obtain ⟨i, hi⟩ := @ih _ _ (written ++ run ++ [SP]) _ hnext hroom' (by omega)
        rw [if_neg (List.cons_ne_nil _ _), emit_at htail, Res.ok_bind, at_next _ _ _ SP, hi]
        refine ⟨i, ?_⟩
        have hdrop : ((tail.drop run.length).tail).drop (trimGo false rest).length =
            tail.drop (run ++ trimGo true (SP :: rest)).length := by
          rw [List.tail_drop, List.drop_drop]
          congr 1
          simp [trimGo]
          omega
        rw [hdrop]
        simp [trimGo]

theorem trimLoop_start (hroom : src.length ≤ out.length) :
    ∃ i, trimLoop src src.length (src.length + 1) ⟨0, 0, out⟩ =
      .ok ⟨i, (trimGo false src).length,
        trimGo false src ++ out.drop (trimGo false src).length⟩ := by
  have hsrc : src = [] ++ src := rfl
  exact @trimLoop_eq src [] src (src.length + 1) [] out hsrc hroom (Nat.lt_succ_self _)

/-- The final CRLF overwrites the last two bytes. -/
theorem wr_crlf (text tail : List Byte) : (do
      let out ← wr (text ++ tail) ((text.length : Int) - 1) LF
      wr out ((text.length : Int) - 2) CR) =
    if text.length < 2 then .error .underwrite
    else .ok (text.take (text.length - 2) ++ [CR, LF] ++ tail) := by
  rcases text.eq_nil_or_concat' with rfl | ⟨text, c, rfl⟩
  · rfl
  rcases text.eq_nil_or_concat' with rfl | ⟨text, b, rfl⟩
  · rfl
  have hlast : ((text ++ [b] ++ [c]).length : Int) - 1 = (text ++ [b]).length := by
    simp
    omega
  have hprev : ((text ++ [b] ++ [c]).length : Int) - 2 = text.length := by
    simp
  rw [hlast, hprev, List.append_assoc, List.singleton_append, wr_append, Res.ok_bind,
    List.append_assoc, List.singleton_append, wr_append, if_neg (by simp)]
  simp

/-- The function on arrays computes the one of the receive loop. -/
theorem trimInto_eq (hroom : src.length ≤ out.length) : trimInto src src.length out =
    (trimSpace src).map fun line => line ++ out.drop line.length := by
  obtain ⟨i, hi⟩ := trimLoop_start hroom
  rw [trimInto, hi, Res.ok_bind, wr_crlf, trimSpace]
  by_cases hlen : (trimGo false src).length < 2
  · simp only [hlen, if_true]
    rfl
  · have hline : ((trimGo false src).take ((trimGo false src).length - 2) ++ [CR, LF]).length =
        (trimGo false src).length := by
      simp
      omega
    simp only [hlen, if_false, Except.map, hline]

/-! ## The text -/

/-- Words with single spaces between them. -/
def unwords (ws : List CStr) : CStr := [SP].intercalate ws

theorem Spaced.unwords_words (h : Spaced s) (hlast : s.getLast? ≠ some SP) :
    unwords (words s) = s := by
  induction h with
  | nil => rfl
  | last htok hne => rw [words_token htok hne, unwords, List.intercalate_singleton]
  | @token tok s htok hne hs ih =>
    have hs : s ≠ [] := by
      intro h
      rw [h] at hlast
      simp at hlast
    have hlast : s.getLast? ≠ some SP := by
      rwa [List.append_cons, List.getLast?_append_of_ne_nil _ hs] at hlast
    have hwords : words s ≠ [] := by
      intro h
      exact hs ((ih hlast).symm.trans (by rw [h]; rfl))
    rw [words_cons htok hne, unwords, List.intercalate_cons_of_ne_nil hwords, ← unwords, ih hlast,
      List.append_assoc, List.singleton_append]

/-- The words of a line that ends with a CRLF, the last of which has it. -/
theorem trimGo_eq_unwords (hcrlf : [CR, LF] <:+ src) : trimGo false src = unwords (words src) := by
  obtain ⟨body, rfl⟩ := hcrlf
  have hlast : (trimGo false (body ++ [CR, LF])).getLast? ≠ some SP := by
    rw [trimGo_crlf]
    simp [show LF ≠ SP by decide]
  rw [← (words_trimGo (body ++ [CR, LF])).1, (spaced_trimGo _).1.unwords_words hlast]

/-- What `trim_space` makes of a line: it fills the first bytes of `out` with the words. -/
theorem trimInto_words (hcrlf : [CR, LF] <:+ src) (hroom : src.length ≤ out.length) :
    trimInto src src.length out =
      .ok (unwords (words src) ++ out.drop (unwords (words src)).length) := by
  rw [trimInto_eq hroom, ← trimGo_eq_unwords hcrlf]
  obtain ⟨body, rfl⟩ := hcrlf
  rw [trimSpace_crlf, trimGo_crlf]
  rfl

/-- **`trim_space` writes the words of a line** with single spaces between them. This takes no more
room than the line, ends with a CRLF again, has the same words, and so is left as it is by
`trim_space`. -/
theorem trimInto_spec (hcrlf : [CR, LF] <:+ src) (hroom : src.length ≤ out.length) :
    ∃ line, line = unwords (words src) ∧
      trimInto src src.length out = .ok (line ++ out.drop line.length) ∧
      line.length ≤ src.length ∧ [CR, LF] <:+ line ∧
      (∀ out', line.length ≤ out'.length →
        trimInto line line.length out' = .ok (line ++ out'.drop line.length)) ∧
      ∀ src', [CR, LF] <:+ src' → words src' = words src → src'.length ≤ out.length →
        trimInto src' src'.length out = trimInto src src.length out := by
  have hline := trimGo_eq_unwords hcrlf
  have hcrlf' : [CR, LF] <:+ unwords (words src) := by
    rw [← hline]
    obtain ⟨body, rfl⟩ := hcrlf
    rw [trimGo_crlf]
    exact List.suffix_append _ _
  have hwords : words (unwords (words src)) = words src := by
    rw [← hline, (words_trimGo src).1]
  refine ⟨_, rfl, trimInto_words hcrlf hroom, hline ▸ length_trimGo_le false src, hcrlf', ?_, ?_⟩
  · intro out' hroom'
    rw [trimInto_words hcrlf' hroom', hwords]
  · intro src' hcrlf' hwords' hroom'
    rw [trimInto_words hcrlf' hroom', trimInto_words hcrlf hroom, hwords']

theorem trimInto_spec_line : ∃ line, line = lit "ab c d \r\n" ∧
    trimInto (lit "  ab  c d \r\n") 12 (List.replicate 12 NUL) = .ok (line ++ [0, 0, 0]) ∧
    line.length ≤ 12 ∧ [CR, LF] <:+ line := by
  obtain ⟨line, hline, htrim, hlen, hcrlf, -⟩ := @trimInto_spec (lit "  ab  c d \r\n")
    (List.replicate 12 NUL) ⟨lit "  ab  c d ", by decide⟩ (by decide)
  have htext : line = lit "ab c d \r\n" := hline.trans (by decide +kernel)
  subst htext
  exact ⟨_, rfl, htrim, hlen, hcrlf⟩

end Chirc
