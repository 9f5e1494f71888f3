import Chirc.Verify.Parser
import Chirc.Verify.Lines

/-! # The words of a line

`trim_space` leaves the words of a line with one space between them (`Spaced`). -/

namespace Chirc

open PrefixCode

/-- The words of a text: its maximal runs of bytes other than spaces. -/
def words (s : CStr) : List CStr := (s.splitOn SP).filter (· ≠ [])

/-- Words with one space between them, and possibly one at the end. -/
inductive Spaced : CStr → Prop
  | nil : Spaced []
  | last : SP ∉ tok → tok ≠ [] → Spaced tok
  | token : SP ∉ tok → tok ≠ [] → Spaced s → Spaced (tok ++ SP :: s)

@[simp] theorem words_nil : words [] = [] := by simp [words]

theorem words_token (htok : SP ∉ tok) (hne : tok ≠ []) : words tok = [tok] := by
  simp [words, List.splitOn_eq_singleton htok, hne]

theorem words_cons (htok : SP ∉ tok) (hne : tok ≠ []) :
    words (tok ++ SP :: s) = tok :: words s := by
  simp [words, List.splitOn_append_cons_self_of_not_mem htok, hne]

theorem words_space : words (SP :: s) = words s := by
  simp [words, List.splitOn_cons_eq_if_modifyHead]

/-! ## Trimming -/

theorem spaced_trimGo (body : List Byte) : Spaced (trimGo false body) ∧
    ∀ tok, SP ∉ tok → tok ≠ [] → Spaced (tok ++ trimGo true body) := by
  induction body with
  | nil => exact ⟨.nil, fun tok htok hne => by simpa [trimGo] using .last htok hne⟩
  | cons b bs ih =>
    by_cases hb : b = SP
    · simp only [trimGo, hb, if_true, Bool.false_eq_true, if_false]
      exact ⟨ih.1, fun tok htok hne => .token htok hne ih.1⟩
    · simp only [trimGo, hb, if_false]
      refine ⟨ih.2 [b] (by simpa using Ne.symm hb) (by simp), fun tok htok hne => ?_⟩
      rw [← List.singleton_append, ← List.append_assoc]
      exact ih.2 (tok ++ [b]) (by simpa using ⟨htok, Ne.symm hb⟩) (by simp)

/-- The words stay the same. -/
theorem words_trimGo (body : List Byte) : words (trimGo false body) = words body ∧
    ∀ tok, SP ∉ tok → tok ≠ [] → words (tok ++ trimGo true body) = words (tok ++ body) := by
  induction body with
  | nil => exact ⟨rfl, fun tok _ _ => rfl⟩
  | cons b bs ih =>
    by_cases hb : b = SP
    · simp only [trimGo, hb, if_true, Bool.false_eq_true, if_false]
      refine ⟨ih.1.trans words_space.symm, fun tok htok hne => ?_⟩
      rw [words_cons htok hne, words_cons htok hne, ih.1]
    · simp only [trimGo, hb, if_false]
      refine ⟨ih.2 [b] (by simpa using Ne.symm hb) (by simp), fun tok htok hne => ?_⟩
      have h := ih.2 (tok ++ [b]) (by simpa using ⟨htok, Ne.symm hb⟩) (by simp)
      simpa using h

/-! ## Spaced text -/

/-- What follows a token of a spaced text. -/
def SpacedRest (rest : Rest) : Prop := ∀ s, rest = some s → Spaced s

theorem SpacedRest.none : SpacedRest none := nofun

theorem SpacedRest.some (h : Spaced s) : SpacedRest (some s) := by
  rintro _ ⟨⟩
  exact h

/-- A spaced text is empty or begins with a token. -/
theorem Spaced.cases_token (h : Spaced s) : s = [] ∨
    ∃ tok rest, s = tok ++ restText rest ∧ SP ∉ tok ∧ tok ≠ [] ∧ SpacedRest rest ∧
      words s = tok :: words (rest.getD []) := by
  cases h with
  | nil => exact .inl rfl
  | last htok hne =>
    refine .inr ⟨s, none, by simp [restText], htok, hne, .none, ?_⟩
    simpa using words_token htok hne
  | token htok hne hs => exact .inr ⟨_, some _, rfl, htok, hne, .some hs, words_cons htok hne⟩

theorem Spaced.words_ne_nil (h : Spaced s) (hne : s ≠ []) : words s ≠ [] := by
  rcases h.cases_token with hnil | ⟨tok, rest, -, -, -, -, hwords⟩
  · exact absurd hnil hne
  · rw [hwords]
    exact List.cons_ne_nil _ _

/-- A spaced text of one word may have a space behind it. -/
theorem Spaced.eq_of_words (h : Spaced s) (hwords : words s = [tok]) :
    SP ∉ tok ∧ (s = tok ∨ s = tok ++ [SP]) := by
  rcases h.cases_token with hnil | ⟨tok', rest, hs, htok, -, hrest, hcons⟩
  · rw [hnil, words_nil] at hwords
    cases hwords
  · obtain ⟨rfl, hmore⟩ := List.cons.inj (hcons.symm.trans hwords)
    refine ⟨htok, ?_⟩
    cases rest with
    | none => exact .inl (by rw [hs, restText, List.append_nil])
    | some s' =>
      by_cases hne : s' = []
      · exact .inr (by rw [hs, hne, restText])
      · exact absurd hmore ((hrest s' rfl).words_ne_nil hne)

theorem head?_append_restText (hne : tok ≠ []) :
    (tok ++ restText rest).head? = tok.head? := by
  obtain ⟨b, tok, rfl⟩ := List.exists_cons_of_ne_nil hne
  rfl

/-! ## The parser -/

theorem mem_of_mem_trimGo (h : b ∈ trimGo inRun body) : b ∈ body ∨ b = SP := by
  induction body generalizing inRun with
  | nil => cases h
  | cons c cs ih =>
    rw [trimGo] at h
    split at h
    · split at h
      · rcases List.mem_cons.mp h with rfl | h
        · exact .inr rfl
        · exact (ih h).imp_left (List.mem_cons_of_mem c)
      · exact (ih h).imp_left (List.mem_cons_of_mem c)
    · rcases List.mem_cons.mp h with rfl | h
      · exact .inl List.mem_cons_self
      · exact (ih h).imp_left (List.mem_cons_of_mem c)

theorem nul_trimGo (inRun : Bool) (h : NUL ∉ body) : NUL ∉ trimGo inRun body := fun hmem =>
  (mem_of_mem_trimGo hmem).elim h (by decide)

theorem nul_crlf (hnul : NUL ∉ text) : NUL ∉ text ++ [CR, LF] := by
  have : NUL ≠ CR ∧ NUL ≠ LF := by decide
  simpa using ⟨hnul, this⟩

/-- What the parser reads in a line that ends with a CRLF. -/
theorem parseLine_crlf (hnul : NUL ∉ text) (hle : n ≤ text.length) :
    Matches (parseLine (n + 2) (text ++ [CR, LF])) (readLine (n + 2) (text.take n)) := by
  have hparse := parseLine_eq (nul_crlf hnul) (Nat.le_add_left 2 n)
  rwa [Nat.add_sub_cancel, List.take_append_of_le_length hle] at hparse

/-- As many bytes of the line are read as are left when its length is stored in an `unsigned int`.
-/
theorem chircMessageFromString_take (hnul : NUL ∉ text)
    (hmod : (text.length + 2) % UInt32.size = n + 2) :
    Matches (chircMessageFromString (text ++ [CR, LF])) (readLine (n + 2) (text.take n)) := by
  have hle : n + 2 ≤ text.length + 2 := hmod ▸ Nat.mod_le _ _
  have hlen : (text ++ [CR, LF]).length % UInt32.size = n + 2 := by simpa using hmod
  rw [chircMessageFromString, UInt32.toNat_ofNat', hlen]
  exact parseLine_crlf hnul (Nat.le_of_add_le_add_right hle)

/-- No room is left for the two bytes behind the text. -/
theorem chircMessageFromString_overread (hmod : s.length % UInt32.size < 2) :
    chircMessageFromString s = .error .overread := by
  rw [chircMessageFromString, UInt32.toNat_ofNat', parseLine, if_pos hmod]
  rfl

/-- All of the line is read if its length is an `unsigned int`. -/
theorem chircMessageFromString_crlf (hnul : NUL ∉ text) (hsize : text.length + 2 < UInt32.size) :
    Matches (chircMessageFromString (text ++ [CR, LF])) (readLine (text.length + 2) text) := by
  have hparse := chircMessageFromString_take hnul (Nat.mod_eq_of_lt hsize)
  rwa [List.take_length] at hparse

theorem trimSpace_crlf (body : List Byte) :
    trimSpace (body ++ [CR, LF]) = .ok (trimGo false body ++ [CR, LF]) := by
  rw [trimSpace, trimGo_crlf]
  simp

end Chirc
