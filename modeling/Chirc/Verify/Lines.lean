import Chirc.Server.Loop
import Chirc.Theory.PrefixCode

/-! # Lines

What the searches for CRLF and the trimming of spaces do to the bytes of a line: a CRLF that is
found ends the first line, and a trimmed line has a CRLF at its end only. -/

namespace Chirc

open PrefixCode

/-! ## The search for CRLF -/

theorem crlf_prefix_iff : [CR, LF] <+: b :: bs ↔ b = CR ∧ bs.head? = some LF := by
  rw [List.cons_prefix_cons, eq_comm]
  cases bs with
  | nil => simp
  | cons c cs => simp [List.cons_prefix_cons, eq_comm]

/-- The CRLF that is found ends the first line. -/
theorem terminated_of_crlfIdx (h : crlfIdx buf = some p) :
    Terminated CR LF (buf.take (p + 2)) ∧ p + 2 ≤ buf.length := by
  induction buf generalizing p with
  | nil => cases h
  | cons b bs ih =>
    rw [crlfIdx] at h
    split at h
    · cases h
    · split at h
      · next hcrlf =>
        cases h
        obtain ⟨t, ht⟩ := crlf_prefix_iff.mpr hcrlf
        rw [← ht]
        exact ⟨⟨[], rfl, by decide⟩, by simp⟩
      · next hcrlf =>
        obtain ⟨q, hq, rfl⟩ := Option.map_eq_some_iff.mp h
        obtain ⟨⟨body, htake, hbody⟩, hlen⟩ := ih hq
        refine ⟨⟨b :: body, by simp [htake], fun hinfix => ?_⟩, by simpa using hlen⟩
        rcases List.infix_cons_iff.mp hinfix with hpre | hinfix
        · have hbs : body ++ [CR] <+: bs :=
            .trans ⟨[LF], by simp⟩ (htake ▸ List.take_prefix (q + 2) bs)
          exact hcrlf (crlf_prefix_iff.mp (hpre.trans ((List.prefix_cons_inj b).mpr hbs)))
        · exact hbody hinfix

theorem not_infix_of_crlfIdx (hnul : NUL ∉ buf) (h : crlfIdx buf = none) :
    ¬ [CR, LF] <:+: buf := by
  induction buf with
  | nil => simp
  | cons b bs ih =>
    rw [crlfIdx, if_neg (by rintro rfl; simp at hnul)] at h
    split at h
    · cases h
    · next hcrlf =>
      intro hinfix
      rcases List.infix_cons_iff.mp hinfix with hpre | hinfix
      · exact hcrlf (crlf_prefix_iff.mp hpre)
      · exact ih (fun hmem => hnul (List.mem_cons_of_mem _ hmem)) (by simpa using h) hinfix

theorem crlfIdx_of_not_mem (hlf : LF ∉ s) : crlfIdx s = none := by
  induction s with
  | nil => rfl
  | cons b bs ih =>
    have hbs : LF ∉ bs := fun hmem => hlf (List.mem_cons_of_mem _ hmem)
    have hcrlf : ¬ (b = CR ∧ bs.head? = some LF) := fun h => hbs (List.mem_of_mem_head? h.2)
    rw [crlfIdx, ih hbs, if_neg hcrlf]
    split <;> rfl

/-- Text without a newline behind the input makes no difference. -/
theorem crlfIdx_append (hlf : LF ∉ s) : crlfIdx (u ++ s) = crlfIdx u := by
  induction u with
  | nil => exact crlfIdx_of_not_mem hlf
  | cons b bs ih =>
    have hhead : (bs ++ s).head? = some LF ↔ bs.head? = some LF := by
      cases bs with
      | nil =>
        refine iff_of_false (fun h => hlf (List.mem_of_mem_head? h)) nofun
      | cons c cs => rfl
    rw [List.cons_append, crlfIdx, crlfIdx, ih]
    simp only [hhead]

theorem strstrCrlf_eq_some : strstrCrlf buf = .ok (some p) ↔ crlfIdx buf = some p := by
  rw [strstrCrlf]
  split
  · next q hq => simp [hq]
  · next hq => split <;> simp [hq]

theorem crlfIdx_of_strstrCrlf (h : strstrCrlf buf = .ok none) : crlfIdx buf = none := by
  rw [strstrCrlf] at h
  split at h
  · cases h
  · next hq => exact hq

/-! ## Trimming -/

/-- The final CRLF is kept. -/
theorem trimGo_crlf (inRun : Bool) (body : List Byte) :
    trimGo inRun (body ++ [CR, LF]) = trimGo inRun body ++ [CR, LF] := by
  induction body generalizing inRun with
  | nil => rfl
  | cons b bs ih =>
    rw [List.cons_append, trimGo, trimGo]
    split
    · split
      · rw [ih, List.cons_append]
      · exact ih false
    · rw [ih, List.cons_append]

/-- No CRLF comes about at the beginning by trimming. -/
theorem infix_of_trimGo (h : trimGo false body = CR :: LF :: rest) : [CR, LF] <:+: body := by
  induction body with
  | nil => cases h
  | cons b bs ih =>
    rw [trimGo] at h
    split at h
    · exact (ih h).trans (List.suffix_cons b bs).isInfix
    · obtain ⟨rfl, htail⟩ := List.cons.inj h
      cases bs with
      | nil => cases htail
      | cons c cs =>
        rw [trimGo] at htail
        split at htail
        · exact absurd (List.cons.inj htail).1 (by decide)
        · obtain ⟨rfl, -⟩ := List.cons.inj htail
          exact (List.prefix_append [CR, LF] cs).isInfix

/-- What the trimming of a line leaves. -/
theorem trimSpace_of_terminated (h : Terminated CR LF line) :
    trimSpace line = .ok (trimGo false line) := by
  obtain ⟨body, rfl, -⟩ := h
  rw [trimSpace, trimGo_crlf]
  simp

/-- A trimmed line begins with a CRLF only if nothing else is left of it. -/
theorem crlfIdx_trimGo (h : Terminated CR LF line) :
    crlfIdx (trimGo false line) = some 0 ↔ trimGo false line = [CR, LF] := by
  obtain ⟨body, rfl, hbody⟩ := h
  rw [trimGo_crlf]
  constructor
  · intro h
    obtain ⟨⟨w, hw, -⟩, -⟩ := terminated_of_crlfIdx h
    have hpre : [CR, LF] <+: trimGo false body ++ [CR, LF] := by
      have hlen : w.length = 0 := by simpa using congrArg List.length hw.symm
      rw [List.length_eq_zero_iff.mp hlen] at hw
      exact List.prefix_iff_eq_take.mpr hw.symm
    match hT : trimGo false body with
    | [] => rfl
    | [b] =>
      rw [hT] at hpre
      exact absurd (crlf_prefix_iff.mp hpre).2 (by decide)
    | b :: c :: rest =>
      rw [hT] at hpre
      obtain ⟨rfl, hc⟩ := crlf_prefix_iff.mp hpre
      cases hc
      exact absurd ((infix_of_trimGo hT).trans (List.prefix_append body [CR]).isInfix) hbody
  · intro h
    rw [h]
    rfl

end Chirc
