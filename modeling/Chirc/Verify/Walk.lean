import Chirc.Verify.Parser
import Chirc.Walk

/-! # The walk stays inside the copy

The last two bytes of `msgstr` are NULs behind the text, and the tokenizer leaves its save pointer
behind a NUL that it wrote over a space, or on the first of the two. So what is read behind the
end of a token is a byte of the text or the second NUL. All this needs the two NULs to be there:
`unsigned int len` is too small for the length of a string of 2^32 bytes. -/

namespace Chirc

open Traced

namespace Walk

/-! ## One access -/

theorem rd_lt (h : rd mem i = .ok b) : i < mem.length := by
  rw [rd] at h
  split at h
  · next heq => exact (List.getElem?_eq_some_iff.mp heq).1
  · cases h

theorem scan_lt (h : scan p mem i = .ok j) : i ≤ j ∧ j < mem.length := by
  rw [scan] at h
  split at h
  · next k hk =>
    cases h
    have hlt := (List.findIdx?_eq_some_iff_getElem.mp hk).1
    rw [List.length_drop] at hlt
    omega
  · cases h

theorem readAt_yields (h : rd mem i = .ok b) : (readAt mem i).Yields (· < mem.length) b := by
  refine ⟨?_, h⟩
  intro j hj
  rw [List.mem_singleton.mp hj]
  exact rd_lt h

theorem writeAt_yields (h : i < mem.length) (b : Byte) :
    (writeAt mem i b).Yields (· < mem.length) (mem.set i b) := by
  refine ⟨?_, if_pos h⟩
  intro j hj
  rw [List.mem_singleton.mp hj]
  exact h

theorem scanAt_yields (h : scan p mem i = .ok j) :
    (scanAt p mem i).Yields (· < mem.length) j := by
  refine ⟨?_, h⟩
  intro k hk
  have hlt := scan_lt h
  rw [scanAt, h, List.mem_range'_1] at hk
  omega

theorem touch_yields (h : scan p mem i = .ok j) :
    (touch (List.range' i (j - i)) : Walk Unit).Yields (· < mem.length) () := by
  apply Yields.touch
  intro k hk
  have hlt := scan_lt h
  rw [List.mem_range'_1] at hk
  omega

/-! ## The tokenizer -/

theorem strtokR_yields (h : Chirc.strtokR mem s = .ok r) :
    (strtokR mem s).Yields (· < mem.length) r := by
  simp only [Chirc.strtokR, Except.bind_eq_ok] at h
  obtain ⟨n, hn, b, hb, h⟩ := h
  refine (scanAt_yields hn).bind ((readAt_yields hb).bind ?_)
  split at h
  · next hnul =>
    cases h
    rw [if_pos hnul]
    exact .pure _
  · next hnul =>
    obtain ⟨e, he, h⟩ := Except.bind_eq_ok.mp h
    obtain ⟨c, hc, h⟩ := Except.bind_eq_ok.mp h
    rw [if_neg hnul]
    refine (scanAt_yields he).bind ((readAt_yields hc).bind ?_)
    split at h
    · next hc0 =>
      cases h
      rw [if_pos hc0]
      exact .pure _
    · next hc0 =>
      cases h
      rw [if_neg hc0]
      exact (writeAt_yields (rd_lt hc) NUL).bind (.pure _)

theorem length_strtokR (h : Chirc.strtokR mem s = .ok r) : r.1.length = mem.length := by
  simp only [Chirc.strtokR, Except.bind_eq_ok] at h
  obtain ⟨n, hn, b, hb, h⟩ := h
  split at h
  · cases h
    rfl
  · obtain ⟨e, he, h⟩ := Except.bind_eq_ok.mp h
    obtain ⟨c, hc, h⟩ := Except.bind_eq_ok.mp h
    split at h
    · cases h
      rfl
    · cases h
      exact List.length_set

theorem toupperAt_yields (h : Chirc.toupperAt mem p = .ok mem') :
    (toupperAt mem p).Yields (· < mem.length) mem' := by
  obtain ⟨e, he, h⟩ := Except.bind_eq_ok.mp h
  cases h
  exact (scanAt_yields he).bind ((touch_yields he).bind (.pure _))

/-! ## The loop over the parameters -/

theorem length_restMem (rest : Rest) : (restMem rest).length = (restText rest).length + 2 := by
  cases rest with
  | none => rfl
  | some s => simp [restMem, restText]

theorem pushParam_within (cap : Nat) (params : List Nat) (p : Nat) {P : Nat → Prop} :
    (pushParam cap params p).Within P (· = .paramsOverflow) := by
  rw [pushParam]
  split
  · exact (Yields.pure _).within
  · exact .fail rfl

/-- The loop behind a token: the memory is the token with a NUL behind it, the rest of the text and
the two NULs, and each round takes a further token off the rest. -/
theorem paramLoop_within {fuel : Nat} {xs : List Byte} {tok : CStr} {rest : Rest}
    (htok : NUL ∉ tok) (hrest : NUL ∉ restText rest) (hfuel : (restText rest).length < fuel)
    (hn : (xs ++ tok ++ restMem rest).length = n) (cap : Nat) (params : List Nat) :
    (paramLoop cap fuel (xs ++ tok ++ restMem rest) xs.length
      (xs.length + tok.length + restOff rest) params).Within (· < n) (· = .paramsOverflow) := by
  induction fuel generalizing xs tok rest params with
  | zero => omega
  | succ fuel ih =>
    have hlook := rd_restMem (xs ++ tok) rest
    have htoken := strtokR_rest (xs ++ tok) hrest
    rw [List.length_append] at hlook htoken
    subst hn
    rw [paramLoop]
    refine (scanAt_yields (scan_nul htok rest)).bind_within ?_
    refine (readAt_yields hlook).bind_within ?_
    split
    · exact (pushParam_within cap _ _).bind fun _ _ => (Yields.pure _).within
    · rcases htoken with ⟨-, m, hstr⟩ | ⟨ys, tok', rest', -, hstr, hys, htok', hrest'⟩
      · exact (strtokR_yields hstr).bind_within (Yields.pure _).within
      · refine (strtokR_yields hstr).bind_within ?_
        refine (pushParam_within cap _ _).bind fun params' _ => ?_
        have hlen : (ys ++ tok' ++ restMem rest').length = (xs ++ tok ++ restMem rest).length :=
          length_strtokR hstr
        have hshort : (restText rest').length < fuel := by
          have hle := hys.length_le
          have hmem := length_restMem rest
          have hmem' := length_restMem rest'
          simp only [List.length_append, List.length_singleton] at hlen hle
          omega
        exact ih htok' hrest' hshort hlen params'

/-- The command is turned into upper case first, which keeps the shape of the memory. -/
theorem parseCommand_within {fuel : Nat} {xs : List Byte} {cmd : CStr} {rest : Rest}
    (hcmd : NUL ∉ cmd) (hrest : NUL ∉ restText rest) (hfuel : (restText rest).length < fuel)
    (hn : (xs ++ cmd ++ restMem rest).length = n) (cap : Nat) (pfx : Option Nat) :
    (parseCommand cap fuel (xs ++ cmd ++ restMem rest) pfx xs.length
      (xs.length + cmd.length + restOff rest)).Within (· < n) (· = .paramsOverflow) := by
  have hup : Chirc.toupperAt (xs ++ cmd ++ restMem rest) xs.length =
      .ok (xs ++ cmd.map toupper ++ restMem rest) := by
    cases rest with
    | none => exact toupperAt_eq hcmd
    | some s => exact toupperAt_eq hcmd
  have hcmd' : NUL ∉ cmd.map toupper := by
    intro h
    obtain ⟨b, hb, h⟩ := List.mem_map.mp h
    exact toupper_ne_nul (fun hb0 => hcmd (hb0 ▸ hb)) h
  have hn' : (xs ++ cmd.map toupper ++ restMem rest).length = n := by simpa using hn
  have hloop := paramLoop_within hcmd' hrest hfuel hn' cap []
  rw [List.length_map] at hloop
  subst hn
  exact (toupperAt_yields hup).bind_within (hloop.bind fun _ _ => (Yields.pure _).within)

/-! ## The copy -/

theorem len_toNat (s : CStr) : (len s).toNat = s.length % UInt32.size := UInt32.toNat_ofNat'

theorem sub_two_toNat {n : UInt32} (h : 2 ≤ n.toNat) : (n - 2).toNat = n.toNat - 2 :=
  UInt32.toNat_sub_of_le n 2 (UInt32.le_iff_toNat_le.mpr h)

theorem sub_one_toNat {n : UInt32} (h : 2 ≤ n.toNat) : (n - 1).toNat = n.toNat - 1 :=
  UInt32.toNat_sub_of_le n 1 (UInt32.le_iff_toNat_le.mpr (Nat.le_of_succ_le h))

/-- A size below 2 wraps around, and `strncpy` is to write more bytes than there are. -/
theorem lt_sub_two {n : UInt32} (h : n.toNat < 2) : n.toNat < (n - 2).toNat := by
  have hsub := UInt32.toNat_sub n 2
  have htwo : (2 : UInt32).toNat = 2 := rfl
  omega

theorem strncpy_yields {mem : List Byte} {s : CStr} (hs : n ≤ s.length) (hmem : n ≤ mem.length) :
    (strncpy mem s n).Yields (· < mem.length) (s.take n ++ mem.drop n) := by
  refine ⟨?_, ?_⟩
  · intro i hi
    have hlt := List.mem_range.mp hi
    omega
  · have hpad : n - s.length = 0 := Nat.sub_eq_zero_of_le hs
    rw [strncpy, if_pos hmem, hpad, List.replicate_zero, List.append_nil]

/-- The text with the two NULs behind it, whatever was there before. -/
theorem set_set_nul {text junk : List Byte} (hjunk : junk.length = 2) :
    ((text ++ junk).set text.length NUL).set (text.length + 1) NUL = text ++ [NUL, NUL] := by
  match junk, hjunk with
  | [b, c], _ => simp

/-! ## The whole walk -/

theorem length_restText_lt {xs : List Byte} (hn : (xs ++ restMem rest).length = n) :
    (restText rest).length < n := by
  rw [List.length_append, length_restMem] at hn
  omega

theorem parseCopy_within {text : CStr} (htext : NUL ∉ text) (hn : text.length + 2 = n) (cap : Nat) :
    (parseCopy cap n (text ++ [NUL, NUL])).Within (· < n) (· = .paramsOverflow) := by
  have hmem : (text ++ [NUL, NUL]).length = n := by simpa using hn
  rw [parseCopy]
  rcases strtokR_start htext with
    ⟨-, m, hstr⟩ | ⟨k, b, tok, rest, -, hstr, hread, hnul, hrest⟩
  · exact (hmem ▸ strtokR_yields hstr).bind_within (Yields.pure _).within
  · have hlen : (List.replicate k SP ++ b :: tok ++ restMem rest).length = n :=
      (length_strtokR hstr).trans hmem
    refine (hmem ▸ strtokR_yields hstr).bind_within ?_
    refine (hlen ▸ readAt_yields hread).bind_within ?_
    split
    · rcases strtokR_rest (List.replicate k SP ++ b :: tok) hrest with
        ⟨-, m, hstr⟩ | ⟨ys, cmd, rest', -, hstr, hys, hcmd, hrest'⟩
      · exact (hlen ▸ strtokR_yields hstr).bind_within (Yields.pure _).within
      · have hlen' : (ys ++ cmd ++ restMem rest').length = n := (length_strtokR hstr).trans hlen
        refine (hlen ▸ strtokR_yields hstr).bind_within ?_
        exact parseCommand_within hcmd hrest' (length_restText_lt hlen') hlen' cap _
    · simpa using parseCommand_within hnul hrest (length_restText_lt hlen) hlen cap none

variable {s : CStr}

/-- The text and the two NULs, if there is room for them in the copy -/
theorem copyLine_yields (hlen : 2 ≤ (len s).toNat) (junk : Nat → Byte) :
    (copyLine junk s).Yields (· < (len s).toNat)
      (s.take ((len s).toNat - 2) ++ [NUL, NUL]) := by
  rw [copyLine, sub_two_toNat hlen, sub_one_toNat hlen]
  have hle : (len s).toNat ≤ s.length := len_toNat s ▸ Nat.mod_le _ _
  generalize (len s).toNat = n at *
  obtain ⟨m, rfl⟩ := Nat.exists_eq_add_of_le' hlen
  have hmalloc : ((List.range (m + 2)).map junk).length = m + 2 := by simp
  generalize (List.range (m + 2)).map junk = msgstr at *
  have hjunk : (msgstr.drop m).length = 2 := by rw [List.length_drop, hmalloc]; omega
  have hcopy : (strncpy msgstr s m).Yields (· < m + 2) (s.take m ++ msgstr.drop m) :=
    hmalloc ▸ strncpy_yields (by omega) (by omega)
  have htextlen : (s.take m).length = m := List.length_take_of_le (by omega)
  rw [Nat.add_sub_cancel]
  generalize s.take m = text at *
  subst htextlen
  generalize msgstr.drop text.length = rest at *
  have hfst : text.length < (text ++ rest).length := by simp [hjunk]
  have hsnd : text.length + 1 < ((text ++ rest).set text.length NUL).length := by simp [hjunk]
  have hwrite := writeAt_yields hfst NUL
  have hwrite' := writeAt_yields hsnd NUL
  rw [set_set_nul hjunk] at hwrite'
  simp only [List.length_set, List.length_append, hjunk] at hwrite hwrite'
  exact hcopy.bind (hwrite.bind hwrite')

theorem length_take_len (hlen : 2 ≤ (len s).toNat) :
    (s.take ((len s).toNat - 2)).length + 2 = (len s).toNat := by
  have hle : (len s).toNat ≤ s.length := len_toNat s ▸ Nat.mod_le _ _
  rw [List.length_take_of_le (by omega)]
  omega

/-- Without that room `strncpy` runs off the end of the copy. -/
theorem not_within_of_lt (hlen : (len s).toNat < 2) (cap : Nat) (junk : Nat → Byte) :
    ¬ (chircMessageFromString cap junk s).Within (· < (len s).toNat) (· = .paramsOverflow) := by
  intro H
  have hwritten : (len s).toNat ∈ List.range (len s - 2).toNat :=
    List.mem_range.mpr (lt_sub_two hlen)
  exact Nat.lt_irrefl _ (H.log _ (mem_log_bind _ (mem_log_bind _ hwritten)))

/-- **The walk is inside the copy exactly if the length of the line, as an `unsigned int`, is at
least 2**, whatever the capacity of `params` is. -/
theorem within_msgstr_iff (hs : NUL ∉ s) (cap : Nat) (junk : Nat → Byte) :
    (chircMessageFromString cap junk s).Within (· < (len s).toNat) (· = .paramsOverflow) ↔
      2 ≤ s.length % UInt32.size := by
  rw [← len_toNat]
  constructor
  · intro H
    by_contra hlen
    exact not_within_of_lt (Nat.lt_of_not_le hlen) cap junk H
  · intro hlen
    have htext : NUL ∉ s.take ((len s).toNat - 2) := fun h => hs (List.mem_of_mem_take h)
    exact (copyLine_yields hlen junk).bind_within
      (parseCopy_within htext (length_take_len hlen) cap)

/-- A line with a prefix and a trailing separator, into memory that holds letters. -/
theorem within_msgstr_ping :
    (chircMessageFromString 15 (fun _ => 65) (lit ":amy  ping a :b \r\n")).Within
      (· < (len (lit ":amy  ping a :b \r\n")).toNat) (· = .paramsOverflow) :=
  (within_msgstr_iff (by decide) 15 fun _ => 65).mpr (by decide)

/-- A line of 2^32 bytes: `malloc(0)`, and 2^32 - 2 bytes are copied to what it returns. -/
theorem not_within_msgstr_replicate :
    ¬ ∀ s : CStr, NUL ∉ s → 2 ≤ s.length →
      (chircMessageFromString 15 (fun _ => 65) s).Within (· < (len s).toNat)
        (· = .paramsOverflow) := by
  intro H
  have hlength : (List.replicate UInt32.size (65 : Byte)).length = UInt32.size :=
    List.length_replicate
  have hlen : (len (List.replicate UInt32.size 65)).toNat < 2 := by
    rw [len_toNat, hlength, Nat.mod_self]
    exact Nat.two_pos
  refine not_within_of_lt hlen 15 (fun _ => 65) (H _ ?_ ?_)
  · intro hmem
    exact absurd (List.eq_of_mem_replicate hmem) (by decide)
  · rw [hlength]
    exact Nat.le_of_ble_eq_true rfl

/-! ## The same parser

Where the copy has room for the two NULs, and with the 15 entries of `params`, the results are those
of the parser that takes the copy for made. -/

theorem strtokR_result (mem : List Byte) (s : Nat) :
    (strtokR mem s).result = Chirc.strtokR mem s := by
  simp only [strtokR, Chirc.strtokR, bind_result]
  refine bind_congr fun n => bind_congr fun b => ?_
  split
  · rfl
  · simp only [bind_result]
    refine bind_congr fun e => ?_
    -- the byte that ends the token is there to be overwritten
    cases hc : rd mem e with
    | error f => simp [readAt, hc]
    | ok c =>
      simp only [readAt, hc, Res.ok_bind]
      split
      · rfl
      · simp [writeAt, rd_lt hc]

theorem toupperAt_result (mem : List Byte) (p : Nat) :
    (toupperAt mem p).result = Chirc.toupperAt mem p := by
  rw [toupperAt, Chirc.toupperAt, bind_result]
  rfl

theorem pushParam_result (params : List Nat) (p : Nat) :
    (pushParam 15 params p).result = Chirc.pushParam params p := by
  rw [pushParam, Chirc.pushParam]
  split <;> rfl

theorem paramLoop_result (fuel : Nat) (mem : List Byte) (pch save : Nat) (params : List Nat) :
    (paramLoop 15 fuel mem pch save params).result = Chirc.paramLoop fuel mem pch save params := by
  induction fuel generalizing mem pch save params with
  | zero => rfl
  | succ fuel ih =>
    rw [paramLoop, Chirc.paramLoop, bind_result]
    refine bind_congr fun e => ?_
    rw [bind_result]
    refine bind_congr fun b => ?_
    split
    · rw [bind_result, pushParam_result]
      rfl
    · rw [bind_result, strtokR_result]
      refine bind_congr fun r => ?_
      obtain ⟨mem', pch', save'⟩ := r
      cases pch' with
      | none => rfl
      | some p => simp only [bind_result, pushParam_result, ih]

theorem parseCommand_result (fuel : Nat) (mem : List Byte) (pfx : Option Nat) (cmd save : Nat) :
    (parseCommand 15 fuel mem pfx cmd save).result =
      Chirc.parseCommand fuel mem pfx cmd save := by
  rw [parseCommand, Chirc.parseCommand, bind_result, toupperAt_result]
  refine bind_congr fun mem' => ?_
  rw [bind_result, paramLoop_result]
  rfl

theorem chircMessageFromString_result (hlen : 2 ≤ (len s).toNat) (junk : Nat → Byte) :
    (chircMessageFromString 15 junk s).result = Chirc.chircMessageFromString s := by
  have hcopy := copyLine_yields hlen junk
  rw [chircMessageFromString, bind_result, hcopy.result, Chirc.chircMessageFromString, parseLine]
  change _ = ite ((len s).toNat < 2) _ _
  simp only [Nat.not_lt.mpr hlen, if_false, Res.ok_bind]
  rw [parseCopy, bind_result, strtokR_result]
  refine bind_congr fun r => ?_
  obtain ⟨mem, pch, save⟩ := r
  cases pch with
  | none => rfl
  | some p =>
    rw [bind_result]
    refine bind_congr fun b => ?_
    split
    · rw [bind_result, strtokR_result]
      refine bind_congr fun r => ?_
      obtain ⟨mem', cmd, save'⟩ := r
      cases cmd with
      | none => rfl
      | some c => exact parseCommand_result _ _ _ _ _
    · exact parseCommand_result _ _ _ _ _

end Walk

end Chirc
