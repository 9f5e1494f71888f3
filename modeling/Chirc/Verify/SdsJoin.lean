import Chirc.Verify.SdsSplit

/-! # Splits and joins

The array that `sdssplitlen` gives is freed by `sdsfreesplitres`, and joined again by `sdsjoinsds`.
-/

namespace Chirc.Sds

open Allocation (Heap Adds)
open Splitting (split splitAux)

/-- **A split leaks nothing.** `sdssplitlen` reads and writes within its blocks; when `malloc`
refuses what it is asked for, at whatever point, it gives NULL and has freed what it had allocated.
Otherwise it gives the array with the parts of the string, which `sdsfreesplitres` frees together
with the array. -/
theorem sdssplitlen_frees {w sep : List Byte} (hsep : sep ≠ []) (hlen : w.length < 1073741823)
    (mallocs : Nat → Malloc) (h : Heap Contents) (post post' : List Byte) :
    ∃ r, sdssplitlen mallocs h (w ++ post) w.length (sep ++ post') sep.length = .ok r ∧
      (r.tokens = none ∧ r.heap.block = h.block ∧ Fails mallocs h r.heap ∨
        ∃ a ps h', r.heap.refused = h.refused ∧ r.tokens = some a ∧
          r.count = some (partsOf sep w).length ∧
          (∀ i p, ps[i]? = some p → entryAt r.heap a i = .ok (.str p)) ∧
          List.Forall₂ (StringAt r.heap) ps (partsOf sep w) ∧
          sdsfreesplitres r.heap a (partsOf sep w).length = .ok h' ∧ h'.block = h.block) := by
  obtain ⟨r, hr, hnull | htokens⟩ := sdssplitlen_cases hsep hlen mallocs h post post'
  · exact ⟨r, hr, .inl ⟨hnull.1, hnull.2.1, hnull.2.2.1⟩⟩
  · obtain ⟨a, slots, ps, ha, hcount, hrefused, H⟩ := htokens
    obtain ⟨h', hfree, hblock⟩ := H.sdsfreesplitres
    refine ⟨r, hr, .inr ⟨a, ps, h', hrefused, ha, hcount, fun i p hp => ?_, H.parts, hfree, hblock⟩⟩
    obtain ⟨rest, harray, -⟩ := H.arrayAt_eq
    obtain ⟨hi, hpi⟩ := List.getElem?_eq_some_iff.mp hp
    rw [entryAt, harray]
    change inBounds (ps.map Entry.str ++ rest)[i]? = _
    rw [getElem?_entries hi, hpi]
    rfl

theorem not_fails_freshMemory (h h' : Heap Contents) : ¬ Fails (fun _ => freshMemory) h h' := by
  intro hfail
  obtain ⟨_, size, -, hnone⟩ := hfail
  exact freshMemory_run size hnone

theorem sdssplitlen_frees_commas : ∃ r a ps h',
    sdssplitlen (fun _ => freshMemory) Heap.empty (lit "a,,b" ++ [NUL]) (lit "a,,b").length
      (lit "," ++ [NUL]) (lit ",").length = .ok r ∧
    r.tokens = some a ∧ r.count = some 3 ∧
    List.Forall₂ (StringAt r.heap) ps [lit "a", [], lit "b"] ∧
    sdsfreesplitres r.heap a 3 = .ok h' ∧ h'.block = Heap.empty.block := by
  have hparts : partsOf (lit ",") (lit "a,,b") = [lit "a", [], lit "b"] := by decide
  have hsep : lit "," ≠ [] := by decide
  have hlen : (lit "a,,b").length < 1073741823 := by decide
  obtain ⟨r, hr, hnull | htokens⟩ := sdssplitlen_frees hsep hlen (fun _ => freshMemory) Heap.empty
    [NUL] [NUL]
  · exact absurd hnull.2.2 (not_fails_freshMemory _ _)
  · obtain ⟨a, ps, h', -, ha, hcount, -, hps, hfree, hblock⟩ := htokens
    rw [hparts] at hcount hps hfree
    exact ⟨r, a, ps, h', hr, ha, hcount, hps, hfree, hblock⟩

/-! ## Joins -/

/-- What is joined before the part with the number `j` -/
def joinedBefore (sep : List Byte) (parts : List (List Byte)) (j : Nat) : List Byte :=
  (parts.take j).flatMap (· ++ sep)

/-- What is joined after `j` rounds -/
def joined (sep : List Byte) (parts : List (List Byte)) (j : Nat) : List Byte :=
  if j = parts.length then sep.intercalate parts else joinedBefore sep parts j

theorem intercalate_append (sep : List Byte) (xs : List (List Byte)) {ys : List (List Byte)}
    (hys : ys ≠ []) : sep.intercalate (xs ++ ys) = xs.flatMap (· ++ sep) ++ sep.intercalate ys := by
  induction xs with
  | nil => rfl
  | cons x xs ih =>
    have hne : xs ++ ys ≠ [] := fun h => hys (List.append_eq_nil_iff.mp h).2
    rw [List.cons_append, List.intercalate_cons_of_ne_nil hne, ih, List.flatMap_cons,
      List.append_assoc, List.append_assoc, List.append_assoc]

section

variable {sep : List Byte} {parts : List (List Byte)}

/-- The joined string before the part with the number `j`, and from there on -/
theorem intercalate_split_at (hj : j < parts.length) :
    sep.intercalate parts = joinedBefore sep parts j ++ sep.intercalate (parts.drop j) := by
  have hne : parts.drop j ≠ [] := by
    rw [List.drop_eq_getElem_cons hj]
    exact nofun
  rw [joinedBefore, ← intercalate_append sep _ hne, List.take_append_drop]

theorem intercalate_last (hj : j + 1 = parts.length) :
    sep.intercalate parts = joinedBefore sep parts j ++ parts[j] := by
  rw [intercalate_split_at (show j < parts.length by omega),
    List.drop_eq_getElem_cons (by omega), hj, List.drop_length, List.intercalate_singleton]

theorem joinedBefore_succ (hj : j < parts.length) :
    joinedBefore sep parts (j + 1) = joinedBefore sep parts j ++ parts[j] ++ sep := by
  rw [joinedBefore, joinedBefore, List.take_add_one, List.getElem?_eq_getElem hj,
    Option.toList_some, List.flatMap_append, List.flatMap_singleton, List.append_assoc]

/-- What is joined is never longer than in the end. -/
theorem length_joinedBefore_le (hj : j < parts.length) :
    (joinedBefore sep parts j).length ≤ (sep.intercalate parts).length := by
  rw [intercalate_split_at hj, List.length_append]
  exact Nat.le_add_right _ _

variable {base h : Heap Contents} {ps : List Ptr} (mallocs : Nat → Malloc)

theorem Tokens.argAt (H : Tokens base h a slots ps parts) (hj : j < parts.length) :
    ∃ L : Layout, argAt h a j = .ok L.sds ∧ L.content = parts[j] := by
  have hj' : j < ps.length := by rwa [H.parts.length_eq]
  obtain ⟨L, hL, hcontent⟩ := (List.forall₂_iff_get.mp H.parts).2 j hj' hj |>.sdsAt
  refine ⟨L, ?_, hcontent⟩
  rw [Sds.argAt, H.entryAt_eq hj']
  exact hL

theorem Layout.sdscatsds_sds (L M : Layout) (malloc : Malloc)
    (hsize : L.content.length + M.content.length + 1048594 < 18446744073709551616) :
    Outcome malloc (sdscatsds malloc L.sds M.sds) fun N => N.content = L.content ++ M.content := by
  rw [sdscatsds, M.sdslen_sds, Stop.ok_bind]
  exact L.sdscatlen_sds malloc M.load_content hsize

/-- `malloc` refuses what one of its calls asks for: the result is NULL, if that is the last call,
or a crash because nothing tests for NULL. -/
def NoMemory (mallocs : Nat → Malloc) (lastCall : Nat) (res : Except Stop (Given Sds)) : Prop :=
  ∃ call size, (mallocs call).run size = none ∧
    (res = .error (.noMemory call size) ∨ call = lastCall ∧ res = .ok (.null size))

/-- The number of the last call of `malloc` in the first `j` rounds -/
def lastCall (argc j : Nat) : Nat := if j = argc then 2 * j - 1 else 2 * j

theorem joinRound_cases (H : Tokens base h a slots ps parts) (hj : j < parts.length)
    (hsize : (sep.intercalate parts).length + sep.length + 1048594 < 18446744073709551616)
    (post : List Byte) {M : Layout} (hM : M.content = joinedBefore sep parts j) :
    NoMemory mallocs (lastCall parts.length (j + 1))
        (joinRound mallocs h a parts.length (sep ++ post) sep.length (.ptr M.sds) j) ∨
      ∃ N : Layout, joinRound mallocs h a parts.length (sep ++ post) sep.length (.ptr M.sds) j =
        .ok (.ptr N.sds) ∧ N.content = joined sep parts (j + 1) := by
  obtain ⟨L, hL, hpart⟩ := H.argAt hj
  have hle : (joinedBefore sep parts j).length + parts[j].length ≤
      (sep.intercalate parts).length := by
    by_cases hlast : j + 1 = parts.length
    · rw [intercalate_last hlast, List.length_append]
    · have hlt : j + 1 < parts.length := by omega
      have hle : (joinedBefore sep parts (j + 1)).length ≤ _ := length_joinedBefore_le hlt
      rw [joinedBefore_succ hj, List.length_append, List.length_append] at hle
      omega
  rw [← hM, ← hpart] at hle
  rw [joinRound]
  rw [hL, Stop.ok_bind]
  cases M.sdscatsds_sds L (mallocs (2 * j + 1)) (by omega) with
  | inl hnull =>
    obtain ⟨size, hnull, hfail⟩ := hnull
    refine .inl ⟨_, size, hfail, ?_⟩
    rw [hnull, Stop.ok_bind]
    split
    · next hlast => exact .inr ⟨(if_pos hlast).symm, rfl⟩
    · exact .inl rfl
  | inr hcat =>
    obtain ⟨N, hcat, hN⟩ := hcat
    rw [hM, hpart] at hN
    rw [hcat, Stop.ok_bind]
    by_cases hlast : j + 1 = parts.length
    · refine .inr ⟨N, if_pos hlast, ?_⟩
      rw [hN, joined, if_pos hlast, intercalate_last hlast]
    · have hload : load (sep ++ post) 0 sep.length = .ok sep :=
        load_of_eq [] post rfl rfl rfl
      have hN' : N.content.length ≤ (sep.intercalate parts).length := by
        rw [hN, List.length_append]
        rwa [hM, hpart] at hle
      cases N.sdscatlen_sds (mallocs (2 * j + 2)) hload (by omega) with
      | inl hnull =>
        obtain ⟨size, hnull, hfail⟩ := hnull
        refine .inl ⟨_, size, hfail, .inr ⟨?_, (if_neg hlast).trans hnull⟩⟩
        rw [lastCall, if_neg hlast, Nat.mul_succ]
      | inr hsep =>
        obtain ⟨N', hsep, hcontent⟩ := hsep
        refine .inr ⟨N', (if_neg hlast).trans hsep, ?_⟩
        rw [hcontent, hN, joined, if_neg hlast, joinedBefore_succ hj]

/-- The first `j` rounds of `sdsjoinsds` -/
def joinUpTo (mallocs : Nat → Malloc) (h : Heap Contents) (a argc : Nat) (sep : List Byte)
    (seplen j : Nat) : Except Stop (Given Sds) := do
  let join ← sdsempty (mallocs 0)
  (List.range j).foldlM (joinRound mallocs h a argc sep seplen) join

theorem joinUpTo_succ (mallocs : Nat → Malloc) (h : Heap Contents) (a argc : Nat) (sep : List Byte)
    (seplen j : Nat) : joinUpTo mallocs h a argc sep seplen (j + 1) =
      joinUpTo mallocs h a argc sep seplen j >>=
        fun join => joinRound mallocs h a argc sep seplen join j := by
  rw [joinUpTo, joinUpTo, bind_assoc]
  congr
  funext join
  exact Counting.foldlM_range_succ _ j join

theorem joinUpTo_cases (H : Tokens base h a slots ps parts)
    (hsize : (sep.intercalate parts).length + sep.length + 1048594 < 18446744073709551616)
    (post : List Byte) (hj : j ≤ parts.length) :
    NoMemory mallocs (lastCall parts.length j)
        (joinUpTo mallocs h a parts.length (sep ++ post) sep.length j) ∨
      ∃ N : Layout, joinUpTo mallocs h a parts.length (sep ++ post) sep.length j =
        .ok (.ptr N.sds) ∧ N.content = joined sep parts j := by
  induction j with
  | zero =>
    have hload : load [NUL] 0 ([] : List Byte).length = .ok [] := rfl
    cases sdsnewlen_ptr (mallocs 0) hload (by decide) with
    | inl hnull =>
      obtain ⟨size, hnull, hfail⟩ := hnull
      refine .inl ⟨_, size, hfail, .inr ⟨?_, ?_⟩⟩
      · rw [lastCall]
        split <;> rfl
      · rw [joinUpTo, sdsempty]
        change (sdsnewlen _ _ ([] : List Byte).length >>= _) = _
        rw [hnull]
        rfl
    | inr hnew =>
      obtain ⟨N, hnew, hcontent⟩ := hnew
      refine .inr ⟨N, ?_, ?_⟩
      · rw [joinUpTo, sdsempty]
        change (sdsnewlen _ _ ([] : List Byte).length >>= _) = _
        rw [hnew]
        rfl
      · rw [hcontent, joined]
        split
        · next h0 => rw [List.length_eq_zero_iff.mp h0.symm, List.intercalate_nil]
        · rfl
  | succ j ih =>
    rw [joinUpTo_succ]
    cases ih (Nat.le_of_succ_le hj) with
    | inl hnull =>
      obtain ⟨call, size, hfail, hcrash | ⟨rfl, hnull⟩⟩ := hnull
      · rw [hcrash]
        exact .inl ⟨call, size, hfail, .inl rfl⟩
      · rw [hnull]
        refine .inl ⟨_, size, hfail, .inl ?_⟩
        rw [lastCall, if_neg (by omega)]
        rfl
    | inr hN =>
      obtain ⟨N, hrun, hcontent⟩ := hN
      rw [joined, if_neg (by omega)] at hcontent
      rw [hrun, Stop.ok_bind]
      exact joinRound_cases mallocs H hj hsize post hcontent

/-- `sdsjoinsds`: the strings with the separator between them -/
theorem sdsjoinsds_cases (H : Tokens base h a slots ps parts)
    (hsize : (sep.intercalate parts).length + sep.length + 1048594 < 18446744073709551616)
    (post : List Byte) :
    NoMemory mallocs (2 * parts.length - 1)
        (sdsjoinsds mallocs h a parts.length (sep ++ post) sep.length) ∨
      ∃ N : Layout, sdsjoinsds mallocs h a parts.length (sep ++ post) sep.length =
        .ok (.ptr N.sds) ∧ N.content = sep.intercalate parts := by
  have hall := joinUpTo_cases mallocs H hsize post (Nat.le_refl _)
  rw [joined, if_pos rfl, lastCall, if_pos rfl] at hall
  exact hall

end

/-- The parts with the separator between them are the string. -/
theorem intercalate_partsOf {sep : List Byte} (hsep : sep ≠ []) (w : List Byte) :
    sep.intercalate (partsOf sep w) = w := by
  rw [partsOf]
  split
  · next h0 => rw [h0, List.intercalate_nil]
  · exact Splitting.intercalate_split hsep w

/-- **A join undoes a split.** Unless `malloc` refuses memory for the array, for a part or for the
joined string, `sdsjoinsds` on what `sdssplitlen` gives makes a string with the bytes that were
split, and none of the parts contains the separator. -/
theorem sdsjoinsds_sdssplitlen {w sep : List Byte} (hsep : sep ≠ []) (hlen : w.length < 1073741823)
    (hsize : sep.length < 1073741823) (mallocs mallocs' : Nat → Malloc) (h : Heap Contents)
    (post post' : List Byte) :
    ∃ r, sdssplitlen mallocs h (w ++ post) w.length (sep ++ post') sep.length = .ok r ∧
      (r.tokens = none ∧ Fails mallocs h r.heap ∨
        ∃ a ps, r.heap.refused = h.refused ∧ r.tokens = some a ∧
          r.count = some (partsOf sep w).length ∧
          List.Forall₂ (StringAt r.heap) ps (partsOf sep w) ∧
          (∀ part ∈ partsOf sep w, ¬ sep <:+: part) ∧
          (NoMemory mallocs' (2 * (partsOf sep w).length - 1) (sdsjoinsds mallocs' r.heap a
              (partsOf sep w).length (sep ++ post') sep.length) ∨
            ∃ x, sdsjoinsds mallocs' r.heap a (partsOf sep w).length (sep ++ post') sep.length =
              .ok (.ptr x) ∧ sdslen x = .ok w.length ∧ load x.sh x.s w.length = .ok w)) := by
  obtain ⟨r, hr, hnull | htokens⟩ := sdssplitlen_cases hsep hlen mallocs h post post'
  · exact ⟨r, hr, .inl ⟨hnull.1, hnull.2.2.1⟩⟩
  · obtain ⟨a, slots, ps, ha, hcount, hrefused, H⟩ := htokens
    refine ⟨r, hr, .inr ⟨a, ps, hrefused, ha, hcount, H.parts, ?_, ?_⟩⟩
    · intro part hpart
      rw [partsOf] at hpart
      split at hpart
      · cases hpart
      · exact Splitting.not_infix_of_mem_split hsep hpart
    · have hw := intercalate_partsOf hsep w
      cases sdsjoinsds_cases mallocs' H (by rw [hw]; omega) post' with
      | inl hnull => exact .inl hnull
      | inr hjoin =>
        obtain ⟨N, hjoin, hcontent⟩ := hjoin
        rw [hw] at hcontent
        subst hcontent
        exact .inr ⟨N.sds, hjoin, N.sdslen_sds, N.load_content⟩

theorem sdsjoinsds_sdssplitlen_dashes : ∃ r a x,
    sdssplitlen (fun _ => freshMemory) Heap.empty (lit "foo_-_bar_-_" ++ [NUL])
      (lit "foo_-_bar_-_").length (lit "_-_" ++ [NUL]) (lit "_-_").length = .ok r ∧
    r.tokens = some a ∧ r.count = some 3 ∧
    sdsjoinsds (fun _ => freshMemory) r.heap a 3 (lit "_-_" ++ [NUL]) (lit "_-_").length =
      .ok (.ptr x) ∧ load x.sh x.s 12 = .ok (lit "foo_-_bar_-_") := by
  have hparts : partsOf (lit "_-_") (lit "foo_-_bar_-_") = [lit "foo", lit "bar", []] := by decide
  have hsep : lit "_-_" ≠ [] := by decide
  have hlen : (lit "foo_-_bar_-_").length < 1073741823 := by decide
  obtain ⟨r, hr, hnull | htokens⟩ := sdsjoinsds_sdssplitlen hsep hlen (by decide)
    (fun _ => freshMemory) (fun _ => freshMemory) Heap.empty [NUL] [NUL]
  · exact absurd hnull.2 (not_fails_freshMemory _ _)
  · obtain ⟨a, ps, -, ha, hcount, -, -, hjoin⟩ := htokens
    rw [hparts] at hcount hjoin
    have hmemory : ∀ res, ¬ NoMemory (fun _ => freshMemory) (2 * 3 - 1) res := by
      rintro res ⟨call, size, hfail, -⟩
      exact freshMemory_run size hfail
    obtain ⟨x, hjoin, -, hload⟩ := hjoin.resolve_left (hmemory _)
    exact ⟨r, a, x, hr, ha, hcount, hjoin, hload⟩

end Chirc.Sds
