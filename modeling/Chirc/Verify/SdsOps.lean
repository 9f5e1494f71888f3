import Chirc.Verify.Sds
import Mathlib.Data.List.DropRight

/-! # What the functions on a string do

One lemma for each function of `sds.c`, on a layout: what the bytes are afterwards. A function that
needs more memory either gives NULL, and then `malloc` has failed, or the new string. -/

namespace Chirc.Sds

open Block (leBytes ofLe)

/-! ## Strings that get shorter -/

theorem loadByte_append (pre : List Byte) (b : Byte) (post : List Byte) :
    loadByte (pre ++ b :: post) pre.length = .ok b := by
  rw [loadByte, List.getElem?_append_right (Nat.le_refl _), Nat.sub_self]
  rfl

theorem skipFront_eq (cset : CStr) (pre w post : List Byte) :
    skipFront (pre ++ w ++ post) cset pre.length w.length =
      .ok (pre.length + (w.takeWhile (strchr cset)).length) := by
  induction w generalizing pre with
  | nil => rfl
  | cons b w ih =>
    rw [List.append_assoc, List.cons_append, List.length_cons, skipFront, loadByte_append,
      Stop.ok_bind]
    cases hb : strchr cset b with
    | false =>
      rw [List.takeWhile_cons_of_neg (by simp [hb])]
      rfl
    | true =>
      have hrest := ih (pre ++ [b])
      rw [List.length_append, List.length_singleton, List.append_assoc, List.append_assoc,
        List.singleton_append] at hrest
      rw [if_pos rfl, hrest, List.takeWhile_cons_of_pos hb, List.length_cons]
      exact congrArg Except.ok (by omega)

theorem skipBack_eq (cset : CStr) (pre : List Byte) (b : Byte) (w post : List Byte) :
    skipBack (pre ++ b :: w ++ post) cset pre.length w.length =
      .ok (pre.length + (w.rdropWhile (strchr cset)).length) := by
  induction w using List.reverseRecOn generalizing post with
  | nil => rfl
  | append_singleton w c ih =>
    have hread : loadByte (pre ++ b :: (w ++ [c]) ++ post) (pre.length + (w.length + 1)) =
        .ok c := by
      have h := loadByte_append (pre ++ b :: w) c post
      simpa only [List.length_append, List.length_cons, List.append_assoc, List.cons_append,
        List.nil_append] using h
    rw [List.length_append, List.length_singleton, skipBack, hread, Stop.ok_bind]
    cases hc : strchr cset c with
    | false =>
      rw [List.rdropWhile_concat_neg _ _ _ (by simp [hc]), List.length_append]
      rfl
    | true =>
      have hrest := ih (c :: post)
      rw [List.rdropWhile_concat_pos _ _ _ hc, if_pos rfl, ← hrest]
      simp only [List.append_assoc, List.cons_append, List.nil_append]

theorem rdropWhile_cons_of_neg {p : Byte → Bool} (hb : ¬ p b) (w : List Byte) :
    (b :: w).rdropWhile p = b :: w.rdropWhile p := by
  induction w using List.reverseRecOn with
  | nil => rw [List.rdropWhile_singleton, if_neg hb, List.rdropWhile_nil]
  | append_singleton w c ih =>
    rw [← List.cons_append, List.rdropWhile_concat, List.rdropWhile_concat, ih]
    split <;> rfl

namespace Layout

/-- `keepOnly` -/
theorem keepOnly_sds (L : Layout) {k n : Nat} (h : n ≠ 0 → k + n ≤ L.content.length) :
    ∃ M : Layout, keepOnly L.sds (L.sds.s + k) n = .ok M.sds ∧
      M.content = (L.content.drop k).take n := by
  have hs : L.sds.s = L.type.hdrSize := rfl
  by_cases hn : n = 0
  · subst hn
    obtain ⟨M, hcontent, -, -, hM⟩ := L.finish_setlen (List.nil_prefix) L.length_region
      ⟨Nat.zero_le _, Nat.lt_of_le_of_lt (Nat.zero_le _) L.fits⟩ L.fits
    refine ⟨M, ?_, by rw [hcontent, List.take_zero]⟩
    rw [keepOnly, moveFront, if_pos rfl, Stop.ok_bind]
    exact hM
  · have hkn := h hn
    have hlen : ((L.content.drop k).take n).length = n := by
      rw [List.length_take, List.length_drop]
      omega
    have hload : load L.sds.sh (L.sds.s + k) n = .ok ((L.content.drop k).take n) := by
      refine load_of_eq (L.type.hdr L.content.length L.alloc ++ L.content.take k)
        ((L.content.drop k).drop n ++ NUL :: L.free) ?_ ?_ hlen.symm
      · rw [List.append_assoc, List.append_assoc, ← List.append_assoc _ _ (NUL :: L.free),
          List.take_append_drop, ← List.append_assoc (L.content.take k), List.take_append_drop]
        rfl
      · rw [List.length_append, L.type.length_hdr, List.length_take, hs]
        omega
    obtain ⟨region', hcopy, hprefix, hregion⟩ := L.copy (i := 0) hload (Nat.zero_le _) (by
      rw [hlen, alloc]
      omega)
    rw [List.take_zero, List.nil_append] at hprefix
    have hroom : L.Room ((L.content.drop k).take n).length := by
      refine ⟨?_, Nat.lt_of_le_of_lt ?_ L.fits⟩
      · rw [hlen, alloc]
        omega
      · rw [hlen]
        omega
    obtain ⟨M, hcontent, -, -, hM⟩ := L.finish_setlen hprefix hregion hroom L.fits
    refine ⟨M, ?_, hcontent⟩
    have hmove : moveFront L.sds (L.sds.s + k) n = copyFrom L.sds 0 L.sds.sh (L.sds.s + k) n :=
      if_neg hn
    rw [hlen] at hM
    rw [keepOnly, hmove, hcopy, Stop.ok_bind]
    exact hM

/-- `sdstrim` -/
theorem sdstrim_sds (L : Layout) (cset : CStr) :
    ∃ M : Layout, sdstrim L.sds cset = .ok M.sds ∧
      M.content = (L.content.dropWhile (strchr cset)).rdropWhile (strchr cset) := by
  have hlen : (L.type.hdr L.content.length L.alloc).length = L.sds.s := L.type.length_hdr _ _
  have hsh : L.sds.sh = L.type.hdr L.content.length L.alloc ++ L.content ++ NUL :: L.free :=
    (List.append_assoc _ _ _).symm
  have hfront := skipFront_eq cset (L.type.hdr L.content.length L.alloc) L.content (NUL :: L.free)
  have hsplit := List.takeWhile_append_dropWhile (p := strchr cset) (l := L.content)
  rw [← hsh, hlen] at hfront
  rw [sdstrim, L.sdslen_sds, Stop.ok_bind, hfront, Stop.ok_bind]
  cases hw : L.content.dropWhile (strchr cset) with
  | nil =>
    rw [hw, List.append_nil] at hsplit
    obtain ⟨M, hM, hcontent⟩ := L.keepOnly_sds (k := L.content.length) (n := 0) nofun
    rw [hsplit, if_pos rfl, hM]
    exact ⟨M, rfl, hcontent⟩
  | cons b w =>
    have hb : ¬ strchr cset b := by
      have h := List.head?_dropWhile_not (strchr cset) L.content
      rw [hw] at h
      simpa using h
    have hback := skipBack_eq cset
      (L.type.hdr L.content.length L.alloc ++ L.content.takeWhile (strchr cset)) b w (NUL :: L.free)
    rw [hw] at hsplit
    rw [List.append_assoc, List.append_assoc, ← List.append_assoc (List.takeWhile _ _), hsplit,
      ← List.append_assoc, ← hsh, List.length_append, hlen] at hback
    generalize hq : L.content.takeWhile (strchr cset) = q at hback hsplit
    have hcount : L.content.length = q.length + (w.length + 1) := by
      rw [← hsplit, List.length_append, List.length_cons]
    have hw' : (w.rdropWhile (strchr cset)).length ≤ w.length :=
      (List.rdropWhile_prefix _ _).length_le
    obtain ⟨M, hM, hcontent⟩ := L.keepOnly_sds (k := q.length)
      (n := (w.rdropWhile (strchr cset)).length + 1) fun _ => by omega
    refine ⟨M, ?_, ?_⟩
    · have hep : L.sds.s + L.content.length - 1 - (L.sds.s + q.length) = w.length := by omega
      have hn : L.sds.s + q.length + (w.rdropWhile (strchr cset)).length -
          (L.sds.s + q.length) + 1 = (w.rdropWhile (strchr cset)).length + 1 := by omega
      rw [if_neg (by omega), hep, hback, Stop.ok_bind, hn, hM]
    · rw [hcontent, ← hsplit, List.drop_left, List.take_succ_cons, rdropWhile_cons_of_neg hb,
        ← List.prefix_iff_eq_take.mp (List.rdropWhile_prefix _ _)]

/-- `sdsclear` -/
theorem sdsclear_sds (L : Layout) : ∃ M : Layout, sdsclear L.sds = .ok M.sds ∧ M.content = [] := by
  have hroom : L.Room ([] : List Byte).length :=
    ⟨Nat.zero_le _, Nat.lt_of_le_of_lt (Nat.zero_le _) L.fits⟩
  obtain ⟨M, hcontent, htype, halloc, hset⟩ := L.finish List.nil_prefix L.length_region hroom
  refine ⟨M, ?_, hcontent⟩
  have hlen := sdssetlen_block L.fits 0 L.alloc L.region
  rw [sdsclear, sds, hlen, Stop.ok_bind]
  refine (hset 0).trans ?_
  rw [sds, htype, halloc, hcontent]
  rfl

theorem strlen_append (pre : List Byte) {s : CStr} (post : List Byte) (h : NUL ∉ s) :
    strlen (pre ++ s ++ NUL :: post) pre.length = .ok s.length := by
  have hs : ∀ b ∈ s, (b == NUL) = false := fun b hb => beq_eq_false_iff_ne.mpr fun h' => h (h' ▸ hb)
  have hfind : (s ++ NUL :: post).findIdx? (· == NUL) = some s.length := by
    rw [List.findIdx?_append, List.findIdx?_eq_none_iff.mpr hs]
    simp [List.findIdx?_cons]
  rw [strlen, List.append_assoc, List.drop_left, hfind]
  rfl

/-- `sdsupdatelen`: the bytes behind the first NUL are free. -/
theorem sdsupdatelen_sds (L : Layout) : ∃ M : Layout, sdsupdatelen L.sds = .ok M.sds ∧
    M.content = L.content.takeWhile (· != NUL) := by
  have hlen : (L.type.hdr L.content.length L.alloc).length = L.sds.s := L.type.length_hdr _ _
  have hle := (List.takeWhile_prefix (· != NUL) : L.content.takeWhile (· != NUL) <+: _).length_le
  generalize hc : L.content.takeWhile (· != NUL) = c at hle
  -- the first NUL is in the string or the one behind it
  obtain ⟨rest, hrest⟩ : ∃ rest, L.region = c ++ NUL :: rest := by
    have hsplit := List.takeWhile_append_dropWhile (p := (· != NUL)) (l := L.content)
    rw [hc] at hsplit
    cases hd : L.content.dropWhile (· != NUL) with
    | nil =>
      rw [hd, List.append_nil] at hsplit
      exact ⟨L.free, by rw [region, hsplit]⟩
    | cons b w =>
      have hb := List.head?_dropWhile_not (· != NUL) L.content
      rw [hd] at hb hsplit
      have hb : b = NUL := by simpa using hb
      refine ⟨w ++ NUL :: L.free, ?_⟩
      rw [region, ← hsplit, hb, List.append_assoc, List.cons_append]
  have hnul : NUL ∉ c := by
    intro h
    rw [← hc] at h
    simpa using List.mem_takeWhile_imp h
  have hstrlen : strlen L.sds.sh L.sds.s = .ok c.length := by
    rw [← hlen, show L.sds.sh = L.type.hdr L.content.length L.alloc ++ c ++ NUL :: rest from by
      rw [List.append_assoc, ← hrest]; rfl]
    exact strlen_append _ _ hnul
  have halloc : c.length + rest.length = L.alloc := by
    have h := L.length_region
    rw [hrest, List.length_append, List.length_cons] at h
    omega
  have hfits : c.length < L.type.limit := Nat.lt_of_le_of_lt hle L.fits
  obtain ⟨M, hM, hcontent, -⟩ := exists_of_length halloc hfits L.fitsAlloc
  refine ⟨M, ?_, hcontent⟩
  rw [sdsupdatelen, hstrlen, Stop.ok_bind, hM, ← hrest]
  exact sdssetlen_block L.fits c.length L.alloc L.region

theorem fromEnd_nonneg (len : Nat) (i : Int) : 0 ≤ fromEnd len i := by
  rw [fromEnd]
  split
  · exact Int.le_max_right _ _
  · omega

theorem fromEnd_lt {len : Nat} (hlen : len < m) {i : Int} (hi : i < m) : fromEnd len i < m := by
  rw [fromEnd]
  split
  · exact Int.max_lt.mpr ⟨by omega, by omega⟩
  · exact hi

/-- `sdsrange`: what lies between the two indices, which may count from the end. The empty range is
the empty string, but an end before the start of the string counts as 0. -/
theorem sdsrange_sds (L : Layout) {start stop : Int} (hlen : L.content.length < 9223372036854775807)
    (hstop : stop < 9223372036854775807) :
    ∃ M : Layout, sdsrange L.sds start stop = .ok M.sds ∧
      M.content = (L.content.take ((fromEnd L.content.length stop).toNat + 1)).drop
        (fromEnd L.content.length start).toNat := by
  rw [sdsrange, L.sdslen_sds, Stop.ok_bind]
  by_cases h0 : L.content.length = 0
  · rw [if_pos h0, List.length_eq_zero_iff.mp h0]
    exact ⟨L, rfl, by rw [List.length_eq_zero_iff.mp h0, List.take_nil, List.drop_nil]⟩
  · have hstart' := fromEnd_nonneg L.content.length start
    have hstop' := fromEnd_nonneg L.content.length stop
    have hlt := fromEnd_lt hlen hstop
    generalize fromEnd L.content.length start = i at hstart' ⊢
    generalize fromEnd L.content.length stop = j at hstop' hlt ⊢
    rw [if_neg h0, if_neg (by omega), rangeOf]
    split
    · obtain ⟨M, hM, hcontent⟩ := L.keepOnly_sds (k := 0) (n := 0) nofun
      refine ⟨M, hM, ?_⟩
      rw [hcontent, List.take_zero, List.drop_eq_nil_of_le]
      rw [List.length_take]
      omega
    split
    · obtain ⟨M, hM, hcontent⟩ := L.keepOnly_sds (k := i.toNat) (n := 0) nofun
      refine ⟨M, hM, ?_⟩
      rw [hcontent, List.take_zero, List.drop_eq_nil_of_le]
      rw [List.length_take]
      omega
    split
    · obtain ⟨M, hM, hcontent⟩ := L.keepOnly_sds (k := i.toNat)
        (n := ((L.content.length : Int) - 1 - i + 1).toNat) fun _ => by omega
      refine ⟨M, hM, ?_⟩
      rw [hcontent, List.take_of_length_le (by rw [List.length_drop]; omega),
        List.take_of_length_le (by omega)]
    · obtain ⟨M, hM, hcontent⟩ := L.keepOnly_sds (k := i.toNat) (n := (j - i + 1).toNat)
        fun _ => by omega
      refine ⟨M, hM, ?_⟩
      rw [hcontent, List.drop_take, show j.toNat + 1 - i.toNat = (j - i + 1).toNat by omega]

end Layout

/-! ## Strings that may need another block -/

/-- NULL, because `malloc` has refused what it was asked for, or a string of which `P` holds -/
def Outcome (malloc : Malloc) (res : Except Stop (Given Sds)) (P : Layout → Prop) : Prop :=
  (∃ size, res = .ok (.null size) ∧ malloc.run size = none) ∨
    ∃ M : Layout, res = .ok (.ptr M.sds) ∧ P M

theorem Outcome.mono {malloc : Malloc} {P Q : Layout → Prop} (h : Outcome malloc res P)
    (hPQ : ∀ M, P M → Q M) : Outcome malloc res Q := by
  cases h with
  | inl h => exact .inl h
  | inr h =>
    obtain ⟨M, hM, hP⟩ := h
    exact .inr ⟨M, hM, hPQ M hP⟩

/-- What is done with the new string if there is one -/
theorem Outcome.bind {malloc : Malloc} {P Q : Layout → Prop} (h : Outcome malloc res P)
    {f : Given Sds → Except Stop (Given Sds)} (hnull : ∀ size, f (.null size) = .ok (.null size))
    (hptr : ∀ M, P M → ∃ N : Layout, f (.ptr M.sds) = .ok (.ptr N.sds) ∧ Q N) :
    Outcome malloc (res >>= f) Q := by
  cases h with
  | inl h =>
    obtain ⟨size, rfl, hfail⟩ := h
    exact .inl ⟨size, hnull size, hfail⟩
  | inr h =>
    obtain ⟨M, rfl, hP⟩ := h
    exact .inr (hptr M hP)

theorem SdsType.hdrSize_le (type : SdsType) : type.hdrSize ≤ 17 := by
  cases type <;> decide

/-- Whatever the two fields hold, they are a header. -/
theorem exists_hdr (type : SdsType) {h : List Byte} (hlen : h.length = 2 * type.width) :
    ∃ len alloc, len < type.limit ∧ h ++ [type.code] = type.hdr len alloc := by
  have hsplit := List.take_append_drop type.width h
  have htake : (h.take type.width).length = type.width := by
    rw [List.length_take]
    omega
  have hdrop : (h.drop type.width).length = type.width := by
    rw [List.length_drop]
    omega
  by_cases h5 : type = .type5
  · subst h5
    exact ⟨0, 0, by decide, by rw [List.length_eq_zero_iff.mp hlen]; rfl⟩
  · refine ⟨ofLe (h.take type.width), ofLe (h.drop type.width), ?_, ?_⟩
    · have hlt := Block.ofLe_lt (h.take type.width)
      rwa [htake, ← type.limit_eq h5] at hlt
    · have hfields := Block.leBytes_ofLe (h.take type.width)
      have hfields' := Block.leBytes_ofLe (h.drop type.width)
      rw [htake] at hfields
      rw [hdrop] at hfields'
      rw [SdsType.hdr, hfields, hfields', hsplit]
      cases type with
      | type5 => exact absurd rfl h5
      | _ => rfl

namespace Layout

theorem ownsBlock_sds (L : Layout) : ownsBlock L.sds = .ok () := by
  have hs : L.sds.s = L.type.hdrSize := rfl
  rw [ownsBlock, L.flags_sds, Stop.ok_bind, sdsHdrSize, sdsType_flags L.fits, Option.map_some,
    Option.getD_some, hs, back_hdrSize]
  rfl

/-- `resize`: as many free bytes as asked for -/
theorem resize_sds (L : Layout) (malloc : Malloc) {newlen : Nat} (hle : L.content.length ≤ newlen)
    (hlt : newlen < L.type.limit)
    (hsize : newlen + 18 < 18446744073709551616) :
    Outcome malloc (resize malloc L.sds L.type.hdrSize newlen) fun M =>
      M.content = L.content ∧ M.alloc = newlen ∧ M.type = L.type := by
  have hhdr := L.type.hdrSize_le
  rw [resize, L.ownsBlock_sds, Stop.ok_bind, sizeT_of_lt (by omega), realloc]
  cases hmalloc : malloc.run (L.type.hdrSize + newlen + 1) with
  | none => exact .inl ⟨_, rfl, hmalloc⟩
  | some bytes =>
    have hbytes := malloc.length_eq hmalloc
    have hsh : L.sds.sh.length = L.type.hdrSize + (L.alloc + 1) := by
      rw [sds, SdsType.block, List.length_append, L.type.length_hdr, L.length_region]
    have htake : L.sds.sh.take (L.type.hdrSize + newlen + 1) =
        L.type.hdr L.content.length L.alloc ++
          (L.content ++ NUL :: L.free.take (newlen - L.content.length)) := by
      rw [← L.type.length_hdr L.content.length L.alloc, sds, SdsType.block, Nat.add_assoc,
        List.take_length_add_append, region,
        show newlen + 1 = L.content.length + (newlen - L.content.length + 1) by omega,
        List.take_length_add_append, List.take_succ_cons]
    generalize hrest : L.free.take (newlen - L.content.length) ++ bytes.drop L.sds.sh.length = rest
    have hlen : L.content.length + rest.length = newlen := by
      rw [← hrest, List.length_append, List.length_take, List.length_drop, hsh, hbytes, alloc]
      omega
    have hnewsh : (⟨L.sds.sh.take (L.type.hdrSize + newlen + 1) ++ bytes.drop L.sds.sh.length,
        L.type.hdrSize⟩ : Sds) =
        L.type.block L.content.length L.alloc (L.content ++ NUL :: rest) := by
      rw [htake, SdsType.block, ← hrest]
      simp only [List.append_assoc, List.cons_append]
    obtain ⟨M, hM, hcontent, htype, halloc⟩ := exists_of_length hlen L.fits fun _ => hlt
    refine .inr ⟨M, ?_, hcontent, halloc, htype⟩
    change (do return Given.ptr (← sdssetalloc ⟨_, _⟩ newlen)) = _
    rw [hnewsh, sdssetalloc_block L.fits, hM]
    rfl

/-- `moveTo`: as many free bytes as asked for, behind another header -/
theorem moveTo_sds (L : Layout) (malloc : Malloc) {type : SdsType} {newlen : Nat}
    (hle : L.content.length ≤ newlen) (hfits : L.content.length < type.limit)
    (hlt : type ≠ .type5 → newlen < type.limit) (hsize : newlen + 18 < 18446744073709551616) :
    Outcome malloc (moveTo malloc L.sds type L.content.length newlen) fun M =>
      M.content = L.content ∧ M.alloc = newlen ∧ M.type = type := by
  have hhdr := type.hdrSize_le
  rw [moveTo, sizeT_of_lt (by omega)]
  cases hmalloc : malloc.run (type.hdrSize + newlen + 1) with
  | none => exact .inl ⟨_, rfl, hmalloc⟩
  | some newsh =>
    have hnewsh := malloc.length_eq hmalloc
    -- the block is two fields, the flags, the bytes up to the NUL, and the free ones
    have hload : load L.sds.sh L.sds.s (L.content.length + 1) = .ok (L.content ++ [NUL]) := by
      refine load_of_eq (L.type.hdr L.content.length L.alloc) L.free ?_ ?_ ?_
      · rw [List.append_assoc, List.append_assoc]
        rfl
      · exact (L.type.length_hdr _ _).symm
      · rw [List.length_append]
        rfl
    have hstore : store newsh (type.hdrSize + 0) (L.content ++ [NUL]) =
        .ok (newsh.take type.hdrSize ++ (L.content ++ [NUL]) ++
          newsh.drop (type.hdrSize + (L.content.length + 1))) := by
      have hlen : (L.content ++ [NUL]).length = L.content.length + 1 := by
        rw [List.length_append]
        rfl
      rw [store, Block.write_of_le (by rw [hlen, hnewsh]; omega), hlen]
      rfl
    have htake : (newsh.take (2 * type.width)).length = 2 * type.width := by
      rw [List.length_take, hnewsh, SdsType.hdrSize]
      omega
    obtain ⟨a, b, ha, hhdr⟩ := exists_hdr type htake
    generalize hfree : newsh.drop (type.hdrSize + (L.content.length + 1)) = free at hstore
    have hflags : store (newsh.take type.hdrSize ++ (L.content ++ [NUL]) ++ free)
        (2 * type.width) [type.code] = .ok (type.block a b (L.content ++ NUL :: free)).sh := by
      refine store_of_eq (newsh.take (2 * type.width))
        ((newsh.drop (2 * type.width)).take 1) (L.content ++ NUL :: free) ?_
        htake.symm ?_ ?_
      · rw [SdsType.hdrSize, List.take_add]
        simp only [List.append_assoc, List.cons_append, List.nil_append]
      · rw [List.length_take, List.length_drop, hnewsh, SdsType.hdrSize, List.length_singleton]
        omega
      · rw [SdsType.block, hhdr]
    have hlen : L.content.length + free.length = newlen := by
      rw [← hfree, List.length_drop, hnewsh]
      omega
    obtain ⟨M, hM, hcontent, htype, halloc⟩ := exists_of_length hlen hfits hlt
    refine .inr ⟨M, ?_, hcontent, halloc, htype⟩
    have hcopy : copyFrom ⟨newsh, type.hdrSize⟩ 0 L.sds.sh L.sds.s (L.content.length + 1) =
        .ok ⟨newsh.take type.hdrSize ++ (L.content ++ [NUL]) ++ free, type.hdrSize⟩ := by
      rw [copyFrom, hload, Stop.ok_bind, hstore]
      rfl
    have hset : setFlags ⟨newsh.take type.hdrSize ++ (L.content ++ [NUL]) ++ free, type.hdrSize⟩
        type.code = .ok (type.block a b (L.content ++ NUL :: free)) := by
      rw [setFlags, back_one, Stop.ok_bind, hflags]
      rfl
    change (do
      let y ← copyFrom ⟨newsh, type.hdrSize⟩ 0 L.sds.sh L.sds.s (L.content.length + 1)
      ownsBlock L.sds
      let y ← setFlags y type.code
      let y ← sdssetlen y L.content.length
      return Given.ptr (← sdssetalloc y newlen)) = _
    rw [hcopy, Stop.ok_bind, L.ownsBlock_sds, Stop.ok_bind, hset, Stop.ok_bind,
      sdssetlen_block ha, Stop.ok_bind, sdssetalloc_block hfits, hM]
    rfl

theorem Room.mono {L : Layout} (h : L.Room n) (hmn : m ≤ n) : L.Room m :=
  ⟨Nat.le_trans hmn h.1, Nat.lt_of_le_of_lt hmn h.2⟩

theorem le_roomFor (h : len + addlen + 1048594 < 18446744073709551616) :
    len + addlen ≤ roomFor len addlen ∧ roomFor len addlen + 18 < 18446744073709551616 := by
  rw [roomFor, sizeT_of_lt (by omega), sdsMaxPrealloc]
  split
  · rw [sizeT_of_lt (by omega)]
    omega
  · rw [sizeT_of_lt (by omega)]
    omega

/-- The type that `sdsMakeRoomFor` takes for a length -/
theorem lt_limit_roomType (h : n < 18446744073709551616) :
    n < (if sdsReqType n = .type5 then SdsType.type8 else sdsReqType n).limit := by
  have hlt := lt_limit_sdsReqType h
  split
  · next h5 =>
    rw [h5] at hlt
    exact Nat.lt_trans hlt (by decide)
  · exact hlt

/-- `sdsMakeRoomFor` -/
theorem sdsMakeRoomFor_sds (L : Layout) (malloc : Malloc) {addlen : Nat}
    (hsize : L.content.length + addlen + 1048594 < 18446744073709551616) :
    Outcome malloc (sdsMakeRoomFor malloc L.sds addlen) fun M =>
      M.content = L.content ∧ M.Room (L.content.length + addlen) := by
  rw [sdsMakeRoomFor, L.sdsavail_sds, Stop.ok_bind, L.flags_sds, Stop.ok_bind, sdsType_flags L.fits,
    L.sdslen_sds]
  generalize havail : (if L.type = .type5 then 0 else L.free.length) = avail
  by_cases hroom : addlen ≤ avail
  · rw [if_pos hroom]
    refine .inr ⟨L, rfl, rfl, ?_⟩
    by_cases h5 : L.type = .type5
    · rw [if_pos h5] at havail
      have h0 : addlen = 0 := by omega
      rw [h0]
      exact ⟨Nat.le_add_right _ _, L.fits⟩
    · rw [if_neg h5] at havail
      have hfits := L.fitsAlloc h5
      exact ⟨Nat.add_le_add_left (havail ▸ hroom) _, by omega⟩
  · rw [if_neg hroom]
    obtain ⟨hle, hlt⟩ := le_roomFor hsize
    rw [Stop.ok_bind]
    dsimp only
    generalize roomFor L.content.length addlen = newlen at hle hlt ⊢
    have htype := lt_limit_roomType (n := newlen) (by omega)
    generalize (if sdsReqType newlen = .type5 then SdsType.type8 else sdsReqType newlen) = type
      at htype ⊢
    split
    · next hold =>
      cases Option.some.inj hold
      refine (L.resize_sds malloc (by omega) htype hlt).mono fun M hM => ?_
      obtain ⟨hcontent, halloc, htypeM⟩ := hM
      exact ⟨hcontent, by rw [halloc]; exact hle, by rw [htypeM]; omega⟩
    · refine (L.moveTo_sds malloc (by omega) (by omega) (fun _ => htype) hlt).mono fun M hM => ?_
      obtain ⟨hcontent, halloc, htypeM⟩ := hM
      exact ⟨hcontent, by rw [halloc]; exact hle, by rw [htypeM]; omega⟩

/-- `sdsRemoveFreeSpace` -/
theorem sdsRemoveFreeSpace_sds (L : Layout) (malloc : Malloc)
    (hsize : L.content.length + 18 < 18446744073709551616) :
    Outcome malloc (sdsRemoveFreeSpace malloc L.sds) fun M => M.content = L.content := by
  rw [sdsRemoveFreeSpace, L.flags_sds, Stop.ok_bind, Stop.ok_bind, L.sdslen_sds, Stop.ok_bind,
    L.sdsavail_sds, Stop.ok_bind, sdsHdrSize, sdsType_flags L.fits]
  generalize (if L.type = .type5 then 0 else L.free.length) = avail
  dsimp only
  split
  · exact .inr ⟨L, rfl, rfl⟩
  · have hlimit := lt_limit_sdsReqType (n := L.content.length) (by omega)
    split
    · exact (L.resize_sds malloc (Nat.le_refl _) L.fits hsize).mono fun M hM => hM.1
    · exact (L.moveTo_sds malloc (Nat.le_refl _) hlimit (fun _ => hlimit) hsize).mono
        fun M hM => hM.1

/-- `sdscatlen` -/
theorem sdscatlen_sds (L : Layout) (malloc : Malloc) {t xs : List Byte}
    (hload : load t i xs.length = .ok xs)
    (hsize : L.content.length + xs.length + 1048594 < 18446744073709551616) :
    Outcome malloc (sdscatlen malloc L.sds t i xs.length) fun N => N.content = L.content ++ xs := by
  rw [sdscatlen, L.sdslen_sds, Stop.ok_bind]
  refine (L.sdsMakeRoomFor_sds malloc hsize).bind (fun _ => rfl) fun M hM => ?_
  obtain ⟨hcontent, hroom⟩ := hM
  obtain ⟨region', hcopy, hprefix, hregion⟩ := M.copy (i := L.content.length) hload
    (by rw [hcontent]) hroom.1
  rw [← hcontent, List.take_length] at hprefix
  have hlen : (M.content ++ xs).length = L.content.length + xs.length := by
    rw [List.length_append, hcontent]
  obtain ⟨N, hN, htype, halloc, hset⟩ := M.finish hprefix hregion (by rwa [hlen])
  refine ⟨N, ?_, by rw [hN, hcontent]⟩
  change (do
    let x ← copyFrom M.sds L.content.length t i xs.length
    let x ← sdssetlen x (sizeT (L.content.length + xs.length))
    return Given.ptr (← setByte x (sizeT (L.content.length + xs.length)) NUL)) = _
  rw [hcopy, Stop.ok_bind, sizeT_of_lt (by omega), sdssetlen_block M.fits, Stop.ok_bind, ← hlen,
    hset, sds, htype, halloc, hN]
  rfl

theorem overwrite_sds (L : Layout) {t xs : List Byte} (hload : load t 0 xs.length = .ok xs)
    (hroom : L.Room xs.length) :
    ∃ N : Layout, overwrite L.sds t xs.length = .ok N.sds ∧ N.content = xs := by
  obtain ⟨region', hcopy, hprefix, hregion⟩ := L.copy (i := 0) hload (Nat.zero_le _)
    (by rw [Nat.zero_add]; exact hroom.1)
  rw [List.take_zero, List.nil_append] at hprefix
  obtain ⟨N, hN, -, -, hset⟩ := L.finish_setlen hprefix hregion hroom L.fits
  refine ⟨N, ?_, hN⟩
  rw [overwrite, hcopy, Stop.ok_bind]
  exact hset

/-- `sdscpylen` -/
theorem sdscpylen_sds (L : Layout) (malloc : Malloc) {t xs : List Byte}
    (hload : load t 0 xs.length = .ok xs)
    (hsize : L.content.length + xs.length + 1048594 < 18446744073709551616) :
    Outcome malloc (sdscpylen malloc L.sds t xs.length) fun N => N.content = xs := by
  rw [sdscpylen, L.sdsalloc_sds, Stop.ok_bind]
  generalize halloc : (if L.type = .type5 then L.content.length else L.alloc) = n
  split
  · rw [L.sdslen_sds, Stop.ok_bind]
    refine (L.sdsMakeRoomFor_sds malloc (by omega)).bind (fun _ => rfl) fun M hM => ?_
    obtain ⟨N, hN, hcontent⟩ := M.overwrite_sds hload (hM.2.mono (by omega))
    refine ⟨N, ?_, hcontent⟩
    change (do return Given.ptr (← overwrite M.sds t xs.length)) = _
    rw [hN]
    rfl
  · have hroom : L.Room xs.length := by
      by_cases h5 : L.type = .type5
      · rw [if_pos h5] at halloc
        have hfits := L.fits
        exact ⟨by rw [alloc]; omega, by omega⟩
      · rw [if_neg h5] at halloc
        have hfits : L.alloc < L.type.limit := L.fitsAlloc h5
        exact ⟨by omega, by omega⟩
    obtain ⟨N, hN, hcontent⟩ := L.overwrite_sds hload hroom
    refine .inr ⟨N, ?_, hcontent⟩
    rw [hN]
    rfl

/-- `sdsgrowzero` -/
theorem sdsgrowzero_sds (L : Layout) (malloc : Malloc) {n : Nat}
    (hsize : L.content.length + n + 1048594 < 18446744073709551616) :
    Outcome malloc (sdsgrowzero malloc L.sds n) fun N =>
      N.content = L.content ++ List.replicate (n - L.content.length) NUL := by
  rw [sdsgrowzero, L.sdslen_sds, Stop.ok_bind]
  split
  · next hle =>
    refine .inr ⟨L, rfl, ?_⟩
    rw [Nat.sub_eq_zero_of_le hle, List.replicate_zero, List.append_nil]
  · next hle =>
    refine (L.sdsMakeRoomFor_sds malloc (by omega)).bind (fun _ => rfl) fun M hM => ?_
    obtain ⟨hcontent, hroom⟩ := hM
    have hn : L.content.length + (n - L.content.length) = n := by omega
    rw [hn] at hroom
    have hzeros : List.replicate (n - L.content.length + 1) NUL =
        List.replicate (n - L.content.length) NUL ++ [NUL] := List.replicate_succ'
    have hle' : L.content.length + (List.replicate (n - L.content.length + 1) NUL).length ≤
        M.region.length := by
      rw [List.length_replicate, M.length_region]
      have := hroom.1
      omega
    have hstore := store_region M.type M.content.length M.alloc hle'
    generalize hrest : M.region.drop (L.content.length +
      (List.replicate (n - L.content.length + 1) NUL).length) = rest at hstore
    have htake : M.region.take L.content.length = L.content := by
      rw [region, hcontent, List.take_left]
    have hlen : (L.content ++ List.replicate (n - L.content.length) NUL).length = n := by
      rw [List.length_append, List.length_replicate, hn]
    have hcount : (L.content ++ List.replicate (n - L.content.length) NUL).length + rest.length =
        M.alloc := by
      have := hroom.1
      rw [hlen, ← hrest, List.length_drop, List.length_replicate, M.length_region]
      omega
    obtain ⟨N, hN, hcontentN, -⟩ := exists_of_length hcount
      (by rw [hlen]; exact hroom.2) M.fitsAlloc
    refine ⟨N, ?_, hcontentN⟩
    rw [htake, hzeros, ← List.append_assoc, List.append_assoc _ [NUL],
      List.singleton_append] at hstore
    change (do
      let sh ← store M.sds.sh (M.type.hdrSize + L.content.length)
        (List.replicate (n - L.content.length + 1) NUL)
      return Given.ptr (← sdssetlen { M.sds with sh := sh } n)) = _
    have hset := sdssetlen_block M.fits n M.alloc
      (L.content ++ List.replicate (n - L.content.length) NUL ++ NUL :: rest)
    rw [hlen] at hN
    rw [hzeros, sds, hstore, hN, Stop.ok_bind]
    exact congrArg (fun r => r >>= fun x => Except.ok (Given.ptr x)) hset

end Layout

/-! ## New strings -/

/-- The string that a function makes of what it is given -/
def Source.Gives (init : Source) (n : Nat) (content : List Byte) : Prop :=
  match init with
  | .null => content = List.replicate n NUL
  | .noInit => content.length = n
  | .ptr mem i => content.length = n ∧ (n = 0 ∨ load mem i n = .ok content)

theorem lt_limit_newType (h : n < 18446744073709551616) : n < (newType n).limit := by
  rw [newType]
  split
  · next h0 =>
    rw [h0.2]
    decide
  · exact lt_limit_sdsReqType h

/-- Two fields of any bytes, a byte for the flags, and the rest -/
theorem exists_fields (type : SdsType) {sh : List Byte} (hlen : type.hdrSize ≤ sh.length) :
    ∃ a b f, sh = leBytes type.width a ++ leBytes type.width b ++ [f] ++ sh.drop type.hdrSize := by
  rw [SdsType.hdrSize] at hlen ⊢
  have hlen₁ : (sh.take type.width).length = type.width := by
    rw [List.length_take]
    omega
  have hlen₂ : ((sh.drop type.width).take type.width).length = type.width := by
    rw [List.length_take, List.length_drop]
    omega
  have hlen₃ : ((sh.drop (2 * type.width)).take 1).length = 1 := by
    rw [List.length_take, List.length_drop]
    omega
  obtain ⟨f, hf⟩ := List.length_eq_one_iff.mp hlen₃
  have h₁ := Block.leBytes_ofLe (sh.take type.width)
  have h₂ := Block.leBytes_ofLe ((sh.drop type.width).take type.width)
  rw [hlen₁] at h₁
  rw [hlen₂] at h₂
  refine ⟨ofLe (sh.take type.width), ofLe ((sh.drop type.width).take type.width), f, ?_⟩
  rw [h₁, h₂, ← hf, ← List.take_add, ← Nat.two_mul, ← List.take_add, List.take_append_drop]

theorem initHdr_eq (type : SdsType) {sh : List Byte} (hlen : type.hdrSize ≤ sh.length) (n : Nat) :
    initHdr ⟨sh, type.hdrSize⟩ type n = .ok (type.block n n (sh.drop type.hdrSize)) := by
  obtain ⟨a, b, f, hsh⟩ := exists_fields type hlen
  generalize sh.drop type.hdrSize = region at hsh ⊢
  subst hsh
  by_cases h5 : type = .type5
  · subst h5
    have hflags := store_flags .type5 a b f (UInt8.ofNat (n * 8)) region
    rw [initHdr, setFlags, back_one, Stop.ok_bind, SdsType.code, UInt8.zero_or, hflags]
    rfl
  · have hset : (do
        let hdr ← back type.hdrSize type.hdrSize
        let sh ← store (leBytes type.width a ++ leBytes type.width b ++ [f] ++ region) hdr
          (leBytes type.width n)
        let sh ← store sh (hdr + type.width) (leBytes type.width n)
        setFlags ⟨sh, type.hdrSize⟩ type.code) = .ok (type.block n n region) := by
      have hcode : type.code = type.flags n := by
        cases type with
        | type5 => exact absurd rfl h5
        | _ => rfl
      rw [back_hdrSize, Stop.ok_bind, store_len, Stop.ok_bind, store_alloc, Stop.ok_bind, setFlags,
        back_one, Stop.ok_bind, store_flags, hcode]
      rfl
    cases type with
    | type5 => exact absurd rfl h5
    | _ => exact hset

theorem Source.fill_eq (init : Source) {sh : List Byte} (hlen : sh.length = size) :
    ∃ sh', init.fill sh size = .ok sh' ∧ sh'.length = size ∧
      (init = .null → sh' = List.replicate size NUL) := by
  cases init with
  | null =>
    refine ⟨List.replicate size NUL, ?_, List.length_replicate, fun _ => rfl⟩
    refine store_of_eq [] sh [] ?_ rfl ?_ ?_
    · rw [List.nil_append, List.append_nil]
    · rw [List.length_replicate, hlen]
    · rw [List.nil_append, List.append_nil]
      rfl
  | noInit => exact ⟨sh, rfl, hlen, nofun⟩
  | ptr mem i => exact ⟨sh, rfl, hlen, nofun⟩

theorem exists_of_length_succ {l : List Byte} (h : l.length = n + 1) :
    ∃ c b, l = c ++ [b] ∧ c.length = n := by
  obtain ⟨b, hb⟩ := List.length_eq_one_iff.mp (show (l.drop n).length = 1 by
    rw [List.length_drop]
    omega)
  refine ⟨l.take n, b, ?_, ?_⟩
  · rw [← hb, List.take_append_drop]
  · rw [List.length_take]
    omega

theorem Source.copy_eq (init : Source) (type : SdsType) {n : Nat} {region : List Byte}
    (hinit : ∃ content, init.Gives n content) (hregion : region.length = n + 1)
    (hnull : init = .null → region = List.replicate (n + 1) NUL) :
    ∃ c b, init.copy (type.block n n region) n = .ok (type.block n n (c ++ [b])) ∧
      c.length = n ∧ init.Gives n c := by
  obtain ⟨c, b, hsplit, hlen⟩ := exists_of_length_succ hregion
  cases init with
  | null =>
    refine ⟨c, b, by rw [← hsplit]; rfl, hlen, ?_⟩
    rw [hnull rfl, List.replicate_succ'] at hsplit
    exact (List.append_inj_left' hsplit rfl).symm
  | noInit => exact ⟨c, b, by rw [← hsplit]; rfl, hlen, hlen⟩
  | ptr mem i =>
    obtain ⟨content, hcontent, hload⟩ := hinit
    by_cases hn : n = 0
    · exact ⟨c, b, by rw [← hsplit]; exact if_pos hn, hlen, hlen, .inl hn⟩
    · have hload := hload.resolve_left hn
      have hroom : 0 + content.length ≤ region.length := by omega
      have hcopy := copyFrom_block type n n hload hroom
      rw [List.take_zero, List.nil_append, Nat.zero_add, hsplit, hcontent, ← hlen, List.drop_left,
        hlen] at hcopy
      refine ⟨content, b, ?_, hcontent, hcontent, .inr hload⟩
      rw [hsplit]
      exact (if_neg hn).trans hcopy

/-- `sdsnewlen` -/
theorem sdsnewlen_outcome (malloc : Malloc) {init : Source} {n : Nat}
    (hinit : ∃ content, init.Gives n content) (hsize : n + 18 < 18446744073709551616) :
    Outcome malloc (sdsnewlen malloc init n) fun M => init.Gives n M.content := by
  have hhdr := (newType n).hdrSize_le
  have hlimit := lt_limit_newType (n := n) (by omega)
  rw [sdsnewlen, sizeT_of_lt (by omega)]
  cases hmalloc : malloc.run ((newType n).hdrSize + n + 1) with
  | none => exact .inl ⟨_, rfl, hmalloc⟩
  | some sh =>
    obtain ⟨sh', hfill, hlen, hnull⟩ := init.fill_eq (malloc.length_eq hmalloc)
    have hregion : (sh'.drop (newType n).hdrSize).length = n + 1 := by
      rw [List.length_drop]
      omega
    have hzero : init = .null →
        sh'.drop (newType n).hdrSize = List.replicate (n + 1) NUL := by
      intro h
      rw [hnull h, List.drop_replicate]
      exact congrArg (List.replicate · NUL) (by omega)
    obtain ⟨c, b, hcopy, hc, hgives⟩ := init.copy_eq (newType n) hinit hregion hzero
    have hfits : c.length < (newType n).limit := by rwa [hc]
    obtain ⟨M, hM, rfl, -⟩ := Layout.exists_of_length
      (show c.length + ([] : List Byte).length = n from hc) hfits fun _ => hlimit
    refine .inr ⟨M, ?_, hgives⟩
    have hset := setByte_block (newType n) n n M.content b []
    rw [hc] at hM hset
    change (do
      let sh ← init.fill sh ((newType n).hdrSize + n + 1)
      let x ← initHdr ⟨sh, (newType n).hdrSize⟩ (newType n) n
      let x ← init.copy x n
      return Given.ptr (← setByte x n NUL)) = _
    rw [hfill, Stop.ok_bind, initHdr_eq (newType n) (by omega), Stop.ok_bind, hcopy, Stop.ok_bind,
      hset, hM]
    rfl

end Chirc.Sds
