import Chirc.SdsSplit
import Chirc.Theory.Counting
import Chirc.Theory.Splitting
import Chirc.Verify.SdsRuns

/-! # The array of a split

`sdssplitlen` goes through the bytes once, with an array that gets more slots before it is full.
What it has allocated is the array and the strings in it, so that the code at `cleanup`, which frees
these, leaves the heap as it was. -/

namespace Chirc.Sds

open Allocation (Heap Adds)
open Splitting (split splitAux)

/-- The string at `p` has these bytes. -/
def StringAt (h : Heap Contents) (p : Ptr) (content : List Byte) : Prop :=
  ∃ L : Layout, h.block p.block = some (.bytes L.sds.sh) ∧ p.s = L.sds.s ∧ L.content = content

/-- Besides the blocks of `base` there are the array at `a` and its first entries, which are strings
with these bytes. -/
structure Tokens (base h : Heap Contents) (a slots : Nat) (ps : List Ptr)
    (parts : List (List Byte)) : Prop where
  adds : Adds base h (a :: ps.map Ptr.block)
  array : ∃ rest, h.block a = some (.tokens (ps.map .str ++ rest)) ∧ ps.length + rest.length = slots
  parts : List.Forall₂ (StringAt h) ps parts

section

variable {h h' : Heap Contents} {p : Ptr}

theorem StringAt.congr (H : StringAt h p content) (hsame : h'.block p.block = h.block p.block) :
    StringAt h' p content := by
  obtain ⟨L, hblock, hs, hcontent⟩ := H
  exact ⟨L, hsame ▸ hblock, hs, hcontent⟩

theorem StringAt.sdsAt (H : StringAt h p content) :
    ∃ L : Layout, sdsAt h p = .ok L.sds ∧ L.content = content := by
  obtain ⟨L, hblock, hs, hcontent⟩ := H
  refine ⟨L, ?_, hcontent⟩
  rw [Sds.sdsAt, hblock, hs]

theorem StringAt.sdsfree (H : StringAt h p content) : sdsfree h p = .ok (h.free p.block) := by
  obtain ⟨L, hat, -⟩ := H.sdsAt
  rw [Sds.sdsfree, hat, Stop.ok_bind, L.ownsBlock_sds]
  rfl

theorem forall₂_congr {ps : List Ptr} {parts : List (List Byte)}
    (H : List.Forall₂ (StringAt h) ps parts)
    (hsame : ∀ p ∈ ps, h'.block p.block = h.block p.block) :
    List.Forall₂ (StringAt h') ps parts := by
  induction H with
  | nil => exact .nil
  | cons hp _ ih =>
    refine .cons (hp.congr (hsame _ List.mem_cons_self)) (ih fun p hp => ?_)
    exact hsame p (List.mem_cons_of_mem _ hp)

theorem forall₂_concat {ps : List Ptr} {parts : List (List Byte)}
    (H : List.Forall₂ (StringAt h) ps parts) (hp : StringAt h p content) :
    List.Forall₂ (StringAt h) (ps ++ [p]) (parts ++ [content]) := by
  induction H with
  | nil => exact .cons hp .nil
  | cons hp' _ ih => exact .cons hp' ih

end

namespace Tokens

variable {base h : Heap Contents} {ps : List Ptr} {parts : List (List Byte)}
  (mallocs : Nat → Malloc)

theorem arrayAt_eq (H : Tokens base h a slots ps parts) :
    ∃ rest, arrayAt h a = .ok (ps.map .str ++ rest) ∧ ps.length + rest.length = slots := by
  obtain ⟨rest, hblock, hlen⟩ := H.array
  exact ⟨rest, by rw [arrayAt, hblock], hlen⟩

theorem block_ne (H : Tokens base h a slots ps parts) (hp : p ∈ ps) : p.block ≠ a := by
  intro heq
  have hmem := List.mem_map_of_mem (f := Ptr.block) hp
  rw [heq] at hmem
  exact (List.nodup_cons.mp H.adds.nodup).1 hmem

theorem block_lt (H : Tokens base h a slots ps parts) (hp : p ∈ ps) : p.block < h.next :=
  Heap.lt_next (H.adds.live _ (List.mem_cons_of_mem _ (List.mem_map_of_mem hp)))

theorem lt_next (H : Tokens base h a slots ps parts) : a < h.next :=
  Heap.lt_next (H.adds.live _ List.mem_cons_self)

theorem refuse (H : Tokens base h a slots ps parts) (size : Nat) :
    Tokens base (h.refuse size) a slots ps parts :=
  ⟨H.adds.refuse size, H.array, H.parts⟩

/-- An array with more slots has the same strings. -/
theorem reallocArray (H : Tokens base h a slots ps parts) (hle : slots ≤ slots') :
    (∃ size, reallocArray mallocs h a slots' = .ok (h.refuse size, none) ∧
        (mallocs h.next).run size = none) ∨
      ∃ h', reallocArray mallocs h a slots' = .ok (h', some h.next) ∧ h'.refused = h.refused ∧
        Tokens base h' h.next slots' ps parts := by
  obtain ⟨rest, harray, hlen⟩ := H.arrayAt_eq
  rw [Sds.reallocArray, harray, Stop.ok_bind]
  cases hmalloc : (mallocs h.next).run (sizeT (8 * slots')) with
  | none => exact .inl ⟨_, rfl, hmalloc⟩
  | some bytes =>
    refine .inr ⟨_, rfl, rfl, ?_⟩
    have hne : h.next ≠ a := Nat.ne_of_gt H.lt_next
    have htake : (ps.map Entry.str ++ rest).take slots' = ps.map .str ++ rest := by
      refine List.take_of_length_le ?_
      rw [List.length_append, List.length_map]
      omega
    rw [htake]
    refine ⟨((H.adds.alloc _).perm (.swap _ _ _)).free, ?_, ?_⟩
    · refine ⟨rest ++ List.replicate (slots' - (ps.map Entry.str ++ rest).length) .unset, ?_, ?_⟩
      · rw [Heap.block_free_of_ne _ hne, Heap.block_alloc, List.append_assoc]
      · simp only [List.length_append, List.length_map, List.length_replicate]
        omega
    · refine forall₂_congr H.parts fun p hp => ?_
      rw [Heap.block_free_of_ne _ (H.block_ne hp),
        Heap.block_alloc_of_ne _ (Nat.ne_of_lt (H.block_lt hp))]

end Tokens

/-- From `h` to `h'`, one request was made that `malloc` refuses. -/
def Fails (mallocs : Nat → Malloc) (h h' : Heap Contents) : Prop :=
  ∃ call size, h'.refused = (call, size) :: h.refused ∧ (mallocs call).run size = none

section

variable {base : Heap Contents} {ps : List Ptr} {parts : List (List Byte)} (mallocs : Nat → Malloc)

theorem setEntry_eq {h : Heap Contents} {rest : List Entry} {e' : Entry}
    (harray : h.block a = some (.tokens (ps.map .str ++ e' :: rest))) (e : Entry) :
    setEntry h a ps.length e = .ok (h.set a (.tokens (ps.map .str ++ e :: rest))) := by
  have hlt : ps.length < (ps.map Entry.str ++ e' :: rest).length := by
    rw [List.length_append, List.length_map, List.length_cons]
    omega
  have hset : (ps.map Entry.str ++ e' :: rest).set ps.length e = ps.map .str ++ e :: rest := by
    rw [List.set_append_right _ _ (by rw [List.length_map]), List.length_map, Nat.sub_self,
      List.set_cons_zero]
  rw [setEntry, arrayAt, harray]
  change (if ps.length < (ps.map Entry.str ++ e' :: rest).length then _ else _) = _
  rw [if_pos hlt, hset]
  rfl

/-- The string `content` becomes the next entry, or `malloc` fails. -/
theorem addToken_cases {st : Split} (H : Tokens base st.heap st.tokens st.slots ps parts)
    (hel : st.elements = ps.length) (hlt : st.elements < st.slots) {s content : List Byte}
    (hload : load s st.start content.length = .ok content)
    (hsize : content.length + 18 < 18446744073709551616) :
    (∃ h', addToken mallocs s st content.length = .ok (.inl { st with heap := h' }) ∧
        Tokens base h' st.tokens st.slots ps parts ∧ Fails mallocs st.heap h') ∨
      ∃ h' p, addToken mallocs s st content.length =
          .ok (.inr { st with heap := h', elements := st.elements + 1 }) ∧
        h'.refused = st.heap.refused ∧
        Tokens base h' st.tokens st.slots (ps ++ [p]) (parts ++ [content]) := by
  obtain ⟨rest, harray, hslots⟩ := H.array
  cases rest with
  | nil =>
    rw [List.length_nil] at hslots
    omega
  | cons e rest =>
    rw [List.length_cons] at hslots
    cases sdsnewlen_ptr (mallocs st.heap.next) hload hsize with
    | inl hnull =>
      obtain ⟨size, hnull, hfail⟩ := hnull
      refine .inl ⟨(st.heap.refuse size).set st.tokens (.tokens (ps.map .str ++ .null :: rest)),
        ?_, ?_, _, _, rfl, hfail⟩
      · have hset := setEntry_eq (h := st.heap.refuse size) harray .null
        rw [← hel] at hset
        rw [addToken, newAt, hnull]
        change (do
          let h ← setEntry (st.heap.refuse size) st.tokens st.elements .null
          return Sum.inl { st with heap := h }) = _
        rw [hset]
        rfl
      · have H' := (H.refuse size).adds
        refine ⟨H'.set List.mem_cons_self _, ⟨.null :: rest, ?_, hslots⟩, ?_⟩
        · exact Heap.block_set (H'.live _ List.mem_cons_self) _
        · exact forall₂_congr H.parts fun p hp => Heap.block_set_of_ne _ _ (H.block_ne hp)
    | inr hnew =>
      obtain ⟨M, hnew, hcontent⟩ := hnew
      have hne : st.tokens ≠ st.heap.next := Nat.ne_of_lt H.lt_next
      have harray' : (st.heap.alloc (.bytes M.sds.sh)).block st.tokens =
          some (.tokens (ps.map .str ++ e :: rest)) := by
        rw [Heap.block_alloc_of_ne _ hne, harray]
      have hadds : Adds base (st.heap.alloc (.bytes M.sds.sh))
          (st.tokens :: (ps ++ [Ptr.mk st.heap.next M.sds.s]).map Ptr.block) := by
        refine (H.adds.alloc _).perm ((List.Perm.swap _ _ _).trans (.cons _ ?_))
        rw [List.map_append]
        exact (List.perm_append_singleton _ _).symm
      refine .inr ⟨(st.heap.alloc (.bytes M.sds.sh)).set st.tokens
        (.tokens (ps.map .str ++ .str ⟨st.heap.next, M.sds.s⟩ :: rest)),
        ⟨st.heap.next, M.sds.s⟩, ?_, rfl, ?_⟩
      · have hset := setEntry_eq harray' (.str ⟨st.heap.next, M.sds.s⟩)
        rw [← hel] at hset
        rw [addToken, newAt, hnew]
        change (do
          let h ← setEntry (st.heap.alloc (.bytes M.sds.sh)) st.tokens st.elements
            (.str ⟨st.heap.next, M.sds.s⟩)
          return Sum.inr { st with heap := h, elements := st.elements + 1 }) = _
        rw [hset]
        rfl
      · refine ⟨hadds.set List.mem_cons_self _, ⟨rest, ?_, ?_⟩, ?_⟩
        · rw [Heap.block_set (hadds.live _ List.mem_cons_self), List.map_append, List.append_assoc]
          rfl
        · rw [List.length_append, List.length_singleton]
          omega
        · refine forall₂_concat (forall₂_congr H.parts fun p hp => ?_) ?_
          · rw [Heap.block_set_of_ne _ _ (H.block_ne hp),
              Heap.block_alloc_of_ne _ (Nat.ne_of_lt (H.block_lt hp))]
          · refine ⟨M, ?_, rfl, hcontent⟩
            rw [Heap.block_set_of_ne _ _ hne.symm, Heap.block_alloc]

end

/-! ## Freeing the array -/

/-- The array at `a`, and those of its strings that have not been freed -/
structure Left (base h : Heap Contents) (a : Nat) (entries : List Entry) (qs : List Ptr) :
    Prop where
  adds : Adds base h (a :: qs.map Ptr.block)
  array : h.block a = some (.tokens entries)
  strings : ∀ q ∈ qs, ∃ content, StringAt h q content

section

variable {base h : Heap Contents} {ps qs : List Ptr} {parts : List (List Byte)}
  {entries : List Entry}

theorem exists_of_forall₂ {R : α → β → Prop} {as : List α} {bs : List β}
    (H : List.Forall₂ R as bs) : ∀ a ∈ as, ∃ b, R a b := by
  induction H with
  | nil => exact nofun
  | cons hp _ ih =>
    intro q hq
    cases List.mem_cons.mp hq with
    | inl hq => exact hq ▸ ⟨_, hp⟩
    | inr hq => exact ih q hq

theorem Left.perm (H : Left base h a entries qs) (hp : qs.Perm qs') :
    Left base h a entries qs' where
  adds := H.adds.perm (.cons _ (hp.map _))
  array := H.array
  strings q hq := H.strings q (hp.mem_iff.mpr hq)

/-- One of the strings is freed. -/
theorem Left.freeEntry (H : Left base h a entries (p :: qs)) (hi : entries[i]? = some (.str p)) :
    freeEntry a h i = .ok (h.free p.block) ∧ Left base (h.free p.block) a entries qs := by
  obtain ⟨content, hp⟩ := H.strings p List.mem_cons_self
  have hnodup := H.adds.nodup
  rw [List.map_cons, List.nodup_cons, List.nodup_cons] at hnodup
  obtain ⟨ha, hpb, -⟩ := hnodup
  have hne : a ≠ p.block := fun heq => ha (heq ▸ List.mem_cons_self)
  refine ⟨?_, (H.adds.perm (.swap _ _ _)).free, ?_, fun q hq => ?_⟩
  · have hentry : entryAt h a i = .ok (.str p) := by
      rw [entryAt, arrayAt, H.array]
      exact congrArg inBounds hi
    rw [Sds.freeEntry, hentry]
    exact hp.sdsfree
  · rw [Heap.block_free_of_ne _ hne, H.array]
  · obtain ⟨content, hcontent⟩ := H.strings q (List.mem_cons_of_mem _ hq)
    have hqne : q.block ≠ p.block := fun heq => hpb (heq ▸ List.mem_map_of_mem hq)
    exact ⟨content, hcontent.congr (Heap.block_free_of_ne _ hqne)⟩

/-- Without strings, the array is freed. -/
theorem Left.freeArray (H : Left base h a entries []) :
    ∃ h', freeArray h a = .ok h' ∧ h'.block = base.block ∧ h'.refused = h.refused := by
  refine ⟨h.free a, ?_, H.adds.free.block_eq, rfl⟩
  rw [Sds.freeArray, arrayAt, H.array]
  rfl

theorem Tokens.left (H : Tokens base h a slots ps parts) :
    ∃ rest, Left base h a (ps.map .str ++ rest) ps := by
  obtain ⟨rest, harray, -⟩ := H.array
  exact ⟨rest, H.adds, harray, exists_of_forall₂ H.parts⟩

theorem getElem?_entries {rest : List Entry} (hi : i < ps.length) :
    (ps.map Entry.str ++ rest)[i]? = some (.str ps[i]) := by
  rw [List.getElem?_append_left (by rw [List.length_map]; exact hi), List.getElem?_map,
    List.getElem?_eq_getElem hi]
  rfl

theorem Tokens.entryAt_eq (H : Tokens base h a slots ps parts) (hi : i < ps.length) :
    entryAt h a i = .ok (.str ps[i]) := by
  obtain ⟨rest, harray, -⟩ := H.arrayAt_eq
  rw [entryAt, harray]
  exact congrArg inBounds (getElem?_entries hi)

/-- The code at `cleanup` leaves the heap as it was before the split. -/
theorem Tokens.cleanup {st : Split} (H : Tokens base st.heap st.tokens slots ps parts)
    (hel : st.elements = ps.length) :
    ∃ h', cleanup st = .ok ⟨h', none, some 0⟩ ∧ h'.block = base.block ∧
      h'.refused = st.heap.refused := by
  obtain ⟨rest, Hleft⟩ := H.left
  obtain ⟨h₁, hloop, H₁, hrefused₁⟩ := Counting.foldlM_range_ok (f := Sds.freeEntry st.tokens)
    (P := fun i h => Left base h st.tokens (ps.map .str ++ rest) (ps.drop i) ∧
      h.refused = st.heap.refused) (n := ps.length)
    ⟨Hleft, rfl⟩ fun i h hi Hi => by
      obtain ⟨Hi, hrefused⟩ := Hi
      rw [List.drop_eq_getElem_cons hi] at Hi
      obtain ⟨hfree, Hi⟩ := Hi.freeEntry (getElem?_entries hi)
      exact ⟨_, hfree, Hi, hrefused⟩
  rw [List.drop_length] at H₁
  obtain ⟨h', hfree, hblock, hrefused⟩ := H₁.freeArray
  refine ⟨h', ?_, hblock, hrefused.trans hrefused₁⟩
  rw [Sds.cleanup, hel, hloop, Stop.ok_bind, hfree]
  rfl

theorem Left.freeDown {rest : List Entry} (hn : n ≤ ps.length)
    (H : Left base h a (ps.map .str ++ rest) (ps.take n)) :
    ∃ h', freeDown a h n = .ok h' ∧ Left base h' a (ps.map .str ++ rest) [] := by
  induction n generalizing h with
  | zero => exact ⟨h, rfl, H⟩
  | succ n ih =>
    rw [List.take_add_one, List.getElem?_eq_getElem (by omega), Option.toList_some] at H
    obtain ⟨hfree, H⟩ := (H.perm (List.perm_append_singleton _ _)).freeEntry (getElem?_entries hn)
    obtain ⟨h', hdown, H'⟩ := ih (by omega) H
    exact ⟨h', by rw [Sds.freeDown, hfree, Stop.ok_bind, hdown], H'⟩

/-- `sdsfreesplitres` frees all that `sdssplitlen` has allocated. -/
theorem Tokens.sdsfreesplitres (H : Tokens base h a slots ps parts) :
    ∃ h', sdsfreesplitres h a parts.length = .ok h' ∧ h'.block = base.block := by
  obtain ⟨rest, Hleft⟩ := H.left
  rw [← H.parts.length_eq]
  obtain ⟨h₁, hdown, H₁⟩ := Left.freeDown (Nat.le_refl _) (by rwa [List.take_length])
  obtain ⟨h', hfree, hblock, -⟩ := H₁.freeArray
  exact ⟨h', by rw [Sds.sdsfreesplitres, hdown, Stop.ok_bind, hfree], hblock⟩

end

/-! ## The loop -/

theorem loadByte_of_lt {mem : List Byte} (h : i < mem.length) : loadByte mem i = .ok mem[i] := by
  rw [loadByte, List.getElem?_eq_getElem h]
  rfl

theorem load_of_le {mem : List Byte} (h : i + n ≤ mem.length) :
    load mem i n = .ok ((mem.drop i).take n) := by
  rw [load, Block.read, if_pos h]
  rfl

/-- The test for a separator, which reads no byte behind the string -/
theorem isSep_eq {w sep : List Byte} (post post' : List Byte) (hsep : sep ≠ [])
    (hj : j + sep.length ≤ w.length) :
    isSep (w ++ post) j (sep ++ post') sep.length = .ok (decide (sep <+: w.drop j)) := by
  have hload : load (w ++ post) j sep.length = .ok ((w.drop j).take sep.length) := by
    rw [load_of_le (by rw [List.length_append]; omega), List.drop_append_of_le_length (by omega),
      List.take_append_of_le_length (by rw [List.length_drop]; omega)]
  have hload' : load (sep ++ post') 0 sep.length = .ok sep := by
    rw [load_of_le (by rw [List.length_append]; omega), List.drop_zero, List.take_left]
  have hcmp : ((w.drop j).take sep.length == sep) = decide (sep <+: w.drop j) := by
    rw [Bool.eq_iff_iff, beq_iff_eq, decide_eq_true_iff, List.prefix_iff_eq_take]
    exact eq_comm
  have hfull : (do return (← load (w ++ post) j sep.length) ==
      (← load (sep ++ post') 0 sep.length)) =
      (.ok (decide (sep <+: w.drop j)) : Except Stop Bool) := by
    rw [hload, Stop.ok_bind, hload', Stop.ok_bind, hcmp]
    rfl
  rw [isSep, sameByte]
  split
  · next hone =>
    obtain ⟨c, rfl⟩ := List.length_eq_one_iff.mp hone
    rw [List.length_singleton] at hj
    have hbyte : loadByte (w ++ post) j = .ok w[j] := by
      rw [loadByte_of_lt (by rw [List.length_append]; omega), List.getElem_append_left (by omega)]
    rw [hbyte]
    change (if (w[j] == c) = true then Except.ok true else _) = _
    split
    · next heq =>
      rw [← beq_iff_eq.mp heq, List.drop_eq_getElem_cons (by omega)]
      exact congrArg Except.ok (decide_eq_true ⟨_, rfl⟩).symm
    · exact hfull
  · exact hfull

/-- Where the loop is: the parts so far are in the array, and the rest of the string is still to be
split, from `start` on. -/
structure Running (base : Heap Contents) (w sep : List Byte) (st : Split) (ps : List Ptr)
    (parts : List (List Byte)) : Prop where
  tokens : Tokens base st.heap st.tokens st.slots ps parts
  refused : st.heap.refused = base.refused
  elements : st.elements = ps.length
  room : st.elements < st.slots
  slots : st.slots ≤ 2 * st.elements + 5
  start : st.start ≤ st.j
  j : st.j ≤ w.length
  split : parts ++ splitAux sep ((w.take st.j).drop st.start) 0 (w.drop st.j) = split sep w

namespace Running

variable {base : Heap Contents} {w sep : List Byte} {ps : List Ptr} {parts : List (List Byte)}
  {st : Split} (mallocs : Nat → Malloc)

/-- There are fewer parts than bytes so far, or as many. -/
theorem elements_le (H : Running base w sep st ps parts) (hsep : sep ≠ []) :
    st.elements ≤ w.length := by
  have hlen := Splitting.length_splitAux_le hsep [] w
  have hpos := List.length_pos_iff.mpr
    (Splitting.splitAux_ne_nil sep ((w.take st.j).drop st.start) 0 (w.drop st.j))
  rw [show splitAux sep [] 0 w = Splitting.split sep w from rfl, ← H.split, List.length_append,
    ← H.tokens.parts.length_eq, ← H.elements] at hlen
  omega

/-- There is room for the next element and the final one, or `realloc` fails. -/
theorem growSlots (H : Running base w sep st ps parts) (hsep : sep ≠ [])
    (hlen : w.length < 1073741823) :
    (∃ st', growSlots mallocs st = .ok (.inl st') ∧ st'.elements = ps.length ∧
        Tokens base st'.heap st'.tokens st.slots ps parts ∧ Fails mallocs base st'.heap) ∨
      ∃ st', growSlots mallocs st = .ok (.inr st') ∧ Running base w sep st' ps parts ∧
        st'.j = st.j ∧ st'.elements + 2 ≤ st'.slots := by
  have hle := H.elements_le hsep
  rw [Sds.growSlots]
  by_cases hfull : st.slots < st.elements + 2
  · rw [if_pos hfull, if_neg (by omega)]
    cases H.tokens.reallocArray mallocs (Nat.le_mul_of_pos_right st.slots Nat.two_pos) with
    | inl h =>
      obtain ⟨size, hrealloc, hfail⟩ := h
      rw [hrealloc]
      exact .inl ⟨_, rfl, H.elements, H.tokens.refuse size, _, _,
        congrArg (List.cons _) H.refused, hfail⟩
    | inr h =>
      obtain ⟨h', hrealloc, hrefused, htokens⟩ := h
      rw [hrealloc]
      have hroom := H.room
      have hslots := H.slots
      refine .inr ⟨_, rfl, ⟨htokens, hrefused.trans H.refused, H.elements, ?_, ?_, H.start, H.j,
        H.split⟩, rfl, ?_⟩
      · change st.elements < st.slots * 2
        omega
      · change st.slots * 2 ≤ 2 * st.elements + 5
        omega
      · change st.elements + 2 ≤ st.slots * 2
        omega
  · rw [if_neg hfull]
    exact .inr ⟨st, rfl, H, rfl, by omega⟩

/-- The bytes from `start` to `j` -/
theorem load_part (H : Running base w sep st ps parts) (post : List Byte) :
    load (w ++ post) st.start ((w.take st.j).drop st.start).length =
      .ok ((w.take st.j).drop st.start) := by
  have hj := H.j
  have hlen : ((w.take st.j).drop st.start).length = st.j - st.start := by
    rw [List.length_drop, List.length_take]
    omega
  have hstart := H.start
  rw [hlen, load_of_le (by rw [List.length_append]; omega),
    List.drop_append_of_le_length (by omega),
    List.take_append_of_le_length (by rw [List.length_drop]; omega), List.drop_take]

/-- A byte that no separator begins with becomes part of the current string. -/
theorem next (H : Running base w sep st ps parts) (hj : st.j < w.length)
    (hp : ¬ sep <+: w.drop st.j) : Running base w sep { st with j := st.j + 1 } ps parts := by
  refine ⟨H.tokens, H.refused, H.elements, H.room, H.slots, Nat.le_succ_of_le H.start, hj, ?_⟩
  have hstart : st.start ≤ (w.take st.j).length := by
    rw [List.length_take]
    exact Nat.le_min.mpr ⟨H.start, H.start.trans H.j⟩
  have hsplit := H.split
  rw [List.drop_eq_getElem_cons hj] at hp hsplit
  rw [Splitting.splitAux_of_noMatch hp] at hsplit
  change parts ++ splitAux sep ((w.take (st.j + 1)).drop st.start) 0 (w.drop (st.j + 1)) = _
  rw [List.take_add_one, List.getElem?_eq_getElem hj, Option.toList_some,
    List.drop_append_of_le_length hstart]
  exact hsplit

/-- A round at a separator, once there is room -/
theorem part (H : Running base w sep st ps parts) (hsep : sep ≠ [])
    (hroom : st.elements + 2 ≤ st.slots) (hlen : w.length < 1073741823)
    (hj : st.j + sep.length ≤ w.length) (hp : sep <+: w.drop st.j) (post : List Byte) :
    (∃ st', addToken mallocs (w ++ post) st (st.j - st.start) = .ok (.inl st') ∧
        st'.elements = ps.length ∧ Tokens base st'.heap st'.tokens st.slots ps parts ∧
        Fails mallocs base st'.heap) ∨
      ∃ st' ps' parts', addToken mallocs (w ++ post) st (st.j - st.start) = .ok (.inr st') ∧
        st'.j = st.j ∧ Running base w sep
          { st' with start := st'.j + sep.length, j := st'.j + sep.length } ps' parts' := by
  have hpart : ((w.take st.j).drop st.start).length = st.j - st.start := by
    rw [List.length_drop, List.length_take]
    omega
  have hadd := addToken_cases mallocs H.tokens H.elements (by omega) (H.load_part post)
    (by omega)
  rw [hpart] at hadd
  cases hadd with
  | inl h =>
    obtain ⟨h', hadd, htokens, hfail⟩ := h
    rw [Fails, H.refused] at hfail
    exact .inl ⟨_, hadd, H.elements, htokens, hfail⟩
  | inr h =>
    obtain ⟨h', p, hadd, hrefused, htokens⟩ := h
    refine .inr ⟨_, ps ++ [p], parts ++ [(w.take st.j).drop st.start], hadd, rfl, htokens,
      hrefused.trans H.refused, ?_, ?_, ?_, Nat.le_refl _, hj, ?_⟩
    · change st.elements + 1 = _
      rw [List.length_append, H.elements]
      rfl
    · exact hroom
    · have := H.slots
      change st.slots ≤ 2 * (st.elements + 1) + 5
      omega
    · obtain ⟨rest, hrest⟩ := hp
      have hsplit := H.split
      have hdrop : w.drop (st.j + sep.length) = rest := by
        rw [← List.drop_drop, ← hrest, List.drop_left]
      rw [← hrest, Splitting.splitAux_of_match hsep] at hsplit
      have hempty : (w.take (st.j + sep.length)).drop (st.j + sep.length) = [] := by
        refine List.drop_eq_nil_of_le ?_
        rw [List.length_take]
        exact Nat.min_le_left _ _
      change _ ++ splitAux sep ((w.take (st.j + sep.length)).drop (st.j + sep.length)) 0
        (w.drop (st.j + sep.length)) = _
      rw [hdrop, hempty, List.append_assoc]
      exact hsplit

/-- The search for a separator, once there is room -/
theorem searchSep (H : Running base w sep st ps parts) (hsep : sep ≠ [])
    (hroom : st.elements + 2 ≤ st.slots) (hlen : w.length < 1073741823)
    (hj : st.j + sep.length ≤ w.length) (post post' : List Byte) :
    (∃ st' slots, searchSep mallocs (w ++ post) (sep ++ post') sep.length st =
        .ok (.inl (.cleanup st')) ∧ st'.elements = ps.length ∧
        Tokens base st'.heap st'.tokens slots ps parts ∧ Fails mallocs base st'.heap) ∨
      ∃ st' ps' parts', searchSep mallocs (w ++ post) (sep ++ post') sep.length st =
        .ok (.inr st') ∧ st.j < st'.j ∧ Running base w sep st' ps' parts' := by
  have hpos : 0 < sep.length := List.length_pos_iff.mpr hsep
  rw [Sds.searchSep, isSep_eq post post' hsep hj, Stop.ok_bind]
  by_cases hp : sep <+: w.drop st.j
  · rw [if_pos (decide_eq_true hp)]
    cases H.part mallocs hsep hroom hlen hj hp post with
    | inl h =>
      obtain ⟨st', hadd, hel, htokens, hfail⟩ := h
      rw [hadd]
      exact .inl ⟨st', st.slots, rfl, hel, htokens, hfail⟩
    | inr h =>
      obtain ⟨st', ps', parts', hadd, hj', H'⟩ := h
      rw [hadd]
      refine .inr ⟨_, ps', parts', rfl, ?_, H'⟩
      change st.j < st'.j + sep.length
      omega
  · rw [if_neg (by rw [decide_eq_true_iff]; exact hp)]
    exact .inr ⟨_, ps, parts, rfl, Nat.lt_succ_self _, H.next (by omega) hp⟩

/-- A round of the loop -/
theorem splitRound (H : Running base w sep st ps parts) (hsep : sep ≠ [])
    (hlen : w.length < 1073741823) (post post' : List Byte) :
    (∃ st' slots, splitRound mallocs (w ++ post) w.length (sep ++ post') sep.length st =
        .ok (.inl (.cleanup st')) ∧ st'.elements = ps.length ∧
        Tokens base st'.heap st'.tokens slots ps parts ∧ Fails mallocs base st'.heap) ∨
      splitRound mallocs (w ++ post) w.length (sep ++ post') sep.length st = .ok (.inl (.done st)) ∧
        w.length < st.j + sep.length ∨
      ∃ st' ps' parts', splitRound mallocs (w ++ post) w.length (sep ++ post') sep.length st =
        .ok (.inr st') ∧ st.j < st'.j ∧ Running base w sep st' ps' parts' := by
  have hpos : 0 < sep.length := List.length_pos_iff.mpr hsep
  rw [Sds.splitRound]
  by_cases hj : st.j + (sep.length - 1) < w.length
  · rw [if_pos hj]
    cases H.growSlots mallocs hsep hlen with
    | inl h =>
      obtain ⟨st', hgrow, hel, htokens, hfail⟩ := h
      rw [hgrow]
      exact .inl ⟨st', st.slots, rfl, hel, htokens, hfail⟩
    | inr h =>
      obtain ⟨st₁, hgrow, H₁, hj₁, hroom⟩ := h
      rw [hgrow, ← hj₁]
      exact (H₁.searchSep mallocs hsep hroom hlen (by omega) post post').imp id .inr
  · rw [if_neg hj]
    exact .inr (.inl ⟨rfl, by omega⟩)

/-- The loop ends, for lack of memory or because no separator can follow. -/
theorem rounds (H : Running base w sep st ps parts) (hsep : sep ≠ [])
    (hlen : w.length < 1073741823) (post post' : List Byte) (hn : w.length - st.j < n) :
    (∃ st' slots ps' parts', While.rounds (Sds.splitRound mallocs (w ++ post) w.length
        (sep ++ post') sep.length) n st = .ok (some (.cleanup st')) ∧ st'.elements = ps'.length ∧
        Tokens base st'.heap st'.tokens slots ps' parts' ∧ Fails mallocs base st'.heap) ∨
      ∃ st' ps' parts', While.rounds (Sds.splitRound mallocs (w ++ post) w.length (sep ++ post')
        sep.length) n st = .ok (some (.done st')) ∧ w.length < st'.j + sep.length ∧
        Running base w sep st' ps' parts' := by
  induction n generalizing st ps parts with
  | zero => omega
  | succ n ih =>
    obtain ⟨st', slots, hround, hel, htokens, hfail⟩ | ⟨hround, hshort⟩ |
      ⟨st', ps', parts', hround, hj, H'⟩ := H.splitRound mallocs hsep hlen post post'
    · exact .inl ⟨st', slots, ps, parts, While.rounds_of_leave hround n, hel, htokens, hfail⟩
    · exact .inr ⟨st, ps, parts, While.rounds_of_leave hround n, hshort, H⟩
    · have hj' := H'.j
      rw [While.rounds_of_next hround]
      exact ih H' (by omega)

/-- What comes after the loop: the final element -/
theorem splitEnd (H : Running base w sep st ps parts) (hlen : w.length < 1073741823)
    (hshort : w.length < st.j + sep.length) (post : List Byte) :
    ∃ r, splitEnd mallocs (w ++ post) w.length (.done st) = .ok r ∧
      (r.tokens = none ∧ r.count = some 0 ∧ r.heap.block = base.block ∧
          Fails mallocs base r.heap ∨
        ∃ a slots ps', r.tokens = some a ∧ r.count = some (Splitting.split sep w).length ∧
          r.heap.refused = base.refused ∧
          Tokens base r.heap a slots ps' (Splitting.split sep w)) := by
  have hj := H.j
  have hstart := H.start
  have hsplit := H.split
  have hlast : (w.take st.j).drop st.start ++ w.drop st.j = w.drop st.start := by
    rw [← List.drop_append_of_le_length (by rw [List.length_take]; omega), List.take_append_drop]
  rw [Splitting.splitAux_of_length_lt (by rw [List.length_drop]; omega), hlast] at hsplit
  have hload : load (w ++ post) st.start (w.drop st.start).length = .ok (w.drop st.start) := by
    rw [load_of_le (by rw [List.length_append, List.length_drop]; omega),
      List.drop_append_of_le_length (by omega), List.take_left]
  have hadd := addToken_cases mallocs H.tokens H.elements H.room hload
    (by rw [List.length_drop]; omega)
  rw [List.length_drop] at hadd
  rw [Sds.splitEnd]
  cases hadd with
  | inl h =>
    obtain ⟨h', hadd, htokens, hfail⟩ := h
    have hcleanup : ∃ h'', cleanup { st with heap := h' } = .ok ⟨h'', none, some 0⟩ ∧
        h''.block = base.block ∧ h''.refused = h'.refused := Tokens.cleanup htokens H.elements
    obtain ⟨h'', hcleanup, hblock, hrefused⟩ := hcleanup
    rw [Fails, H.refused, ← hrefused] at hfail
    rw [hadd]
    exact ⟨_, hcleanup, .inl ⟨rfl, rfl, hblock, hfail⟩⟩
  | inr h =>
    obtain ⟨h', p, hadd, hrefused, htokens⟩ := h
    rw [hsplit] at htokens
    rw [hadd]
    refine ⟨_, rfl, .inr ⟨st.tokens, st.slots, ps ++ [p], rfl, ?_, hrefused.trans H.refused,
      htokens⟩⟩
    rw [← htokens.parts.length_eq, List.length_append, ← H.elements]
    rfl

end Running

/-! ## The whole split -/

/-- The strings that a split makes: none of an empty string -/
def partsOf (sep w : List Byte) : List (List Byte) := if w = [] then [] else split sep w

theorem mallocArray_cases (mallocs : Nat → Malloc) (h : Heap Contents) (slots : Nat) :
    (∃ h', mallocArray mallocs h slots = (h', none) ∧ h'.block = h.block ∧ Fails mallocs h h') ∨
      ∃ h', mallocArray mallocs h slots = (h', some h.next) ∧ h'.refused = h.refused ∧
        Tokens h h' h.next slots [] [] := by
  rw [mallocArray]
  cases hmalloc : (mallocs h.next).run (sizeT (8 * slots)) with
  | none => exact .inl ⟨_, rfl, rfl, _, _, rfl, hmalloc⟩
  | some bytes =>
    refine .inr ⟨_, rfl, rfl, (Adds.refl h).alloc _, ⟨_, Heap.block_alloc _ _, ?_⟩, .nil⟩
    rw [List.length_replicate]
    exact Nat.zero_add _

/-- `sdssplitlen` reads and writes within its blocks, and either gives NULL, and then `malloc` has
refused a request and the blocks are as before, or the array of the parts of the string. -/
theorem sdssplitlen_cases {w sep : List Byte} (hsep : sep ≠ []) (hlen : w.length < 1073741823)
    (mallocs : Nat → Malloc) (h : Heap Contents) (post post' : List Byte) :
    ∃ r, sdssplitlen mallocs h (w ++ post) w.length (sep ++ post') sep.length = .ok r ∧
      (r.tokens = none ∧ r.heap.block = h.block ∧ Fails mallocs h r.heap ∧
          (r.count = none ∨ r.count = some 0) ∨
        ∃ a slots ps, r.tokens = some a ∧ r.count = some (partsOf sep w).length ∧
          r.heap.refused = h.refused ∧ Tokens h r.heap a slots ps (partsOf sep w)) := by
  have hpos : 0 < sep.length := List.length_pos_iff.mpr hsep
  rw [sdssplitlen, if_neg (by omega), partsOf]
  cases mallocArray_cases mallocs h 5 with
  | inl hnull =>
    obtain ⟨h', hnull, hblock, hfail⟩ := hnull
    rw [hnull]
    exact ⟨_, rfl, .inl ⟨rfl, hblock, hfail, .inl rfl⟩⟩
  | inr harray =>
    obtain ⟨h', harray, hrefused, htokens⟩ := harray
    rw [harray]
    dsimp only
    by_cases hw : w = []
    · rw [if_pos (by rw [hw]; rfl), if_pos hw]
      exact ⟨_, rfl, .inr ⟨h.next, 5, [], rfl, rfl, hrefused, htokens⟩⟩
    · have hwpos : 0 < w.length := List.length_pos_iff.mpr hw
      rw [if_neg (by omega), if_neg hw, Int.toNat_natCast, Int.toNat_natCast]
      have H : Running h w sep ⟨h', h.next, 0, 5, 0, 0⟩ [] [] :=
        ⟨htokens, hrefused, rfl, Nat.succ_pos 4, Nat.le_refl _, Nat.le_refl _, Nat.zero_le _, rfl⟩
      cases H.rounds mallocs (n := w.length + 1) hsep hlen post post' (by
        exact Nat.lt_succ_self _) with
      | inl hcleanup =>
        obtain ⟨st, slots, ps, parts, hrun, hel, htokens, hfail⟩ := hcleanup
        obtain ⟨h'', hcleanup, hblock, hrefused⟩ := htokens.cleanup hel
        rw [Fails, ← hrefused] at hfail
        rw [hrun]
        exact ⟨_, hcleanup, .inl ⟨rfl, hblock, hfail, .inr rfl⟩⟩
      | inr hdone =>
        obtain ⟨st, ps, parts, hrun, hshort, H⟩ := hdone
        rw [hrun]
        obtain ⟨r, hr, hcases⟩ := H.splitEnd mallocs hlen hshort post
        refine ⟨r, hr, hcases.imp (fun h => ⟨h.1, h.2.2.1, h.2.2.2, .inr h.2.1⟩) id⟩

end Chirc.Sds
