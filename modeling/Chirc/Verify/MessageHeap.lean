import Chirc.Server.MessageHeap
import Chirc.Theory.Lockstep
import Chirc.Verify.Replies

/-! # Replies and the memory that they lose

The functions that write a reply do the same to messages on the heap as to messages that are values.
Each of them frees what it has allocated but for the struct of the message and the rendered text. A
WHOIS reply frees the strings of a message of `connection_hash` too, and leaves its struct. -/

namespace Chirc.MessageHeap

open Allocation (Heap Adds)

/-! ## Accesses -/

section

variable {h h' base : Heap Block}

theorem load_eq (ha : h.block a = some b) : load h a = .ok b := by rw [load, ha]

theorem strAt_eq (ha : h.block a = some (.str s)) : strAt h a = .ok s := by
  rw [strAt, load_eq ha]
  rfl

theorem strAt_freed (ha : h.block a = none) : strAt h a = .error .useAfterFree := by
  rw [strAt, load, ha]
  rfl

theorem messageAt_eq (ha : h.block a = some (.message msg)) : messageAt h a = .ok msg := by
  rw [messageAt, load_eq ha]
  rfl

theorem store_eq (ha : h.block a ≠ none) (b : Block) : store h a b = .ok (h.set a b) := by
  obtain ⟨b', hb'⟩ := Option.ne_none_iff_exists'.mp ha
  rw [store, load_eq hb']
  rfl

theorem free_eq (ha : h.block a ≠ none) : free h a = .ok (h.free a) := by
  obtain ⟨b, hb⟩ := Option.ne_none_iff_exists'.mp ha
  rw [free, load_eq hb]
  rfl

/-- What has been allocated stays where it is. -/
theorem block_alloc_of_lt (ha : a < h.next) (b : Block) : (h.alloc b).block a = h.block a :=
  Heap.block_alloc_of_ne b (Nat.ne_of_lt ha)

/-- Blocks that are there are freed one after the other. -/
theorem free_all (H : Adds base h (as ++ rest)) : ∃ h', as.foldlM free h = .ok h' ∧
    Adds base h' rest ∧ (∀ a ∈ as, h'.block a = none) ∧ (∀ a ∉ as, h'.block a = h.block a) ∧
    h'.next = h.next := by
  induction as generalizing h with
  | nil => exact ⟨h, rfl, H, nofun, fun _ _ => rfl, rfl⟩
  | cons a as ih =>
    have hlive := H.live a List.mem_cons_self
    obtain ⟨h', hfree, hadds, hgone, hsame, hnext⟩ := ih H.free
    refine ⟨h', ?_, hadds, ?_, ?_, hnext⟩
    · rw [List.foldlM_cons, free_eq hlive]
      exact hfree
    · intro a' ha'
      by_cases hmem : a' ∈ as
      · exact hgone a' hmem
      · have heq := (List.mem_cons.mp ha').resolve_right hmem
        rw [hsame a' hmem, heq]
        exact h.block_free a
    · intro a' ha'
      obtain ⟨hne, hmem⟩ := List.ne_and_not_mem_of_not_mem_cons ha'
      rw [hsame a' hmem]
      exact h.block_free_of_ne hne

end

/-! ## Messages -/

/-- The blocks of a message that was constructed, but for the struct -/
def MessageStruct.blocks (ms : MessageStruct) : List Nat := ms.pfx.toList ++ ms.cmd :: ms.params

/-- The fields point to the strings of the message. -/
structure Reads (h : Heap Block) (ms : MessageStruct) (m : Message) : Prop where
  pfx : ms.pfx.map h.block = m.pfx.map fun s => some (.str s)
  cmd : h.block ms.cmd = some (.str m.cmd)
  params : ms.params.map h.block = m.params.map fun s => some (.str s)
  longlast : ms.longlast = m.longlast
  raw : ms.raw = none
  built : m.raw = none

theorem Reads.congr {h h' : Heap Block} (H : Reads h ms m)
    (hsame : ∀ a ∈ ms.blocks, h'.block a = h.block a) : Reads h' ms m where
  pfx := by
    rw [← H.pfx]
    refine Option.map_congr fun a ha => hsame a (List.mem_append_left _ ?_)
    exact Option.mem_toList.mpr ha
  cmd := (hsame _ (List.mem_append_right _ List.mem_cons_self)).trans H.cmd
  params := by
    rw [← H.params]
    refine List.map_congr_left fun a ha => hsame a ?_
    exact List.mem_append_right _ (List.mem_cons_of_mem _ ha)
  longlast := H.longlast
  raw := H.raw
  built := H.built

theorem mapM_strAt {h : Heap Block} {as : List Nat} {ss : List CStr}
    (H : as.map h.block = ss.map fun s => some (.str s)) : as.mapM (strAt h) = .ok ss := by
  induction as generalizing ss with
  | nil =>
    cases ss with
    | nil => rfl
    | cons s ss => cases H
  | cons a as ih =>
    cases ss with
    | nil => cases H
    | cons s ss =>
      rw [List.map_cons, List.map_cons, List.cons.injEq] at H
      rw [List.mapM_cons, strAt_eq H.1, ih H.2]
      rfl

theorem readMessage_eq {h : Heap Block} (ha : h.block a = some (.message ms)) (H : Reads h ms m) :
    readMessage h a = .ok m := by
  have hpfx : ms.pfx.mapM (strAt h) = .ok m.pfx := by
    have hread := H.pfx
    cases hp : ms.pfx with
    | none =>
      cases hs : m.pfx with
      | none => rfl
      | some s =>
        rw [hp, hs] at hread
        cases hread
    | some p =>
      cases hs : m.pfx with
      | none =>
        rw [hp, hs] at hread
        cases hread
      | some s =>
        rw [hp, hs] at hread
        rw [Option.mapM_some, strAt_eq (Option.some.inj hread)]
        rfl
  rw [readMessage, messageAt_eq ha, Res.ok_bind, hpfx, Res.ok_bind, strAt_eq H.cmd, Res.ok_bind,
    mapM_strAt H.params, Res.ok_bind, H.longlast, ← H.built]
  rfl

/-! ## Building a message -/

/-- Since the heap `h₀`, in which there are the blocks `as`, the message `m` has been built in the
struct at `p`, which is one of them. -/
structure Built (base h₀ : Heap Block) (as : List Nat) (p : Nat) (m : Message) (h : Heap Block) :
    Prop where
  reads : ∃ ms, h.block p = some (.message ms) ∧ Reads h ms m ∧ Adds base h (ms.blocks ++ as) ∧
    ∀ a ∈ ms.blocks, h₀.next ≤ a
  mem : p ∈ as
  same : ∀ a < h₀.next, a ≠ p → h.block a = h₀.block a
  le : h₀.next ≤ h.next

section

variable {base h₀ h : Heap Block} {as : List Nat}

theorem construct_built (H : Adds base h₀ as) (hp : p ∈ as) (pfx : Option CStr) (cmd : CStr) :
    ∃ h, chircMessageConstruct h₀ p pfx cmd = .ok h ∧
      Built base h₀ as p (Chirc.chircMessageConstruct pfx cmd) h := by
  have hlt : p < h₀.next := Heap.lt_next (H.live p hp)
  cases pfx with
  | none =>
    have hlive : (h₀.alloc (.str cmd)).block p ≠ none := by
      rw [block_alloc_of_lt hlt]
      exact H.live p hp
    refine ⟨_, store_eq hlive _,
      ⟨⟨none, h₀.next, [], false, none⟩, Heap.block_set hlive _, ?_, ?_, ?_⟩, hp, ?_,
      Nat.le_succ _⟩
    · refine ⟨rfl, ?_, rfl, rfl, rfl, rfl⟩
      rw [Heap.block_set_of_ne _ _ (Nat.ne_of_gt hlt)]
      exact h₀.block_alloc _
    · exact (H.alloc _).set (List.mem_cons_of_mem _ hp) _
    · intro a ha
      exact Nat.le_of_eq (List.mem_singleton.mp ha).symm
    · intro a ha hne
      rw [Heap.block_set_of_ne _ _ hne]
      exact block_alloc_of_lt ha _
  | some s =>
    have hlt' : p < h₀.next + 1 := Nat.lt_succ_of_lt hlt
    have hlive : ((h₀.alloc (.str s)).alloc (.str cmd)).block p ≠ none := by
      rw [block_alloc_of_lt hlt', block_alloc_of_lt hlt]
      exact H.live p hp
    refine ⟨_, store_eq hlive _, ⟨⟨some h₀.next, h₀.next + 1, [], false, none⟩,
      Heap.block_set hlive _, ?_, ?_, ?_⟩, hp, ?_, Nat.le_add_right _ 2⟩
    · refine ⟨?_, ?_, rfl, rfl, rfl, rfl⟩
      · refine congrArg some ?_
        rw [Heap.block_set_of_ne _ _ (Nat.ne_of_gt hlt), block_alloc_of_lt (Nat.lt_succ_self _)]
        exact h₀.block_alloc _
      · rw [Heap.block_set_of_ne _ _ (Nat.ne_of_gt hlt')]
        exact (h₀.alloc _).block_alloc _
    · have hmem : p ∈ (h₀.next + 1) :: h₀.next :: as :=
        List.mem_cons_of_mem _ (List.mem_cons_of_mem _ hp)
      exact (((H.alloc _).alloc _).set hmem _).perm (List.Perm.swap _ _ _)
    · intro a ha
      cases List.mem_cons.mp ha with
      | inl ha => exact Nat.le_of_eq ha.symm
      | inr ha => exact (List.mem_singleton.mp ha) ▸ Nat.le_succ _
    · intro a ha hne
      rw [Heap.block_set_of_ne _ _ hne, block_alloc_of_lt (Nat.lt_succ_of_lt ha)]
      exact block_alloc_of_lt ha _

theorem Built.addParameter (H : Built base h₀ as p m h) (param : CStr) (longlast : Bool) :
    Lockstep (Built base h₀ as p) (Chirc.chircMessageAddParameter m param longlast)
      (chircMessageAddParameter h p param longlast) := by
  obtain ⟨ms, hblock, hreads, hadds, hnew⟩ := H.reads
  have hblocks : ({ ms with params := ms.params ++ [h.next], longlast := longlast } :
      MessageStruct).blocks = ms.blocks ++ [h.next] := by
    rw [MessageStruct.blocks, MessageStruct.blocks, List.append_assoc]
    rfl
  have hlen : ms.params.length = m.params.length := by
    have h := congrArg List.length hreads.params
    rw [List.length_map, List.length_map] at h
    exact h
  rw [Chirc.chircMessageAddParameter, chircMessageAddParameter, messageAt_eq hblock, Res.ok_bind,
    pushParam, pushParam, hlen]
  by_cases hroom : m.params.length < 15
  · have hlt : p < h.next := Heap.lt_next (hadds.live p (List.mem_append_right _ H.mem))
    have hlive : (h.alloc (.str param)).block p ≠ none := by
      rw [block_alloc_of_lt hlt, hblock]
      exact Option.some_ne_none _
    rw [if_pos hroom, if_pos hroom, Res.ok_bind, Res.ok_bind, store_eq hlive]
    refine .ok ⟨⟨_, Heap.block_set hlive _, ?_, ?_, ?_⟩, H.mem, ?_, Nat.le_succ_of_le H.le⟩
    · -- the struct is not among the strings
      have hsame : ∀ a ∈ ms.blocks, ((h.alloc (.str param)).set p (.message
          { ms with params := ms.params ++ [h.next], longlast := longlast })).block a =
            h.block a := by
        intro a ha
        have hne : a ≠ p := fun heq =>
          (List.nodup_append.mp hadds.nodup).2.2 a ha p H.mem heq
        rw [Heap.block_set_of_ne _ _ hne]
        exact block_alloc_of_lt (Heap.lt_next (hadds.live a (List.mem_append_left _ ha))) _
      have hreads' := hreads.congr hsame
      refine ⟨hreads'.pfx, hreads'.cmd, ?_, rfl, hreads.raw, hreads.built⟩
      rw [List.map_append, List.map_append, hreads'.params]
      congr 1
      rw [List.map_singleton, List.map_singleton, Heap.block_set_of_ne _ _ (Nat.ne_of_gt hlt)]
      exact congrArg (· :: []) (h.block_alloc _)
    · have hadds' := (hadds.alloc (.str param)).set (List.mem_cons_of_mem _
        (List.mem_append_right _ H.mem)) (.message
          { ms with params := ms.params ++ [h.next], longlast := longlast })
      refine hadds'.perm ?_
      rw [hblocks, List.append_assoc]
      exact List.perm_middle.symm
    · intro a ha
      rw [hblocks] at ha
      cases List.mem_append.mp ha with
      | inl ha => exact hnew a ha
      | inr ha => exact (List.mem_singleton.mp ha) ▸ H.le
    · intro a ha hne
      rw [Heap.block_set_of_ne _ _ hne, block_alloc_of_lt (Nat.lt_of_lt_of_le ha H.le)]
      exact H.same a ha hne
  · rw [if_neg hroom, if_neg hroom]
    exact .error _

theorem Built.addParameters (H : Built base h₀ as p m h) (ps : List (CStr × Bool)) :
    Lockstep (Built base h₀ as p) (Chirc.addParameters m ps) (addParameters h p ps) :=
  Lockstep.foldlM (fun _ _ q _ H => H.addParameter q.1 q.2) H

/-! ## The blocks around a message -/

/-- A struct `chirc_connection_t` stands for a connection, as far as replies look at it. -/
inductive ConnectionIs (h : Heap Block) (a : Nat) : Connection → Prop
  | unknown : h.block a = some (.connection .unknown peer) → ConnectionIs h a .unknown
  | quit : h.block a = some (.connection .quit peer) → ConnectionIs h a .quit
  | user : h.block a = some (.connection .user peer) → h.block peer = some (.user p) →
    p.map h.block = nick.map (fun s => some (.str s)) → ConnectionIs h a (.user nick)
  | server : h.block a = some (.connection .server peer) → h.block peer = some (.server p) →
    p.map h.block = servername.map (fun s => some (.str s)) → ConnectionIs h a (.server servername)

theorem connectionAt_eq (ha : h.block a = some (.connection type peer)) :
    connectionAt h a = .ok (type, peer) := by
  rw [connectionAt, load_eq ha]
  rfl

theorem peerName_user (ha : h.block a = some (.user nick)) : peerName h a = .ok nick := by
  rw [peerName, load_eq ha]
  rfl

theorem peerName_server (ha : h.block a = some (.server servername)) :
    peerName h a = .ok servername := by
  rw [peerName, load_eq ha]
  rfl

theorem Built.addPeer (H : Built base h₀ as p m h) {q : Option Nat} {name : Option CStr}
    (hpeer : peerName h peer = .ok q) (hname : q.map h.block = name.map fun s => some (.str s)) :
    Lockstep (Built base h₀ as p) (Chirc.chircMessageAddParameter m (name.getD (lit "*")) false)
      (addPeer h p peer) := by
  rw [MessageHeap.addPeer, hpeer, Res.ok_bind]
  cases q with
  | none =>
    cases name with
    | none => exact H.addParameter _ _
    | some s => cases hname
  | some a =>
    cases name with
    | none => cases hname
    | some s =>
      dsimp only
      rw [strAt_eq (Option.some.inj hname)]
      exact H.addParameter _ _

/-- `chirc_message_construct_reply` into a struct that has not been written to -/
theorem constructReply_built (ctx : Ctx) (H : Adds base h₀ as) (hp : p ∈ as)
    (huninit : h₀.block p = some .uninit) (hconn : ConnectionIs h₀ a conn) (code : CStr) :
    Lockstep (Built base h₀ as p) (Chirc.chircMessageConstructReply ctx conn code)
      (chircMessageConstructReply ctx h₀ p a code) := by
  obtain ⟨h, hconstruct, hbuilt⟩ := construct_built H hp (some ctx.servername) code
  -- the struct is none of the blocks of the connection
  have hsame {b : Nat} {x : Block} (hx : h₀.block b = some x) (hne : x ≠ .uninit) :
      h.block b = h₀.block b := by
    have hlive : h₀.block b ≠ none := hx ▸ Option.some_ne_none x
    refine hbuilt.same b (Heap.lt_next hlive) fun heq => ?_
    rw [heq, huninit] at hx
    exact hne (Option.some.inj hx).symm
  have hstr {q : Option Nat} {name : Option CStr}
      (hname : q.map h₀.block = name.map fun s => some (.str s)) :
      q.map h.block = name.map fun s => some (.str s) := by
    rw [← hname]
    refine Option.map_congr fun b hb => ?_
    have hb : q = some b := hb
    subst hb
    cases name with
    | none => cases hname
    | some s => exact hsame (Option.some.inj hname) nofun
  cases hconn with
  | unknown hconn =>
    rw [chircMessageConstructReply, connectionAt_eq hconn, Res.ok_bind]
    dsimp only
    rw [hconstruct, Res.ok_bind]
    exact hbuilt.addParameter _ _
  | quit hconn =>
    obtain ⟨h, hconstruct, hbuilt⟩ := construct_built H hp none code
    rw [chircMessageConstructReply, connectionAt_eq hconn, Res.ok_bind]
    dsimp only
    rw [hconstruct]
    exact .ok hbuilt
  | user hconn hpeer hname =>
    rw [chircMessageConstructReply, connectionAt_eq hconn, Res.ok_bind]
    dsimp only
    rw [hconstruct, Res.ok_bind]
    exact hbuilt.addPeer (peerName_user ((hsame hpeer nofun).trans hpeer)) (hstr hname)
  | server hconn hpeer hname =>
    rw [chircMessageConstructReply, connectionAt_eq hconn, Res.ok_bind]
    dsimp only
    rw [hconstruct, Res.ok_bind]
    exact hbuilt.addPeer (peerName_server ((hsame hpeer nofun).trans hpeer)) (hstr hname)

/-- The structs for a reply are new, and those around the message are filled in. -/
structure Framed (base h : Heap Block) (as : List Nat) (type : ConnType) (nickname : CStr)
    (fr : Frame) : Prop where
  adds : Adds base fr.heap (fr.nick :: fr.user :: fr.connection :: fr.msg :: as)
  connection : fr.heap.block fr.connection = some (.connection type fr.user)
  user : fr.heap.block fr.user = some (.user (some fr.nick))
  nick : fr.heap.block fr.nick = some (.str nickname)
  msg : fr.heap.block fr.msg = some .uninit
  same : ∀ a < h.next, fr.heap.block a = h.block a
  le : h.next ≤ fr.heap.next
  new : ∀ a ∈ [fr.nick, fr.user, fr.connection, fr.msg], h.next ≤ a

theorem newFrame_framed (H : Adds base h as) (type : ConnType) (nickname : CStr) :
    Framed base h as type nickname (newFrame h type nickname) := by
  have hadds := (((H.alloc .uninit).alloc .uninit).alloc .uninit).alloc (.str nickname)
  have huser := List.mem_cons_of_mem (h.next + 3)
    (List.mem_cons_self (a := h.next + 2) (l := (h.next + 1) :: h.next :: as))
  have hconnection := List.mem_cons_of_mem (h.next + 3) (List.mem_cons_of_mem (h.next + 2)
    (List.mem_cons_self (a := h.next + 1) (l := h.next :: as)))
  have hadds' := hadds.set huser (.user (some (h.next + 3)))
  have hset {a : Nat} (hne : a ≠ h.next + 1) (hne' : a ≠ h.next + 2) :
      (newFrame h type nickname).heap.block a =
        ((((h.alloc .uninit).alloc .uninit).alloc .uninit).alloc (.str nickname)).block a :=
    (Heap.block_set_of_ne _ _ hne).trans (Heap.block_set_of_ne _ _ hne')
  refine ⟨hadds'.set hconnection _, Heap.block_set (hadds'.live _ hconnection) _, ?_, ?_, ?_, ?_,
    Nat.le_add_right _ 4, ?_⟩
  · refine (Heap.block_set_of_ne _ _ (Nat.ne_of_gt (Nat.lt_succ_self (h.next + 1)))).trans ?_
    exact Heap.block_set (hadds.live _ huser) _
  · refine (hset (a := h.next + 3) (by omega) (by omega)).trans ?_
    exact Heap.block_alloc _ _
  · refine (hset (a := h.next) (by omega) (by omega)).trans ?_
    rw [block_alloc_of_lt (Nat.lt_add_of_pos_right (n := h.next) (k := 3) (by decide)),
      block_alloc_of_lt (Nat.lt_add_of_pos_right (n := h.next) (k := 2) (by decide)),
      block_alloc_of_lt (Nat.lt_succ_self h.next)]
    exact h.block_alloc _
  · intro a ha
    rw [hset (by omega) (by omega), block_alloc_of_lt (Nat.lt_add_right 3 ha),
      block_alloc_of_lt (Nat.lt_add_right 2 ha), block_alloc_of_lt (Nat.lt_add_right 1 ha)]
    exact block_alloc_of_lt ha _
  · intro a ha
    rw [List.mem_cons, List.mem_cons, List.mem_cons, List.mem_singleton] at ha
    obtain rfl | rfl | rfl | rfl := ha
    · exact Nat.le_add_right _ 3
    · exact Nat.le_add_right _ 2
    · exact Nat.le_add_right _ 1
    · exact Nat.le_refl _

/-! ## Replies -/

theorem Built.toString (H : Built base h₀ as p m h) :
    Lockstep (fun text r => text = render m ∧ r = (h.alloc (.str text), h.next))
      (Chirc.chircMessageToString m) (chircMessageToString h p) := by
  obtain ⟨ms, hblock, hreads, -, -⟩ := H.reads
  rw [chircMessageToString, readMessage_eq hblock hreads, Res.ok_bind, Chirc.chircMessageToString]
  split
  · exact .ok ⟨rfl, rfl⟩
  · exact .error _

theorem messageFree_eq (hp : h.block p = some (.message ms)) (hraw : ms.raw = none) :
    chircMessageFree h p = ms.blocks.foldlM free h := by
  rw [chircMessageFree, messageAt_eq hp, Res.ok_bind, hraw]
  rfl

/-- A message that is constructed for a reply, and fits the buffer of `chirc_message_to_string` -/
def buildReply (ctx : Ctx) (conn : Connection) (code : CStr) (ps : List (CStr × Bool)) :
    Res Message := do
  let msg ← Chirc.chircMessageConstructReply ctx conn code
  let msg ← Chirc.addParameters msg ps
  let _ ← Chirc.chircMessageToString msg
  return msg

/-- A type of connection that is used for replies, and what it means for them -/
inductive TypeIs (nickname : CStr) : ConnType → Connection → Prop
  | user : TypeIs nickname .user (.user (some nickname))
  | quit : TypeIs nickname .quit .quit

/-- While a message is built in the new struct, the blocks that were there before stay as they
are. -/
theorem Framed.same_of_built {fr : Frame} (F : Framed base h as type nickname fr)
    (B : Built base fr.heap (fr.nick :: fr.user :: fr.connection :: fr.msg :: as) fr.msg m h')
    (a : Nat) (ha : a < h.next) : h'.block a = h.block a := by
  have hmsg : fr.msg ∈ [fr.nick, fr.user, fr.connection, fr.msg] :=
    List.mem_append_right [fr.nick, fr.user, fr.connection] List.mem_cons_self
  have hne : a ≠ fr.msg := fun heq => Nat.not_le_of_lt ha (heq ▸ F.new _ hmsg)
  exact (B.same a (Nat.lt_of_lt_of_le ha F.le) hne).trans (F.same a ha)

theorem Framed.connectionIs {fr : Frame} (F : Framed base h as type nickname fr)
    (htype : TypeIs nickname type conn) : ConnectionIs fr.heap fr.connection conn := by
  cases htype with
  | user => exact .user F.connection F.user (congrArg some F.nick)
  | quit => exact .quit F.connection

/-- A reply has been written. The blocks `gone` have been freed, the blocks `as'` are still there,
and there are two new blocks. -/
structure Written (base h : Heap Block) (gone as' : List Nat) (m : Message)
    (r : Heap Block × CStr) : Prop where
  text : r.2 = wire (render m)
  adds : ∃ response msg, Adds base r.1 (response :: msg :: as')
  same : ∀ a < h.next, a ∉ gone → r.1.block a = h.block a
  gone : ∀ a ∈ gone, r.1.block a = none
  le : h.next ≤ r.1.next

theorem block_free_none (ha : h.block a = none) (b : Nat) : (h.free b).block a = none := by
  by_cases hne : a = b
  · rw [hne]
    exact h.block_free b
  · exact (h.block_free_of_ne hne).trans ha

theorem writeReply_written (ctx : Ctx) (H : Adds base h as) (hperm : as.Perm (gone ++ as'))
    (htype : TypeIs nickname type conn) (code : CStr)
    {ps : Heap Block → Res (List (CStr × Bool))} {freeMore : Heap Block → Res (Heap Block)}
    (hps : ∀ h', (∀ a < h.next, h'.block a = h.block a) → ps h' = .ok strings)
    (hfree : ∀ h', (∀ a < h.next, h'.block a = h.block a) → freeMore h' = gone.foldlM free h') :
    Lockstep (Written base h gone as') (buildReply ctx conn code strings)
      (writeReply ctx type code nickname ps freeMore h) := by
  have F := newFrame_framed H type nickname
  rw [writeReply, buildReply]
  generalize newFrame h type nickname = fr at F
  have hmsg : fr.msg ∈ fr.nick :: fr.user :: fr.connection :: fr.msg :: as :=
    List.mem_cons_of_mem _ (List.mem_cons_of_mem _ (List.mem_cons_of_mem _ List.mem_cons_self))
  have hnew {a : Nat} (ha : a < h.next) : a ∉ [fr.nick, fr.user, fr.connection, fr.msg] :=
    fun hmem => Nat.not_le_of_lt ha (F.new a hmem)
  refine (constructReply_built ctx F.adds hmsg F.msg (F.connectionIs htype) code).bind
    fun m h₁ B₁ => ?_
  rw [hps h₁ (F.same_of_built B₁), Res.ok_bind]
  refine (B₁.addParameters strings).bind fun m h₂ B₂ => B₂.toString.bind fun text r hr => ?_
  obtain ⟨htext, rfl⟩ := hr
  dsimp only
  rw [strAt_eq (h₂.block_alloc _), Res.ok_bind]
  -- the strings of the message
  obtain ⟨ms, hblock, hreads, hadds, hblocks⟩ := B₂.reads
  have hlt : fr.msg < h₂.next := Heap.lt_next (hadds.live _ (List.mem_append_right _ hmsg))
  have hadds' : Adds base (h₂.alloc (.str text)) (ms.blocks ++
      h₂.next :: fr.nick :: fr.user :: fr.connection :: fr.msg :: as) :=
    (hadds.alloc _).perm List.perm_middle.symm
  obtain ⟨h₃, hfree₃, hadds₃, -, hsame₃, hnext₃⟩ := free_all hadds'
  rw [messageFree_eq ((block_alloc_of_lt hlt _).trans hblock) hreads.raw, hfree₃, Res.ok_bind]
  have hsame₃' (a : Nat) (ha : a < h.next) : h₃.block a = h.block a := by
    have hle : h.next ≤ h₂.next := Nat.le_trans F.le B₂.le
    have hnot : a ∉ ms.blocks := by
      intro hmem
      exact Nat.not_le_of_lt ha (Nat.le_trans F.le (hblocks a hmem))
    rw [hsame₃ a hnot, block_alloc_of_lt (Nat.lt_of_lt_of_le ha hle)]
    exact F.same_of_built B₂ a ha
  -- what else is freed
  have hmoved : (h₂.next :: fr.nick :: fr.user :: fr.connection :: fr.msg :: as).Perm
      (gone ++ ([fr.nick, fr.user, fr.connection, h₂.next, fr.msg] ++ as')) :=
    calc
      List.Perm (h₂.next :: ([fr.nick, fr.user, fr.connection] ++ fr.msg :: as))
        ([fr.nick, fr.user, fr.connection] ++ h₂.next :: fr.msg :: as) := List.perm_middle.symm
      List.Perm _ ([fr.nick, fr.user, fr.connection, h₂.next, fr.msg] ++ (gone ++ as')) :=
        hperm.append_left [fr.nick, fr.user, fr.connection, h₂.next, fr.msg]
      List.Perm _ _ := List.perm_append_comm_assoc _ _ _
  obtain ⟨h₄, hfree₄, hadds₄, hgone₄, hsame₄, hnext₄⟩ := free_all (hadds₃.perm hmoved)
  rw [hfree h₃ hsame₃', hfree₄, Res.ok_bind, free_eq (hadds₄.live _ List.mem_cons_self), Res.ok_bind,
    free_eq (hadds₄.free.live _ List.mem_cons_self), Res.ok_bind,
    free_eq (hadds₄.free.free.live _ List.mem_cons_self), Res.ok_bind]
  refine .ok ⟨congrArg wire htext, ⟨_, _, hadds₄.free.free.free⟩, ?_, ?_, ?_⟩
  · intro a ha hnot
    have hnot' := hnew ha
    rw [List.mem_cons, List.mem_cons, List.mem_cons, not_or, not_or, not_or] at hnot'
    rw [Heap.block_free_of_ne _ hnot'.2.2.1, Heap.block_free_of_ne _ hnot'.2.1,
      Heap.block_free_of_ne _ hnot'.1, hsame₄ a hnot]
    exact hsame₃' a ha
  · intro a ha
    exact block_free_none (block_free_none (block_free_none (hgone₄ a ha) _) _) _
  · change h.next ≤ h₄.next
    rw [hnext₄, hnext₃]
    exact Nat.le_succ_of_le (Nat.le_trans F.le B₂.le)

/-- The parameters cannot be read. -/
theorem writeReply_error (ctx : Ctx) (H : Adds base h as) (code nickname : CStr)
    {ps : Heap Block → Res (List (CStr × Bool))} (freeMore : Heap Block → Res (Heap Block))
    (hps : ∀ h', (∀ a < h.next, h'.block a = h.block a) → ps h' = .error f) :
    writeReply ctx .user code nickname ps freeMore h = .error f := by
  have F := newFrame_framed H .user nickname
  rw [writeReply]
  generalize newFrame h .user nickname = fr at F
  have hmsg : fr.msg ∈ fr.nick :: fr.user :: fr.connection :: fr.msg :: as :=
    List.mem_cons_of_mem _ (List.mem_cons_of_mem _ (List.mem_cons_of_mem _ List.mem_cons_self))
  have hbuilt := constructReply_built ctx F.adds hmsg F.msg (F.connectionIs .user) code
  have hok : Chirc.chircMessageConstructReply ctx (.user (some nickname)) code = .ok _ := rfl
  rw [hok] at hbuilt
  dsimp only
  generalize chircMessageConstructReply ctx fr.heap fr.msg fr.connection code = x at hbuilt
  cases hbuilt with
  | ok B =>
    rw [Res.ok_bind, hps _ (F.same_of_built B)]
    rfl

theorem writeReply_eq (ctx : Ctx) (conn : Connection) (code : CStr) (ps : List (CStr × Bool))
    (w : Work) : Chirc.writeReply ctx conn code ps w =
      buildReply ctx conn code ps >>= fun m => .ok { w with out := w.out ++ [m] } := by
  rw [Chirc.writeReply, buildReply]
  simp only [bind_assoc]
  rfl

/-- The reply `m` has been written, also on the heap. -/
def Sent (base h : Heap Block) (gone as' : List Nat) (w w' : Work) (r : Heap Block × CStr) : Prop :=
  ∃ m, w' = { w with out := w.out ++ [m] } ∧ Written base h gone as' m r

theorem writeStrings_sent (ctx : Ctx) (H : Adds base h as) (htype : TypeIs nickname type conn)
    (code : CStr) (ps : List (CStr × Bool)) (w : Work) :
    Lockstep (Sent base h [] as w) (Chirc.writeReply ctx conn code ps w)
      (writeStrings ctx type code nickname ps h) := by
  have hperm : as.Perm ([] ++ as) := List.Perm.refl as
  have hwritten : Lockstep (Written base h [] as) (buildReply ctx conn code ps)
      (writeReply ctx type code nickname (fun _ => .ok ps) .ok h) :=
    writeReply_written ctx H hperm htype code (fun _ _ => rfl) fun _ _ => rfl
  rw [writeReply_eq]
  exact hwritten.map_left fun m r hm => ⟨m, rfl, hm⟩

theorem ReplyCall.sent (ctx : Ctx) (H : Adds base h as) (call : ReplyCall) (w : Work) :
    Lockstep (Sent base h [] as w) (call.run ctx w) (call.onHeap ctx h) := by
  cases call with
  | ping => exact writeStrings_sent ctx H .quit _ _ w
  | quit cmd longParamRe nickname => exact writeStrings_sent ctx H .quit _ _ w
  | _ => exact writeStrings_sent ctx H .user _ _ w

end

/-! ## Stored messages -/

/-- A message that was copied for a node of `connection_hash` is in the struct at `p`, and `bs` are
its blocks, of which only the struct is left once it has been freed. -/
inductive CellAt (h : Heap Block) : Cell Message → Nat → List Nat → Prop
  | live {ms m p} : h.block p = some (.message ms) → ms.pfx = none → Reads h ms m →
    CellAt h (.live m) p (p :: ms.blocks)
  | freed {ms p} : h.block p = some (.message ms) → ms.pfx = none → ms.cmd < h.next →
    h.block ms.cmd = none → CellAt h .freed p [p]

/-- The nodes of `connection_hash`, and the blocks of their messages -/
inductive Stored (h : Heap Block) : List ConnectionMap → List (CStr × Nat) → List Nat → Prop
  | nil : Stored h [] [] []
  | cons {node p bs nodes es as} : CellAt h (ConnectionMap.msg node) p bs → Stored h nodes es as →
    Stored h (node :: nodes) ((node.name, p) :: es) (bs ++ as)

/-- The blocks at `as` are as before, and none that has been freed is back. -/
structure Keeps (h h' : Heap Block) (as : List Nat) : Prop where
  same : ∀ a ∈ as, h'.block a = h.block a
  gone : ∀ a < h.next, h.block a = none → h'.block a = none
  le : h.next ≤ h'.next

theorem CellAt.keeps (H : CellAt h cell p bs) (hkeeps : Keeps h h' bs) : CellAt h' cell p bs := by
  cases H with
  | live hp hpfx hreads =>
    refine .live ((hkeeps.same _ List.mem_cons_self).trans hp) hpfx (hreads.congr ?_)
    intro a ha
    exact hkeeps.same a (List.mem_cons_of_mem _ ha)
  | freed hp hpfx hlt hnone =>
    exact .freed ((hkeeps.same _ List.mem_cons_self).trans hp) hpfx
      (Nat.lt_of_lt_of_le hlt hkeeps.le) (hkeeps.gone _ hlt hnone)

theorem Keeps.mono (H : Keeps h h' as) (hsub : ∀ a ∈ as', a ∈ as) : Keeps h h' as' :=
  ⟨fun a ha => H.same a (hsub a ha), H.gone, H.le⟩

theorem Stored.keeps (H : Stored h nodes es as) (hkeeps : Keeps h h' as) :
    Stored h' nodes es as := by
  induction H with
  | nil => exact .nil
  | cons hcell _ ih =>
    refine .cons (hcell.keeps (hkeeps.mono ?_)) (ih (hkeeps.mono ?_))
    · exact fun a ha => List.mem_append_left _ ha
    · exact fun a ha => List.mem_append_right _ ha

/-- The messages of a lookup by name -/
inductive Found (h : Heap Block) (name : CStr) (nodes : List ConnectionMap) (es : List (CStr × Nat))
    (as : List Nat) : Prop
  | none : findConnectionMapNode nodes name = none → es.find? (·.1 == name) = none →
    Found h name nodes es as
  | some (node : ConnectionMap) (p : Nat) (bs rest : List Nat) :
    findConnectionMapNode nodes name = some node → es.find? (·.1 == name) = some (name, p) →
    CellAt h node.msg p bs → as.Perm (bs ++ rest) →
    (∀ h' bs', Keeps h h' rest → CellAt h' .freed p bs' →
      ∃ as', Stored h' (freeConnectionMapMsg nodes name) es as' ∧ as'.Perm (bs' ++ rest)) →
    Found h name nodes es as

theorem Stored.found (H : Stored h nodes es as) (name : CStr) : Found h name nodes es as := by
  induction H with
  | nil => exact .none rfl rfl
  | @cons node p bs nodes es as hcell hrest ih =>
    by_cases hname : node.name = name
    · have hbeq : (node.name == name) = true := beq_iff_eq.mpr hname
      refine .some node p bs as ?_ ?_ hcell (List.Perm.refl _) fun h' bs' hkeeps hcell' => ?_
      · exact List.find?_cons_of_pos (p := fun n : ConnectionMap => n.name == name) hbeq
      · rw [← hname]
        exact List.find?_cons_of_pos (p := fun e : CStr × Nat => e.1 == node.name)
          (beq_self_eq_true node.name)
      · refine ⟨bs' ++ as, ?_, List.Perm.refl _⟩
        rw [freeConnectionMapMsg, if_pos hname]
        have hfreed : CellAt h' ({ node with msg := .freed } : ConnectionMap).msg p bs' := hcell'
        exact .cons hfreed (hrest.keeps hkeeps)
    · have hne : ¬(node.name == name) = true := mt beq_iff_eq.mp hname
      have hskip : findConnectionMapNode (node :: nodes) name = findConnectionMapNode nodes name :=
        List.find?_cons_of_neg (p := fun n : ConnectionMap => n.name == name) hne
      have hskip' : ((node.name, p) :: es).find? (·.1 == name) = es.find? (·.1 == name) :=
        List.find?_cons_of_neg (p := fun e : CStr × Nat => e.1 == name) hne
      cases ih with
      | none hfind hfind' => exact .none (hskip.trans hfind) (hskip'.trans hfind')
      | some node' p' bs' rest hfind hfind' hcell' hperm hfreed =>
        have hmoved : (bs ++ as).Perm (bs' ++ (bs ++ rest)) :=
          (hperm.append_left bs).trans (List.perm_append_comm_assoc _ _ _)
        refine .some node' p' bs' (bs ++ rest) (hskip.trans hfind) (hskip'.trans hfind') hcell'
          hmoved fun h' bs'' hkeeps hcell'' => ?_
        obtain ⟨as', hstored, hperm'⟩ := hfreed h' bs''
          (hkeeps.mono fun a ha => List.mem_append_right _ ha) hcell''
        refine ⟨bs ++ as', ?_, (hperm'.append_left bs).trans (List.perm_append_comm_assoc _ _ _)⟩
        rw [freeConnectionMapMsg, if_neg hname]
        exact .cons (hcell.keeps (hkeeps.mono fun a ha => List.mem_append_left _ ha)) hstored

/-- A copy of a message in new blocks -/
structure Copied (base h : Heap Block) (as : List Nat) (m : Message) (r : Heap Block × Nat) :
    Prop where
  cell : ∃ bs, CellAt r.1 (.live m) r.2 bs ∧ Adds base r.1 (bs ++ as)
  same : ∀ a < h.next, r.1.block a = h.block a
  le : h.next ≤ r.1.next

theorem copyMessage_copied (H : Adds base h as) (cmd : CStr) (params : List CStr) :
    Lockstep (Copied base h as)
      (Chirc.addParameters (Chirc.chircMessageConstruct none cmd) (copiedParams params))
      (copyMessage h cmd params) := by
  have hmem : h.next ∈ h.next :: as := List.mem_cons_self
  obtain ⟨h₁, hconstruct, hbuilt⟩ := construct_built (H.alloc .uninit) hmem none cmd
  rw [copyMessage, malloc]
  dsimp only
  rw [hconstruct, Res.ok_bind]
  refine (hbuilt.addParameters (copiedParams params)).with_eq.map_right fun m h₂ hm => ?_
  obtain ⟨heq, B⟩ := hm
  have hlen : (Chirc.chircMessageConstruct none cmd).params.length ≤ 15 := Nat.zero_le 15
  obtain ⟨-, rfl⟩ := (addParameters_eq_ok hlen).mp heq
  obtain ⟨ms, hblock, hreads, hadds, -⟩ := B.reads
  have hpfx : ms.pfx = none := Option.map_eq_none_iff.mp hreads.pfx
  refine ⟨⟨_, .live hblock hpfx hreads, hadds.perm List.perm_middle⟩, fun a ha => ?_,
    Nat.le_of_succ_le B.le⟩
  rw [B.same a (Nat.lt_succ_of_lt ha) (Nat.ne_of_lt ha)]
  exact block_alloc_of_lt ha _

/-- A WHOIS reply has been written, and the message that it quotes freed but for its struct. -/
structure Quoted (base h : Heap Block) (p : Nat) (rest : List Nat) (name : CStr) (w w' : Work)
    (r : Heap Block × CStr) : Prop where
  work : ∃ m, r.2 = wire (render m) ∧ w' = { w with
    out := w.out ++ [m]
    srv.connectionHash := freeConnectionMapMsg w.srv.connectionHash name }
  cell : CellAt r.1 .freed p [p]
  keeps : Keeps h r.1 rest
  adds : ∃ response msg, Adds base r.1 (response :: msg :: p :: rest)

theorem whoisReply_quoted (ctx : Ctx) (H : Adds base h (bs ++ rest))
    (hcell : CellAt h (ConnectionMap.msg node) p bs) (code nickname : CStr) (w : Work) :
    Lockstep (Quoted base h p rest node.name w)
      (Chirc.myConstructUserWhoisReply ctx code node nickname w)
      (myConstructUserWhoisReply ctx code p nickname h) := by
  rw [Chirc.myConstructUserWhoisReply, myConstructUserWhoisReply]
  generalize node.msg = cell at hcell
  cases hcell with
  | @freed ms p hp hpfx hlt hnone =>
    rw [writeReply_error (f := .useAfterFree) ctx H]
    · exact .error _
    · intro h' hsame
      have hp' : h'.block p = some (.message ms) := by
        rw [hsame p (Heap.lt_next (H.live p (List.mem_append_left _ List.mem_cons_self)))]
        exact hp
      rw [readMessage, messageAt_eq hp', Res.ok_bind, hpfx,
        strAt_freed ((hsame _ hlt).trans hnone)]
      rfl
  | @live ms m p hp hpfx hreads =>
    have hperm : (p :: ms.blocks ++ rest).Perm (ms.blocks ++ p :: rest) := List.perm_middle.symm
    have hlive {a : Nat} (ha : a ∈ p :: ms.blocks) : a < h.next :=
      Heap.lt_next (H.live a (List.mem_append_left _ ha))
    have hread (h' : Heap Block) (hsame : ∀ a < h.next, h'.block a = h.block a) :
        h'.block p = some (.message ms) ∧ Reads h' ms m :=
      ⟨(hsame p (hlive List.mem_cons_self)).trans hp,
        hreads.congr fun a ha => hsame a (hlive (List.mem_cons_of_mem _ ha))⟩
    have hps (h' : Heap Block) (hsame : ∀ a < h.next, h'.block a = h.block a) :
        (readMessage h' p >>= fun m => .ok ((m.cmd, false) :: copiedParams m.params)) =
          .ok ((m.cmd, false) :: copiedParams m.params) := by
      rw [readMessage_eq (hread h' hsame).1 (hread h' hsame).2, Res.ok_bind]
    have hfree (h' : Heap Block) (hsame : ∀ a < h.next, h'.block a = h.block a) :
        chircMessageFree h' p = ms.blocks.foldlM free h' :=
      messageFree_eq (hread h' hsame).1 hreads.raw
    have htype : TypeIs nickname .user (.user (some nickname)) := .user
    have hnodup := List.nodup_append.mp (H.perm hperm).nodup
    have hcmd : ms.cmd ∈ ms.blocks := List.mem_append_right _ List.mem_cons_self
    rw [Cell.read, Res.ok_bind, writeReply_eq, bind_assoc]
    refine (writeReply_written ctx H hperm htype code hps hfree).map_left fun m' r W => ?_
    refine ⟨⟨m', W.text, rfl⟩, ?_, ⟨?_, ?_, W.le⟩, W.adds⟩
    · refine .freed ?_ hpfx ?_ (W.gone _ hcmd)
      · have hnot : p ∉ ms.blocks := fun h => hnodup.2.2 p h p List.mem_cons_self rfl
        exact (W.same p (hlive List.mem_cons_self) hnot).trans hp
      · exact Nat.lt_of_lt_of_le (hlive (List.mem_cons_of_mem _ hcmd)) W.le
    · intro a ha
      have hnot : a ∉ ms.blocks := fun h => hnodup.2.2 a h a (List.mem_cons_of_mem _ ha) rfl
      exact W.same a (Heap.lt_next (H.live a (List.mem_append_right _ ha))) hnot
    · intro a ha hnone
      have hnot : a ∉ ms.blocks := fun hmem =>
        H.live a (List.mem_append_left _ (List.mem_cons_of_mem _ hmem)) hnone
      exact (W.same a ha hnot).trans hnone

/-! ## Accounts -/

/-- The blocks that are left of a stored message: the struct, and the strings until they are
freed -/
def cellBlocks : Cell Message → Nat
  | .live m => m.params.length + 2
  | .freed => 1

/-- The blocks of the messages in `connection_hash` -/
def storedBlocks : List ConnectionMap → Nat
  | [] => 0
  | node :: nodes => cellBlocks node.msg + storedBlocks nodes

theorem CellAt.length_eq (H : CellAt h cell p bs) : bs.length = cellBlocks cell := by
  cases H with
  | freed => rfl
  | live hp hpfx hreads =>
    have hlen := congrArg List.length hreads.params
    rw [List.length_map, List.length_map] at hlen
    rw [List.length_cons, MessageStruct.blocks, hpfx, Option.toList_none, List.nil_append,
      List.length_cons, hlen]
    rfl

theorem Stored.length_eq (H : Stored h nodes es as) : as.length = storedBlocks nodes := by
  induction H with
  | nil => rfl
  | cons hcell _ ih => rw [List.length_append, hcell.length_eq, ih, storedBlocks]

/-- What has been written, and the blocks that there are: all but those of the messages in
`connection_hash` are lost, two for each reply. -/
structure Ledger (base : Heap Block) (w : Work) (s : HeapWork) : Prop where
  blocks : ∃ as lost, Stored s.heap w.srv.connectionHash s.nodes as ∧
    Adds base s.heap (as ++ lost) ∧ lost.length = 2 * w.out.length
  written : s.written = w.out.map fun m => wire (render m)

theorem Ledger.init (base : Heap Block) :
    Ledger base ⟨.init, [], [], false⟩ ⟨base, [], []⟩ :=
  ⟨⟨[], [], .nil, Adds.refl base, rfl⟩, rfl⟩

namespace Ledger
variable {base : Heap Block} {w : Work} {s : HeapWork} (L : Ledger base w s)
include L

theorem reply (ctx : Ctx) (call : ReplyCall) :
    Lockstep (Ledger base) (call.run ctx w) ((MessageOp.reply call).onHeap ctx s) := by
  obtain ⟨as, lost, hstored, hadds, hlost⟩ := L.blocks
  refine (call.sent ctx hadds w).map_right fun w' r hsent => ?_
  obtain ⟨m, rfl, W⟩ := hsent
  obtain ⟨response, msg, hadds'⟩ := W.adds
  have hsame (a : Nat) (ha : a < s.heap.next) : r.1.block a = s.heap.block a :=
    W.same a ha List.not_mem_nil
  have hmoved : (response :: msg :: (as ++ lost)).Perm (as ++ response :: msg :: lost) :=
    (List.perm_append_comm_assoc [response, msg] as lost)
  refine ⟨⟨as, response :: msg :: lost, hstored.keeps ⟨?_, ?_, W.le⟩, hadds'.perm hmoved, ?_⟩, ?_⟩
  · intro a ha
    exact hsame a (Heap.lt_next (hadds.live a (List.mem_append_left _ ha)))
  · intro a ha hnone
    exact (hsame a ha).trans hnone
  · rw [List.length_cons, List.length_cons, hlost, List.length_append]
    rfl
  · rw [L.written, W.text, List.map_append]
    rfl

theorem register (ctx : Ctx) (name : CStr) (fd : Nat) (cmd : CStr) (params : List CStr) :
    Lockstep (Ledger base) ((MessageOp.register name fd cmd params).run ctx w)
      ((MessageOp.register name fd cmd params).onHeap ctx s) := by
  obtain ⟨as, lost, hstored, hadds, hlost⟩ := L.blocks
  refine (copyMessage_copied hadds cmd params).bind fun m r C => .ok ?_
  obtain ⟨bs, hcell, hadds'⟩ := C.cell
  refine ⟨⟨bs ++ as, lost, .cons hcell (hstored.keeps ⟨?_, ?_, C.le⟩), ?_, hlost⟩, L.written⟩
  · intro a ha
    exact C.same a (Heap.lt_next (hadds.live a (List.mem_append_left _ ha)))
  · intro a ha hnone
    exact (C.same a ha).trans hnone
  · rw [List.append_assoc]
    exact hadds'

theorem whois (ctx : Ctx) (code name nickname : CStr) :
    Lockstep (Ledger base) ((MessageOp.whois code name nickname).run ctx w)
      ((MessageOp.whois code name nickname).onHeap ctx s) := by
  obtain ⟨as, lost, hstored, hadds, hlost⟩ := L.blocks
  rw [MessageOp.run, MessageOp.onHeap]
  cases hstored.found name with
  | none hfind hfind' =>
    rw [hfind, hfind']
    exact .ok L
  | some node p bs rest hfind hfind' hcell hperm hfreed =>
    have hname : node.name = name :=
      beq_iff_eq.mp (List.find?_some (p := fun n : ConnectionMap => n.name == name) hfind)
    have hadds' : Adds base s.heap (bs ++ (rest ++ lost)) := by
      rw [← List.append_assoc]
      exact hadds.perm (hperm.append_right lost)
    rw [hfind, hfind']
    refine (whoisReply_quoted ctx hadds' hcell code nickname w).map_right fun w' r Q => ?_
    obtain ⟨m, htext, rfl⟩ := Q.work
    obtain ⟨response, msg, hadds''⟩ := Q.adds
    obtain ⟨as', hstored', hperm'⟩ := hfreed r.1 [p]
      (Q.keeps.mono fun a ha => List.mem_append_left _ ha) Q.cell
    have hmoved : (response :: msg :: p :: (rest ++ lost)).Perm (as' ++ response :: msg :: lost) :=
      calc
        List.Perm ([response, msg] ++ ([p] ++ rest ++ lost)) ([response, msg] ++ (as' ++ lost)) :=
          (hperm'.symm.append_right lost).append_left [response, msg]
        List.Perm _ (as' ++ ([response, msg] ++ lost)) := List.perm_append_comm_assoc _ _ _
    refine ⟨⟨as', response :: msg :: lost, ?_, hadds''.perm hmoved, ?_⟩, ?_⟩
    · rw [hname]
      exact hstored'
    · rw [List.length_cons, List.length_cons, hlost, List.length_append]
      rfl
    · rw [L.written, htext, List.map_append]
      rfl

theorem step (ctx : Ctx) (op : MessageOp) :
    Lockstep (Ledger base) (op.run ctx w) (op.onHeap ctx s) := by
  cases op with
  | reply call => exact L.reply ctx call
  | register name fd cmd params => exact L.register ctx name fd cmd params
  | whois code name nickname => exact L.whois ctx code name nickname

omit L in
theorem run (ctx : Ctx) (base : Heap Block) (ops : List MessageOp) :
    Lockstep (Ledger base) (runMessageOps ctx ops) (runMessageOpsOnHeap ctx base ops) :=
  Lockstep.foldlM (fun _ _ op _ L => L.step ctx op) (Ledger.init base)

theorem length_eq : ∃ as, Adds base s.heap as ∧
    as.length = 2 * w.out.length + storedBlocks w.srv.connectionHash := by
  obtain ⟨as, lost, hstored, hadds, hlost⟩ := L.blocks
  refine ⟨as ++ lost, hadds, ?_⟩
  rw [List.length_append, hlost, hstored.length_eq, Nat.add_comm]

end Ledger

/-- The account after a sequence of calls -/
structure Accounted (base : Heap Block) (w : Work) (s : HeapWork) : Prop where
  written : s.written = w.out.map fun m => wire (render m)
  blocks : ∃ as, Adds base s.heap as ∧
    as.length = 2 * w.out.length + storedBlocks w.srv.connectionHash

/-- **What replies do to the memory.** Whatever replies are written, messages are stored for nodes
of `connection_hash` and quoted in WHOIS replies: on the heap the calls fail where they do for
messages that are values, with the same fault, and write the same bytes; they leave the blocks that
were there before alone; and besides the stored messages they leave two blocks for each reply. -/
theorem messages_accounted (ctx : Ctx) (base : Heap Block) (ops : List MessageOp) :
    Lockstep (Accounted base) (runMessageOps ctx ops) (runMessageOpsOnHeap ctx base ops) := by
  apply (Ledger.run ctx base ops).mono
  intro w s L
  exact ⟨L.written, L.length_eq⟩

end Chirc.MessageHeap
