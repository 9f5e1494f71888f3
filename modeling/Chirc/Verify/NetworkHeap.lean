import Chirc.Context.NetworkHeap
import Chirc.Verify.SdsJoin

/-! # The network file on the heap

On the heap, `chirc_ctx_load_network` does what it does to lists. The strings of the servers are the
tokens themselves; the line and the array of its tokens are not freed, and nothing points to them.
-/

namespace Chirc.Sds

open Allocation (Heap Adds)

/-- A struct has these fields. -/
structure ServerIs (h : Heap Contents) (server : ServerStruct) (ns : NetServer) : Prop where
  addr : server.addr = ns.addr
  servername : StringAt h server.servername ns.servername
  hostname : StringAt h server.hostname ns.hostname
  port : StringAt h server.port ns.port
  passwd : StringAt h server.passwd ns.passwd

/-- What is in memory is the network `net`. -/
structure NetworkIs (m : NetworkMem) (net : Network) : Prop where
  servers : List.Forall₂ (ServerIs m.heap) m.servers net.servers
  thisServer : Option.Rel (ServerIs m.heap) m.thisServer net.thisServer
  nextAddr : m.nextAddr = net.nextAddr

/-- The blocks of the strings of a struct -/
def ServerStruct.blocks (server : ServerStruct) : List Nat :=
  [server.servername.block, server.hostname.block, server.port.block, server.passwd.block]

section

variable {h h' : Heap Contents}

theorem StringAt.live (H : StringAt h p content) : h.block p.block ≠ none := by
  obtain ⟨L, hblock, -⟩ := H
  rw [hblock]
  exact nofun

theorem StringAt.of_adds (H : StringAt h p content) (hadds : Adds h h' as) :
    StringAt h' p content :=
  H.congr (hadds.block_of_live H.live)

theorem ServerIs.of_adds {server : ServerStruct} (H : ServerIs h server ns) (hadds : Adds h h' as) :
    ServerIs h' server ns where
  addr := H.addr
  servername := H.servername.of_adds hadds
  hostname := H.hostname.of_adds hadds
  port := H.port.of_adds hadds
  passwd := H.passwd.of_adds hadds

theorem rel_of_adds {server : Option ServerStruct} {ns : Option NetServer}
    (H : Option.Rel (ServerIs h) server ns) (hadds : Adds h h' as) :
    Option.Rel (ServerIs h') server ns := by
  cases H with
  | none => exact .none
  | some hs => exact .some (hs.of_adds hadds)

/-- A network in memory is the same one when other blocks are added. -/
theorem NetworkIs.of_adds {m : NetworkMem} (H : NetworkIs m net) (hadds : Adds m.heap h' as) :
    NetworkIs { m with heap := h' } net where
  servers := H.servers.imp fun _ _ hs => hs.of_adds hadds
  thisServer := rel_of_adds H.thisServer hadds
  nextAddr := H.nextAddr

theorem keyOf_eq {server : ServerStruct} (H : ServerIs h server ns) :
    keyOf h server = .ok ns.servername := by
  obtain ⟨L, hL, hcontent⟩ := H.servername.sdsAt
  rw [keyOf, hL, Stop.ok_bind, L.sdslen_sds, Stop.ok_bind, L.load_content, hcontent]

/-- `chirc_ctx_get_server` finds the struct that the lookup in a list finds. -/
theorem chircCtxGetServer_eq {servers : List ServerStruct} {list : List NetServer}
    (H : List.Forall₂ (ServerIs h) servers list) (name : CStr) :
    ∃ found, chircCtxGetServer h name servers = .ok found ∧
      Option.Rel (ServerIs h) found (list.find? (·.servername == name)) := by
  induction H with
  | nil => exact ⟨none, rfl, .none⟩
  | @cons server ns servers list hs _ ih =>
    rw [chircCtxGetServer, keyOf_eq hs, Stop.ok_bind, List.find?_cons]
    by_cases heq : ns.servername = name
    · rw [if_pos heq, beq_iff_eq.mpr heq]
      exact ⟨_, rfl, .some hs⟩
    · rw [if_neg heq, beq_eq_false_iff_ne.mpr heq]
      exact ih

theorem Layout.strlen_sds (L : Layout) (hnul : NUL ∉ L.content) :
    strlen L.sds.sh L.sds.s = .ok L.content.length := by
  have hlen := Layout.strlen_append (L.type.hdr L.content.length L.alloc) L.free hnul
  rw [L.type.length_hdr, List.append_assoc] at hlen
  exact hlen

theorem cstringAt_eq (H : StringAt h p content) (hnul : NUL ∉ content) :
    cstringAt h p = .ok content := by
  obtain ⟨L, hL, rfl⟩ := H.sdsAt
  rw [cstringAt, hL, Stop.ok_bind, L.strlen_sds hnul, Stop.ok_bind, L.load_content]

end

/-! ## A line -/

/-- The tokens of a line -/
def fields (l : List Byte) : List CStr :=
  Chirc.sdssplitlen (Chirc.sdstrim (cstrAt l 0) [SP, CR, LF]) COMMA

theorem nul_notMem_cstrAt (l : List Byte) (i : Nat) : NUL ∉ cstrAt l i := by
  intro h
  simpa using List.mem_takeWhile_imp h

/-- A line in the buffer of `getline` -/
theorem exists_cstrAt (l : List Byte) : ∃ post, l ++ [NUL] = cstrAt l 0 ++ NUL :: post := by
  have hsplit := List.takeWhile_append_dropWhile (p := (· != NUL)) (l := l)
  cases hd : l.dropWhile (· != NUL) with
  | nil =>
    rw [hd, List.append_nil] at hsplit
    exact ⟨[], by rw [cstrAt, List.drop_zero, hsplit]⟩
  | cons b w =>
    have hb := List.head?_dropWhile_not (· != NUL) l
    rw [hd] at hb hsplit
    have hb : b = NUL := by simpa using hb
    rw [hb] at hsplit
    refine ⟨w ++ [NUL], ?_⟩
    rw [cstrAt, List.drop_zero, ← List.cons_append, ← List.append_assoc, hsplit]

theorem strchr_eq {cset : CStr} {b : Byte} (hb : b ≠ NUL) : strchr cset b = decide (b ∈ cset) := by
  rw [strchr, beq_eq_false_iff_ne.mpr hb, Bool.false_or, List.contains_eq_mem]

theorem dropWhile_strchr {cset w : CStr} (h : NUL ∉ w) :
    w.dropWhile (strchr cset) = w.dropWhile (· ∈ cset) := by
  induction w with
  | nil => rfl
  | cons b w ih =>
    obtain ⟨hb, hw⟩ := List.ne_and_not_mem_of_not_mem_cons h
    rw [List.dropWhile_cons, List.dropWhile_cons, strchr_eq hb.symm, ih hw]

/-- On C strings, the trim of `sds.c` removes the characters of the set only. -/
theorem trim_eq {cset w : CStr} (h : NUL ∉ w) :
    (w.dropWhile (strchr cset)).rdropWhile (strchr cset) = Chirc.sdstrim w cset := by
  have hdrop : NUL ∉ (w.dropWhile (· ∈ cset)).reverse := by
    rw [List.mem_reverse]
    exact fun hmem => h ((List.dropWhile_suffix _).subset hmem)
  rw [dropWhile_strchr h, List.rdropWhile, dropWhile_strchr hdrop]
  rfl

theorem partsOf_singleton (c : Byte) (w : CStr) : partsOf [c] w = Chirc.sdssplitlen w c := by
  rw [partsOf, Chirc.sdssplitlen]
  exact congrArg _ (Splitting.split_singleton c w)

theorem trim_subset (w : CStr) (cset : List Byte) : Chirc.sdstrim w cset ⊆ w := by
  intro b hb
  rw [Chirc.sdstrim, List.mem_reverse] at hb
  have hb := (List.dropWhile_suffix _).subset hb
  rw [List.mem_reverse] at hb
  exact (List.dropWhile_suffix _).subset hb

theorem nul_notMem_field (h : field ∈ fields l) : NUL ∉ field := by
  intro hnul
  rw [fields, ← partsOf_singleton, partsOf] at h
  split at h
  · cases h
  · exact nul_notMem_cstrAt l 0 (trim_subset _ _ (Splitting.subset_of_mem_split h hnul))

theorem length_trim_le (w : CStr) (cset : List Byte) :
    (Chirc.sdstrim w cset).length ≤ w.length := by
  have h := (List.dropWhile_suffix (l := w) (· ∈ cset)).length_le
  have h' := (List.dropWhile_suffix (l := (w.dropWhile (· ∈ cset)).reverse) (· ∈ cset)).length_le
  rw [List.length_reverse] at h'
  rw [Chirc.sdstrim, List.length_reverse]
  exact h'.trans h

theorem Layout.drop_sds (L : Layout) : L.sds.sh.drop L.sds.s = L.content ++ NUL :: L.free := by
  have h : (L.type.hdr L.content.length L.alloc ++ (L.content ++ NUL :: L.free)).drop
      (L.type.hdr L.content.length L.alloc).length = L.content ++ NUL :: L.free := List.drop_left
  rw [L.type.length_hdr] at h
  exact h

theorem length_cstrAt_le (l : List Byte) : (cstrAt l 0).length ≤ l.length := by
  rw [cstrAt, List.drop_zero]
  exact (List.takeWhile_prefix _).length_le

section

variable (mallocs : Nat → Malloc)

/-- `malloc` refuses one request, the first one besides those in `refused`, and the load ends there:
with an access through NULL, with a read of the `count` that `sdssplitlen` has not set, or with a
failure. -/
def NoMemoryToLoad (mallocs : Nat → Malloc) (refused : List (Nat × Nat))
    (res : Except Stop (NetworkMem × γ)) (failed : γ) : Prop :=
  ∃ call size, (mallocs call).run size = none ∧ (res = .error (.noMemory call size) ∨
    res = .error (.countUnset ((call, size) :: refused)) ∨
    ∃ m', res = .ok (m', failed) ∧ m'.heap.refused = (call, size) :: refused)

theorem loadLine_of_ptr (m : NetworkMem) (servername : CStr) {l : List Byte} {L M : Layout}
    (hstrlen : strlen (l ++ [NUL]) 0 = .ok n)
    (hnew : sdsnewlen (mallocs m.heap.next) (.ptr (l ++ [NUL]) 0) n = .ok (.ptr L.sds))
    (htrim : sdstrim L.sds [SP, CR, LF] = .ok M.sds)
    (hsplit : sdssplitlen mallocs
      ((m.heap.alloc (.bytes L.sds.sh)).set m.heap.next (.bytes M.sds.sh))
      (M.content ++ NUL :: M.free) M.content.length [COMMA, NUL] 1 = .ok r) :
    loadLine mallocs m servername l = useSplit mallocs m servername r := by
  rw [loadLine, hstrlen, Stop.ok_bind, hnew]
  change (do
    let x ← sdstrim L.sds [SP, CR, LF]
    let split ← sdssplitlen mallocs
      ((m.heap.alloc (.bytes L.sds.sh)).set m.heap.next (.bytes x.sh)) (x.sh.drop x.s)
      (← sdslen x) [COMMA, NUL] 1
    useSplit mallocs m servername split) = _
  rw [htrim, Stop.ok_bind, M.sdslen_sds, Stop.ok_bind, M.drop_sds, hsplit]
  rfl

/-- The line becomes a string, and its tokens another array. -/
theorem loadLine_split (m : NetworkMem) (servername : CStr) {l : List Byte}
    (hlen : l.length < 1073741823) :
    NoMemoryToLoad mallocs m.heap.refused (loadLine mallocs m servername l) (some chircFail) ∨
      ∃ r a slots line ps h, loadLine mallocs m servername l = useSplit mallocs m servername r ∧
        r.heap.refused = m.heap.refused ∧ r.tokens = some a ∧ r.count = some (fields l).length ∧
        Adds m.heap h [line] ∧ Tokens h r.heap a slots ps (fields l) := by
  have hle := length_cstrAt_le l
  have hnul := nul_notMem_cstrAt l 0
  obtain ⟨post, hpost⟩ := exists_cstrAt l
  have hstrlen : strlen (l ++ [NUL]) 0 = .ok (cstrAt l 0).length := by
    rw [hpost]
    exact Layout.strlen_append [] post hnul
  have hload : load (l ++ [NUL]) 0 (cstrAt l 0).length = .ok (cstrAt l 0) :=
    load_of_eq [] (NUL :: post) hpost rfl rfl
  cases sdsnewlen_ptr (mallocs m.heap.next) hload (by omega) with
  | inl hnull =>
    obtain ⟨size, hnull, hfail⟩ := hnull
    refine .inl ⟨_, size, hfail, .inl ?_⟩
    rw [loadLine, hstrlen, Stop.ok_bind, hnull]
    rfl
  | inr hnew =>
    obtain ⟨L, hnew, hL⟩ := hnew
    obtain ⟨M, htrim, hM⟩ := L.sdstrim_sds [SP, CR, LF]
    rw [hL, trim_eq hnul] at hM
    have hadds : Adds m.heap ((m.heap.alloc (.bytes L.sds.sh)).set m.heap.next (.bytes M.sds.sh))
        [m.heap.next] := ((Adds.refl _).alloc _).set List.mem_cons_self _
    have hlenM : M.content.length < 1073741823 := by
      have htrim := length_trim_le (cstrAt l 0) [SP, CR, LF]
      rw [hM]
      omega
    obtain ⟨r, hsplit, hnull | htokens⟩ := sdssplitlen_cases (List.cons_ne_nil COMMA [])
      hlenM mallocs ((m.heap.alloc (.bytes L.sds.sh)).set m.heap.next (.bytes M.sds.sh))
      (NUL :: M.free) [NUL]
    · obtain ⟨-, -, ⟨call, size, hrefused, hfail⟩, hcount⟩ := hnull
      refine .inl ⟨call, size, hfail, .inr ?_⟩
      rw [loadLine_of_ptr mallocs m servername hstrlen hnew htrim hsplit, useSplit]
      cases hcount with
      | inl hcount =>
        rw [hcount]
        exact .inl (congrArg (fun refused => Except.error (Stop.countUnset refused)) hrefused)
      | inr hcount =>
        rw [hcount]
        exact .inr ⟨_, rfl, hrefused⟩
    · obtain ⟨a, slots, ps, ha, hcount, hrefused, htokens⟩ := htokens
      rw [partsOf_singleton, hM] at hcount htokens
      exact .inr ⟨r, a, slots, m.heap.next, ps, _,
        loadLine_of_ptr mallocs m servername hstrlen hnew htrim hsplit, hrefused, ha, hcount, hadds,
        htokens⟩

end

/-! ## What is done with the tokens -/

/-- What four tokens do to lists; a code is what the load returns. -/
def addRow (servername : CStr) (net : Network) (token₀ token₁ token₂ token₃ : CStr) :
    Network × Option Int :=
  match Chirc.chircCtxGetServer net token₀ with
  | some _ => (net, some chircFail)
  | none =>
    let ns : NetServer := ⟨net.nextAddr, token₀, token₁, token₂, token₃⟩
    let net := Chirc.chircCtxAddServer { net with nextAddr := net.nextAddr + 1 } ns
    (if ns.servername = servername then { net with thisServer := some ns } else net, none)

/-- A line, on lists -/
def loadStep (servername : CStr) (net : Network) (l : List Byte) : Network × Option Int :=
  match fields l with
  | [token₀, token₁, token₂, token₃] => addRow servername net token₀ token₁ token₂ token₃
  | _ => (net, some chircFail)

theorem loadLoop_cons (servername : CStr) (net : Network) (l : List Byte) (ls : List (List Byte)) :
    Chirc.loadLoop servername (l :: ls) net =
      match (loadStep servername net l).2 with
      | some code => ((loadStep servername net l).1, code)
      | none => Chirc.loadLoop servername ls (loadStep servername net l).1 := by
  rw [Chirc.loadLoop, loadStep, fields]
  generalize Chirc.sdssplitlen (Chirc.sdstrim (cstrAt l 0) [SP, CR, LF]) COMMA = tokens
  obtain _ | ⟨token₀, _ | ⟨token₁, _ | ⟨token₂, _ | ⟨token₃, _ | ⟨_, _⟩⟩⟩⟩⟩ := tokens
  · rfl
  · rfl
  · rfl
  · rfl
  · dsimp only [addRow]
    cases Chirc.chircCtxGetServer net token₀ <;> rfl
  · rfl

theorem loadStep_of_ne {servername : CStr} {net : Network} {l : List Byte}
    (h : (fields l).length ≠ 4) : loadStep servername net l = (net, some chircFail) := by
  rw [loadStep]
  split
  · next heq => exact absurd (congrArg List.length heq) h
  · rfl

/-- What has been added to the heap: the strings of the new structs, and blocks that nothing points
to, two for each of these structs at least -/
structure Loaded (m m' : NetworkMem) (news : List ServerStruct) (leaked : List Nat) : Prop where
  servers : m'.servers = news ++ m.servers
  adds : Adds m.heap m'.heap (news.flatMap ServerStruct.blocks ++ leaked)
  two : 2 * news.length ≤ leaked.length

section

variable (mallocs : Nat → Malloc) {m : NetworkMem} {net : Network}

/-- What a line does that is refused -/
theorem Loaded.refused {h h' : Heap Contents} {ps : List Ptr} {parts : List (List Byte)}
    (hadds : Adds m.heap h [line]) (htokens : Tokens h h' a slots ps parts) :
    Loaded m { m with heap := h' } [] (a :: ps.map Ptr.block ++ [line]) where
  servers := rfl
  adds := hadds.trans htokens.adds
  two := Nat.zero_le _

theorem tokenAt_eq {base h : Heap Contents} {ps : List Ptr} {parts : List (List Byte)}
    (H : Tokens base h a slots ps parts) (hp : ps[i]? = some p) : tokenAt h a i = .ok p := by
  obtain ⟨hi, hpi⟩ := List.getElem?_eq_some_iff.mp hp
  rw [tokenAt, H.entryAt_eq hi, hpi]
  rfl

theorem addRow_of_none {servername token₀ token₁ token₂ token₃ : CStr}
    (h : net.servers.find? (·.servername == token₀) = none) :
    addRow servername net token₀ token₁ token₂ token₃ =
      (⟨⟨net.nextAddr, token₀, token₁, token₂, token₃⟩ :: net.servers,
        if token₀ = servername then some ⟨net.nextAddr, token₀, token₁, token₂, token₃⟩
        else net.thisServer, net.nextAddr + 1⟩, none) := by
  rw [addRow, Chirc.chircCtxGetServer, h]
  dsimp only
  split <;> rfl

/-- Four tokens become a struct, or their name is taken. -/
theorem addTokens_cases (servername : CStr) {base : Heap Contents} {p₀ p₁ p₂ p₃ : Ptr}
    {token₀ token₁ token₂ token₃ : CStr} (Hnet : NetworkIs m net)
    (H : Tokens base m.heap a slots [p₀, p₁, p₂, p₃] [token₀, token₁, token₂, token₃])
    (hnul : NUL ∉ token₀) :
    (addTokens mallocs m servername a = .error (.noMemory m.heap.next sizeofServer) ∧
        (mallocs m.heap.next).run sizeofServer = none) ∨
      ∃ m', addTokens mallocs m servername a =
          .ok (m', (addRow servername net token₀ token₁ token₂ token₃).2) ∧
        NetworkIs m' (addRow servername net token₀ token₁ token₂ token₃).1 ∧
        ((addRow servername net token₀ token₁ token₂ token₃).2 = some chircFail ∧ m' = m ∨
          (addRow servername net token₀ token₁ token₂ token₃).2 = none ∧ m'.heap = m.heap.skip ∧
            ∃ ns : ServerStruct, m'.servers = ns :: m.servers ∧
              ns.blocks = [p₀, p₁, p₂, p₃].map Ptr.block) := by
  obtain ⟨found, hfound, hrel⟩ := chircCtxGetServer_eq Hnet.servers token₀
  obtain ⟨H₀, H₁, H₂, H₃⟩ : StringAt m.heap p₀ token₀ ∧ StringAt m.heap p₁ token₁ ∧
      StringAt m.heap p₂ token₂ ∧ StringAt m.heap p₃ token₃ := by
    have hparts := H.parts
    simp only [List.forall₂_cons] at hparts
    exact ⟨hparts.1, hparts.2.1, hparts.2.2.1, hparts.2.2.2.1⟩
  rw [addTokens, tokenAt_eq H (i := 0) rfl, Stop.ok_bind, cstringAt_eq H₀ hnul, Stop.ok_bind,
    hfound, Stop.ok_bind]
  generalize htaken : net.servers.find? (·.servername == token₀) = taken at hrel
  cases hrel with
  | some _ =>
    rw [addRow, Chirc.chircCtxGetServer, htaken]
    exact .inr ⟨m, rfl, Hnet, .inl ⟨rfl, rfl⟩⟩
  | none =>
    cases hmalloc : (mallocs m.heap.next).run sizeofServer with
    | none => exact .inl ⟨rfl, rfl⟩
    | some bytes =>
      have hskip : Adds m.heap m.heap.skip [] := (Adds.refl m.heap).skip
      have hskipped := Hnet.of_adds hskip
      generalize hns : (⟨m.nextAddr, p₀, p₁, p₂, p₃⟩ : ServerStruct) = ns
      have hserver : ServerIs m.heap.skip ns ⟨net.nextAddr, token₀, token₁, token₂, token₃⟩ := by
        rw [← hns]
        exact ⟨Hnet.nextAddr, H₀.of_adds hskip, H₁.of_adds hskip, H₂.of_adds hskip,
          H₃.of_adds hskip⟩
      have hblocks : ns.blocks = [p₀, p₁, p₂, p₃].map Ptr.block := by
        rw [← hns]
        rfl
      rw [addRow_of_none htaken]
      refine .inr ⟨⟨m.heap.skip, ns :: m.servers,
        if token₀ = servername then some ns else m.thisServer, m.nextAddr + 1⟩, ?_, ?_,
        .inr ⟨rfl, rfl, ns, rfl, hblocks⟩⟩
      · rw [tokenAt_eq H (i := 1) rfl, tokenAt_eq H (i := 2) rfl, tokenAt_eq H (i := 3) rfl]
        change (do
          if (← cstringAt m.heap.skip p₀) = servername then
            return ((⟨m.heap.skip, _ :: m.servers, some _, m.nextAddr + 1⟩ : NetworkMem),
              (none : Option Int))
          else return (⟨m.heap.skip, _ :: m.servers, m.thisServer, m.nextAddr + 1⟩, none)) = _
        rw [cstringAt_eq (H₀.of_adds hskip) hnul, Stop.ok_bind, ← hns]
        split <;> rfl
      · refine ⟨.cons hserver hskipped.servers, ?_, congrArg (· + 1) Hnet.nextAddr⟩
        dsimp only
        split
        · exact .some hserver
        · exact hskipped.thisServer

/-- The tokens of a line become a struct, or the line is refused, as on lists. -/
theorem useSplit_cases (servername : CStr) {l : List Byte} {r : SplitResult}
    (Hnet : NetworkIs m net) (ha : r.tokens = some a) (hcount : r.count = some (fields l).length)
    {h : Heap Contents} (hrefused : r.heap.refused = m.heap.refused) (hadds : Adds m.heap h [line])
    (htokens : Tokens h r.heap a slots ps (fields l)) :
    NoMemoryToLoad mallocs m.heap.refused (useSplit mallocs m servername r) (some chircFail) ∨
      ∃ m' news leaked, useSplit mallocs m servername r = .ok (m', (loadStep servername net l).2) ∧
        m'.heap.refused = m.heap.refused ∧ NetworkIs m' (loadStep servername net l).1 ∧
        Loaded m m' news leaked ∧
        ((loadStep servername net l).2 = some chircFail ∨
          (loadStep servername net l).2 = none ∧ news.length = 1 ∧ leaked.length = 2) := by
  have hall : Adds m.heap r.heap (a :: ps.map Ptr.block ++ [line]) := hadds.trans htokens.adds
  rw [useSplit, hcount]
  by_cases h4 : (fields l).length = 4
  · obtain ⟨token₀, token₁, token₂, token₃, hfields⟩ : ∃ token₀ token₁ token₂ token₃,
        fields l = [token₀, token₁, token₂, token₃] := by
      generalize fields l = tokens at h4
      obtain _ | ⟨token₀, _ | ⟨token₁, _ | ⟨token₂, _ | ⟨token₃, _ | ⟨_, _⟩⟩⟩⟩⟩ := tokens
      all_goals first | exact ⟨_, _, _, _, rfl⟩ | cases h4
    have hmem : token₀ ∈ fields l := by
      rw [hfields]
      exact List.mem_cons_self
    have hnul : NUL ∉ token₀ := nul_notMem_field hmem
    obtain ⟨p₀, p₁, p₂, p₃, rfl⟩ : ∃ p₀ p₁ p₂ p₃, ps = [p₀, p₁, p₂, p₃] := by
      have hlen := htokens.parts.length_eq.trans h4
      obtain _ | ⟨p₀, _ | ⟨p₁, _ | ⟨p₂, _ | ⟨p₃, _ | ⟨_, _⟩⟩⟩⟩⟩ := ps
      all_goals first | exact ⟨_, _, _, _, rfl⟩ | cases hlen
    have hstep : loadStep servername net l = addRow servername net token₀ token₁ token₂ token₃ := by
      rw [loadStep, hfields]
    rw [hfields] at htokens
    rw [h4, hstep, ha]
    dsimp only
    rw [if_pos rfl]
    cases addTokens_cases mallocs (m := { m with heap := r.heap }) servername
      (Hnet.of_adds hall) htokens hnul with
    | inl hnull => exact .inl ⟨_, _, hnull.2, .inl hnull.1⟩
    | inr hrow =>
      obtain ⟨m', hrun, hnet, ⟨hcode, rfl⟩ | ⟨hcode, hheap, ns, hservers, hblocks⟩⟩ := hrow
      · exact .inr ⟨_, [], _, hrun, hrefused, hnet, .refused hadds htokens, .inl hcode⟩
      · refine .inr ⟨m', [ns], [a, line], hrun, ?_, hnet, ⟨hservers, ?_, Nat.le_refl _⟩,
          .inr ⟨hcode, rfl, rfl⟩⟩
        · rw [hheap]
          exact hrefused
        rw [hheap, List.flatMap_singleton, hblocks]
        refine hall.skip.perm ?_
        rw [List.cons_append]
        exact List.perm_middle.symm
  · rw [loadStep_of_ne h4]
    dsimp only
    rw [if_neg h4]
    exact .inr ⟨_, _, _, rfl, hrefused, Hnet.of_adds hall, .refused hadds htokens, .inl rfl⟩

/-- A line that `getline` has read -/
theorem loadLine_cases (servername : CStr) {l : List Byte} (hlen : l.length < 1073741823)
    (Hnet : NetworkIs m net) :
    NoMemoryToLoad mallocs m.heap.refused (loadLine mallocs m servername l) (some chircFail) ∨
      ∃ m' news leaked, loadLine mallocs m servername l = .ok (m', (loadStep servername net l).2) ∧
        m'.heap.refused = m.heap.refused ∧ NetworkIs m' (loadStep servername net l).1 ∧
        Loaded m m' news leaked ∧
        ((loadStep servername net l).2 = some chircFail ∨
          (loadStep servername net l).2 = none ∧ news.length = 1 ∧ leaked.length = 2) := by
  cases loadLine_split mallocs m servername hlen with
  | inl hfail => exact .inl hfail
  | inr hsplit =>
    obtain ⟨r, a, slots, line, ps, h, hline, hrefused, ha, hcount, hadds, htokens⟩ := hsplit
    rw [hline]
    exact useSplit_cases mallocs servername Hnet ha hcount hrefused hadds htokens

/-! ## The file -/

theorem Loaded.trans {m' m'' : NetworkMem} (H : Loaded m m' news leaked)
    (H' : Loaded m' m'' news' leaked') : Loaded m m'' (news' ++ news) (leaked' ++ leaked) where
  servers := by rw [H'.servers, H.servers, List.append_assoc]
  adds := by
    refine (H.adds.trans H'.adds).perm ?_
    rw [List.flatMap_append, List.append_assoc, List.append_assoc]
    refine .append_left _ ?_
    rw [← List.append_assoc, ← List.append_assoc]
    exact .append_right _ List.perm_append_comm
  two := by
    have h := H.two
    have h' := H'.two
    rw [List.length_append, List.length_append]
    omega

theorem loadLoop_cases (servername : CStr) {ls : List (List Byte)}
    (hlen : ∀ l ∈ ls, l.length < 1073741823) (Hnet : NetworkIs m net) :
    NoMemoryToLoad mallocs m.heap.refused (loadLoop mallocs servername ls m) chircFail ∨
      ∃ m' news leaked, loadLoop mallocs servername ls m =
          .ok (m', (Chirc.loadLoop servername ls net).2) ∧
        m'.heap.refused = m.heap.refused ∧ NetworkIs m' (Chirc.loadLoop servername ls net).1 ∧
        Loaded m m' news leaked ∧
        ((Chirc.loadLoop servername ls net).2 = chircOk →
          news.length = ls.length ∧ leaked.length = 2 * ls.length) := by
  induction ls generalizing m net with
  | nil =>
    have hrel := Hnet.thisServer
    refine .inr ⟨m, [], [], ?_, rfl, Hnet, ⟨rfl, Adds.refl _, Nat.le_refl _⟩, fun _ => ⟨rfl, rfl⟩⟩
    rw [loadLoop, Chirc.loadLoop]
    generalize m.thisServer = server at hrel
    generalize net.thisServer = ns at hrel
    cases hrel <;> rfl
  | cons l ls ih =>
    obtain ⟨hl, hls⟩ := List.forall_mem_cons.mp hlen
    rw [loadLoop_cons]
    rw [loadLoop]
    cases loadLine_cases mallocs servername hl Hnet with
    | inl hfail =>
      obtain ⟨call, size, hfail, hcrash | hcrash | ⟨m', hrun, hrefused⟩⟩ := hfail
      · rw [hcrash]
        exact .inl ⟨call, size, hfail, .inl rfl⟩
      · rw [hcrash]
        exact .inl ⟨call, size, hfail, .inr (.inl rfl)⟩
      · rw [hrun]
        exact .inl ⟨call, size, hfail, .inr (.inr ⟨m', rfl, hrefused⟩)⟩
    | inr hline =>
      obtain ⟨m₁, news, leaked, hrun, hrefused, hnet, hloaded, hcode⟩ := hline
      rw [hrun, Stop.ok_bind]
      obtain hcode | ⟨hcode, hnews, hleaked⟩ := hcode
      · rw [hcode]
        exact .inr ⟨m₁, news, leaked, rfl, hrefused, hnet, hloaded, nofun⟩
      · rw [hcode, ← hrefused]
        cases ih hls hnet with
        | inl hfail => exact .inl hfail
        | inr hrest =>
          obtain ⟨m₂, news', leaked', hrun', hrefused', hnet', hloaded', hall⟩ := hrest
          refine .inr ⟨m₂, news' ++ news, leaked' ++ leaked, hrun', hrefused', hnet',
            hloaded.trans hloaded', fun hok => ?_⟩
          obtain ⟨hlen₁, hlen₂⟩ := hall hok
          rw [List.length_append, List.length_append, List.length_cons]
          omega

theorem ServerIs.live {server : ServerStruct} (H : ServerIs h server ns) (ha : a ∈ server.blocks) :
    h.block a ≠ none := by
  simp only [ServerStruct.blocks, List.mem_cons, List.not_mem_nil, or_false] at ha
  obtain rfl | rfl | rfl | rfl := ha
  · exact H.servername.live
  · exact H.hostname.live
  · exact H.port.live
  · exact H.passwd.live

/-- No struct of the table points to a leaked block. -/
theorem Loaded.notMem_blocks {m' : NetworkMem} (H : Loaded m m' news leaked)
    (Hnet : NetworkIs m net) (ha : a ∈ leaked) : ∀ server ∈ m'.servers, a ∉ server.blocks := by
  intro server hserver hblock
  rw [H.servers, List.mem_append] at hserver
  cases hserver with
  | inl hnew =>
    have hdisj := (List.nodup_append.mp H.adds.nodup).2.2
    exact hdisj a (List.mem_flatMap.mpr ⟨server, hnew, hblock⟩) a ha rfl
  | inr hold =>
    obtain ⟨ns, hs⟩ := exists_of_forall₂ Hnet.servers server hold
    exact hs.live hblock (H.adds.unused (List.mem_append_right _ ha))

/-- Unless `malloc` refuses a request, the load on the heap is the load on lists, and no call of it
uses memory that is not its own. The strings stay where the split has put them; a load that succeeds
leaks two blocks for every line of the file. -/
theorem chircCtxLoadNetwork_refines (servername : CStr) {content : List Byte}
    (hlen : ∀ l ∈ getLines [] content, l.length < 1073741823) (Hnet : NetworkIs m net) :
    NoMemoryToLoad mallocs m.heap.refused
        (chircCtxLoadNetwork mallocs m (some content) servername) chircFail ∨
      ∃ m' news leaked, chircCtxLoadNetwork mallocs m (some content) servername =
        .ok (m', (Chirc.chircCtxLoadNetwork net (some content) servername).2) ∧
      m'.heap.refused = m.heap.refused ∧
      NetworkIs m' (Chirc.chircCtxLoadNetwork net (some content) servername).1 ∧
      Loaded m m' news leaked ∧
      (∀ a ∈ leaked, m'.heap.block a ≠ none ∧ ∀ server ∈ m'.servers, a ∉ server.blocks) ∧
      ((Chirc.chircCtxLoadNetwork net (some content) servername).2 = chircOk →
        news.length = (getLines [] content).length ∧
        leaked.length = 2 * (getLines [] content).length) := by
  cases loadLoop_cases mallocs servername hlen Hnet with
  | inl hfail => exact .inl hfail
  | inr hload =>
    obtain ⟨m', news, leaked, hrun, hrefused, hnet, hloaded, hok⟩ := hload
    refine .inr ⟨m', news, leaked, hrun, hrefused, hnet, hloaded, fun a ha => ⟨?_, ?_⟩, hok⟩
    · exact hloaded.adds.live a (List.mem_append_right _ ha)
    · exact hloaded.notMem_blocks Hnet ha

/-- Two servers, of which the second one is this server -/
theorem chircCtxLoadNetwork_refines_two : ∃ m' news leaked,
    chircCtxLoadNetwork (fun _ => freshMemory) ⟨Heap.empty, [], none, 0⟩
      (some (lit "a,h,1,p\r\nb,h,2,q\n")) (lit "b") = .ok (m', chircOk) ∧
    NetworkIs m'
      ⟨[⟨1, lit "b", lit "h", lit "2", lit "q"⟩, ⟨0, lit "a", lit "h", lit "1", lit "p"⟩],
        some ⟨1, lit "b", lit "h", lit "2", lit "q"⟩, 2⟩ ∧
    Loaded ⟨Heap.empty, [], none, 0⟩ m' news leaked ∧ news.length = 2 ∧ leaked.length = 4 := by
  have hnet : NetworkIs ⟨Heap.empty, [], none, 0⟩ ⟨[], none, 0⟩ := ⟨.nil, .none, rfl⟩
  have hrun : Chirc.chircCtxLoadNetwork ⟨[], none, 0⟩ (some (lit "a,h,1,p\r\nb,h,2,q\n"))
        (lit "b") =
      (⟨[⟨1, lit "b", lit "h", lit "2", lit "q"⟩, ⟨0, lit "a", lit "h", lit "1", lit "p"⟩],
        some ⟨1, lit "b", lit "h", lit "2", lit "q"⟩, 2⟩, chircOk) := by decide
  have hlines : getLines [] (lit "a,h,1,p\r\nb,h,2,q\n") =
      [lit "a,h,1,p\r\n", lit "b,h,2,q\n"] := by decide
  have hlen : ∀ l ∈ getLines [] (lit "a,h,1,p\r\nb,h,2,q\n"), l.length < 1073741823 := by
    rw [hlines]
    decide
  obtain ⟨_, size, hfail, -⟩ | ⟨m', news, leaked, hload, -, hm', hloaded, -, hok⟩ :=
    chircCtxLoadNetwork_refines (fun _ => freshMemory) (lit "b") hlen hnet
  · exact absurd hfail (freshMemory_run size)
  · rw [hrun] at hload hm' hok
    rw [hlines] at hok
    obtain ⟨hnews, hleaked⟩ := hok rfl
    exact ⟨m', news, leaked, hload, hm', hloaded, hnews, hleaked⟩

end

end Chirc.Sds
