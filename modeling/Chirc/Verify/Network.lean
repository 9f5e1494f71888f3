import Chirc.Context.Network
import Mathlib.Data.List.Nodup
import Mathlib.Data.List.TakeWhile

/-! # What a network file loads

A network file is a text of lines, each of which is a row of fields. It is accepted exactly if each
row has four fields, no two rows have the same name, and one of them has the name of this server;
then the table holds the rows. -/

namespace Chirc

/-! ## Network files -/

/-- The lines of a text, the last of which may lack its newline. -/
def textLines (content : List Byte) : List CStr :=
  let ls := content.splitOn LF
  if ls.getLast? = some [] then ls.dropLast else ls

/-- A line without the spaces and line ends around it, split at commas. -/
def row (line : CStr) : List CStr := (sdstrim line [SP, CR, LF]).splitOn COMMA

def networkRows (content : List Byte) : List (List CStr) := (textLines content).map row

/-- The first field of a row. -/
def rowName (r : List CStr) : CStr := r.headD []

/-- A network that the server `servername` can be part of. -/
structure ValidNetwork (servername : CStr) (rows : List (List CStr)) : Prop where
  four : ∀ r ∈ rows, r.length = 4
  nodup : (rows.map rowName).Nodup
  mem : servername ∈ rows.map rowName

def NetServer.fields (ns : NetServer) : List CStr :=
  [ns.servername, ns.hostname, ns.port, ns.passwd]

/-- The table holds the rows in their order, in structs of their own, and this server is the one
with its name. -/
structure HoldsNetwork (servername : CStr) (rows : List (List CStr)) (net : Network) : Prop where
  rows : net.servers.reverse.map NetServer.fields = rows
  structs : (net.servers.map (·.addr)).Nodup
  this : ∃ ns ∈ net.servers, ns.servername = servername ∧ net.thisServer = some ns

/-! ## Lines -/

theorem sdstrim_newline (s : CStr) : sdstrim (s ++ [LF]) [SP, CR, LF] = sdstrim s [SP, CR, LF] := by
  rw [sdstrim, sdstrim, List.dropWhile_append]
  split
  · next h =>
    rw [List.isEmpty_iff.mp h]
    decide
  · rw [List.reverse_append]
    simp

theorem textLines_newline (hline : LF ∉ line) (content : List Byte) :
    textLines (line ++ LF :: content) = line :: textLines content := by
  rw [textLines, textLines, List.splitOn_append_cons_self_of_not_mem hline]
  obtain ⟨l, ls, hls⟩ := List.exists_cons_of_ne_nil (List.splitOn_ne_nil LF content)
  simp only [hls, List.getLast?_cons_cons, List.dropLast_cons_cons]
  split <;> rfl

theorem textLines_last (hline : LF ∉ line) (hne : line ≠ []) : textLines line = [line] := by
  simp [textLines, List.splitOn_eq_singleton hline, hne]

/-- `getline` reads the lines of the text. -/
theorem getLines_rows {acc : List Byte} (hacc : LF ∉ acc) (content : List Byte) :
    (getLines acc content).map row = networkRows (acc ++ content) := by
  induction content generalizing acc with
  | nil =>
    rw [List.append_nil, getLines, networkRows]
    split
    · next h => rw [h]; rfl
    · next h => rw [textLines_last hacc h]
  | cons b content ih =>
    rw [getLines]
    split
    · next h =>
      rw [h, networkRows, textLines_newline hacc, List.map_cons, List.map_cons, ih List.not_mem_nil,
        row, sdstrim_newline]
      rfl
    · next h =>
      have hacc' : LF ∉ acc ++ [b] := by simpa [hacc] using Ne.symm h
      rw [ih hacc', List.append_assoc]
      rfl

theorem mem_of_mem_getLines {acc content : List Byte} (hl : l ∈ getLines acc content) (hb : b ∈ l) :
    b ∈ acc ++ content := by
  induction content generalizing acc with
  | nil =>
    rw [getLines] at hl
    split at hl
    · simp at hl
    · simpa [List.mem_singleton.mp hl] using hb
  | cons c content ih =>
    rw [getLines] at hl
    split at hl
    · rcases List.mem_cons.mp hl with rfl | hl
      · rcases List.mem_append.mp hb with hb | hb
        · exact List.mem_append_left _ hb
        · simp [List.mem_singleton.mp hb]
      · have := ih hl
        simp only [List.nil_append] at this
        simp [this]
    · simpa using ih hl

/-- What `sdssplitlen` gives for a line that is not empty is its row; an empty line has no tokens,
and one field. -/
theorem sdssplitlen_eq_four (s : CStr) :
    sdssplitlen s COMMA = [a, b, c, d] ↔ s.splitOn COMMA = [a, b, c, d] := by
  rw [sdssplitlen]
  split
  · next h => simp [h]
  · rfl

/-- The row of a line as `getline` reads it, up to its first NUL. -/
def lineRow (l : List Byte) : List CStr := row (cstrAt l 0)

theorem cstrAt_of_not_mem (hs : NUL ∉ s) : cstrAt s 0 = s := by
  have h : ∀ b ∈ s, (b != NUL) = true := by
    intro b hb
    simpa using fun h : b = NUL => hs (h ▸ hb)
  simpa [cstrAt] using List.takeWhile_eq_self_iff.mpr h

/-! ## The loop -/

/-- The names in the table, in the order in which they were added. -/
def Network.names (net : Network) : List CStr := net.servers.reverse.map (·.servername)

/-- What the loop keeps: names and addresses are distinct, and this server is the one with its
name. -/
structure Loading (servername : CStr) (net : Network) : Prop where
  names : net.names.Nodup
  structs : (net.servers.map (·.addr)).Nodup
  fresh : ∀ ns ∈ net.servers, ns.addr < net.nextAddr
  this : ∀ ns, net.thisServer = some ns ↔ ns ∈ net.servers ∧ ns.servername = servername

theorem Network.mem_names {net : Network} :
    name ∈ net.names ↔ ∃ ns ∈ net.servers, ns.servername = name := by
  simp [Network.names]

theorem chircCtxGetServer_eq_none {net : Network} :
    chircCtxGetServer net name = none ↔ name ∉ net.names := by
  rw [chircCtxGetServer, List.find?_eq_none, Network.mem_names]
  simp

/-- The network with a further server. -/
def Network.enter (net : Network) (servername t₀ t₁ t₂ t₃ : CStr) : Network where
  servers := ⟨net.nextAddr, t₀, t₁, t₂, t₃⟩ :: net.servers
  thisServer := if t₀ = servername then some ⟨net.nextAddr, t₀, t₁, t₂, t₃⟩ else net.thisServer
  nextAddr := net.nextAddr + 1

section
variable {net : Network} {servername : CStr} {l : List Byte} {ls : List (List Byte)}

theorem loadLoop_invalid (hlen : (lineRow l).length ≠ 4) :
    loadLoop servername (l :: ls) net = (net, chircFail) := by
  rw [loadLoop]
  split
  · next heq =>
    have hrow : lineRow l = _ := (sdssplitlen_eq_four _).mp heq
    simp [hrow] at hlen
  · rfl

theorem loadLoop_taken (hrow : lineRow l = [t₀, t₁, t₂, t₃]) (hmem : t₀ ∈ net.names) :
    loadLoop servername (l :: ls) net = (net, chircFail) := by
  rw [loadLoop]
  simp only [(sdssplitlen_eq_four _).mpr hrow]
  split
  · rfl
  · next hfind => exact absurd hmem (chircCtxGetServer_eq_none.mp hfind)

theorem loadLoop_enter (hrow : lineRow l = [t₀, t₁, t₂, t₃]) (hnew : t₀ ∉ net.names) :
    loadLoop servername (l :: ls) net =
      loadLoop servername ls (net.enter servername t₀ t₁ t₂ t₃) := by
  rw [loadLoop]
  simp only [(sdssplitlen_eq_four _).mpr hrow, chircCtxGetServer_eq_none.mpr hnew]
  congr 1
  rw [Network.enter]
  split <;> rfl

end

namespace Loading
variable {net : Network} {servername : CStr} (H : Loading servername net)
include H

theorem thisServer_eq_none : net.thisServer = none ↔ servername ∉ net.names := by
  rw [Network.mem_names, Option.eq_none_iff_forall_ne_some]
  simp [H.this]

/-- A server with a new name. -/
theorem enter (hnew : t₀ ∉ net.names) (t₁ t₂ t₃ : CStr) :
    Loading servername (net.enter servername t₀ t₁ t₂ t₃) := by
  refine ⟨?_, ?_, ?_, ?_⟩
  · have := H.names
    simp only [Network.names, Network.enter, List.reverse_cons, List.map_append] at this hnew ⊢
    refine List.nodup_append.mpr ⟨this, List.nodup_singleton t₀, fun a ha b hb => ?_⟩
    rw [List.mem_singleton.mp hb]
    rintro rfl
    exact hnew ha
  · refine List.nodup_cons.mpr ⟨fun hmem => ?_, H.structs⟩
    obtain ⟨ns, hns, haddr⟩ := List.mem_map.mp hmem
    exact Nat.ne_of_lt (H.fresh ns hns) haddr
  · intro ns hns
    rcases List.mem_cons.mp hns with rfl | hns
    · exact Nat.lt_succ_self _
    · exact Nat.lt_succ_of_lt (H.fresh ns hns)
  · intro ns
    have hnew' : ∀ ns ∈ net.servers, ns.servername ≠ t₀ := fun ns hns heq =>
      hnew (Network.mem_names.mpr ⟨ns, hns, heq⟩)
    by_cases hthis : t₀ = servername
    · subst hthis
      simp only [Network.enter, if_true, Option.some.injEq, List.mem_cons]
      constructor
      · rintro rfl
        exact ⟨.inl rfl, rfl⟩
      · rintro ⟨rfl | hns, hname⟩
        · rfl
        · exact absurd hname (hnew' ns hns)
    · simp only [Network.enter, hthis, if_false, H.this, List.mem_cons]
      constructor
      · rintro ⟨hns, hname⟩
        exact ⟨.inr hns, hname⟩
      · rintro ⟨rfl | hns, hname⟩
        · exact absurd hname hthis
        · exact ⟨hns, hname⟩

end Loading

/-- The loop succeeds exactly if the rows that are left can be added, and adds them. -/
theorem loadLoop_spec {net : Network} (H : Loading servername net) (ls : List (List Byte)) :
    ((loadLoop servername ls net).2 = chircOk ↔ (∀ r ∈ ls.map lineRow, r.length = 4) ∧
      (net.names ++ (ls.map lineRow).map rowName).Nodup ∧
      servername ∈ net.names ++ (ls.map lineRow).map rowName) ∧
    ((loadLoop servername ls net).2 = chircOk →
      Loading servername (loadLoop servername ls net).1 ∧
      (loadLoop servername ls net).1.servers.reverse.map NetServer.fields =
        net.servers.reverse.map NetServer.fields ++ ls.map lineRow) := by
  induction ls generalizing net with
  | nil =>
    have hthis := H.thisServer_eq_none
    rw [loadLoop]
    refine ⟨?_, fun _ => ⟨H, by simp⟩⟩
    by_cases hmem : servername ∈ net.names
    · simp [hthis, hmem, H.names]
    · simp [hthis, hmem, chircOk, chircFail]
  | cons l ls ih =>
    have hfail : chircFail ≠ chircOk := by decide
    by_cases hlen : (lineRow l).length = 4
    · obtain ⟨t₀, t₁, t₂, t₃, hrow⟩ := List.length_eq_four.mp hlen
      by_cases hmem : t₀ ∈ net.names
      · rw [loadLoop_taken hrow hmem]
        refine ⟨iff_of_false hfail ?_, fun h => absurd h hfail⟩
        rintro ⟨-, hnodup, -⟩
        rw [List.map_cons, List.map_cons, hrow] at hnodup
        exact (List.nodup_append.mp hnodup).2.2 t₀ hmem t₀ List.mem_cons_self rfl
      · rw [loadLoop_enter hrow hmem]
        obtain ⟨hiff, hok⟩ := ih (H.enter hmem t₁ t₂ t₃)
        have hnames : (net.enter servername t₀ t₁ t₂ t₃).names ++ (ls.map lineRow).map rowName =
            net.names ++ ((l :: ls).map lineRow).map rowName := by
          simp [Network.enter, Network.names, hrow, rowName]
        have hfields : (net.enter servername t₀ t₁ t₂ t₃).servers.reverse.map NetServer.fields ++
            ls.map lineRow = net.servers.reverse.map NetServer.fields ++ (l :: ls).map lineRow := by
          simp [Network.enter, NetServer.fields, hrow]
        rw [hnames] at hiff
        rw [hfields] at hok
        refine ⟨hiff.trans ?_, hok⟩
        simp only [List.map_cons, List.forall_mem_cons, hlen, true_and]
    · rw [loadLoop_invalid hlen]
      refine ⟨iff_of_false hfail ?_, fun h => absurd h hfail⟩
      exact fun h => hlen (h.1 (lineRow l) List.mem_cons_self)

/-- **`chirc_ctx_load_network` accepts the valid network files**, and then the table holds the rows
of the file. -/
theorem chircCtxLoadNetwork_iff (net : Network) {content : List Byte} (servername : CStr)
    (hnul : NUL ∉ content) (hservers : net.servers = []) (hthis : net.thisServer = none) :
    ((chircCtxLoadNetwork net (some content) servername).2 = chircOk ↔
      ValidNetwork servername (networkRows content)) ∧
    ((chircCtxLoadNetwork net (some content) servername).2 = chircOk →
      HoldsNetwork servername (networkRows content)
        (chircCtxLoadNetwork net (some content) servername).1) := by
  have H : Loading servername net := by
    refine ⟨?_, ?_, ?_, ?_⟩
    · simp [Network.names, hservers]
    · simp [hservers]
    · simp [hservers]
    · simp [hservers, hthis]
  have hlines : ∀ l ∈ getLines [] content, lineRow l = row l := by
    intro l hl
    rw [lineRow, cstrAt_of_not_mem fun hmem => hnul (mem_of_mem_getLines hl hmem)]
  have hrows : (getLines [] content).map lineRow = networkRows content :=
    (List.map_congr_left hlines).trans (getLines_rows List.not_mem_nil content)
  obtain ⟨hiff, hok⟩ := loadLoop_spec H (getLines [] content)
  rw [hrows] at hiff hok
  have hnames : net.names = [] := by simp [Network.names, hservers]
  rw [hnames, List.nil_append] at hiff
  simp only [hservers, List.reverse_nil, List.map_nil, List.nil_append] at hok
  have hiff' : (loadLoop servername (getLines [] content) net).2 = chircOk ↔
      ValidNetwork servername (networkRows content) :=
    hiff.trans ⟨fun ⟨h₁, h₂, h₃⟩ => ⟨h₁, h₂, h₃⟩, fun h => ⟨h.four, h.nodup, h.mem⟩⟩
  refine ⟨hiff', fun h => ?_⟩
  obtain ⟨H', hfields⟩ := hok h
  have hmem := (hiff'.mp h).mem
  rw [← hfields, List.map_map] at hmem
  obtain ⟨ns, hns, hname⟩ := Network.mem_names.mp hmem
  exact ⟨hfields, H'.structs, ns, hns, hname, (H'.this ns).mpr ⟨hns, hname⟩⟩

/-- A network of two servers, the last line without a newline. -/
def twoServers : List Byte := lit "irc-1,127.0.0.1,6667,pass1\r\n irc-2,127.0.0.1,6668,"

theorem chircCtxLoadNetwork_twoServers : ValidNetwork (lit "irc-2") (networkRows twoServers) ∧
    HoldsNetwork (lit "irc-2") (networkRows twoServers)
      (chircCtxLoadNetwork ⟨[], none, 0⟩ (some twoServers) (lit "irc-2")).1 := by
  obtain ⟨hiff, hok⟩ := chircCtxLoadNetwork_iff ⟨[], none, 0⟩ (lit "irc-2")
    (by decide +kernel : NUL ∉ twoServers) rfl rfl
  have h : (chircCtxLoadNetwork ⟨[], none, 0⟩ (some twoServers) (lit "irc-2")).2 = chircOk := by
    decide +kernel
  exact ⟨hiff.mp h, hok h⟩

/-! ## Loads that fail -/

/-- The rows that are entered, given the names in the table: those before the first row that has not
four fields or a name that is taken. -/
def enteredRows : List CStr → List (List CStr) → List (List CStr)
  | _, [] => []
  | taken, r :: rs =>
    if r.length = 4 ∧ rowName r ∉ taken then r :: enteredRows (taken ++ [rowName r]) rs else []

/-- The rows of a file, if it can be opened. -/
def fileRows : Option (List Byte) → List (List CStr)
  | none => []
  | some content => (getLines [] content).map lineRow

/-- The table holds `rows` in structs in front of those of `net`, and this server is the one of the
new structs with its name, or as it was. -/
def Network.HasEntered (servername : CStr) (net : Network) (rows : List (List CStr))
    (net' : Network) : Prop :=
  ∃ new, net'.servers = new ++ net.servers ∧ new.reverse.map NetServer.fields = rows ∧
    net'.thisServer = (new.find? (·.servername == servername)).or net.thisServer

theorem Network.HasEntered.nil (servername : CStr) (net : Network) :
    net.HasEntered servername [] net := ⟨[], rfl, rfl, rfl⟩

/-- One more row, before the others. -/
theorem Network.HasEntered.cons {net net' : Network}
    (H : (net.enter servername t₀ t₁ t₂ t₃).HasEntered servername rows net') :
    net.HasEntered servername ([t₀, t₁, t₂, t₃] :: rows) net' := by
  obtain ⟨new, hservers, hfields, hthis⟩ := H
  refine ⟨new ++ [⟨net.nextAddr, t₀, t₁, t₂, t₃⟩], ?_, ?_, ?_⟩
  · rw [hservers, List.append_assoc]
    rfl
  · rw [List.reverse_append, List.map_append, hfields]
    rfl
  · rw [hthis, Network.enter, List.find?_append, List.find?_singleton]
    by_cases ht : t₀ = servername
    · simp [ht]
    · simp [ht]

theorem Network.HasEntered.unchanged_iff {net net' : Network}
    (H : net.HasEntered servername rows net') :
    (net'.servers = net.servers ∧ net'.thisServer = net.thisServer) ↔ rows = [] := by
  obtain ⟨new, hservers, rfl, hthis⟩ := H
  constructor
  · intro h
    have hnew : new = [] := by simpa using hservers.symm.trans h.1
    rw [hnew]
    rfl
  · intro h
    have hnew : new = [] := by simpa using h
    subst hnew
    exact ⟨hservers, hthis⟩

/-- The loop enters rows up to the first that it refuses, and fails if there is one, or if no entry
for this server is known in the end. -/
theorem loadLoop_entered (net : Network) (servername : CStr) (ls : List (List Byte)) :
    net.HasEntered servername (enteredRows net.names (ls.map lineRow))
      (loadLoop servername ls net).1 ∧
    ((loadLoop servername ls net).2 = chircFail ↔
      enteredRows net.names (ls.map lineRow) ≠ ls.map lineRow ∨
        (loadLoop servername ls net).1.thisServer = none) := by
  induction ls generalizing net with
  | nil =>
    rw [loadLoop]
    refine ⟨.nil servername net, ?_⟩
    cases hthis : net.thisServer with
    | none => simp [enteredRows]
    | some ns => simp [enteredRows, chircOk, chircFail]
  | cons l ls ih =>
    rw [List.map_cons, enteredRows]
    by_cases hlen : (lineRow l).length = 4
    · obtain ⟨t₀, t₁, t₂, t₃, hrow⟩ := List.length_eq_four.mp hlen
      by_cases hmem : t₀ ∈ net.names
      · rw [loadLoop_taken hrow hmem, if_neg fun h => h.2 (by rwa [hrow])]
        exact ⟨.nil servername net, iff_of_true rfl (.inl nofun)⟩
      · have hnames : (net.enter servername t₀ t₁ t₂ t₃).names = net.names ++ [t₀] := by
          simp [Network.enter, Network.names]
        have hstep := ih (net.enter servername t₀ t₁ t₂ t₃)
        rw [loadLoop_enter hrow hmem, if_pos ⟨hlen, by rwa [hrow]⟩, hrow, rowName,
          List.headD_cons, ← hnames]
        refine ⟨hstep.1.cons, hstep.2.trans ?_⟩
        rw [Ne, Ne, List.cons.injEq, and_iff_right rfl]
    · rw [loadLoop_invalid hlen, if_neg fun h => hlen h.1]
      exact ⟨.nil servername net, iff_of_true rfl (.inl nofun)⟩

/-- **A load that fails is not undone**: the rows before the first one that is refused stay in the
table, and so the network is as it was exactly if there are none. -/
theorem chircCtxLoadNetwork_entered (net : Network) (file : Option (List Byte))
    (servername : CStr) :
    let entered := enteredRows net.names (fileRows file)
    let net' := (chircCtxLoadNetwork net file servername).1
    net.HasEntered servername entered net' ∧
    ((chircCtxLoadNetwork net file servername).2 = chircFail ↔
      file = none ∨ entered ≠ fileRows file ∨ net'.thisServer = none) ∧
    ((net'.servers = net.servers ∧ net'.thisServer = net.thisServer) ↔ entered = []) := by
  cases file with
  | none =>
    have H := Network.HasEntered.nil servername net
    exact ⟨H, iff_of_true rfl (.inl rfl), H.unchanged_iff⟩
  | some content =>
    obtain ⟨H, hfail⟩ := loadLoop_entered net servername (getLines [] content)
    exact ⟨H, hfail.trans ⟨.inr, fun h => h.resolve_left nofun⟩, H.unchanged_iff⟩

/-- The second line of the file has one field only: the server of the first line stays. -/
theorem not_unchanged_twoFields : ¬ ∀ net file servername,
    (chircCtxLoadNetwork net file servername).2 = chircFail →
      (chircCtxLoadNetwork net file servername).1.servers = net.servers ∧
        (chircCtxLoadNetwork net file servername).1.thisServer = net.thisServer := by
  intro h
  have hsame := h ⟨[], none, 0⟩ (some (lit "irc-1,127.0.0.1,6667,pass1\nirc-2\n")) (lit "irc-1")
    (by decide +kernel)
  exact absurd hsame.1 (by decide +kernel)

end Chirc
