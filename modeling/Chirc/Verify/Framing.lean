import Chirc.Verify.Lines
import Chirc.Verify.Mirror

/-! # Framing

The lines that a thread hands to the parser should be those of the stream that it reads, however
the stream is cut into pieces. But the array that holds the unread input is also the one that some
handlers print their replies into. The lines are right if such a command is always the last one in
the array. -/

namespace Chirc

open TransitionSystem PrefixCode

/-! ## Streams of lines -/

/-- A line: it ends with its first CRLF, has no NUL, and is not longer than `MSG_MAX`. -/
structure IsLine (line : List Byte) : Prop where
  terminated : Terminated CR LF line
  nul : NUL ∉ line
  length_le : line.length ≤ 512

/-- The parser reads the line as a QUIT. -/
def isQuit (line : CStr) : Bool :=
  match chircMessageFromString line with
  | .ok (some msg) => command msg.cmd = .quit
  | _ => false

/-- The lines up to and including the first QUIT. -/
def upToQuit : List CStr → List CStr
  | [] => []
  | line :: lines => if isQuit line then [line] else line :: upToQuit lines

/-- The lines as `trim_space` leaves them, without those of spaces only. -/
def trimmed (lines : List (List Byte)) : List CStr :=
  (lines.map (trimGo false)).filter (· ≠ [CR, LF])

/-- The lines that the parser should get. -/
def expected (lines : List (List Byte)) : List CStr := upToQuit (trimmed lines)

theorem upToQuit_append (h : ∀ line ∈ xs, isQuit line = false) :
    upToQuit (xs ++ ys) = xs ++ upToQuit ys := by
  induction xs with
  | nil => rfl
  | cons line xs ih =>
    rw [List.cons_append, upToQuit, h line List.mem_cons_self,
      ih fun l hl => h l (List.mem_cons_of_mem _ hl)]
    rfl

theorem trimmed_append : trimmed (xs ++ ys) = trimmed xs ++ trimmed ys := by
  rw [trimmed, List.map_append, List.filter_append]
  rfl

theorem trimmed_blank (h : trimGo false line = [CR, LF]) : trimmed [line] = [] := by
  simp [trimmed, h]

theorem trimmed_cons (h : trimGo false line ≠ [CR, LF]) :
    trimmed (line :: lines) = trimGo false line :: trimmed lines := by
  simp [trimmed, h]

/-! ## What a thread reads and hands over -/

namespace Label

/-- The bytes that thread `t` reads. -/
def readBy (t : Nat) : Label → List Byte
  | .recv t' _ _ chunk => if t' = t then chunk else []
  | _ => []

/-- The line that thread `t` hands to the parser. -/
def handedBy (t : Nat) : Label → List CStr
  | .command t' _ _ line _ _ => if t' = t then [line] else []
  | _ => []

/-- Thread `t` handles a QUIT. -/
def quitBy (t : Nat) : Label → Bool
  | .command t' _ _ _ msg _ => t' = t ∧ Chirc.command msg.cmd = .quit
  | _ => false

end Label

/-- Thread `t` has handled a QUIT. -/
def hasQuit (tr : History) (t : Nat) : Bool := tr.any fun e => e.2.quitBy t

/-- The bytes that thread `t` has read before it handled a QUIT. -/
def received : History → Nat → List Byte
  | [], _ => []
  | (_, l) :: tr, t => received tr t ++ if hasQuit tr t then [] else l.readBy t

/-- The lines that thread `t` has handed to the parser, up to and including a QUIT. -/
def handed : History → Nat → List CStr
  | [], _ => []
  | (_, l) :: tr, t => handed tr t ++ if hasQuit tr t then [] else l.handedBy t

/-- Thread `t` has ended, or its buffer holds no line. -/
def Idle (σ : Sys) (t : Nat) : Prop := ∀ th ∈ σ.threads t, strstrCrlf th.buf = .ok none

instance : Decidable (Idle σ t) := inferInstanceAs (Decidable (∀ th ∈ σ.threads t, _))

/-- The stream that thread `t` reads begins the stream of `lines`. Then what it has handed to the
parser begins the lines that it should, and is all of them after a QUIT or once all of the stream
is read and handled; and the loop can go on: the search for a CRLF ends, and `read` is offered
room for more than a line. -/
structure Framed (lines : List (List Byte)) (tr : History) (σ : Sys) (t : Nat) : Prop where
  inOrder : handed tr t <+: expected lines
  complete : hasQuit tr t = true ∨ received tr t = lines.flatten ∧ Idle σ t →
    handed tr t = expected lines
  room : hasQuit tr t = false → ∀ th ∈ σ.threads t, ∃ p, strstrCrlf th.buf = .ok p ∧
    (p = none → 512 < th.room)

/-- The number of bytes of input behind the first line in the buffer. -/
def Thread.behind (th : Thread) : Int :=
  match crlfIdx th.buf with
  | some p => th.pos - (p + 2 : Nat)
  | none => 0

/-- When thread `t`, before a QUIT, handles a command whose handler prints into the buffer, no
input is left behind the line. -/
def ScribblesLast (t : Nat) (tr : History) (σ : Sys) : Label → Prop
  | .command t' _ _ _ msg _ => t' = t → hasQuit tr t = false → scribbles σ.server msg = true →
    ∀ th ∈ σ.threads t, th.behind = 0
  | _ => True

instance : ∀ l, Decidable (ScribblesLast t tr σ l)
  | .command t' _ _ _ msg _ => inferInstanceAs (Decidable (t' = t → hasQuit tr t = false →
    scribbles σ.server msg = true → ∀ th ∈ σ.threads t, th.behind = 0))
  | .accept .. => inferInstanceAs (Decidable True)
  | .recv .. => inferInstanceAs (Decidable True)
  | .blank .. => inferInstanceAs (Decidable True)
  | .hangup .. => inferInstanceAs (Decidable True)

/-! ## The buffer -/

/-- The buffer holds the unread input `u`, and behind it what a handler has left: a text without
newlines, that ends before the 34th byte. -/
structure Holds (th : Thread) (u : List Byte) : Prop where
  pos : th.pos = u.length
  buf : ∃ s, th.buf = u ++ s ∧ LF ∉ s ∧ NUL ∉ s ∧ s.length ≤ 33 - u.length

theorem Holds.crlfIdx_eq (H : Holds th u) : crlfIdx th.buf = crlfIdx u := by
  obtain ⟨s, hbuf, hlf, -⟩ := H.buf
  rw [hbuf, crlfIdx_append hlf]

/-- The search does not run past the end of the array. -/
theorem Holds.search (H : Holds th u) (hu : crlfIdx u = none) (hlen : u.length < 1024) :
    strstrCrlf th.buf = .ok none := by
  have hnone := H.crlfIdx_eq.trans hu
  obtain ⟨s, hbuf, -, -, hs⟩ := H.buf
  have : th.buf.length < 1024 := by
    rw [hbuf, List.length_append]
    omega
  simp [strstrCrlf, hnone, this]

/-- A read puts its bytes behind the input. -/
theorem Holds.recv (H : Holds th u) (h : th.recv chunk = .ok th') : Holds th' (u ++ chunk) := by
  obtain ⟨hpos, s, hbuf, hlf, hnul, hlen⟩ := H
  rw [Thread.recv, if_neg (by omega)] at h
  cases h
  have hu : th.pos.toNat = u.length := by omega
  refine ⟨by simp [hpos], s.drop chunk.length, ?_, ?_, ?_, ?_⟩
  · simp [hu, hbuf, List.drop_append, List.drop_eq_nil_of_le]
  · exact fun hmem => hlf (List.mem_of_mem_drop hmem)
  · exact fun hmem => hnul (List.mem_of_mem_drop hmem)
  · simp only [List.length_drop, List.length_append]
    omega

/-- The first line is taken away. -/
theorem Holds.shift (H : Holds th u) (hp : p + 2 ≤ u.length) :
    Holds (th.shift p) (u.drop (p + 2)) := by
  obtain ⟨hpos, s, hbuf, hlf, hnul, hlen⟩ := H
  refine ⟨?_, s, ?_, hlf, hnul, ?_⟩
  · simp only [Thread.shift, hpos, List.length_drop]
    omega
  · rw [Thread.shift, hbuf, List.drop_append_of_le_length hp]
  · rw [List.length_drop]
    omega

/-- What a handler has printed is not input. -/
theorem Holds.scribble {th : Thread} (hpos : th.pos = 0) (h : Scribble text) :
    Holds { th with buf := text } [] :=
  ⟨hpos, text, rfl, h.1, h.2.1, h.2.2⟩

theorem Holds.take_eq (H : Holds th u) (hp : p + 2 ≤ u.length) :
    th.buf.take (p + 2) = u.take (p + 2) := by
  obtain ⟨s, hbuf, -⟩ := H.buf
  rw [hbuf, List.take_append_of_le_length hp]

/-! ## Progress -/

/-- Thread `t` has handled the first `done` of the lines, and has read the beginning `u` of the
rest. -/
structure Progress (lines : List (List Byte)) (tr : History) (t : Nat)
    (done rest : List (List Byte)) (u : List Byte) : Prop where
  lines : lines = done ++ rest
  received : received tr t = done.flatten ++ u
  input : u <+: rest.flatten
  handed : handed tr t = trimmed done
  noQuit : ∀ line ∈ trimmed done, isQuit line = false

namespace Progress
variable {lines done rest : List (List Byte)} {u : List Byte}
  (H : Progress lines tr t done rest u) (hlines : ∀ line ∈ lines, IsLine line)
include H hlines

theorem isLine_rest (h : line ∈ rest) : IsLine line :=
  hlines line (H.lines ▸ List.mem_append_right done h)

theorem nul_not_mem : NUL ∉ u := by
  intro hmem
  obtain ⟨line, hline, hmem⟩ := List.mem_flatten.mp (H.input.subset hmem)
  exact (H.isLine_rest hlines hline).nul hmem

/-- The line that the search finds is the next of the stream. -/
theorem next (hp : crlfIdx u = some p) :
    ∃ rest', rest = u.take (p + 2) :: rest' ∧ u.drop (p + 2) <+: rest'.flatten := by
  refine (terminated_prefixFree CR LF).next not_terminated_nil (terminated_of_crlfIdx hp).1
    (fun line hline => (H.isLine_rest hlines hline).terminated) ?_
  rw [List.take_append_drop]
  exact H.input

/-- When no line is found, the input is a piece of one line. -/
theorem length_lt (hu : crlfIdx u = none) : u.length < 512 := by
  have hnot := not_infix_of_crlfIdx (H.nul_not_mem hlines) hu
  cases hrest : rest with
  | nil =>
    have := H.input
    rw [hrest] at this
    simp [List.prefix_nil.mp this]
  | cons line rest' =>
    have hline := H.isLine_rest hlines (hrest ▸ List.mem_cons_self)
    have := length_lt_of_not_infix hline.terminated (hrest ▸ H.input) hnot
    exact Nat.lt_of_lt_of_le this hline.length_le

/-- When no line is found and the stream is at its end, all lines have been handled. -/
theorem rest_eq_nil (hu : crlfIdx u = none) (hend : Chirc.received tr t = lines.flatten) :
    rest = [] := by
  have hnot := not_infix_of_crlfIdx (H.nul_not_mem hlines) hu
  cases hrest : rest with
  | nil => rfl
  | cons line rest' =>
    have hline := H.isLine_rest hlines (hrest ▸ List.mem_cons_self)
    have hlt := length_lt_of_not_infix hline.terminated (hrest ▸ H.input) hnot
    have hlen := congrArg List.length hend
    rw [H.received, H.lines, hrest] at hlen
    simp at hlen
    omega

omit hlines in
/-- A read. -/
theorem extend (hrecv : Chirc.received tr' t = Chirc.received tr t ++ chunk)
    (hhanded : Chirc.handed tr' t = Chirc.handed tr t)
    (hpre : Chirc.received tr' t <+: lines.flatten) :
    Progress lines tr' t done rest (u ++ chunk) := by
  refine ⟨H.lines, ?_, ?_, hhanded.trans H.handed, H.noQuit⟩
  · rw [hrecv, H.received, List.append_assoc]
  · rw [hrecv, H.received, H.lines, List.flatten_append, List.append_assoc] at hpre
    exact (List.prefix_append_right_inj _).mp hpre

/-- The handling of a line other than a QUIT. -/
theorem take (hp : crlfIdx u = some p) (hrecv : Chirc.received tr' t = Chirc.received tr t)
    (hhanded : Chirc.handed tr' t = Chirc.handed tr t ++ trimmed [u.take (p + 2)])
    (hquit : ∀ line ∈ trimmed [u.take (p + 2)], isQuit line = false) :
    ∃ done' rest', Progress lines tr' t done' rest' (u.drop (p + 2)) := by
  obtain ⟨rest', hrest, hinput⟩ := H.next hlines hp
  refine ⟨done ++ [u.take (p + 2)], rest', ?_, ?_, hinput, ?_, ?_⟩
  · rw [H.lines, hrest, List.append_assoc, List.singleton_append]
  · rw [hrecv, H.received, List.flatten_append, List.append_assoc, List.flatten_singleton,
      List.take_append_drop]
  · rw [hhanded, H.handed, trimmed_append]
  · rw [trimmed_append]
    exact List.forall_mem_append.mpr ⟨H.noQuit, hquit⟩

/-- The handling of a QUIT. -/
theorem quit (hp : crlfIdx u = some p)
    (hline : trimGo false (u.take (p + 2)) ≠ [CR, LF])
    (hquit : isQuit (trimGo false (u.take (p + 2))) = true)
    (hhanded : Chirc.handed tr' t = Chirc.handed tr t ++ [trimGo false (u.take (p + 2))]) :
    Chirc.handed tr' t = expected lines := by
  obtain ⟨rest', hrest, -⟩ := H.next hlines hp
  rw [hhanded, H.handed, expected, H.lines, hrest, trimmed_append, trimmed_cons hline,
    upToQuit_append H.noQuit, upToQuit, if_pos hquit]

end Progress

/-! ## The invariant -/

/-- What thread `t` is doing, with the stream of `lines` to read. -/
inductive Reading (lines : List (List Byte)) (tr : History) (σ : Sys) (t : Nat) : Prop
  | fresh : σ.threads t = none → σ.next ≤ t → received tr t = [] → handed tr t = [] →
    hasQuit tr t = false → Reading lines tr σ t
  | live (th done rest u) : σ.threads t = some th → t < σ.next → hasQuit tr t = false →
    Progress lines tr t done rest u → Holds th u → Reading lines tr σ t
  | gone (done rest u) : σ.threads t = none → t < σ.next → hasQuit tr t = false →
    Progress lines tr t done rest u → crlfIdx u = none → Reading lines tr σ t
  | quit : t < σ.next → hasQuit tr t = true → handed tr t = expected lines → Reading lines tr σ t

theorem hasQuit_cons : hasQuit ((σ, l) :: tr) t = (l.quitBy t || hasQuit tr t) := rfl

theorem received_cons (h : hasQuit tr t = false) :
    received ((σ, l) :: tr) t = received tr t ++ l.readBy t := by
  rw [received, h]
  rfl

theorem handed_cons (h : hasQuit tr t = false) :
    handed ((σ, l) :: tr) t = handed tr t ++ l.handedBy t := by
  rw [handed, h]
  rfl

/-- After a QUIT nothing counts. -/
theorem Reading.after_quit {σ σ' : Sys} (hnext : σ.next ≤ σ'.next) (hlt : t < σ.next)
    (hquit : hasQuit tr t = true) (hhanded : handed tr t = expected lines) :
    Reading lines ((σ, l) :: tr) σ' t := by
  refine .quit (Nat.lt_of_lt_of_le hlt hnext) ?_ ?_
  · rw [hasQuit_cons, hquit, Bool.or_true]
  · rw [handed, hquit, if_pos rfl, List.append_nil, hhanded]

/-- A thread that runs has handled a QUIT or is in the stream. -/
theorem Reading.of_thread {σ : Sys} (H : Reading lines tr σ t) (hth : σ.threads t = some th) :
    (t < σ.next ∧ hasQuit tr t = true ∧ handed tr t = expected lines) ∨
    ∃ done rest u, t < σ.next ∧ hasQuit tr t = false ∧ Progress lines tr t done rest u ∧
      Holds th u := by
  cases H with
  | fresh hnone => cases hnone.symm.trans hth
  | gone done rest u hnone => cases hnone.symm.trans hth
  | quit hlt hquit hhanded => exact .inl ⟨hlt, hquit, hhanded⟩
  | live th' done rest u hth' hlt hquit P hholds =>
    cases hth.symm.trans hth'
    exact .inr ⟨done, rest, u, hlt, hquit, P, hholds⟩

/-- The step of another thread. -/
theorem Reading.frame {σ σ' : Sys} (H : Reading lines tr σ t) (hread : l.readBy t = [])
    (hhanded : l.handedBy t = []) (hquit : l.quitBy t = false)
    (hthreads : σ'.threads t = σ.threads t) (hnext : σ.next ≤ σ'.next)
    (hfresh : σ.next ≤ t → σ'.next ≤ t) : Reading lines ((σ, l) :: tr) σ' t := by
  have hr : received ((σ, l) :: tr) t = received tr t := by simp [received, hread]
  have hh : handed ((σ, l) :: tr) t = handed tr t := by simp [handed, hhanded]
  have hq : hasQuit ((σ, l) :: tr) t = hasQuit tr t := by simp [hasQuit_cons, hquit]
  have hprog {done rest u} (P : Progress lines tr t done rest u) :
      Progress lines ((σ, l) :: tr) t done rest u :=
    ⟨P.lines, hr.trans P.received, P.input, hh.trans P.handed, P.noQuit⟩
  cases H with
  | fresh hth hlt h₁ h₂ h₃ =>
    exact .fresh (hthreads.trans hth) (hfresh hlt) (hr.trans h₁) (hh.trans h₂) (hq.trans h₃)
  | live th done rest u hth hlt h P hholds =>
    exact .live th done rest u (hthreads.trans hth) (Nat.lt_of_lt_of_le hlt hnext) (hq.trans h)
      (hprog P) hholds
  | gone done rest u hth hlt h P hu =>
    exact .gone done rest u (hthreads.trans hth) (Nat.lt_of_lt_of_le hlt hnext) (hq.trans h)
      (hprog P) hu
  | quit hlt h hhanded' => exact .after_quit hnext hlt h hhanded'

/-! ## One step -/

theorem Reading.recv {σ σ' : Sys} (H : Reading lines tr σ t)
    (hpre : received ((σ, .recv t fd c chunk) :: tr) t <+: lines.flatten)
    (hth : σ.threads t = some th) (hrecv : th.recv chunk = .ok th')
    (hth' : σ'.threads t = some th') (hnext : σ'.next = σ.next) :
    Reading lines ((σ, .recv t fd c chunk) :: tr) σ' t := by
  have hread : (Label.recv t fd c chunk).readBy t = chunk := if_pos rfl
  rcases H.of_thread hth with ⟨hlt, hquit, hhanded⟩ | ⟨done, rest, u, hlt, hquit, P, hholds⟩
  · exact .after_quit hnext.ge hlt hquit hhanded
  refine .live th' done rest (u ++ chunk) hth' (hnext ▸ hlt)
    (by simp [hasQuit_cons, hquit, Label.quitBy]) (P.extend ?_ ?_ hpre) (hholds.recv hrecv)
  · rw [received_cons hquit, hread]
  · rw [handed_cons hquit]
    exact List.append_nil _

theorem Reading.hangup {σ σ' : Sys} (H : Reading lines tr σ t) (hth : σ.threads t = some th)
    (hp : strstrCrlf th.buf = .ok none) (hth' : σ'.threads t = none) (hnext : σ'.next = σ.next) :
    Reading lines ((σ, .hangup t fd c) :: tr) σ' t := by
  rcases H.of_thread hth with ⟨hlt, hquit, hhanded⟩ | ⟨done, rest, u, hlt, hquit, P, hholds⟩
  · exact .after_quit hnext.ge hlt hquit hhanded
  refine .gone done rest u hth' (hnext ▸ hlt) (by simp [hasQuit_cons, hquit, Label.quitBy]) ?_ ?_
  · refine ⟨P.lines, ?_, P.input, ?_, P.noQuit⟩
    · rw [received_cons hquit, ← P.received]
      exact List.append_nil _
    · rw [handed_cons hquit, ← P.handed]
      exact List.append_nil _
  · rw [← hholds.crlfIdx_eq]
    exact crlfIdx_of_strstrCrlf hp

theorem Reading.blank {σ σ' : Sys} (H : Reading lines tr σ t)
    (hlines : ∀ line ∈ lines, IsLine line) (hth : σ.threads t = some th)
    (hp : strstrCrlf th.buf = .ok (some p)) (htrim : trimSpace (th.buf.take (p + 2)) = .ok line)
    (hline : strstrCrlf line = .ok (some 0)) (hth' : σ'.threads t = some (th.shift p))
    (hnext : σ'.next = σ.next) : Reading lines ((σ, .blank t) :: tr) σ' t := by
  rcases H.of_thread hth with ⟨hlt, hquit, hhanded⟩ | ⟨done, rest, u, hlt, hquit, P, hholds⟩
  · exact .after_quit hnext.ge hlt hquit hhanded
  have hu : crlfIdx u = some p := hholds.crlfIdx_eq ▸ strstrCrlf_eq_some.mp hp
  obtain ⟨hterm, hlen⟩ := terminated_of_crlfIdx hu
  rw [hholds.take_eq hlen, trimSpace_of_terminated hterm] at htrim
  cases htrim
  have hblank := trimmed_blank ((crlfIdx_trimGo hterm).mp (strstrCrlf_eq_some.mp hline))
  obtain ⟨done', rest', P'⟩ : ∃ done' rest',
      Progress lines ((σ, .blank t) :: tr) t done' rest' (u.drop (p + 2)) := by
    refine P.take hlines hu ?_ ?_ ?_
    · rw [received_cons hquit]
      exact List.append_nil _
    · rw [handed_cons hquit, hblank]
      rfl
    · rw [hblank]
      exact nofun
  exact .live (th.shift p) done' rest' _ hth' (hnext ▸ hlt)
    (by simp [hasQuit_cons, hquit, Label.quitBy]) P' (hholds.shift hlen)

/-- The line that is parsed is the first of the input. -/
theorem Holds.line_eq (H : Holds th u) (hu : crlfIdx u = some p) (hparses : Parses th p line msg) :
    line = trimGo false (u.take (p + 2)) ∧ line ≠ [CR, LF] := by
  obtain ⟨hterm, hlen⟩ := terminated_of_crlfIdx hu
  have htrim := hparses.trim
  rw [H.take_eq hlen, trimSpace_of_terminated hterm] at htrim
  cases htrim
  refine ⟨rfl, fun h => ?_⟩
  obtain ⟨q, hq, hq0⟩ := hparses.crlf
  cases hq.symm.trans (strstrCrlf_eq_some.mpr ((crlfIdx_trimGo hterm).mpr h))
  exact hq0 rfl

/-- What is left in the buffer after a command other than a QUIT: the rest of the input, and if a
handler printed into the buffer there is none. -/
theorem Holds.after_command {th : Thread} (H : Holds th u) (hu : crlfIdx u = some p)
    (hquit : Chirc.command msg.cmd ≠ .quit)
    (hw : dispatch ctx th.sockfd msg (th.work srv p) = .ok w)
    (hlast : scribbles srv msg = true → th.behind = 0) :
    Holds { th.shift p with buf := w.buf } (u.drop (p + 2)) := by
  have hlen := (terminated_of_crlfIdx hu).2
  rcases (dispatch_handled hw).buf hquit with hbuf | ⟨hscribbles, hscribble⟩
  · rw [hbuf]
    exact H.shift hlen
  · have hbehind := hlast hscribbles
    simp only [Thread.behind, H.crlfIdx_eq.trans hu] at hbehind
    have hpos := H.pos
    have hend : u.drop (p + 2) = [] := List.drop_eq_nil_of_le (by omega)
    rw [hend]
    exact .scribble hbehind hscribble

theorem isQuit_eq (hparses : Parses th p line msg) :
    isQuit line = (Chirc.command msg.cmd = .quit) := by
  rw [isQuit, hparses.parse]
  simp

theorem Reading.command {σ σ' : Sys} (H : Reading lines tr σ t)
    (hlines : ∀ line ∈ lines, IsLine line) (hth : σ.threads t = some th)
    (hp : strstrCrlf th.buf = .ok (some p)) (hparses : Parses th p line msg)
    (hw : dispatch ctx th.sockfd msg (th.work σ.server p) = .ok w)
    (hlast : hasQuit tr t = false → scribbles σ.server msg = true → th.behind = 0)
    (hth' : σ'.threads t = some { th.shift p with buf := w.buf }) (hnext : σ'.next = σ.next) :
    Reading lines ((σ, .command t fd c line msg out) :: tr) σ' t := by
  rcases H.of_thread hth with ⟨hlt, hquit, hhanded⟩ | ⟨done, rest, u, hlt, hquit, P, hholds⟩
  · exact .after_quit hnext.ge hlt hquit hhanded
  have hu : crlfIdx u = some p := hholds.crlfIdx_eq ▸ strstrCrlf_eq_some.mp hp
  have hisQuit := isQuit_eq hparses
  obtain ⟨rfl, hline⟩ := hholds.line_eq hu hparses
  have hhanded : handed ((σ, .command t fd c (trimGo false (u.take (p + 2))) msg out) :: tr) t =
      handed tr t ++ [trimGo false (u.take (p + 2))] := by
    rw [handed_cons hquit, Label.handedBy, if_pos rfl]
  by_cases hcmd : Chirc.command msg.cmd = .quit
  · refine .quit (hnext ▸ hlt) (by simp [hasQuit_cons, Label.quitBy, hcmd]) ?_
    exact P.quit hlines hu hline (by simp [hisQuit, hcmd]) hhanded
  · have hnotQuit : isQuit (trimGo false (u.take (p + 2))) = false := by
      simpa [hcmd] using hisQuit
    obtain ⟨done', rest', P'⟩ : ∃ done' rest', Progress lines
        ((σ, .command t fd c (trimGo false (u.take (p + 2))) msg out) :: tr) t done' rest'
        (u.drop (p + 2)) := by
      refine P.take hlines hu ?_ ?_ ?_
      · rw [received_cons hquit]
        exact List.append_nil _
      · rw [hhanded, trimmed_cons hline]
        rfl
      · rw [trimmed_cons hline]
        simpa [trimmed] using hnotQuit
    exact .live _ done' rest' _ hth' (hnext ▸ hlt)
      (by simp [hasQuit_cons, hquit, Label.quitBy, hcmd]) P'
      (hholds.after_command hu hcmd hw (hlast hquit))

/-- The thread of a new connection. -/
theorem Reading.start {σ σ' : Sys} (H : Reading lines tr σ σ.next) (fd : Nat)
    (hth' : σ'.threads σ.next = some ⟨fd, [], 0⟩) (hnext : σ'.next = σ.next + 1) :
    Reading lines ((σ, .accept c fd) :: tr) σ' σ.next := by
  cases H with
  | fresh hnone hle hreceived hhanded hquit =>
    refine .live ⟨fd, [], 0⟩ [] lines [] hth' (hnext ▸ Nat.lt_succ_self _)
      (by simp [hasQuit_cons, hquit, Label.quitBy]) ?_ ⟨rfl, [], rfl, nofun, nofun, Nat.zero_le _⟩
    refine ⟨rfl, ?_, List.nil_prefix, ?_, nofun⟩
    · rw [received_cons hquit, hreceived]
      rfl
    · rw [handed_cons hquit, hhanded]
      rfl
  | live th done rest u hth hlt => exact absurd hlt (Nat.lt_irrefl _)
  | gone done rest u hth hlt => exact absurd hlt (Nat.lt_irrefl _)
  | quit hlt => exact absurd hlt (Nat.lt_irrefl _)

/-- **One step of the server keeps what thread `t` reads in order.** -/
theorem Reading.step {σ σ' : Sys} (H : Reading lines tr σ t) (hlines : ∀ line ∈ lines, IsLine line)
    (hpre : received ((σ, l) :: tr) t <+: lines.flatten) (hlast : ScribblesLast t tr σ l)
    (hstep : Step ctx σ l σ') : Reading lines ((σ, l) :: tr) σ' t := by
  cases hstep with
  | accept fd =>
    by_cases ht : t = σ.next
    · subst ht
      exact H.start fd (if_pos rfl) rfl
    · refine H.frame rfl rfl rfl ?_ (Nat.le_succ _) fun h => ?_
      · rw [Sys.setThread_threads, if_neg ht]
      · exact Nat.lt_of_le_of_ne h (Ne.symm ht)
  | recv t' th c chunk th' hth hp hc hne hroom hrecv =>
    by_cases ht : t' = t
    · subst ht
      exact H.recv hpre hth hrecv (if_pos rfl) rfl
    · exact H.frame (if_neg ht) rfl rfl (if_neg (Ne.symm ht)) (Nat.le_refl _) id
  | blank t' th p line hth hp htrim hline =>
    by_cases ht : t' = t
    · subst ht
      exact H.blank hlines hth hp htrim hline (if_pos rfl) rfl
    · exact H.frame rfl rfl rfl (if_neg (Ne.symm ht)) (Nat.le_refl _) id
  | command t' th p line msg w hth hp hparses hw =>
    by_cases ht : t' = t
    · subst ht
      refine H.command hlines hth hp hparses hw (fun h h' => hlast rfl h h' th hth) ?_
        (Sys.handled_next σ)
      rw [Sys.handled_threads, if_pos rfl]
    · refine H.frame rfl (if_neg ht) (by simp [Label.quitBy, ht]) ?_ (Sys.handled_next σ).ge
        fun h => (Sys.handled_next σ).le.trans h
      rw [Sys.handled_threads, if_neg (Ne.symm ht)]
  | hangup t' th hth hp =>
    by_cases ht : t' = t
    · subst ht
      exact H.hangup hth hp (if_pos rfl) rfl
    · exact H.frame rfl rfl rfl (if_neg (Ne.symm ht)) (Nat.le_refl _) id

/-! ## Runs -/

theorem received_mono (tr : History) (t : Nat) : received tr t <+: received (e :: tr) t :=
  List.prefix_append _ _

theorem Run.reading {σ : Sys} (hrun : Run ctx tr σ) (hlines : ∀ line ∈ lines, IsLine line)
    (hlast : AllSteps (ScribblesLast t) tr) (hpre : received tr t <+: lines.flatten) :
    Reading lines tr σ t := by
  revert hpre
  refine TransitionSystem.Run.invariant_of_allSteps
    (P := fun tr σ => received tr t <+: lines.flatten → Reading lines tr σ t) ?_ ?_ hrun hlast
  · rintro _ rfl -
    exact .fresh rfl (Nat.zero_le _) rfl rfl rfl
  · intro tr σ l σ' _ ih hlast hstep hpre
    have H := ih ((received_mono _ t).trans hpre)
    exact H.step hlines hpre hlast (step_cases hstep)

theorem Reading.framed {σ : Sys} (H : Reading lines tr σ t) (hlines : ∀ line ∈ lines, IsLine line) :
    Framed lines tr σ t := by
  have hexpected {done rest u} (P : Progress lines tr t done rest u) :
      expected lines = handed tr t ++ expected rest := by
    rw [expected, P.lines, trimmed_append, upToQuit_append P.noQuit, P.handed]
    rfl
  have hall {done rest u} (P : Progress lines tr t done rest u) (hu : crlfIdx u = none)
      (hend : received tr t = lines.flatten) : handed tr t = expected lines := by
    rw [hexpected P, P.rest_eq_nil hlines hu hend]
    exact (List.append_nil _).symm
  cases H with
  | fresh hth hle hreceived hhanded hquit =>
    refine ⟨hhanded ▸ List.nil_prefix, ?_, fun _ th' hth' => by cases hth.symm.trans hth'⟩
    rintro (h | ⟨hend, -⟩)
    · cases hquit.symm.trans h
    · cases lines with
      | nil => exact hhanded
      | cons line lines =>
        have : line = [] := by
          rw [hreceived] at hend
          simpa using (List.append_eq_nil_iff.mp hend.symm).1
        exact absurd (this ▸ (hlines line List.mem_cons_self).terminated) not_terminated_nil
  | live th done rest u hth hlt hquit P hholds =>
    refine ⟨⟨_, (hexpected P).symm⟩, ?_, fun _ th' hth' => ?_⟩
    · rintro (h | ⟨hend, hidle⟩)
      · cases hquit.symm.trans h
      · have := crlfIdx_of_strstrCrlf (hidle th hth)
        exact hall P (hholds.crlfIdx_eq ▸ this) hend
    · cases hth.symm.trans hth'
      cases hu : crlfIdx u with
      | some p => exact ⟨some p, strstrCrlf_eq_some.mpr (hholds.crlfIdx_eq.trans hu), nofun⟩
      | none =>
        have hshort := P.length_lt hlines hu
        have hpos := hholds.pos
        refine ⟨none, hholds.search hu (by omega), fun _ => ?_⟩
        rw [Thread.room]
        omega
  | gone done rest u hth hlt hquit P hu =>
    refine ⟨⟨_, (hexpected P).symm⟩, ?_, fun _ th' hth' => by cases hth.symm.trans hth'⟩
    rintro (h | ⟨hend, -⟩)
    · cases hquit.symm.trans h
    · exact hall P hu hend
  | quit hlt hquit hhanded =>
    exact ⟨hhanded ▸ List.prefix_refl _, fun _ => hhanded, fun h => by cases hquit.symm.trans h⟩

/-- **Framing.** If thread `t` reads the bytes of a stream of lines, in whatever pieces, and each
command of it whose handler prints into the buffer is the last one in the buffer, then it hands the
lines to the parser in order, each trimmed, up to the first QUIT. -/
theorem framed_of_scribblesLast {σ : Sys} (hrun : Run ctx tr σ)
    (hlines : ∀ line ∈ lines, IsLine line) (hpre : received tr t <+: lines.flatten)
    (hlast : AllSteps (ScribblesLast t) tr) : Framed lines tr σ t :=
  (hrun.reading hlines hlast hpre).framed hlines

/-- The lines of a registration. -/
def linesOfAmy : List (List Byte) := [lit "NICK amy\r\n", lit "USER amy * * :Amy\r\n"]

theorem isLine_linesOfAmy : ∀ line ∈ linesOfAmy, IsLine line := by
  rintro line (_ | ⟨_, _ | ⟨_, ⟨⟩⟩⟩)
  · exact ⟨⟨lit "NICK amy", by decide, by decide⟩, by decide, by decide⟩
  · exact ⟨⟨lit "USER amy * * :Amy", by decide, by decide⟩, by decide, by decide⟩

theorem framed_registerAmy : ∃ tr σ, play plainServer registerAmy = .ok (tr, σ) ∧
    received tr 0 = linesOfAmy.flatten ∧ Framed linesOfAmy tr σ 0 := by
  obtain ⟨tr, σ, hplay, hrun, h⟩ := run_of_playsTo plainServer registerAmy
    (fun tr _ => received tr 0 = linesOfAmy.flatten ∧ AllSteps (ScribblesLast 0) tr)
    (by decide +kernel)
  obtain ⟨hreceived, hlast⟩ := of_decide_eq_true h
  exact ⟨tr, σ, hplay, hreceived,
    framed_of_scribblesLast hrun isLine_linesOfAmy (hreceived ▸ List.prefix_refl _) hlast⟩

/-- The lines of a registration and a further command arrive at once. -/
def registerAndAsk : List Event :=
  [.accept 4, .recv 0 (lit "NICK amy\r\nUSER amy * * :Amy\r\nLUSERS\r\n"), .line 0, .line 0]

/-- The last line is overwritten by the reply to the second. -/
theorem framed_lost : (∀ line ∈ linesOfAmy ++ [lit "LUSERS\r\n"], IsLine line) ∧
    ∃ tr σ, play plainServer registerAndAsk = .ok (tr, σ) ∧
    received tr 0 = (linesOfAmy ++ [lit "LUSERS\r\n"]).flatten ∧ handed tr 0 = linesOfAmy ∧
    ¬ Framed (linesOfAmy ++ [lit "LUSERS\r\n"]) tr σ 0 := by
  have hlusers : IsLine (lit "LUSERS\r\n") :=
    ⟨⟨lit "LUSERS", by decide, by decide⟩, by decide, by decide⟩
  refine ⟨List.forall_mem_append.mpr ⟨isLine_linesOfAmy, by simpa using hlusers⟩, ?_⟩
  obtain ⟨tr, σ, hplay, -, h⟩ := run_of_playsTo plainServer registerAndAsk
    (fun tr σ => received tr 0 = (linesOfAmy ++ [lit "LUSERS\r\n"]).flatten ∧
      handed tr 0 = linesOfAmy ∧ Idle σ 0) (by decide +kernel)
  obtain ⟨hreceived, hhanded, hidle⟩ := of_decide_eq_true h
  refine ⟨tr, σ, hplay, hreceived, hhanded, fun H => ?_⟩
  have hall := H.complete (.inr ⟨hreceived, hidle⟩)
  rw [hhanded] at hall
  exact absurd hall (by decide +kernel)

end Chirc
