import TreeQuery.Proofs.Stream.Chunks

namespace TreeQuery.Stream

/-- The text of the tree that is open, its depth and the line where it began; whether stray text has
been reported since the last tree of this line; and the items that have ended so far. -/
structure Registers where
  text : List Char
  depth : Nat
  inHeader : Bool
  start : Option Nat
  stray : Bool
  ready : List Item

/-- A character of a numbered line is read with a view of the one after it in the line. -/
inductive Event
  | char (line : Nat) (c : Char) (next : Option Char)
  | lineEnd

def Event.toChar : Event → Char
  | char _ c _ => c
  | lineEnd => '\n'

def events (line : Nat) : List Char → List Event
  | [] => [.lineEnd]
  | c :: cs => .char line c cs.head? :: events line cs

/-- What happens when lines with these numbers are read one after the other. -/
def course (lines : List (Nat × List Char)) : List Event :=
  lines.flatMap fun (line, text) => events line text

theorem OpenChunk.pos_of_open {k : OpenChunk} (h : ¬ k.isClosed = true) : 1 ≤ k.depth := by
  rw [isClosed, beq_iff_eq] at h
  exact Nat.one_le_iff_ne_zero.mpr h

namespace Registers

def initial : Registers :=
  ⟨[], 0, false, none, false, []⟩

/-- The text of the open tree becomes an item. -/
def close (line : Nat) (r : Registers) : Registers :=
  { r with text := [], start := none, ready := r.ready ++ [.chunk (r.start.getD line) r.text] }

/-- Puts a character into the open tree. There is no result if the depth would fall below zero. -/
def take (line : Nat) (c : Char) (next : Option Char) (r : Registers) : Option Registers :=
  let r := { r with text := r.text ++ [c] }
  if r.inHeader then some { r with inHeader := c != '>' }
  else if c = '(' then some { r with depth := r.depth + 1, inHeader := next == some '<' }
  else if c = ')' then
    if r.depth = 0 then none
    else
      let r := { r with depth := r.depth - 1 }
      some (if r.depth = 0 then r.close line else r)
  else some r

def read (line : Nat) (c : Char) (next : Option Char) (r : Registers) : Option Registers :=
  if r.start.isSome then r.take line c next
  else if c = '(' then { r with start := some line, stray := false }.take line c next
  else if Text.isWhiteSpace c || r.stray then some r
  else some { r with stray := true, ready := r.ready ++ [.stray line c] }

def endLine (r : Registers) : Registers :=
  { r with text := if r.start.isSome then r.text ++ ['\n'] else r.text, stray := false }

def step (r : Registers) : Event → Option Registers
  | .char line c next => r.read line c next
  | .lineEnd => some r.endLine

def run (r : Registers) (es : List Event) : Option Registers :=
  es.foldlM step r

theorem run_append (r : Registers) (es fs : List Event) :
    r.run (es ++ fs) = (r.run es).bind (·.run fs) :=
  List.foldlM_append

theorem run_cons (r : Registers) (e : Event) (es : List Event) :
    r.run (e :: es) = (r.step e).bind (·.run es) :=
  List.foldlM_cons

/-- The registers while a chunk is open, or while none is. -/
def ofChunk (chunk : Option OpenChunk) (stray : Bool) (ready : List Item) : Registers :=
  match chunk with
  | none => ⟨[], 0, false, none, stray, ready⟩
  | some k => ⟨k.text.reverse, k.depth, k.inHeader, some k.line, false, ready⟩

section Step

variable {line : Nat} {c : Char} {next : Option Char} {stray : Bool} {ready : List Item}

theorem step_lineEnd (chunk : Option OpenChunk) : (ofChunk chunk stray ready).step .lineEnd =
    some (ofChunk (chunk.map fun k => { k with text := '\n' :: k.text }) false ready) := by
  cases chunk with
  | none => rfl
  | some k => simp [step, endLine, ofChunk]

theorem step_open : (ofChunk none stray ready).step (.char line '(' next) =
    some (ofChunk (some (.start line next)) stray ready) := by
  rfl

theorem step_passed (ho : c ≠ '(') (h : (Text.isWhiteSpace c || stray) = true) :
    (ofChunk none stray ready).step (.char line c next) = some (ofChunk none stray ready) := by
  simp [step, read, ofChunk, ho, h]

theorem step_stray (ho : c ≠ '(') (h : (Text.isWhiteSpace c || stray) = false) :
    (ofChunk none stray ready).step (.char line c next) =
      some (ofChunk none true (ready ++ [.stray line c])) := by
  simp [step, read, ofChunk, ho, h]

/-- An open chunk takes the character, and ends if that closes it. -/
theorem step_add {k : OpenChunk} (hk : 1 ≤ k.depth) :
    (ofChunk (some k) stray ready).step (.char line c next) =
      if (k.add c next).isClosed then
        some (ofChunk none false (ready ++ [.chunk k.line (k.add c next).text.reverse]))
      else some (ofChunk (some (k.add c next)) stray ready) := by
  obtain ⟨began, depth, inHeader, text⟩ := k
  have hne : depth ≠ 0 := Nat.ne_of_gt hk
  cases inHeader with
  | true => simp [step, read, take, ofChunk, OpenChunk.add, OpenChunk.isClosed, hne]
  | false =>
    by_cases ho : c = '('
    · simp [step, read, take, ofChunk, OpenChunk.add, OpenChunk.isClosed, ho]
    by_cases hc : c = ')'
    · subst hc
      by_cases hlast : depth - 1 = 0
      · simp [step, read, take, close, ofChunk, OpenChunk.add, OpenChunk.isClosed, hne, hlast]
      · simp [step, read, take, ofChunk, OpenChunk.add, OpenChunk.isClosed, hne, hlast]
    · simp [step, read, take, ofChunk, OpenChunk.add, OpenChunk.isClosed, ho, hc, hne]

end Step

/-- The tree that began in this line has been open since the first of the later events, and none was
open before. -/
structure OpenSince (before since : List Event) (line : Nat) : Prop where
  closed : ∃ r, initial.run before = some r ∧ r.start = none
  opens : ∃ next rest, since = .char line '(' next :: rest
  stays : ∀ part, part <+: since → part ≠ [] →
    ∃ r, initial.run (before ++ part) = some r ∧ r.start = some line

/-- The text was read from the bracket that opened a tree to the one that closed it. -/
def Ended (es : List Event) (line : Nat) (text : List Char) : Prop :=
  ∃ before since last next rest, es = before ++ since ++ .char last ')' next :: rest ∧
    OpenSince before since line ∧ text = since.map Event.toChar ++ [')']

/-- The chunk holds what has been read since its tree was opened, and each item what was read of its
tree. -/
structure Tracks (es : List Event) (chunk : Option OpenChunk) (ready : List Item) : Prop where
  open_since : ∀ k, chunk = some k → 1 ≤ k.depth ∧ ∃ before since, es = before ++ since ∧
    OpenSince before since k.line ∧ k.text.reverse = since.map Event.toChar
  ended : ∀ line text, .chunk line text ∈ ready → Ended es line text

theorem OpenSince.append {before since : List Event} {line : Nat} {e : Event} {r : Registers}
    (h : OpenSince before since line) (hr : initial.run (before ++ since ++ [e]) = some r)
    (hstart : r.start = some line) : OpenSince before (since ++ [e]) line where
  closed := h.closed
  opens := by
    obtain ⟨next, rest, rfl⟩ := h.opens
    exact ⟨next, rest ++ [e], rfl⟩
  stays := by
    intro part hp hne
    rcases List.prefix_concat_iff.mp hp with rfl | hp
    · exact ⟨r, by rwa [← List.append_assoc], hstart⟩
    · exact h.stays part hp hne

theorem Ended.append {es : List Event} {line : Nat} {text : List Char} (h : Ended es line text)
    (e : Event) : Ended (es ++ [e]) line text := by
  obtain ⟨before, since, last, next, rest, rfl, hopen, htext⟩ := h
  exact ⟨before, since, last, next, rest ++ [e], by simp, hopen, htext⟩

theorem Ended.bracketed {es : List Event} {line : Nat} {text : List Char} (h : Ended es line text) :
    text.head? = some '(' ∧ text.getLast? = some ')' := by
  obtain ⟨before, since, last, next, rest, rfl, hopen, rfl⟩ := h
  obtain ⟨next, rest, rfl⟩ := hopen.opens
  exact ⟨rfl, List.getLast?_concat⟩

theorem run_concat {es : List Event} {e : Event} {r r' : Registers} (hr : initial.run es = some r)
    (hstep : r.step e = some r') : initial.run (es ++ [e]) = some r' := by
  rw [run_append, hr, Option.bind_some, run_cons, hstep]
  rfl

section Tracks

variable {es : List Event} {e : Event} {stray : Bool} {ready : List Item} {k k' : OpenChunk}

/-- What has ended stays so. -/
theorem Tracks.still {chunk : Option OpenChunk} (h : Tracks es chunk ready) (e : Event) :
    ∀ line text, .chunk line text ∈ ready → Ended (es ++ [e]) line text :=
  fun line text hm => (h.ended line text hm).append e

/-- A tree is opened where none is open. -/
theorem Tracks.opens {line : Nat} {next : Option Char} (h : Tracks es none ready)
    (hr : initial.run es = some (ofChunk none stray ready)) :
    Tracks (es ++ [.char line '(' next]) (some (.start line next)) ready where
  open_since := by
    intro k hk
    cases hk
    refine ⟨Nat.le_refl 1, es, _, rfl, ⟨⟨_, hr, rfl⟩, ⟨next, [], rfl⟩, ?_⟩, rfl⟩
    intro part hp hne
    obtain ⟨rest, rfl, hrest⟩ := (List.prefix_cons_iff.mp hp).resolve_left hne
    obtain rfl := List.prefix_nil.mp hrest
    exact ⟨_, run_concat hr step_open, rfl⟩
  ended := h.still _

/-- An open tree goes on. -/
theorem Tracks.goes_on (h : Tracks es (some k) ready)
    (hr : initial.run (es ++ [e]) = some (ofChunk (some k') stray ready))
    (hpos : 1 ≤ k'.depth) (hline : k'.line = k.line) (htext : k'.text = e.toChar :: k.text) :
    Tracks (es ++ [e]) (some k') ready where
  open_since := by
    intro _ hk
    cases hk
    obtain ⟨_, before, since, rfl, hopen, he⟩ := h.open_since k rfl
    refine ⟨hpos, before, since ++ [e], List.append_assoc .., ?_, ?_⟩
    · rw [hline]
      exact hopen.append hr (congrArg some hline)
    · rw [htext, List.reverse_cons, he, List.map_append]
      rfl
  ended := h.still e

/-- The bracket that closes the open tree makes an item of it. -/
theorem Tracks.closes {last : Nat} {next : Option Char} (h : Tracks es (some k) ready) :
    Tracks (es ++ [.char last ')' next]) none
      (ready ++ [.chunk k.line (k.text.reverse ++ [')'])]) where
  open_since := nofun
  ended := by
    intro line text hm
    rcases List.mem_append.mp hm with hm | hm
    · exact h.still _ line text hm
    · cases List.mem_singleton.mp hm
      obtain ⟨_, before, since, rfl, hopen, he⟩ := h.open_since k rfl
      exact ⟨before, since, last, next, [], rfl, hopen, by rw [he]⟩

/-- Outside the trees nothing is kept. -/
theorem Tracks.passes (h : Tracks es none ready) (e : Event) : Tracks (es ++ [e]) none ready :=
  ⟨nofun, h.still e⟩

theorem Tracks.reports {line : Nat} {c : Char} (h : Tracks es none ready) (e : Event) :
    Tracks (es ++ [e]) none (ready ++ [.stray line c]) where
  open_since := nofun
  ended := by
    intro began text hm
    rcases List.mem_append.mp hm with hm | hm
    · exact h.still e began text hm
    · cases List.mem_singleton.mp hm

end Tracks

/-- Whatever has happened, the depth has not fallen below zero, and the registers keep track. -/
theorem exists_tracks (es : List Event) : ∃ chunk stray ready,
    initial.run es = some (ofChunk chunk stray ready) ∧ Tracks es chunk ready := by
  -- by induction on the last event; which of the cases is met depends on whether a tree is open
  induction es using List.reverseRecOn with
  | nil => exact ⟨none, false, [], rfl, ⟨nofun, nofun⟩⟩
  | append_singleton es e ih =>
    obtain ⟨chunk, stray, ready, hr, ht⟩ := ih
    cases e with
    | lineEnd =>
      have hr' := run_concat hr (step_lineEnd chunk)
      cases chunk with
      | none => exact ⟨_, _, _, hr', ht.passes _⟩
      | some k => exact ⟨_, _, _, hr', ht.goes_on hr' (ht.open_since k rfl).1 rfl rfl⟩
    | char line c next =>
      cases chunk with
      | none =>
        by_cases ho : c = '('
        · subst ho
          exact ⟨_, _, _, run_concat hr step_open, ht.opens hr⟩
        cases hpass : Text.isWhiteSpace c || stray with
        | true => exact ⟨_, _, _, run_concat hr (step_passed ho hpass), ht.passes _⟩
        | false => exact ⟨_, _, _, run_concat hr (step_stray ho hpass), ht.reports _⟩
      | some k =>
        have hpos : 1 ≤ k.depth := (ht.open_since k rfl).1
        have hstep : (ofChunk (some k) stray ready).step (.char line c next) = _ := step_add hpos
        by_cases hclosed : (k.add c next).isClosed = true
        · obtain rfl : c = ')' := OpenChunk.eq_close_of_add hpos (beq_iff_eq.mp hclosed)
          rw [if_pos hclosed, OpenChunk.add_text, List.reverse_cons] at hstep
          exact ⟨_, _, _, run_concat hr hstep, ht.closes⟩
        · rw [if_neg hclosed] at hstep
          have hr' := run_concat hr hstep
          exact ⟨_, _, _, hr', ht.goes_on hr' (OpenChunk.pos_of_open hclosed)
            (OpenChunk.add_line c next) (OpenChunk.add_text c next)⟩

/-- While no tree is open the registers are at rest. While one is open the depth is positive, and
the text is what has been read since its bracket. Each tree that has ended begins and ends with its
brackets. -/
structure Sound (es : List Event) (r : Registers) : Prop where
  at_rest : r.start = none → r.depth = 0 ∧ r.inHeader = false ∧ r.text = []
  open_since : ∀ line, r.start = some line → 1 ≤ r.depth ∧ ∃ before since, es = before ++ since ∧
    OpenSince before since line ∧ r.text = since.map Event.toChar
  ended : ∀ line text, .chunk line text ∈ r.ready →
    Ended es line text ∧ text.head? = some '(' ∧ text.getLast? = some ')'

theorem Tracks.sound {es : List Event} {chunk : Option OpenChunk} {ready : List Item}
    (h : Tracks es chunk ready) (stray : Bool) : (ofChunk chunk stray ready).Sound es := by
  have hended : ∀ line text, .chunk line text ∈ ready →
      Ended es line text ∧ text.head? = some '(' ∧ text.getLast? = some ')' :=
    fun line text hm => ⟨h.ended line text hm, (h.ended line text hm).bracketed⟩
  cases chunk with
  | none => exact ⟨fun _ => ⟨rfl, rfl, rfl⟩, nofun, hended⟩
  | some k =>
    refine ⟨nofun, fun line hl => ?_, hended⟩
    cases hl
    exact h.open_since k rfl

end Registers

section Line

variable {line : Nat} {stray : Bool} {chunk : Option OpenChunk} {text : List Char}
  (hk : ∀ k, chunk = some k → 1 ≤ k.depth)

include hk

/-- A chunk that a line leaves open has a positive depth. -/
theorem pos_of_scanLine {k : OpenChunk}
    (h : (scanLine line stray chunk text).2 = some k) : 1 ≤ k.depth := by
  fun_induction scanLine line stray chunk text with
  | case1 stray chunk =>
    obtain ⟨k', hk', rfl⟩ := Option.map_eq_some_iff.mp h
    exact hk k' hk'
  | case2 stray cs ih => exact ih (fun _ he => Option.some.inj he ▸ Nat.le_refl 1) h
  | case3 stray c cs ho hpass ih => exact ih nofun h
  | case4 stray c cs ho hpass items chunk hs ih => exact ih nofun (by rwa [hs])
  | case5 stray k c cs added hclosed items chunk hs ih => exact ih nofun (by rwa [hs])
  | case6 stray k c cs added hopen ih =>
    exact ih (fun _ he => Option.some.inj he ▸ OpenChunk.pos_of_open hopen) h

/-- After a line the registers say what reading the whole line at once says. -/
theorem Registers.run_events (ready : List Item) :
    (ofChunk chunk stray ready).run (events line text) =
      some (ofChunk (scanLine line stray chunk text).2 false
        (ready ++ (scanLine line stray chunk text).1)) := by
  fun_induction scanLine line stray chunk text generalizing ready with
  | case1 stray chunk =>
    rw [events, run_cons, step_lineEnd, List.append_nil]
    rfl
  | case2 stray cs ih =>
    rw [events, run_cons, step_open, Option.bind_some]
    exact ih (fun _ h => Option.some.inj h ▸ Nat.le_refl 1) ready
  | case3 stray c cs ho hpass ih =>
    rw [events, run_cons, step_passed ho hpass, Option.bind_some]
    exact ih nofun ready
  | case4 stray c cs ho hpass items chunk hs ih =>
    rw [events, run_cons, step_stray ho (Bool.eq_false_iff.mpr hpass), Option.bind_some, ih nofun,
      hs, List.append_assoc]
    rfl
  | case5 stray k c cs added hclosed items chunk hs ih =>
    rw [events, run_cons, step_add (hk k rfl), if_pos hclosed, Option.bind_some, ih nofun, hs,
      List.append_assoc, ← OpenChunk.add_line c cs.head?]
    rfl
  | case6 stray k c cs added hopen ih =>
    rw [events, run_cons, step_add (hk k rfl), if_neg hopen, Option.bind_some]
    exact ih (fun _ h => Option.some.inj h ▸ OpenChunk.pos_of_open hopen) ready

end Line

/-- Reads lines with these numbers, whether they separate trees or not. -/
def scanLines : Option OpenChunk → List (Nat × List Char) → List Item × Option OpenChunk
  | chunk, [] => ([], chunk)
  | chunk, (line, text) :: lines =>
    let (items, chunk) := scanLine line false chunk text
    let (more, chunk) := scanLines chunk lines
    (items ++ more, chunk)

/-- The lines of a stream, from number `line` on, that are read: all but those that separate
trees. -/
def readLines (line : Nat) : Option OpenChunk → List (List Char) → List (Nat × List Char)
  | _, [] => []
  | chunk, text :: texts =>
    if chunk.isNone && isSeparator text then readLines (line + 1) none texts
    else (line, text) :: readLines (line + 1) (scanLine line false chunk text).2 texts

theorem scan_eq_scanLines (line : Nat) (chunk : Option OpenChunk) (texts : List (List Char)) :
    scan line chunk (texts.map some) =
      (scanLines chunk (readLines line chunk texts)).1.map Item.read ++
        ((scanLines chunk (readLines line chunk texts)).2.map fun k =>
          .error (.inLine k.line .unbalanced)).toList := by
  induction texts generalizing line chunk with
  | nil => cases chunk <;> rfl
  | cons text texts ih =>
    rw [List.map_cons, scan, readLines]
    split
    · rename_i hsep
      obtain rfl := Option.isNone_iff_eq_none.mp (Bool.and_eq_true_iff.mp hsep).1
      exact ih (line + 1) none
    · rcases hs : scanLine line false chunk text with ⟨items, chunk'⟩
      rw [scanLines, hs]
      simp only [ih, List.map_append, List.append_assoc]

namespace Registers

theorem run_course (chunk : Option OpenChunk) (hk : ∀ k, chunk = some k → 1 ≤ k.depth)
    (ready : List Item) (lines : List (Nat × List Char)) :
    (ofChunk chunk false ready).run (course lines) =
      some (ofChunk (scanLines chunk lines).2 false (ready ++ (scanLines chunk lines).1)) := by
  induction lines generalizing chunk ready with
  | nil => simp [course, run, scanLines]
  | cons l lines ih =>
    obtain ⟨line, text⟩ := l
    have hcourse : course ((line, text) :: lines) = events line text ++ course lines := rfl
    rw [hcourse, run_append, run_events hk, Option.bind_some, ih _ fun _ => pos_of_scanLine hk,
      List.append_assoc]
    rfl

/-- The registers are sound after every event in the reading of whatever lines, and so at every
character. After whole lines they hold what `scanLine` gives, and a stream gives the items that are
ready once its lines are read, and an error if a tree is open then. -/
theorem sound_at_every_event :
    (∀ lines n, ∃ r, initial.run ((course lines).take n) = some r ∧
      r.Sound ((course lines).take n)) ∧
    (∀ lines, initial.run (course lines) =
      some (ofChunk (scanLines none lines).2 false (scanLines none lines).1)) ∧
    ∀ text : String, ∃ r,
      initial.run (course (readLines 1 none (Line.ofText text.toList))) = some r ∧
      ofText text = r.ready.map Item.read ++
        (r.start.map fun line => .error (.inLine line .unbalanced)).toList := by
  have hcourse : ∀ lines, initial.run (course lines) =
      some (ofChunk (scanLines none lines).2 false (scanLines none lines).1) :=
    run_course none nofun []
  refine ⟨fun lines n => ?_, hcourse, fun text => ⟨_, hcourse _, ?_⟩⟩
  · obtain ⟨chunk, stray, ready, hr, ht⟩ := exists_tracks ((course lines).take n)
    exact ⟨_, hr, ht.sound stray⟩
  · rw [ofText, scan_eq_scanLines]
    cases (scanLines none (readLines 1 none (Line.ofText text.toList))).2 <;> rfl

/-- A tree is open over a line end, and the bracket in its unfinished header does not count. -/
example : (initial.run (course [(1, "x (A".toList), (2, "(<L N (".toList)])).map
    (fun r => (r.text, r.depth, r.inHeader, r.start)) =
      some ("(A\n(<L N (\n".toList, 2, true, some 1) := by
  decide

end Registers

end TreeQuery.Stream
