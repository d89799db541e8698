import TreeQuery.Proofs.Bracket.LineEnds
import TreeQuery.Proofs.Calls
import TreeQuery.Proofs.Stream.Scan
import TreeQuery.Proofs.Text.Encoding

namespace TreeQuery.Stream

/-- The line ends in a tree make no difference, and neither does its place in the text, except for
the line where a fault is reported. -/
theorem parseAt_plain (line : Nat) (text : List Char) :
    Tree.parseAt line (Line.plain text) =
      (Tree.parse (.ofList text)).mapError (ReadError.atLine line) := by
  rw [Tree.parse, Tree.parseAt, Tree.parseAt, Tree.ofChars_plain, String.toList_ofList]
  cases Tree.ofChars text <;> rfl

/-- What is given from a place in the text on. -/
def givenFrom (line : Nat) (cs : List Char) : Place → List (Except ReadError Tree)
  | .lineStart => scan line none ((Line.ofText cs).map some)
  | .withinLine => resume line false none cs

theorem given_chunk {text : List Char} (h : IsChunk text) (line : Nat) (rest : List Char) :
    givenFrom line (text ++ rest) .withinLine =
      (Piece.chunk text).results line ++
        givenFrom (line + text.count '\n') rest .withinLine := by
  obtain ⟨hhead, hclose, hopen⟩ := h
  obtain ⟨cs, rfl⟩ := List.head?_eq_some_iff.mp hhead
  let k := OpenChunk.start line (cs ++ rest).head?
  have hstart {start : List Char} (hp : start <+: cs) :
      (k.depth : Int) + depthFrom k.inHeader start = depth ('(' :: start) :=
    start_depthFrom line (hp.trans (List.prefix_append cs rest))
  have hcount : ('(' :: cs).count '\n' = cs.count '\n' := List.count_cons_of_ne (by decide)
  have hplain : Line.plain ('(' :: cs) = '(' :: Line.plain cs := by
    rw [Line.plain, if_neg (by simp)]
  have hrun : resume line false (some k) (cs ++ rest) =
      Tree.parseAt line ('(' :: Line.plain cs) ::
        resume (line + cs.count '\n') false none rest := by
    refine resume_chunk rest (Nat.le_refl 1) (fun start hp hne => ?_)
      (hstart List.prefix_rfl ▸ hclose)
    rw [hstart hp]
    exact hopen _ ((List.prefix_cons_inj '(').mpr hp) (List.cons_ne_nil _ _) (by simpa using hne)
  rw [givenFrom, List.cons_append, resume_open, hrun, Piece.results, ← parseAt_plain, hplain,
    hcount]
  rfl

theorem given_unclosed {cs : List Char} (hhead : cs.head? = some '(')
    (hno : ∀ text, text <+: cs → ¬ IsChunk text) (line : Nat) :
    givenFrom line cs .withinLine = (Piece.unclosed cs).results line := by
  obtain ⟨cs, rfl⟩ := List.head?_eq_some_iff.mp hhead
  have hopen : ∀ start, start <+: cs → depth ('(' :: start) ≠ 0 := by
    intro start hp hzero
    obtain ⟨text, ht, hchunk⟩ := exists_chunk rfl hzero
    exact hno text (ht.trans ((List.prefix_cons_inj '(').mpr hp)) hchunk
  rw [givenFrom, resume_open]
  exact resume_unclosed (Nat.le_refl 1) fun start hp => start_depthFrom line hp ▸ hopen start hp

theorem Divided.given_eq {place : Place} {cs : List Char} {ps : List Piece}
    (h : Divided place cs ps) (line : Nat) : givenFrom line cs place = results line ps := by
  induction h generalizing line with
  | @done place => cases place <;> rfl
  | @separator l rest _ hline hsep _ ih =>
    rw [← takeWhile_line hline rest] at hsep
    rw [givenFrom, scan_separator line hsep, Line.others_line hline, results, Piece.text,
      List.count_append, List.count_eq_zero_of_not_mem hline]
    exact ih (line + 1)
  | lastSeparator hne hline hsep =>
    rw [← takeWhile_lastLine hline] at hsep
    rw [givenFrom, scan_separator line hsep, Line.others_lastLine hline]
    rfl
  | line hsep _ ih => exact (scan_line line hsep).trans (ih line)
  | lineFeed _ ih => exact ih (line + 1)
  | stretch hne ho hlf hrest _ ih =>
    rw [givenFrom, resume_stretch ho hlf hrest, results, Piece.text,
      List.count_eq_zero_of_not_mem hlf]
    exact congrArg _ (ih line)
  | chunk hchunk _ ih => rw [given_chunk hchunk, ih, results, Piece.text]
  | unclosed hhead hno => rw [given_unclosed hhead hno, results, results, List.append_nil]

namespace Reader

variable {lines : List (Option (List Char))} {taken : Nat} {chunk : Option OpenChunk}

/-- Items that are ready are given first. -/
theorem yields_ready {done : Bool} {rs : List (Except ReadError Tree)}
    (h : Yields next ⟨lines, taken, chunk, [], done⟩ rs) (ready : List Item) :
    Yields next ⟨lines, taken, chunk, ready, done⟩ (ready.map Item.read ++ rs) := by
  induction ready with
  | nil => exact h
  | cons item ready ih => exact .cons rfl ih

theorem next_advance : next ⟨lines, taken, chunk, [], false⟩ = advance taken chunk lines :=
  rfl

/-- Reading item by item gives what reading all lines gives. -/
theorem yields_scan (lines : List (Option (List Char))) (taken : Nat) (chunk : Option OpenChunk) :
    Yields next ⟨lines, taken, chunk, [], false⟩ (scan (taken + 1) chunk lines) := by
  induction lines generalizing taken chunk with
  | nil =>
    cases chunk with
    | none => exact .ended rfl rfl
    | some k => exact .cons rfl (yields_nil rfl)
  | cons l lines ih =>
    cases l with
    | none =>
      have hscan : scan (taken + 1) chunk (none :: lines) = [.error .notText] := by
        cases chunk <;> rfl
      rw [hscan]
      exact .cons rfl (yields_nil rfl)
    | some text =>
      rw [scan]
      split
      · rename_i hsep
        refine .congr ?_ (ih (taken + 1) none)
        rw [next_advance, advance, if_pos hsep, next_advance]
      · rename_i hsep
        rcases hs : scanLine (taken + 1) false chunk text with ⟨items, chunk'⟩
        cases items with
        | nil =>
          refine .congr ?_ (ih (taken + 1) chunk')
          rw [next_advance, advance, if_neg hsep, hs, next_advance]
        | cons item ready =>
          refine .cons ?_ (yields_ready (ih (taken + 1) chunk') ready)
          rw [next_advance, advance, if_neg hsep, hs]

/-- A stream that reads the bytes of a text gives what reading the whole text gives. -/
theorem yields_ofText (text : String) :
    Yields next (.ofBytes text.toUTF8.data.toList) (ofText text) := by
  have hlines : Line.ofBytes text.toUTF8.data.toList = (Line.ofText text.toList).map some := by
    rw [← Line.encode_toList, Line.ofBytes_encode]
  rw [Reader.ofBytes, hlines]
  exact yields_scan _ 0 none

theorem yields_ofText_iff {text : String} {xs : List (Except ReadError Tree)} :
    Yields next (.ofBytes text.toUTF8.data.toList) xs ↔ ofText text = xs := by
  constructor
  · exact fun h => (yields_ofText text).unique h
  · rintro rfl
    exact yields_ofText text

end Reader

/-- Every text can be divided into its pieces. A stream that reads the bytes of the text gives
exactly what the pieces contribute, in their order, and then nothing for ever. -/
theorem ofText_divided (text : String) :
    (∃ ps, Divided .lineStart text.toList ps) ∧
      ∀ ps, Divided .lineStart text.toList ps →
        ofText text = results 1 ps ∧
          Yields Reader.next (.ofBytes text.toUTF8.data.toList) (results 1 ps) := by
  refine ⟨(exists_divided text.toList).2, fun ps hps => ?_⟩
  have hgiven : ofText text = results 1 ps := hps.given_eq 1
  have hlines : Line.ofBytes text.toUTF8.data.toList = (Line.ofText text.toList).map some := by
    rw [← Line.encode_toList, Line.ofBytes_encode]
  refine ⟨hgiven, ?_⟩
  rw [← hgiven, Reader.ofBytes, hlines]
  exact Reader.yields_scan _ 0 none

/-- Stray text beside trees, a separator with a bracket in it, a tree of two lines and one without
an end. -/
example : (ofText "(A a) x (B b)\r\nID=1 (C c)\n(D\n d)) y\n(E").map (·.map Tree.size) =
    [.ok 1, .error (.inLine 1 (.stray 'x')), .ok 1, .ok 1, .error (.inLine 4 (.stray ')')),
      .error (.inLine 5 .unbalanced)] := by
  cbv

end TreeQuery.Stream
