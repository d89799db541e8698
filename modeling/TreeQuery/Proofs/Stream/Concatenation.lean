import TreeQuery.Proofs.Stream.Results

namespace TreeQuery

/-- The same error, found so many lines further down. -/
def ReadError.lower (lines : Nat) : ReadError → ReadError
  | inLine line fault => inLine (line + lines) fault
  | notText => notText

namespace Stream

/-- The text is empty or ends with a line feed. -/
def EndsLine (cs : List Char) : Prop :=
  ∀ c ∈ cs.getLast?, c = '\n'

/-- The last piece is a tree that has no end in the text. -/
def LeftOpen (ps : List Piece) : Prop :=
  ∃ start text, ps = start ++ [.unclosed text]

variable {cs rest : List Char} {ps qs : List Piece}

theorem EndsLine.of_append (start : List Char) (h : EndsLine (start ++ cs)) : EndsLine cs := by
  intro c hc
  apply h c
  rw [List.getLast?_append, Option.mem_def.mp hc]
  rfl

theorem EndsLine.mem (h : EndsLine cs) (hne : cs ≠ []) : '\n' ∈ cs := by
  have hlast : cs.getLast? = some (cs.getLast hne) := List.getLast?_eq_some_getLast hne
  rw [← h _ hlast]
  exact List.getLast_mem hne

/-- What stands in front of the first line feed is the first line, whatever follows the text. -/
theorem EndsLine.takeWhile_append (h : EndsLine cs) (hne : cs ≠ []) (rest : List Char) :
    (cs ++ rest).takeWhile (· != '\n') = cs.takeWhile (· != '\n') := by
  obtain ⟨line, others, rfl, hline⟩ := List.eq_append_cons_of_mem (h.mem hne)
  rw [List.append_assoc, List.cons_append, takeWhile_line hline, takeWhile_line hline]

/-- A line feed at the end opens and closes nothing. -/
theorem depth_concat_lf (cs : List Char) : depth (cs ++ ['\n']) = depth cs := by
  have key (inHeader : Bool) : depthFrom inHeader (cs ++ ['\n']) = depthFrom inHeader cs := by
    induction cs generalizing inHeader with
    | nil => cases inHeader <;> rfl
    | cons c cs ih =>
      have hnext : headerAfter inHeader c (cs ++ ['\n']).head? =
          headerAfter inHeader c cs.head? := by
        cases cs with
        | nil => simp [headerAfter]
        | cons d cs => rfl
      rw [List.cons_append, depthFrom, depthFrom, hnext, ih]
  rw [← depthFrom_eq_depth, ← depthFrom_eq_depth, key]

/-- A tree does not end with a line feed. -/
theorem IsChunk.not_endsLine (h : IsChunk cs) : ¬ EndsLine cs := by
  intro hend
  obtain ⟨hhead, hzero, hfirst⟩ := h
  rcases List.eq_nil_or_concat' cs with rfl | ⟨start, c, rfl⟩
  · cases hhead
  · obtain rfl : c = '\n' := hend c (by simp)
    have hne : start ≠ [] := by
      rintro rfl
      cases hhead
    rw [depth_concat_lf] at hzero
    exact hfirst start (List.prefix_append _ _) hne (by simp) hzero

theorem Divided.flatMap_text {place : Place} (h : Divided place cs ps) :
    ps.flatMap Piece.text = cs := by
  induction h with
  | done => rfl
  | separator _ _ _ ih => simp [Piece.text, ih]
  | lastSeparator => simp [Piece.text]
  | line _ _ ih => exact ih
  | lineFeed _ ih => simp [Piece.text, ih]
  | stretch _ _ _ _ _ ih => simp [Piece.text, ih]
  | chunk _ _ ih => simp [Piece.text, ih]
  | unclosed => simp [Piece.text]

theorem results_append (line : Nat) (ps qs : List Piece) :
    results line (ps ++ qs) =
      results line ps ++ results (line + (ps.flatMap Piece.text).count '\n') qs := by
  induction ps generalizing line with
  | nil => rfl
  | cons p ps ih =>
    rw [List.cons_append, results, results, ih, List.flatMap_cons, List.count_append,
      List.append_assoc, Nat.add_assoc]

theorem Piece.results_lower (line lines : Nat) (p : Piece) :
    p.results (line + lines) = (p.results line).map (Except.mapError (ReadError.lower lines)) := by
  cases p with
  | separator | lineFeed => rfl
  | unclosed => rfl
  | stretch text =>
    rw [results, results, List.map_map]
    rfl
  | chunk text =>
    rw [results, results, List.map_singleton]
    rcases Tree.parse (.ofList text) with (_ | _) | _ <;> rfl

theorem results_lower (line lines : Nat) (ps : List Piece) :
    results (line + lines) ps =
      (results line ps).map (Except.mapError (ReadError.lower lines)) := by
  induction ps generalizing line with
  | nil => rfl
  | cons p ps ih =>
    rw [results, results, List.map_append, ← Piece.results_lower, ← ih, Nat.add_right_comm]

/-- The pieces `ps` of a text begin the pieces of a longer one, which go on with `qs`: either all of
them do, and `rest` is divided on its own, or all but a last one that has no end in the text. -/
def Continued (ps : List Piece) (rest : List Char) (start qs : List Piece) : Prop :=
  start = ps ∧ Divided .lineStart rest qs ∨ ∃ text, ps = start ++ [.unclosed text]

theorem Continued.cons {start : List Piece} (h : Continued ps rest start qs) (p : Piece) :
    Continued (p :: ps) rest (p :: start) qs := by
  rcases h with ⟨rfl, hrest⟩ | ⟨text, rfl⟩
  · exact .inl ⟨rfl, hrest⟩
  · exact .inr ⟨text, rfl⟩

/-- Whatever follows whole lines, the pieces in them stay the same up to a tree that is left
open. -/
theorem Divided.exists_continued {place : Place} (h : Divided place cs ps) (hend : EndsLine cs)
    (hne : place = .withinLine → cs ≠ []) (rest : List Char) :
    ∃ start qs, Divided place (cs ++ rest) (start ++ qs) ∧ Continued ps rest start qs := by
  -- no piece but an open tree can go on in `rest`: each other one ends in a line of its own text
  induction h with
  | @done place =>
    cases place with
    | withinLine => exact absurd rfl (hne rfl)
    | lineStart =>
      obtain ⟨_, qs, hqs⟩ := exists_divided rest
      exact ⟨[], qs, hqs, .inl ⟨rfl, hqs⟩⟩
  | @separator line others ps hline hsep _ ih =>
    have hothers : EndsLine others := by
      refine .of_append (line ++ ['\n']) ?_
      rwa [List.append_assoc]
    obtain ⟨start, qs, hd, hc⟩ := ih hothers nofun
    refine ⟨_ :: start, qs, ?_, hc.cons _⟩
    rw [List.append_assoc, List.cons_append]
    exact .separator hline hsep hd
  | lastSeparator hnil hline _ => exact absurd (hend.mem hnil) hline
  | @line cs ps hsep _ ih =>
    have hnil : cs ≠ [] := by
      rintro rfl
      exact hsep (.inl fun c hc => absurd hc List.not_mem_nil)
    obtain ⟨start, qs, hd, hc⟩ := ih hend fun _ => hnil
    rw [← hend.takeWhile_append hnil rest] at hsep
    exact ⟨start, qs, .line hsep hd, hc⟩
  | @lineFeed others ps _ ih =>
    have hothers : EndsLine others := .of_append ['\n'] hend
    obtain ⟨start, qs, hd, hc⟩ := ih hothers nofun
    exact ⟨_ :: start, qs, .lineFeed hd, hc.cons _⟩
  | @stretch text others ps hnil ho hlf hhead _ ih =>
    have hothers : others ≠ [] := by
      rintro rfl
      rw [List.append_nil] at hend
      exact hlf (hend.mem hnil)
    obtain ⟨start, qs, hd, hc⟩ := ih (hend.of_append text) fun _ => hothers
    refine ⟨_ :: start, qs, ?_, hc.cons _⟩
    rw [List.append_assoc]
    refine .stretch hnil ho hlf (fun c hcs => hhead c ?_) hd
    rwa [List.head?_append_of_ne_nil _ hothers] at hcs
  | @chunk text others ps hchunk _ ih =>
    have hothers : others ≠ [] := by
      rintro rfl
      rw [List.append_nil] at hend
      exact hchunk.not_endsLine hend
    obtain ⟨start, qs, hd, hc⟩ := ih (hend.of_append text) fun _ => hothers
    refine ⟨_ :: start, qs, ?_, hc.cons _⟩
    rw [List.append_assoc]
    exact .chunk hchunk hd
  | @unclosed cs _ _ =>
    obtain ⟨⟨qs, hqs⟩, _⟩ := exists_divided (cs ++ rest)
    exact ⟨[], qs, hqs, .inr ⟨cs, rfl⟩⟩

/-- Where no tree is left open, each text gives what it gives alone. -/
theorem ofText_append_of_closed {first : String} (h : EndsLine first.toList)
    (hps : Divided .lineStart first.toList ps) (hclosed : ¬ LeftOpen ps) (second : String) :
    ofText (first ++ second) = ofText first ++
      (ofText second).map (Except.mapError (ReadError.lower (first.toList.count '\n'))) := by
  obtain ⟨start, qs, hall, ⟨rfl, hqs⟩ | ⟨text, rfl⟩⟩ :=
    hps.exists_continued h nofun second.toList
  · rw [← String.toList_append] at hall
    have hfirst : ofText first = results 1 start := hps.given_eq 1
    have hsecond : ofText second = results 1 qs := hqs.given_eq 1
    have hboth : ofText (first ++ second) = results 1 (start ++ qs) := hall.given_eq 1
    rw [hboth, hfirst, hsecond, results_append, hps.flatMap_text, results_lower]
  · exact absurd ⟨start, text, rfl⟩ hclosed

/-- What was given before an open tree is given whatever follows. -/
theorem prefix_ofText_append {first : String} (h : EndsLine first.toList)
    (hps : Divided .lineStart first.toList ps) (hopen : LeftOpen ps) (second : String) :
    ∃ given line, ofText first = given ++ [.error (.inLine line .unbalanced)] ∧
      given <+: ofText (first ++ second) := by
  obtain ⟨before, text, rfl⟩ := hopen
  have hfirst : ofText first = results 1 (before ++ [.unclosed text]) := hps.given_eq 1
  rw [results_append] at hfirst
  refine ⟨results 1 before, _, hfirst, ?_⟩
  obtain ⟨start, qs, hall, hc⟩ := hps.exists_continued h nofun second.toList
  rw [← String.toList_append] at hall
  have hboth : ofText (first ++ second) = results 1 (start ++ qs) := hall.given_eq 1
  have hstart : ∃ more, start ++ qs = before ++ more := by
    rcases hc with ⟨rfl, _⟩ | ⟨text', he⟩
    · exact ⟨.unclosed text :: qs, by simp⟩
    · obtain ⟨rfl, _⟩ := List.append_inj' he rfl
      exact ⟨qs, rfl⟩
  obtain ⟨more, hmore⟩ := hstart
  rw [hboth, hmore, results_append]
  exact List.prefix_append _ _

/-- A stream over two texts, the first of them in whole lines. If the pieces of the first leave no
tree open, the stream gives what it would give over each of them, the errors in the second as many
lines further down as the first has. If they do, the error for that tree is all of the first text's
that may not be given. -/
theorem yields_append {first : String} (h : EndsLine first.toList) (second : String) :
    ∃ xs ys zs, Yields Reader.next (.ofBytes first.toUTF8.data.toList) xs ∧
      Yields Reader.next (.ofBytes second.toUTF8.data.toList) ys ∧
      Yields Reader.next (.ofBytes (first ++ second).toUTF8.data.toList) zs ∧
      (∃ ps, Divided .lineStart first.toList ps) ∧
      ∀ ps, Divided .lineStart first.toList ps →
        (¬ LeftOpen ps → zs = xs ++
          ys.map (Except.mapError (ReadError.lower (first.toList.count '\n')))) ∧
        (LeftOpen ps → ∃ given line,
          xs = given ++ [.error (.inLine line .unbalanced)] ∧ given <+: zs) := by
  refine ⟨_, _, _, Reader.yields_ofText first, Reader.yields_ofText second,
    Reader.yields_ofText (first ++ second), (exists_divided first.toList).2, fun ps hps => ?_⟩
  exact ⟨fun hclosed => ofText_append_of_closed h hps hclosed second,
    fun hopen => prefix_ofText_append h hps hopen second⟩

/-- A bracket in a line of identifiers opens no tree: the line of the stray text in the second text
is counted from the beginning of the first. -/
theorem yields_append_separated :
    EndsLine "(A a) x\nID=1 (\n".toList ∧
      ∃ t, Yields Reader.next (.ofBytes ("(A a) x\nID=1 (\n" ++ " y").toUTF8.data.toList)
        [.ok t, .error (.inLine 1 (.stray 'x')), .error (.inLine 3 (.stray 'y'))] := by
  let t : Tree := ⟨#[⟨⟨"A", some "a", none, none, none⟩, 0, none, []⟩], some 0⟩
  have hfirst : ofText "(A a) x\nID=1 (\n" = [.ok t, .error (.inLine 1 (.stray 'x'))] := by
    decide +kernel
  have hsecond : ofText " y" = [.error (.inLine 1 (.stray 'y'))] := by decide +kernel
  have hend : EndsLine "(A a) x\nID=1 (\n".toList := by
    intro c hc
    have hlast : "(A a) x\nID=1 (\n".toList.getLast? = some '\n' := by decide
    rw [hlast] at hc
    cases hc
    rfl
  obtain ⟨xs, ys, zs, hxs, hys, hzs, ⟨ps, hps⟩, hall⟩ := yields_append hend " y"
  obtain ⟨hclosed, hopen⟩ := hall ps hps
  rw [Reader.yields_ofText_iff] at hxs hys
  rw [← hxs, hfirst] at hclosed hopen
  rw [← hys, hsecond] at hclosed
  have hnone : ¬ LeftOpen ps := by
    intro h
    obtain ⟨given, line, he, _⟩ := hopen h
    have hlast := congrArg List.getLast? he
    rw [List.getLast?_concat] at hlast
    cases hlast
  rw [hclosed hnone] at hzs
  exact ⟨hend, t, hzs⟩

end Stream

end TreeQuery
