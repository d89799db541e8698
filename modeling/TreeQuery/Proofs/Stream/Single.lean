import TreeQuery.Proofs.Bracket.Margins
import TreeQuery.Proofs.Stream.Levels
import TreeQuery.Proofs.Stream.Results

namespace TreeQuery.Stream

open Text

variable {line : Nat} {cs : List Char}

theorem results_stretch_blanks (h : Blanks cs) : (Piece.stretch cs).results line = [] := by
  have hnone : cs.find? (fun c => !isWhiteSpace c) = none :=
    List.find?_eq_none.mpr fun c hc => by simp [isWhiteSpace_of_isBlank (h c hc)]
  rw [Piece.results, hnone]
  rfl

theorem Divided.results_blanks {place : Place} {ps : List Piece} (h : Divided place cs ps)
    (hb : Blanks cs) : results line ps = [] := by
  have hopen {ds : List Char} (hd : ds.head? = some '(') : ¬ Blanks ds := fun hds =>
    absurd (hds '(' (List.mem_of_mem_head? hd)) (by decide)
  induction h generalizing line with
  | done => rfl
  | separator _ _ _ ih =>
    obtain ⟨_, hrest⟩ := List.forall_mem_append.mp hb
    exact ih (List.forall_mem_cons.mp hrest).2
  | lastSeparator => rfl
  | line _ _ ih => exact ih hb
  | lineFeed _ ih => exact ih (List.forall_mem_cons.mp hb).2
  | stretch _ _ _ _ _ ih =>
    obtain ⟨htext, hrest⟩ := List.forall_mem_append.mp hb
    rw [results, results_stretch_blanks htext]
    exact ih hrest
  | chunk hchunk _ _ => exact absurd (List.forall_mem_append.mp hb).1 (hopen hchunk.1)
  | unclosed hhead _ => exact absurd hb (hopen hhead)

/-- Blanks after the last tree give nothing. -/
theorem given_blanks (h : Blanks cs) (line : Nat) : givenFrom line cs .withinLine = [] := by
  obtain ⟨⟨ps, hps⟩, _⟩ := exists_divided cs
  rw [hps.given_eq, hps.results_blanks h]

theorem not_separates_open {gap : List Char} (h : Blanks gap) (cs : List Char) :
    ¬ Separates (gap ++ '(' :: cs) := by
  have hend : ∀ c ∈ ('(' :: cs).head?, isWhiteSpace c = false := by
    intro c hc
    cases hc
    rfl
  have hdrop := dropWhile_run (fun c hc => isWhiteSpace_of_isBlank (h c hc)) hend
  rw [← isSeparator_iff, isSeparator, hdrop]
  simp

/-- Blanks before the first tree, and the lines that they make, give nothing. -/
theorem given_open (line : Nat) {gap : List Char} (h : Blanks gap) (cs : List Char) :
    ∃ line', givenFrom line (gap ++ '(' :: cs) .lineStart =
      givenFrom line' ('(' :: cs) .withinLine := by
  induction hn : gap.length using Nat.strong_induction_on generalizing gap line with
  | _ n ih =>
    subst hn
    by_cases hlf : '\n' ∈ gap
    · obtain ⟨first, rest, rfl, hfirst⟩ := List.eq_append_cons_of_mem hlf
      obtain ⟨hblank, hrest⟩ := List.forall_mem_append.mp h
      have hsep : Separates ((first ++ '\n' :: (rest ++ '(' :: cs)).takeWhile (· != '\n')) := by
        rw [takeWhile_line hfirst]
        exact .inl fun c hc => isWhiteSpace_of_isBlank (hblank c hc)
      have hlen : rest.length < (first ++ '\n' :: rest).length := by
        rw [List.length_append, List.length_cons]
        omega
      rw [List.append_assoc, List.cons_append, givenFrom, scan_separator line hsep,
        Line.others_line hfirst]
      exact ih _ hlen (line + 1) (List.forall_mem_cons.mp hrest).2 rfl
    · have ho : '(' ∉ gap := fun hm => absurd (h _ hm) (by decide)
      have hline : ∀ c ∈ gap, (c != '\n') = true := by
        intro c hc
        rw [bne_iff_ne]
        rintro rfl
        exact hlf hc
      have hno : ¬ Separates ((gap ++ '(' :: cs).takeWhile (· != '\n')) := by
        rw [List.takeWhile_append_of_pos hline, List.takeWhile_cons_of_pos (by decide)]
        exact not_separates_open h _
      have hend : ∀ c ∈ ('(' :: cs).head?, c = '(' ∨ c = '\n' := by
        intro c hc
        cases hc
        exact .inl rfl
      refine ⟨line, ?_⟩
      rw [givenFrom, scan_line line hno, resume_stretch ho hlf hend, results_stretch_blanks h]
      rfl

/-- A text that is read as one tree gives this tree and nothing else exactly if counting ends where
the tree does. -/
theorem given_eq_single_iff {t : Tree} (h : Tree.ofChars cs = .ok t) (hhead : cs.head? = some '(') :
    givenFrom line cs .withinLine = [.ok t] ↔
      ∃ chunk rest, cs = chunk ++ rest ∧ Blanks rest ∧ IsChunk chunk := by
  have hread {chunk : List Char} {t : Tree} :
      (Tree.parse (.ofList chunk)).mapError (ReadError.atLine line) = .ok t ↔
        Tree.ofChars chunk = .ok t := by
    rw [mapError_eq_ok, Tree.parse_eq_ok, String.toList_ofList]
  constructor
  · intro hgiven
    by_cases hchunk : ∃ chunk, chunk <+: cs ∧ IsChunk chunk
    · obtain ⟨chunk, ⟨rest, rfl⟩, hchunk⟩ := hchunk
      rw [given_chunk hchunk, Piece.results, List.singleton_append, List.cons_eq_cons, hread]
        at hgiven
      exact ⟨chunk, rest, rfl, Tree.blanks_of_extended hgiven.1 h, hchunk⟩
    · rw [given_unclosed hhead fun chunk hp hc => hchunk ⟨chunk, hp, hc⟩] at hgiven
      cases hgiven
  · rintro ⟨chunk, rest, rfl, hrest, hchunk⟩
    have hsame : Tree.ofChars chunk = .ok t := by
      rw [← Tree.ofChars_margins blanks_nil hrest]
      exact h
    rw [given_chunk hchunk, given_blanks hrest, Piece.results, hread.mpr hsame]
    rfl

theorem ofText_eq_single_iff {text : String} {t : Tree} (h : Tree.parse text = .ok t)
    {gap : List Char} (hg : Blanks gap) (hhead : cs.head? = some '(')
    (he : text.toList = gap ++ cs) :
    ofText text = [.ok t] ↔ ∃ chunk rest, cs = chunk ++ rest ∧ Blanks rest ∧ IsChunk chunk := by
  have hread : Tree.ofChars cs = .ok t := by
    rw [← Tree.ofChars_margins hg blanks_nil, List.append_nil, ← he]
    exact Tree.parse_eq_ok.mp h
  obtain ⟨rest, rfl⟩ := List.head?_eq_some_iff.mp hhead
  obtain ⟨line, hgiven⟩ := given_open 1 hg rest
  rw [← given_eq_single_iff hread hhead, ← hgiven, ← he]
  rfl

theorem exists_open_of_parse {text : String} {t : Tree} (h : Tree.parse text = .ok t) :
    ∃ gap rest, Blanks gap ∧ text.toList = gap ++ '(' :: rest := by
  obtain ⟨b, _, hb, _⟩ := Tree.ofChars_eq_ok.mp (Tree.parse_eq_ok.mp h)
  obtain ⟨ls, hls⟩ := b.exists_lexemes
  have hspaced := hb.2
  rw [hls] at hspaced
  obtain ⟨gap, rest, hg, he, _⟩ := Spaced.sign_iff.mp hspaced
  exact ⟨gap, rest, hg, he⟩

/-- Where headers with parentheses follow their brackets directly, the whole tree is a chunk. -/
theorem exists_chunk_of_parse {text : String} {t : Tree} (h : Tree.parse text = .ok t)
    (ha : HeadersAttached text.toList) :
    ∃ gap chunk rest, text.toList = gap ++ (chunk ++ rest) ∧ Blanks gap ∧ Blanks rest ∧
      IsChunk chunk := by
  obtain ⟨b, _, hb, _⟩ := Tree.ofChars_eq_ok.mp (Tree.parse_eq_ok.mp h)
  have hspaced : Spaced (b.lexemes ++ []) text.toList := by
    rw [List.append_nil]
    exact hb.2
  obtain ⟨gap, inside, rest, he, hg, hinside, hrest⟩ := enclosed_of_proper hb.1 hspaced ha
  cases hrest with
  | done hrest => exact ⟨gap, _, rest, by simp [he], hg, hrest, hinside.isChunk⟩

/-- A text that is read as one tree gives, as a stream, this tree and nothing else exactly if
counting brackets ends with the tree; and so it does where no header with parentheses is apart from
its bracket. -/
theorem yields_single {text : String} {t : Tree} (h : Tree.parse text = .ok t) :
    (Yields Reader.next (.ofBytes text.toUTF8.data.toList) [.ok t] ↔
      ∃ gap chunk rest, text.toList = gap ++ (chunk ++ rest) ∧ Blanks gap ∧ Blanks rest ∧
        IsChunk chunk) ∧
    (HeadersAttached text.toList →
      Yields Reader.next (.ofBytes text.toUTF8.data.toList) [.ok t]) := by
  have hiff : Yields Reader.next (.ofBytes text.toUTF8.data.toList) [.ok t] ↔
      ∃ gap chunk rest, text.toList = gap ++ (chunk ++ rest) ∧ Blanks gap ∧ Blanks rest ∧
        IsChunk chunk := by
    rw [Reader.yields_ofText_iff]
    constructor
    · intro hsingle
      obtain ⟨gap, after, hg, he⟩ := exists_open_of_parse h
      obtain ⟨chunk, rest, hcs, hrest, hchunk⟩ := (ofText_eq_single_iff h hg rfl he).mp hsingle
      exact ⟨gap, chunk, rest, by rw [he, hcs], hg, hrest, hchunk⟩
    · rintro ⟨gap, chunk, rest, he, hg, hrest, hchunk⟩
      have hhead : (chunk ++ rest).head? = some '(' := by
        rw [List.head?_append, hchunk.1]
        rfl
      exact (ofText_eq_single_iff h hg hhead he).mpr ⟨chunk, rest, rfl, hrest, hchunk⟩
  exact ⟨hiff, fun ha => hiff.mpr (exists_chunk_of_parse h ha)⟩

/-- Parentheses in a category and in a word, in a header that follows its bracket. -/
theorem yields_single_attached :
    ∃ t, Tree.parse "\n (<L NP/(NP) NN NN (a NP>) \n" = .ok t ∧
      HeadersAttached "\n (<L NP/(NP) NN NN (a NP>) \n".toList ∧
      Yields Reader.next (.ofBytes "\n (<L NP/(NP) NN NN (a NP>) \n".toUTF8.data.toList)
        [.ok t] := by
  let t : Tree := ⟨#[⟨⟨"NP/(NP)", some "(a", some "NN",
    some (.functor (.atom "NP" []) .forward (.atom "NP" [])), none⟩, 0, none, []⟩], some 0⟩
  have h : Tree.parse "\n (<L NP/(NP) NN NN (a NP>) \n" = .ok t := by decide +kernel
  have ha : HeadersAttached "\n (<L NP/(NP) NN NN (a NP>) \n".toList := .of_tight (by decide)
  exact ⟨t, h, ha, (yields_single h).2 ha⟩

/-- A parenthesis in a header apart from its bracket is counted, and then the tree has no end. -/
theorem not_yields_apart :
    ∃ t, Tree.parse "( <L N NN NN ( N>)" = .ok t ∧
      Yields Reader.next (.ofBytes "( <L N NN NN ( N>)".toUTF8.data.toList)
        [.error (.inLine 1 .unbalanced)] ∧
      ¬ Yields Reader.next (.ofBytes "( <L N NN NN ( N>)".toUTF8.data.toList) [.ok t] := by
  let t : Tree :=
    ⟨#[⟨⟨"N", some "(", some "NN", some (.atom "N" []), none⟩, 0, none, []⟩], some 0⟩
  have h : Tree.parse "( <L N NN NN ( N>)" = .ok t := by decide +kernel
  have hall : ofText "( <L N NN NN ( N>)" = [.error (.inLine 1 .unbalanced)] := by decide +kernel
  refine ⟨t, h, Reader.yields_ofText_iff.mpr hall, fun hy => ?_⟩
  rw [Reader.yields_ofText_iff, hall] at hy
  cases hy

end TreeQuery.Stream
