import TreeQuery.Proofs.Bracket.Faults
import TreeQuery.Proofs.Stream.Results
import TreeQuery.Treebank

namespace TreeQuery.Stream

def unbalanced (line : Nat) : Except ReadError Tree :=
  .error (.inLine line .unbalanced)

/-- Only the end of a stream can leave a tree open. -/
theorem Item.read_ne_unbalanced (item : Item) (line : Nat) : item.read ≠ unbalanced line := by
  intro h
  cases item with
  | stray first c => cases h
  | chunk first text =>
    obtain ⟨f, hf, he⟩ := Bracket.parseAt_eq_error.mp h
    cases he
    rcases Bracket.fault_kind hf with ⟨_, hf⟩ | ⟨_, ⟨_, hf⟩ | ⟨_, hf⟩⟩
    · cases hf
    · cases hf
    · cases hf

/-- What lines give before their end, and what is open there, are the same whatever follows. -/
theorem exists_scan (line : Nat) (chunk : Option OpenChunk) (texts : List (List Char)) :
    ∃ given line' chunk', (∀ first, unbalanced first ∉ given) ∧
      ∀ rest, scan line chunk (texts.map some ++ rest) = given ++ scan line' chunk' rest := by
  induction texts generalizing line chunk with
  | nil => exact ⟨[], line, chunk, fun _ => List.not_mem_nil, fun _ => rfl⟩
  | cons text texts ih =>
    by_cases hsep : (chunk.isNone && isSeparator text) = true
    · obtain ⟨given, line', chunk', hno, hscan⟩ := ih (line + 1) none
      refine ⟨given, line', chunk', hno, ?_⟩
      intro rest
      rw [List.map_cons, List.cons_append, scan, if_pos hsep, hscan]
    · obtain ⟨given, line', chunk', hno, hscan⟩ :=
        ih (line + 1) (scanLine line false chunk text).2
      refine ⟨(scanLine line false chunk text).1.map Item.read ++ given, line', chunk', ?_, ?_⟩
      · intro first hmem
        rcases List.mem_append.mp hmem with hitem | hgiven
        · obtain ⟨item, _, he⟩ := List.mem_map.mp hitem
          exact item.read_ne_unbalanced first he
        · exact hno first hgiven
      · intro rest
        rw [List.map_cons, List.cons_append, scan, if_neg hsep, List.append_assoc]
        exact congrArg _ (hscan rest)

theorem scan_bad (line : Nat) (chunk : Option OpenChunk) (lines : List (Option (List Char))) :
    scan line chunk (none :: lines) = [.error .notText] := by
  cases chunk <;> rfl

/-- A failure after the last line takes no tree away. -/
theorem readable_scan_bad (line : Nat) (chunk : Option OpenChunk)
    (lines : List (Option (List Char))) :
    Source.readable (scan line chunk (lines ++ [none])) =
      Source.readable (scan line chunk lines) := by
  induction lines generalizing line chunk with
  | nil => cases chunk <;> rfl
  | cons text lines ih =>
    cases text with
    | none => rw [List.cons_append, scan_bad, scan_bad]
    | some text =>
      rw [List.cons_append, scan, scan]
      split
      · exact ih _ _
      · simp only [Source.readable, List.filterMap_append] at ih ⊢
        rw [ih]

/-- A compressed file has the trees of what it is inflated to, or of the lines that end before the
decompressor fails. -/
theorem trees_inflated [Gzip] {name plain : String} (hname : Source.extension? name = some "gz")
    (hplain : Source.extension? plain ≠ some "gz") (content : List UInt8) :
    let i := Gzip.inflate content
    Source.trees (.file name (some content)) =
      Source.trees (.file plain (some (if i.fails then Line.complete i.bytes else i.bytes))) := by
  simp only [Source.trees, if_pos hname, if_neg hplain, Inflated.lines]
  split
  · exact readable_scan_bad 1 none _
  · rfl

theorem yields_ofBytes (bytes : List UInt8) :
    Yields Reader.next (.ofBytes bytes) (ofBytes bytes) :=
  Reader.yields_scan (Line.ofBytes bytes) 0 none

/-- A stream whose first line that is no text is `bad`. It gives what the lines before that give on
their own, but no error for a tree that they leave open; then that a line is no text, and then
nothing for ever. In a treebank the trees of these lines are kept. -/
theorem yields_until_bad [Gzip] {good : List (List UInt8)}
    (hgood : ∀ line ∈ good, 10 ∉ line ∧ Line.IsText line) :
    ∃ given, (∀ first, unbalanced first ∉ given) ∧
      (Yields Reader.next (.ofBytes (Line.joined good)) given ∨
        ∃ first, Yields Reader.next (.ofBytes (Line.joined good)) (given ++ [unbalanced first])) ∧
      ∀ bad tail, 10 ∉ bad → ¬Line.IsText bad → (∀ b ∈ tail.head?, b = 10) →
        Yields Reader.next (.ofBytes (Line.joined good ++ (bad ++ tail)))
          (given ++ [.error .notText]) ∧
        ∀ name, Source.extension? name ≠ some "gz" →
          Source.trees (.file name (some (Line.joined good ++ (bad ++ tail)))) =
            Source.trees (.file name (some (Line.joined good))) := by
  obtain ⟨texts, hlines⟩ := Line.exists_ofBytes_joined hgood
  obtain ⟨given, line, chunk, hno, hscan⟩ := exists_scan 1 none texts
  have hread (rest : List UInt8) :
      ofBytes (Line.joined good ++ rest) = given ++ scan line chunk (Line.ofBytes rest) := by
    rw [ofBytes, hlines, hscan]
  have halone : ofBytes (Line.joined good) = given ++ scan line chunk [] := by
    have hnil := hread []
    rwa [List.append_nil] at hnil
  refine ⟨given, hno, ?_, ?_⟩
  · have hgiven := yields_ofBytes (Line.joined good)
    rw [halone] at hgiven
    cases chunk with
    | none =>
      left
      simpa [scan] using hgiven
    | some k =>
      right
      exact ⟨k.line, hgiven⟩
  · intro bad tail hlf hbad htail
    obtain ⟨more, hmore⟩ := Line.exists_ofBytes_bad hlf hbad htail
    have hwhole : ofBytes (Line.joined good ++ (bad ++ tail)) = given ++ [.error .notText] := by
      rw [hread, hmore, scan_bad]
    refine ⟨hwhole ▸ yields_ofBytes _, ?_⟩
    intro name hname
    rw [Source.trees, Source.trees, if_neg hname, if_neg hname, hwhole, halone, Source.readable,
      Source.readable, List.filterMap_append, List.filterMap_append]
    cases chunk <;> rfl

/-- A tree, and a second one that the line leaves open. -/
def openLine : List UInt8 :=
  "(A a) (B".toUTF8.data.toList

/-- The next line would close it but for a byte that is in no text, and one more tree follows. -/
def badLines : List UInt8 :=
  255 :: " b)\n(C c)".toUTF8.data.toList

theorem yields_until_bad_openLine :
    ∃ t, Yields Reader.next (.ofBytes (Line.joined [openLine] ++ badLines))
        [.ok t, .error .notText] ∧
      @Source.trees .refusing (.file "trees.mrg" (some (Line.joined [openLine] ++ badLines))) =
        [t] := by
  let t : Tree := ⟨#[⟨⟨"A", some "a", none, none, none⟩, 0, none, []⟩], some 0⟩
  have hgood : ∀ line ∈ [openLine], 10 ∉ line ∧ Line.IsText line := by
    intro line hline
    rw [List.mem_singleton.mp hline]
    decide +kernel
  have hread : ofBytes (Line.joined [openLine]) = [.ok t, unbalanced 1] := by decide +kernel
  have hname : Source.extension? "trees.mrg" ≠ some "gz" := by decide +kernel
  obtain ⟨given, hno, halone, hall⟩ := @yields_until_bad .refusing _ hgood
  obtain ⟨hyields, htrees⟩ := hall (badLines.take 4) (badLines.drop 4) (by decide +kernel)
    (by decide +kernel) (by decide +kernel)
  rw [List.take_append_drop] at hyields htrees
  have hopen := yields_ofBytes (Line.joined [openLine])
  rw [hread] at hopen
  have hgiven : given = [.ok t] := by
    rcases halone with hclosed | ⟨first, hleft⟩
    · exact absurd (hclosed.unique hopen ▸ by simp) (hno 1)
    · have he : given ++ [unbalanced first] = [.ok t] ++ [unbalanced 1] := hleft.unique hopen
      exact (List.append_inj' he rfl).1
  rw [hgiven] at hyields
  refine ⟨t, hyields, (htrees _ hname).trans ?_⟩
  simp only [Source.trees, if_neg hname, hread]
  rfl

end TreeQuery.Stream
