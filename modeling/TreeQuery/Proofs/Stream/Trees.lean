import TreeQuery.Proofs.Bracket.Canonical
import TreeQuery.Proofs.Stream.Results

namespace TreeQuery

/-- The tree was read: from a text of its own, or as what some call of a stream gave. -/
inductive Tree.Read (t : Tree) : Prop
  | alone {text} : Tree.parse text = .ok t → t.Read
  | streamed {lines calls} :
      callAfter Stream.Reader.next calls (.start lines) = some (.ok t) → t.Read

namespace Stream

variable {t : Tree}

theorem ofChars_of_read {item : Item} (h : item.read = .ok t) : ∃ cs, Tree.ofChars cs = .ok t := by
  cases item with
  | chunk line text => exact ⟨text, mapError_eq_ok.mp h⟩
  | stray line c => cases h

/-- A stream gives no tree but those of its chunks. -/
theorem ofChars_of_mem_scan {line : Nat} {chunk : Option OpenChunk}
    {lines : List (Option (List Char))} (h : .ok t ∈ scan line chunk lines) :
    ∃ cs, Tree.ofChars cs = .ok t := by
  induction lines generalizing line chunk with
  | nil => cases chunk <;> simp [scan] at h
  | cons text lines ih =>
    cases text with
    | none => cases chunk <;> simp [scan] at h
    | some text =>
      rw [scan] at h
      split at h
      · exact ih h
      · rcases List.mem_append.mp h with h | h
        · obtain ⟨item, _, hitem⟩ := List.mem_map.mp h
          exact ofChars_of_read hitem
        · exact ih h

end Stream

theorem Tree.Read.ofChars {t : Tree} (h : t.Read) : ∃ cs, Tree.ofChars cs = .ok t := by
  cases h with
  | alone h => exact ⟨_, Tree.parse_eq_ok.mp h⟩
  | @streamed lines calls h =>
    have hyields := Stream.Reader.yields_scan lines 0 none calls
    rw [Stream.Reader.start, hyields] at h
    exact Stream.ofChars_of_mem_scan (List.mem_of_getElem? h)

/-- Every tree that is read is a well-formed arena in pre-order. -/
theorem Tree.canonical_of_read {t : Tree} (h : t.Read) : t.WellFormed ∧ t.Canonical := by
  obtain ⟨cs, hcs⟩ := h.ofChars
  exact ⟨wellFormed_of_ofChars hcs, canonical_of_ofChars hcs⟩

/-- A derivation is read from a text of its own and, over two lines, as the second tree of a
stream. -/
theorem Tree.canonical_of_read_derivation :
    Tree.parse "(<T S 1 2> (<L NP NNS NNS dogs>) ((VBD ran)))" = .ok derivation ∧
      callAfter Stream.Reader.next 1 (.start [some "ID=1".toList,
        some "(A a) (<T S 1 2> (<L NP NNS NNS dogs>)".toList, some "((VBD ran)))".toList]) =
          some (.ok derivation) ∧
      derivation.WellFormed ∧ derivation.Canonical :=
  have h : Tree.parse "(<T S 1 2> (<L NP NNS NNS dogs>) ((VBD ran)))" = .ok derivation := by
    decide +kernel
  ⟨h, by decide +kernel, Tree.canonical_of_read (.alone h)⟩

end TreeQuery
