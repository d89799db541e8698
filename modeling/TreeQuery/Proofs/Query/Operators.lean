import TreeQuery.Proofs.Pattern.Symbols
import TreeQuery.Proofs.Query.Tokens
import TreeQuery.Query.Reader
import TreeQuery.Regex.Engine
import TreeQuery.Unicode.Version15

namespace TreeQuery.Query

open Text Token

variable {a b s : String} {rest : List Char}

/-- A label that needs no quotes, as it is written. -/
def bareLabel (a : String) : Token :=
  .anchor ⟨.label (.text a), none⟩

theorem token?_bareLabel (ha : isBare a.toList = true) (h : ∀ c ∈ rest.head?, c = ' ') :
    token? true (a.toList ++ rest) = some (bareLabel a, rest) := by
  obtain ⟨c, cs, he, _, hbrace⟩ := head_of_isBare ha
  have hends : Ends rest := fun c hc => .inl (h c hc)
  have hnone : Token.capture rest = (none, rest) := capture_append (c := none) (by simp) h
  have hread : anchor? (a.toList ++ rest) = some (bareLabel a, rest) := by
    simp only [anchor?, label?_bare ha hends, Option.map_some, hnone, bareLabel]
  change node? (a.toList ++ rest) = _
  rw [he, List.cons_append] at hread ⊢
  rw [node?, hread]
  intro _ hx
  exact hbrace (List.cons.inj hx).1

/-- A label that needs no quotes is cut off, also after a space. -/
theorem cut?_bareLabel (ha : isBare a.toList = true) (h : ∀ c ∈ rest.head?, c = ' ')
    {gap : List Char} (hgap : ∀ c ∈ gap, isBlank c = true) :
    cut? true (gap ++ (a.toList ++ rest)) = (cut? false rest).map (bareLabel a :: ·) := by
  obtain ⟨c, cs, he, hc, _⟩ := head_of_isBare ha
  refine cut?_of_text (by simp [he]) (skipBlanks_append hgap ?_) (token?_bareLabel ha h)
  simp [he, hc]

/-- All operator characters that stand together are one token. -/
theorem cut?_operator (hs : s.toList ≠ []) (hchars : ∀ c ∈ s.toList, isOperatorChar c = true)
    (h : ∀ c ∈ rest.head?, c = ' ') {gap : List Char} (hgap : ∀ c ∈ gap, isBlank c = true) :
    cut? false (gap ++ (s.toList ++ rest)) = (cut? true rest).map (.operator s :: ·) := by
  obtain ⟨c, cs, he⟩ := List.exists_cons_of_ne_nil hs
  have hc : isBlank c = false := (operatorChar_head (hchars c (by simp [he]))).1
  refine cut?_of_text hs (skipBlanks_append hgap ?_) (constraint?_operator hs hchars h)
  simp [he, hc]

/-- The three tokens of a label, an operator and a label with a space between them. -/
theorem cut?_relation (ha : isBare a.toList = true) (hb : isBare b.toList = true)
    (hs : s.toList ≠ []) (hchars : ∀ c ∈ s.toList, isOperatorChar c = true) :
    cut? true (a.toList ++ ' ' :: (s.toList ++ ' ' :: b.toList)) =
      some [bareLabel a, .operator s, bareLabel b] := by
  have hspace : ∀ cs : List Char, ∀ c ∈ (' ' :: cs).head?, c = ' ' := by simp
  have hgap : ∀ c ∈ [' '], isBlank c = true := by simp [isBlank]
  have hfirst : cut? true (a.toList ++ ' ' :: (s.toList ++ ' ' :: b.toList)) =
      (cut? false (' ' :: (s.toList ++ ' ' :: b.toList))).map (bareLabel a :: ·) :=
    cut?_bareLabel ha (hspace _) (List.forall_mem_nil _)
  have hoperator : cut? false (' ' :: (s.toList ++ ' ' :: b.toList)) =
      (cut? true (' ' :: b.toList)).map (.operator s :: ·) :=
    cut?_operator hs hchars (hspace _) hgap
  have hlast : cut? true (' ' :: b.toList) = some [bareLabel b] := by
    have h : cut? true ([' '] ++ (b.toList ++ [])) = (cut? false []).map (bareLabel b :: ·) :=
      cut?_bareLabel hb (by simp) hgap
    rwa [List.append_nil, cut?_nil] at h
  rw [hfirst, hoperator, hlast]
  rfl

/-- Nothing but the operator can be wrong with such a query. -/
theorem parse_relation [RegexEngine] (ha : isBare a.toList = true) (hb : isBare b.toList = true)
    (hs : s.toList ≠ []) (hchars : ∀ c ∈ s.toList, isOperatorChar c = true) :
    Pattern.parse (a ++ " " ++ s ++ " " ++ b) =
      ((Operator.parse s).mapError .unknownOperator).map fun op =>
        .node (.label a) [.related op (.ofAnchor (.label b))] := by
  have htext : (a ++ " " ++ s ++ " " ++ b).toList =
      a.toList ++ ' ' :: (s.toList ++ ' ' :: b.toList) := by
    simp [String.toList_append]
  have hphrase : NodePhrase.ofText? (a ++ " " ++ s ++ " " ++ b).toList =
      some ⟨.anchor ⟨.label (.text a), none⟩,
        [.relation s (.anchor ⟨.label (.text b), none⟩)]⟩ := by
    rw [htext, NodePhrase.ofText?, cut?_relation ha hb hs hchars]
    rfl
  rw [Pattern.parse, hphrase]
  change NodePhrase.resolve _ = _
  simp only [NodePhrase.resolve, resolveAll, Phrase.resolve]
  cases Operator.parse s <;> rfl

/-- A text is read as an operator exactly if it denotes one, and otherwise refused as it stands; and
so is a query that has it between two labels. -/
theorem operator_iff_denotes [RegexEngine] (s : String) :
    (∀ op, Operator.parse s = .ok op ↔ Operator.Denotes s op) ∧
    (Operator.parse s = .error ⟨s⟩ ↔ ∀ op, ¬ Operator.Denotes s op) ∧
    (s ≠ "" → (∀ c ∈ s.toList, c.isDigit = true ∨ c ∈ ['<', '>', '.', '$', '&', '#', '%']) →
      ∀ a b : String, isBare a.toList = true → isBare b.toList = true →
        (∀ op, Operator.Denotes s op → Pattern.parse (a ++ " " ++ s ++ " " ++ b) =
          .ok (.node (.label a) [.related op (.ofAnchor (.label b))])) ∧
        ((∀ op, ¬ Operator.Denotes s op) → Pattern.parse (a ++ " " ++ s ++ " " ++ b) =
          .error (.unknownOperator ⟨s⟩))) := by
  refine ⟨fun op => Operator.parse_eq_ok, Operator.parse_eq_error, ?_⟩
  intro hne hchars a b ha hb
  have hs : s.toList ≠ [] := by simpa using hne
  have hoperator : ∀ c ∈ s.toList, isOperatorChar c = true := by
    intro c hc
    simpa [isOperatorChar] using hchars c hc
  rw [parse_relation ha hb hs hoperator]
  constructor
  · intro op hop
    rw [Operator.parse_eq_ok.mpr hop]
    rfl
  · intro hno
    rw [Operator.parse_eq_error.mpr hno]
    rfl

/-- Leading zeros make no difference; a number that does not fit is none. -/
theorem operator_iff_denotes_numbers :
    Operator.Denotes "<007" (.nthChild 7) ∧
      Pattern.parse "S <007 NP" =
        .ok (.node (.label "S") [.related (.nthChild 7) (.ofAnchor (.label "NP"))]) ∧
      (∀ op, ¬ Operator.Denotes "<18446744073709551616" op) ∧
      Pattern.parse "S <18446744073709551616 NP" =
        .error (.unknownOperator ⟨"<18446744073709551616"⟩) := by
  obtain ⟨hread, _, hquery⟩ := operator_iff_denotes "<007"
  obtain ⟨_, hrefused, hbad⟩ := operator_iff_denotes "<18446744073709551616"
  have hseven : Operator.Denotes "<007" (.nthChild 7) := (hread _).mp (by decide)
  have hnone := hrefused.mp (by decide)
  have hok := hquery (by decide) (by simp) "S" "NP" (by decide) (by decide)
  have herror := hbad (by decide) (by simp) "S" "NP" (by decide) (by decide)
  exact ⟨hseven, hok.1 _ hseven, hnone, herror.2 hnone⟩

end TreeQuery.Query
