import TreeQuery.Pattern.Satisfaction
import TreeQuery.Proofs.Pattern.Symbols

namespace TreeQuery.Operator

theorem parse_symbol_nthChild_one : parse (nthChild 1).symbol = .ok firstChild := by
  decide

theorem parse_symbol_nthChild_two : parse (nthChild 2).symbol = .ok secondChild := by
  decide

section Tests

variable (t : Tree) (id : NodeId) (operand : NodeId → Test)

/-- In any tree, and also where there is no node. -/
theorem test_firstChild : firstChild.test t id operand = (nthChild 1).test t id operand := by
  unfold test
  cases t.get id with
  | error link => rfl
  | ok n =>
    have hreach : firstChild.reach t id n = (nthChild 1).reach t id n := by
      simp [reach, List.head?_eq_getElem?]
    simp only [hreach]
    rfl

theorem test_secondChild : secondChild.test t id operand = (nthChild 2).test t id operand := by
  unfold test
  cases t.get id with
  | error link => rfl
  | ok n => rfl

end Tests

/-- What is printed of an operator is read as the same one, except for the first and the second
child asked for by number; and whatever is read gives the same answer, or the same error, and leaves
the same bindings. -/
theorem test_of_parse_symbol [RegexEngine] (op : Operator) :
    ∃ op', parse op.symbol = .ok op' ∧ (op' = op ↔ op ≠ nthChild 1 ∧ op ≠ nthChild 2) ∧
      ∀ (p : Pattern) (t : Tree) (id : NodeId) (s : Bindings),
        op'.test t id (p.test t) s = op.test t id (p.test t) s := by
  by_cases h₁ : op = nthChild 1
  · refine ⟨firstChild, ?_, ?_, ?_⟩
    · rw [h₁, parse_symbol_nthChild_one]
    · simp [h₁]
    · intro p t id s
      rw [h₁, test_firstChild]
  by_cases h₂ : op = nthChild 2
  · refine ⟨secondChild, ?_, ?_, ?_⟩
    · rw [h₂, parse_symbol_nthChild_two]
    · simp [h₂]
    · intro p t id s
      rw [h₂, test_secondChild]
  · refine ⟨op, parse_symbol h₁ h₂, ?_, ?_⟩
    · simp [h₁, h₂]
    · intro p t id s
      rfl

end TreeQuery.Operator
