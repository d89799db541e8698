import TreeQuery.Proofs.Pattern.Meaning

namespace TreeQuery.Operator

variable {t : Tree}

/-- The operand answers at every node, and says yes at `y` only. -/
def HoldsOnlyAt (t : Tree) (y : NodeId) (operand : NodeId → Test) : Prop :=
  ∀ m < t.size, ∀ s, (operand m s).answer = .ok (decide (m = y))

/-- The operator holds at `x` for the operands that hold at `y` only. -/
def Reaches (op : Operator) (t : Tree) (x y : NodeId) : Prop :=
  ∀ operand, HoldsOnlyAt t y operand → ∀ s, (op.test t x operand s).answer = .ok true

theorem exists_holdsOnlyAt (t : Tree) (y : NodeId) : ∃ operand, HoldsOnlyAt t y operand :=
  ⟨fun m => .answer (decide (m = y)), fun _ _ _ => rfl⟩

theorem test_of_missing {x : NodeId} (hx : ¬ x < t.size) (op : Operator)
    (operand : NodeId → Test) : op.test t x operand = .fail (.broken (.noNode x)) := by
  have hnone : t.get? x = none := Array.getElem?_eq_none (Nat.le_of_not_lt hx)
  simp [test, Tree.get, hnone]

section Tests

variable (h : t.WellFormed) {x y : NodeId} {op : Operator} (hop : op.isRelational = true)

include h hop

theorem test_of_holdsOnlyAt (hx : x < t.size) {operand : NodeId → Test}
    (hy : HoldsOnlyAt t y operand) :
    ∃ b, ∀ s, (op.test t x operand s).answer = .ok b ∧ (b = true ↔ op.Leads t x y) := by
  have hne : op ≠ nextSibling ∧ op ≠ laterSibling := by
    constructor <;> intro he <;> cases he <;> cases hop
  have hdecides : ∀ m < t.size, (operand m).Decides fun _ => m = y := by
    intro m hm
    exact ⟨decide (m = y), fun s => ⟨hy m hm s, decide_eq_true_iff⟩⟩
  have htest := test_decides h hx hne hdecides
  exact htest.congr fun s => by simp [holds_of_relational hop]

theorem reaches_iff : op.Reaches t x y ↔ x < t.size ∧ op.Leads t x y := by
  constructor
  · intro hr
    obtain ⟨operand, hy⟩ := exists_holdsOnlyAt t y
    by_cases hx : x < t.size
    · obtain ⟨b, hb⟩ := test_of_holdsOnlyAt h hop hx hy
      have htrue := (hb .empty).1.symm.trans (hr operand hy .empty)
      exact ⟨hx, (hb .empty).2.mp (Except.ok.inj htrue)⟩
    · have hfail := hr operand hy .empty
      rw [test_of_missing hx] at hfail
      cases hfail
  · intro ⟨hx, hl⟩ operand hy s
    obtain ⟨b, hb⟩ := test_of_holdsOnlyAt h hop hx hy
    rw [(hb s).1, (hb s).2.mpr hl]

/-- One operand that holds at `y` only tells as much as all of them. -/
theorem test_iff_reaches (hx : x < t.size) {operand : NodeId → Test}
    (hy : HoldsOnlyAt t y operand) (s : Bindings) :
    ∃ b, (op.test t x operand s).answer = .ok b ∧ (b = true ↔ op.Reaches t x y) := by
  obtain ⟨b, hb⟩ := test_of_holdsOnlyAt h hop hx hy
  refine ⟨b, (hb s).1, ?_⟩
  rw [(hb s).2, reaches_iff h hop]
  simp [hx]

end Tests

end TreeQuery.Operator
