import TreeQuery.Proofs.Pattern.Reaching

namespace TreeQuery

open Operator

/-- Each tree's leaves are totally ordered by `later`, `next` leads from a leaf to the one after it,
and neither leads to or from anything but the leaves of one tree. -/
structure Tree.OrdersLeaves (t : Tree) (later next : NodeId → NodeId → Prop) : Prop where
  irrefl : ∀ x, ¬ later x x
  trans : ∀ x y z, later x y → later y z → later x z
  exactly_one : ∀ x y, t.isLeaf x = true → t.isLeaf y = true → t.Connected x y → x ≠ y →
    (later x y ↔ ¬ later y x)
  next_iff : ∀ x y, next x y ↔ later x y ∧
    ¬ ∃ w, t.isLeaf w = true ∧ t.Connected x w ∧ later x w ∧ later w y
  leaves : ∀ x y, later x y → t.isLeaf x = true ∧ t.isLeaf y = true ∧ t.Connected x y

theorem Tree.Before.connected {t : Tree} {x y : NodeId} (hxy : t.Before x y) :
    t.Connected x y := by
  obtain ⟨a, hax, hay⟩ := hxy.exists_above
  exact hax.connected.symm.trans _ _ _ hay.connected

variable {t : Tree} (h : t.WellFormed)

include h

section Meaning

variable {x y : NodeId}

theorem Operator.reaches_laterLeaf :
    laterLeaf.Reaches t x y ↔ t.isLeaf x = true ∧ t.isLeaf y = true ∧ t.Before x y := by
  rw [reaches_iff h rfl]
  apply and_iff_right_of_imp
  intro ⟨_, _, hxy⟩
  exact hxy.lt_size h.descending

/-- The next leaf is the later one with none in between. -/
theorem Operator.reaches_nextLeaf :
    nextLeaf.Reaches t x y ↔ laterLeaf.Reaches t x y ∧
      ∀ w, t.isLeaf w = true → t.Before x w → ¬ t.Before w y := by
  rw [reaches_iff h rfl, reaches_iff h rfl]
  simp only [Leads, and_assoc]

end Meaning

theorem Tree.WellFormed.ordersLeaves :
    t.OrdersLeaves (laterLeaf.Reaches t) (nextLeaf.Reaches t) where
  irrefl x hx := h.before_irrefl x ((reaches_laterLeaf h).mp hx).2.2
  trans x y z hxy hyz := by
    rw [reaches_laterLeaf h] at hxy hyz ⊢
    exact ⟨hxy.1, hyz.2.1, h.before_trans hxy.2.2 hyz.2.2⟩
  exactly_one x y hx hy hc hne := by
    simp only [reaches_laterLeaf h, hx, hy, true_and]
    constructor
    · exact h.before_asymm
    · intro hyx
      exact (h.before_total hx hy (h.linked.connected_iff.mp hc) hne).resolve_right hyx
  next_iff x y := by
    rw [reaches_nextLeaf h]
    refine and_congr_right fun hxy => ?_
    obtain ⟨hx, hy, _⟩ := (reaches_laterLeaf h).mp hxy
    constructor
    · intro hnone ⟨w, hw, _, hxw, hwy⟩
      exact hnone w hw ((reaches_laterLeaf h).mp hxw).2.2 ((reaches_laterLeaf h).mp hwy).2.2
    · intro hnone w hw hxw hwy
      exact hnone ⟨w, hw, hxw.connected, (reaches_laterLeaf h).mpr ⟨hx, hw, hxw⟩,
        (reaches_laterLeaf h).mpr ⟨hw, hy, hwy⟩⟩
  leaves x y hxy := by
    obtain ⟨hx, hy, hb⟩ := (reaches_laterLeaf h).mp hxy
    exact ⟨hx, hy, hb.connected⟩

/-- Asked with operands that hold at one node only, the operators for a later leaf and for the next
leaf always answer, and what they answer is the order of the leaves of each tree. -/
theorem leaves_ordered_by_tests :
    t.OrdersLeaves (laterLeaf.Reaches t) (nextLeaf.Reaches t) ∧
      ∀ op ∈ [laterLeaf, nextLeaf], ∀ x < t.size, ∀ y operand, HoldsOnlyAt t y operand →
        ∀ s, ∃ b, (op.test t x operand s).answer = .ok b ∧ (b = true ↔ op.Reaches t x y) := by
  refine ⟨h.ordersLeaves, ?_⟩
  intro op hop x hx y operand hy s
  have hrel : op.isRelational = true := by
    simp only [List.mem_cons, List.not_mem_nil, or_false] at hop
    rcases hop with rfl | rfl <;> rfl
  exact test_iff_reaches h hrel hx hy s

omit h in
/-- In the sentence the third word comes after the first one, and not right after it. -/
theorem leaves_ordered_by_tests_sentence :
    Tree.sentence.WellFormed ∧ laterLeaf.Reaches Tree.sentence 2 5 ∧
      ¬ laterLeaf.Reaches Tree.sentence 5 2 ∧ ¬ nextLeaf.Reaches Tree.sentence 2 5 := by
  obtain ⟨horder, htests⟩ := leaves_ordered_by_tests Tree.sentence_wellFormed
  have hfifth : HoldsOnlyAt Tree.sentence 5 fun m => .answer (decide (m = 5)) :=
    fun _ _ _ => rfl
  obtain ⟨b, hb, hlater⟩ := htests laterLeaf (by simp) 2 (by decide) 5 _ hfifth .empty
  obtain ⟨c, hc, hnext⟩ := htests nextLeaf (by simp) 2 (by decide) 5 _ hfifth .empty
  have hbtrue : b = true := by
    cases hb
    rfl
  have hcfalse : c = false := by
    cases hc
    rfl
  have h₂₅ : laterLeaf.Reaches Tree.sentence 2 5 := hlater.mp hbtrue
  refine ⟨Tree.sentence_wellFormed, h₂₅, ?_, ?_⟩
  · obtain ⟨h₂, h₅, hconn⟩ := horder.leaves 2 5 h₂₅
    exact (horder.exactly_one 2 5 h₂ h₅ hconn (by decide)).mp h₂₅
  · rw [← hnext, hcfalse]
    simp

end TreeQuery
