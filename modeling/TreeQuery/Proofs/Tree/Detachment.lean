import TreeQuery.Proofs.Tree.Transplant

namespace TreeQuery.Tree

/-- The subtree of `x` has been cut off, and nothing else has changed. -/
structure Severed (t t' : Tree) (x : NodeId) : Prop where
  size_eq : t'.size = t.size
  self_eq : ∀ a, (t'.get? a).map Node.self = (t.get? a).map Node.self
  parent_self : t'.parent? x = none
  parent_eq : ∀ a, a ≠ x → t'.parent? a = t.parent? a
  children_eq : ∀ a, t'.children a = (t.children a).filter (· ≠ x)
  children_other : ∀ a, t.parent? x ≠ some a → t'.children a = t.children a
  root_eq : t'.root = if t.root = some x then none else t.root
  preorder_outside : ∀ r, r ∉ t.preorder x → t'.preorder r = t.preorderBut x r
  preorder_inside : ∀ r ∈ t.preorder x, t'.preorder r = t.preorder r
  again : t'.detach x = .ok t'

/-- The node is there, and not in the subtree of `x`. -/
def Outside (t : Tree) (x a : NodeId) : Prop :=
  a < t.size ∧ a ∉ t.preorder x

theorem detach_of_loose {t : Tree} {x : NodeId} (hp : t.parent? x = none)
    (hroot : t.root ≠ some x) : t.detach x = .ok t := by
  rw [detach, unlinkFromParent, hp]
  change Except.ok (if t.root = some x then _ else t) = _
  rw [if_neg hroot]

namespace WellFormed

variable {t t' : Tree} (h : t.WellFormed)

include h

/-- Cutting off is unlinking, as far as links go. -/
theorem detach_eq (x : NodeId) : ∃ t₁, t.detach x =
      .ok { t₁ with root := if t.root = some x then none else t.root } ∧
    t.Relinked t₁ (fun a => (t.children a).filter (· ≠ x))
      (Function.update t.parent? x none) := by
  obtain ⟨t₁, ht₁, hr⟩ := h.unlinkFromParent_eq x
  refine ⟨t₁, ?_, hr⟩
  rw [detach, ht₁]
  change Except.ok (if t₁.root = some x then { t₁ with root := none } else t₁) = _
  rw [hr.root_eq]
  split
  · rfl
  · rw [← hr.root_eq]

theorem exists_severed (x : NodeId) :
    ∃ t', t.detach x = .ok t' ∧ t'.WellFormed ∧ t.Severed t' x := by
  obtain ⟨t₁, ht', hr⟩ := h.detach_eq x
  have h₁ : t₁.WellFormed := h.of_unlinked hr
  have h' : WellFormed { t₁ with root := if t.root = some x then none else t.root } :=
    ⟨h₁.id_eq, h₁.count_child, h₁.acyclic⟩
  have hpreorder (r : NodeId) :
      preorder { t₁ with root := if t.root = some x then none else t.root } r = t₁.preorder r :=
    h₁.descending.preorder_congr h'.descending fun _ _ => rfl
  have hnone : t₁.parent? x = none := by rw [hr.parent_eq, Function.update_self]
  refine ⟨_, ht', h', hr.size_eq, hr.self_eq, hnone, fun a ha => ?_, hr.children_eq, fun a ha => ?_,
    rfl, fun r hout => ?_, fun r hin => ?_, detach_of_loose hnone ?_⟩
  · exact (hr.parent_eq a).trans (Function.update_of_ne ha _ _)
  · refine (hr.children_eq a).trans (List.filter_eq_self.mpr fun c hc => decide_eq_true ?_)
    rintro rfl
    exact ha (h.linked.child_iff.mp hc)
  · rw [hpreorder]
    exact h.preorder_of_unlinked hr fun hc => hout (h.descending.mem_preorder.mpr hc)
  · rw [hpreorder]
    exact h.preorder_of_unlinked_below hr (h.descending.mem_preorder.mp hin)
  · change (if t.root = some x then none else t.root) ≠ some x
    split
    · exact nofun
    · assumption

/-- No link leads from what is left to what has been cut off, nor back. -/
theorem closed_outside {x : NodeId} (hs : t.Severed t' x) : t'.Closed (t.Outside x) where
  lt_size ha := hs.size_eq.symm ▸ ha.1
  down {p c} hc hp := by
    rw [Child, hs.children_eq, List.mem_filter, decide_eq_true_eq] at hc
    obtain ⟨hchild, hne⟩ := hc
    refine ⟨h.descending.child_lt hchild, fun hm => ?_⟩
    rw [h.descending.mem_preorder] at hm
    exact h.not_covers_child (fun hp' => hp.2 (h.descending.mem_preorder.mpr hp')) hchild hne hm
  up {p c} hc ha := by
    rw [Child, hs.children_eq] at hc
    have hchild : t.Child p c := (List.mem_filter.mp hc).1
    refine ⟨hchild.lt_size, fun hm => ha.2 ?_⟩
    rw [h.descending.mem_preorder] at hm ⊢
    exact hm.tail hchild

end WellFormed

end TreeQuery.Tree
