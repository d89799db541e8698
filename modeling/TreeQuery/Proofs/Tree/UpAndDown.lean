import TreeQuery.Proofs.Tree.Transplant

namespace TreeQuery.Tree

open Relation

/-- Going on from a node to its parent, for as long as there is one, ends at `top`. -/
inductive Rises (t : Tree) : NodeId → NodeId → Prop
  | here {id} : t.parent? id = none → Rises t id id
  | up {id p top} : t.parent? id = some p → Rises t p top → Rises t id top

/-- The walks up and down tell the same story of the tree. -/
structure WalksAgree (t : Tree) : Prop where
  below_iff_above : ∀ a b, b ∈ (t.preorder a).drop 1 ↔ a ∈ t.ancestors b
  not_both : ∀ a b, b ∈ (t.preorder a).drop 1 → a ∉ (t.preorder b).drop 1
  heads_below : ∀ a, ∀ x ∈ t.headChain a, x ∈ (t.preorder a).drop 1
  heads_once : ∀ a, (t.headChain a).Nodup
  headChain_eq : ∀ a, t.headChain a =
    match t.head? a with
    | some x => x :: t.headChain x
    | none => []
  rises_iff : ∀ a r, t.Rises a r ↔ r = t.top a
  top_eq : ∀ a, t.top a = (t.ancestors a).getLast?.getD a
  top_iff : ∀ a r, r = t.top a ↔ t.parent? r = none ∧ a ∈ t.preorder r

namespace Linked

variable {t : Tree} (h : t.Linked)

include h

theorem mem_below_iff_above {a b : NodeId} :
    b ∈ (t.preorder a).drop 1 ↔ a ∈ t.ancestors b := by
  rw [h.descending.mem_strict_preorder, h.mem_ancestors]

theorem dominates_asymm {a b : NodeId} (hab : t.Dominates a b) : ¬ t.Dominates b a :=
  fun hba => h.acyclic a (hab.trans hba)

theorem dominates_of_mem_headChain {a x : NodeId} (hx : x ∈ t.headChain a) : t.Dominates a x :=
  TransGen.mono (fun _ _ => child_of_head) _ _ (h.mem_headChain.mp hx)

theorem nodup_headChain (a : NodeId) : (t.headChain a).Nodup := by
  induction a using h.descending.induction with
  | step a ih =>
    cases hx : t.head? a with
    | none =>
      rw [headChain_of_none hx]
      exact List.nodup_nil
    | some x =>
      rw [h.headChain_of_head hx]
      refine List.nodup_cons.mpr ⟨fun hm => ?_, ih x (child_of_head hx)⟩
      exact h.acyclic x (h.dominates_of_mem_headChain hm)

theorem rises_top (a : NodeId) : t.Rises a (t.top a) := by
  induction a using h.upward_induction with
  | step a ih =>
    cases hp : t.parent? a with
    | none =>
      rw [top_of_root hp]
      exact .here hp
    | some p =>
      rw [h.top_of_parent hp]
      exact .up hp (ih p hp)

theorem eq_top_of_rises {a r : NodeId} (hr : t.Rises a r) : r = t.top a := by
  induction hr with
  | here hp => exact (top_of_root hp).symm
  | up hp _ ih => rw [ih, h.top_of_parent hp]

/-- The top of a node's tree is the one node without a parent whose subtree has the node in it. -/
theorem eq_top_iff {a r : NodeId} : r = t.top a ↔ t.parent? r = none ∧ a ∈ t.preorder r := by
  rw [h.descending.mem_preorder]
  constructor
  · rintro rfl
    exact ⟨h.parent_top a, h.top_covers a⟩
  · rintro ⟨hr, hc⟩
    rw [h.top_of_covers hc, top_of_root hr]

theorem walksAgree : t.WalksAgree where
  below_iff_above _ _ := h.mem_below_iff_above
  not_both a b := by
    rw [h.descending.mem_strict_preorder, h.descending.mem_strict_preorder]
    exact h.dominates_asymm
  heads_below a x hx := h.descending.mem_strict_preorder.mpr (h.dominates_of_mem_headChain hx)
  heads_once := h.nodup_headChain
  headChain_eq a := by
    split
    · rename_i hx
      exact h.headChain_of_head hx
    · rename_i hx
      exact headChain_of_none hx
  rises_iff a r := by
    refine ⟨h.eq_top_of_rises, ?_⟩
    rintro rfl
    exact h.rises_top a
  top_eq _ := rfl
  top_iff _ _ := h.eq_top_iff

end Linked

end TreeQuery.Tree
