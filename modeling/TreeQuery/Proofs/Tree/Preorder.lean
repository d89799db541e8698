import Mathlib.Data.List.Forall2
import Mathlib.Data.List.Nodup
import TreeQuery.Proofs.Tree.LeafOrder

namespace TreeQuery.Tree

open Relation

/-- The subtree of the node, listed in pre-order. -/
inductive InPreorder (t : Tree) : NodeId → List NodeId → Prop
  | node {id subtrees} : List.Forall₂ (InPreorder t) (t.children id) subtrees →
      InPreorder t id (id :: subtrees.flatten)

/-- The leaves of the node's subtree, listed from left to right. -/
inductive InLeafOrder (t : Tree) : NodeId → List NodeId → Prop
  | leaf {id} : t.children id = [] → InLeafOrder t id [id]
  | inner {id leaves} : t.children id ≠ [] →
      List.Forall₂ (InLeafOrder t) (t.children id) leaves → InLeafOrder t id leaves.flatten

/-- Lists that are determined one by one are determined together. -/
theorem forall₂_eq_map {r : NodeId → List NodeId → Prop} {f : NodeId → List NodeId}
    {ids : List NodeId} (h : ∀ id ∈ ids, ∀ xs, r id xs ↔ xs = f id) (xss : List (List NodeId)) :
    List.Forall₂ r ids xss ↔ xss = ids.map f := by
  induction ids generalizing xss with
  | nil => exact List.forall₂_nil_left_iff
  | cons id ids ih =>
    obtain ⟨hid, hids⟩ := List.forall_mem_cons.mp h
    simp only [List.forall₂_cons_left_iff, hid, ih hids, List.map_cons]
    constructor
    · intro hx
      obtain ⟨_, _, rfl, rfl, he⟩ := hx
      exact he
    · intro he
      exact ⟨_, _, rfl, rfl, he⟩

namespace Descending

variable {t : Tree} (h : t.Descending)

include h

/-- A subtree has one listing in pre-order, the one that is computed. -/
theorem inPreorder_iff {id : NodeId} {ids : List NodeId} :
    t.InPreorder id ids ↔ ids = t.preorder id := by
  induction id using h.induction generalizing ids with
  | step id ih =>
    have hcs (subtrees : List (List NodeId)) :
        List.Forall₂ t.InPreorder (t.children id) subtrees ↔
          subtrees = (t.children id).map t.preorder :=
      forall₂_eq_map (fun c hc _ => ih c hc) subtrees
    rw [h.preorder_eq]
    constructor
    · intro hp
      cases hp with
      | node hs => rw [(hcs _).mp hs, List.flatMap_def]
    · intro he
      rw [he, List.flatMap_def]
      exact .node ((hcs _).mpr rfl)

/-- The leaves of a subtree have one listing too. -/
theorem inLeafOrder_iff {id : NodeId} {ids : List NodeId} :
    t.InLeafOrder id ids ↔ ids = t.leaves id := by
  induction id using h.induction generalizing ids with
  | step id ih =>
    have hcs (leaves : List (List NodeId)) :
        List.Forall₂ t.InLeafOrder (t.children id) leaves ↔
          leaves = (t.children id).map t.leaves :=
      forall₂_eq_map (fun c hc _ => ih c hc) leaves
    cases hl : t.isLeaf id with
    | true =>
      have hnil : t.children id = [] := List.isEmpty_iff.mp hl
      rw [h.leaves_of_leaf hl]
      constructor
      · intro ho
        cases ho with
        | leaf => rfl
        | inner hne _ => exact absurd hnil hne
      · rintro rfl
        exact .leaf hnil
    | false =>
      have hne : t.children id ≠ [] := fun hnil => by simp [isLeaf, hnil] at hl
      rw [h.leaves_of_inner hl, List.flatMap_def]
      constructor
      · intro ho
        cases ho with
        | leaf hnil => exact absurd hnil hne
        | inner _ hs => rw [(hcs _).mp hs]
      · rintro rfl
        exact .inner hne ((hcs _).mpr rfl)

theorem flatMap_preorder_cons (id : NodeId) (pending : List NodeId) :
    (id :: pending).flatMap t.preorder =
      id :: (t.children id ++ pending).flatMap t.preorder := by
  rw [List.flatMap_cons, h.preorder_eq, List.flatMap_append, List.cons_append]

end Descending

/-- A node is met before the subtrees of its children, which are met before all that was pending. -/
theorem preorderStep_cons {t : Tree} {id : NodeId} (hid : id < t.size) (pending : List NodeId) :
    t.preorderStep (id :: pending) = .ok (some (id, t.children id ++ pending)) := by
  obtain ⟨n, hn⟩ := lt_size_iff.mp hid
  simp [preorderStep, get, hn, children_of_get hn, Except.map]

/-- In a forest the walk through a subtree meets each node once. -/
theorem WellFormed.nodup_preorder {t : Tree} (h : t.WellFormed) (id : NodeId) :
    (t.preorder id).Nodup := by
  induction id using h.descending.induction with
  | step id ih =>
    have hself : id ∉ (t.preorder id).drop 1 := fun hm =>
      h.acyclic id (h.descending.mem_strict_preorder.mp hm)
    have hchildren : (t.children id).Pairwise fun c d =>
        (t.preorder c).Disjoint (t.preorder d) := by
      refine (h.nodup_children id).imp_of_mem ?_
      intro c d hc hd hne x hx hx'
      exact hne (h.child_eq_of_covers hc hd (h.descending.mem_preorder.mp hx)
        (h.descending.mem_preorder.mp hx'))
    rw [h.descending.preorder_eq] at hself ⊢
    exact List.nodup_cons.mpr ⟨hself, List.nodup_flatMap.mpr ⟨ih, hchildren⟩⟩

end TreeQuery.Tree
