import TreeQuery.Proofs.Calls
import TreeQuery.Proofs.Tree.Preorder

namespace TreeQuery.Tree

/-- A step from a node to its parent. -/
def parentStep (t : Tree) (id : NodeId) : Except BrokenLink (Option (NodeId × NodeId)) :=
  .ok ((t.parent? id).map fun p => (p, p))

/-- A step from a node, which has to be there, to its head. -/
def headStep (t : Tree) (id : NodeId) : Except BrokenLink (Option (NodeId × NodeId)) :=
  (t.get id).map fun n => n.head?.map fun c => (c, c)

theorem headStep_of_lt {t : Tree} {id : NodeId} (hid : id < t.size) :
    t.headStep id = .ok ((t.head? id).map fun c => (c, c)) := by
  obtain ⟨n, hn⟩ := lt_size_iff.mp hid
  rw [headStep, get, hn, head_of_get hn]
  rfl

theorem Linked.ends_ancestors {t : Tree} (h : t.Linked) (id : NodeId) :
    Ends t.parentStep id (t.ancestors id) := by
  induction id using h.upward_induction with
  | step id ih =>
    cases hp : t.parent? id with
    | none =>
      rw [ancestors_of_root hp]
      exact .done (by rw [parentStep, hp]; rfl)
    | some p =>
      rw [h.ancestors_of_parent hp]
      exact .more (by rw [parentStep, hp]; rfl) (ih p hp)

theorem Linked.ends_headChain {t : Tree} (h : t.Linked) {id : NodeId} (hid : id < t.size) :
    Ends t.headStep id (t.headChain id) := by
  induction id using h.descending.induction with
  | step id ih =>
    have hstep := headStep_of_lt hid
    cases hc : t.head? id with
    | none =>
      rw [hc] at hstep
      rw [headChain_of_none hc]
      exact .done hstep
    | some c =>
      rw [hc] at hstep
      rw [h.headChain_of_head hc]
      have hchild : t.Child id c := child_of_head hc
      exact .more hstep (ih c hchild (h.descending.child_lt hchild))

/-- The pending subtrees are met one after the other. -/
theorem Descending.ends_pending {t : Tree} (h : t.Descending) {pending : List NodeId}
    (hpending : ∀ id ∈ pending, id < t.size) :
    Ends t.preorderStep pending (pending.flatMap t.preorder) := by
  -- by induction on how many nodes are still to be met, which each step makes fewer by one
  induction hn : (pending.flatMap t.preorder).length generalizing pending with
  | zero =>
    cases pending with
    | nil => exact .done rfl
    | cons id pending =>
      rw [h.flatMap_preorder_cons] at hn
      cases hn
  | succ n ih =>
    cases pending with
    | nil => cases hn
    | cons id pending =>
      obtain ⟨hid, hrest⟩ := List.forall_mem_cons.mp hpending
      rw [h.flatMap_preorder_cons] at hn ⊢
      have hnext : ∀ c ∈ t.children id ++ pending, c < t.size :=
        List.forall_mem_append.mpr ⟨fun c hc => h.child_lt hc, hrest⟩
      exact .more (preorderStep_cons hid pending) (ih hnext (Nat.succ.inj hn))

theorem Descending.ends_preorder {t : Tree} (h : t.Descending) {id : NodeId} (hid : id < t.size) :
    Ends t.preorderStep [id] (t.preorder id) := by
  have hends : Ends t.preorderStep [id] ([id].flatMap t.preorder) :=
    h.ends_pending fun a ha => List.mem_singleton.mp ha ▸ hid
  rwa [List.flatMap_singleton] at hends

/-- The walk that keeps the subtrees still to be begun comes to an end, and it meets the nodes of a
subtree in pre-order, each as often as it is listed; the listing is unique, and so is that of the
leaves from left to right. -/
theorem walk_iff_inPreorder {t : Tree} (h : t.Descending) {id : NodeId} (hid : id < t.size) :
    (∃ ids, Ends t.preorderStep [id] ids) ∧
      (∀ ids, Ends t.preorderStep [id] ids ↔ t.InPreorder id ids) ∧
      (∀ ids, t.InPreorder id ids ↔ ids = t.preorder id) ∧
      ∀ ids, t.InLeafOrder id ids ↔ ids = t.leaves id := by
  have hends : Ends t.preorderStep [id] (t.preorder id) := h.ends_preorder hid
  refine ⟨⟨_, hends⟩, fun ids => ?_, fun _ => h.inPreorder_iff, fun _ => h.inLeafOrder_iff⟩
  rw [h.inPreorder_iff]
  constructor
  · exact fun hids => hids.unique hends
  · rintro rfl
    exact hends

/-- The root lists its first child twice, and both of its children list the same leaf. -/
def shared : Tree where
  nodes := #[
    ⟨.bare "S", 0, none, [1, 2, 1]⟩,
    ⟨.bare "A", 1, some 0, [3]⟩,
    ⟨.bare "B", 2, some 0, [3]⟩,
    ⟨⟨"C", some "c", none, none, none⟩, 3, some 2, []⟩]
  root := some 0

theorem walk_iff_inPreorder_shared :
    shared.Descending ∧ 0 < shared.size ∧
      Ends shared.preorderStep [0] [0, 1, 3, 2, 3, 1, 3] ∧
      shared.InPreorder 0 [0, 1, 3, 2, 3, 1, 3] ∧ shared.InLeafOrder 0 [3, 3, 3] := by
  have h : shared.Descending := .of_increasing (by decide)
  obtain ⟨_, hwalk, hpreorder, hleaves⟩ := walk_iff_inPreorder h (show 0 < shared.size by decide)
  have hp : shared.InPreorder 0 [0, 1, 3, 2, 3, 1, 3] := (hpreorder _).mpr (by decide)
  exact ⟨h, by decide, (hwalk _).mpr hp, hp, (hleaves _).mpr (by decide)⟩

end TreeQuery.Tree
