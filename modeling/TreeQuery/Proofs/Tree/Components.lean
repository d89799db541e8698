import TreeQuery.Proofs.Tree.Walks

namespace TreeQuery.Tree

open Relation

/-- No link leads out of the nodes of `C`. -/
structure Closed (t : Tree) (C : NodeId → Prop) : Prop where
  lt_size : ∀ {a}, C a → a < t.size
  down : ∀ {p c}, t.Child p c → C p → C c
  up : ∀ {p c}, t.Child p c → C c → C p

/-- Links, followed in either direction, lead from one node to the other. -/
def Connected (t : Tree) : NodeId → NodeId → Prop :=
  EqvGen t.Child

theorem Covers.connected {t : Tree} {a b : NodeId} (hab : t.Covers a b) : t.Connected a b :=
  EqvGen.reflTransGen_le_eqvGen _ _ _ hab

theorem Linked.closed_all {t : Tree} (h : t.Linked) : t.Closed (· < t.size) where
  lt_size ha := ha
  down hc _ := h.descending.child_lt hc
  up hc _ := hc.lt_size

theorem Linked.connected_lt {t : Tree} (h : t.Linked) {a b : NodeId}
    (hab : t.Connected a b) : a < t.size ↔ b < t.size := by
  induction hab with
  | rel p c hc => exact iff_of_true hc.lt_size (h.descending.child_lt hc)
  | refl => exact Iff.rfl
  | symm _ _ _ ih => exact ih.symm
  | trans _ _ _ _ _ ih₁ ih₂ => exact ih₁.trans ih₂

theorem Linked.closed_connected {t : Tree} (h : t.Linked) {id : NodeId}
    (hid : id < t.size) : t.Closed (t.Connected id) where
  lt_size ha := (h.connected_lt ha).mp hid
  down hc ha := ha.trans _ _ _ (.rel _ _ hc)
  up hc ha := ha.trans _ _ _ (.symm _ _ (.rel _ _ hc))

/-- Connected nodes are those with the same topmost ancestor. -/
theorem Linked.connected_iff {t : Tree} (h : t.Linked) {a b : NodeId} :
    t.Connected a b ↔ t.top a = t.top b := by
  constructor
  · intro hab
    induction hab with
    | rel p c hc => exact (h.top_of_parent (h.child_iff.mp hc)).symm
    | refl => rfl
    | symm _ _ _ ih => exact ih.symm
    | trans _ _ _ _ _ ih₁ ih₂ => exact ih₁.trans ih₂
  · intro he
    have ha := (h.top_covers a).connected.symm
    rw [he] at ha
    exact ha.trans _ _ _ (h.top_covers b).connected

namespace Closed

variable {t : Tree} {C : NodeId → Prop} (hC : t.Closed C)

include hC

theorem below {a b : NodeId} (hab : t.Covers a b) (ha : C a) : C b := by
  induction hab with
  | refl => exact ha
  | tail _ hc ih => exact hC.down hc ih

theorem above {a b : NodeId} (hab : t.Covers a b) (hb : C b) : C a := by
  induction hab with
  | refl => exact hb
  | tail _ hc ih => exact ih (hC.up hc hb)

end Closed

end TreeQuery.Tree
