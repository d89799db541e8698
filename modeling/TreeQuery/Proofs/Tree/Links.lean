import Mathlib.Data.Finset.Card
import Mathlib.Data.Finset.Range
import Mathlib.Logic.Relation
import TreeQuery.Tree.Basic

namespace TreeQuery.Tree

open Relation

def Child (t : Tree) (parent child : NodeId) : Prop :=
  child ∈ t.children parent

/-- `b` lies strictly below `a`. -/
def Dominates (t : Tree) : NodeId → NodeId → Prop :=
  TransGen t.Child

/-- `b` is `a` or lies below it. -/
def Covers (t : Tree) : NodeId → NodeId → Prop :=
  ReflTransGen t.Child

/-- Child links lead to nodes and never back to where they came from. A node may still be listed
twice, or below several others. -/
structure Descending (t : Tree) : Prop where
  child_lt : ∀ {p c}, t.Child p c → c < t.size
  acyclic : ∀ id, ¬ t.Dominates id id

/-- Child lists and parents tell the same story, and no node lies below itself. A child may still be
listed more than once by its parent. -/
structure Linked (t : Tree) : Prop where
  child_iff : ∀ {p c}, t.Child p c ↔ t.parent? c = some p
  acyclic : ∀ id, ¬ t.Dominates id id

/-- The arena of a forest. A child that is listed has a parent, so no link leads out of the
arena. -/
structure WellFormed (t : Tree) : Prop where
  id_eq : ∀ {id n}, t.get? id = some n → n.id = id
  count_child : ∀ p c, (t.children p).count c = if t.parent? c = some p then 1 else 0
  acyclic : ∀ id, ¬ t.Dominates id id

theorem lt_size_iff {t : Tree} {id : NodeId} : id < t.size ↔ ∃ n, t.get? id = some n := by
  constructor
  · intro h
    exact ⟨t.nodes[id], Array.getElem?_eq_getElem h⟩
  · rintro ⟨n, hn⟩
    exact (Array.getElem?_eq_some_iff.mp hn).1

/-- Only nodes list children. -/
theorem Child.lt_size {t : Tree} {p c : NodeId} (h : t.Child p c) : p < t.size := by
  cases hn : t.get? p with
  | none => simp [Child, children, hn] at h
  | some n => exact lt_size_iff.mpr ⟨n, hn⟩

theorem lt_size_of_parent {t : Tree} {p c : NodeId} (h : t.parent? c = some p) : c < t.size := by
  obtain ⟨n, hn, _⟩ := Option.bind_eq_some_iff.mp h
  exact lt_size_iff.mpr ⟨n, hn⟩

theorem children_of_get {t : Tree} {id : NodeId} {n : Node} (h : t.get? id = some n) :
    t.children id = n.children := by
  simp [children, h]

theorem parent_of_get {t : Tree} {id : NodeId} {n : Node} (h : t.get? id = some n) :
    t.parent? id = n.parent := by
  simp [parent?, h]

theorem head_of_get {t : Tree} {id : NodeId} {n : Node} (h : t.get? id = some n) :
    t.head? id = n.head? := by
  simp [head?, h]

theorem isLeaf_of_get {t : Tree} {id : NodeId} {n : Node} (h : t.get? id = some n) :
    t.isLeaf id = n.isLeaf := by
  simp [isLeaf, Node.isLeaf, children_of_get h]

/-- The head of a node is one of its children. -/
theorem child_of_head {t : Tree} {id h : NodeId} (hh : t.head? id = some h) : t.Child id h := by
  obtain ⟨n, hn, hb⟩ := Option.bind_eq_some_iff.mp hh
  obtain ⟨i, _, hi⟩ := Option.bind_eq_some_iff.mp hb
  rw [Child, children_of_get hn]
  exact List.mem_of_getElem? hi

/-- Where every child has a larger number than its parent no link leads back. -/
theorem acyclic_of_lt {t : Tree} (hlt : ∀ {p c}, t.Child p c → p < c) (id : NodeId) :
    ¬ t.Dominates id id := by
  have hbelow {a b : NodeId} (hab : t.Dominates a b) : a < b := by
    induction hab with
    | single hc => exact hlt hc
    | tail _ hc ih => exact Nat.lt_trans ih (hlt hc)
  exact fun h => Nat.lt_irrefl id (hbelow h)

theorem Descending.of_increasing {t : Tree}
    (hchild : ∀ p < t.size, ∀ c ∈ t.children p, p < c ∧ c < t.size) : t.Descending where
  child_lt hc := (hchild _ hc.lt_size _ hc).2
  acyclic := acyclic_of_lt fun hc => (hchild _ hc.lt_size _ hc).1

namespace Linked

variable {t : Tree} (h : t.Linked)

include h

theorem descending : t.Descending where
  child_lt hc := lt_size_of_parent (h.child_iff.mp hc)
  acyclic := h.acyclic

theorem parent_lt {p c : NodeId} (hp : t.parent? c = some p) : p < t.size :=
  (h.child_iff.mpr hp).lt_size

theorem parent_unique {p q c : NodeId} (hp : t.Child p c) (hq : t.Child q c) : p = q := by
  rw [h.child_iff] at hp hq
  rw [hp] at hq
  exact Option.some.inj hq

end Linked

namespace WellFormed

variable {t : Tree}

theorem linked (h : t.WellFormed) : t.Linked where
  child_iff := by
    intro p c
    rw [Child, ← List.count_pos_iff, h.count_child p c]
    split <;> simp_all
  acyclic := h.acyclic

theorem nodup_children (h : t.WellFormed) (p : NodeId) : (t.children p).Nodup := by
  rw [List.nodup_iff_count_le_one]
  intro c
  rw [h.count_child p c]
  split <;> simp

theorem descending (h : t.WellFormed) : t.Descending :=
  h.linked.descending

/-- An arena in which every child has a larger number than its parent needs no further argument
against cycles; the rest can be checked number by number. -/
theorem of_increasing (hid : ∀ id < t.size, (t.get? id).map Node.id = some id)
    (hcount : ∀ p < t.size, ∀ c < t.size,
      (t.children p).count c = if t.parent? c = some p then 1 else 0)
    (hchild : ∀ p < t.size, ∀ c ∈ t.children p, p < c ∧ c < t.size)
    (hparent : ∀ c < t.size, ∀ p ∈ t.parent? c, p < t.size) : t.WellFormed where
  id_eq := by
    intro id n hn
    have h := hid id (lt_size_iff.mpr ⟨n, hn⟩)
    simpa [hn] using h
  count_child := by
    intro p c
    by_cases hc : c < t.size
    · by_cases hp : p < t.size
      · exact hcount p hp c hc
      · have hnot : t.parent? c ≠ some p := fun h => hp (hparent c hc p h)
        rw [if_neg hnot, List.count_eq_zero]
        exact fun h => hp (Child.lt_size h)
    · have hnot : t.parent? c ≠ some p := fun h => hc (lt_size_of_parent h)
      rw [if_neg hnot, List.count_eq_zero]
      exact fun h => hc (hchild p (Child.lt_size h) c h).2
  acyclic := (Descending.of_increasing hchild).acyclic

end WellFormed

/-- A sentence of three words, whose verb phrase is its head. -/
def sentence : Tree where
  nodes := #[
    ⟨⟨"S", none, none, none, some 1⟩, 0, none, [1, 4]⟩,
    ⟨.bare "NP", 1, some 0, [2, 3]⟩,
    ⟨⟨"DT", some "the", none, none, none⟩, 2, some 1, []⟩,
    ⟨⟨"NN", some "dog", none, none, none⟩, 3, some 1, []⟩,
    ⟨.bare "VP", 4, some 0, [5]⟩,
    ⟨⟨"VBD", some "ran", none, none, none⟩, 5, some 4, []⟩]
  root := some 0

theorem sentence_wellFormed : sentence.WellFormed :=
  .of_increasing (by decide) (by decide) (by decide) (by decide)

section Spread

variable {r : NodeId → NodeId → Prop} {n : Nat}

open Classical in
noncomputable def reached (r : NodeId → NodeId → Prop) (n : Nat) (a : NodeId) : Finset NodeId :=
  (Finset.range n).filter (TransGen r a)

theorem mem_reached {a b : NodeId} : b ∈ reached r n a ↔ b < n ∧ TransGen r a b := by
  simp [reached]

/-- Each step leaves less to reach. -/
theorem card_reached_lt (acyclic : ∀ a, ¬ TransGen r a a) {a b : NodeId} (hab : r a b)
    (hb : b < n) : (reached r n b).card < (reached r n a).card := by
  apply Finset.card_lt_card
  rw [Finset.ssubset_iff_of_subset]
  · exact ⟨b, mem_reached.mpr ⟨hb, .single hab⟩, fun h => acyclic b (mem_reached.mp h).2⟩
  · intro c hc
    obtain ⟨hlt, hbc⟩ := mem_reached.mp hc
    exact mem_reached.mpr ⟨hlt, .head hab hbc⟩

theorem card_reached_le (a : NodeId) : (reached r n a).card ≤ n := by
  have h : (reached r n a).card ≤ (Finset.range n).card :=
    Finset.card_le_card fun b hb => Finset.mem_range.mpr (mem_reached.mp hb).1
  simpa using h

end Spread

/-- Whatever passes from all children of a node to the node holds everywhere. -/
theorem Descending.induction {t : Tree} (h : t.Descending) {motive : NodeId → Prop}
    (step : ∀ id, (∀ c, t.Child id c → motive c) → motive id) (id : NodeId) : motive id := by
  induction hk : (reached t.Child t.size id).card using Nat.strong_induction_on generalizing id with
  | _ k ih =>
    apply step
    intro c hc
    exact ih _ (hk ▸ card_reached_lt h.acyclic hc (h.child_lt hc)) c rfl

theorem Covers.lt_size {t : Tree} (h : t.Descending) {a b : NodeId} (hab : t.Covers a b)
    (ha : a < t.size) : b < t.size := by
  cases hab with
  | refl => exact ha
  | tail _ hc => exact h.child_lt hc

end TreeQuery.Tree
