import Mathlib.Data.Set.Function
import TreeQuery.Proofs.Tree.Components
import TreeQuery.Proofs.Tree.LeafOrder

namespace TreeQuery

open Relation

/-- The node `m` is the node `n` with its links renumbered by `f`. -/
structure Node.CopiedTo (f : NodeId → NodeId) (n m : Node) : Prop where
  parent : m.parent = n.parent.map f
  children : m.children = n.children.map f
  label : m.label = n.label
  word : m.word = n.word
  category : m.category = n.category
  headIndex : m.headIndex = n.headIndex

namespace Tree

/-- Under `f` every node of `C` has a copy of its own in `t₂`, linked to the copies of the nodes
that it is linked to. -/
structure Copied (t₁ t₂ : Tree) (C : NodeId → Prop) (f : NodeId → NodeId) : Prop where
  closed : t₁.Closed C
  injective : ∀ {a b}, C a → C b → f a = f b → a = b
  node : ∀ {a n}, C a → t₁.get? a = some n → ∃ m, t₂.get? (f a) = some m ∧ n.CopiedTo f m

/-- `f` takes the nodes connected to `id` one to one to those connected to `f id`, with their
parents, their children in order, their labels, words, categories and head indices. -/
structure Alike (t₁ t₂ : Tree) (id : NodeId) (f : NodeId → NodeId) : Prop where
  bijective : Set.BijOn f {a | t₁.Connected id a} {b | t₂.Connected (f id) b}
  node : ∀ {a n}, t₁.Connected id a → t₁.get? a = some n →
    ∃ m, t₂.get? (f a) = some m ∧ n.CopiedTo f m

/-- The words and phrases of `sentence` under other numbers, beside a node that hangs from no other,
with tags for the words. -/
def renumbered : Tree where
  nodes := #[
    ⟨.bare "X", 0, none, []⟩,
    ⟨⟨"S", none, none, none, some 1⟩, 1, none, [4, 2]⟩,
    ⟨.bare "VP", 2, some 1, [3]⟩,
    ⟨⟨"VBD", some "ran", some "VBD", none, none⟩, 3, some 2, []⟩,
    ⟨.bare "NP", 4, some 1, [6, 5]⟩,
    ⟨⟨"NN", some "dog", some "NN", none, none⟩, 5, some 4, []⟩,
    ⟨⟨"DT", some "the", some "DT", none, none⟩, 6, some 4, []⟩]
  root := some 1

theorem renumbered_wellFormed : renumbered.WellFormed :=
  .of_increasing (by decide) (by decide) (by decide) (by decide)

/-- Where the nodes of `sentence` are found in `renumbered`. -/
def newNumber (id : NodeId) : NodeId :=
  [1, 4, 6, 5, 2, 3].getD id 0

theorem sentence_alike {id : NodeId} (hid : id < sentence.size) :
    sentence.Alike renumbered id newNumber := by
  have hlt : ∀ {a}, sentence.Connected id a → a < sentence.size := fun ha =>
    (sentence_wellFormed.linked.connected_lt ha).mp hid
  have hto : ∀ id < sentence.size, newNumber id < renumbered.size ∧
      ∀ a < sentence.size, renumbered.top (newNumber id) = renumbered.top (newNumber a) := by
    decide
  have hfrom : ∀ id < sentence.size, ∀ b < renumbered.size,
      renumbered.top (newNumber id) = renumbered.top b →
        ∃ a < sentence.size, sentence.top id = sentence.top a ∧ newNumber a = b := by
    decide
  have hinj : ∀ a < sentence.size, ∀ b < sentence.size, newNumber a = newNumber b → a = b := by
    decide
  refine ⟨⟨?_, ?_, ?_⟩, ?_⟩
  · intro a ha
    exact renumbered_wellFormed.linked.connected_iff.mpr ((hto id hid).2 a (hlt ha))
  · intro a ha b hb
    exact hinj a (hlt ha) b (hlt hb)
  · intro b hb
    have hb' := (renumbered_wellFormed.linked.connected_lt hb).mp (hto id hid).1
    obtain ⟨a, _, ha, he⟩ :=
      hfrom id hid b hb' (renumbered_wellFormed.linked.connected_iff.mp hb)
    exact ⟨a, sentence_wellFormed.linked.connected_iff.mpr ha, he⟩
  · intro a n ha hn
    have h := hlt ha
    match a, h with
    | 0, _ | 1, _ | 2, _ | 3, _ | 4, _ | 5, _ =>
      cases hn
      exact ⟨_, rfl, rfl, rfl, rfl, rfl, rfl, rfl⟩

theorem Alike.copied {t₁ t₂ : Tree} (h₁ : t₁.Linked) {id : NodeId} (hid : id < t₁.size)
    {f : NodeId → NodeId} (hf : t₁.Alike t₂ id f) : t₁.Copied t₂ (t₁.Connected id) f where
  closed := h₁.closed_connected hid
  injective ha hb he := hf.bijective.injOn ha hb he
  node := hf.node

namespace Copied

variable {t₁ t₂ : Tree} {C : NodeId → Prop} {f : NodeId → NodeId} (hf : t₁.Copied t₂ C f)
  {a : NodeId}

include hf

theorem lt_size (ha : C a) : f a < t₂.size := by
  obtain ⟨n, hn⟩ := lt_size_iff.mp (hf.closed.lt_size ha)
  obtain ⟨m, hm, _⟩ := hf.node ha hn
  exact lt_size_iff.mpr ⟨m, hm⟩

theorem children (ha : C a) : t₂.children (f a) = (t₁.children a).map f := by
  obtain ⟨n, hn⟩ := lt_size_iff.mp (hf.closed.lt_size ha)
  obtain ⟨m, hm, hc⟩ := hf.node ha hn
  rw [children_of_get hn, children_of_get hm, hc.children]

theorem parent (ha : C a) : t₂.parent? (f a) = (t₁.parent? a).map f := by
  obtain ⟨n, hn⟩ := lt_size_iff.mp (hf.closed.lt_size ha)
  obtain ⟨m, hm, hc⟩ := hf.node ha hn
  rw [parent_of_get hn, parent_of_get hm, hc.parent]

theorem head (ha : C a) : t₂.head? (f a) = (t₁.head? a).map f := by
  obtain ⟨n, hn⟩ := lt_size_iff.mp (hf.closed.lt_size ha)
  obtain ⟨m, hm, hc⟩ := hf.node ha hn
  rw [head_of_get hn, head_of_get hm, Node.head?, Node.head?, hc.headIndex, hc.children]
  cases n.headIndex <;> simp

theorem isLeaf (ha : C a) : t₂.isLeaf (f a) = t₁.isLeaf a := by
  simp [Tree.isLeaf, hf.children ha]

/-- Numbers that differ have copies that differ. -/
theorem beq (ha : C a) {b : NodeId} (hb : C b) : decide (f b ≠ f a) = decide (b ≠ a) := by
  apply decide_eq_decide.mpr
  exact not_congr ⟨hf.injective hb ha, congrArg f⟩

/-- Leaving out one number, or all up to it, can be done before or after renumbering. -/
theorem filter_ne (ha : C a) {ids : List NodeId} (hids : ∀ b ∈ ids, C b) :
    (ids.map f).filter (· ≠ f a) = (ids.filter (· ≠ a)).map f := by
  rw [List.filter_map]
  congr 1
  exact List.filter_congr fun b hb => hf.beq ha (hids b hb)

theorem dropWhile_ne (ha : C a) {ids : List NodeId} (hids : ∀ b ∈ ids, C b) :
    (ids.map f).dropWhile (· ≠ f a) = (ids.dropWhile (· ≠ a)).map f := by
  induction ids with
  | nil => rfl
  | cons b ids ih =>
    obtain ⟨hb, hrest⟩ := List.forall_mem_cons.mp hids
    have he := hf.beq ha hb
    rw [List.map_cons, List.dropWhile_cons, List.dropWhile_cons, he]
    split
    · exact ih hrest
    · rfl

section Walks

variable (h₁ : t₁.Linked) (h₂ : t₂.Linked)

include h₁ h₂

theorem preorder (ha : C a) : t₂.preorder (f a) = (t₁.preorder a).map f := by
  induction a using h₁.descending.induction with
  | step a ih =>
    rw [h₁.descending.preorder_eq, h₂.descending.preorder_eq, hf.children ha, List.map_cons,
      List.flatMap_map, List.map_flatMap]
    congr 1
    apply List.flatMap_congr
    intro c hc
    exact ih c hc (hf.closed.down hc ha)

theorem leaves (ha : C a) : t₂.leaves (f a) = (t₁.leaves a).map f := by
  rw [Tree.leaves, Tree.leaves, hf.preorder h₁ h₂ ha, List.filter_map]
  congr 1
  apply List.filter_congr
  intro b hb
  exact hf.isLeaf (hf.closed.below (h₁.descending.mem_preorder.mp hb) ha)

theorem ancestors (ha : C a) : t₂.ancestors (f a) = (t₁.ancestors a).map f := by
  induction a using h₁.upward_induction with
  | step a ih =>
    have hp := hf.parent ha
    cases hpa : t₁.parent? a with
    | none =>
      rw [hpa] at hp
      rw [Linked.ancestors_of_root hpa, Linked.ancestors_of_root hp]
      rfl
    | some p =>
      rw [hpa] at hp
      rw [h₁.ancestors_of_parent hpa, h₂.ancestors_of_parent hp,
        ih p hpa (hf.closed.up (h₁.child_iff.mpr hpa) ha)]
      rfl

theorem top (ha : C a) : t₂.top (f a) = f (t₁.top a) := by
  rw [Tree.top, Tree.top, hf.ancestors h₁ h₂ ha, List.getLast?_map]
  cases (t₁.ancestors a).getLast? <;> rfl

theorem leavesAfter (ha : C a) : t₂.leavesAfter (f a) = (t₁.leavesAfter a).map f := by
  have htop : C (t₁.top a) := hf.closed.above (h₁.top_covers a) ha
  have hids : ∀ b ∈ t₁.leaves (t₁.top a), C b := fun b hb =>
    hf.closed.below (h₁.descending.mem_leaves.mp hb).1 htop
  rw [Tree.leavesAfter, Tree.leavesAfter, hf.top h₁ h₂ ha, hf.leaves h₁ h₂ htop,
    hf.dropWhile_ne ha hids, List.map_drop]

theorem headChain (ha : C a) : t₂.headChain (f a) = (t₁.headChain a).map f := by
  induction a using h₁.descending.induction with
  | step a ih =>
    have hh := hf.head ha
    cases hha : t₁.head? a with
    | none =>
      rw [hha] at hh
      rw [Linked.headChain_of_none hha, Linked.headChain_of_none hh]
      rfl
    | some b =>
      rw [hha] at hh
      have hb : t₁.Child a b := child_of_head hha
      rw [h₁.headChain_of_head hha, h₂.headChain_of_head hh, ih b hb (hf.closed.down hb ha)]
      rfl

end Walks

end Copied

end Tree

end TreeQuery
