import TreeQuery.Proofs.Tree.Components
import TreeQuery.Proofs.Tree.LeafOrder

namespace TreeQuery

open Relation

/-- `m` is the child of `n` at the place that the head index of `n` gives. -/
def Tree.Heads (t : Tree) (n m : NodeId) : Prop :=
  ∃ node k, t.get? n = some node ∧ node.headIndex = some k ∧ (t.children n)[k.toNat]? = some m

namespace Operator

/-- Whether the operator leads to nodes of which one has to satisfy the operand. -/
def isRelational : Operator → Bool
  | everyChild | childCount _ | headIndex _ | nextSibling | laterSibling => false
  | _ => true

/-- The operator leads from `n` to `m`. -/
def Leads (t : Tree) (n m : NodeId) : Operator → Prop
  | child => t.Child n m
  | descendant => t.Dominates n m
  | firstChild => (t.children n)[0]? = some m
  | secondChild => (t.children n)[1]? = some m
  | nthChild k => 0 < k.toNat ∧ (t.children n)[k.toNat - 1]? = some m
  | parent => t.parent? n = some m
  | ancestor => t.Dominates m n
  | nextLeaf => t.isLeaf n = true ∧ t.isLeaf m = true ∧ t.Before n m ∧
      ∀ w, t.isLeaf w = true → t.Before n w → ¬ t.Before w m
  | laterLeaf => t.isLeaf n = true ∧ t.isLeaf m = true ∧ t.Before n m
  | sibling => m ≠ n ∧ ∃ p, t.parent? n = some p ∧ t.Child p m
  | self => m = n
  | head => t.Heads n m
  | headChain => TransGen t.Heads n m
  | everyChild => False
  | childCount _ => False
  | headIndex _ => False
  | nextSibling => False
  | laterSibling => False

/-- What the operator says of `n`, where `P` is what its operand says of a node. -/
def Holds (t : Tree) (n : NodeId) (P : NodeId → Prop) : Operator → Prop
  | everyChild => t.isLeaf n = false ∧ ∀ m, t.Child n m → P m
  | childCount k => (t.children n).length = k.toNat
  | headIndex k => t.isLeaf n = false ∧ ∃ node, t.get? n = some node ∧ node.headIndex = some k
  | op => ∃ m, op.Leads t n m ∧ P m

theorem holds_of_relational {op : Operator} (hop : op.isRelational = true) (t : Tree) (n : NodeId)
    (P : NodeId → Prop) : op.Holds t n P ↔ ∃ m, op.Leads t n m ∧ P m := by
  cases op <;> first | rfl | cases hop

end Operator

theorem Tree.heads_iff {t : Tree} {n m : NodeId} : t.Heads n m ↔ t.head? n = some m := by
  constructor
  · rintro ⟨node, k, hn, hk, hm⟩
    rw [children_of_get hn] at hm
    simp [head_of_get hn, Node.head?, hk, hm]
  · intro h
    obtain ⟨node, hn, hb⟩ := Option.bind_eq_some_iff.mp h
    obtain ⟨k, hk, hm⟩ := Option.bind_eq_some_iff.mp hb
    exact ⟨node, k, hn, hk, by rw [children_of_get hn]; exact hm⟩

namespace Operator

variable {t : Tree}

/-- What is asked of the operand where an operator leads. -/
def ask (op : Operator) (operand : NodeId → Test) : Reach → Test
  | .some steps =>
    .any (steps.map fun
      | .ok m => operand m
      | .error link => .fail (.broken link))
  | .every ids => .all (ids.map operand)
  | .decided holds => .answer holds
  | .unsupported => .fail (.unsupported op)

theorem test_of_get {id : NodeId} {n : Node} (hn : t.get? id = some n) (op : Operator)
    (operand : NodeId → Test) : op.test t id operand = op.ask operand (op.reach t id n) := by
  have hget : t.get id = .ok n := by simp [Tree.get, hn]
  unfold test
  simp only [hget]
  cases op.reach t id n <;> rfl

/-- Steps that all lead to nodes are tried one after another. -/
theorem test_of_reach {id : NodeId} {n : Node} (hn : t.get? id = some n) {op : Operator}
    {ids : List NodeId} (hr : op.reach t id n = .some (ids.map .ok)) (operand : NodeId → Test) :
    op.test t id operand = .any (ids.map operand) := by
  rw [test_of_get hn, hr]
  simp [ask, Function.comp_def]

theorem test_of_refused {id : NodeId} {n : Node} (hn : t.get? id = some n) {op : Operator}
    (hr : op.reach t id n = .decided false) (operand : NodeId → Test) :
    op.test t id operand = .any (([] : List NodeId).map operand) := by
  rw [test_of_get hn, hr]
  rfl

/-- The nodes that an operator leads to, in the order in which they are tried. -/
def targets (t : Tree) (id : NodeId) : Operator → List NodeId
  | child => t.children id
  | descendant => (t.preorder id).drop 1
  | firstChild => (t.children id)[0]?.toList
  | secondChild => (t.children id)[1]?.toList
  | nthChild k => if k = 0 then [] else (t.children id)[k.toNat - 1]?.toList
  | parent => (t.parent? id).toList
  | ancestor => t.ancestors id
  | nextLeaf => if t.isLeaf id then (t.leavesAfter id).take 1 else []
  | laterLeaf => if t.isLeaf id then t.leavesAfter id else []
  | sibling =>
    match t.parent? id with
    | none => []
    | some p => (t.children p).filter (· ≠ id)
  | self => [id]
  | head => (t.head? id).toList
  | headChain => t.headChain id
  | everyChild | childCount _ | headIndex _ | nextSibling | laterSibling => []

theorem mem_targets (h : t.WellFormed) {id m : NodeId} {op : Operator} :
    m ∈ op.targets t id ↔ op.Leads t id m := by
  cases op with
  | child => exact Iff.rfl
  | descendant => exact h.descending.mem_strict_preorder
  | firstChild | secondChild => simp [targets, Leads]
  | nthChild k =>
    have hk0 : k = 0 ↔ k.toNat = 0 := by simp [← UInt64.toNat_inj]
    by_cases hk : k = 0
    · simp [targets, Leads, hk]
    · simp [targets, Leads, hk, Nat.pos_of_ne_zero (mt hk0.mpr hk)]
  | parent => simp [targets, Leads]
  | ancestor => exact h.linked.mem_ancestors
  | nextLeaf =>
    cases hl : t.isLeaf id with
    | true => simp [targets, Leads, hl, h.mem_take_leavesAfter hl]
    | false => simp [targets, Leads, hl]
  | laterLeaf =>
    cases hl : t.isLeaf id with
    | true => simp [targets, Leads, hl, h.mem_leavesAfter hl]
    | false => simp [targets, Leads, hl]
  | sibling => cases hp : t.parent? id <;> simp [targets, Leads, hp, Tree.Child, and_comm]
  | self => simp [targets, Leads]
  | head => simp [targets, Leads, Tree.heads_iff]
  | headChain =>
    have he : t.Heads = (t.head? · = some ·) := by
      funext a b
      exact propext Tree.heads_iff
    rw [Leads, he]
    exact h.linked.mem_headChain
  | everyChild | nextSibling | laterSibling | childCount _ | headIndex _ => simp [targets, Leads]

/-- Following an operator stays within what no link leaves. -/
theorem targets_inside (h : t.Linked) {C : NodeId → Prop} (hC : t.Closed C) {id m : NodeId}
    {op : Operator} (hm : m ∈ op.targets t id) (hid : C id) : C m := by
  have later (hm : m ∈ t.leavesAfter id) : C m :=
    hC.below (h.mem_leavesAfter_covers hm) (hC.above (h.top_covers id) hid)
  cases op with
  | child => exact hC.down hm hid
  | descendant => exact hC.below (h.descending.mem_strict_preorder.mp hm).to_reflTransGen hid
  | firstChild | secondChild =>
    exact hC.down (List.mem_of_getElem? (Option.mem_toList.mp hm)) hid
  | nthChild k =>
    rw [targets] at hm
    split at hm
    · exact absurd hm List.not_mem_nil
    · exact hC.down (List.mem_of_getElem? (Option.mem_toList.mp hm)) hid
  | parent => exact hC.up (h.child_iff.mpr (Option.mem_toList.mp hm)) hid
  | ancestor => exact hC.above (h.mem_ancestors.mp hm).to_reflTransGen hid
  | nextLeaf =>
    rw [targets] at hm
    split at hm
    · exact later (List.take_subset _ _ hm)
    · exact absurd hm List.not_mem_nil
  | laterLeaf =>
    rw [targets] at hm
    split at hm
    · exact later hm
    · exact absurd hm List.not_mem_nil
  | sibling =>
    cases hp : t.parent? id with
    | none => simp [targets, hp] at hm
    | some p =>
      simp only [targets, hp, List.mem_filter] at hm
      exact hC.down hm.1 (hC.up (h.child_iff.mpr hp) hid)
  | self =>
    obtain rfl : m = id := List.mem_singleton.mp hm
    exact hid
  | head => exact hC.down (Tree.child_of_head (Option.mem_toList.mp hm)) hid
  | headChain =>
    have hdown : t.Dominates id m :=
      TransGen.mono (fun _ _ => Tree.child_of_head) _ _ (h.mem_headChain.mp hm)
    exact hC.below hdown.to_reflTransGen hid
  | everyChild | nextSibling | laterSibling | childCount _ | headIndex _ =>
    exact absurd hm List.not_mem_nil

theorem targets_lt (h : t.Linked) {id m : NodeId} (hid : id < t.size) {op : Operator}
    (hm : m ∈ op.targets t id) : m < t.size :=
  targets_inside h h.closed_all hm hid

/-- In a tree without broken links an operator that leads to other nodes tries its targets. -/
theorem test_eq_targets (h : t.Linked) {id : NodeId} (hid : id < t.size) {op : Operator}
    (hop : op.isRelational = true) (operand : NodeId → Test) :
    op.test t id operand = .any ((op.targets t id).map operand) := by
  obtain ⟨n, hn⟩ := Tree.lt_size_iff.mp hid
  have hc := Tree.children_of_get hn
  have hp := Tree.parent_of_get hn
  have hl := Tree.isLeaf_of_get hn
  have hlt : ∀ m ∈ op.targets t id, m < t.size := fun m hm => targets_lt h hid hm
  cases op with
  | child =>
    rw [targets, hc]
    exact test_of_reach hn rfl operand
  | descendant =>
    cases hleaf : n.isLeaf with
    | true =>
      have hnil : descendant.targets t id = [] := by
        have hnone : t.children id = [] := List.isEmpty_iff.mp (hl.trans hleaf)
        simp [targets, h.descending.preorder_eq id, hnone]
      rw [hnil]
      exact test_of_refused hn (by simp [reach, hleaf]) operand
    | false =>
      refine test_of_reach hn ?_ operand
      rw [← Tree.steps_of_lt hlt]
      simp [reach, hleaf, targets]
  | firstChild =>
    refine test_of_reach hn ?_ operand
    simp [reach, targets, hc, List.head?_eq_getElem?]
  | secondChild =>
    rw [targets, hc]
    exact test_of_reach hn rfl operand
  | nthChild k =>
    refine test_of_reach hn ?_ operand
    by_cases hk : k = 0 <;> simp [reach, targets, hc, hk]
  | parent =>
    rw [targets, hp]
    exact test_of_reach hn rfl operand
  | ancestor => exact test_of_reach hn rfl operand
  | nextLeaf =>
    cases hleaf : n.isLeaf with
    | true =>
      have hx := hl.trans hleaf
      exact test_of_reach hn (by simp [reach, hleaf, targets, hx, h.laterLeaves_eq hid]) operand
    | false =>
      rw [targets, hl, hleaf]
      exact test_of_refused hn (by simp [reach, hleaf]) operand
  | laterLeaf =>
    cases hleaf : n.isLeaf with
    | true =>
      have hx := hl.trans hleaf
      exact test_of_reach hn (by simp [reach, hleaf, targets, hx, h.laterLeaves_eq hid]) operand
    | false =>
      rw [targets, hl, hleaf]
      exact test_of_refused hn (by simp [reach, hleaf]) operand
  | sibling =>
    cases hpar : n.parent with
    | none =>
      rw [targets, hp, hpar]
      exact test_of_refused hn (by simp [reach, hpar]) operand
    | some p =>
      obtain ⟨above, habove⟩ := Tree.lt_size_iff.mp (h.parent_lt (hp.trans hpar))
      refine test_of_reach hn ?_ operand
      simp [reach, targets, hp, hpar, Tree.get, habove, Tree.children_of_get habove]
  | self => exact test_of_reach hn rfl operand
  | head =>
    rw [targets, Tree.head_of_get hn]
    exact test_of_reach hn rfl operand
  | headChain =>
    refine test_of_reach hn ?_ operand
    rw [← Tree.steps_of_lt hlt]
    rfl
  | everyChild | nextSibling | laterSibling | childCount _ | headIndex _ => cases hop

theorem test_everyChild {id : NodeId} (hid : id < t.size) (operand : NodeId → Test) :
    everyChild.test t id operand =
      if t.isLeaf id then .answer false else .all ((t.children id).map operand) := by
  obtain ⟨n, hn⟩ := Tree.lt_size_iff.mp hid
  rw [test_of_get hn, Tree.isLeaf_of_get hn, Tree.children_of_get hn]
  cases hleaf : n.isLeaf <;> simp [reach, ask, hleaf]

theorem test_childCount {id : NodeId} (hid : id < t.size) (k : UInt64) (operand : NodeId → Test) :
    (childCount k).test t id operand = .answer ((t.children id).length == k.toNat) := by
  obtain ⟨n, hn⟩ := Tree.lt_size_iff.mp hid
  rw [test_of_get hn, Tree.children_of_get hn]
  rfl

theorem test_headIndex {id : NodeId} {n : Node} (hn : t.get? id = some n) (k : UInt64)
    (operand : NodeId → Test) : (headIndex k).test t id operand =
      .answer (!t.isLeaf id && n.headIndex == some k) := by
  rw [test_of_get hn, Tree.isLeaf_of_get hn]
  rfl

/-- Whether an operator may ask its operand about `m`. -/
def Asks (t : Tree) (id m : NodeId) (op : Operator) : Prop :=
  m ∈ op.targets t id ∨ op = everyChild ∧ t.Child id m

theorem Asks.inside (h : t.Linked) {C : NodeId → Prop} (hC : t.Closed C) {id m : NodeId}
    {op : Operator} (hm : op.Asks t id m) (hid : C id) : C m := by
  rcases hm with hm | ⟨_, hm⟩
  · exact targets_inside h hC hm hid
  · exact hC.down hm hid

/-- What holds of answers, is handed on by alternatives and conjunctions and holds of the operand
wherever it is asked holds of an operator's test. -/
theorem test_rule (h : t.Linked) {id : NodeId} (hid : id < t.size) {op : Operator}
    {operand : NodeId → Test} {motive : Test → Prop} (answer : ∀ b, motive (.answer b))
    (unsupported : op = nextSibling ∨ op = laterSibling → motive (.fail (.unsupported op)))
    (any : ∀ {ts : List Test}, (∀ a ∈ ts, motive a) → motive (.any ts))
    (all : ∀ {ts : List Test}, (∀ a ∈ ts, motive a) → motive (.all ts))
    (asked : ∀ m, op.Asks t id m → motive (operand m)) : motive (op.test t id operand) := by
  cases hrel : op.isRelational with
  | true =>
    rw [test_eq_targets h hid hrel]
    apply any
    intro a ha
    obtain ⟨m, hm, rfl⟩ := List.mem_map.mp ha
    exact asked m (.inl hm)
  | false =>
    obtain ⟨n, hn⟩ := Tree.lt_size_iff.mp hid
    cases op with
    | everyChild =>
      rw [test_everyChild hid]
      cases t.isLeaf id with
      | true => exact answer false
      | false =>
        apply all
        intro a ha
        obtain ⟨m, hm, rfl⟩ := List.mem_map.mp ha
        exact asked m (.inr ⟨rfl, hm⟩)
    | childCount k =>
      rw [test_childCount hid]
      exact answer _
    | headIndex k =>
      rw [test_headIndex hn]
      exact answer _
    | nextSibling =>
      rw [test_of_get hn]
      exact unsupported (.inl rfl)
    | laterSibling =>
      rw [test_of_get hn]
      exact unsupported (.inr rfl)
    | _ => cases hrel

end Operator

end TreeQuery
