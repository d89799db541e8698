import TreeQuery.Proofs.Tree.Links
import TreeQuery.Tree.Walk

namespace TreeQuery.Tree

open Relation

/-- The nodes met by taking `next` over and over, at most `steps` times. -/
def follow (next : NodeId → Option NodeId) : Nat → NodeId → List NodeId
  | 0, _ => []
  | steps + 1, id =>
    match next id with
    | some m => m :: follow next steps m
    | none => []

theorem climb_eq_follow (t : Tree) (steps : Nat) (id : NodeId) :
    t.climb steps id = follow t.parent? steps id := by
  induction steps generalizing id with
  | zero => rfl
  | succ steps ih =>
    rw [climb, follow]
    cases t.parent? id with
    | none => rfl
    | some p => exact congrArg (p :: ·) (ih p)

theorem headsFrom_eq_follow (t : Tree) (steps : Nat) (id : NodeId) :
    t.headsFrom steps id = follow t.head? steps id := by
  induction steps generalizing id with
  | zero => rfl
  | succ steps ih =>
    rw [headsFrom, follow]
    cases t.head? id with
    | none => rfl
    | some h => exact congrArg (h :: ·) (ih h)

section Follow

variable {next : NodeId → Option NodeId} {n : Nat}
  (acyclic : ∀ a, ¬ TransGen (next · = some ·) a a) (bound : ∀ a b, next a = some b → b < n)

include acyclic bound

/-- As many steps as there are nodes are enough. -/
theorem follow_congr (k m : Nat) (id : NodeId)
    (hk : (reached (next · = some ·) n id).card ≤ k)
    (hm : (reached (next · = some ·) n id).card ≤ m) :
    follow next k id = follow next m id := by
  induction k generalizing m id with
  | zero =>
    cases hn : next id with
    | none => cases m <;> simp [follow, hn]
    | some b =>
      have := card_reached_lt acyclic (r := (next · = some ·)) hn (bound id b hn)
      omega
  | succ k ih =>
    cases hn : next id with
    | none => cases m <;> simp [follow, hn]
    | some b =>
      have hlt := card_reached_lt acyclic (r := (next · = some ·)) hn (bound id b hn)
      cases m with
      | zero => omega
      | succ m => simp [follow, hn, ih m b (by omega) (by omega)]

theorem follow_of_some {a b : NodeId} (h : next a = some b) :
    follow next n a = b :: follow next n b := by
  have hlt := card_reached_lt acyclic (r := (next · = some ·)) h (bound a b h)
  have hle := card_reached_le (r := (next · = some ·)) (n := n) a
  obtain ⟨k, rfl⟩ : ∃ k, n = k + 1 := ⟨n - 1, by omega⟩
  rw [follow, h]
  simp only
  rw [follow_congr acyclic bound k (k + 1) b (by omega) (by omega)]

omit acyclic bound in
theorem follow_of_none {a : NodeId} (h : next a = none) : follow next n a = [] := by
  cases n <;> simp [follow, h]

/-- A walk meets what its links reach. -/
theorem mem_follow {a x : NodeId} : x ∈ follow next n a ↔ TransGen (next · = some ·) a x := by
  induction hk : (reached (next · = some ·) n a).card using Nat.strong_induction_on
    generalizing a with
  | _ k ih =>
    rw [TransGen.head'_iff]
    cases hn : next a with
    | none => simp [follow_of_none hn]
    | some b =>
      have hlt := card_reached_lt acyclic (r := (next · = some ·)) hn (bound a b hn)
      rw [follow_of_some acyclic bound hn, List.mem_cons, ih _ (hk ▸ hlt) rfl]
      simp [reflTransGen_iff_eq_or_transGen]

end Follow

namespace Linked

variable {t : Tree} (h : t.Linked)

include h

/-- Parent links are child links turned round. -/
theorem transGen_parent {a b : NodeId} :
    TransGen (t.parent? · = some ·) a b ↔ t.Dominates b a := by
  have he : (fun x y : NodeId => t.parent? x = some y) = Function.swap t.Child := by
    funext x y
    exact propext h.child_iff.symm
  rw [he, transGen_swap]
  rfl

theorem parent_acyclic (a : NodeId) : ¬ TransGen (t.parent? · = some ·) a a := by
  rw [h.transGen_parent]
  exact h.acyclic a

theorem ancestors_of_parent {id p : NodeId} (hp : t.parent? id = some p) :
    t.ancestors id = p :: t.ancestors p := by
  simp only [ancestors, climb_eq_follow]
  exact follow_of_some h.parent_acyclic (fun _ _ => h.parent_lt) hp

omit h in
theorem ancestors_of_root {id : NodeId} (hp : t.parent? id = none) : t.ancestors id = [] := by
  simp only [ancestors, climb_eq_follow]
  exact follow_of_none hp

theorem mem_ancestors {id a : NodeId} : a ∈ t.ancestors id ↔ t.Dominates a id := by
  rw [ancestors, climb_eq_follow, mem_follow h.parent_acyclic fun _ _ => h.parent_lt,
    h.transGen_parent]

/-- Whatever passes from a parent to its children holds everywhere. -/
theorem upward_induction {motive : NodeId → Prop}
    (step : ∀ id, (∀ p, t.parent? id = some p → motive p) → motive id) (id : NodeId) :
    motive id := by
  induction hk : (reached (t.parent? · = some ·) t.size id).card using Nat.strong_induction_on
    generalizing id with
  | _ k ih =>
    apply step
    intro p hp
    exact ih _ (hk ▸ card_reached_lt h.parent_acyclic (r := (t.parent? · = some ·)) hp
      (h.parent_lt hp)) p rfl

theorem top_of_parent {id p : NodeId} (hp : t.parent? id = some p) : t.top id = t.top p := by
  rw [top, h.ancestors_of_parent hp, top]
  cases t.ancestors p <;> simp [List.getLast?_cons]

omit h in
theorem top_of_root {id : NodeId} (hp : t.parent? id = none) : t.top id = id := by
  simp [top, ancestors_of_root hp]

theorem top_covers (id : NodeId) : t.Covers (t.top id) id := by
  induction id using h.upward_induction with
  | step id ih =>
    cases hp : t.parent? id with
    | none =>
      rw [top_of_root hp]
      exact .refl
    | some p =>
      rw [h.top_of_parent hp]
      exact (ih p hp).tail (h.child_iff.mpr hp)

theorem parent_top (id : NodeId) : t.parent? (t.top id) = none := by
  induction id using h.upward_induction with
  | step id ih =>
    cases hp : t.parent? id with
    | none => rw [top_of_root hp, hp]
    | some p =>
      rw [h.top_of_parent hp]
      exact ih p hp

theorem top_lt {id : NodeId} (hid : id < t.size) : t.top id < t.size := by
  rcases ReflTransGen.cases_head (h.top_covers id) with he | ⟨_, hc, _⟩
  · rwa [he]
  · exact hc.lt_size

/-- The nodes above a node lie on one path. -/
theorem covers_total {a b x : NodeId} (ha : t.Covers a x) (hb : t.Covers b x) :
    t.Covers a b ∨ t.Covers b a := by
  have hu : Relator.RightUnique (Function.swap t.Child) := fun _ _ _ hp hq =>
    h.parent_unique hp hq
  rcases ReflTransGen.total_of_right_unique hu (reflTransGen_swap.mpr ha)
    (reflTransGen_swap.mpr hb) with hab | hba
  · exact .inr (reflTransGen_swap.mp hab)
  · exact .inl (reflTransGen_swap.mp hba)

/-- A topmost node covers all that is connected to it. -/
theorem covers_of_top {a x : NodeId} (ha : t.Covers a x) : t.Covers (t.top x) a := by
  rcases h.covers_total ha (h.top_covers x) with hat | hta
  · rcases hat.cases_tail with he | ⟨p, _, hc⟩
    · exact he ▸ .refl
    · rw [h.child_iff, h.parent_top] at hc
      cases hc
  · exact hta

theorem head_acyclic (a : NodeId) : ¬ TransGen (t.head? · = some ·) a a := fun hc =>
  h.acyclic a (TransGen.mono (fun _ _ => child_of_head) _ _ hc)

theorem headChain_of_head {id m : NodeId} (hm : t.head? id = some m) :
    t.headChain id = m :: t.headChain m := by
  simp only [headChain, headsFrom_eq_follow]
  exact follow_of_some h.head_acyclic (fun _ _ hh => h.descending.child_lt (child_of_head hh)) hm

omit h in
theorem headChain_of_none {id : NodeId} (hm : t.head? id = none) : t.headChain id = [] := by
  simp only [headChain, headsFrom_eq_follow]
  exact follow_of_none hm

theorem mem_headChain {id x : NodeId} :
    x ∈ t.headChain id ↔ TransGen (t.head? · = some ·) id x := by
  rw [headChain, headsFrom_eq_follow]
  exact mem_follow h.head_acyclic fun _ _ hh => h.descending.child_lt (child_of_head hh)

end Linked

theorem preorderFrom_succ (t : Tree) (depth : Nat) (id : NodeId) (pending : List NodeId) :
    t.preorderFrom (depth + 1) id pending =
      id :: (t.children id).flatMap (t.preorderFrom depth · []) ++ pending := by
  induction depth generalizing id pending with
  | zero =>
    have hf : ∀ ids : List NodeId, ids.foldr (t.preorderFrom 0) pending = pending := by
      intro ids
      induction ids with
      | nil => rfl
      | cons c ids ih => rw [List.foldr_cons, ih, preorderFrom]
    have hn : ∀ ids : List NodeId, ids.flatMap (t.preorderFrom 0 · []) = [] := by
      intro ids
      simp [preorderFrom]
    rw [preorderFrom, hf, hn]
    rfl
  | succ depth ih =>
    have hf : ∀ ids : List NodeId, ids.foldr (t.preorderFrom (depth + 1)) pending =
        ids.flatMap (t.preorderFrom (depth + 1) · []) ++ pending := by
      intro ids
      induction ids with
      | nil => rfl
      | cons c ids hc =>
        rw [List.foldr_cons, hc, List.flatMap_cons, ih c, ih c []]
        simp
    rw [preorderFrom, hf]
    rfl

namespace Descending

variable {t : Tree} (h : t.Descending)

include h

theorem preorderFrom_congr (k m : Nat) (id : NodeId)
    (hk : (reached t.Child t.size id).card < k) (hm : (reached t.Child t.size id).card < m) :
    t.preorderFrom k id [] = t.preorderFrom m id [] := by
  induction k generalizing m id with
  | zero => omega
  | succ k ih =>
    obtain ⟨m, rfl⟩ : ∃ m', m = m' + 1 := ⟨m - 1, by omega⟩
    rw [preorderFrom_succ, preorderFrom_succ]
    congr 2
    apply List.flatMap_congr
    intro c hc
    have hlt := card_reached_lt h.acyclic hc (h.child_lt hc)
    exact ih m c (by omega) (by omega)

/-- A node comes first, then the subtrees of its children from left to right. -/
theorem preorder_eq (id : NodeId) :
    t.preorder id = id :: (t.children id).flatMap t.preorder := by
  rw [preorder, preorderFrom_succ, List.append_nil]
  congr 1
  apply List.flatMap_congr
  intro c hc
  have hlt := card_reached_lt h.acyclic hc (h.child_lt hc)
  have hle := card_reached_le (r := t.Child) (n := t.size) id
  exact h.preorderFrom_congr _ _ c (by omega) (by omega)

theorem mem_preorder {id x : NodeId} : x ∈ t.preorder id ↔ t.Covers id x := by
  induction id using h.induction with
  | step id ih =>
    rw [h.preorder_eq, List.mem_cons, List.mem_flatMap, Covers, ReflTransGen.cases_head_iff]
    apply or_congr eq_comm
    apply exists_congr
    intro c
    exact and_congr_right fun hc => ih c hc

theorem mem_strict_preorder {id x : NodeId} :
    x ∈ (t.preorder id).drop 1 ↔ t.Dominates id x := by
  rw [h.preorder_eq, List.drop_one, List.tail_cons, List.mem_flatMap, Dominates,
    TransGen.head'_iff]
  apply exists_congr
  intro c
  exact and_congr_right fun _ => h.mem_preorder

theorem leaves_of_leaf {id : NodeId} (hl : t.isLeaf id = true) : t.leaves id = [id] := by
  have hc : t.children id = [] := List.isEmpty_iff.mp hl
  simp [leaves, h.preorder_eq id, hc, hl]

theorem leaves_of_inner {id : NodeId} (hl : t.isLeaf id = false) :
    t.leaves id = (t.children id).flatMap t.leaves := by
  rw [leaves, h.preorder_eq id, List.filter_cons_of_neg (by simp [hl]), List.filter_flatMap]
  rfl

theorem mem_leaves {id x : NodeId} :
    x ∈ t.leaves id ↔ t.Covers id x ∧ t.isLeaf x = true := by
  rw [leaves, List.mem_filter, h.mem_preorder]

end Descending

theorem visit_of_lt {t : Tree} {id : NodeId} (h : id < t.size) : t.visit id = .ok id := by
  obtain ⟨n, hn⟩ := lt_size_iff.mp h
  simp [visit, get, hn, Except.map]

theorem visitAll_of_lt {t : Tree} {ids : List NodeId} (h : ∀ id ∈ ids, id < t.size) :
    t.visitAll ids = .ok ids := by
  induction ids with
  | nil => rfl
  | cons id ids ih =>
    obtain ⟨hid, hids⟩ := List.forall_mem_cons.mp h
    have ht : ids.mapM t.visit = .ok ids := ih hids
    rw [visitAll, List.mapM_cons, visit_of_lt hid]
    simp [bind, Except.bind, ht, pure, Except.pure]

end TreeQuery.Tree
