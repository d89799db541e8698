import TreeQuery.Proofs.Tree.Components
import TreeQuery.Proofs.Tree.Forests
import TreeQuery.Proofs.Tree.Preorder

namespace TreeQuery.Tree

open Relation

/-- The subtree of `id` in pre-order, but for the nodes that lie in the subtree of `cut`. -/
def preorderBut (t : Tree) (cut id : NodeId) : List NodeId :=
  (t.preorder id).filter (· ∉ t.preorder cut)

section Subtrees

variable {t t' : Tree}

/-- The listing of a subtree depends on the children within it only. -/
theorem Descending.preorder_congr (h : t.Descending) (h' : t'.Descending) {id : NodeId}
    (hchildren : ∀ x, t.Covers id x → t'.children x = t.children x) :
    t'.preorder id = t.preorder id := by
  induction id using h.induction with
  | step id ih =>
    rw [h'.preorder_eq, h.preorder_eq, hchildren id .refl]
    congr 1
    apply List.flatMap_congr
    intro c hc
    exact ih c hc fun x hx => hchildren x (.head hc hx)

/-- Where one child is picked out, its subtree stands between those of the others. -/
theorem Descending.preorder_of_split (h : t.Descending) {id c : NodeId} {left right : List NodeId}
    (hs : t.children id = left ++ c :: right) :
    t.preorder id =
      (id :: left.flatMap t.preorder) ++ t.preorder c ++ right.flatMap t.preorder := by
  rw [h.preorder_eq, hs, List.flatMap_append, List.flatMap_cons]
  simp

/-- A subtree stands in one piece in every subtree around it. -/
theorem Descending.exists_preorder_append (h : t.Descending) {id x : NodeId}
    (hx : t.Covers id x) :
    ∃ before after, t.preorder id = before ++ t.preorder x ++ after := by
  induction hx using ReflTransGen.head_induction_on with
  | refl => exact ⟨[], [], by simp⟩
  | @head id c hc _ ih =>
    obtain ⟨before, after, hb⟩ := ih
    obtain ⟨left, right, hs⟩ := List.append_of_mem hc
    refine ⟨id :: left.flatMap t.preorder ++ before, after ++ right.flatMap t.preorder, ?_⟩
    rw [h.preorder_of_split hs, hb]
    simp

theorem preorderBut_self (t : Tree) (cut : NodeId) : t.preorderBut cut cut = [] := by
  simp [preorderBut]

theorem flatMap_filter_ne {cut : NodeId} {f g : NodeId → List NodeId} (hcut : g cut = [])
    {ids : List NodeId} (hother : ∀ id ∈ ids, id ≠ cut → f id = g id) :
    (ids.filter (· ≠ cut)).flatMap f = ids.flatMap g := by
  induction ids with
  | nil => rfl
  | cons id ids ih =>
    obtain ⟨hid, hids⟩ := List.forall_mem_cons.mp hother
    rw [List.flatMap_cons, ← ih hids]
    by_cases hne : id = cut
    · rw [hne, List.filter_cons_of_neg (by simp), hcut, List.nil_append]
    · rw [List.filter_cons_of_pos (by simpa using hne), List.flatMap_cons, hid hne]

/-- Taking a subtree out of the listing of a node outside it leaves the node, and takes it out of
the listings of the children. -/
theorem Descending.preorderBut_eq (h : t.Descending) {cut id : NodeId} (hid : ¬ t.Covers cut id) :
    t.preorderBut cut id = id :: (t.children id).flatMap (t.preorderBut cut) := by
  have hkeep : id ∉ t.preorder cut := fun hm => hid (h.mem_preorder.mp hm)
  rw [preorderBut, h.preorder_eq id, List.filter_cons_of_pos (by simpa using hkeep),
    List.filter_flatMap]
  rfl

end Subtrees

theorem Linked.top_of_covers {t : Tree} (h : t.Linked) {a x : NodeId} (hx : t.Covers a x) :
    t.top x = t.top a :=
  (h.connected_iff.mp hx.connected).symm

/-- A node with a parent is not above the top of its tree. -/
theorem Linked.not_covers_top {t : Tree} (h : t.Linked) {q id : NodeId}
    (hq : t.parent? id = some q) : ¬ t.Covers id (t.top id) := by
  intro hc
  rcases hc.cases_tail with he | ⟨x, _, hx⟩
  · have hnone := h.parent_top id
    rw [he, hq] at hnone
    cases hnone
  · rw [h.child_iff, h.parent_top] at hx
    cases hx

namespace WellFormed

variable {t t' : Tree} (h : t.WellFormed)

include h

/-- A node lies outside a subtree if its parent does, unless it is the subtree's own root. -/
theorem not_covers_child {cut p c : NodeId} (hp : ¬ t.Covers cut p) (hc : t.Child p c)
    (hne : c ≠ cut) : ¬ t.Covers cut c := by
  intro hcut
  rcases hcut.cases_tail with he | ⟨q, hq, hqc⟩
  · exact hne he
  · rw [h.linked.parent_unique hqc hc] at hq
    exact hp hq

section Unlinked

variable {new : NodeId} (hr : t.Relinked t' (fun x => (t.children x).filter (· ≠ new))
  (Function.update t.parent? new none))

include hr

/-- The subtree that is cut off stays as it is. -/
theorem preorder_of_unlinked_below {id : NodeId} (hid : t.Covers new id) :
    t'.preorder id = t.preorder id := by
  refine h.descending.preorder_congr (h.of_unlinked hr).descending fun x hx => ?_
  rw [hr.children_eq]
  exact filter_ne_of_not_mem fun hc => h.acyclic new (TransGen.tail' (hid.trans hx) hc)

/-- The others lose it from their listings. -/
theorem preorder_of_unlinked {id : NodeId} (hid : ¬ t.Covers new id) :
    t'.preorder id = t.preorderBut new id := by
  induction id using h.descending.induction with
  | step id ih =>
    rw [(h.of_unlinked hr).descending.preorder_eq, hr.children_eq,
      h.descending.preorderBut_eq hid]
    congr 1
    exact flatMap_filter_ne (t.preorderBut_self new) fun c hc hne =>
      ih c hc (h.not_covers_child hid hc hne)

end Unlinked

section Exchanged

variable {p old new : NodeId} {left right : List NodeId} (h' : t'.WellFormed)
  (hsplit : t.children p = left ++ old :: right)
  (hchildren : ∀ x, t'.children x = Function.update t.children p (left ++ new :: right) x)

include h' hchildren

/-- Where the slot is not, nothing changes. -/
theorem preorder_of_exchanged_outside {id : NodeId} (hid : ¬ t.Covers id p) :
    t'.preorder id = t.preorder id := by
  refine h.descending.preorder_congr h'.descending fun x hx => ?_
  rw [hchildren, Function.update_of_ne]
  rintro rfl
  exact hid hx

include hsplit

/-- Where the slot is, the one subtree stands in the place of the other. -/
theorem exists_preorder_of_exchanged (hnew : ¬ t.Covers new p) {id : NodeId}
    (hid : t.Covers id p) :
    ∃ before after, t.preorder id = before ++ t.preorder old ++ after ∧
      t'.preorder id = before ++ t.preorder new ++ after := by
  have houtside {c : NodeId} (hc : ¬ t.Covers c p) : t'.preorder c = t.preorder c :=
    h.preorder_of_exchanged_outside h' hchildren hc
  have houtsides (cs : List NodeId) (hcs : ∀ c ∈ cs, ¬ t.Covers c p) :
      cs.flatMap t'.preorder = cs.flatMap t.preorder :=
    List.flatMap_congr fun c hc => houtside (hcs c hc)
  induction hid using ReflTransGen.head_induction_on with
  | refl =>
    have hbelow : ∀ c ∈ left ++ old :: right, ¬ t.Covers c p := by
      intro c hc hcp
      rw [← hsplit] at hc
      exact h.acyclic p (TransGen.head' hc hcp)
    have hleft := houtsides left fun c hc => hbelow c (by simp [hc])
    have hright := houtsides right fun c hc => hbelow c (by simp [hc])
    have hsplit' : t'.children p = left ++ new :: right := by rw [hchildren, Function.update_self]
    refine ⟨p :: left.flatMap t.preorder, right.flatMap t.preorder,
      h.descending.preorder_of_split hsplit, ?_⟩
    rw [h'.descending.preorder_of_split hsplit', hleft, hright, houtside hnew]
  | @head id c hc hcp ih =>
    obtain ⟨before, after, hb, hb'⟩ := ih
    obtain ⟨left', right', hs⟩ := List.append_of_mem hc
    have hne : id ≠ p := by
      rintro rfl
      exact h.acyclic id (TransGen.head' hc hcp)
    obtain ⟨hnot, _⟩ := List.nodup_cons.mp (List.nodup_middle.mp (hs ▸ h.nodup_children id))
    have hother : ∀ d ∈ left' ++ right', ¬ t.Covers d p := by
      intro d hd hdp
      have hdid : t.Child id d := by
        rw [Child, hs]
        exact List.perm_middle.mem_iff.mpr (List.mem_cons_of_mem _ hd)
      exact hnot (h.child_eq_of_covers hdid hc hdp hcp ▸ hd)
    obtain ⟨hl, hr⟩ := List.forall_mem_append.mp hother
    have hleft := houtsides left' hl
    have hright := houtsides right' hr
    have hs' : t'.children id = left' ++ c :: right' := by
      rw [hchildren, Function.update_of_ne hne, hs]
    refine ⟨id :: left'.flatMap t.preorder ++ before, after ++ right'.flatMap t.preorder, ?_, ?_⟩
    · rw [h.descending.preorder_of_split hs, hb]
      simp
    · rw [h'.descending.preorder_of_split hs', hleft, hright, hb']
      simp

end Exchanged

/-- First the subtree is cut off, then it takes the slot: seen from a node without the slot below
it, the subtree has gone. -/
theorem preorder_away {t₁ : Tree} {p new : NodeId} {left right : List NodeId}
    (hr : t.Relinked t₁ (fun x => (t.children x).filter (· ≠ new))
      (Function.update t.parent? new none)) (h' : t'.WellFormed)
    (hchildren : ∀ x, t'.children x = Function.update t₁.children p (left ++ new :: right) x)
    {id : NodeId} (hp : ¬ t.Covers id p) (hnew : ¬ t.Covers new id) :
    t'.preorder id = t.preorderBut new id := by
  rw [(h.of_unlinked hr).preorder_of_exchanged_outside h' hchildren fun hc =>
    hp (hr.covers_of_unlinked hc), h.preorder_of_unlinked hr hnew]

/-- Seen from a node above the slot, the subtree stands there. -/
theorem exists_preorder_above {t₁ : Tree} {p old new : NodeId} {left right : List NodeId}
    (hr : t.Relinked t₁ (fun x => (t.children x).filter (· ≠ new))
      (Function.update t.parent? new none)) (h' : t'.WellFormed)
    (hsplit : t₁.children p = left ++ old :: right)
    (hchildren : ∀ x, t'.children x = Function.update t₁.children p (left ++ new :: right) x)
    (hnp : ¬ t.Covers new p) (hno : ¬ t.Covers new old) {id : NodeId} (hp : t.Covers id p) :
    ∃ before after, t.preorderBut new id = before ++ t.preorderBut new old ++ after ∧
      t'.preorder id = before ++ t.preorder new ++ after := by
  have h₁ := h.of_unlinked hr
  have hnew : ¬ t.Covers new id := fun hc => hnp (hc.trans hp)
  have hp₁ : t₁.Covers id p := by
    rw [← h₁.descending.mem_preorder, h.preorder_of_unlinked hr hnew, preorderBut,
      List.mem_filter, decide_eq_true_eq, h.descending.mem_preorder, h.descending.mem_preorder]
    exact ⟨hp, hnp⟩
  rw [← h.preorder_of_unlinked hr hnew, ← h.preorder_of_unlinked hr hno,
    ← h.preorder_of_unlinked_below hr .refl]
  exact h₁.exists_preorder_of_exchanged h' hsplit hchildren
    (fun hc => hnp (hr.covers_of_unlinked hc)) hp₁

/-- Where a subtree stands in one piece, just this piece is taken out. -/
theorem preorderBut_of_append {cut id : NodeId} {before after : List NodeId}
    (he : t.preorder id = before ++ t.preorder cut ++ after) :
    t.preorderBut cut id = before ++ after := by
  have hnodup := he ▸ h.nodup_preorder id
  rw [List.append_assoc, List.nodup_append, List.nodup_append] at hnodup
  obtain ⟨_, ⟨_, _, hafter⟩, hbefore⟩ := hnodup
  have hb : before.filter (· ∉ t.preorder cut) = before := by
    rw [List.filter_eq_self]
    intro x hx
    exact decide_eq_true fun hm => hbefore x hx x (List.mem_append_left _ hm) rfl
  have ha : after.filter (· ∉ t.preorder cut) = after := by
    rw [List.filter_eq_self]
    intro x hx
    exact decide_eq_true fun hm => hafter x hm x hx rfl
  rw [preorderBut, he, List.filter_append, List.filter_append, hb, ha]
  simp

/-- From another tree there is nothing to take out. -/
theorem preorderBut_of_top_ne {cut id : NodeId} (hne : t.top id ≠ t.top cut) :
    t.preorderBut cut id = t.preorder id := by
  rw [preorderBut, List.filter_eq_self]
  intro x hx
  rw [decide_eq_true_eq, h.descending.mem_preorder]
  intro hc
  rw [h.descending.mem_preorder] at hx
  exact hne ((h.linked.top_of_covers hx).symm.trans (h.linked.top_of_covers hc))

end WellFormed

/-- What it means that `new` has taken the place of `old` below `p`. In the tree of `p` the subtree
of `new` has left the order, and then stands where what is left of the subtree of `old` stood; a
tree that it came from has lost it, and no other tree has changed. -/
structure Transplanted (t t' : Tree) (p old new : NodeId) : Prop where
  root_eq : t'.root = t.root
  self_eq : ∀ x, (t'.get? x).map Node.self = (t.get? x).map Node.self
  remains : t.preorderBut new old ≠ []
  receiving : ∃ before after,
    t.preorderBut new (t.top p) = before ++ t.preorderBut new old ++ after ∧
      t'.preorder (t.top p) = before ++ t.preorder new ++ after
  old_eq : t'.preorder old = t.preorderBut new old
  giving : ∀ q, t.parent? new = some q → t.top new ≠ t.top p → ∃ before after,
    t.preorder (t.top new) = before ++ t.preorder new ++ after ∧
      t'.preorder (t.top new) = before ++ after
  elsewhere : ∀ x, t.top x ≠ t.top p → t.top x ≠ t.top new → t'.preorder x = t.preorder x

theorem WellFormed.exists_transplanted {t : Tree} (h : t.WellFormed) {p old new : NodeId}
    (hold : t.Child p old) (hnew : new < t.size) (hne : new ≠ old) (hnp : ¬ t.Covers new p) :
    ∃ t', t.replaceChild p old new = .ok (t', true) ∧ t.Transplanted t' p old new := by
  obtain ⟨t₁, t', slot, ht', hr₁, hslot, hr⟩ := h.replaceChild_eq hold hnew hne
  obtain ⟨_, _, ht'', h'⟩ := h.exists_replaceChild hnew hne hnp
  rw [ht'] at ht''
  cases ht''
  obtain ⟨hlt, hat⟩ := List.getElem?_eq_some_iff.mp hslot
  obtain ⟨left, right, hsplit, _, hset⟩ : ∃ left right, t₁.children p = left ++ _ :: right ∧
      left.length = slot ∧ (t₁.children p).set slot new = left ++ new :: right :=
    List.exists_of_set hlt
  rw [hat] at hsplit
  rw [hset] at hr
  have hno : ¬ t.Covers new old := h.not_covers_child hnp hold hne.symm
  have haway {x : NodeId} (hp : ¬ t.Covers x p) (hx : ¬ t.Covers new x) :
      t'.preorder x = t.preorderBut new x :=
    h.preorder_away hr₁ h' hr.children_eq hp hx
  have htop {x y : NodeId} (hc : t.Covers x y) : t.top y = t.top x := h.linked.top_of_covers hc
  refine ⟨t', ht', (hr₁.trans hr).root_eq, (hr₁.trans hr).self_eq, ?_, ?_, ?_, ?_, ?_⟩
  · rw [h.descending.preorderBut_eq hno]
    exact List.cons_ne_nil _ _
  · exact h.exists_preorder_above hr₁ h' hsplit hr.children_eq hnp hno (h.linked.top_covers p)
  · exact haway (fun hc => h.acyclic p (TransGen.head' hold hc)) hno
  · intro q hq hother
    have hcovers := h.linked.top_covers new
    obtain ⟨before, after, he⟩ := h.descending.exists_preorder_append hcovers
    refine ⟨before, after, he, ?_⟩
    rw [haway (fun hc => hother ((htop hcovers).trans (htop hc).symm))
      (h.linked.not_covers_top hq), h.preorderBut_of_append he]
  · intro x hp hx
    rw [haway (fun hc => hp (htop hc).symm) fun hc => hx (htop hc),
      h.preorderBut_of_top_ne hx]

/-- A node that is put in the place of a child, and is not above it, is transplanted there, wherever
it stood before. If there is no such child, nothing happens. -/
theorem replaceChild_transplants {t : Tree} (h : t.WellFormed) (p old new : NodeId) :
    (t.Child p old → new < t.size → new ≠ old → new ≠ p → new ∉ t.ancestors p →
      ∃ t', t.replaceChild p old new = .ok (t', true) ∧ t.Transplanted t' p old new) ∧
    (t.size ≤ p ∨ ¬ t.Child p old → t.replaceChild p old new = .ok (t, false)) := by
  refine ⟨fun hold hnew hne hnp hanc =>
    h.exists_transplanted hold hnew hne (h.linked.not_covers hnp hanc), fun hnot => ?_⟩
  have hold : ¬ t.Child p old := by
    rcases hnot with hp | hold
    · exact fun hc => Nat.not_lt.mpr hp hc.lt_size
    · exact hold
  rw [replaceChild, List.idxOf?_eq_none_iff.mpr hold]

/-- The noun takes the place of the noun phrase that it is in. -/
theorem replaceChild_transplants_noun :
    sentence.WellFormed ∧
      (∃ t', sentence.replaceChild 0 1 3 = .ok (t', true) ∧
        sentence.Transplanted t' 0 1 3) ∧
      sentence.replaceChild 4 1 3 = .ok (sentence, false) :=
  have hchild : 1 ∈ sentence.children 0 := by decide
  have hnot : 1 ∉ sentence.children 4 := by decide
  ⟨sentence_wellFormed,
    (replaceChild_transplants sentence_wellFormed 0 1 3).1 hchild (by decide) (by decide)
      (by decide) (by decide),
    (replaceChild_transplants sentence_wellFormed 4 1 3).2 (.inr hnot)⟩

end TreeQuery.Tree
