import TreeQuery.Proofs.Bracket.Canonical
import TreeQuery.Proofs.Tree.Relinking
import TreeQuery.Proofs.Tree.Stepwise

namespace TreeQuery

namespace Tree

open Relation

/-- One more link closes no cycle unless it leads to where it can be reached from. -/
theorem acyclic_of_link {r r' : NodeId → NodeId → Prop} {p c : NodeId}
    (acyclic : ∀ a, ¬ TransGen r a a) (hcp : ¬ ReflTransGen r c p)
    (hlink : ∀ a b, r' a b → r a b ∨ a = p ∧ b = c) : ∀ a, ¬ TransGen r' a a := by
  have key {a b : NodeId} (hab : TransGen r' a b) :
      TransGen r a b ∨ ReflTransGen r a p ∧ ReflTransGen r c b := by
    induction hab with
    | single hb =>
      rcases hlink _ _ hb with hb | ⟨rfl, rfl⟩
      · exact .inl (.single hb)
      · exact .inr ⟨.refl, .refl⟩
    | tail _ hb ih =>
      rcases ih with hab | ⟨hap, hcb⟩ <;> rcases hlink _ _ hb with hb | ⟨rfl, rfl⟩
      · exact .inl (hab.tail hb)
      · exact .inr ⟨hab.to_reflTransGen, .refl⟩
      · exact .inr ⟨hap, hcb.tail hb⟩
      · exact absurd hcb hcp
  intro a haa
  rcases key haa with haa | ⟨hap, hca⟩
  · exact acyclic a haa
  · exact hcp (hca.trans hap)

/-- To unlink a node opens no new path. -/
theorem Relinked.covers_of_unlinked {t t' : Tree} {c : NodeId}
    (hr : t.Relinked t' (fun x => (t.children x).filter (· ≠ c))
      (Function.update t.parent? c none)) {a b : NodeId} (hab : t'.Covers a b) :
    t.Covers a b := by
  refine ReflTransGen.mono (fun x y hxy => ?_) _ _ hab
  rw [Child, hr.children_eq] at hxy
  exact (List.mem_filter.mp hxy).1

namespace WellFormed

variable {t t' : Tree} (h : t.WellFormed)

include h

theorem of_relinked {children : NodeId → List NodeId} {parent : NodeId → Option NodeId}
    (hr : t.Relinked t' children parent)
    (hcount : ∀ p c, (children p).count c = if parent c = some p then 1 else 0)
    (hacyclic : ∀ a, ¬ TransGen (fun p c => c ∈ children p) a a) : t'.WellFormed where
  id_eq := by
    intro id n hn
    have hself := hr.self_eq id
    rw [hn, Option.map_some, eq_comm, Option.map_eq_some_iff] at hself
    obtain ⟨m, hm, he⟩ := hself
    rw [← h.id_eq hm]
    exact (congrArg Prod.fst he).symm
  count_child := by
    intro p c
    rw [hr.children_eq, hr.parent_eq]
    exact hcount p c
  acyclic := by
    have he : t'.Child = fun p c => c ∈ children p := by
      funext p c
      rw [Child, hr.children_eq]
    intro a ha
    rw [Dominates, he] at ha
    exact hacyclic a ha

/-- Whatever changes neither numbers nor links keeps the forest. -/
theorem of_same_links (hid : ∀ {id n}, t'.get? id = some n → n.id = id)
    (hchildren : ∀ x, t'.children x = t.children x) (hparent : ∀ x, t'.parent? x = t.parent? x) :
    t'.WellFormed where
  id_eq := hid
  count_child := by
    intro p c
    rw [hchildren, hparent]
    exact h.count_child p c
  acyclic := by
    have he : t'.Child = t.Child := by
      funext p c
      rw [Child, hchildren]
      rfl
    intro a ha
    rw [Dominates, he] at ha
    exact h.acyclic a ha

/-- Without one of its links a forest is a forest. -/
theorem of_unlinked {c : NodeId}
    (hr : t.Relinked t' (fun x => (t.children x).filter (· ≠ c))
      (Function.update t.parent? c none)) : t'.WellFormed := by
  refine h.of_relinked hr (fun p d => ?_) fun a ha => ?_
  · rw [Function.update_apply]
    by_cases hd : d = c
    · rw [if_pos hd, if_neg nofun, List.count_eq_zero, List.mem_filter, hd]
      simp
    · rw [if_neg hd, List.count_filter (by simpa using hd)]
      exact h.count_child p d
  · exact h.acyclic a (TransGen.mono (fun _ _ hm => (List.mem_filter.mp hm).1) _ _ ha)

/-- A node without a parent gets a parent that is not below it; the children of that one may change
otherwise as well. -/
theorem of_adopted {p c : NodeId} {children : List NodeId} {parent : NodeId → Option NodeId}
    (hr : t.Relinked t' (Function.update t.children p children) parent) (hcp : ¬ t.Covers c p)
    (hadopted : ∀ x ∈ children, t.Child p x ∨ x = c)
    (hcount : ∀ x, children.count x = if parent x = some p then 1 else 0)
    (hother : ∀ q x, q ≠ p → (parent x = some q ↔ t.parent? x = some q)) : t'.WellFormed := by
  refine h.of_relinked hr (fun q x => ?_) ?_
  · rw [Function.update_apply]
    by_cases hq : q = p
    · rw [if_pos hq, hq]
      exact hcount x
    · rw [if_neg hq, h.count_child]
      simp only [hother q x hq]
  · refine acyclic_of_link h.acyclic hcp fun a b hab => ?_
    rw [Function.update_apply] at hab
    split at hab
    · rename_i ha
      rw [ha]
      exact (hadopted b hab).imp_right fun hb => ⟨rfl, hb⟩
    · exact .inl hab

theorem setParent {c p : NodeId} (hc : c < t.size) (hp : p < t.size) (hnone : t.parent? c = none)
    (hcp : ¬ t.Covers c p) : (t.setParent c p).WellFormed := by
  have hnot := h.not_child_of_parent_none hnone p
  refine h.of_adopted (relinked_setParent hc hp) hcp (fun x hx => ?_) (fun x => ?_) fun q x hq => ?_
  · exact (List.mem_append.mp hx).imp_right List.mem_singleton.mp
  · rw [List.count_append, List.count_singleton, Function.update_apply]
    by_cases hx : x = c
    · rw [hx, List.count_eq_zero.mpr hnot]
      simp
    · rw [if_neg hx, h.count_child]
      simp [Ne.symm hx]
  · rw [Function.update_apply]
    by_cases hx : x = c
    · simp [hx, hnone, Ne.symm hq]
    · rw [if_neg hx]

theorem exists_detach (id : NodeId) : ∃ t', t.detach id = .ok t' ∧ t'.WellFormed := by
  obtain ⟨t₁, ht₁, hr⟩ := h.unlinkFromParent_eq id
  have h₁ : t₁.WellFormed := h.of_unlinked hr
  refine ⟨_, by rw [detach, ht₁]; rfl, ?_⟩
  split
  · exact ⟨h₁.id_eq, h₁.count_child, h₁.acyclic⟩
  · exact h₁

/-- A node without a parent takes the place of a child. -/
theorem of_exchanged {p old new : NodeId} {slot : Nat} (hnone : t.parent? new = none)
    (hcp : ¬ t.Covers new p) (hslot : (t.children p)[slot]? = some old)
    (hr : t.Relinked t' (Function.update t.children p ((t.children p).set slot new))
      (Function.update (Function.update t.parent? new (some p)) old none)) : t'.WellFormed := by
  have hold : t.parent? old = some p := h.linked.child_iff.mp (List.mem_of_getElem? hslot)
  have hne : old ≠ new := by
    rintro rfl
    rw [hnone] at hold
    cases hold
  obtain ⟨hlt, hat⟩ := List.getElem?_eq_some_iff.mp hslot
  refine h.of_adopted hr hcp (fun x hx => List.mem_or_eq_of_mem_set hx) (fun x => ?_)
    fun q x hq => ?_
  · rw [List.count_set hlt, hat, h.count_child, Function.update_apply, Function.update_apply]
    by_cases hx : x = old
    · simp [hx, hold, hne.symm]
    · by_cases hx' : x = new
      · simp [hx', hne, hne.symm, hnone]
      · simp [hx, hx', Ne.symm hx, Ne.symm hx']
  · rw [Function.update_apply, Function.update_apply]
    by_cases hx : x = old
    · simp [hx, hold, Ne.symm hq]
    · by_cases hx' : x = new
      · simp [hx', hne.symm, hnone, Ne.symm hq]
      · rw [if_neg hx, if_neg hx']

theorem exists_replaceChild {p old new : NodeId} (hnew : new < t.size) (hne : new ≠ old)
    (hcp : ¬ t.Covers new p) :
    ∃ t' done, t.replaceChild p old new = .ok (t', done) ∧ t'.WellFormed := by
  by_cases hold : t.Child p old
  · obtain ⟨t₁, t', slot, ht', hr₁, hslot, hr⟩ := h.replaceChild_eq hold hnew hne
    have hnone : t₁.parent? new = none := by rw [hr₁.parent_eq, Function.update_self]
    have hcp₁ : ¬ t₁.Covers new p := fun hc => hcp (hr₁.covers_of_unlinked hc)
    exact ⟨t', true, ht', (h.of_unlinked hr₁).of_exchanged hnone hcp₁ hslot hr⟩
  · refine ⟨t, false, ?_, h⟩
    rw [Tree.replaceChild, List.idxOf?_eq_none_iff.mpr hold]

/-- Nodes may say something else of themselves. -/
theorem modify_mark (id : NodeId) {f : Node → Node}
    (hf : ∀ n, (f n).id = n.id ∧ (f n).children = n.children ∧ (f n).parent = n.parent) :
    (t.modify id f).WellFormed := by
  refine h.of_same_links (fun {x n} hn => ?_) (fun x => ?_) fun x => ?_
  · rw [get?_modify] at hn
    split at hn
    · obtain ⟨m, hm, rfl⟩ := Option.map_eq_some_iff.mp hn
      rw [(hf m).1, h.id_eq hm]
    · exact h.id_eq hn
  · rw [Tree.children, Tree.children, get?_modify]
    split
    · rw [Option.map_map, show Node.children ∘ f = Node.children from funext fun n => (hf n).2.1]
    · rfl
  · rw [parent?, parent?, get?_modify]
    split
    · rw [Option.bind_map, show Node.parent ∘ f = Node.parent from funext fun n => (hf n).2.2]
    · rfl

/-- A new node hangs from nothing, and nothing hangs from it. -/
theorem add (mark : Mark) : (t.add mark).WellFormed := by
  have hget (x : NodeId) :
      (t.add mark).get? x = if x = t.size then some (.loose t.size mark) else t.get? x :=
    Array.getElem?_push
  have hnone : t.get? t.size = none := Array.getElem?_eq_none (Nat.le_refl _)
  refine h.of_same_links (fun {x n} hn => ?_) (fun x => ?_) fun x => ?_
  · rw [hget] at hn
    split at hn
    · rename_i hx
      cases hn
      exact hx.symm
    · exact h.id_eq hn
  · rw [Tree.children, Tree.children, hget]
    split
    · rename_i hx
      rw [hx, hnone]
      rfl
    · rfl
  · rw [parent?, parent?, hget]
    split
    · rename_i hx
      rw [hx, hnone]
      rfl
    · rfl

theorem setRoot (id : NodeId) : (t.setRoot id).WellFormed :=
  ⟨h.id_eq, h.count_child, h.acyclic⟩

end WellFormed

end Tree

/-- A node may be hung up, if it has no parent, under one that it is not and that is not below it;
or it may take the place of another node there. Nothing is asked of the other edits. -/
def Edit.Allowed (t : Tree) : Edit → Prop
  | .setParent child parent =>
    child < t.size ∧ parent < t.size ∧ t.parent? child = none ∧
      child ≠ parent ∧ child ∉ t.ancestors parent
  | .replaceChild parent old new =>
    parent < t.size ∧ old < t.size ∧ new < t.size ∧ new ≠ old ∧
      new ≠ parent ∧ new ∉ t.ancestors parent
  | _ => True

namespace Tree

open Relation

variable {t : Tree}

theorem Linked.not_covers (h : t.Linked) {c p : NodeId} (hne : c ≠ p) (hc : c ∉ t.ancestors p) :
    ¬ t.Covers c p := by
  rw [Covers, reflTransGen_iff_eq_or_transGen]
  rintro (he | hd)
  · exact hne he.symm
  · exact hc (h.mem_ancestors.mpr hd)

/-- An allowed edit succeeds and keeps the forest. -/
theorem WellFormed.exists_apply (h : t.WellFormed) {e : Edit} (he : e.Allowed t) :
    ∃ t' answer, t.apply e = .ok (t', answer) ∧ t'.WellFormed := by
  have hmark (id : NodeId) {f : Node → Node}
      (hf : ∀ n, (f n).id = n.id ∧ (f n).children = n.children ∧ (f n).parent = n.parent) :=
    h.modify_mark id hf
  cases e with
  | addLeaf label word => exact ⟨_, _, rfl, h.add _⟩
  | addInternal label => exact ⟨_, _, rfl, h.add _⟩
  | setRoot id => exact ⟨_, _, rfl, h.setRoot id⟩
  | setParent child parent =>
    obtain ⟨hc, hp, hnone, hne, hanc⟩ := he
    exact ⟨_, _, rfl, h.setParent hc hp hnone (h.linked.not_covers hne hanc)⟩
  | setLabel id | setCategory id | setPos id | setHeadIndex id =>
    exact ⟨_, _, rfl, hmark id fun _ => ⟨rfl, rfl, rfl⟩⟩
  | replaceChild parent old new =>
    obtain ⟨_, _, hnew, hne, hnp, hanc⟩ := he
    obtain ⟨t', done, ht', h'⟩ :=
      h.exists_replaceChild hnew hne (h.linked.not_covers hnp hanc)
    exact ⟨t', .replaced done, by rw [apply, ht']; rfl, h'⟩
  | detach id =>
    obtain ⟨t', ht', h'⟩ := h.exists_detach id
    exact ⟨t', .done, by rw [apply, ht']; rfl, h'⟩

/-- A tree that was read from a text, or the empty one, after any number of allowed edits. -/
inductive Made : Tree → Prop
  | empty : Made .empty
  | parsed {text t} : Tree.parse text = .ok t → Made t
  | edited {t e t' answer} : Made t → e.Allowed t → t.apply e = .ok (t', answer) → Made t'

theorem empty_wellFormed : Tree.empty.WellFormed :=
  .of_increasing (by decide) (by decide) (by decide) (by decide)

theorem Made.wellFormed (h : t.Made) : t.WellFormed := by
  induction h with
  | empty => exact empty_wellFormed
  | parsed ht => exact wellFormed_of_ofChars (parse_eq_ok.mp ht)
  | edited _ he ht ih =>
    obtain ⟨t', answer, ht', h'⟩ := ih.exists_apply he
    rw [ht] at ht'
    cases ht'
    exact h'

/-- The walks from a node come to an end without leaving the arena, and the one through its subtree
meets no node twice. -/
structure WalksEnd (t : Tree) (id : NodeId) : Prop where
  ancestors : Ends t.parentStep id (t.ancestors id)
  parent_top : t.parent? (t.top id) = none
  headChain : Ends t.headStep id (t.headChain id)
  preorder : Ends t.preorderStep [id] (t.preorder id)
  nodup_preorder : (t.preorder id).Nodup

theorem WellFormed.walksEnd (h : t.WellFormed) {id : NodeId} (hid : id < t.size) :
    t.WalksEnd id where
  ancestors := h.linked.ends_ancestors id
  parent_top := h.linked.parent_top id
  headChain := h.linked.ends_headChain hid
  preorder := h.descending.ends_preorder hid
  nodup_preorder := h.nodup_preorder id

/-- Whatever allowed edits have been made, the arena is a forest with no link that leads out of it,
all walks end, and whatever edit is allowed next succeeds. -/
theorem forest_of_made (h : t.Made) :
    t.WellFormed ∧ (∀ p c, t.Child p c → p < t.size ∧ c < t.size) ∧
      (∀ p c, t.parent? c = some p → p < t.size ∧ c < t.size) ∧
      (∀ id < t.size, t.WalksEnd id) ∧
      ∀ e : Edit, e.Allowed t → ∃ t' answer, t.apply e = .ok (t', answer) ∧ t'.Made := by
  have hwf := h.wellFormed
  refine ⟨hwf, fun p c hc => ⟨hc.lt_size, hwf.descending.child_lt hc⟩,
    fun p c hp => ⟨hwf.linked.parent_lt hp, lt_size_of_parent hp⟩, fun id hid => hwf.walksEnd hid,
    fun e he => ?_⟩
  obtain ⟨t', answer, ht', _⟩ := hwf.exists_apply he
  exact ⟨t', answer, ht', .edited h he ht'⟩

def grown : Tree where
  nodes := #[
    ⟨.bare "A", 0, none, [1, 4]⟩,
    ⟨.bare "B", 1, some 0, [2, 3]⟩,
    ⟨⟨"D", some "d", none, none, none⟩, 2, some 1, []⟩,
    ⟨⟨"E", some "e", none, none, none⟩, 3, some 1, []⟩,
    ⟨⟨"C", some "c", none, none, none⟩, 4, some 0, []⟩]
  root := some 0

/-- Here `E` took the place of `B`, which was then hung up below `C`, and `C` took the place of
`E`. -/
def regrown : Tree where
  nodes := #[
    ⟨.bare "A", 0, none, [4]⟩,
    ⟨.bare "B", 1, some 4, [2]⟩,
    ⟨⟨"D", some "d", none, none, none⟩, 2, some 1, []⟩,
    ⟨⟨"E", some "e", none, none, none⟩, 3, none, []⟩,
    ⟨⟨"C", some "c", none, none, none⟩, 4, some 0, [1]⟩]
  root := some 0

theorem regrown_made : regrown.Made := by
  have hparse : Tree.parse "(A (B (D d) (E e)) (C c))" = .ok grown := by cbv
  have h₁ := (Made.parsed hparse).edited (e := .replaceChild 0 1 3)
    ⟨by decide, by decide, by decide, by decide, by decide, by decide⟩ rfl
  have h₂ := h₁.edited (e := .setParent 1 4)
    ⟨by decide, by decide, by decide, by decide, by decide⟩ rfl
  exact h₂.edited (e := .replaceChild 0 3 4)
    ⟨by decide, by decide, by decide, by decide, by decide, by decide⟩ rfl

theorem forest_of_made_regrown :
    regrown.Made ∧ regrown.WellFormed ∧
      (∀ p c, regrown.Child p c → p < regrown.size ∧ c < regrown.size) ∧
      (∀ p c, regrown.parent? c = some p → p < regrown.size ∧ c < regrown.size) ∧
      (∀ id < regrown.size, regrown.WalksEnd id) ∧
      ∀ e : Edit, e.Allowed regrown →
        ∃ t' answer, regrown.apply e = .ok (t', answer) ∧ t'.Made :=
  ⟨regrown_made, forest_of_made regrown_made⟩

end Tree

end TreeQuery
