import Mathlib.Data.List.Nodup
import Mathlib.Logic.Function.Basic
import TreeQuery.Proofs.Tree.Links
import TreeQuery.Tree.Edit

namespace TreeQuery

/-- What stays of a node whatever happens to its links. -/
def Node.self (n : Node) : NodeId × Mark :=
  (n.id, n.toMark)

namespace Tree

open Relation

variable {t t' t'' : Tree}

theorem get?_modify (t : Tree) (id : NodeId) (f : Node → Node) (x : NodeId) :
    (t.modify id f).get? x = if x = id then (t.get? x).map f else t.get? x := by
  rw [modify, get?, Array.getElem?_modify]
  by_cases h : x = id
  · rw [if_pos h, if_pos h.symm]
    rfl
  · rw [if_neg h, if_neg (Ne.symm h)]
    rfl

theorem update_of_lt {id : NodeId} (h : id < t.size) (f : Node → Node) :
    t.update id f = .ok (t.modify id f) := by
  obtain ⟨n, hn⟩ := lt_size_iff.mp h
  rw [Tree.update, get, hn]
  rfl

/-- The tree `t'` has the nodes of `t` and the same root, but these children and parents. -/
structure Relinked (t t' : Tree) (children : NodeId → List NodeId)
    (parent : NodeId → Option NodeId) : Prop where
  root_eq : t'.root = t.root
  self_eq : ∀ x, (t'.get? x).map Node.self = (t.get? x).map Node.self
  children_eq : ∀ x, t'.children x = children x
  parent_eq : ∀ x, t'.parent? x = parent x

theorem Relinked.refl (t : Tree) : t.Relinked t t.children t.parent? :=
  ⟨rfl, fun _ => rfl, fun _ => rfl, fun _ => rfl⟩

theorem Relinked.trans {children children' : NodeId → List NodeId}
    {parent parent' : NodeId → Option NodeId} (h : t.Relinked t' children parent)
    (h' : t'.Relinked t'' children' parent') : t.Relinked t'' children' parent' where
  root_eq := h'.root_eq.trans h.root_eq
  self_eq x := (h'.self_eq x).trans (h.self_eq x)
  children_eq := h'.children_eq
  parent_eq := h'.parent_eq

theorem Relinked.congr {children children' : NodeId → List NodeId}
    {parent parent' : NodeId → Option NodeId} (h : t.Relinked t' children parent)
    (hchildren : ∀ x, children x = children' x) (hparent : ∀ x, parent x = parent' x) :
    t.Relinked t' children' parent' where
  root_eq := h.root_eq
  self_eq := h.self_eq
  children_eq x := (h.children_eq x).trans (hchildren x)
  parent_eq x := (h.parent_eq x).trans (hparent x)

theorem Relinked.size_eq {children : NodeId → List NodeId} {parent : NodeId → Option NodeId}
    (h : t.Relinked t' children parent) : t'.size = t.size := by
  have hlt (x : Nat) : x < t'.size ↔ x < t.size := by
    rw [lt_size_iff, lt_size_iff, ← Option.isSome_iff_exists, ← Option.isSome_iff_exists,
      ← Option.isSome_map (f := Node.self), h.self_eq, Option.isSome_map]
  exact Nat.le_antisymm (Nat.le_of_not_lt fun hl => Nat.lt_irrefl _ ((hlt _).mp hl))
    (Nat.le_of_not_lt fun hl => Nat.lt_irrefl _ ((hlt _).mpr hl))

/-- Another list of children, for one node. -/
theorem relinked_children {p : NodeId} (hp : p < t.size) (f : List NodeId → List NodeId) :
    t.Relinked (t.modify p fun n => { n with children := f n.children })
      (Function.update t.children p (f (t.children p))) t.parent? := by
  obtain ⟨n, hn⟩ := lt_size_iff.mp hp
  refine ⟨rfl, fun x => ?_, fun x => ?_, fun x => ?_⟩
  · rw [get?_modify]
    split
    · rw [Option.map_map]
      rfl
    · rfl
  · rw [Tree.children, get?_modify]
    by_cases hx : x = p
    · subst hx
      simp [hn, children_of_get hn]
    · rw [if_neg hx, Function.update_of_ne hx]
      rfl
  · rw [Tree.parent?, get?_modify]
    by_cases hx : x = p
    · subst hx
      simp [hn, parent_of_get hn]
    · rw [if_neg hx]
      rfl

/-- Another parent, for one node. -/
theorem relinked_parent {c : NodeId} (hc : c < t.size) (parent : Option NodeId) :
    t.Relinked (t.modify c fun n => { n with parent }) t.children
      (Function.update t.parent? c parent) := by
  obtain ⟨n, hn⟩ := lt_size_iff.mp hc
  refine ⟨rfl, fun x => ?_, fun x => ?_, fun x => ?_⟩
  · rw [get?_modify]
    split
    · rw [Option.map_map]
      rfl
    · rfl
  · rw [Tree.children, get?_modify]
    by_cases hx : x = c
    · subst hx
      simp [hn, children_of_get hn]
    · rw [if_neg hx]
      rfl
  · rw [Tree.parent?, get?_modify]
    by_cases hx : x = c
    · subst hx
      simp [hn]
    · rw [if_neg hx, Function.update_of_ne hx]
      rfl

theorem relinked_setParent {c p : NodeId} (hc : c < t.size) (hp : p < t.size) :
    t.Relinked (t.setParent c p) (Function.update t.children p (t.children p ++ [c]))
      (Function.update t.parent? c (some p)) := by
  have hfirst := relinked_parent hc (some p)
  have hsecond := relinked_children (hfirst.size_eq.symm ▸ hp) (· ++ [c])
  refine (hfirst.trans hsecond).congr (fun x => ?_) hfirst.parent_eq
  rw [Function.update_apply, Function.update_apply, hfirst.children_eq, hfirst.children_eq]

theorem unlink_eq {p c : NodeId} (hp : p < t.size) (hc : c < t.size) :
    ∃ t', t.unlink p c = .ok t' ∧
      t.Relinked t' (Function.update t.children p ((t.children p).filter (· ≠ c)))
        (Function.update t.parent? c none) := by
  have hfirst := relinked_children hp (List.filter (· ≠ c))
  have hc' := hfirst.size_eq.symm ▸ hc
  have hsecond := relinked_parent hc' none
  refine ⟨_, ?_, (hfirst.trans hsecond).congr hfirst.children_eq fun x => ?_⟩
  · rw [unlink, update_of_lt hp]
    exact update_of_lt hc' _
  · rw [Function.update_apply, Function.update_apply, hfirst.parent_eq]

theorem filter_ne_of_not_mem {c : NodeId} {cs : List NodeId} (h : c ∉ cs) :
    cs.filter (· ≠ c) = cs := by
  rw [List.filter_eq_self]
  intro d hd
  rw [decide_eq_true_eq]
  rintro rfl
  exact h hd

/-- A node takes a place in a list of children, and another one is left without a parent. -/
theorem place_eq {p old new : NodeId} (hp : p < t.size) (hold : old < t.size) (hnew : new < t.size)
    (children : List NodeId) :
    ∃ t₁ t', (t.setChildren p children).update new (fun n => { n with parent := some p }) = .ok t₁ ∧
      t₁.update old (fun n => { n with parent := none }) = .ok t' ∧
      t.Relinked t' (Function.update t.children p children)
        (Function.update (Function.update t.parent? new (some p)) old none) := by
  have hfirst := relinked_children hp fun _ => children
  have hnew₁ := hfirst.size_eq.symm ▸ hnew
  have hsecond := relinked_parent hnew₁ (some p)
  have hold₂ := (hfirst.trans hsecond).size_eq.symm ▸ hold
  have hthird := relinked_parent hold₂ none
  refine ⟨_, _, update_of_lt hnew₁ _, update_of_lt hold₂ _,
    (hfirst.trans (hsecond.trans hthird)).congr (fun x => ?_) fun x => ?_⟩
  · rw [hsecond.children_eq, hfirst.children_eq]
  · simp only [Function.update_apply, hsecond.parent_eq, hfirst.parent_eq]

namespace WellFormed

variable (h : t.WellFormed)

include h

theorem not_child_of_parent_none {c : NodeId} (hc : t.parent? c = none) (p : NodeId) :
    ¬ t.Child p c := by
  rw [h.linked.child_iff, hc]
  exact nofun

/-- In a forest a node that leaves its parent is in no list of children any more. -/
theorem unlinkFromParent_eq (c : NodeId) :
    ∃ t', t.unlinkFromParent c = .ok t' ∧
      t.Relinked t' (fun x => (t.children x).filter (· ≠ c))
        (Function.update t.parent? c none) := by
  -- Only the parent lists the node, so to filter every list is to filter that of the parent.
  have hkeep {x : NodeId} (hx : ¬ t.Child x c) : (t.children x).filter (· ≠ c) = t.children x :=
    filter_ne_of_not_mem hx
  cases hp : t.parent? c with
  | none =>
    refine ⟨t, by rw [unlinkFromParent, hp], (Relinked.refl t).congr (fun x => ?_) fun x => ?_⟩
    · rw [hkeep (h.not_child_of_parent_none hp x)]
    · rw [← hp, Function.update_eq_self]
  | some p =>
    have hchild : t.Child p c := h.linked.child_iff.mpr hp
    obtain ⟨t', ht', hr⟩ := unlink_eq hchild.lt_size (lt_size_of_parent hp)
    refine ⟨t', ?_, hr.congr (fun x => ?_) fun x => rfl⟩
    · rw [unlinkFromParent, hp]
      exact ht'
    · rw [Function.update_apply]
      split
      · rename_i hx
        rw [hx]
      · rename_i hx
        exact (hkeep fun hxc => hx (h.linked.parent_unique hxc hchild)).symm

/-- The new child leaves its parent, if it has one, and then takes the place of the old one. -/
theorem replaceChild_eq {p old new : NodeId} (hold : t.Child p old) (hnew : new < t.size)
    (hne : new ≠ old) :
    ∃ t₁ t' slot, t.replaceChild p old new = .ok (t', true) ∧
      t.Relinked t₁ (fun x => (t.children x).filter (· ≠ new))
        (Function.update t.parent? new none) ∧
      (t₁.children p)[slot]? = some old ∧
      t₁.Relinked t' (Function.update t₁.children p ((t₁.children p).set slot new))
        (Function.update (Function.update t₁.parent? new (some p)) old none) := by
  obtain ⟨t₁, ht₁, hr₁⟩ := h.unlinkFromParent_eq new
  have hp : p < t₁.size := hr₁.size_eq.symm ▸ hold.lt_size
  have hold₁ : old ∈ t₁.children p := by
    rw [hr₁.children_eq, List.mem_filter]
    exact ⟨hold, by simpa using hne.symm⟩
  obtain ⟨first, hfirst⟩ := Option.isSome_iff_exists.mp (List.isSome_idxOf?.mpr hold)
  obtain ⟨slot, hslot⟩ := Option.isSome_iff_exists.mp (List.isSome_idxOf?.mpr hold₁)
  obtain ⟨hlt, hat, _⟩ := List.idxOf?_eq_some_iff.mp hslot
  have hold_lt := hr₁.size_eq.symm ▸ h.descending.child_lt hold
  obtain ⟨t₂, t', ht₂, ht', hr⟩ :=
    place_eq hp hold_lt (hr₁.size_eq.symm ▸ hnew) ((t₁.children p).set slot new)
  refine ⟨t₁, t', slot, ?_, hr₁, ?_, hr⟩
  · rw [Tree.replaceChild, hfirst]
    simp only [ht₁, hslot, bind, Except.bind, Option.getD_some, if_pos hlt, ht₂, ht', pure,
      Except.pure]
  · rw [← hat]
    exact List.getElem?_eq_getElem hlt

end WellFormed

end Tree

end TreeQuery
