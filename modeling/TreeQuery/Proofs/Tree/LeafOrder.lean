import Mathlib.Data.List.Pairwise
import TreeQuery.Proofs.Tree.Walks
import TreeQuery.Pattern.Relation

namespace TreeQuery.Tree

open Relation

/-- `x` lies to the left of `y`. -/
def Before (t : Tree) (x y : NodeId) : Prop :=
  ∃ (a : NodeId) (i j : Nat) (c d : NodeId), i < j ∧ (t.children a)[i]? = some c ∧
    (t.children a)[j]? = some d ∧ t.Covers c x ∧ t.Covers d y

/-- The leaves to the right of `leaf` in its tree. -/
def leavesAfter (t : Tree) (leaf : NodeId) : List NodeId :=
  ((t.leaves (t.top leaf)).dropWhile (· ≠ leaf)).drop 1

/-- A list is cut in two at the first place of a member. -/
theorem split_at {ids : List NodeId} {id : NodeId} (h : id ∈ ids) :
    ids = ids.takeWhile (· ≠ id) ++ id :: (ids.dropWhile (· ≠ id)).drop 1 := by
  induction ids with
  | nil => simp at h
  | cons a ids ih =>
    by_cases ha : a = id
    · simp [ha]
    · have hm : id ∈ ids := (List.mem_cons.mp h).resolve_left (Ne.symm ha)
      simpa [ha] using ih hm

theorem steps_of_lt {t : Tree} {ids : List NodeId} (h : ∀ id ∈ ids, id < t.size) :
    t.steps ids = ids.map .ok :=
  List.map_congr_left fun id hid => visit_of_lt (h id hid)

theorem Before.exists_above {t : Tree} {x y : NodeId} (hxy : t.Before x y) :
    ∃ a, t.Covers a x ∧ t.Covers a y := by
  obtain ⟨a, i, j, c, d, _, hi, hj, hcx, hdy⟩ := hxy
  exact ⟨a, .head (List.mem_of_getElem? hi) hcx, .head (List.mem_of_getElem? hj) hdy⟩

theorem Before.lt_size {t : Tree} (h : t.Descending) {x y : NodeId} (hxy : t.Before x y) :
    x < t.size := by
  obtain ⟨a, i, j, c, d, _, hi, _, hcx, _⟩ := hxy
  exact hcx.lt_size h (h.child_lt (List.mem_of_getElem? hi))

/-- The leaves of a subtree are listed from left to right. -/
theorem Descending.pairwise_leaves {t : Tree} (h : t.Descending) (id : NodeId) :
    (t.leaves id).Pairwise t.Before := by
  induction id using h.induction with
  | step id ih =>
    cases hl : t.isLeaf id with
    | true => simp [h.leaves_of_leaf hl]
    | false =>
      rw [h.leaves_of_inner hl, List.pairwise_flatMap]
      refine ⟨ih, List.pairwise_iff_getElem.mpr ?_⟩
      intro i j hi hj hij x hx y hy
      exact ⟨id, i, j, _, _, hij, List.getElem?_eq_getElem hi, List.getElem?_eq_getElem hj,
        (h.mem_leaves.mp hx).1, (h.mem_leaves.mp hy).1⟩

namespace WellFormed

variable {t : Tree} (h : t.WellFormed)

include h

/-- Different children of one node have no node below them in common. -/
theorem child_eq_of_covers {a c d x : NodeId} (hc : t.Child a c) (hd : t.Child a d)
    (hcx : t.Covers c x) (hdx : t.Covers d x) : c = d := by
  have key : ∀ {c d}, t.Child a c → t.Child a d → t.Covers c d → c = d := by
    intro c d hc hd hcd
    rcases hcd.cases_tail with he | ⟨p, hcp, hp⟩
    · exact he.symm
    · rw [h.linked.parent_unique hp hd] at hcp
      exact absurd (TransGen.head' hc hcp) (h.acyclic a)
  rcases h.linked.covers_total hcx hdx with hcd | hdc
  · exact key hc hd hcd
  · exact (key hd hc hdc).symm

theorem place_unique {a c : NodeId} {i j : Nat} (hi : (t.children a)[i]? = some c)
    (hj : (t.children a)[j]? = some c) : i = j :=
  (List.getElem?_inj (List.getElem?_eq_some_iff.mp hi).1 (h.nodup_children a)).mp
    (hi.trans hj.symm)

theorem before_irrefl (x : NodeId) : ¬ t.Before x x := by
  rintro ⟨a, i, j, c, d, hij, hi, hj, hcx, hdx⟩
  have hcd := h.child_eq_of_covers (List.mem_of_getElem? hi) (List.mem_of_getElem? hj) hcx hdx
  have := h.place_unique hi (hcd ▸ hj)
  omega

/-- What lies between `a` and a node below its child `d` lies below `d` as well. -/
theorem covers_of_dominates {a b d x : NodeId} (hd : t.Child a d) (hdx : t.Covers d x)
    (hab : t.Dominates a b) (hbx : t.Covers b x) : t.Covers d b := by
  obtain ⟨e, he, heb⟩ := TransGen.head'_iff.mp hab
  rwa [h.child_eq_of_covers hd he hdx (heb.trans hbx)]

theorem before_trans {x y z : NodeId} (hxy : t.Before x y) (hyz : t.Before y z) :
    t.Before x z := by
  obtain ⟨a, i, j, c, d, hij, hi, hj, hcx, hdy⟩ := hxy
  obtain ⟨b, k, l, e, f, hkl, hk, hl, hey, hfz⟩ := hyz
  have hc : t.Child a c := List.mem_of_getElem? hi
  have hd : t.Child a d := List.mem_of_getElem? hj
  have he : t.Child b e := List.mem_of_getElem? hk
  have hf : t.Child b f := List.mem_of_getElem? hl
  -- `x` and `y` part at `a`, `y` and `z` at `b`; the upper one of the two parts `x` and `z`
  by_cases hab : a = b
  · subst hab
    have hde : d = e := h.child_eq_of_covers hd he hdy hey
    have hjk : j = k := h.place_unique hj (hde ▸ hk)
    exact ⟨a, i, l, c, f, by omega, hi, hl, hcx, hfz⟩
  rcases h.linked.covers_total (.head hd hdy) (.head he hey) with hcov | hcov
  · have hdom := (reflTransGen_iff_eq_or_transGen.mp hcov).resolve_left (Ne.symm hab)
    have hdb : t.Covers d b := h.covers_of_dominates hd hdy hdom (.head he hey)
    exact ⟨a, i, j, c, d, hij, hi, hj, hcx, hdb.trans (.head hf hfz)⟩
  · have hdom := (reflTransGen_iff_eq_or_transGen.mp hcov).resolve_left hab
    have hea : t.Covers e a := h.covers_of_dominates he hey hdom (.head hd hdy)
    exact ⟨b, k, l, e, f, hkl, hk, hl, hea.trans (.head hc hcx), hfz⟩

theorem before_asymm {x y : NodeId} (hxy : t.Before x y) : ¬ t.Before y x :=
  fun hyx => h.before_irrefl x (h.before_trans hxy hyx)

/-- Of two leaves of a tree one lies to the left of the other. -/
theorem before_total {x y : NodeId} (hx : t.isLeaf x = true) (hy : t.isLeaf y = true)
    (htop : t.top x = t.top y) (hne : x ≠ y) : t.Before x y ∨ t.Before y x := by
  have hmx : x ∈ t.leaves (t.top x) := h.descending.mem_leaves.mpr ⟨h.linked.top_covers x, hx⟩
  have hmy : y ∈ t.leaves (t.top x) := by
    rw [htop]
    exact h.descending.mem_leaves.mpr ⟨h.linked.top_covers y, hy⟩
  have hpairs : (t.leaves (t.top x)).Pairwise fun a b => t.Before a b ∨ t.Before b a :=
    (h.descending.pairwise_leaves _).imp .inl
  have : Std.Symm fun a b => t.Before a b ∨ t.Before b a := ⟨fun _ _ => Or.symm⟩
  exact hpairs.forall hmx hmy hne

theorem leaves_split {x : NodeId} (hx : t.isLeaf x = true) :
    t.leaves (t.top x) =
      (t.leaves (t.top x)).takeWhile (· ≠ x) ++ x :: t.leavesAfter x :=
  split_at (h.descending.mem_leaves.mpr ⟨h.linked.top_covers x, hx⟩)

theorem pairwise_leavesAfter {x : NodeId} (hx : t.isLeaf x = true) :
    (t.leavesAfter x).Pairwise t.Before := by
  have hp := h.descending.pairwise_leaves (t.top x)
  rw [h.leaves_split hx, List.pairwise_append] at hp
  exact (List.pairwise_cons.mp hp.2.1).2

/-- The leaves after a leaf are exactly the leaves to its right. -/
theorem mem_leavesAfter {x y : NodeId} (hx : t.isLeaf x = true) :
    y ∈ t.leavesAfter x ↔ t.isLeaf y = true ∧ t.Before x y := by
  have hp := h.descending.pairwise_leaves (t.top x)
  have hm : y ∈ t.leaves (t.top x) ↔ y ∈ (t.leaves (t.top x)).takeWhile (· ≠ x) ∨
      y = x ∨ y ∈ t.leavesAfter x := by
    conv_lhs => rw [h.leaves_split hx]
    simp
  rw [h.leaves_split hx, List.pairwise_append] at hp
  constructor
  · intro hy
    exact ⟨(h.descending.mem_leaves.mp (hm.mpr (.inr (.inr hy)))).2,
      (List.pairwise_cons.mp hp.2.1).1 y hy⟩
  · rintro ⟨hl, hxy⟩
    obtain ⟨a, hax, hay⟩ := hxy.exists_above
    have hy := h.descending.mem_leaves.mpr ⟨(h.linked.covers_of_top hax).trans hay, hl⟩
    rcases hm.mp hy with hbefore | he | hafter
    · exact absurd (hp.2.2 y hbefore x List.mem_cons_self) (h.before_asymm hxy)
    · exact absurd (he ▸ hxy) (h.before_irrefl x)
    · exact hafter

/-- The first leaf after a leaf is the one with no leaf in between. -/
theorem mem_take_leavesAfter {x y : NodeId} (hx : t.isLeaf x = true) :
    y ∈ (t.leavesAfter x).take 1 ↔ t.isLeaf y = true ∧ t.Before x y ∧
      ∀ w, t.isLeaf w = true → t.Before x w → ¬ t.Before w y := by
  have hm := fun y => h.mem_leavesAfter (y := y) hx
  have hp := h.pairwise_leavesAfter hx
  cases hl : t.leavesAfter x with
  | nil =>
    simp only [List.take_nil, List.not_mem_nil, false_iff]
    rintro ⟨hy, hxy, _⟩
    have := (hm y).mpr ⟨hy, hxy⟩
    simp [hl] at this
  | cons z rest =>
    rw [hl] at hm hp
    obtain ⟨hz, hr⟩ := List.pairwise_cons.mp hp
    simp only [List.take_succ_cons, List.take_zero, List.mem_singleton]
    constructor
    · rintro rfl
      obtain ⟨hy, hxy⟩ := (hm y).mp List.mem_cons_self
      refine ⟨hy, hxy, ?_⟩
      intro w hw hxw hwy
      rcases List.mem_cons.mp ((hm w).mpr ⟨hw, hxw⟩) with rfl | hwr
      · exact h.before_irrefl w hwy
      · exact h.before_asymm (hz w hwr) hwy
    · rintro ⟨hy, hxy, hnone⟩
      obtain ⟨hzl, hxz⟩ := (hm z).mp List.mem_cons_self
      rcases List.mem_cons.mp ((hm y).mpr ⟨hy, hxy⟩) with he | hyr
      · exact he
      · exact absurd (hz y hyr) (hnone z hzl hxz)

end WellFormed

theorem Linked.mem_leavesAfter_covers {t : Tree} (h : t.Linked) {x y : NodeId}
    (hy : y ∈ t.leavesAfter x) : t.Covers (t.top x) y := by
  have hm : y ∈ t.leaves (t.top x) :=
    List.dropWhile_subset _ (List.drop_subset _ _ hy)
  exact (h.descending.mem_leaves.mp hm).1

theorem Linked.laterLeaves_eq {t : Tree} (h : t.Linked) {x : NodeId} (hlt : x < t.size) :
    t.laterLeaves x = (t.leavesAfter x).map .ok := by
  have hbefore : ∀ y ∈ (t.leaves (t.top x)).takeWhile (· ≠ x), y < t.size := fun y hy =>
    (h.descending.mem_leaves.mp (List.takeWhile_subset _ hy)).1.lt_size h.descending (h.top_lt hlt)
  have hafter : ∀ y ∈ t.leavesAfter x, y < t.size := fun y hy =>
    (h.mem_leavesAfter_covers hy).lt_size h.descending (h.top_lt hlt)
  simp only [laterLeaves, visitAll_of_lt hbefore]
  exact steps_of_lt hafter

end TreeQuery.Tree
