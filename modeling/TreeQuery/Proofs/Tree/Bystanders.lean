import TreeQuery.Proofs.Tree.Relinking
import TreeQuery.Proofs.Tree.Walks

namespace TreeQuery.Tree

/-- Every node but these two has the parent that it had, and stands among the others in the order in
which it stood. -/
structure KeepsOthers (t t' : Tree) (old new : NodeId) : Prop where
  parent_eq : ∀ x, x ≠ old → x ≠ new → t'.parent? x = t.parent? x
  children_eq : ∀ q, (t'.children q).filter (fun c => c ≠ old ∧ c ≠ new) =
    (t.children q).filter fun c => c ≠ old ∧ c ≠ new

theorem KeepsOthers.refl (t : Tree) (old new : NodeId) : t.KeepsOthers t old new :=
  ⟨fun _ _ _ => rfl, fun _ => rfl⟩

/-- Which of the two stands in a slot does not matter to the others. -/
theorem filter_set_of_getElem? {cs : List NodeId} {slot : Nat} {old new : NodeId}
    (h : cs[slot]? = some old) :
    (cs.set slot new).filter (fun c => c ≠ old ∧ c ≠ new) =
      cs.filter fun c => c ≠ old ∧ c ≠ new := by
  obtain ⟨hlt, hat⟩ := List.getElem?_eq_some_iff.mp h
  obtain ⟨left, right, hsplit, _, hset⟩ : ∃ left right, cs = left ++ _ :: right ∧
      left.length = slot ∧ cs.set slot new = left ++ new :: right := List.exists_of_set hlt
  rw [hset, hsplit, hat, List.filter_append, List.filter_append,
    List.filter_cons_of_neg (by simp), List.filter_cons_of_neg (by simp)]

namespace WellFormed

variable {t : Tree} (h : t.WellFormed)

include h

/-- Neither leaving a list nor entering one in the place of another moves a third node. -/
theorem exists_keepsOthers {p old new : NodeId} (hold : t.Child p old) (hnew : new < t.size)
    (hne : new ≠ old) :
    ∃ t', t.replaceChild p old new = .ok (t', true) ∧ t.KeepsOthers t' old new := by
  obtain ⟨t₁, t', slot, ht', hr₁, hslot, hr⟩ := h.replaceChild_eq hold hnew hne
  have hleft (q : NodeId) : (t₁.children q).filter (fun c => c ≠ old ∧ c ≠ new) =
      (t.children q).filter fun c => c ≠ old ∧ c ≠ new := by
    rw [hr₁.children_eq, List.filter_filter]
    apply List.filter_congr
    intro c _
    by_cases hc : c = new <;> simp [hc]
  refine ⟨t', ht', fun x hxo hxn => ?_, fun q => ?_⟩
  · rw [hr.parent_eq, Function.update_of_ne hxo, Function.update_of_ne hxn, hr₁.parent_eq,
      Function.update_of_ne hxn]
  · rw [hr.children_eq, ← hleft, Function.update_apply]
    split
    · rename_i hq
      rw [filter_set_of_getElem? hslot, hq]
    · rfl

/-- A child that is put in its own place leaves the list first. Then it takes the place of the
sibling that came after it, and the last child finds no place any more. -/
theorem replaceChild_self {p c : NodeId} (hc : t.Child p c) :
    ∃ left right, t.children p = left ++ c :: right ∧ match right with
      | [] => t.replaceChild p c c = .error (.noSlot p left.length)
      | _ :: others => ∃ t', t.replaceChild p c c = .ok (t', true) ∧
          t'.children p = left ++ c :: others := by
  obtain ⟨left, right, hsplit⟩ := List.append_of_mem hc
  obtain ⟨hnot, _⟩ := List.nodup_cons.mp (List.nodup_middle.mp (hsplit ▸ h.nodup_children p))
  obtain ⟨hnotLeft, hnotRight⟩ := not_or.mp (fun hm => hnot (List.mem_append.mpr hm))
  have hslot : (left ++ c :: right).idxOf? c = some left.length := by
    refine List.idxOf?_eq_some_iff.mpr ⟨by simp, by simp, fun i hi => ?_⟩
    rw [List.getElem_append_left hi]
    exact fun he => hnotLeft (he ▸ List.getElem_mem hi)
  obtain ⟨t₁, ht₁, hr₁⟩ := h.unlinkFromParent_eq c
  have hleft : t₁.children p = left ++ right := by
    rw [hr₁.children_eq, hsplit, List.filter_append, List.filter_cons_of_neg (by simp),
      filter_ne_of_not_mem hnotLeft, filter_ne_of_not_mem hnotRight]
  have hnone : (left ++ right).idxOf? c = none := List.idxOf?_eq_none_iff.mpr hnot
  have hlt := hr₁.size_eq.symm ▸ h.descending.child_lt hc
  refine ⟨left, right, hsplit, ?_⟩
  cases right with
  | nil =>
    rw [Tree.replaceChild, hsplit, hslot]
    simp only [ht₁, hleft, hnone, bind, Except.bind, Option.getD_none]
    rw [if_neg (by simp)]
    rfl
  | cons next others =>
    obtain ⟨t₂, t', ht₂, ht', hr⟩ :=
      place_eq (hr₁.size_eq.symm ▸ hc.lt_size) hlt hlt ((left ++ next :: others).set left.length c)
    refine ⟨t', ?_, ?_⟩
    · rw [Tree.replaceChild, hsplit, hslot]
      simp only [ht₁, hleft, hnone, bind, Except.bind, Option.getD_none]
      rw [if_pos (by simp), ht₂]
      simp only [ht', pure, Except.pure]
    · rw [hr.children_eq, Function.update_self, List.set_append_right _ _ (Nat.le_refl _)]
      simp

/-- The sibling whose place is taken is in no list any more. -/
theorem not_keepsOthers_self {p c : NodeId} (hc : t.Child p c) {t' : Tree} {done : Bool}
    (ht' : t.replaceChild p c c = .ok (t', done)) : ¬ t.KeepsOthers t' c c := by
  obtain ⟨left, right, hsplit, hself⟩ := h.replaceChild_self hc
  cases right with
  | nil =>
    rw [hself] at ht'
    cases ht'
  | cons next others =>
    obtain ⟨t'', ht'', hchildren⟩ := hself
    rw [ht''] at ht'
    cases ht'
    intro hkeeps
    have hnodup := hsplit ▸ h.nodup_children p
    have hlength := congrArg List.length (hkeeps.children_eq p)
    have hne : next ≠ c := by
      rintro rfl
      simp [List.nodup_append] at hnodup
    rw [hchildren, hsplit] at hlength
    simp [List.filter_append, hne] at hlength

end WellFormed

/-- Replacing a child goes through and leaves every other node where it was, wherever the new child
came from, unless it is the old one: the others are kept exactly if no child is put in its own
place. -/
theorem replaceChild_keepsOthers_iff {t : Tree} (h : t.WellFormed) (p old : NodeId) {new : NodeId}
    (hnew : new < t.size) :
    (∃ t' done, t.replaceChild p old new = .ok (t', done) ∧ t.KeepsOthers t' old new) ↔
      (new ≠ old ∨ ¬ t.Child p old) := by
  constructor
  · rintro ⟨t', done, ht', hkeeps⟩
    by_contra hself
    obtain ⟨he, hold⟩ := not_or.mp hself
    rw [not_not] at he hold
    subst he
    exact h.not_keepsOthers_self hold ht' hkeeps
  · intro hcases
    by_cases hold : t.Child p old
    · obtain ⟨t', ht', hkeeps⟩ :=
        h.exists_keepsOthers hold hnew (hcases.resolve_right (not_not.mpr hold))
      exact ⟨t', true, ht', hkeeps⟩
    · refine ⟨t, false, ?_, .refl t old new⟩
      rw [replaceChild, List.idxOf?_eq_none_iff.mpr hold]

/-- The noun takes the place of the noun phrase that it is in. -/
theorem replaceChild_keepsOthers_iff_noun :
    sentence.WellFormed ∧ 3 < sentence.size ∧ ∃ t' done,
      sentence.replaceChild 0 1 3 = .ok (t', done) ∧ sentence.KeepsOthers t' 1 3 :=
  have hsize : 3 < sentence.size := by decide
  ⟨sentence_wellFormed, hsize,
    (replaceChild_keepsOthers_iff sentence_wellFormed 0 1 hsize).mpr (.inl (by decide))⟩

/-- The verb phrase cannot be put in its own place, and the noun phrase that is put in its own takes
that of the verb phrase, which keeps a parent that does not list it. -/
theorem not_replaceChild_keepsOthers :
    sentence.WellFormed ∧ 4 < sentence.size ∧ 4 ∉ sentence.ancestors 0 ∧
      1 ∉ sentence.ancestors 0 ∧ sentence.children 0 = [1, 4] ∧
      sentence.replaceChild 0 4 4 = .error (.noSlot 0 1) ∧
      ∃ t', sentence.replaceChild 0 1 1 = .ok (t', true) ∧ t'.children 0 = [1] ∧
        t'.parent? 4 = some 0 ∧ ¬ sentence.KeepsOthers t' 1 1 := by
  refine ⟨sentence_wellFormed, by decide, by decide, by decide, rfl, rfl, _, rfl, rfl, rfl, ?_⟩
  intro hkeeps
  have hchildren := hkeeps.children_eq 0
  revert hchildren
  decide

end TreeQuery.Tree
