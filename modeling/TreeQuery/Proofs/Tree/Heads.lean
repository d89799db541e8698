import TreeQuery.Proofs.Tree.Detachment

namespace TreeQuery.Tree

/-- Without `c`, what stands behind it moves up. -/
theorem getElem?_without {l : List NodeId} (hl : l.Nodup) (c : NodeId) (i : Nat) :
    (l.filter (· ≠ c))[i]? = if i < l.idxOf c then l[i]? else l[i + 1]? := by
  have he : l.filter (· ≠ c) = l.eraseIdx (l.idxOf c) := by
    rw [List.eraseIdx_idxOf_eq_erase, hl.erase_eq_filter]
    exact List.filter_congr fun a _ => by simp [bne, beq_eq_decide]
  rw [he, List.getElem?_eraseIdx]

def headIndex? (t : Tree) (id : NodeId) : Option UInt64 :=
  (t.get? id).bind fun n => n.headIndex

theorem head_eq_bind (t : Tree) (id : NodeId) :
    t.head? id = (t.headIndex? id).bind fun i => (t.children id)[i.toNat]? := by
  cases hn : t.get? id with
  | none => simp [head?, headIndex?, hn]
  | some n => simp [head?, headIndex?, hn, Node.head?, children_of_get hn]

/-- What was cut off leaves the head index where it was. -/
theorem Severed.head_eq {t t' : Tree} {c : NodeId} (hs : t.Severed t' c) (id : NodeId) :
    t'.head? id = (t.headIndex? id).bind fun i => (t'.children id)[i.toNat]? := by
  have hself (t : Tree) :
      t.headIndex? id = ((t.get? id).map Node.self).bind fun s => s.2.headIndex := by
    rw [Option.bind_map]
    rfl
  rw [head_eq_bind, hself, hs.self_eq, ← hself]

namespace WellFormed

variable {t : Tree} (h : t.WellFormed)

include h

/-- Cutting off a child keeps the head exactly if the head stands before that child; if not, the
next child becomes the head. Other nodes keep their heads. -/
theorem head_of_detach_iff {p x c : NodeId} (hx : t.head? p = some x) (hc : t.Child p c) :
    ∃ t', t.detach c = .ok t' ∧
      (t'.head? p = some x ↔ (t.children p).idxOf x < (t.children p).idxOf c) ∧
      (¬ (t.children p).idxOf x < (t.children p).idxOf c →
        t'.head? p = (t.children p)[(t.children p).idxOf x + 1]?) ∧
      ∀ q, q ≠ p → t'.head? q = t.head? q := by
  obtain ⟨t', ht', -, hs⟩ := h.exists_severed c
  have hnodup := h.nodup_children p
  obtain ⟨i, hi, hget⟩ : ∃ i, t.headIndex? p = some i ∧ (t.children p)[i.toNat]? = some x :=
    Option.bind_eq_some_iff.mp (head_eq_bind t p ▸ hx)
  obtain ⟨hlt, hat⟩ := List.getElem?_eq_some_iff.mp hget
  have hpos : (t.children p).idxOf x = i.toNat := hat ▸ hnodup.idxOf_getElem _ hlt
  have hhead : t'.head? p =
      if i.toNat < (t.children p).idxOf c then some x else (t.children p)[i.toNat + 1]? := by
    rw [hs.head_eq, hi, Option.bind_some, hs.children_eq, getElem?_without hnodup, hget]
  have hnext : (t.children p)[i.toNat + 1]? ≠ some x := fun hnext =>
    i.toNat.lt_succ_self.ne ((List.getElem?_inj hlt hnodup).mp (hget.trans hnext.symm))
  rw [hpos]
  refine ⟨t', ht', ?_, fun hafter => ?_, fun q hq => ?_⟩
  · rw [hhead]
    split
    · exact iff_of_true rfl ‹_›
    · exact iff_of_false hnext ‹_›
  · rw [hhead, if_neg hafter]
  · have hother : t.parent? c ≠ some q := fun hq' =>
      hq (h.linked.parent_unique (h.linked.child_iff.mpr hq') hc)
    rw [hs.head_eq, hs.children_other q hother, ← head_eq_bind]

end WellFormed

/-- The verb is the head, between two others. -/
def transitive : Tree where
  nodes := #[
    ⟨⟨"S", none, none, some (.atom "S" []), some 1⟩, 0, none, [1, 2, 3]⟩,
    ⟨⟨"NP", some "she", some "PRP", some (.atom "NP" []), none⟩, 1, some 0, []⟩,
    ⟨⟨"V", some "saw", some "VBD", some (.atom "V" []), none⟩, 2, some 0, []⟩,
    ⟨⟨"NP", some "stars", some "NNS", some (.atom "NP" []), none⟩, 3, some 0, []⟩]
  root := some 0

theorem transitive_wellFormed : transitive.WellFormed :=
  .of_increasing (by decide) (by decide) (by decide) (by decide)

theorem head_of_detach_object :
    parse "(<T S 1 3> (<L NP PRP PRP she NP>) (<L V VBD VBD saw V>) (<L NP NNS NNS stars NP>))" =
      .ok transitive ∧
    transitive.WellFormed ∧ transitive.head? 0 = some 2 ∧ transitive.Child 0 3 ∧
      ∃ t', transitive.detach 3 = .ok t' ∧ t'.head? 0 = some 2 := by
  have h : transitive.WellFormed := transitive_wellFormed
  have hhead : transitive.head? 0 = some 2 := by decide
  have hchild : 3 ∈ transitive.children 0 := by decide
  obtain ⟨t', ht', hkept, -⟩ := h.head_of_detach_iff hhead hchild
  exact ⟨by decide +kernel, h, hhead, hchild, t', ht', hkept.mpr (by decide)⟩

/-- Without the subject the object passes for the head. -/
theorem head_moves_on_without_subject :
    transitive.WellFormed ∧ transitive.head? 0 = some 2 ∧ transitive.Child 0 1 ∧ 1 ≠ 2 ∧
      ∃ t', transitive.detach 1 = .ok t' ∧ t'.head? 0 = some 3 := by
  have hchild : 1 ∈ transitive.children 0 := by decide
  exact ⟨transitive_wellFormed, by decide, hchild, by decide, _, rfl, by decide⟩

end TreeQuery.Tree
