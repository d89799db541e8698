import TreeQuery.Proofs.Bracket.Arena
import TreeQuery.Proofs.Tree.Preorder

namespace TreeQuery

namespace Constituent

variable {t : Tree}

mutual

theorem Occupies.range {parent : Option NodeId} {id next : Nat} :
    ∀ {c : Constituent}, Occupies t parent c id next →
      id < next ∧ t.InPreorder id (List.range' id (next - id))
  | node mark cs, h => by
    cases h with
    | @node _ _ _ children _ _ hn hcs =>
      obtain ⟨hle, subtrees, hsub, he⟩ := hcs.range
      have hc : t.children id = children := Tree.children_of_get hn
      have hlen : next - id = next - (id + 1) + 1 := by omega
      refine ⟨hle, ?_⟩
      rw [hlen, List.range'_succ, ← he]
      exact .node (hc ▸ hsub)

theorem OccupyAll.range {parent : NodeId} {id next : Nat} {ids : List NodeId} :
    ∀ {cs : List Constituent}, OccupyAll t parent cs ids id next →
      id ≤ next ∧ ∃ subtrees, List.Forall₂ t.InPreorder ids subtrees ∧
        subtrees.flatten = List.range' id (next - id)
  | [], h => by
    cases h
    exact ⟨Nat.le_refl _, [], .nil, by simp⟩
  | c :: cs, h => by
    cases h with
    | @cons _ _ _ _ ids mid _ hc hcs =>
      obtain ⟨hlt, hfirst⟩ := hc.range
      obtain ⟨hle, subtrees, hsub, he⟩ := hcs.range
      refine ⟨by omega, _ :: subtrees, .cons hfirst hsub, ?_⟩
      have hmid : id + (mid - id) = mid := Nat.add_sub_cancel' (Nat.le_of_lt hlt)
      have hlen : next - id = mid - id + (next - mid) := by omega
      rw [List.flatten_cons, he, hlen, ← List.range'_append_1, hmid]

end

/-- What holds of a tree holds of its parts. -/
def Hereditary (P : Constituent → Prop) : Prop :=
  ∀ mark cs, P (node mark cs) → ∀ c ∈ cs, P c

theorem hereditary_true : Hereditary fun _ => True :=
  fun _ _ _ _ _ => trivial

mutual

/-- Each number belongs to the topmost node of a part. Unless that is the whole, the node has a
parent with a smaller number. -/
theorem Occupies.exists_place {P : Constituent → Prop} (hP : Hereditary P)
    {parent : Option NodeId} {id next x : Nat} (hx : id ≤ x) (hx' : x < next) :
    ∀ {c : Constituent}, Occupies t parent c id next → P c →
      ∃ parent' c' next', Occupies t parent' c' x next' ∧ P c' ∧
        (x = id ∧ parent' = parent ∨ ∃ p < x, parent' = some p ∧ t.Child p x)
  | node mark cs, h, hc => by
    by_cases he : x = id
    · exact ⟨parent, node mark cs, next, he ▸ h, hc, .inl ⟨he, rfl⟩⟩
    · cases h with
      | node hn hcs =>
        obtain ⟨parent', c', next', hplace, hc', habove⟩ :=
          hcs.exists_place hP (by omega) hx' (hP mark cs hc)
        refine ⟨parent', c', next', hplace, hc', .inr ?_⟩
        rcases habove with ⟨hm, he'⟩ | habove
        · refine ⟨id, by omega, he', ?_⟩
          rwa [Tree.Child, Tree.children_of_get hn]
        · exact habove

theorem OccupyAll.exists_place {P : Constituent → Prop} (hP : Hereditary P) {parent : NodeId}
    {id next x : Nat} {ids : List NodeId} (hx : id ≤ x) (hx' : x < next) :
    ∀ {cs : List Constituent}, OccupyAll t parent cs ids id next → (∀ c ∈ cs, P c) →
      ∃ parent' c' next', Occupies t parent' c' x next' ∧ P c' ∧
        (x ∈ ids ∧ parent' = some parent ∨ ∃ p < x, parent' = some p ∧ t.Child p x)
  | [], h, _ => by
    cases h
    omega
  | c :: cs, h, hall => by
    obtain ⟨hc, hrest⟩ := List.forall_mem_cons.mp hall
    cases h with
    | @cons _ _ _ _ ids mid _ hfirst hcs =>
      by_cases hmid : x < mid
      · obtain ⟨parent', c', next', hplace, hc', habove⟩ := hfirst.exists_place hP hx hmid hc
        refine ⟨parent', c', next', hplace, hc', habove.imp_left ?_⟩
        rintro ⟨rfl, he⟩
        exact ⟨List.mem_cons_self, he⟩
      · obtain ⟨parent', c', next', hplace, hc', habove⟩ :=
          hcs.exists_place hP (Nat.le_of_not_lt hmid) hx' hrest
        refine ⟨parent', c', next', hplace, hc', habove.imp_left ?_⟩
        rintro ⟨hm, he⟩
        exact ⟨List.mem_cons_of_mem id hm, he⟩

end

theorem PreorderArena.inPreorder {c : Constituent} (h : PreorderArena t c) {id : NodeId}
    (hid : id < t.size) : ∃ n, t.InPreorder id (List.range' id n) := by
  obtain ⟨_, _, _, hplace, _⟩ := h.2.exists_place hereditary_true (Nat.zero_le id) hid trivial
  exact ⟨_, hplace.range.2⟩

end Constituent

/-- Whatever is read from a text is laid out in pre-order. -/
theorem Tree.exists_preorderArena {text : String} {t : Tree} (h : Tree.parse text = .ok t) :
    ∃ c : Constituent, c.PreorderArena t := by
  obtain ⟨_, c, _, _, rfl⟩ := Tree.ofChars_eq_ok.mp (Tree.parse_eq_ok.mp h)
  exact ⟨c, Constituent.preorderArena_iff.mpr rfl⟩

theorem Tree.range_preorder_of_parse {text : String} {t : Tree} (h : Tree.parse text = .ok t)
    (hd : t.Descending) {id : NodeId} (hid : id < t.size) :
    ∃ n, t.preorder id = List.range' id n := by
  obtain ⟨c, hc⟩ := exists_preorderArena h
  obtain ⟨n, hn⟩ := hc.inPreorder hid
  exact ⟨n, (hd.inPreorder_iff.mp hn).symm⟩

end TreeQuery
