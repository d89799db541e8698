import TreeQuery.Proofs.Search.Confinement
import TreeQuery.Proofs.Tree.Detachment
import TreeQuery.Regex.Engine
import TreeQuery.Unicode.Version15

namespace TreeQuery.Search

open Bindings

/-- Nothing but nodes of the part `C` comes into an evaluation or a search at `start`, whether the
search gives its results all together or one at a time. -/
structure StaysInside [RegexEngine] (t : Tree) (C : NodeId → Prop) (start : NodeId) : Prop where
  test : ∀ (p : Pattern) s, s.Within C → (p.test t start s).bindings.Within C
  run : ∀ p recursive m, .ok m ∈ run p t start recursive → C m.node ∧ m.bindings.Within C
  next : ∀ p recursive,
    Yields (Matches.next p t) (.start start recursive) (Search.run p t start recursive)

variable {t : Tree} {C : NodeId → Prop}

theorem Tries.inside [RegexEngine] (hC : t.Closed C) {start : NodeId} (hs : C start)
    {recursive : Bool} {ids : List NodeId} (h : Tries t start recursive ids) : ∀ a ∈ ids, C a := by
  intro a ha
  cases recursive with
  | false =>
    obtain rfl : ids = [start] := h
    exact List.mem_singleton.mp ha ▸ hs
  | true => exact hC.below ((h.2.2 a).mp ha) hs

theorem exists_finds [RegexEngine] (h : t.WellFormed) {start : NodeId} (hs : start < t.size)
    (p : Pattern) (recursive : Bool) : ∃ ids, Tries t start recursive ids ∧
      Finds p t ids (Search.run p t start recursive) ∧
      Yields (Matches.next p t) (.start start recursive) (Search.run p t start recursive) := by
  obtain ⟨ids, htries, hlt, hc, hr⟩ := tries_candidates h hs recursive
  have hf : Finds p t ids (Search.run p t start recursive) := by
    rw [Search.run, hc]
    exact finds_collect h.linked hlt
  refine ⟨ids, htries, hf, Matches.yields_of_finds h.descending hf rfl ?_ hr⟩
  exact fun a ha => List.mem_singleton.mp ha ▸ hs

/-- Evaluation and search keep to any part of the arena that no link leaves, if they begin there. -/
theorem staysInside [RegexEngine] (h : t.WellFormed) (hC : t.Closed C) {start : NodeId}
    (hs : C start) : StaysInside t C start where
  test p s hin := (p.test_contained h.linked hC hs s hin).1
  run p recursive m hm := by
    obtain ⟨ids, htries, hf, -⟩ := exists_finds h (hC.lt_size hs) p recursive
    have hnode : C m.node := htries.inside hC hs _ (hf.node_mem hm)
    exact ⟨hnode, within_of_matchAt h.linked hC hnode (hf.matchAt_ok hm)⟩
  next p recursive := by
    obtain ⟨ids, -, -, hy⟩ := exists_finds h (hC.lt_size hs) p recursive
    exact hy

/-- Cutting off a subtree takes away just its nodes from what is below the others, leaves everything
else as it is, and keeps every search that begins outside of the subtree out of it. -/
theorem detach_severs [RegexEngine] (h : t.WellFormed) (x : NodeId) :
    ∃ t', t.detach x = .ok t' ∧ t.Severed t' x ∧
      ∀ r, t.Outside x r → StaysInside t' (t.Outside x) r := by
  obtain ⟨t', ht', hwf, hs⟩ := h.exists_severed x
  exact ⟨t', ht', hs, fun r hr => staysInside hwf (h.closed_outside hs) hr⟩

theorem detach_severs_sentence :
    Tree.sentence.WellFormed ∧ Tree.sentence.Outside 1 0 ∧
      ∃ t', Tree.sentence.detach 1 = .ok t' ∧ Tree.sentence.Severed t' 1 ∧
        StaysInside t' (Tree.sentence.Outside 1) 0 := by
  have h : Tree.sentence.WellFormed := Tree.sentence_wellFormed
  have hout : Tree.sentence.Outside 1 0 := ⟨by decide, by decide⟩
  obtain ⟨t', ht', hs, hin⟩ := detach_severs h 1
  exact ⟨h, hout, t', ht', hs, hin 0 hout⟩

end TreeQuery.Search
