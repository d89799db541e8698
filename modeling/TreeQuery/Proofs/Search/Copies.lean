import TreeQuery.Proofs.Pattern.Copies
import TreeQuery.Search
import TreeQuery.Regex.Engine
import TreeQuery.Unicode.Version15

namespace TreeQuery

/-- The match among the copies. -/
def Match.map (f : NodeId → NodeId) (m : Match) : Match :=
  ⟨f m.node, m.bindings.map f⟩

section

variable {t₁ t₂ : Tree} {C : NodeId → Prop} {f : NodeId → NodeId} (hf : t₁.Copied t₂ C f)
  (h₁ : t₁.Linked) (h₂ : t₂.Linked)

include hf h₁ h₂

theorem Pattern.matchAt_copied [RegexEngine] (p : Pattern) {id : NodeId} (hid : C id) :
    p.matchAt t₂ (f id) = (p.matchAt t₁ id).map (Option.map (Bindings.map f)) := by
  have h := test_copied hf h₁ h₂ p hid .empty Bindings.within_empty
  rw [Bindings.map_empty] at h
  rw [matchAt, matchAt, h]
  rcases p.test t₁ id .empty with ⟨_ | _ | _, s⟩ <;> rfl

namespace Search

variable [RegexEngine]

theorem collect_copied (p : Pattern) {ids : List NodeId} (hids : ∀ a ∈ ids, C a) :
    collect p t₂ ((ids.map f).map .ok) =
      (collect p t₁ (ids.map .ok)).map (Except.map (Match.map f)) := by
  induction ids with
  | nil => rfl
  | cons id ids ih =>
    obtain ⟨hid, hrest⟩ := List.forall_mem_cons.mp hids
    simp only [List.map_cons, collect, Pattern.matchAt_copied hf h₁ h₂ p hid, ih hrest]
    rcases p.matchAt t₁ id with (_ | _ | _) | _ | b <;> rfl

theorem run_copied (p : Pattern) {start : NodeId} (hs : C start) (recursive : Bool) :
    run p t₂ (f start) recursive =
      (run p t₁ start recursive).map (Except.map (Match.map f)) := by
  have hrun {ids : List NodeId} (hids : ∀ a ∈ ids, C a) := collect_copied hf h₁ h₂ p hids
  cases recursive with
  | false =>
    have hin : ∀ a ∈ [start], C a := fun a ha => List.mem_singleton.mp ha ▸ hs
    exact hrun hin
  | true =>
    have hin : ∀ a ∈ t₁.preorder start, C a := fun a ha =>
      hf.closed.below (h₁.descending.mem_preorder.mp ha) hs
    have hlt₁ : ∀ a ∈ t₁.preorder start, a < t₁.size := fun a ha => hf.closed.lt_size (hin a ha)
    have hlt₂ : ∀ b ∈ (t₁.preorder start).map f, b < t₂.size := by
      intro b hb
      obtain ⟨a, ha, rfl⟩ := List.mem_map.mp hb
      exact hf.lt_size (hin a ha)
    simp only [run, candidates, if_true, hf.preorder h₁ h₂ hs, Tree.steps_of_lt hlt₁,
      Tree.steps_of_lt hlt₂]
    exact hrun hin

end Search

end

/-- Numbers, nodes that are not connected to the one where a pattern is tried, and part-of-speech
tags make no difference: not to the answer or the error, not to what is bound, and not to the
matches and their order. -/
theorem Pattern.test_of_alike [RegexEngine] {t₁ t₂ : Tree} (h₁ : t₁.Linked) (h₂ : t₂.Linked)
    {id : NodeId} (hid : id < t₁.size) {f : NodeId → NodeId} (hf : t₁.Alike t₂ id f) (p : Pattern) :
    (∀ s : Bindings, s.Within (t₁.Connected id) →
      (p.test t₂ (f id) (s.map f)).answer = (p.test t₁ id s).answer ∧
      (p.test t₂ (f id) (s.map f)).bindings = (p.test t₁ id s).bindings.map f ∧
      (p.test t₁ id s).bindings.Within (t₁.Connected id)) ∧
    ∀ recursive, Search.run p t₂ (f id) recursive =
      (Search.run p t₁ id recursive).map (Except.map (Match.map f)) := by
  have hc := hf.copied h₁ hid
  have hself : t₁.Connected id id := .refl id
  constructor
  · intro s hs
    rw [test_copied hc h₁ h₂ p hself s hs]
    exact ⟨rfl, rfl, (test_contained h₁ hc.closed p hself s hs).1⟩
  · exact Search.run_copied hc h₁ h₂ p hself

/-- A leaf, as `X`, and a leaf right of it that does not compare with the node bound to `A`. -/
def unlikeNext : Pattern :=
  .node (.capture .any "X")
    [.related .nextLeaf (.node (.capture (.differentFrom "A") "Y") []),
     .related .ancestor (.node (.label "S") [])]

theorem Pattern.test_of_alike_renumbered :
    Tree.sentence.Linked ∧ Tree.renumbered.Linked ∧ 2 < Tree.sentence.size ∧
      Tree.sentence.Alike Tree.renumbered 2 Tree.newNumber ∧
      (∀ s : Bindings, s.Within (Tree.sentence.Connected 2) →
        (unlikeNext.test Tree.renumbered 6 (s.map Tree.newNumber)).answer =
          (unlikeNext.test Tree.sentence 2 s).answer ∧
        (unlikeNext.test Tree.renumbered 6 (s.map Tree.newNumber)).bindings =
          (unlikeNext.test Tree.sentence 2 s).bindings.map Tree.newNumber ∧
        (unlikeNext.test Tree.sentence 2 s).bindings.Within (Tree.sentence.Connected 2)) ∧
      ∀ recursive, Search.run unlikeNext Tree.renumbered 6 recursive =
        (Search.run unlikeNext Tree.sentence 2 recursive).map
          (Except.map (Match.map Tree.newNumber)) :=
  have h₁ := Tree.sentence_wellFormed.linked
  have h₂ := Tree.renumbered_wellFormed.linked
  have hf := Tree.sentence_alike (by decide)
  ⟨h₁, h₂, by decide, hf, test_of_alike h₁ h₂ (by decide) hf unlikeNext⟩

end TreeQuery
