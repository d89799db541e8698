import TreeQuery.Proofs.Pattern.Equivalence
import TreeQuery.Proofs.Pattern.Scopes
import TreeQuery.Proofs.Tree.UpAndDown
import TreeQuery.Regex.Engine
import TreeQuery.Unicode.Version15

namespace TreeQuery

namespace Operator

variable {t : Tree} {S : Bindings → Prop} {y : NodeId} {operand : NodeId → Test}

/-- Wherever it is asked with bindings that satisfy `S`, the operand answers, says yes at `y` only,
and leaves bindings that satisfy `S`. -/
def SinglesOut (t : Tree) (S : Bindings → Prop) (y : NodeId) (operand : NodeId → Test) : Prop :=
  ∀ m < t.size, ∀ s, S s →
    (operand m s).answer = .ok (decide (m = y)) ∧ S (operand m s).bindings

/-- What `op` answers at one node about another one, `op'` answers at that one about the first. -/
def Converse (t : Tree) (op op' : Operator) : Prop :=
  ∀ a < t.size, ∀ b < t.size, ∀ S S' operand operand',
    SinglesOut t S b operand → SinglesOut t S' a operand' → ∀ s s', S s → S' s' →
      ∃ x, (op.test t a operand s).answer = .ok x ∧ (op'.test t b operand' s').answer = .ok x

theorem any_of_singlesOut (hy : SinglesOut t S y operand) {ids : List NodeId}
    (hids : ∀ m ∈ ids, m < t.size) {s : Bindings} (hs : S s) :
    (Test.any (ids.map operand) s).answer = .ok (decide (y ∈ ids)) := by
  induction ids generalizing s with
  | nil => rfl
  | cons m ids ih =>
    obtain ⟨hm, hrest⟩ := List.forall_mem_cons.mp hids
    obtain ⟨ha, hkeep⟩ := hy m hm s hs
    rw [List.map_cons, Test.any_cons]
    by_cases he : m = y
    · rw [decide_eq_true he] at ha
      rw [Test.either_of_not_false (by simp [ha]), ha]
      simp [he]
    · rw [decide_eq_false he] at ha
      rw [Test.either_of_false ha, ih hrest hkeep]
      simp [Ne.symm he]

section Tests

variable (h : t.WellFormed)

include h

theorem test_of_singlesOut {op : Operator} (hop : op.isRelational = true) {x : NodeId}
    (hx : x < t.size) (hy : SinglesOut t S y operand) {s : Bindings} (hs : S s) :
    (op.test t x operand s).answer = .ok (decide (y ∈ op.targets t x)) := by
  rw [test_eq_targets h.linked hx hop]
  exact any_of_singlesOut hy (fun m hm => targets_lt h.linked hx hm) hs

theorem converse_of_leads {op op' : Operator} (hop : op.isRelational = true)
    (hop' : op'.isRelational = true) (hleads : ∀ a b, op.Leads t a b ↔ op'.Leads t b a) :
    Converse t op op' := by
  intro a ha b hb S S' operand operand' hf hf' s s' hs hs'
  have htargets : b ∈ op.targets t a ↔ a ∈ op'.targets t b := by
    rw [mem_targets h, mem_targets h, hleads]
  refine ⟨_, test_of_singlesOut h hop ha hf hs, ?_⟩
  rw [test_of_singlesOut h hop' hb hf' hs', decide_eq_decide.mpr htargets]

theorem converse_sibling : Converse t sibling sibling := by
  have hmirror {a b : NodeId} (hab : sibling.Leads t a b) : sibling.Leads t b a := by
    obtain ⟨hne, p, hp, hc⟩ := hab
    exact ⟨hne.symm, p, h.linked.child_iff.mp hc, h.linked.child_iff.mpr hp⟩
  exact converse_of_leads h rfl rfl fun a b => ⟨hmirror, hmirror⟩

/-- No node is its own sibling. -/
theorem sibling_test_self {x : NodeId} (hx : x < t.size) (hy : SinglesOut t S x operand)
    {s : Bindings} (hs : S s) : (sibling.test t x operand s).answer = .ok false := by
  have hself : x ∉ sibling.targets t x := by
    rw [mem_targets h]
    simp [Leads]
  rw [test_of_singlesOut h rfl hx hy hs, decide_eq_false hself]

/-- The walks up and down agree, and so do the operators that follow them: asked with operands that
hold at one node only, `<<` and `>>` are converse to each other, and so are `<` and `>`, while `$`
is symmetric and irreflexive. -/
theorem walks_and_operators_agree :
    (∀ a < t.size, t.WalksEnd a) ∧ t.WalksAgree ∧ Converse t descendant ancestor ∧
      Converse t child parent ∧ Converse t sibling sibling ∧
      ∀ a < t.size, ∀ S operand, SinglesOut t S a operand → ∀ s, S s →
        (sibling.test t a operand s).answer = .ok false :=
  ⟨fun _ ha => h.walksEnd ha, h.linked.walksAgree,
    converse_of_leads h rfl rfl fun _ _ => Iff.rfl,
    converse_of_leads h rfl rfl fun _ _ => h.linked.child_iff,
    converse_sibling h, fun _ ha _ _ hy _ hs => sibling_test_self h ha hy hs⟩

end Tests

/-- A reference singles out the node that its variable is bound to, where no other node agrees with
that one. -/
theorem singlesOut_sameAs [RegexEngine] {n : Node} (hn : t.get? y = some n)
    (hagrees : ∀ m k, t.get? m = some k → n.agrees k.toMark = decide (m = y)) (var : String) :
    SinglesOut t (·.lookup? var = some y) y (Pattern.test t (.ofAnchor (.sameAs var))) := by
  intro m hm s hs
  obtain ⟨k, hk⟩ := Tree.lt_size_iff.mp hm
  have htest : Pattern.test t (.ofAnchor (.sameAs var)) m s =
      ⟨.ok (n.agrees k.toMark), s⟩ := by
    rw [Pattern.ofAnchor, Pattern.test, Pattern.testAll, Test.both_yes, Anchor.test_of_get hk]
    exact Anchor.sameAsTest_of_lookup hs hn
  rw [htest, hagrees m k hk]
  exact ⟨rfl, hs⟩

/-- In the sentence every node has a label of its own. -/
theorem singlesOut_sentence [RegexEngine] {y : NodeId} (hy : y < Tree.sentence.size)
    (var : String) : SinglesOut .sentence (·.lookup? var = some y) y
      (Pattern.test .sentence (.ofAnchor (.sameAs var))) := by
  have hall : ∀ y < Tree.sentence.size, ∀ m < Tree.sentence.size,
      (Tree.sentence.get? y).bind (fun n => (Tree.sentence.get? m).map fun k =>
        n.agrees k.toMark) = some (decide (m = y)) := by
    decide
  obtain ⟨n, hn⟩ := Tree.lt_size_iff.mp hy
  refine singlesOut_sameAs hn (fun m k hk => ?_) var
  have hagrees := hall y hy m (Tree.lt_size_iff.mpr ⟨k, hk⟩)
  rw [hn, hk] at hagrees
  exact Option.some.inj hagrees

/-- The noun is below the noun phrase, and the phrase above the noun. -/
theorem walks_and_operators_agree_sentence :
    Tree.sentence.WellFormed ∧ Tree.sentence.WalksEnd 3 ∧ Tree.sentence.Rises 3 0 ∧
      1 ∈ Tree.sentence.ancestors 3 ∧ 1 ∉ (Tree.sentence.preorder 3).drop 1 ∧
      4 ∈ (Tree.sentence.preorder 0).drop 1 ∧
      (∃ x, (descendant.test .sentence 1 (Pattern.test .sentence (.ofAnchor (.sameAs "V")))
          (Bindings.empty.bind "V" 3)).answer = .ok x ∧
        (ancestor.test .sentence 3 (Pattern.test .sentence (.ofAnchor (.sameAs "W")))
          (Bindings.empty.bind "W" 1)).answer = .ok x) ∧
      (sibling.test .sentence 3 (Pattern.test .sentence (.ofAnchor (.sameAs "V")))
        (Bindings.empty.bind "V" 3)).answer = .ok false := by
  obtain ⟨hends, hwalks, hvertical, _, _, hself⟩ :=
    walks_and_operators_agree Tree.sentence_wellFormed
  have h₁ : 1 < Tree.sentence.size := by decide
  have h₃ : 3 < Tree.sentence.size := by decide
  have hbelow : 3 ∈ (Tree.sentence.preorder 1).drop 1 := by decide
  have hchain : 4 ∈ Tree.sentence.headChain 0 := by decide
  exact ⟨Tree.sentence_wellFormed, hends 3 h₃, (hwalks.rises_iff 3 0).mpr rfl,
    (hwalks.below_iff_above 1 3).mp hbelow, hwalks.not_both 1 3 hbelow,
    hwalks.heads_below 0 4 hchain,
    hvertical 1 h₁ 3 h₃ _ _ _ _ (singlesOut_sentence h₃ "V") (singlesOut_sentence h₁ "W") _ _
      rfl rfl,
    hself 3 h₃ _ _ (singlesOut_sentence h₃ "V") _ rfl⟩

end Operator

end TreeQuery
