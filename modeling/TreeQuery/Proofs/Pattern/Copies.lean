import TreeQuery.Proofs.Pattern.Containment
import TreeQuery.Proofs.Tree.Copies

namespace TreeQuery

namespace Bindings

/-- The bindings of the copies. -/
def map (f : NodeId → NodeId) (s : Bindings) : Bindings where
  entries := s.entries.map fun e => (e.1, f e.2)
  nodup := by simpa [List.map_map, Function.comp_def] using s.nodup

theorem lookup_map (f : NodeId → NodeId) (s : Bindings) (v : String) :
    (s.map f).lookup? v = (s.lookup? v).map f := by
  have key (es : List (String × NodeId)) :
      (es.map fun e => (e.1, f e.2)).lookup v = (es.lookup v).map f := by
    induction es with
    | nil => rfl
    | cons e es ih =>
      rw [List.map_cons, List.lookup_cons, List.lookup_cons, ih]
      cases v == e.1 <;> rfl
  exact key s.entries

theorem map_bind (f : NodeId → NodeId) (s : Bindings) (v : String) (id : NodeId) :
    (s.bind v id).map f = (s.map f).bind v (f id) := by
  simp [map, bind, List.filter_map, Function.comp_def]

theorem map_empty (f : NodeId → NodeId) : empty.map f = empty :=
  rfl

end Bindings

def Outcome.map (f : NodeId → NodeId) (o : Outcome) : Outcome :=
  ⟨o.answer, o.bindings.map f⟩

namespace Test

/-- From the copies of bindings within `C` the test `b` comes to the copy of the outcome of `a`. -/
def CopiedTo (C : NodeId → Prop) (f : NodeId → NodeId) (a b : Test) : Prop :=
  ∀ s, s.Within C → b (s.map f) = (a s).map f

variable {C : NodeId → Prop} {f : NodeId → NodeId} {refs : List String} {ops : List Operator}
  {a a' b b' : Test}

theorem copied_answer (x : Bool) : CopiedTo C f (answer x) (answer x) :=
  fun _ _ => rfl

theorem copied_fail (e : MatchError) : CopiedTo C f (fail e) (fail e) :=
  fun _ _ => rfl

theorem CopiedTo.both (ha : CopiedTo C f a a') (hin : a.Contained C refs ops)
    (hb : CopiedTo C f b b') : CopiedTo C f (both a b) (both a' b') := by
  intro s hs
  have h := ha s hs
  by_cases hx : (a s).answer = .ok true
  · have hx' : (a' (s.map f)).answer = .ok true := by rw [h]; exact hx
    rw [both_of_true hx, both_of_true hx', h]
    exact hb _ (hin s hs).1
  · have hx' : (a' (s.map f)).answer ≠ .ok true := by rw [h]; exact hx
    rw [both_of_not_true hx, both_of_not_true hx', h]

theorem CopiedTo.either (ha : CopiedTo C f a a') (hin : a.Contained C refs ops)
    (hb : CopiedTo C f b b') : CopiedTo C f (either a b) (either a' b') := by
  intro s hs
  have h := ha s hs
  by_cases hx : (a s).answer = .ok false
  · have hx' : (a' (s.map f)).answer = .ok false := by rw [h]; exact hx
    rw [either_of_false hx, either_of_false hx', h]
    exact hb _ (hin s hs).1
  · have hx' : (a' (s.map f)).answer ≠ .ok false := by rw [h]; exact hx
    rw [either_of_not_false hx, either_of_not_false hx', h]

theorem CopiedTo.not (ha : CopiedTo C f a a') : CopiedTo C f (not a) (not a') := by
  intro s hs
  rw [not_eq, not_eq, ha s hs]
  rfl

theorem CopiedTo.optional (ha : CopiedTo C f a a') :
    CopiedTo C f (optional a) (optional a') := by
  intro s hs
  rw [optional_eq, optional_eq, ha s hs]
  rfl

theorem CopiedTo.capture (ha : CopiedTo C f a a') (hin : a.Contained C refs ops) (var : String)
    (id : NodeId) : CopiedTo C f (capture a var id) (capture a' var (f id)) := by
  rw [capture_eq, capture_eq]
  refine ha.both hin fun s _ => ?_
  rw [← Bindings.map_bind]
  rfl

theorem copied_any {ids : List NodeId} {g g' : NodeId → Test}
    (h : ∀ m ∈ ids, CopiedTo C f (g m) (g' (f m)))
    (hin : ∀ m ∈ ids, (g m).Contained C refs ops) :
    CopiedTo C f (any (ids.map g)) (any ((ids.map f).map g')) := by
  induction ids with
  | nil => exact copied_answer false
  | cons m ids ih =>
    obtain ⟨hm, hids⟩ := List.forall_mem_cons.mp h
    obtain ⟨hmin, hidsin⟩ := List.forall_mem_cons.mp hin
    exact hm.either hmin (ih hids hidsin)

theorem copied_all {ι : Type} {xs : List ι} {g g' : ι → Test}
    (h : ∀ x ∈ xs, CopiedTo C f (g x) (g' x)) (hin : ∀ x ∈ xs, (g x).Contained C refs ops) :
    CopiedTo C f (all (xs.map g)) (all (xs.map g')) := by
  induction xs with
  | nil => exact copied_answer true
  | cons x xs ih =>
    obtain ⟨hx, hxs⟩ := List.forall_mem_cons.mp h
    obtain ⟨hxin, hxsin⟩ := List.forall_mem_cons.mp hin
    exact hx.both hxin (ih hxs hxsin)

end Test

namespace Node.CopiedTo

variable {f : NodeId → NodeId} {n m : Node} (h : n.CopiedTo f m)

include h

theorem isLeaf : m.isLeaf = n.isLeaf := by
  simp [Node.isLeaf, h.children]

theorem leafWord : m.leafWord? = n.leafWord? := by
  rw [leafWord?, leafWord?, h.isLeaf, h.word]

/-- Marks are compared without numbers and part-of-speech tags. -/
theorem agrees {n' m' : Node} (h' : n'.CopiedTo f m') :
    m.agrees m'.toMark = n.agrees n'.toMark := by
  rw [Mark.agrees, Mark.agrees, h.category, h'.category, h.label, h'.label]

end Node.CopiedTo

section

variable {t₁ t₂ : Tree} {C : NodeId → Prop} {f : NodeId → NodeId} (hf : t₁.Copied t₂ C f)

include hf

theorem Anchor.sameAsTest_copied {n m : Node} (hnm : n.CopiedTo f m) (var : String) :
    Test.CopiedTo C f (sameAsTest t₁ n var) (sameAsTest t₂ m var) := by
  intro s hs
  unfold sameAsTest
  rw [Bindings.lookup_map]
  cases hl : s.lookup? var with
  | none => rfl
  | some id =>
    obtain ⟨bound, hbound⟩ := Tree.lt_size_iff.mp (hf.closed.lt_size (hs var id hl))
    obtain ⟨copy, hcopy, hc⟩ := hf.node (hs var id hl) hbound
    simp only [Option.map_some, Tree.get, hbound, hcopy, hc.agrees hnm]
    rfl

theorem Anchor.test_copied [RegexEngine] {id : NodeId} (hid : C id) (a : Anchor) :
    Test.CopiedTo C f (a.test t₁ id) (a.test t₂ (f id)) := by
  obtain ⟨n, hn⟩ := Tree.lt_size_iff.mp (hf.closed.lt_size hid)
  obtain ⟨m, hm, hc⟩ := hf.node hid hn
  rw [test_of_get hn, test_of_get hm]
  induction a with
  | any => exact Test.copied_answer true
  | label text | labelMatching re =>
    rw [testNode, testNode, hc.label]
    exact Test.copied_answer _
  | word text | wordMatching re =>
    rw [testNode, testNode, hc.leafWord]
    exact Test.copied_answer _
  | category text | categoryMatching re =>
    rw [testNode, testNode, hc.category]
    exact Test.copied_answer _
  | sameAs var => exact sameAsTest_copied hf hc var
  | differentFrom var => exact (sameAsTest_copied hf hc var).not
  | capture anchor var ih =>
    have hr : ∀ v, .reference v ∈ anchor.mentions → v ∈ (Pattern.ofAnchor anchor).references :=
      fun v hv => Pattern.mem_references.mpr (List.mem_append_left _ hv)
    have hin : (anchor.test t₁ id).Contained C (Pattern.ofAnchor anchor).references [] :=
      test_contained hf.closed hid hr
    rw [test_of_get hn] at hin
    exact ih.capture hin var id

/-- An operator leads from the copy of a node to the copies of the nodes it leads to from there. -/
theorem Operator.targets_copied (h₁ : t₁.Linked) (h₂ : t₂.Linked) {id : NodeId} (hid : C id)
    (op : Operator) : op.targets t₂ (f id) = (op.targets t₁ id).map f := by
  have hc := hf.children hid
  have hl := hf.isLeaf hid
  cases op with
  | child => exact hc
  | descendant => rw [targets, targets, hf.preorder h₁ h₂ hid, List.map_drop]
  | firstChild | secondChild =>
    rw [targets, targets, hc, List.getElem?_map, Option.toList_map]
  | nthChild k =>
    rw [targets, targets, hc, List.getElem?_map, Option.toList_map]
    split <;> rfl
  | parent => rw [targets, targets, hf.parent hid, Option.toList_map]
  | ancestor => exact hf.ancestors h₁ h₂ hid
  | nextLeaf =>
    rw [targets, targets, hl, hf.leavesAfter h₁ h₂ hid, ← List.map_take]
    split <;> rfl
  | laterLeaf =>
    rw [targets, targets, hl, hf.leavesAfter h₁ h₂ hid]
    split <;> rfl
  | sibling =>
    have hpar := hf.parent hid
    cases hp : t₁.parent? id with
    | none =>
      rw [hp] at hpar
      simp [targets, hp, hpar]
    | some p =>
      rw [hp] at hpar
      have hin : C p := hf.closed.up (h₁.child_iff.mpr hp) hid
      have hcs : ∀ b ∈ t₁.children p, C b := fun b hb => hf.closed.down hb hin
      simp only [targets, hp, hpar, Option.map_some, hf.children hin]
      exact hf.filter_ne hid hcs
  | self => rfl
  | head => rw [targets, targets, hf.head hid, Option.toList_map]
  | headChain => exact hf.headChain h₁ h₂ hid
  | everyChild | nextSibling | laterSibling | childCount _ | headIndex _ => rfl

theorem Operator.test_copied (h₁ : t₁.Linked) (h₂ : t₂.Linked) {id : NodeId} (hid : C id)
    (op : Operator) {operand operand' : NodeId → Test} {refs : List String} {ops : List Operator}
    (hop : ∀ m, C m → Test.CopiedTo C f (operand m) (operand' (f m)))
    (hin : ∀ m, C m → (operand m).Contained C refs ops) :
    Test.CopiedTo C f (op.test t₁ id operand) (op.test t₂ (f id) operand') := by
  have hlt₁ := hf.closed.lt_size hid
  have hlt₂ := hf.lt_size hid
  obtain ⟨n, hn⟩ := Tree.lt_size_iff.mp hlt₁
  obtain ⟨m, hm, hnm⟩ := hf.node hid hn
  cases hrel : op.isRelational with
  | true =>
    rw [test_eq_targets h₁ hlt₁ hrel, test_eq_targets h₂ hlt₂ hrel, targets_copied hf h₁ h₂ hid]
    exact Test.copied_any (fun m hm => hop m (targets_inside h₁ hf.closed hm hid))
      fun m hm => hin m (targets_inside h₁ hf.closed hm hid)
  | false =>
    cases op with
    | everyChild =>
      rw [test_everyChild hlt₁, test_everyChild hlt₂, hf.isLeaf hid, hf.children hid, List.map_map]
      split
      · exact Test.copied_answer false
      · exact Test.copied_all (fun c hc => hop c (hf.closed.down hc hid))
          fun c hc => hin c (hf.closed.down hc hid)
    | childCount k =>
      rw [test_childCount hlt₁, test_childCount hlt₂, hf.children hid, List.length_map]
      exact Test.copied_answer _
    | headIndex k =>
      rw [test_headIndex hn, test_headIndex hm, hf.isLeaf hid, hnm.headIndex]
      exact Test.copied_answer _
    | nextSibling | laterSibling =>
      rw [test_of_get hn, test_of_get hm]
      exact Test.copied_fail _
    | _ => cases hrel

/-- Evaluation commutes with copying. -/
theorem Pattern.test_copied [RegexEngine] (h₁ : t₁.Linked) (h₂ : t₂.Linked) (p : Pattern)
    {id : NodeId} (hid : C id) : Test.CopiedTo C f (p.test t₁ id) (p.test t₂ (f id)) := by
  have hin : ∀ (p : Pattern) {m : NodeId}, C m →
      (p.test t₁ m).Contained C p.references p.operators :=
    fun p _ hm => test_contained h₁ hf.closed p hm
  have hall : ∀ {cs : List Pattern} {m : NodeId}, C m →
      (∀ c ∈ cs, Test.CopiedTo C f (c.test t₁ m) (c.test t₂ (f m))) →
        Test.CopiedTo C f (testAll t₁ cs m) (testAll t₂ cs (f m)) := by
    intro cs m hm h
    have hcs : ∀ c ∈ cs, (c.test t₁ m).Contained C (all cs).references (all cs).operators := by
      intro c hc
      have hp : Part c (all cs) := .member hc
      exact (hin c hm).mono hp.references_subset (hp.collect_subset _ _ _)
    rw [testAll_eq, testAll_eq]
    exact Test.copied_all h hcs
  induction p generalizing id with
  | node a cs ih =>
    have hr : ∀ v, .reference v ∈ a.mentions → v ∈ (Pattern.ofAnchor a).references :=
      fun v hv => Pattern.mem_references.mpr (List.mem_append_left _ hv)
    have ha : (a.test t₁ id).Contained C (Pattern.ofAnchor a).references [] :=
      Anchor.test_contained hf.closed hid hr
    exact (Anchor.test_copied hf hid a).both ha (hall hid fun c hc => ih c hc hid)
  | related op p ih =>
    exact Operator.test_copied hf h₁ h₂ hid op (fun m hm => ih hm) fun m hm => hin p hm
  | not p ih => exact (ih hid).not
  | or p q ihp ihq => exact (ihp hid).either (hin p hid) (ihq hid)
  | group p ih => exact ih hid
  | all cs ih => exact hall hid fun c hc => ih c hc hid
  | optional p ih => exact (ih hid).optional
  | capture p var ih => exact (ih hid).capture (hin p hid) var id

end

end TreeQuery
