import Mathlib.Data.List.Forall2
import Mathlib.Logic.Relation
import TreeQuery.Proofs.Pattern.Equivalence
import TreeQuery.Proofs.Pattern.Synonyms
import TreeQuery.Query.Reader
import TreeQuery.Regex.Engine
import TreeQuery.Unicode.Version15

namespace TreeQuery.Pattern

open Relation

section

variable [RegexEngine]

/-- A pattern and a shorter, flatter or more basic way to write it. -/
inductive Rewrite : Pattern → Pattern → Prop
  | group (p) : Rewrite (.group p) p
  | notNot (p) : Rewrite (.not (.not p)) p
  | self (p) : Rewrite (.related .self p) p
  | single (p) : Rewrite (.all [p]) p
  | spliceNode (a before cs after) :
      Rewrite (.node a (before ++ .all cs :: after)) (.node a (before ++ (cs ++ after)))
  | spliceAll (before cs after) :
      Rewrite (.all (before ++ .all cs :: after)) (.all (before ++ (cs ++ after)))
  | regroup (p q r) : Rewrite (.or (.or p q) r) (.or p (.or q r))
  /-- There are children, and none of them fails; the operand of a count is never asked. -/
  | everyChild (p q) :
      Rewrite (.related .everyChild p)
        (.all [.not (.related (.childCount 0) q), .not (.related .child (.not p))])
  | firstChild (p) : Rewrite (.related .firstChild p) (.related (.nthChild 1) p)
  | secondChild (p) : Rewrite (.related .secondChild p) (.related (.nthChild 2) p)

/-- One part of the pattern, at whatever depth, has been replaced by one that `r` relates it to. -/
inductive Inside (r : Pattern → Pattern → Prop) : Pattern → Pattern → Prop
  | here {p q} : r p q → Inside r p q
  | constraint (a before) {c d} (after) : Inside r c d →
      Inside r (.node a (before ++ c :: after)) (.node a (before ++ d :: after))
  | operand (op) {p q} : Inside r p q → Inside r (.related op p) (.related op q)
  | negated {p q} : Inside r p q → Inside r (.not p) (.not q)
  | left {p p'} (q) : Inside r p p' → Inside r (.or p q) (.or p' q)
  | right (p) {q q'} : Inside r q q' → Inside r (.or p q) (.or p q')
  | grouped {p q} : Inside r p q → Inside r (.group p) (.group q)
  | member (before) {c d} (after) : Inside r c d →
      Inside r (.all (before ++ c :: after)) (.all (before ++ d :: after))
  | option {p q} : Inside r p q → Inside r (.optional p) (.optional q)
  | captured {p q} (var) : Inside r p q → Inside r (.capture p var) (.capture q var)

section Rules

theorem equivalent_self (p : Pattern) : Equivalent (.related .self p) p := by
  intro t ht id hid
  rw [test, Operator.test_eq_targets ht.linked hid rfl]
  exact Test.either_no _

theorem testAll_append (t : Tree) (cs ds : List Pattern) (id : NodeId) :
    testAll t (cs ++ ds) id = .both (testAll t cs id) (testAll t ds id) := by
  rw [testAll_eq, testAll_eq, testAll_eq, List.map_append, Test.all_append]

/-- It makes no difference whether constraints stand in brackets of their own. -/
theorem testAll_splice (t : Tree) (before cs after : List Pattern) (id : NodeId) :
    testAll t (before ++ .all cs :: after) id = testAll t (before ++ (cs ++ after)) id := by
  rw [testAll_append, testAll_append, testAll_append]
  rfl

theorem equivalent_everyChild (p q : Pattern) :
    Equivalent (.related .everyChild p)
      (.all [.not (.related (.childCount 0) q), .not (.related .child (.not p))]) := by
  intro t ht id hid
  have hcount : (Operator.childCount 0).test t id (q.test t) = .answer (t.isLeaf id) := by
    rw [Operator.test_childCount hid, Tree.isLeaf]
    cases t.children id <;> rfl
  have hfails : Operator.child.test t id (fun m => .not (p.test t m)) =
      .any (((t.children id).map (p.test t)).map Test.not) := by
    rw [Operator.test_eq_targets ht.linked hid rfl, List.map_map]
    rfl
  simp only [test, testAll]
  rw [hcount, hfails, Operator.test_everyChild hid, Test.not_any_not, Test.both_yes]
  cases t.isLeaf id <;> rfl

theorem Rewrite.equivalent {p q : Pattern} (h : Rewrite p q) : Equivalent p q := by
  cases h with
  | group => exact fun _ _ _ _ => rfl
  | notNot => exact fun _ _ _ _ => Test.not_not _
  | self => exact equivalent_self q
  | single => exact fun _ _ _ _ => Test.both_yes _
  | spliceNode a before cs after =>
    exact fun t _ id _ => congrArg (Test.both _) (testAll_splice t before cs after id)
  | spliceAll before cs after => exact fun t _ id _ => testAll_splice t before cs after id
  | regroup => exact fun _ _ _ _ => Test.either_assoc _ _ _
  | everyChild p q => exact equivalent_everyChild p q
  | firstChild p => exact fun t _ id _ => Operator.test_firstChild t id (p.test t)
  | secondChild p => exact fun t _ id _ => Operator.test_secondChild t id (p.test t)

end Rules

theorem forall₂_equivalent_at {c d : Pattern} (h : Equivalent c d) (before after : List Pattern) :
    List.Forall₂ Equivalent (before ++ c :: after) (before ++ d :: after) := by
  induction before with
  | nil => exact .cons h (List.forall₂_same.mpr fun p _ => .refl p)
  | cons p before ih => exact .cons (.refl p) ih

/-- What holds of equivalent patterns where they stand holds of all that they stand in. -/
theorem Inside.equivalent {r : Pattern → Pattern → Prop} (hr : ∀ p q, r p q → Equivalent p q)
    {p q : Pattern} (h : Inside r p q) : Equivalent p q := by
  induction h with
  | here h => exact hr _ _ h
  | constraint a before after _ ih => exact .node a (forall₂_equivalent_at ih before after)
  | operand op _ ih => exact ih.related op
  | negated _ ih => exact ih.not
  | left q _ ih => exact ih.or (.refl q)
  | right p _ ih => exact .or (.refl p) ih
  | grouped _ ih => exact ih.group
  | member before after _ ih => exact .all (forall₂_equivalent_at ih before after)
  | option _ ih => exact ih.optional
  | captured var _ ih => exact ih.capture var

/-- Rewritten any number of times, anywhere inside. -/
abbrev Rewritten : Pattern → Pattern → Prop :=
  ReflTransGen (Inside Rewrite)

theorem Rewritten.equivalent {p q : Pattern} (h : Rewritten p q) : Equivalent p q := by
  induction h with
  | refl => exact .refl p
  | tail _ hstep ih => exact ih.trans (hstep.equivalent fun _ _ => Rewrite.equivalent)

/-- Alternatives that nest to the right, joined by one more bar, do so again when rewritten. -/
theorem rewritten_alternatives (p : Pattern) (ps : List Pattern) (q : Pattern)
    (qs : List Pattern) :
    Rewritten (.or (Query.alternatives p ps) (Query.alternatives q qs))
      (Query.alternatives p (ps ++ q :: qs)) := by
  induction ps generalizing p with
  | nil => exact .refl
  | cons p' ps ih =>
    have hright : Rewritten (.or p (.or (Query.alternatives p' ps) (Query.alternatives q qs)))
        (.or p (Query.alternatives p' (ps ++ q :: qs))) :=
      ReflTransGen.lift (Pattern.or p) (fun _ _ => Inside.right p) _ _ (ih p')
    exact .head (.here (.regroup _ _ _)) hright

/-- Rewriting changes neither the answer nor the error nor the bindings that are left, at whatever
node of a forest and whatever is bound; and alternatives that nest otherwise can be rewritten until
they nest as they do when they are read. -/
theorem test_of_rewritten :
    (∀ {p q : Pattern}, Rewritten p q → ∀ {t : Tree}, t.WellFormed → ∀ {id : NodeId}, id < t.size →
      ∀ s : Bindings, p.test t id s = q.test t id s) ∧
    ∀ (p : Pattern) (ps : List Pattern) (q : Pattern) (qs : List Pattern),
      Rewritten (.or (Query.alternatives p ps) (Query.alternatives q qs))
        (Query.alternatives p (ps ++ q :: qs)) :=
  ⟨fun h _ ht _ hid s => congrFun (h.equivalent ht hid) s, rewritten_alternatives⟩

end

/-- A sentence with phrases only, written with brackets and braces that it does not need. -/
def wordy : Pattern :=
  .node (.label "S") [.all [.related .everyChild (.group (.related .child (.ofAnchor .any)))]]

def terse : Pattern :=
  .node (.label "S") [.related .everyChild (.related .child (.ofAnchor .any))]

theorem rewritten_wordy : Rewritten wordy terse := by
  have hsplice := Rewrite.spliceNode (.label "S") []
    [.related .everyChild (.group (.related .child (.ofAnchor .any)))] []
  have hgroup := Inside.here (Rewrite.group (.related .child (.ofAnchor .any)))
  have hinside := Inside.constraint (.label "S") [] [] (hgroup.operand .everyChild)
  exact .head (.here hsplice) (.single hinside)

theorem test_of_rewritten_wordy :
    Rewritten wordy terse ∧ Tree.sentence.WellFormed ∧ 0 < Tree.sentence.size ∧
      wordy.test .sentence 0 .empty = terse.test .sentence 0 .empty :=
  ⟨rewritten_wordy, Tree.sentence_wellFormed, by decide,
    test_of_rewritten.1 rewritten_wordy Tree.sentence_wellFormed (by decide) .empty⟩

end TreeQuery.Pattern
