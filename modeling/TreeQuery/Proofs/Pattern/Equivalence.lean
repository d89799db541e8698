import TreeQuery.Proofs.Pattern.Operators
import TreeQuery.Proofs.Pattern.Parts
import TreeQuery.Proofs.Pattern.Tests

namespace TreeQuery

namespace Test

variable (a b c : Test)

theorem both_assoc : both (both a b) c = both a (both b c) := by
  funext s
  unfold both
  rcases a s with ⟨_ | _ | _, s'⟩ <;> rfl

theorem either_assoc : either (either a b) c = either a (either b c) := by
  funext s
  unfold either
  rcases a s with ⟨_ | _ | _, s'⟩ <;> rfl

theorem both_yes : both a yes = a := by
  funext s
  unfold both
  rcases a s with ⟨_ | _ | _, s'⟩ <;> rfl

theorem either_no : either a no = a := by
  funext s
  unfold either
  rcases a s with ⟨_ | _ | _, s'⟩ <;> rfl

theorem not_not : not (not a) = a := by
  funext s
  unfold Test.not
  rcases a s with ⟨_ | _ | _, s'⟩ <;> rfl

/-- Two parts hold if it is not so that the first fails or the second does. -/
theorem not_either_not : not (either (not a) b) = both a (not b) := by
  funext s
  rcases h : a s with ⟨_ | _ | _, s'⟩ <;> simp only [Test.not, either, both, h, Bool.not_false,
    Bool.not_true]

theorem all_append (ts us : List Test) : all (ts ++ us) = both (all ts) (all us) := by
  induction ts with
  | nil => rfl
  | cons a ts ih => rw [List.cons_append, all_cons, all_cons, ih, both_assoc]

/-- All parts hold if there is none that fails. -/
theorem not_any_not (ts : List Test) : not (any (ts.map Test.not)) = all ts := by
  induction ts with
  | nil => rfl
  | cons a ts ih => rw [List.map_cons, any_cons, not_either_not, ih, all_cons]

end Test

/-- An operator asks its operand about nodes of the tree only. -/
theorem Operator.test_congr {t : Tree} (h : t.Linked) {id : NodeId} (hid : id < t.size)
    (op : Operator) {f g : NodeId → Test} (hfg : ∀ m < t.size, f m = g m) :
    op.test t id f = op.test t id g := by
  cases hrel : op.isRelational with
  | true =>
    rw [test_eq_targets h hid hrel, test_eq_targets h hid hrel]
    exact congrArg Test.any (List.map_congr_left fun m hm => hfg m (targets_lt h hid hm))
  | false =>
    obtain ⟨n, hn⟩ := Tree.lt_size_iff.mp hid
    cases op with
    | everyChild =>
      have hall : (t.children id).map f = (t.children id).map g :=
        List.map_congr_left fun m hm => hfg m (h.descending.child_lt hm)
      rw [test_everyChild hid, test_everyChild hid, hall]
    | childCount k => rw [test_childCount hid, test_childCount hid]
    | headIndex k => rw [test_headIndex hn, test_headIndex hn]
    | nextSibling | laterSibling =>
      rw [test_of_get hn, test_of_get hn]
      rfl
    | _ => cases hrel

namespace Pattern

variable [RegexEngine]

/-- No test tells the patterns apart. -/
def Equivalent (p q : Pattern) : Prop :=
  ∀ ⦃t : Tree⦄, t.WellFormed → ∀ ⦃id : NodeId⦄, id < t.size → p.test t id = q.test t id

namespace Equivalent

variable {p q r : Pattern}

theorem refl (p : Pattern) : Equivalent p p :=
  fun _ _ _ _ => rfl

theorem symm (h : Equivalent p q) : Equivalent q p :=
  fun _ ht _ hid => (h ht hid).symm

theorem trans (h : Equivalent p q) (h' : Equivalent q r) : Equivalent p r :=
  fun _ ht _ hid => (h ht hid).trans (h' ht hid)

theorem related (op : Operator) (h : Equivalent p q) :
    Equivalent (.related op p) (.related op q) :=
  fun _ ht _ hid => Operator.test_congr ht.linked hid op fun _ hm => h ht hm

theorem not (h : Equivalent p q) : Equivalent (.not p) (.not q) :=
  fun _ ht _ hid => congrArg Test.not (h ht hid)

theorem or {p' q' : Pattern} (hp : Equivalent p p') (hq : Equivalent q q') :
    Equivalent (.or p q) (.or p' q') :=
  fun _ ht _ hid => congrArg₂ Test.either (hp ht hid) (hq ht hid)

theorem group (h : Equivalent p q) : Equivalent (.group p) (.group q) :=
  fun _ ht _ hid => h ht hid

theorem optional (h : Equivalent p q) : Equivalent (.optional p) (.optional q) :=
  fun _ ht _ hid => congrArg Test.optional (h ht hid)

theorem capture (h : Equivalent p q) (var : String) :
    Equivalent (.capture p var) (.capture q var) :=
  fun _ ht id hid => congrArg (Test.capture · var id) (h ht hid)

/-- Constraints can be exchanged one by one. -/
theorem testAll {cs ds : List Pattern} (h : List.Forall₂ Equivalent cs ds) {t : Tree}
    (ht : t.WellFormed) {id : NodeId} (hid : id < t.size) :
    Pattern.testAll t cs id = Pattern.testAll t ds id := by
  induction h with
  | nil => rfl
  | cons hc _ ih => rw [Pattern.testAll, Pattern.testAll, hc ht hid, ih]

theorem node (a : Anchor) {cs ds : List Pattern} (h : List.Forall₂ Equivalent cs ds) :
    Equivalent (.node a cs) (.node a ds) :=
  fun _ ht _ hid => congrArg (Test.both _) (testAll h ht hid)

theorem all {cs ds : List Pattern} (h : List.Forall₂ Equivalent cs ds) :
    Equivalent (.all cs) (.all ds) :=
  fun _ ht _ hid => testAll h ht hid

end Equivalent

end Pattern

end TreeQuery
