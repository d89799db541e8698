import TreeQuery.Pattern.Satisfaction

namespace TreeQuery

namespace Test

variable {a b : Test} {s : Bindings}

theorem both_of_true (h : (a s).answer = .ok true) : both a b s = b (a s).bindings := by
  unfold both
  rcases ho : a s with ⟨_ | _ | _, s'⟩ <;> simp [ho] at h ⊢

theorem both_of_not_true (h : (a s).answer ≠ .ok true) : both a b s = a s := by
  unfold both
  rcases ho : a s with ⟨_ | _ | _, s'⟩ <;> simp [ho] at h ⊢

theorem either_of_false (h : (a s).answer = .ok false) : either a b s = b (a s).bindings := by
  unfold either
  rcases ho : a s with ⟨_ | _ | _, s'⟩ <;> simp [ho] at h ⊢

theorem either_of_not_false (h : (a s).answer ≠ .ok false) : either a b s = a s := by
  unfold either
  rcases ho : a s with ⟨_ | _ | _, s'⟩ <;> simp [ho] at h ⊢

theorem not_eq : not a s = ⟨(a s).answer.map (! ·), (a s).bindings⟩ := by
  unfold Test.not
  rcases a s with ⟨_ | _ | _, s'⟩ <;> rfl

theorem optional_eq : optional a s = ⟨(a s).answer.map fun _ => true, (a s).bindings⟩ := by
  unfold Test.optional
  rcases a s with ⟨_ | _ | _, s'⟩ <;> rfl

/-- Capturing is going on to bind the variable. -/
theorem capture_eq (a : Test) (var : String) (id : NodeId) :
    capture a var id = both a fun s => ⟨.ok true, s.bind var id⟩ := by
  funext s
  unfold capture both
  rcases a s with ⟨_ | _ | _, s'⟩ <;> rfl

theorem any_cons (ts : List Test) : any (a :: ts) = either a (any ts) :=
  rfl

theorem all_cons (ts : List Test) : all (a :: ts) = both a (all ts) :=
  rfl

end Test

theorem Anchor.test_of_get [RegexEngine] {t : Tree} {id : NodeId} {n : Node}
    (hn : t.get? id = some n) (a : Anchor) : a.test t id = a.testNode t n id := by
  simp [test, Tree.get, hn]

theorem Pattern.testAll_eq [RegexEngine] (t : Tree) (cs : List Pattern) (id : NodeId) :
    testAll t cs id = Test.all (cs.map fun c => c.test t id) := by
  induction cs with
  | nil => rfl
  | cons c cs ih => rw [testAll, ih, List.map_cons, Test.all_cons]

end TreeQuery
