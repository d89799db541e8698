import TreeQuery.Proofs.Pattern.Operators
import TreeQuery.Proofs.Pattern.Writes
import TreeQuery.Proofs.Tree.Components

namespace TreeQuery

/-- All bound nodes are among those of `C`. -/
def Bindings.Within (C : NodeId → Prop) (s : Bindings) : Prop :=
  ∀ v id, s.lookup? v = some id → C id

theorem Bindings.within_empty {C : NodeId → Prop} : Within C .empty :=
  fun _ _ h => by cases h

theorem Bindings.Within.bind {C : NodeId → Prop} {s : Bindings} (hs : s.Within C) {id : NodeId}
    (hid : C id) (var : String) : (s.bind var id).Within C := by
  intro v m hm
  rw [lookup_bind] at hm
  split at hm
  · cases hm
    exact hid
  · exact hs v m hm

/-- The errors of an evaluation that begins with the bindings `s`, where the pattern refers to the
variables `refs` and has the operators `ops`. -/
inductive Raised (refs : List String) (ops : List Operator) (s : Bindings) : MatchError → Prop
  | unbound {v} : v ∈ refs → s.lookup? v = none → Raised refs ops s (.unbound v)
  | unsupported {op} : op ∈ ops → op = .nextSibling ∨ op = .laterSibling →
      Raised refs ops s (.unsupported op)

theorem Raised.not_broken {refs : List String} {ops : List Operator} {s : Bindings}
    {link : BrokenLink} : ¬ Raised refs ops s (.broken link) := by
  intro h
  cases h

/-- An error after some more has been bound could have been raised before. -/
theorem Raised.of_kept {refs : List String} {ops : List Operator} {s s' : Bindings}
    (hkeep : ∀ v, s'.lookup? v = none → s.lookup? v = none) {e : MatchError}
    (he : Raised refs ops s' e) : Raised refs ops s e := by
  cases he with
  | unbound hv hn => exact .unbound hv (hkeep _ hn)
  | unsupported hop hno => exact .unsupported hop hno

namespace Test

/-- From bindings within `C` the test comes to bindings within `C`. It unbinds nothing and raises no
errors but those listed. -/
def Contained (C : NodeId → Prop) (refs : List String) (ops : List Operator) (a : Test) : Prop :=
  ∀ s, s.Within C → (a s).bindings.Within C ∧
    (∀ v, (a s).bindings.lookup? v = none → s.lookup? v = none) ∧
    ∀ e, (a s).answer = .error e → Raised refs ops s e

variable {C : NodeId → Prop} {refs : List String} {ops : List Operator} {a b : Test}

theorem Contained.mono {refs' : List String} {ops' : List Operator} (ha : a.Contained C refs ops)
    (hr : refs ⊆ refs') (ho : ops ⊆ ops') : a.Contained C refs' ops' := by
  intro s hs
  obtain ⟨hin, hkeep, herr⟩ := ha s hs
  refine ⟨hin, hkeep, fun e he => ?_⟩
  cases herr e he with
  | unbound hv hn => exact .unbound (hr hv) hn
  | unsupported hop hno => exact .unsupported (ho hop) hno

theorem contained_answer (x : Bool) : (answer x).Contained C refs ops :=
  fun _ hs => ⟨hs, fun _ h => h, fun _ he => by cases he⟩

theorem Contained.andThen (ha : a.Contained C refs ops) (hb : b.Contained C refs ops) {c : Test}
    (hc : ∀ s, c s = b (a s).bindings ∨ c s = a s) : c.Contained C refs ops := by
  intro s hs
  obtain ⟨hin, hkeep, herr⟩ := ha s hs
  rcases hc s with h | h
  · obtain ⟨hin', hkeep', herr'⟩ := hb _ hin
    rw [h]
    exact ⟨hin', fun v hv => hkeep v (hkeep' v hv), fun e he => (herr' e he).of_kept hkeep⟩
  · rw [h]
    exact ⟨hin, hkeep, herr⟩

theorem Contained.both (ha : a.Contained C refs ops) (hb : b.Contained C refs ops) :
    (both a b).Contained C refs ops := by
  refine ha.andThen hb fun s => ?_
  by_cases h : (a s).answer = .ok true
  · exact .inl (both_of_true h)
  · exact .inr (both_of_not_true h)

theorem Contained.either (ha : a.Contained C refs ops) (hb : b.Contained C refs ops) :
    (either a b).Contained C refs ops := by
  refine ha.andThen hb fun s => ?_
  by_cases h : (a s).answer = .ok false
  · exact .inl (either_of_false h)
  · exact .inr (either_of_not_false h)

/-- Another answer in place of a proper one changes nothing else. -/
theorem Contained.map (ha : a.Contained C refs ops) (f : Bool → Bool) {c : Test}
    (hc : ∀ s, c s = ⟨(a s).answer.map f, (a s).bindings⟩) : c.Contained C refs ops := by
  intro s hs
  obtain ⟨hin, hkeep, herr⟩ := ha s hs
  rw [hc]
  refine ⟨hin, hkeep, fun e he => herr e ?_⟩
  cases h : (a s).answer with
  | ok x => simp [h, Except.map] at he
  | error e' => simpa [h, Except.map] using he

theorem Contained.not (ha : a.Contained C refs ops) : (not a).Contained C refs ops :=
  ha.map (! ·) fun _ => not_eq

theorem Contained.optional (ha : a.Contained C refs ops) : (optional a).Contained C refs ops :=
  ha.map (fun _ => true) fun _ => optional_eq

theorem contained_bind {id : NodeId} (hid : C id) (var : String) :
    Contained C refs ops fun s => ⟨.ok true, s.bind var id⟩ := by
  refine fun s hs => ⟨hs.bind hid var, fun v hv => ?_, fun e he => by cases he⟩
  rw [Bindings.lookup_bind] at hv
  split at hv
  · cases hv
  · exact hv

theorem Contained.capture (ha : a.Contained C refs ops) (var : String) {id : NodeId}
    (hid : C id) : (capture a var id).Contained C refs ops := by
  rw [capture_eq]
  exact ha.both (contained_bind hid var)

theorem contained_any {ts : List Test} (h : ∀ a ∈ ts, a.Contained C refs ops) :
    (any ts).Contained C refs ops := by
  induction ts with
  | nil => exact contained_answer false
  | cons a ts ih =>
    obtain ⟨ha, hts⟩ := List.forall_mem_cons.mp h
    exact ha.either (ih hts)

theorem contained_all {ts : List Test} (h : ∀ a ∈ ts, a.Contained C refs ops) :
    (all ts).Contained C refs ops := by
  induction ts with
  | nil => exact contained_answer true
  | cons a ts ih =>
    obtain ⟨ha, hts⟩ := List.forall_mem_cons.mp h
    exact ha.both (ih hts)

end Test

variable {t : Tree} {C : NodeId → Prop}

theorem Anchor.sameAsTest_contained (hC : t.Closed C) {n : Node} {var : String}
    {refs : List String} {ops : List Operator} (hv : var ∈ refs) :
    (sameAsTest t n var).Contained C refs ops := by
  intro s hs
  unfold sameAsTest
  cases hl : s.lookup? var with
  | none => exact ⟨hs, fun _ h => h, fun e he => by cases he; exact .unbound hv hl⟩
  | some id =>
    obtain ⟨m, hm⟩ := Tree.lt_size_iff.mp (hC.lt_size (hs var id hl))
    simp only [Tree.get, hm]
    exact ⟨hs, fun _ h => h, fun e he => by cases he⟩

theorem Anchor.test_contained [RegexEngine] (hC : t.Closed C) {id : NodeId} (hid : C id)
    {a : Anchor}
    {refs : List String} {ops : List Operator} (hr : ∀ v, .reference v ∈ a.mentions → v ∈ refs) :
    (a.test t id).Contained C refs ops := by
  obtain ⟨n, hn⟩ := Tree.lt_size_iff.mp (hC.lt_size hid)
  rw [test_of_get hn]
  induction a with
  | sameAs var => exact sameAsTest_contained hC (hr var List.mem_cons_self)
  | differentFrom var => exact (sameAsTest_contained hC (hr var List.mem_cons_self)).not
  | capture anchor var ih =>
    exact (ih fun v hv => hr v (List.mem_append_left _ hv)).capture var hid
  | _ => exact Test.contained_answer _

namespace Pattern

variable [RegexEngine]

/-- Evaluation stays within any part of the arena that no link leaves. -/
theorem test_contained (h : t.Linked) (hC : t.Closed C) (p : Pattern) {id : NodeId}
    (hid : C id) : (p.test t id).Contained C p.references p.operators := by
  have lift : ∀ {c p : Pattern} {m : NodeId}, Part c p →
      (c.test t m).Contained C c.references c.operators →
        (c.test t m).Contained C p.references p.operators :=
    fun hp hc => hc.mono hp.references_subset (hp.collect_subset _ _ _)
  induction p generalizing id with
  | node a cs ih =>
    have ha : (a.test t id).Contained C (node a cs).references (node a cs).operators :=
      Anchor.test_contained hC hid fun v hv => mem_references.mpr (List.mem_append_left _ hv)
    refine ha.both ?_
    rw [testAll_eq]
    apply Test.contained_all
    intro b hb
    obtain ⟨c, hc, rfl⟩ := List.mem_map.mp hb
    exact lift (.constraint hc) (ih c hc hid)
  | related op p ih =>
    refine Operator.test_rule h (hC.lt_size hid) Test.contained_answer (fun hop => ?_)
      Test.contained_any Test.contained_all fun m hm => lift .operand (ih (hm.inside h hC hid))
    refine fun s hs => ⟨hs, fun _ h => h, fun e he => ?_⟩
    cases he
    exact .unsupported List.mem_cons_self hop
  | not p ih => exact (lift .negated (ih hid)).not
  | or p q ihp ihq => exact (lift .left (ihp hid)).either (lift .right (ihq hid))
  | group p ih =>
    have hp : (p.test t id).Contained C (group p).references (group p).operators :=
      lift .grouped (ih hid)
    exact hp
  | all cs ih =>
    rw [test, testAll_eq]
    apply Test.contained_all
    intro b hb
    obtain ⟨c, hc, rfl⟩ := List.mem_map.mp hb
    exact lift (.member hc) (ih c hc hid)
  | optional p ih => exact (lift .option (ih hid)).optional
  | capture p var ih => exact (lift .captured (ih hid)).capture var hid

end Pattern

end TreeQuery
