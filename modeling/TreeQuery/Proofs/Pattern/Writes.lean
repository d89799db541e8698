import TreeQuery.Proofs.Pattern.Parts
import TreeQuery.Proofs.Pattern.Tests

namespace TreeQuery

namespace Bindings

theorem lookup_filter_ne {es : List (String × NodeId)} {v w : String} (h : w ≠ v) :
    (es.filter (·.1 ≠ v)).lookup w = es.lookup w := by
  induction es with
  | nil => rfl
  | cons e es ih =>
    obtain ⟨x, id⟩ := e
    by_cases hx : x = v
    · have hw : (w == x) = false := by simpa [hx] using h
      rw [List.filter_cons_of_neg (by simpa using hx), List.lookup_cons, hw, ih]
    · rw [List.filter_cons_of_pos (by simpa using hx), List.lookup_cons, List.lookup_cons, ih]

theorem lookup_bind (s : Bindings) (v w : String) (id : NodeId) :
    (s.bind v id).lookup? w = if w = v then some id else s.lookup? w := by
  by_cases h : w = v
  · simp [lookup?, bind, h]
  · have hw : (w == v) = false := by simpa using h
    rw [if_neg h, lookup?, bind, List.lookup_cons, hw]
    exact lookup_filter_ne h

/-- Binds one variable after another. -/
def overwrite (s : Bindings) (ws : List (String × NodeId)) : Bindings :=
  ws.foldl (fun s w => s.bind w.1 w.2) s

theorem overwrite_append (s : Bindings) (ws vs : List (String × NodeId)) :
    s.overwrite (ws ++ vs) = (s.overwrite ws).overwrite vs :=
  List.foldl_append

theorem lookup_overwrite_of_not_mem {s : Bindings} {ws : List (String × NodeId)} {v : String}
    (h : ∀ w ∈ ws, w.1 ≠ v) : (s.overwrite ws).lookup? v = s.lookup? v := by
  induction ws generalizing s with
  | nil => rfl
  | cons w ws ih =>
    obtain ⟨hw, hws⟩ := List.forall_mem_cons.mp h
    have hv : (s.overwrite (w :: ws)).lookup? v = (s.bind w.1 w.2).lookup? v := ih hws
    rw [hv, lookup_bind, if_neg (Ne.symm hw)]

theorem contains_of_overwrite {s : Bindings} {ws : List (String × NodeId)} {v : String}
    (h : (s.overwrite ws).contains v = true) : s.contains v = true ∨ ∃ w ∈ ws, w.1 = v := by
  by_cases hv : ∃ w ∈ ws, w.1 = v
  · exact .inr hv
  · left
    have hne : ∀ w ∈ ws, w.1 ≠ v := fun w hw he => hv ⟨w, hw, he⟩
    rwa [contains, lookup_overwrite_of_not_mem hne] at h

/-- Both bind the same node, or neither binds any, to each of the variables. -/
def AgreeOn (vs : List String) (s₁ s₂ : Bindings) : Prop :=
  ∀ v ∈ vs, s₁.lookup? v = s₂.lookup? v

theorem AgreeOn.mono {vs us : List String} {s₁ s₂ : Bindings} (h : AgreeOn vs s₁ s₂)
    (hsub : us ⊆ vs) : AgreeOn us s₁ s₂ :=
  fun v hv => h v (hsub hv)

theorem AgreeOn.bind {vs : List String} {s₁ s₂ : Bindings} (h : AgreeOn vs s₁ s₂) (v : String)
    (id : NodeId) : AgreeOn vs (s₁.bind v id) (s₂.bind v id) := by
  intro w hw
  rw [lookup_bind, lookup_bind, h w hw]

theorem AgreeOn.overwrite {vs : List String} {s₁ s₂ : Bindings} (h : AgreeOn vs s₁ s₂)
    (ws : List (String × NodeId)) : AgreeOn vs (s₁.overwrite ws) (s₂.overwrite ws) := by
  induction ws generalizing s₁ s₂ with
  | nil => exact h
  | cons w ws ih => exact ih (h.bind w.1 w.2)

end Bindings

open Bindings

namespace Test

/-- The test looks at no variable but those of `refs` and binds none but those of `caps`. -/
def Local (refs caps : List String) (a : Test) : Prop :=
  ∀ s₁ s₂, AgreeOn refs s₁ s₂ → ∃ o ws, (∀ w ∈ ws, w.1 ∈ caps) ∧
    a s₁ = ⟨o, s₁.overwrite ws⟩ ∧ a s₂ = ⟨o, s₂.overwrite ws⟩

variable {refs caps : List String} {a b : Test}

theorem Local.mono {refs' caps' : List String} (ha : a.Local refs caps) (hr : refs ⊆ refs')
    (hc : caps ⊆ caps') : a.Local refs' caps' := by
  intro s₁ s₂ hs
  obtain ⟨o, ws, hws, h₁, h₂⟩ := ha s₁ s₂ (hs.mono hr)
  exact ⟨o, ws, fun w hw => hc (hws w hw), h₁, h₂⟩

theorem local_answer (x : Bool) : (answer x).Local refs caps :=
  fun _ _ _ => ⟨.ok x, [], by simp, rfl, rfl⟩

theorem local_fail (e : MatchError) : (fail e).Local refs caps :=
  fun _ _ _ => ⟨.error e, [], by simp, rfl, rfl⟩

/-- Going on with `b` after one of the outcomes of `a`. -/
theorem Local.andThen (ha : a.Local refs caps) (hb : b.Local refs caps)
    {c : Test} (stop : Except MatchError Bool)
    (hgo : ∀ s, (a s).answer = stop → c s = b (a s).bindings)
    (hstop : ∀ s, (a s).answer ≠ stop → c s = a s) : c.Local refs caps := by
  intro s₁ s₂ hs
  obtain ⟨o, ws, hws, h₁, h₂⟩ := ha s₁ s₂ hs
  by_cases ho : o = stop
  · obtain ⟨o', vs, hvs, hb₁, hb₂⟩ := hb _ _ (hs.overwrite ws)
    refine ⟨o', ws ++ vs, ?_, ?_, ?_⟩
    · intro w hw
      rcases List.mem_append.mp hw with hw | hw
      · exact hws w hw
      · exact hvs w hw
    · rw [hgo s₁ (by rw [h₁, ho]), h₁, overwrite_append]
      exact hb₁
    · rw [hgo s₂ (by rw [h₂, ho]), h₂, overwrite_append]
      exact hb₂
  · exact ⟨o, ws, hws, by rw [hstop s₁ (by rw [h₁]; exact ho), h₁],
      by rw [hstop s₂ (by rw [h₂]; exact ho), h₂]⟩

theorem Local.both (ha : a.Local refs caps) (hb : b.Local refs caps) :
    (both a b).Local refs caps :=
  ha.andThen hb (.ok true) (fun _ => both_of_true) (fun _ => both_of_not_true)

theorem Local.either (ha : a.Local refs caps) (hb : b.Local refs caps) :
    (either a b).Local refs caps :=
  ha.andThen hb (.ok false) (fun _ => either_of_false) (fun _ => either_of_not_false)

theorem Local.not (ha : a.Local refs caps) : (not a).Local refs caps := by
  intro s₁ s₂ hs
  obtain ⟨o, ws, hws, h₁, h₂⟩ := ha s₁ s₂ hs
  exact ⟨o.map (! ·), ws, hws, by rw [not_eq, h₁], by rw [not_eq, h₂]⟩

theorem Local.optional (ha : a.Local refs caps) : (optional a).Local refs caps := by
  intro s₁ s₂ hs
  obtain ⟨o, ws, hws, h₁, h₂⟩ := ha s₁ s₂ hs
  exact ⟨o.map fun _ => true, ws, hws, by rw [optional_eq, h₁], by rw [optional_eq, h₂]⟩

theorem local_bind {var : String} (hv : var ∈ caps) (id : NodeId) :
    Local refs caps fun s => ⟨.ok true, s.bind var id⟩ :=
  fun _ _ _ => ⟨.ok true, [(var, id)], by simpa using hv, rfl, rfl⟩

theorem Local.capture (ha : a.Local refs caps) {var : String} (hv : var ∈ caps) (id : NodeId) :
    (capture a var id).Local refs caps := by
  rw [capture_eq]
  exact ha.both (local_bind hv id)

theorem local_any {ts : List Test} (h : ∀ a ∈ ts, a.Local refs caps) :
    (any ts).Local refs caps := by
  induction ts with
  | nil => exact local_answer false
  | cons a ts ih =>
    obtain ⟨ha, hts⟩ := List.forall_mem_cons.mp h
    exact ha.either (ih hts)

theorem local_all {ts : List Test} (h : ∀ a ∈ ts, a.Local refs caps) :
    (all ts).Local refs caps := by
  induction ts with
  | nil => exact local_answer true
  | cons a ts ih =>
    obtain ⟨ha, hts⟩ := List.forall_mem_cons.mp h
    exact ha.both (ih hts)

/-- What a test leaves is what it was given, overwritten in places it may bind. -/
theorem Local.exists_overwrite (ha : a.Local refs caps) (s : Bindings) :
    ∃ ws, (∀ w ∈ ws, w.1 ∈ caps) ∧ (a s).bindings = s.overwrite ws := by
  obtain ⟨o, ws, hws, h, _⟩ := ha s s fun _ _ => rfl
  exact ⟨ws, hws, by rw [h]⟩

theorem Local.bindings_eq (ha : a.Local refs []) (s : Bindings) : (a s).bindings = s := by
  obtain ⟨ws, hws, h⟩ := ha.exists_overwrite s
  have hn : ws = [] := List.eq_nil_iff_forall_not_mem.mpr fun w hw => List.not_mem_nil (hws w hw)
  rw [h, hn]
  rfl

end Test

theorem Anchor.sameAsTest_local {t : Tree} {n : Node} {var : String} {refs caps : List String}
    (hv : var ∈ refs) : (sameAsTest t n var).Local refs caps := by
  intro s₁ s₂ hs
  have hl := hs var hv
  cases h₂ : s₂.lookup? var with
  | none =>
    rw [h₂] at hl
    exact ⟨.error (.unbound var), [], by simp, by simp only [sameAsTest, hl]; rfl,
      by simp only [sameAsTest, h₂]; rfl⟩
  | some id =>
    rw [h₂] at hl
    cases hn : t.get id with
    | error link =>
      exact ⟨.error (.broken link), [], by simp, by simp only [sameAsTest, hl, hn]; rfl,
        by simp only [sameAsTest, h₂, hn]; rfl⟩
    | ok bound =>
      exact ⟨.ok (bound.agrees n.toMark), [], by simp, by simp only [sameAsTest, hl, hn]; rfl,
        by simp only [sameAsTest, h₂, hn]; rfl⟩

theorem Anchor.testNode_local [RegexEngine] {t : Tree} {n : Node} {id : NodeId} {a : Anchor}
    {refs caps : List String} (hr : ∀ v, .reference v ∈ a.mentions → v ∈ refs)
    (hc : ∀ v, .capture v ∈ a.mentions → v ∈ caps) : (a.testNode t n id).Local refs caps := by
  induction a with
  | sameAs var => exact sameAsTest_local (hr var List.mem_cons_self)
  | differentFrom var => exact (sameAsTest_local (hr var List.mem_cons_self)).not
  | capture anchor var ih =>
    refine (ih ?_ ?_).capture (hc var (List.mem_append_right _ List.mem_cons_self)) id
    · exact fun v hv => hr v (List.mem_append_left _ hv)
    · exact fun v hv => hc v (List.mem_append_left _ hv)
  | _ => exact Test.local_answer _

theorem Anchor.test_local [RegexEngine] {t : Tree} {id : NodeId} {a : Anchor}
    {refs caps : List String} (hr : ∀ v, .reference v ∈ a.mentions → v ∈ refs)
    (hc : ∀ v, .capture v ∈ a.mentions → v ∈ caps) : (a.test t id).Local refs caps := by
  unfold test
  rcases t.get id with _ | n
  · exact Test.local_fail _
  · exact testNode_local hr hc

/-- An operator looks at and binds what its operand does. -/
theorem Operator.test_local {t : Tree} {id : NodeId} {op : Operator} {operand : NodeId → Test}
    {refs caps : List String} (h : ∀ m, (operand m).Local refs caps) :
    (op.test t id operand).Local refs caps := by
  unfold test
  rcases t.get id with _ | n
  · exact Test.local_fail _
  · simp only
    cases op.reach t id n with
    | some steps =>
      apply Test.local_any
      intro a ha
      obtain ⟨step, _, rfl⟩ := List.mem_map.mp ha
      rcases step with link | m
      · exact Test.local_fail _
      · exact h m
    | every ids =>
      apply Test.local_all
      intro a ha
      obtain ⟨m, _, rfl⟩ := List.mem_map.mp ha
      exact h m
    | decided holds => exact Test.local_answer holds
    | unsupported => exact Test.local_fail _

namespace Pattern

variable [RegexEngine]

theorem test_local (t : Tree) (p : Pattern) (id : NodeId) :
    (p.test t id).Local p.references p.captures := by
  have lift : ∀ {c p : Pattern} {m : NodeId}, Part c p →
      (c.test t m).Local c.references c.captures → (c.test t m).Local p.references p.captures :=
    fun hp hc => hc.mono hp.references_subset hp.captures_subset
  induction p generalizing id with
  | node a cs ih =>
    have ha : (a.test t id).Local (node a cs).references (node a cs).captures := by
      apply Anchor.test_local
      · exact fun v hv => mem_references.mpr (List.mem_append_left _ hv)
      · exact fun v hv => mem_captures.mpr (List.mem_append_left _ hv)
    refine ha.both ?_
    rw [testAll_eq]
    apply Test.local_all
    intro b hb
    obtain ⟨c, hc, rfl⟩ := List.mem_map.mp hb
    exact lift (.constraint hc) (ih c hc id)
  | related op p ih => exact Operator.test_local fun m => lift .operand (ih m)
  | not p ih => exact (lift .negated (ih id)).not
  | or p q ihp ihq => exact (lift .left (ihp id)).either (lift .right (ihq id))
  | group p ih =>
    have hp : (p.test t id).Local (group p).references (group p).captures := lift .grouped (ih id)
    exact hp
  | all cs ih =>
    rw [test, testAll_eq]
    apply Test.local_all
    intro b hb
    obtain ⟨c, hc, rfl⟩ := List.mem_map.mp hb
    exact lift (.member hc) (ih c hc id)
  | optional p ih => exact (lift .option (ih id)).optional
  | capture p var ih =>
    refine (lift .captured (ih id)).capture ?_ id
    exact mem_captures.mpr (List.mem_append_right _ List.mem_cons_self)

end Pattern

end TreeQuery
