namespace TreeQuery

variable {ε ε' α β : Type}

theorem bind_eq_ok {x : Except ε α} {f : α → Except ε β} {b : β} :
    (x >>= f) = .ok b ↔ ∃ a, x = .ok a ∧ f a = .ok b := by
  cases x <;> simp [bind, Except.bind]

theorem map_eq_ok {x : Except ε α} {f : α → β} {b : β} :
    x.map f = .ok b ↔ ∃ a, x = .ok a ∧ f a = b := by
  cases x <;> simp [Except.map]

theorem mapError_eq_ok {x : Except ε α} {f : ε → ε'} {a : α} :
    x.mapError f = .ok a ↔ x = .ok a := by
  constructor
  · intro h
    cases x with
    | error e => cases h
    | ok b =>
      cases h
      rfl
  · intro h
    rw [h]
    rfl

/-- What a computation fails with, if it fails. -/
def error? : Except ε α → Option ε
  | .error e => some e
  | .ok _ => none

@[simp] theorem error?_error (e : ε) : error? (.error e : Except ε α) = some e :=
  rfl

@[simp] theorem error?_ok (a : α) : error? (.ok a : Except ε α) = none :=
  rfl

theorem error?_eq_some {x : Except ε α} {e : ε} : error? x = some e ↔ x = .error e := by
  cases x <;> simp

@[simp] theorem error?_map (x : Except ε α) (f : α → β) : error? (x.map f) = error? x := by
  cases x <;> rfl

@[simp] theorem error?_mapError (x : Except ε α) (f : ε → ε') :
    error? (x.mapError f) = (error? x).map f := by
  cases x <;> rfl

/-- The first of two steps that fails tells the error. -/
theorem error?_bind {x : Except ε α} {f : α → Except ε β} {r : Option ε}
    (h : ∀ a, error? (f a) = r) : error? (x >>= f) = (error? x).or r := by
  cases x with
  | error e => rfl
  | ok a => exact h a

section First

variable {xs : List α} {fault? : α → Option ε} {Fails : α → ε → Prop}

/-- The search finds the first that fails, and what it fails with. -/
theorem findSome?_eq_some_first (h : ∀ a ∈ xs, ∀ e, fault? a = some e ↔ Fails a e) {e : ε} :
    xs.findSome? fault? = some e ↔ ∃ before a after, xs = before ++ a :: after ∧
      (∀ b ∈ before, ∀ e, ¬Fails b e) ∧ Fails a e := by
  rw [List.findSome?_eq_some_iff]
  constructor
  · intro ⟨before, a, after, hxs, ha, hbefore⟩
    refine ⟨before, a, after, hxs, fun b hb e' he' => ?_, (h a (by simp [hxs]) e).mp ha⟩
    rw [← h b (by simp [hxs, hb]) e', hbefore b hb] at he'
    cases he'
  · intro ⟨before, a, after, hxs, hbefore, ha⟩
    refine ⟨before, a, after, hxs, (h a (by simp [hxs]) e).mpr ha, fun b hb => ?_⟩
    rw [Option.eq_none_iff_forall_ne_some]
    intro e' he'
    exact hbefore b hb e' ((h b (by simp [hxs, hb]) e').mp he')

theorem findSome?_fails_iff (h : ∀ a ∈ xs, ∀ e, fault? a = some e ↔ Fails a e) :
    (∃ e, xs.findSome? fault? = some e) ↔ ∃ a ∈ xs, ∃ e, Fails a e := by
  rw [← Option.isSome_iff_exists, List.findSome?_isSome_iff]
  constructor
  · intro ⟨a, ha, hsome⟩
    obtain ⟨e, he⟩ := Option.isSome_iff_exists.mp hsome
    exact ⟨a, ha, e, (h a ha e).mp he⟩
  · intro ⟨a, ha, e, he⟩
    exact ⟨a, ha, Option.isSome_iff_exists.mpr ⟨e, (h a ha e).mpr he⟩⟩

end First

end TreeQuery
