namespace TreeQuery

variable {σ α : Type} {next : σ → Option α × σ} {s s' : σ} {xs : List α}

/-- What a call gives after so many others. -/
def callAfter (next : σ → Option α × σ) : Nat → σ → Option α
  | 0, s => (next s).1
  | n + 1, s => callAfter next n (next s).2

/-- The calls give the members of the list one after the other, and from then on nothing, however
often the machine is called. -/
def Yields (next : σ → Option α × σ) (s : σ) (xs : List α) : Prop :=
  ∀ n, callAfter next n s = xs[n]?

theorem Yields.cons {x : α} (h : next s = (some x, s')) (hs : Yields next s' xs) :
    Yields next s (x :: xs) := by
  intro n
  cases n with
  | zero => simp [callAfter, h]
  | succ n =>
    rw [callAfter, h]
    exact hs n

/-- Only what the next call does counts. -/
theorem Yields.congr (h : next s = next s') (hs : Yields next s' xs) : Yields next s xs := by
  intro n
  cases n with
  | zero =>
    rw [callAfter, h]
    exact hs 0
  | succ n =>
    rw [callAfter, h]
    exact hs (n + 1)

/-- A machine that gives nothing and stays as it is has ended for good. -/
theorem yields_nil (h : next s = (none, s)) : Yields next s [] := by
  intro n
  induction n with
  | zero => simp [callAfter, h]
  | succ n ih =>
    rw [callAfter, h]
    exact ih

theorem Yields.ended (h : next s = (none, s')) (h' : next s' = (none, s')) : Yields next s [] :=
  (yields_nil h').congr (h.trans h'.symm)

theorem Yields.unique {ys : List α} (h : Yields next s xs) (h' : Yields next s ys) : xs = ys :=
  List.ext_getElem? fun n => (h n).symm.trans (h' n)

theorem Yields.first (h : Yields next s xs) : (next s).1 = xs.head? := by
  rw [List.head?_eq_getElem?]
  exact h 0

/-- Steps that can fail give the members of the list one after the other, and then there is no
further step. -/
inductive Ends {ε : Type} (step : σ → Except ε (Option (α × σ))) : σ → List α → Prop
  | done {state} : step state = .ok none → Ends step state []
  | more {state rest x xs} :
      step state = .ok (some (x, rest)) → Ends step rest xs → Ends step state (x :: xs)

theorem Ends.unique {ε : Type} {step : σ → Except ε (Option (α × σ))} {ys : List α}
    (h : Ends step s xs) (h' : Ends step s ys) : xs = ys := by
  induction h generalizing ys with
  | done hs =>
    cases h' with
    | done => rfl
    | more hs' _ =>
      rw [hs] at hs'
      cases hs'
  | more hs _ ih =>
    cases h' with
    | done hs' =>
      rw [hs] at hs'
      cases hs'
    | more hs' hrest =>
      rw [hs] at hs'
      cases hs'
      rw [ih hrest]

end TreeQuery
