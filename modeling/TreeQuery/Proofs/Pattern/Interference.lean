import TreeQuery.Proofs.Pattern.Containment
import TreeQuery.Regex.Engine
import TreeQuery.Unicode.Version15

namespace TreeQuery

namespace Bindings

/-- What `s'` binds is what `w` binds and, where `w` binds nothing, what `s` binds. -/
def Overwritten (s w s' : Bindings) : Prop :=
  ∀ v, s'.lookup? v = (w.lookup? v).or (s.lookup? v)

theorem overwritten_empty (s : Bindings) : s.Overwritten .empty s :=
  fun _ => rfl

theorem Overwritten.bind {s w s' : Bindings} (h : s.Overwritten w s') (var : String)
    (id : NodeId) : s.Overwritten (w.bind var id) (s'.bind var id) := by
  intro v
  rw [lookup_bind, lookup_bind]
  by_cases hv : v = var
  · simp [hv]
  · simp [hv, h v]

/-- The variables of a list of writes make up a map of their own. -/
theorem Overwritten.overwrite {s w s' : Bindings} (h : s.Overwritten w s')
    (ws : List (String × NodeId)) : s.Overwritten (w.overwrite ws) (s'.overwrite ws) := by
  induction ws generalizing w s' with
  | nil => exact h
  | cons x ws ih => exact ih (h.bind x.1 x.2)

theorem Overwritten.contains {s w s' : Bindings} (h : s.Overwritten w s') {v : String}
    (hv : s.contains v = true) : s'.contains v = true := by
  rw [Bindings.contains, Option.isSome_iff_exists] at hv ⊢
  obtain ⟨id, hid⟩ := hv
  rw [h v, hid]
  cases w.lookup? v with
  | none => exact ⟨id, rfl⟩
  | some m => exact ⟨m, rfl⟩

theorem Overwritten.lookup_eq {s w s' : Bindings} (h : s.Overwritten w s') {v : String}
    (hv : ¬ w.contains v = true) : s'.lookup? v = s.lookup? v := by
  rw [Bindings.contains, Bool.not_eq_true, Option.isSome_eq_false_iff, Option.isNone_iff_eq_none]
    at hv
  rw [h v, hv]
  rfl

end Bindings

open Bindings

namespace Pattern

section

variable [RegexEngine]

/-- From bindings that agree on what the pattern refers to, evaluation has the same outcome, which
is an answer or an error of the pattern, and makes the same changes: it binds nodes to variables
that the pattern captures, unbinds nothing and leaves every other variable as it was. -/
theorem test_of_agreeOn {t : Tree} (h : t.Linked) {id : NodeId} (hid : id < t.size)
    (p : Pattern) {s₁ s₂ : Bindings} (h₁ : s₁.Within (· < t.size)) (h₂ : s₂.Within (· < t.size))
    (hs : AgreeOn p.references s₁ s₂) :
    ∃ (o : Except MatchError Bool) (w : Bindings),
      (∀ link, o ≠ .error (.broken link)) ∧ (∀ v, w.contains v = true → v ∈ p.captures) ∧
      ∀ s, s = s₁ ∨ s = s₂ → (p.test t id s).answer = o ∧
        s.Overwritten w (p.test t id s).bindings ∧
        (∀ v, s.contains v = true → (p.test t id s).bindings.contains v = true) ∧
        ∀ v, v ∉ p.captures → (p.test t id s).bindings.lookup? v = s.lookup? v := by
  obtain ⟨o, ws, hws, he₁, he₂⟩ := test_local t p id s₁ s₂ hs
  have hcaps : ∀ v, (Bindings.empty.overwrite ws).contains v = true → v ∈ p.captures := by
    intro v hv
    rcases contains_of_overwrite hv with hv | hv
    · cases hv
    · obtain ⟨w, hw, rfl⟩ := hv
      exact hws w hw
  refine ⟨o, Bindings.empty.overwrite ws, ?_, hcaps, ?_⟩
  · intro link hlink
    have hraised := (test_contained h h.closed_all p hid s₁ h₁).2.2 (.broken link)
    rw [he₁] at hraised
    exact Raised.not_broken (hraised hlink)
  · intro s hs
    have he : p.test t id s = ⟨o, s.overwrite ws⟩ := by
      rcases hs with rfl | rfl
      · exact he₁
      · exact he₂
    have hover : s.Overwritten (Bindings.empty.overwrite ws) (s.overwrite ws) :=
      (overwritten_empty s).overwrite ws
    rw [he]
    exact ⟨rfl, hover, fun v hv => hover.contains hv,
      fun v hv => hover.lookup_eq fun hw => hv (hcaps v hw)⟩

end

/-- Below the sentence there is a phrase whose child compares with `A`; on the way there some other
node may have been bound to `B`. -/
def aboveBound : Pattern :=
  .node (.label "S")
    [.optional (.related .everyChild (.node (.capture (.label "NP") "B") [])),
     .related .child (.node (.capture .any "B") [.related .child (.node (.sameAs "A") [])])]

theorem test_of_agreeOn_sentence :
    let s₁ := (Bindings.empty.bind "A" 5).bind "B" 2
    let s₂ := (Bindings.empty.bind "D" 3).bind "A" 5
    Tree.sentence.Linked ∧ 0 < Tree.sentence.size ∧ s₁.Within (· < Tree.sentence.size) ∧
      s₂.Within (· < Tree.sentence.size) ∧ AgreeOn aboveBound.references s₁ s₂ ∧
      ∃ (o : Except MatchError Bool) (w : Bindings), (∀ link, o ≠ .error (.broken link)) ∧
        (∀ v, w.contains v = true → v ∈ aboveBound.captures) ∧
        ∀ s, s = s₁ ∨ s = s₂ → (aboveBound.test Tree.sentence 0 s).answer = o ∧
          s.Overwritten w (aboveBound.test Tree.sentence 0 s).bindings ∧
          (∀ v, s.contains v = true →
            (aboveBound.test Tree.sentence 0 s).bindings.contains v = true) ∧
          ∀ v, v ∉ aboveBound.captures →
            (aboveBound.test Tree.sentence 0 s).bindings.lookup? v = s.lookup? v := by
  let C : NodeId → Prop := (· < Tree.sentence.size)
  have hw (v w : String) {a b : NodeId} (ha : C a) (hb : C b) :
      ((Bindings.empty.bind v a).bind w b).Within C :=
    (within_empty.bind ha v).bind hb w
  have h₁ := hw "A" "B" (show C 5 by decide) (show C 2 by decide)
  have h₂ := hw "D" "A" (show C 3 by decide) (show C 5 by decide)
  have hs : AgreeOn aboveBound.references ((Bindings.empty.bind "A" 5).bind "B" 2)
      ((Bindings.empty.bind "D" 3).bind "A" 5) := by
    unfold AgreeOn
    decide
  exact ⟨Tree.sentence_wellFormed.linked, by decide, h₁, h₂, hs,
    test_of_agreeOn Tree.sentence_wellFormed.linked (by decide) aboveBound h₁ h₂ hs⟩

end Pattern

end TreeQuery
