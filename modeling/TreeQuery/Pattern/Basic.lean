import TreeQuery.Pattern.Operator
import TreeQuery.Regex.TextRegex

namespace TreeQuery

variable [RegexEngine]

inductive Anchor
  | any
  | label (text : String)
  | labelMatching (re : TextRegex)
  | word (text : String)
  | wordMatching (re : TextRegex)
  /-- The category whose printed form is `text`. -/
  | category (text : String)
  | categoryMatching (re : TextRegex)
  /-- The node agrees with the one that `var` is bound to. -/
  | sameAs (var : String)
  | differentFrom (var : String)
  | capture (anchor : Anchor) (var : String)
deriving DecidableEq

inductive Pattern
  | node (anchor : Anchor) (constraints : List Pattern)
  /-- Some node that stands in the relation `op` satisfies the operand. -/
  | related (op : Operator) (operand : Pattern)
  | not (p : Pattern)
  | or (p q : Pattern)
  | group (p : Pattern)
  | all (constraints : List Pattern)
  /-- Holds whether or not `p` does, and keeps what `p` captures. -/
  | optional (p : Pattern)
  | capture (p : Pattern) (var : String)

namespace Pattern

mutual

/-- Whether two patterns are equal. -/
def same : Pattern → Pattern → Bool
  | node a cs, node b ds => a = b && sameAll cs ds
  | related op p, related op' q => op = op' && same p q
  | not p, not q => same p q
  | or p p', or q q' => same p q && same p' q'
  | group p, group q => same p q
  | all cs, all ds => sameAll cs ds
  | optional p, optional q => same p q
  | capture p v, capture q w => v = w && same p q
  | _, _ => false

def sameAll : List Pattern → List Pattern → Bool
  | [], [] => true
  | p :: ps, q :: qs => same p q && sameAll ps qs
  | _, _ => false

end

mutual

theorem eq_of_same : ∀ {p q : Pattern}, same p q = true → p = q
  | node a cs, q, h => by
    cases q with
    | node b ds =>
      simp only [same, Bool.and_eq_true, decide_eq_true_eq] at h
      rw [h.1, eq_of_sameAll h.2]
    | _ => simp [same] at h
  | related op p, q, h => by
    cases q with
    | related op' q =>
      simp only [same, Bool.and_eq_true, decide_eq_true_eq] at h
      rw [h.1, eq_of_same h.2]
    | _ => simp [same] at h
  | not p, q, h => by
    cases q with
    | not q => rw [eq_of_same (p := p) (by simpa only [same] using h)]
    | _ => simp [same] at h
  | or p p', q, h => by
    cases q with
    | or q q' =>
      simp only [same, Bool.and_eq_true] at h
      rw [eq_of_same h.1, eq_of_same h.2]
    | _ => simp [same] at h
  | group p, q, h => by
    cases q with
    | group q => rw [eq_of_same (p := p) (by simpa only [same] using h)]
    | _ => simp [same] at h
  | all cs, q, h => by
    cases q with
    | all ds => rw [@eq_of_sameAll cs ds (by simpa only [same] using h)]
    | _ => simp [same] at h
  | optional p, q, h => by
    cases q with
    | optional q => rw [eq_of_same (p := p) (by simpa only [same] using h)]
    | _ => simp [same] at h
  | capture p v, q, h => by
    cases q with
    | capture q w =>
      simp only [same, Bool.and_eq_true, decide_eq_true_eq] at h
      rw [h.1, eq_of_same h.2]
    | _ => simp [same] at h

theorem eq_of_sameAll : ∀ {ps qs : List Pattern}, sameAll ps qs = true → ps = qs
  | [], [], _ => rfl
  | [], _ :: _, h => by simp [sameAll] at h
  | _ :: _, [], h => by simp [sameAll] at h
  | p :: ps, q :: qs, h => by
    simp only [sameAll, Bool.and_eq_true] at h
    rw [eq_of_same h.1, eq_of_sameAll h.2]

end

mutual

theorem same_self : ∀ p : Pattern, same p p = true
  | node a cs => by simp [same, sameAll_self cs]
  | related op p => by simp [same, same_self p]
  | not p => by simp [same, same_self p]
  | or p q => by simp [same, same_self p, same_self q]
  | group p => by simp [same, same_self p]
  | all cs => by simp [same, sameAll_self cs]
  | optional p => by simp [same, same_self p]
  | capture p v => by simp [same, same_self p]

theorem sameAll_self : ∀ ps : List Pattern, sameAll ps ps = true
  | [] => by simp [sameAll]
  | p :: ps => by simp [sameAll, same_self p, sameAll_self ps]

end

instance : DecidableEq Pattern := fun p q =>
  if h : same p q then isTrue (eq_of_same h)
  else isFalse fun e => h (e ▸ same_self p)

/-- The anchor `a` without constraints. -/
def ofAnchor (a : Anchor) : Pattern :=
  node a []

/-- Adds a constraint. A pattern other than a node becomes the operand of a constraint on the node
itself, so that the result is always a node. -/
def constrain (p : Pattern) (c : Pattern) : Pattern :=
  match p with
  | node a cs => node a (cs ++ [c])
  | p => node .any [related .self p, c]

end Pattern

end TreeQuery
