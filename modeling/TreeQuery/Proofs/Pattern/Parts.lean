import TreeQuery.Pattern.Basic

namespace TreeQuery

variable [RegexEngine]

/-- A variable that is bound, or one that has to be bound already. -/
inductive Mention
  | capture (var : String)
  | reference (var : String)
deriving DecidableEq

namespace Mention

def var : Mention → String
  | capture v => v
  | reference v => v

def captured? : Mention → Option String
  | capture v => some v
  | reference _ => none

def referenced? : Mention → Option String
  | capture _ => none
  | reference v => some v

end Mention

/-- The anchor inside a capture is tested before the variable is bound. -/
def Anchor.mentions : Anchor → List Mention
  | sameAs var => [.reference var]
  | differentFrom var => [.reference var]
  | capture anchor var => anchor.mentions ++ [.capture var]
  | _ => []

namespace Pattern

/-- Induction over a pattern and all that it is made of. -/
@[induction_eliminator]
theorem induction {motive : Pattern → Prop}
    (node : ∀ a cs, (∀ c ∈ cs, motive c) → motive (.node a cs))
    (related : ∀ op p, motive p → motive (.related op p))
    (not : ∀ p, motive p → motive (.not p))
    (or : ∀ p q, motive p → motive q → motive (.or p q))
    (group : ∀ p, motive p → motive (.group p))
    (all : ∀ cs, (∀ c ∈ cs, motive c) → motive (.all cs))
    (optional : ∀ p, motive p → motive (.optional p))
    (capture : ∀ p var, motive p → motive (.capture p var)) (p : Pattern) : motive p :=
  @Pattern.rec _ motive (fun cs => ∀ c ∈ cs, motive c) node related not or group all optional
    capture (fun _ h => absurd h List.not_mem_nil)
    (fun _ _ hc hcs => List.forall_mem_cons.mpr ⟨hc, hcs⟩) p

section Collect

variable {α : Type} (ofAnchor : Anchor → List α) (ofOperator : Operator → List α)
  (ofCapture : String → List α)

mutual

/-- Lists what is asked for, in the order of evaluation. -/
def collect : Pattern → List α
  | node a cs => ofAnchor a ++ collectAll cs
  | related op p => ofOperator op ++ collect p
  | not p => collect p
  | or p q => collect p ++ collect q
  | group p => collect p
  | all cs => collectAll cs
  | optional p => collect p
  | capture p var => collect p ++ ofCapture var

def collectAll : List Pattern → List α
  | [] => []
  | c :: cs => collect c ++ collectAll cs

end

theorem collectAll_eq (cs : List Pattern) :
    collectAll ofAnchor ofOperator ofCapture cs =
      cs.flatMap (collect ofAnchor ofOperator ofCapture) := by
  induction cs with
  | nil => rfl
  | cons c cs ih => rw [collectAll, ih, List.flatMap_cons]

end Collect

def anchors : Pattern → List Anchor :=
  collect (fun a => [a]) (fun _ => []) (fun _ => [])

def operators : Pattern → List Operator :=
  collect (fun _ => []) (fun op => [op]) (fun _ => [])

def mentions : Pattern → List Mention :=
  collect Anchor.mentions (fun _ => []) (fun var => [.capture var])

/-- The variables that the pattern binds. -/
def captures (p : Pattern) : List String :=
  p.mentions.filterMap Mention.captured?

/-- The variables that the pattern compares with. -/
def references (p : Pattern) : List String :=
  p.mentions.filterMap Mention.referenced?

/-- Neither of the operators that have no meaning occurs. -/
def Supported (p : Pattern) : Prop :=
  .nextSibling ∉ p.operators ∧ .laterSibling ∉ p.operators

instance (p : Pattern) : Decidable p.Supported :=
  inferInstanceAs (Decidable (_ ∧ _))

/-- The patterns that a pattern is made of, one level down. -/
inductive Part : Pattern → Pattern → Prop
  | constraint {a c cs} : c ∈ cs → Part c (node a cs)
  | operand {op p} : Part p (related op p)
  | negated {p} : Part p (not p)
  | left {p q} : Part p (or p q)
  | right {p q} : Part q (or p q)
  | grouped {p} : Part p (group p)
  | member {c cs} : c ∈ cs → Part c (all cs)
  | option {p} : Part p (optional p)
  | captured {p var} : Part p (capture p var)

/-- What is found in a part is found in the whole. -/
theorem Part.collect_subset {c p : Pattern} (h : Part c p) {α : Type} (f : Anchor → List α)
    (g : Operator → List α) (k : String → List α) : collect f g k c ⊆ collect f g k p := by
  intro x hx
  cases h with
  | constraint hc =>
    rw [collect, collectAll_eq]
    exact List.mem_append_right _ (List.mem_flatMap.mpr ⟨c, hc, hx⟩)
  | member hc =>
    rw [collect, collectAll_eq]
    exact List.mem_flatMap.mpr ⟨c, hc, hx⟩
  | operand | right => exact List.mem_append_right _ hx
  | left | captured => exact List.mem_append_left _ hx
  | negated | grouped | option => exact hx

theorem Supported.part {c p : Pattern} (hp : p.Supported) (h : Part c p) : c.Supported :=
  ⟨fun hc => hp.1 (h.collect_subset _ _ _ hc), fun hc => hp.2 (h.collect_subset _ _ _ hc)⟩

theorem Supported.operator {op : Operator} {p : Pattern} (hs : (related op p).Supported) :
    op ≠ .nextSibling ∧ op ≠ .laterSibling := by
  constructor <;> rintro rfl
  · exact hs.1 List.mem_cons_self
  · exact hs.2 List.mem_cons_self

theorem mem_captures {p : Pattern} {var : String} :
    var ∈ p.captures ↔ .capture var ∈ p.mentions := by
  rw [captures, List.mem_filterMap]
  constructor
  · rintro ⟨_ | _, hm, he⟩ <;> cases he
    exact hm
  · exact fun hm => ⟨_, hm, rfl⟩

theorem mem_references {p : Pattern} {var : String} :
    var ∈ p.references ↔ .reference var ∈ p.mentions := by
  rw [references, List.mem_filterMap]
  constructor
  · rintro ⟨_ | _, hm, he⟩ <;> cases he
    exact hm
  · exact fun hm => ⟨_, hm, rfl⟩

theorem Part.references_subset {c p : Pattern} (h : Part c p) : c.references ⊆ p.references :=
  fun _ hv => mem_references.mpr (h.collect_subset _ _ _ (mem_references.mp hv))

theorem Part.captures_subset {c p : Pattern} (h : Part c p) : c.captures ⊆ p.captures :=
  fun _ hv => mem_captures.mpr (h.collect_subset _ _ _ (mem_captures.mp hv))

end Pattern

end TreeQuery
