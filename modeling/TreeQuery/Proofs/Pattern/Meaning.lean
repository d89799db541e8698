import TreeQuery.Proofs.Pattern.Operators
import TreeQuery.Proofs.Pattern.Parts
import TreeQuery.Proofs.Pattern.Tests
import TreeQuery.Regex.Engine
import TreeQuery.Unicode.Version15

namespace TreeQuery

/-- Nodes compare by their categories or, where neither has one, by their labels. -/
def Mark.Alike (a b : Mark) : Prop :=
  a.category = b.category ∧ (a.category = none → a.label = b.label)

theorem Mark.agrees_iff {a b : Mark} : a.agrees b = true ↔ a.Alike b := by
  unfold agrees Alike
  rcases a.category with _ | c <;> rcases b.category with _ | d <;> simp

namespace Anchor

variable [RegexEngine]

/-- What an anchor says of a node; backreferences are read from `s`. -/
def HoldsOf (t : Tree) (s : Bindings) (n : Node) : Anchor → Prop
  | any => True
  | label text => n.label = text
  | labelMatching re => re.isMatch n.label = true
  | word text => n.children = [] ∧ n.word = some text
  | wordMatching re => n.children = [] ∧ ∃ w, n.word = some w ∧ re.isMatch w = true
  | category text => ∃ c, n.category = some c ∧ c.toText = text
  | categoryMatching re => ∃ c, n.category = some c ∧ re.isMatch c.toText = true
  | sameAs var => ∃ id m, s.lookup? var = some id ∧ t.get? id = some m ∧ m.Alike n.toMark
  | differentFrom var => ∃ id m, s.lookup? var = some id ∧ t.get? id = some m ∧ ¬ m.Alike n.toMark
  | capture anchor _ => anchor.HoldsOf t s n

def Holds (t : Tree) (s : Bindings) (id : NodeId) (a : Anchor) : Prop :=
  ∃ n, t.get? id = some n ∧ a.HoldsOf t s n

end Anchor

namespace Pattern

variable [RegexEngine]

mutual

/-- What a pattern says of a node; backreferences are read from `s`. -/
def Holds (t : Tree) (s : Bindings) : Pattern → NodeId → Prop
  | node a cs, id => a.Holds t s id ∧ HoldsAll t s cs id
  | related op p, id => op.Holds t id (Holds t s p)
  | not p, id => ¬ Holds t s p id
  | or p q, id => Holds t s p id ∨ Holds t s q id
  | group p, id => Holds t s p id
  | all cs, id => HoldsAll t s cs id
  | optional _, _ => True
  | capture p _, id => Holds t s p id

def HoldsAll (t : Tree) (s : Bindings) : List Pattern → NodeId → Prop
  | [], _ => True
  | c :: cs, id => Holds t s c id ∧ HoldsAll t s cs id

end

theorem holdsAll_iff {t : Tree} {s : Bindings} {cs : List Pattern} {id : NodeId} :
    HoldsAll t s cs id ↔ ∀ c ∈ cs, c.Holds t s id := by
  induction cs with
  | nil => simp [HoldsAll]
  | cons c cs ih => rw [HoldsAll, ih, List.forall_mem_cons]

end Pattern

namespace Test

/-- The test always gives one and the same answer, which tells whether `P` holds. -/
def Decides (a : Test) (P : Bindings → Prop) : Prop :=
  ∃ b, ∀ s, (a s).answer = .ok b ∧ (b = true ↔ P s)

variable {a b : Test} {P Q : Bindings → Prop}

theorem Decides.congr (ha : a.Decides P) (hpq : ∀ s, P s ↔ Q s) : a.Decides Q := by
  obtain ⟨x, hx⟩ := ha
  exact ⟨x, fun s => ⟨(hx s).1, (hx s).2.trans (hpq s)⟩⟩

theorem decides_answer {x : Bool} (h : ∀ s, x = true ↔ P s) : (answer x).Decides P :=
  ⟨x, fun s => ⟨rfl, h s⟩⟩

theorem Decides.both (ha : a.Decides P) (hb : b.Decides Q) :
    (both a b).Decides fun s => P s ∧ Q s := by
  obtain ⟨x, hx⟩ := ha
  obtain ⟨y, hy⟩ := hb
  refine ⟨x && y, fun s => ⟨?_, ?_⟩⟩
  · cases x with
    | true =>
      rw [both_of_true (hx s).1]
      exact (hy _).1
    | false =>
      rw [both_of_not_true (by simp [(hx s).1])]
      exact (hx s).1
  · rw [Bool.and_eq_true, (hx s).2, (hy s).2]

theorem Decides.either (ha : a.Decides P) (hb : b.Decides Q) :
    (either a b).Decides fun s => P s ∨ Q s := by
  obtain ⟨x, hx⟩ := ha
  obtain ⟨y, hy⟩ := hb
  refine ⟨x || y, fun s => ⟨?_, ?_⟩⟩
  · cases x with
    | true =>
      rw [either_of_not_false (by simp [(hx s).1])]
      exact (hx s).1
    | false =>
      rw [either_of_false (hx s).1]
      exact (hy _).1
  · rw [Bool.or_eq_true, (hx s).2, (hy s).2]

theorem Decides.not (ha : a.Decides P) : (not a).Decides fun s => ¬ P s := by
  obtain ⟨x, hx⟩ := ha
  refine ⟨!x, fun s => ⟨?_, ?_⟩⟩
  · rw [not_eq, (hx s).1]
    rfl
  · simp [← (hx s).2]

theorem Decides.optional (ha : a.Decides P) : (optional a).Decides fun _ => True := by
  obtain ⟨x, hx⟩ := ha
  refine ⟨true, fun s => ⟨?_, by simp⟩⟩
  rw [optional_eq, (hx s).1]
  rfl

theorem Decides.capture (ha : a.Decides P) (var : String) (id : NodeId) :
    (capture a var id).Decides P := by
  rw [capture_eq]
  have hb : Decides (fun s => ⟨.ok true, s.bind var id⟩) fun _ => True :=
    ⟨true, fun _ => ⟨rfl, by simp⟩⟩
  exact (ha.both hb).congr (by simp)

theorem decides_any {α : Type} {f : α → Test} {P : α → Bindings → Prop} {ids : List α}
    (h : ∀ id ∈ ids, (f id).Decides (P id)) :
    (any (ids.map f)).Decides fun s => ∃ id ∈ ids, P id s := by
  induction ids with
  | nil => exact decides_answer (by simp)
  | cons id ids ih =>
    obtain ⟨hid, hids⟩ := List.forall_mem_cons.mp h
    exact (hid.either (ih hids)).congr (by simp)

theorem decides_all {α : Type} {f : α → Test} {P : α → Bindings → Prop} {ids : List α}
    (h : ∀ id ∈ ids, (f id).Decides (P id)) :
    (all (ids.map f)).Decides fun s => ∀ id ∈ ids, P id s := by
  induction ids with
  | nil => exact decides_answer (by simp)
  | cons id ids ih =>
    obtain ⟨hid, hids⟩ := List.forall_mem_cons.mp h
    exact (hid.both (ih hids)).congr (by simp)

end Test

theorem Node.leafWord_eq_some {n : Node} {w : String} :
    n.leafWord? = some w ↔ n.children = [] ∧ n.word = some w := by
  simp [leafWord?, isLeaf]

theorem Anchor.testNode_decides [RegexEngine] {t : Tree} {n : Node} {id : NodeId} {a : Anchor}
    (hr : ∀ var, .reference var ∉ a.mentions) :
    (a.testNode t n id).Decides fun s => a.HoldsOf t s n := by
  induction a with
  | any => exact Test.decides_answer (by simp [HoldsOf])
  | label text => exact Test.decides_answer (by simp [HoldsOf])
  | labelMatching re => exact Test.decides_answer (by simp [HoldsOf])
  | word text => exact Test.decides_answer (by simp [HoldsOf, Node.leafWord_eq_some])
  | wordMatching re =>
    exact Test.decides_answer (by simp [HoldsOf, Option.any_eq_true, Node.leafWord_eq_some,
      and_assoc])
  | category text => exact Test.decides_answer (by simp [HoldsOf])
  | categoryMatching re => exact Test.decides_answer (by simp [HoldsOf, Option.any_eq_true])
  | sameAs var | differentFrom var => exact absurd List.mem_cons_self (hr var)
  | capture anchor var ih =>
    exact (ih fun v hv => hr v (List.mem_append_left _ hv)).capture var id

theorem Anchor.test_decides [RegexEngine] {t : Tree} {id : NodeId} (hid : id < t.size) {a : Anchor}
    (hr : ∀ var, .reference var ∉ a.mentions) :
    (a.test t id).Decides fun s => a.Holds t s id := by
  obtain ⟨n, hn⟩ := Tree.lt_size_iff.mp hid
  rw [test_of_get hn]
  exact (testNode_decides hr).congr fun s => by simp [Holds, hn]

/-- If the operand is decided at every node, so is an operator that has a meaning. -/
theorem Operator.test_decides {t : Tree} (h : t.WellFormed) {id : NodeId} (hid : id < t.size)
    {op : Operator} (hop : op ≠ .nextSibling ∧ op ≠ .laterSibling) {operand : NodeId → Test}
    {P : Bindings → NodeId → Prop}
    (hp : ∀ m < t.size, (operand m).Decides fun s => P s m) :
    (op.test t id operand).Decides fun s => op.Holds t id (P s) := by
  cases hrel : op.isRelational with
  | true =>
    rw [test_eq_targets h.linked hid hrel]
    refine (Test.decides_any fun m hm => hp m (targets_lt h.linked hid hm)).congr fun s => ?_
    simp only [holds_of_relational hrel, mem_targets h]
  | false =>
    cases op with
    | everyChild =>
      rw [test_everyChild hid]
      cases hl : t.isLeaf id with
      | true => exact Test.decides_answer (by simp [Holds, hl])
      | false =>
        have hc : ∀ m ∈ t.children id, m < t.size := fun m hm => h.descending.child_lt hm
        refine (Test.decides_all fun m hm => hp m (hc m hm)).congr fun s => ?_
        simp [Holds, hl, Tree.Child]
    | childCount k =>
      rw [test_childCount hid]
      exact Test.decides_answer (by simp [Holds])
    | headIndex k =>
      obtain ⟨n, hn⟩ := Tree.lt_size_iff.mp hid
      rw [test_headIndex hn]
      exact Test.decides_answer (by simp [Holds, hn])
    | nextSibling => exact absurd rfl hop.1
    | laterSibling => exact absurd rfl hop.2
    | _ => cases hrel

namespace Pattern

section

variable [RegexEngine]

/-- Evaluation decides the meaning of a pattern. The answer is found before any bindings are looked
at, so it is the same for all of them. -/
theorem test_iff_holds {t : Tree} (h : t.WellFormed) {id : NodeId} (hid : id < t.size)
    {p : Pattern} (hr : p.references = []) (hs : p.Supported) :
    ∃ b, ∀ s, (p.test t id s).answer = .ok b ∧ (b = true ↔ p.Holds t s id) := by
  change (p.test t id).Decides fun s => p.Holds t s id
  have part : ∀ {c p : Pattern}, Part c p → p.references = [] → c.references = [] :=
    fun hc hr => List.subset_nil.mp (hr ▸ hc.references_subset)
  induction p generalizing id with
  | node a cs ih =>
    have ha : ∀ var, .reference var ∉ a.mentions := fun var hv =>
      List.not_mem_nil (hr ▸ mem_references.mpr (List.mem_append_left _ hv))
    have hall : (testAll t cs id).Decides fun s => ∀ c ∈ cs, c.Holds t s id := by
      rw [testAll_eq]
      exact Test.decides_all fun c hc =>
        ih c hc hid (part (.constraint hc) hr) (hs.part (.constraint hc))
    exact ((Anchor.test_decides hid ha).both hall).congr fun s => by rw [Holds, holdsAll_iff]
  | related op p ih =>
    exact Operator.test_decides h hid hs.operator fun m hm =>
      ih hm (part .operand hr) (hs.part .operand)
  | not p ih => exact (ih hid (part .negated hr) (hs.part .negated)).not
  | or p q ihp ihq =>
    exact (ihp hid (part .left hr) (hs.part .left)).either
      (ihq hid (part .right hr) (hs.part .right))
  | group p ih => exact ih hid (part .grouped hr) (hs.part .grouped)
  | all cs ih =>
    have hall : (testAll t cs id).Decides fun s => ∀ c ∈ cs, c.Holds t s id := by
      rw [testAll_eq]
      exact Test.decides_all fun c hc =>
        ih c hc hid (part (.member hc) hr) (hs.part (.member hc))
    exact hall.congr fun s => holdsAll_iff.symm
  | optional p ih => exact (ih hid (part .option hr) (hs.part .option)).optional
  | capture p var ih => exact (ih hid (part .captured hr) (hs.part .captured)).capture var id

end

/-- A sentence that a verb phrase heads and in which nothing comes after `ran`. -/
def verbHeaded : Pattern :=
  .node (.label "S")
    [.related .headChain (.capture (.node (.label "VP") []) "V"),
     .not (.related .descendant (.node (.word "ran") [.related .nextLeaf (.node .any [])]))]

theorem test_iff_holds_sentence :
    Tree.sentence.WellFormed ∧ 0 < Tree.sentence.size ∧ verbHeaded.references = [] ∧
      verbHeaded.Supported ∧ ∃ b, ∀ s, (verbHeaded.test Tree.sentence 0 s).answer = .ok b ∧
        (b = true ↔ verbHeaded.Holds Tree.sentence s 0) :=
  have hr : verbHeaded.references = [] := by decide
  have hs : verbHeaded.Supported := by decide
  ⟨Tree.sentence_wellFormed, by decide, hr, hs,
    test_iff_holds Tree.sentence_wellFormed (by decide) hr hs⟩

end Pattern

end TreeQuery
